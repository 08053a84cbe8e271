import CoAwait.Processes
import CoAwait.Simulation

/-!
# Every run of the coroutines is a run of processes that block

* `step_inside`: the processes do not notice what the library does.
* `step_follows`: user code that calls the library, and a body or a thread that goes on, is a step of a process.
* `Matches.second`, `Matches.stuck`: when the assertion of `suspend` fails; who is left where nothing can go on.
* `coroutines_block`: the simulation.
-/

namespace CoAwait.Routine

open Runs Tokens
open Processes (Process Status)

variable {s u : State} {s' u' : Processes.State} {p : Process} {st : Status} {d e n j t : Nat} {aw : Awaitable}
  {a : Act} {f g : Frame} {top top' rest l : List Frame}

/-! ## Steps inside the library -/

/-- What user code, and the processes, see of a step: it is inside the library. -/
structure Inside (top top' : List Frame) : Prop where
  idle : ∀ f ∈ top, f.idle = false
  wait : ∀ f b, top = [.wait f b] → top' ≠ []
  enter : ∀ d via, top = [.run d via .enter] → via = .ctor

theorem Via.again_ne_ctor (via : Via) : via.again ≠ .ctor := by
  cases via <;> simp [Via.again]

theorem Woken.enter_again {via : Via} (h : Woken s' d) : (Frame.run d via.again .enter).Told s' t st := by
  simpa [Frame.Told, RunPc.Told, via.again_ne_ctor] using h

theorem Matches.woken_ended (hm : Matches s s') (hst : s'.status (.coroutine d) = .blocked (.routine e))
    (hp : s.mPull e = false) : Woken s' d :=
  ⟨_, hst, by simp [Processes.State.ready, (hm.ended e hp).2]⟩

theorem Matches.ready {f : Future} (hm : Matches s s') (hr : (s.fut f).isReady = true) :
    s'.ready f.awaitable = true := by
  cases f <;> simp [Future.awaitable, Processes.State.ready, hm.values _ hr]

theorem step_told (hw : Watched s) (hm : Matches s s') (h : Step s t top top' rest u) (hin : Inside top top')
    (hok : ∀ f ∈ s.suspends t, (s.fut f).continuationPtr = .empty ∨ (s.fut f).isReady = true) :
    Told s' t .running (top' ++ rest) := by
  have hold := hm.frames t
  rw [h.before] at hold
  have hidle : ∀ {f : Frame}, f ∈ top → f.idle = true → False := fun hf hidle => by
    rw [hin.idle _ hf] at hidle
    cases hidle
  have hsound := hw.sound h
  have hopen := hw.opens_top h
  cases h with
  | stay => exact hold
  | move hs hmv =>
    cases hmv with
    | await => exact (hidle List.mem_cons_self rfl).elim
    | wait hg => exact (hidle List.mem_cons_self hg).elim
    | waitReady | waitDone => exact absurd rfl (hin.wait _ _ rfl)
    | nothingLeft => exact ⟨trivial, hold.2⟩
    | @suspendReady d j n via hp =>
      have hr : (s.fut (.plain n)).isReady = true := (hok _ (by simp [State.suspends, hs])).resolve_left hp
      exact ⟨Woken.enter_again ⟨_, hold.1, hm.ready hr⟩, hold.2⟩
    | spin => exact hold
    | resumed => exact ⟨by simp [Frame.Told], hold.2.2⟩
    | @loop d => exact ⟨by simpa [Frame.Told, RunPc.Told] using hold.1 d rfl, trivial, hold.2⟩
    | loopEnd => exact hold.2
  | construct _ hf | setValue _ hf _ | handler _ hf => exact (hidle List.mem_cons_self hf).elim
  | finish => exact (hidle List.mem_cons_self rfl).elim
  | @enter _ _ d via =>
    obtain rfl := hin.enter d via rfl
    exact ⟨by simpa [Frame.Told, RunPc.Told] using hold.1, trivial, hold.2⟩
  | leave => exact ⟨trivial, hold.2.2⟩
  | fetch _ hp => exact ⟨hm.left _ _ _ hp, hold.2⟩
  | registerFuture | registerContext | awaitParked | waitRegister => exact ⟨trivial, hold.2⟩
  | awaitExchange | awaitRegister | runPostLeave | setContinuation => exact hold
  | @awaitRefused _ _ d j e via c hs hp =>
    have hr : (s.fut (.result e)).isReady = true := (hok _ (by simp [State.suspends, hs])).resolve_left hp
    exact ⟨Woken.enter_again (hm.woken_ended hold.1 (hw.published e hr)), hold.2⟩
  | @awaitSpun _ _ d j e via =>
    have ho : (RunPc.awaitSpin j e).Opens s d via := hopen _ List.mem_cons_self
    exact ⟨Woken.enter_again (hm.woken_ended hold.1 (hw.disabled e ho.2.2)), hold.2⟩
  | constructed | repost => exact hold.2
  | @ended _ _ d =>
    have hp : s.mPull d = false := (hsound _ List.mem_cons_self).1
    exact ⟨fun x hx => hm.woken_ended (hm.continued d x hx) hp, hold.2⟩
  | @setResult _ _ d _ _ _ _ _ hc =>
    have hp : s.mPull d = false := (hsound _ List.mem_cons_self).1
    cases hc with
    | alone | cv => exact hold
    | runner hk => exact ⟨hm.woken_ended (hm.parked _ _ _ hk) hp, hold⟩
  | ret => exact ⟨hold.1, hold.2.2⟩
  | @exchange _ _ k hs =>
    refine ⟨fun x hx => ?_, hold.2⟩
    obtain ⟨rfl, -⟩ := hw.runners k x (hw.live_of_mem (t := t) (by rw [hs]; exact List.mem_cons_self)) hx
    exact hold.1

/-- Registering changes the pointer of a future that is not complete, and the value of none. -/
theorem registered_values (hm : Matches s s') {f : Future} {k : Handle Task} (hp : (s.fut f).continuationPtr = .empty)
    (hk : k ≠ .invalid) (hfut : u.fut = Function.update s.fut f { s.fut f with continuationPtr := k }) :
    (∀ n, (u.fut (.plain n)).isReady = false → s'.value (.plain n) = none) ∧
      ∀ g, (u.fut g).isReady = true → s'.value g = some (u.fut g).value := by
  refine ⟨fun n hr => hm.pending n ?_, fun g hr => ?_⟩
  · by_cases hf : Future.plain n = f
    · rw [hf, LightFutureData.isReady_eq_false_iff, hp]
      simp
    · simpa [hfut, hf] using hr
  · by_cases hf : g = f
    · subst hf
      simp [hfut, hk] at hr
    · simpa [hfut, hf] using hm.values g (by simpa [hfut, hf] using hr)

theorem step_values (hw : Watched s) (hm : Matches s s') (h : Step s t top top' rest u) (hin : Inside top top') :
    (∀ n, (u.fut (.plain n)).isReady = false → s'.value (.plain n) = none) ∧
      ∀ g, (u.fut g).isReady = true → s'.value g = some (u.fut g).value := by
  have hsound := hw.sound h
  cases h with
  | setValue _ hf =>
    rw [hin.idle _ List.mem_cons_self] at hf
    cases hf
  | @setResult _ _ d _ _ _ _ _ hc =>
    rw [hc.fut]
    refine ⟨fun n hr => hm.pending n (by simpa using hr), fun g hr => ?_⟩
    by_cases hg : g = .result d
    · subst hg
      simpa using (hm.ended d (hsound _ List.mem_cons_self).1).2
    · simpa [hg] using hm.values g (by simpa [hg] using hr)
  | registerFuture _ hp | awaitRegister _ hp | waitRegister _ hp => exact registered_values hm hp (by simp) rfl
  | @ret _ _ d k res =>
    obtain ⟨_, _, hret⟩ := s.returnRes_frame t d res (.runner k (.loop res) :: rest)
    rw [hret]
    exact ⟨hm.pending, hm.values⟩
  | _ => exact ⟨hm.pending, hm.values⟩

theorem Told.mem (hl : Told s' t st l) (hf : f ∈ l) (hidle : f.idle = false) : f.Told s' t .running := by
  induction l generalizing st with
  | nil => cases hf
  | cons g l ih =>
    rcases List.mem_cons.1 hf with rfl | hf'
    · have hfirst := hl.1
      cases f with
      | main => cases hidle
      | body d leaving =>
        cases leaving with
        | none => cases hidle
        | some aw => exact hfirst
      | runner k pc => cases pc <;> exact hfirst
      | run | wait => exact hfirst
    · exact ih hl.2 hf'

theorem Matches.told (hm : Matches s s') (h : Step s t top top' rest u) (hf : f ∈ top) (hidle : f.idle = false) :
    f.Told s' t .running :=
  (hm.frames t).mem (h.mem hf) hidle

theorem step_queued (hm : Matches s s') (h : Step s t top top' rest u) : ∀ c, ∀ k ∈ u.queue c, Woken s' k.1 := by
  have hold := hm.frames t
  rw [h.before] at hold
  intro c k hk
  have happend : ∀ {c' : Nat} {k' : RunnerId}, u.queue = Function.update s.queue c' (s.queue c' ++ [k']) →
      Woken s' k'.1 → Woken s' k.1 := by
    intro c' k' hq hnew
    by_cases hc : c = c'
    · subst hc
      rw [hq, Function.update_self, List.mem_append, List.mem_singleton] at hk
      rcases hk with hk | rfl
      · exact hm.queued c k hk
      · exact hnew
    · exact hm.queued c k (by simpa [hq, hc] using hk)
  cases h with
  | setValue _ _ hc | setResult _ hc => exact hm.queued c k (by cases hc <;> exact hk)
  | ret =>
    obtain ⟨_, _, hret⟩ := s.returnRes_frame _ _ _ _
    rw [hret] at hk
    exact hm.queued c k hk
  | @handler _ _ c' i =>
    by_cases hc : c = c'
    · subst hc
      exact hm.queued c k (List.mem_of_mem_eraseIdx (by simpa using hk))
    · exact hm.queued c k (by simpa [hc] using hk)
  | registerContext => exact happend rfl ⟨_, hold.1, rfl⟩
  | repost => exact happend rfl hold.1
  | _ => exact hm.queued c k hk

theorem step_continued (hw : Watched s) (hm : Matches s s') (h : Step s t top top' rest u) :
    ∀ e d, u.mContinuation e = .data d → s'.status (.coroutine d) = .blocked (.routine e) := by
  have hold := hm.frames t
  rw [h.before] at hold
  have hsound := hw.sound h
  intro e d hc
  cases h with
  | setValue _ _ hcm | setResult _ hcm => exact hm.continued e d (by cases hcm <;> exact hc)
  | ret =>
    obtain ⟨_, _, hret⟩ := s.returnRes_frame _ _ _ _
    rw [hret] at hc
    exact hm.continued e d hc
  | @awaitParked _ _ d' j e' via c =>
    by_cases he : e = e'
    · subst he
      obtain ⟨-, rfl, -⟩ := hsound _ List.mem_cons_self
      obtain rfl : d' = d := by simpa using hc
      exact hold.1
    · exact hm.continued e d (by simpa [he, State.goto] using hc)
  | @ended _ _ d' =>
    by_cases he : e = d'
    · subst he
      simp at hc
    · exact hm.continued e d (by simpa [he, State.goto] using hc)
  | @setContinuation _ _ d' _ _ c _ hcc =>
    by_cases he : e = d'
    · subst he
      rw [hcc] at hc
      split at hc
      case isTrue => simp at hc
      case isFalse => exact hm.continued e d (by simpa using hc)
    · exact hm.continued e d (by simpa [he, State.goto] using hc)
  | _ => exact hm.continued e d hc

theorem step_ended (hm : Matches s s') (h : Step s t top top' rest u) (hin : Inside top top') :
    ∀ d, u.mPull d = false →
      s'.status (.coroutine d) = .ended ∧ s'.value (.result d) = some (u.mSetResult d) := by
  intro d hp
  cases h with
  | finish => cases hin.idle _ List.mem_cons_self
  | setValue _ _ hc | setResult _ hc =>
    have hold := hm.ended d
    cases hc <;> exact hold hp
  | ret =>
    obtain ⟨_, _, hret⟩ := s.returnRes_frame _ _ _ _
    rw [hret] at hp ⊢
    exact hm.ended d hp
  | _ => exact hm.ended d hp

/-- The processes do not notice a step inside the library. -/
theorem step_inside (hw : Watched s) (hm : Matches s s') (h : Step s t top top' rest u) (hin : Inside top top')
    (hok : ∀ f ∈ s.suspends t, (s.fut f).continuationPtr = .empty ∨ (s.fut f).isReady = true) : Matches u s' where
  frames := by
    intro v
    by_cases hv : v = t
    · subst hv
      rw [h.after, Function.update_self]
      exact step_told hw hm h hin hok
    · rw [h.after, Function.update_of_ne hv]
      exact hm.frames v
  left := by
    intro d j aw hp
    rcases h.left_new hp with hp | hf
    · exact hm.left d j aw hp
    · exact hm.told h hf rfl
  parked := by
    intro f d j hp
    rcases h.parked_new hp with hp | ⟨via, n, rfl, hf⟩ | ⟨via, e, c, rfl, hf⟩
    · exact hm.parked f d j hp
    · exact hm.told h hf rfl
    · exact hm.told h hf rfl
  queued := step_queued hm h
  continued := step_continued hw hm h
  unborn := fun d hd => hm.unborn d (le_trans h.born_le hd)
  active := by
    intro d hp
    refine hm.active d ?_
    by_contra hno
    rw [h.ended_stays (by simpa using hno)] at hp
    cases hp
  ended := step_ended hm h hin
  pending := (step_values hw hm h hin).1
  values := (step_values hw hm h hin).2

/-! ## Steps of the processes -/

theorem Frame.process_of_idle (hf : f.idle = true) (t : Nat) :
    ∃ p, f.process t = some p ∧ ∀ s' st, f.Told s' t st ↔ s'.status p = st := by
  obtain rfl | ⟨d, rfl⟩ := Frame.idle_cases hf <;> exact ⟨_, rfl, fun _ _ => Iff.rfl⟩

theorem Frame.above_idle (hf : f.idle = true) : f.above = .running := by
  obtain rfl | ⟨d, rfl⟩ := Frame.idle_cases hf <;> rfl

theorem Scope.owns (hi : Scope s) (hf : f ∈ s.stack t) (hp : f.process t = some p) : Owns s t f p := by
  cases f with
  | main => exact .inl ⟨rfl, by simpa [Frame.process, eq_comm] using hp⟩
  | body d leaving =>
    cases leaving with
    | none =>
      have hidle : s.Idle d := (hi.frames t _ hf).1
      have hopen : s.opened d = none := hi.opens t _ hf
      exact .inr ⟨d, by simpa [Frame.process, eq_comm] using hp, by simp,
        hi.no_runner hf (by simp) (by simp [hopen]), hidle⟩
    | some aw => cases hp
  | run | runner | wait => cases hp

theorem Owns.active (hi : Scope s) (hf : f ∈ s.stack t) (ho : Owns s t f (.coroutine d)) :
    d < s.born ∧ s.mPull d = true := by
  rcases ho with ⟨-, heq⟩ | ⟨d', heq, hd, -, hidle⟩
  · cases heq
  · cases heq
    exact ⟨(hi.unfinished_of_mem hf hd).1, hidle.active⟩

theorem frames_update (hothers : ∀ v, v ≠ t → Told u' v .running (s.stack v))
    (hu : u.stack = Function.update s.stack t l) (hl : Told u' t .running l) : ∀ v, Told u' v .running (u.stack v) := by
  intro v
  by_cases hv : v = t
  · subst hv
    rwa [hu, Function.update_self]
  · rw [hu, Function.update_of_ne hv]
    exact hothers v hv

/-- A process goes on, or blocks, and `t` with it. -/
theorem Matches.set (hm : Matches s s') (hi : Scope s) (ho : Alone s t rest p) (hrest : Told s' t .running rest)
    {mContext resumes : Nat → Nat} {mOuter current : Nat → Option Nat} {born : Nat} (hborn : s.born ≤ born)
    (hp : ∀ d, p = .coroutine d → d < born ∧ s.mPull d = true)
    (htop : Told (s'.set p st) t .running rest → Told (s'.set p st) t .running l) :
    Matches { s.goto t l with
      born := born, mContext := mContext, mOuter := mOuter, current := current, resumes := resumes } (s'.set p st) := by
  have ho' := hm.others hi ho (.set s' p st) hrest
  exact {
    frames := frames_update ho'.frames rfl (htop ho'.rest)
    left := ho'.left
    parked := ho'.parked
    queued := ho'.queued
    continued := ho'.continued
    unborn := fun d hd => by
      have hne : Process.coroutine d ≠ p := by
        rintro rfl
        exact absurd (hp d rfl).1 (Nat.not_lt.2 hd)
      exact (Function.update_of_ne hne ..).trans (hm.unborn d (hborn.trans hd))
    active := hm.active
    ended := fun d hd => by
      have hne : Process.coroutine d ≠ p := by
        rintro rfl
        have hpull := (hp d rfl).2
        rw [show s.mPull d = false from hd] at hpull
        cases hpull
      exact ⟨(Function.update_of_ne hne ..).trans (hm.ended d hd).1, (hm.ended d hd).2⟩
    pending := hm.pending
    values := hm.values }

theorem Matches.finish (hm : Matches s s') (hi : Scope s) {d' : Nat} {via : Via} {v : Value Unit} {pc : RunPc}
    (hs : s.stack t = .body d none :: .run d' via .pull :: rest)
    (hpc : pc = if via = .ctor then .runPostLeave .null else .ended) :
    Matches
      { s.goto t (.run d' via pc :: rest) with
        mPull := Function.update s.mPull d false
        mSetResult := Function.update s.mSetResult d v
        mPostLeave := Function.update s.mPostLeave d (some .setResult)
        current := Function.update s.current t (s.mOuter d) }
      { s'.set (.coroutine d) .ended with value := Function.update s'.value (.result d) (some v) } := by
  have hf : .body d none ∈ s.stack t := by simp [hs]
  have hidle : s.Idle d := (hi.frames t _ hf).1
  have hrest := hm.frames t
  rw [hs] at hrest
  have hacts : Acts s' (.coroutine d)
      { s'.set (.coroutine d) .ended with value := Function.update s'.value (.result d) (some v) } := by
    refine ⟨fun q hq => Function.update_of_ne hq .., fun f w hw => ?_⟩
    have hne : f ≠ .result d := by
      rintro rfl
      rw [hm.active d hidle.active] at hw
      cases hw
    exact (Function.update_of_ne hne ..).trans hw
  have ho := hm.others hi (hi.alone [.body d none, .run d' via .pull] hs List.mem_cons_self
    (hi.owns hf rfl)) hacts hrest.2.2
  exact {
    frames := frames_update ho.frames rfl ⟨by rw [hpc]; split <;> simp [Frame.Told, RunPc.Told], ho.rest⟩
    left := fun x j aw hp => by
      by_cases hx : x = d
      · subst hx
        simp at hp
      · exact ho.left x j aw (by simpa [hx] using hp)
    parked := ho.parked
    queued := ho.queued
    continued := ho.continued
    unborn := fun x hx => by
      have hne : Process.coroutine x ≠ .coroutine d := by
        rintro heq
        cases heq
        exact absurd (Owns.active hi hf (hi.owns hf rfl)).1 (Nat.not_lt.2 hx)
      exact (Function.update_of_ne hne ..).trans (hm.unborn x hx)
    active := fun x hx => by
      have hne : x ≠ d := by
        rintro rfl
        simp at hx
      simpa [hne] using hm.active x (by simpa [hne] using hx)
    ended := fun x hx => by
      by_cases hxd : x = d
      · simp [hxd, Processes.State.set]
      · simpa [hxd, Processes.State.set] using hm.ended x (by simpa [hxd] using hx)
    pending := fun n hr => by simpa using hm.pending n hr
    values := fun f hr => by
      have hne : f ≠ .result d := by
        rintro rfl
        have hend := hi.published d hr
        rw [hidle.active] at hend
        cases hend
      simpa [hne, State.goto] using hm.values f hr }

theorem Completed.pending {v : Value Unit} {f : Future} {pre : List Frame} (h : Completed s t f v l pre u) :
    (s.fut f).isReady = false := by
  rw [LightFutureData.isReady_eq_false_iff]
  cases h with
  | alone hp | runner hp | cv hp => simp [hp]

theorem Matches.complete (hm : Matches s s') (hi : Scope s) {v : Value Unit} {pre : List Frame}
    (hc : Completed s t (.plain n) v (s.stack t) pre u) :
    Matches u { s' with value := Function.update s'.value (.plain n) (some v) } := by
  have hnone : s'.value (.plain n) = none := hm.pending n hc.pending
  have hacts : Acts s' (.coroutine s.born) { s' with value := Function.update s'.value (.plain n) (some v) } := by
    refine ⟨fun _ _ => rfl, fun f w hw => ?_⟩
    have hne : f ≠ .plain n := by
      rintro rfl
      rw [hnone] at hw
      cases hw
    exact (Function.update_of_ne hne ..).trans hw
  have ho := hm.others hi (hi.alone_born (Nat.le_refl _) t) hacts (hm.frames t)
  have hpull : u.mPull = s.mPull := by cases hc <;> rfl
  exact {
    frames := frames_update ho.frames hc.after (by
      cases hc with
      | alone | cv => exact ho.rest
      | runner hp => exact ⟨⟨_, hm.parked _ _ _ hp, by simp [Processes.State.ready, Future.awaitable]⟩, ho.rest⟩)
    left := fun d j aw hp => ho.left d j aw (by cases hc <;> exact hp)
    parked := fun f d j hp => by
      by_cases hf : f = .plain n
      · subst hf
        simp [hc.fut] at hp
      · exact ho.parked f d j (by simpa [hc.fut, hf] using hp)
    queued := fun c k hk => ho.queued c k (by cases hc <;> exact hk)
    continued := fun e d hd => ho.continued e d (by cases hc <;> exact hd)
    unborn := fun d hd => hm.unborn d (by cases hc <;> exact hd)
    active := fun d hd => by simpa using hm.active d (by rwa [hpull] at hd)
    ended := fun d hd => by
      rw [hpull] at hd
      have hres : u.mSetResult = s.mSetResult := by cases hc <;> rfl
      simpa [hres] using hm.ended d hd
    pending := fun m hr => by
      have hne : m ≠ n := by
        rintro rfl
        simp [hc.fut] at hr
      simpa [hne] using hm.pending m (by simpa [hc.fut, hne] using hr)
    values := fun f hr => by
      by_cases hf : f = .plain n
      · subst hf
        simp [hc.fut]
      · simpa [hc.fut, hf] using hm.values f (by simpa [hc.fut, hf] using hr) }

/-- An operation of the library is one of the thread that makes it. -/
theorem thread_cases (h : step s (.step t) = some u) : ∃ top top' rest, Step s t top top' rest u := by
  obtain ⟨v, top, top', rest, hstep⟩ := step_cases h
  obtain ⟨l, hl, hlt⟩ := threadStep_restacked h
  obtain rfl : v = t := by
    by_contra hne
    have hsame : l = s.stack t := by
      rw [← Function.update_self t l s.stack, ← hl, hstep.after, Function.update_of_ne (Ne.symm hne)]
    rw [hsame] at hlt
    exact Nat.lt_irrefl _ hlt
  exact ⟨top, top', rest, hstep⟩

theorem Step.inside (h : Step s t top top' rest u) (hidle : ∀ f l, s.stack t = f :: l → f.idle = false)
    (hwait : ∀ f b l, s.stack t ≠ .wait f b :: l) (henter : ∀ d via l, s.stack t ≠ .run d via .enter :: l) :
    Inside top top' where
  idle := by
    intro f hf
    have htail : ∀ g ∈ top.tail, g.idle = false := by
      intro g hg
      cases h with
      | move _ hm =>
        cases hm with
        | resumed =>
          obtain rfl := List.mem_singleton.1 hg
          rfl
        | _ => cases hg
      | leave | finish | ret =>
        obtain rfl := List.mem_singleton.1 hg
        rfl
      | _ => cases hg
    cases top with
    | nil => cases hf
    | cons g top =>
      rcases List.mem_cons.1 hf with rfl | hf'
      · exact hidle _ _ h.before
      · exact htail f hf'
  wait := by
    rintro f b rfl
    exact absurd h.before (hwait f b rest)
  enter := by
    rintro d via rfl
    exact absurd h.before (henter d via rest)

theorem Matches.running (hm : Matches s s') (hs : s.stack t = f :: l) (hp : f.process t = some p) :
    s'.status p = .running := by
  have hold := hm.frames t
  rw [hs] at hold
  cases f with
  | main =>
    cases hp
    exact hold.1
  | body d leaving =>
    cases leaving with
    | none =>
      cases hp
      exact hold.1
    | some aw => cases hp
  | run | runner | wait => cases hp

/-- A thread that blocked goes on. -/
theorem Matches.waited (hm : Matches s s') (hi : Scope s) {f : Future} {b : Bool} (hs : s.stack t = .wait f b :: l)
    (hr : (s.fut f).isReady = true) : ∃ g rest p, l = g :: rest ∧ g.process t = some p ∧
      ∃ u', Processes.step s' (.go p) = some u' ∧ Matches (s.goto t l) u' := by
  have hst := hi.stacked t
  have hold := hm.frames t
  rw [hs] at hst hold
  cases l with
  | nil => cases hst
  | cons g rest =>
    obtain ⟨p, hp, htold⟩ := Frame.process_of_idle hst.1 t
    have hblocked : s'.status p = .blocked f.awaitable := (htold s' _).1 hold.2.1
    have habove := Frame.above_idle hst.1
    have hrest : Told s' t .running rest := by
      rw [← habove]
      exact hold.2.2
    have howns := hi.owns (f := g) (t := t) (by simp [hs]) hp
    refine ⟨g, rest, p, rfl, hp, s'.set p .running, by simp [Processes.step, hblocked, hm.ready hr], ?_⟩
    refine hm.set hi (hi.alone [.wait f b, g] hs (by simp) howns) hrest (Nat.le_refl _) ?_ fun h => ?_
    · rintro d rfl
      exact howns.active hi (by simp [hs])
    · refine ⟨(htold _ _).2 (Function.update_self ..), ?_⟩
      rw [habove]
      exact h

/-- The processes go along with a step of the coroutines. -/
def Follows (s : State) (s' : Processes.State) (a : Act) (u : State) : Prop :=
  match event s a with
  | none => Matches u s'
  | some b => ∃ u', Processes.step s' b = some u' ∧ Matches u u'

theorem construct_follows {ctx : Nat} (hm : Matches s s') (hi : Scope s) (hst : step s (.construct t ctx) = some u) :
    Follows s s' (.construct t ctx) u := by
  simp only [step] at hst
  split at hst
  case h_2 => cases hst
  case h_1 f rest hs =>
    split at hst
    case isFalse => cases hst
    case isTrue hidle =>
      obtain rfl := Option.some.inj hst
      obtain ⟨p, hp, -⟩ := Frame.process_of_idle hidle t
      simp only [Follows, event, State.process, hs, hp, Option.map_some]
      refine ⟨s'.set (.coroutine s.born) .running, ?_, ?_⟩
      · simp [Processes.step, hm.running hs hp, hm.unborn s.born (Nat.le_refl _)]
      · refine hm.set hi (hi.alone_born (Nat.le_refl _) t) (hm.frames t) (Nat.le_succ _) ?_ fun h => ?_
        · rintro d hd
          cases hd
          exact ⟨Nat.lt_succ_self _, (hi.blank _ (Nat.le_refl _)).active⟩
        · rw [hs] at h
          exact ⟨by simp [Frame.Told, RunPc.Told, Processes.State.set], h⟩

theorem await_follows (hm : Matches s s') (hi : Scope s) (hst : step s (.await t aw) = some u) :
    Follows s s' (.await t aw) u := by
  simp only [step] at hst
  split at hst
  case h_2 => cases hst
  case h_1 d rest hs =>
    have hf : .body d none ∈ s.stack t := by simp [hs]
    have hrun : s'.status (.coroutine d) = .running := hm.running hs rfl
    simp only [Follows, event, State.process, hs, Frame.process, Option.map_some]
    split at hst
    case isFalse => cases hst
    case isTrue =>
      split at hst
      case isTrue hr =>
        obtain rfl := Option.some.inj hst
        have hready : s'.ready aw = true := by
          cases aw with
          | future n => exact hm.ready (f := .plain n) hr
          | routine e => exact hm.ready (f := .result e) hr
          | context c => rfl
        exact ⟨s', by simp [Processes.step, hr, hrun, hready], hm⟩
      case isFalse hr =>
        obtain rfl := Option.some.inj hst
        have hold := hm.frames t
        rw [hs] at hold
        rw [if_neg hr]
        refine ⟨s'.set (.coroutine d) (.blocked aw), by simp [Processes.step, hrun], ?_⟩
        refine hm.set hi (hi.alone [.body d none] hs List.mem_cons_self (hi.owns hf rfl)) hold.2
          (Nat.le_refl _) ?_ fun h => ⟨Function.update_self .., h⟩
        rintro x hx
        cases hx
        exact (hi.owns hf rfl).active hi hf

theorem finish_follows {v : Value Unit} (hm : Matches s s') (hi : Scope s) (hst : step s (.finish t v) = some u) :
    Follows s s' (.finish t v) u := by
  simp only [step] at hst
  split at hst
  case h_2 => cases hst
  case h_1 d d' via rest hs =>
    obtain rfl := Option.some.inj hst
    simp only [Follows, event, State.process, hs, Frame.process]
    exact ⟨_, by simp [Processes.step, hm.running hs rfl], hm.finish hi hs rfl⟩

theorem setValue_follows {v : Value Unit} (hm : Matches s s') (hi : Scope s)
    (hst : step s (.setValue t n v) = some u) : Follows s s' (.setValue t n v) u := by
  simp only [step] at hst
  split at hst
  case h_2 => cases hst
  case h_1 f rest hs =>
    split at hst
    case isFalse => cases hst
    case isTrue hidle =>
      obtain ⟨pre, hc⟩ := complete_cases hst
      obtain ⟨p, hp, -⟩ := Frame.process_of_idle hidle t
      simp only [Follows, event, State.process, hs, hp, Option.map_some]
      refine ⟨{ s' with value := Function.update s'.value (.plain n) (some v) }, ?_, ?_⟩
      · simp [Processes.step, hm.running hs hp, hm.pending n hc.pending]
      · rw [← hs] at hc
        exact hm.complete hi hc

theorem handler_follows {c i : Nat} (hm : Matches s s') (hst : step s (.handler t c i) = some u) :
    Follows s s' (.handler t c i) u := by
  simp only [step] at hst
  split at hst
  case h_2 => cases hst
  case h_1 f rest k hs hk =>
    split at hst
    case isFalse => cases hst
    case isTrue hidle =>
      obtain rfl := Option.some.inj hst
      have hold := hm.frames t
      rw [hs] at hold
      exact { hm with
        frames := frames_update (fun v _ => hm.frames v) rfl ⟨hm.queued c k (List.mem_of_getElem? hk), hold⟩
        queued := step_queued hm (.handler hs hidle hk) }

theorem wait_follows {f : Future} (hm : Matches s s') (hi : Scope s) (hst : step s (.wait t f) = some u) :
    Follows s s' (.wait t f) u := by
  simp only [step] at hst
  split at hst
  case h_2 => cases hst
  case h_1 g rest hs =>
    split at hst
    case isFalse => cases hst
    case isTrue hg =>
      obtain rfl := Option.some.inj hst
      rw [Bool.and_eq_true] at hg
      obtain ⟨p, hp, htold⟩ := Frame.process_of_idle hg.1 t
      have hmem : g ∈ s.stack t := by simp [hs]
      have hold := hm.frames t
      rw [hs] at hold
      simp only [Follows, event, State.process, hs, hp, Option.map_some]
      refine ⟨s'.set p (.blocked f.awaitable), by simp [Processes.step, hm.running hs hp], ?_⟩
      refine hm.set hi (hi.alone [g] hs List.mem_cons_self (hi.owns hmem hp)) (Frame.above_idle hg.1 ▸ hold.2)
        (Nat.le_refl _) ?_ fun h => ⟨trivial, (htold _ _).2 (Function.update_self ..), by rwa [Frame.above_idle hg.1]⟩
      rintro x rfl
      exact (hi.owns hmem hp).active hi hmem

/-- A body goes on, or begins. -/
theorem enter_follows {via : Via} (hw : Watched s) (hm : Matches s s') (hok : suspendedOnce s (.step t))
    (hs : s.stack t = .run d via .enter :: l) (hst : step s (.step t) = some u) : Follows s s' (.step t) u := by
  have hi := hw.toScope
  have hf : .run d via .enter ∈ s.stack t := by simp [hs]
  simp only [step, threadStep, hs, runStep] at hst
  obtain rfl := Option.some.inj hst
  by_cases hctor : via = .ctor
  · simp only [Follows, event, hs, if_pos hctor]
    exact step_inside hw hm (.enter hs) ⟨by simp [Frame.idle], by simp, by simp [hctor]⟩ hok
  · simp only [Follows, event, hs, if_neg hctor]
    have hold := hm.frames t
    rw [hs] at hold
    obtain ⟨aw, hblocked, hready⟩ : Woken s' d := by simpa [Frame.Told, RunPc.Told, hctor] using hold.1
    have howns := hi.owns_run hf (by simp) (hi.opens t _ hf) (hi.frames t _ hf).1
    refine ⟨s'.set (.coroutine d) .running, by simp [Processes.step, hblocked, hready], ?_⟩
    refine hm.set hi (hi.alone [.run d via .enter] hs List.mem_cons_self howns) hold.2 (Nat.le_refl _)
      ?_ fun h => ⟨Function.update_self .., trivial, h⟩
    rintro x hx
    cases hx
    have hactive : d < s.born ∧ s.mPull d = true := howns.active hi hf
    exact hactive

/-- A blocked thread registers, or goes on. -/
theorem blocked_follows {f : Future} {b : Bool} (hw : Watched s) (hm : Matches s s') (hok : suspendedOnce s (.step t))
    (hs : s.stack t = .wait f b :: l) (hst : step s (.step t) = some u) : Follows s s' (.step t) u := by
  have hgo : (s.fut f).isReady = true → s.goto t l = u → (b || (s.fut f).isReady) = true →
      Follows s s' (.step t) u := by
    rintro hr rfl hb
    obtain ⟨g, rest, p, rfl, hp, hgo⟩ := hm.waited hw.toScope hs hr
    simpa [Follows, event, hs, hb, hp] using hgo
  simp only [step, threadStep, hs] at hst
  cases b with
  | true =>
    simp only [waitStep] at hst
    split at hst
    case isFalse => cases hst
    case isTrue hcv =>
      have hr := hw.waits t f l hs
      rw [if_pos hcv] at hr
      exact hgo hr (Option.some.inj hst) rfl
  | false =>
    simp only [waitStep] at hst
    rcases suspend_cases (s.fut f) (.cv t) with ⟨he, hsus⟩ | ⟨he, hsus⟩
    · rw [hsus] at hst
      obtain rfl := Option.some.inj hst
      have hnone : event s (.step t) = none := by
        have hr : (s.fut f).isReady = false := by
          rw [LightFutureData.isReady_eq_false_iff, he]
          simp
        cases l <;> simp [event, hs, hr]
      rw [Follows, hnone]
      exact step_inside hw hm (.waitRegister hs he) ⟨by simp [Frame.idle], by simp, by simp⟩ hok
    · rw [hsus] at hst
      have hr : (s.fut f).isReady = true := (hok f (by simp [State.suspends, hs])).resolve_left he
      exact hgo hr (Option.some.inj hst) (by simp [hr])

theorem library_follows (hw : Watched s) (hm : Matches s s') (hok : suspendedOnce s (.step t))
    (hst : step s (.step t) = some u) : Follows s s' (.step t) u := by
  by_cases henter : ∃ d via l, s.stack t = .run d via .enter :: l
  · obtain ⟨d, via, l, hs⟩ := henter
    exact enter_follows hw hm hok hs hst
  by_cases hwait : ∃ f b l, s.stack t = .wait f b :: l
  · obtain ⟨f, b, l, hs⟩ := hwait
    exact blocked_follows hw hm hok hs hst
  have hnone : event s (.step t) = none := by
    simp only [event]
    split
    case h_1 hs => exact absurd ⟨_, _, _, hs⟩ henter
    case h_2 hs => exact absurd ⟨_, _, _, hs⟩ hwait
    case h_3 => rfl
  obtain ⟨top, top', rest, h⟩ := thread_cases hst
  rw [Follows, hnone]
  refine step_inside hw hm h (h.inside ?_ (by simpa using hwait) (by simpa using henter)) hok
  intro f l hs
  by_contra hidle
  rw [Bool.not_eq_false] at hidle
  obtain rfl | ⟨d, rfl⟩ := Frame.idle_cases hidle <;> simp [step, threadStep, hs] at hst

theorem step_follows (hw : Watched s) (hm : Matches s s') (hok : suspendedOnce s a) (hst : step s a = some u) :
    Follows s s' a u := by
  have hi := hw.toScope
  cases a with
  | construct => exact construct_follows hm hi hst
  | await => exact await_follows hm hi hst
  | finish => exact finish_follows hm hi hst
  | setValue => exact setValue_follows hm hi hst
  | handler => exact handler_follows hm hst
  | wait => exact wait_follows hm hi hst
  | step => exact library_follows hw hm hok hst

theorem simulation :
    Simulation step suspendedOnce Processes.step anyStep event fun s s' => Watched s ∧ Matches s s' where
  stutter := by
    rintro s s' a u ⟨hw, hm⟩ hok hst hev
    have hfollows := step_follows hw hm hok hst
    rw [Follows, hev] at hfollows
    obtain ⟨_, _, _, _, hstep⟩ := step_cases hst
    exact ⟨step_watched hw hst hstep, hfollows⟩
  follow := by
    rintro s s' a u b ⟨hw, hm⟩ hok hst hev
    have hfollows := step_follows hw hm hok hst
    rw [Follows, hev] at hfollows
    obtain ⟨u', hst', hm'⟩ := hfollows
    obtain ⟨_, _, _, _, hstep⟩ := step_cases hst
    exact ⟨trivial, u', hst', step_watched hw hst hstep, hm'⟩

/-! ## The assertion of `suspend` -/

theorem Scope.owns_ne (hi : Scope s) {q : Process} {v : Nat} (hf : f ∈ s.stack t) (hp : Owns s t f p)
    (hg : g ∈ s.stack v) (hq : Owns s v g q) (hv : v ≠ t) : p ≠ q := by
  rintro rfl
  rcases hp with ⟨-, rfl⟩ | ⟨d, rfl, hd, -⟩
  · rcases hq with ⟨-, heq⟩ | ⟨_, heq, -⟩
    · cases heq
      exact hv rfl
    · cases heq
  · rcases hq with ⟨-, heq⟩ | ⟨d', heq, hd', -⟩
    · cases heq
    · cases heq
      have ht : d ∈ spread Frame.holds s.stack s.rights (.inl t) := List.mem_flatMap.2 ⟨f, hf, hd⟩
      have hv' : d ∈ spread Frame.holds s.stack s.rights (.inl v) := List.mem_flatMap.2 ⟨g, hg, hd'⟩
      exact hv (Sum.inl.inj (hi.rights.unique hv' ht))

/-- A thread that blocks on a future is a process that does. -/
theorem Matches.blocked (hm : Matches s s') (hi : Scope s) {f : Future} {b : Bool} (hs : s.stack t = .wait f b :: l) :
    ∃ g p, g ∈ s.stack t ∧ Owns s t g p ∧ s'.status p = .blocked f.awaitable := by
  have hst := hi.stacked t
  have hold := hm.frames t
  rw [hs] at hst hold
  cases l with
  | nil => cases hst
  | cons g rest =>
    obtain ⟨p, hp, htold⟩ := Frame.process_of_idle hst.1 t
    have hg : g ∈ s.stack t := by simp [hs]
    exact ⟨g, p, hg, hi.owns hg hp, (htold s' _).1 hold.2.1⟩

/-- Who is about to call `suspend` is a process that blocks on that future. -/
theorem Matches.suspends (hm : Matches s s') (hi : Scope s) {f : Future} (hs : s.suspends t = some f) :
    ∃ g p, g ∈ s.stack t ∧ Owns s t g p ∧ s'.status p = .blocked f.awaitable := by
  have hold := hm.frames t
  unfold State.suspends at hs
  split at hs
  case h_1 d via j n l hs' =>
    cases hs
    have hf : .run d via (.suspend j (.future n)) ∈ s.stack t := by simp [hs']
    rw [hs'] at hold
    have ho : s.opened d = none := (hi.opens t _ hf).1
    have hw : s.Waiting d := (hi.frames t _ hf).1
    exact ⟨_, _, hf, hi.owns_run hf (by simp) ho hw.toIdle, hold.1⟩
  case h_2 d via j e c l hs' =>
    cases hs
    have hf : .run d via (.awaitSuspend j e c) ∈ s.stack t := by simp [hs']
    rw [hs'] at hold
    have ho : s.opened d = some (j, e) := hi.opens t _ hf
    obtain ⟨hw, hfresh, -⟩ : s.Waiting d ∧ s.Fresh (d, j) ∧ _ := hi.frames t _ hf
    refine ⟨_, _, hf, .inr ⟨d, rfl, by simp, hi.no_runner hf (by simp) ?_, hw.toIdle⟩, hold.1⟩
    rintro j' e' he
    rw [ho] at he
    cases he
    exact hfresh.live
  case h_3 f' l hs' =>
    cases hs
    exact hm.blocked hi hs'
  case h_4 => cases hs

/-- The assertion of `suspend` fails only where two processes wait for the same future. -/
theorem Matches.second (hm : Matches s s') (hw : Watched s) {f : Future} (hs : s.suspends t = some f)
    (hempty : (s.fut f).continuationPtr ≠ .empty) (hready : (s.fut f).isReady = false) :
    ∃ p q, p ≠ q ∧ s'.status p = .blocked f.awaitable ∧ s'.status q = .blocked f.awaitable := by
  have hi := hw.toScope
  obtain ⟨g, p, hg, hp, hblocked⟩ := hm.suspends hi hs
  rw [LightFutureData.isReady_eq_false_iff] at hready
  cases hptr : (s.fut f).continuationPtr with
  | empty => exact absurd hptr hempty
  | invalid => exact absurd hptr hready
  | task k =>
    cases k with
    | runner k =>
      refine ⟨p, .coroutine k.1, ?_, hblocked, hm.parked f k.1 k.2 hptr⟩
      have hlive : s.live k = true := hi.refs.living (.inr (.fut f)) k (by simp [spread, State.refs, hptr])
      rintro rfl
      rcases hp with ⟨-, heq⟩ | ⟨d, heq, -, hdead, -⟩
      · cases heq
      · cases heq
        rw [hdead k.2] at hlive
        cases hlive
    | cv v =>
      obtain ⟨-, l, hv⟩ := hw.blocked f v hptr
      obtain ⟨g', q, hg', hq, hblocked'⟩ := hm.blocked hi hv
      refine ⟨p, q, hi.owns_ne hg hp hg' hq ?_, hblocked, hblocked'⟩
      rintro rfl
      simp [State.suspends, hv] at hs

/-! ## Nothing left to do -/

/-- User code runs, or has called `get_blocking`. -/
theorem Told.status : ∀ {l : List Frame} {st : Status}, Told s' t st l → g ∈ l → g.idle = true → g.process t = some p →
    s'.status p = st ∨ s'.status p = .running ∨ ∃ f b, .wait f b ∈ l ∧ s'.status p = .blocked f.awaitable
  | f :: l, st, h, hg, hidle, hp => by
    rcases List.mem_cons.1 hg with rfl | hg
    · obtain ⟨q, hq, htold⟩ := Frame.process_of_idle hidle t
      obtain rfl : q = p := by simpa [hq] using hp
      exact .inl ((htold s' st).1 h.1)
    · rcases Told.status h.2 hg hidle hp with habove | hrun | ⟨f', b, hf, hst⟩
      · cases f with
        | wait f' b => exact .inr (.inr ⟨f', b, List.mem_cons_self, habove⟩)
        | main | body | run | runner => exact .inr (.inl habove)
      · exact .inr (.inl hrun)
      · exact .inr (.inr ⟨f', b, List.mem_cons_of_mem _ hf, hst⟩)

/-- Where no thread can go on, what is not published has not ended. -/
theorem Matches.unready (hm : Matches s s') (hw : Watched s) (hstuck : s.stuck) {f : Future}
    (hr : (s.fut f).isReady = false) : s'.ready f.awaitable = false := by
  cases f with
  | plain n => simp [Future.awaitable, Processes.State.ready, hm.pending n hr]
  | result e =>
    have hp : s.mPull e = true := (hw.published_or_active hstuck e).resolve_left (by simp [hr])
    simp [Future.awaitable, Processes.State.ready, hm.active e hp]

theorem Matches.stuck_idle (hm : Matches s s') (hw : Watched s) (hstuck : s.stuck) (hg : g ∈ s.stack t)
    (hidle : g.idle = true) (hp : g.process t = some p) (hb : s'.status p = .blocked aw) : s'.ready aw = false := by
  rcases (hm.frames t).status hg hidle hp with hrun | hrun | ⟨f, b, hf, hst⟩
  · rw [hb] at hrun
    cases hrun
  · rw [hb] at hrun
    cases hrun
  · obtain rfl : aw = f.awaitable := by simpa [hb] using hst
    obtain ⟨l₁, l₂, hl⟩ := List.append_of_mem hf
    have hst := hw.stacked t
    rw [hl] at hst
    obtain rfl := hst.wait_head
    refine hm.unready hw hstuck ?_
    rw [LightFutureData.isReady_eq_false_iff]
    cases b with
    | true =>
      rw [hw.blocked_on hstuck hl]
      simp
    | false => exact absurd hstuck (hw.enabled hl rfl (by simp))

/-- Where the library has nothing left to do, a process blocks only on what is not complete. -/
theorem Matches.stuck (hm : Matches s s') (hw : Watched s) (hstuck : s.stuck) (hqueue : ∀ c, s.queue c = [])
    (hb : s'.status p = .blocked aw) : s'.ready aw = false := by
  cases p with
  | main t =>
    exact hm.stuck_idle hw hstuck (hw.stacked t).main_mem rfl rfl hb
  | coroutine d =>
    have hd : s.active d := by
      refine ⟨?_, ?_⟩
      · by_contra hborn
        rw [hm.unborn d (Nat.not_lt.1 hborn)] at hb
        cases hb
      · by_contra hp
        rw [(hm.ended d (by simpa using hp)).1] at hb
        cases hb
    rcases hw.executing_or_parked hstuck hqueue hd with ⟨t, leaving, hf⟩ | ⟨f, ⟨j, -, hptr⟩, -⟩
    · cases leaving with
      | none => exact hm.stuck_idle hw hstuck hf rfl rfl hb
      | some aw' =>
        obtain ⟨l₁, l₂, hl⟩ := List.append_of_mem hf
        have hst := hw.stacked t
        rw [hl] at hst
        obtain rfl := hst.leaving_head
        exact absurd hstuck (hw.enabled hl rfl (by simp))
    · obtain rfl : aw = f.awaitable := by simpa [hb] using hm.parked f d j hptr
      refine hm.unready hw hstuck ?_
      rw [LightFutureData.isReady_eq_false_iff, hptr]
      simp

/-! ## Results -/

/-- Every run of the coroutines in which no assertion of `suspend` fails is a run of processes that block: they do the
same in the same order, what user code executes is running, and what is complete has the same value. Where the library
has nothing left to do, a process blocks only on what is not complete; and where the assertion would fail, two of the
processes wait for the same future. -/
theorem coroutines_block {as : List Act} (h : Run step suspendedOnce init as s) :
    ∃ s', Run Processes.step anyStep Processes.init (shadow step event init as) s' ∧
      (∀ t p, s.process t = some p → s'.status p = .running) ∧
      (∀ f, (s.fut f).isReady = true → s'.value f = some (s.fut f).value) ∧
      (s.stuck → (∀ c, s.queue c = []) → ∀ p aw, s'.status p = .blocked aw → s'.ready aw = false) ∧
      ∀ t, ¬ suspendedOnce s (.step t) → ∃ f p q, p ≠ q ∧ s'.status p = .blocked f ∧ s'.status q = .blocked f := by
  obtain ⟨s', hrun, hw, hm⟩ := simulation.run ⟨watched_init, matches_init⟩ h
  refine ⟨s', hrun, fun t p hp => ?_, hm.values, fun hstuck hqueue p aw => hm.stuck hw hstuck hqueue, fun t hno => ?_⟩
  · cases hs : s.stack t with
    | nil => simp [State.process, hs] at hp
    | cons f l => exact hm.running hs (by simpa [State.process, hs] using hp)
  · simp only [suspendedOnce, not_forall, not_or, Bool.not_eq_true] at hno
    obtain ⟨f, hs, hempty, hready⟩ := hno
    obtain ⟨p, q, hne, hp, hq⟩ := hm.second hw hs hempty hready
    exact ⟨_, p, q, hne, hp, hq⟩

/-- Coroutine 0 awaits future 0; the thread completes it, and coroutine 0 goes on. -/
theorem coroutines_block_value : ∃ s' : Processes.State,
    Run Processes.step anyStep Processes.init
      [.create (.main 0) 0, .block (.coroutine 0) (.future 0), .complete (.main 0) 0 (.val ()), .go (.coroutine 0)]
      s' ∧ s'.status (.coroutine 0) = .running := by
  have hrun := exec_get_run step suspendedOnce init
    (parkedSchedule ++ [.setValue 0 0 (.val ()), .step 0, .step 0, .step 0]) (by decide)
  obtain ⟨s', hrun', hrunning, -⟩ := coroutines_block hrun
  exact ⟨s', hrun', hrunning 0 (.coroutine 0) (by decide)⟩

end CoAwait.Routine
