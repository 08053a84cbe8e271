import Mathlib.Algebra.GroupWithZero.Nat
import CoAwait.RoutineRights

/-!
# The hand-over between `Routine::await_suspend` and the finishing `resume()`

* `Chained`: `current()` and the `mOuter` of the bodies on a stack are these bodies; `Above`: a Runner loop has
  none of them beneath. So the finishing `resume()` calls a Runner where it is not posted again.
* `Frame.Opens`: what is known of an await of a Routine at each point of `await_suspend` and of the finish.
* `Called`: the Runner registered in `mResult` is still to be called, about to exchange, or has exchanged.
* `HandOver`: the invariant, kept by every step (`handOver_reachable`).
-/

namespace CoAwait.Routine

open Runs Tokens

variable {s s' : State} {d e x : Nat} {k : RunnerId} {via : Via} {pc : RunPc} {res : Ptr} {t : Nat}
  {top top' rest : List Frame}

/-! ## `current()` -/

/-- The bodies on a stack, innermost first. -/
def bodies (l : List Frame) : List Nat := l.flatMap Frame.executes

/-- `cur`, its `mOuter`, the `mOuter` of that, … are exactly the bodies `l`. -/
def Chained (mOuter : Nat → Option Nat) : Option Nat → List Nat → Prop
  | cur, [] => cur = none
  | cur, d :: l => cur = some d ∧ Chained mOuter (mOuter d) l

theorem Chained.congr {mOuter mOuter' : Nat → Option Nat} : ∀ {l : List Nat} {cur : Option Nat},
    Chained mOuter cur l → (∀ x ∈ l, mOuter' x = mOuter x) → Chained mOuter' cur l
  | [], _, h, _ => h
  | d :: l, _, h, hsame => ⟨h.1, by
      rw [hsame d List.mem_cons_self]
      exact h.2.congr fun x hx => hsame x (List.mem_cons_of_mem _ hx)⟩

theorem Chained.eq_nil {mOuter : Nat → Option Nat} {l : List Nat} (h : Chained mOuter none l) : l = [] := by
  cases l with
  | nil => rfl
  | cons d l => cases h.1

/-- The finishing `resume()` of `e` returns next on `l`. -/
def Returning (e : Nat) (l : List Frame) : Prop := ∃ via res l', l = .run e via (.ret res) :: l'

/-- What a Runner stands on: no body beneath its loop, and called by a finish it resumes nothing. -/
def RunnerPc.Above (s : State) (k : RunnerId) (l : List Frame) : RunnerPc → Prop
  | .enter => ∀ e, Returning e l → s.waiter e = some k
  | .loop c => bodies l = [] ∧ ∀ e x, Returning e l → c ≠ .data x
  | .running => bodies l = [] ∧ ∀ e, ¬ Returning e l

def Frame.Above (s : State) (l : List Frame) : Frame → Prop
  | .runner k pc => pc.Above s k l
  | _ => True

def Above (s : State) : List Frame → Prop
  | [] => True
  | f :: l => f.Above s l ∧ Above s l

theorem Above.of_append : ∀ {top : List Frame}, Above s (top ++ rest) → Above s rest
  | [], h => h
  | _ :: _, h => Above.of_append h.2

theorem Above.push {f : Frame} (h : Above s rest) (hf : ∀ k pc, f ≠ .runner k pc) : Above s (f :: rest) := by
  refine ⟨?_, h⟩
  cases f with
  | runner k pc => exact absurd rfl (hf k pc)
  | _ => trivial

theorem Above.grows (hg : Grows s s') : ∀ {l : List Frame}, Above s l → Above s' l
  | [], _ => trivial
  | f :: l, h => by
    refine ⟨?_, h.2.grows hg⟩
    have hf := h.1
    cases f with
    | runner k pc =>
      cases pc with
      | enter => exact fun e he => hg.waiter e k (hf e he)
      | loop | running => exact hf
    | _ => trivial

theorem Returning.not_idle {f : Frame} (hf : f.idle = true) : ¬ Returning e (f :: rest) := by
  rintro ⟨via, res, l', h⟩
  cases h
  cases hf

theorem bodies_sub {l : List Frame} (hx : x ∈ bodies l) : x ∈ l.flatMap Frame.holds := by
  obtain ⟨f, hf, hxf⟩ := List.mem_flatMap.1 hx
  refine List.mem_flatMap.2 ⟨f, hf, ?_⟩
  cases f <;> simp_all

theorem bodies_append (l l' : List Frame) : bodies (l ++ l') = bodies l ++ bodies l' := List.flatMap_append

@[simp] theorem bodies_run (l : List Frame) : bodies (.run d via pc :: l) = bodies l := rfl

theorem Moves.bodies_eq (h : Moves s top top') : bodies top' = bodies top := by
  cases h <;> simp [bodies]

/-- The chain of `current()` on the thread that makes the step. -/
theorem Step.chained (hi : Inv s) (h : Step s t top top' rest s')
    (hc : Chained s.mOuter (s.current t) (bodies (s.stack t))) :
    Chained s'.mOuter (s'.current t) (bodies (s'.stack t)) := by
  have hb := h.before
  rw [h.after, Function.update_self]
  rw [hb] at hc
  have hkeep : bodies (top' ++ rest) = bodies (top ++ rest) →
      Chained s.mOuter (s.current t) (bodies (top' ++ rest)) := fun he => he ▸ hc
  cases h with
  | stay => exact hc
  | move _ hm => exact hkeep (by rw [bodies_append, bodies_append, hm.bodies_eq])
  | @enter _ _ d via =>
    have hnot : d ∉ bodies rest := fun hm =>
      hi.rights.notMem_append (p := .inl t) (l := [d]) (m := rest.flatMap Frame.holds) (by simp [spread, hb])
        (by simp) (bodies_sub hm)
    refine ⟨by simp [State.enter], ?_⟩
    simp only [State.enter, Function.update_self]
    have hrest : Chained s.mOuter (s.current t) (bodies rest) := by simpa [bodies] using hc
    refine hrest.congr fun x hx => Function.update_of_ne ?_ ..
    rintro rfl
    exact hnot hx
  | @leave _ _ d d' | @finish _ _ d d' =>
    rw [bodies_append] at hc
    have hout : Chained s.mOuter (s.mOuter d) (bodies rest) := hc.2
    simpa [bodies_append, State.leave, State.goto] using hout
  | setValue _ _ hcm | setResult _ hcm =>
    have hbod := hkeep (by cases hcm <;> simp [bodies])
    cases hcm <;> exact hbod
  | @ret _ _ d k res =>
    have hbod := hkeep (by simp [bodies])
    obtain ⟨_, _, hret⟩ := s.returnRes_frame t d res (.runner k (.loop res) :: rest)
    rw [hret]
    exact hbod
  | _ => exact hkeep (by simp [bodies])

theorem Step.current_other (h : Step s t top top' rest s') {u : Nat} (hu : u ≠ t) : s'.current u = s.current u := by
  cases h with
  | enter | leave => exact Function.update_of_ne hu ..
  | finish => exact Function.update_of_ne hu ..
  | setValue _ _ hc | setResult _ hc => cases hc <;> rfl
  | @ret _ _ d k res =>
    obtain ⟨_, _, hret⟩ := s.returnRes_frame t d res (.runner k (.loop res) :: rest)
    rw [hret]
    rfl
  | _ => rfl

/-! ## The await of a Routine, step by step -/

/-- `res` is the Data whose await of `d` is open. -/
def State.Hands (s : State) (d : Nat) (res : Ptr) : Prop :=
  ∀ x, res = .data x → ∃ j, s.waiter d = some (x, j) ∧ s.opened x = some (j, d)

def RunPc.Opens (s : State) (d : Nat) (via : Via) : RunPc → Prop
  | .enter => s.opened d = none
  | .left => s.opened d = none ∧ ∀ j aw, s.mPostLeave d = some (.await j aw) → s.started (d, j) = none
  | .suspend j _ => s.opened d = none ∧ s.started (d, j) = none
  | .awaitSuspend j e _ => s.opened d = some (j, e)
  | .awaitContinuation j e _ => s.opened d = some (j, e) ∧ s.waiter e = some (d, j)
  | .awaitSpin j e => s.opened d = some (j, e) ∧ s.waiter e = some (d, j) ∧ s.mContinuation e = .one
  | .ended => s.opened d = none
  | .runPostLeave res | .setContinuation res =>
    s.opened d = none ∧ s.Hands d res ∧ (via ≠ .ctor → s.mContinuation d = .one)
  | .setResult res => s.opened d = none ∧ s.Hands d res ∧ s.mContinuation d = .one
  | .ret res => s.Hands d res
  | .pull | .suspended => True

def Frame.Opens (s : State) : Frame → Prop
  | .body d _ => s.opened d = none
  | .run d via pc => pc.Opens s d via
  | .runner _ (.loop c) => ∀ x, c = .data x → s.opened x = none
  | _ => True

theorem State.Hands.same (h : s.Hands d res) (hs : ∀ x ∈ res.toList, Same s s' x) (hg : Grows s s') :
    s'.Hands d res := by
  intro x hx
  obtain ⟨j, hw, ho⟩ := h x hx
  exact ⟨j, hg.waiter d _ hw, by rw [(hs x (by simp [hx, Ptr.toList])).opened, ho]⟩

theorem RunPc.Opens.same (h : pc.Opens s d via) (hs : ∀ x ∈ pc.holds d, Same s s' x) (hg : Grows s s') :
    pc.Opens s' d via := by
  cases pc with
  | enter | ended => exact (hs d (by simp)).opened.trans h
  | left =>
    have hd := hs d (by simp)
    exact ⟨hd.opened.trans h.1, fun j aw hp => by rw [hd.started, h.2 j aw (hd.mPostLeave ▸ hp)]⟩
  | suspend j aw =>
    have hd := hs d (by simp)
    exact ⟨hd.opened.trans h.1, (hd.started j).trans h.2⟩
  | awaitSuspend j e c => exact (hs d (by simp)).opened.trans h
  | awaitContinuation j e c => exact ⟨(hs d (by simp)).opened.trans h.1, hg.waiter e _ h.2⟩
  | awaitSpin j e => exact ⟨(hs d (by simp)).opened.trans h.1, hg.waiter e _ h.2.1, hg.disabled e h.2.2⟩
  | runPostLeave res | setContinuation res =>
    obtain ⟨ho, hh, hm⟩ := h
    exact ⟨(hs d (by simp)).opened.trans ho, hh.same (fun x hx => hs x (List.mem_cons_of_mem _ hx)) hg,
      fun hv => hg.disabled d (hm hv)⟩
  | setResult res =>
    obtain ⟨ho, hh, hm⟩ := h
    exact ⟨(hs d (by simp)).opened.trans ho, hh.same (fun x hx => hs x (List.mem_cons_of_mem _ hx)) hg,
      hg.disabled d hm⟩
  | ret res => exact State.Hands.same h hs hg
  | pull | suspended => trivial

theorem Frame.Opens.same {f : Frame} (h : f.Opens s) (hs : ∀ x ∈ f.holds, Same s s' x) (hg : Grows s s') :
    f.Opens s' := by
  cases f with
  | body d leaving => exact (hs d (by simp)).opened.trans h
  | run d via pc => exact RunPc.Opens.same h hs hg
  | runner k pc =>
    cases pc with
    | loop c => exact fun x hx => (hs x (by simp [hx, Ptr.toList])).opened.trans (h x hx)
    | enter | running => trivial
  | main | wait f registered => trivial

/-- The completing thread is not yet through with `ResultSetter`. -/
def RunPc.finishes : RunPc → Bool
  | .ended | .runPostLeave _ | .setContinuation _ | .setResult _ => true
  | _ => false

/-- The Runner registered in `mResult` of `e`: it will be called, is about to exchange, or has exchanged. -/
structure State.Called (s : State) (e : Nat) (k : RunnerId) : Prop where
  old : k.2 < s.awaits k.1
  taken : ∀ x, s.mCaller k ≠ .data x
  called : (s.fut (.result e)).continuationPtr = .task (.runner k) ∨ s.mCaller k = .one ∨
    ∃ t res rest, s.stack t = .runner k .enter :: .run e .resume (.ret res) :: rest

/-- How often an await has been continued, or is still open, against how often it has been started. -/
structure State.Counted (s : State) (k : RunnerId) : Prop where
  sum : s.viaFalse k + s.viaResume k + (if (s.opened k.1).map Prod.fst = some k.2 then 1 else 0) =
    if (s.started k).isSome then 1 else 0
  target : ∀ e, s.opened k.1 = some (k.2, e) → s.started k = some e

structure HandOver (s : State) : Prop extends Inv s where
  chained : ∀ t, Chained s.mOuter (s.current t) (bodies (s.stack t))
  above : ∀ t, Above s (s.stack t)
  opens : ∀ t, ∀ f ∈ s.stack t, f.Opens s
  runnersOpen : ∀ k x, s.live k = true → s.mCaller k = .data x → s.opened x = none
  hands : ∀ e, s.Hands e (s.mContinuation e)
  notStarted : ∀ d j, s.awaits d ≤ j → s.started (d, j) = none
  counted : ∀ k, s.Counted k
  disabled : ∀ e, s.mContinuation e = .one → s.mPull e = false
  ready : ∀ e, (s.fut (.result e)).isReady = true → s.mContinuation e = .one
  finisher : ∀ d, s.mPull d = false → (s.fut (.result d)).isReady = true ∨
    ∃ t via pc, .run d via pc ∈ s.stack t ∧ pc.finishes = true
  closed : ∀ d, ¬ s.unfinished d → s.opened d = none
  registered : ∀ e k, (s.fut (.result e)).continuationPtr = .task (.runner k) → s.waiter e = some k
  called : ∀ e k, s.waiter e = some k → s.Called e k

theorem handOver_init : HandOver init where
  toInv := inv_init
  chained := fun _ => rfl
  above := fun _ => ⟨trivial, trivial⟩
  opens := by
    intro t f hf
    obtain rfl : f = .main := by simpa [init] using hf
    trivial
  runnersOpen := fun _ _ _ _ => rfl
  hands := fun _ x hx => by simp [init] at hx
  notStarted := fun _ _ _ => rfl
  counted := fun _ => ⟨by simp [init], fun e h => by simp [init] at h⟩
  disabled := fun e h => by simp [init] at h
  ready := fun e h => by simp [init] at h
  finisher := fun d h => by simp [init] at h
  closed := fun _ _ => rfl
  registered := fun e k h => by simp [init] at h
  called := fun e k h => by simp [init] at h

/-! ## Steps -/

/-! ### Runners on a stack -/

theorem Moves.above (h : Moves s top top') (ha : Above s (top ++ rest)) : Above s (top' ++ rest) := by
  cases h with
  | wait => exact ha.push nofun
  | resumed => exact ⟨⟨ha.2.1.1, fun _ _ _ h => (by cases h)⟩, ha.2.2⟩
  | @loop d =>
    obtain ⟨⟨hbod, hnot⟩, hrest⟩ := ha
    exact ⟨trivial, ⟨hbod, fun e he => hnot e d he rfl⟩, hrest⟩
  | loopEnd | waitReady | waitDone => exact ha.2
  | await | nothingLeft | suspendReady | spin => exact Above.push ha.2 nofun

theorem Completed.above {f : Future} {v : Value Unit} {l pre l' : List Frame} (h : Completed s t f v l pre s')
    (ha : Above s l')
    (hk : ∀ k e, (s.fut f).continuationPtr = .task (.runner k) → Returning e l' → s.waiter e = some k) :
    Above s (pre ++ l') := by
  cases h with
  | alone | cv => exact ha
  | @runner k hp => exact ⟨fun e he => hk k e hp he, ha⟩

theorem step_above (hi : HandOver s) (h : Step s t top top' rest s') : Above s' (s'.stack t) := by
  have ha := hi.above t
  have hch := hi.chained t
  rw [h.before] at ha hch
  have hr : Above s rest := ha.of_append
  rw [h.after, Function.update_self]
  refine Above.grows (hi.grows h) ?_
  cases h with
  | stay => exact ha
  | move _ hm => exact hm.above ha
  | construct => exact ha.push (by simp)
  | enter => exact Above.push (f := .body _ none) (Above.push (f := .run _ _ .pull) hr (by simp)) (by simp)
  | setValue _ hidle hcm => simpa using hcm.above ha fun _ _ _ he => absurd he (Returning.not_idle hidle)
  | handler _ hidle => exact ⟨fun _ he => absurd he (Returning.not_idle hidle), ha⟩
  | @setResult _ _ d via res _ _ _ hcm =>
    have hret : Above s (.run d via (.ret res) :: rest) := hr.push (by simp)
    have hcall : ∀ k e, (s.fut (.result d)).continuationPtr = .task (.runner k) →
        Returning e (.run d via (.ret res) :: rest) → s.waiter e = some k := by
      rintro k e hp ⟨_, _, _, hl⟩
      cases hl
      exact hi.registered d k hp
    simpa using hcm.above hret hcall
  | @ret _ _ d k res =>
    obtain ⟨-, ⟨hbod, hnot⟩, -⟩ := ha
    exact ⟨⟨hbod, fun e _ he => absurd he (hnot e)⟩, hr⟩
  | constructed | repost => exact hr
  | @exchange _ _ k _ hcur =>
    -- the Runner goes on only where no coroutine is current
    rw [hcur] at hch
    exact ⟨⟨by simpa [bodies] using hch.eq_nil, fun e x he => (hi.called e k (ha.1 e he)).taken x⟩, hr⟩
  | leave | finish | fetch | registerFuture | registerContext | awaitExchange | awaitRegister | awaitRefused
    | awaitParked | awaitSpun | ended | runPostLeave | setContinuation | waitRegister => exact hr.push (by simp)

/-! ### The await, step by step -/

theorem HandOver.opens_top (hi : HandOver s) (h : Step s t top top' rest s') : ∀ f ∈ top, f.Opens s :=
  fun f hf => hi.opens t f (h.mem hf)

/-- The assertion `expected == 1`: nobody else waits in `mContinuation`. -/
theorem HandOver.not_data (hi : HandOver s) {j : Nat} {c : Ptr}
    (hf : .run d via (.awaitContinuation j e c) ∈ s.stack t) (x : Nat) : s.mContinuation e ≠ .data x := by
  intro hx
  obtain ⟨-, hw⟩ := hi.opens t _ hf
  obtain ⟨j', hw', -⟩ := hi.hands e x hx
  rw [hw] at hw'
  cases hw'
  have h1 : d ∈ spread Frame.holds s.stack s.rights (.inl t) := List.mem_flatMap.2 ⟨_, hf, by simp⟩
  have h2 : d ∈ spread Frame.holds s.stack s.rights (.inr (.continuation e)) := by
    simp [spread, State.rights, hx, Ptr.toList]
  cases hi.rights.unique h1 h2

theorem Moves.opens (hi : HandOver s) (hb : s.stack t = top ++ rest) (h : Moves s top top') :
    ∀ f ∈ top', f.Opens s := by
  have hopen : ∀ f ∈ top, f.Opens s := fun f hf => hi.opens t f (by rw [hb]; exact List.mem_append_left _ hf)
  intro f hf
  cases h with
  | @await d =>
    obtain rfl := List.mem_singleton.1 hf
    exact hopen (.body d none) List.mem_cons_self
  | wait =>
    rcases List.mem_cons.1 hf with rfl | hf
    · trivial
    · exact hopen f hf
  | nothingLeft =>
    obtain rfl := List.mem_singleton.1 hf
    trivial
  | suspendReady =>
    obtain rfl := List.mem_singleton.1 hf
    exact (hopen _ List.mem_cons_self).1
  | @spin d j e via c hnull =>
    obtain rfl := List.mem_singleton.1 hf
    obtain ⟨ho, hw⟩ := hopen _ List.mem_cons_self
    refine ⟨ho, hw, ?_⟩
    have hnot := hi.not_data (t := t) (e := e) (by rw [hb]; exact List.mem_cons_self)
    cases hm : s.mContinuation e with
    | one => rfl
    | null => exact absurd hm hnull
    | data x => exact absurd hm (hnot x)
  | resumed =>
    obtain rfl := List.mem_singleton.1 hf
    exact nofun
  | @loop d k =>
    rcases List.mem_cons.1 hf with rfl | hf
    · exact hopen _ List.mem_cons_self d rfl
    · obtain rfl := List.mem_singleton.1 hf
      trivial
  | loopEnd | waitReady | waitDone => cases hf

theorem Completed.opens {f : Future} {v : Value Unit} {l pre : List Frame} (h : Completed s t f v l pre s') {g : Frame}
    (hg : g.Opens s) : ∀ f ∈ pre ++ [g], f.Opens s' := by
  intro f hf
  rcases List.mem_append.1 hf with hf | hf
  · cases h with
    | alone | cv => cases hf
    | runner =>
      obtain rfl := List.mem_singleton.1 hf
      trivial
  · obtain rfl := List.mem_singleton.1 hf
    exact hg.same (fun x _ => h.same x) h.grows

/-- Before the constructor has returned nobody waits in `mContinuation`. -/
theorem Inv.continuation_ctor (hi : Inv s) (hf : .run d .ctor pc ∈ s.stack t) (x : Nat) :
    s.mContinuation d ≠ .data x := by
  intro hx
  have hc := (hi.continuations d x hx).2
  rw [(hi.underConstruction_of_mem hf (by simp)).2] at hc
  cases hc

theorem step_opens (hi : HandOver s) (h : Step s t top top' rest s') : ∀ f ∈ top', f.Opens s' := by
  have hb := h.before
  have hopen := hi.opens_top h
  have hg := hi.grows h
  intro f hf
  cases h with
  | stay => cases hf
  | move _ hm => exact (hm.opens hi hb f hf).same (fun x _ => goto_same ..) hg
  | construct hs hidle =>
    rcases List.mem_cons.1 hf with rfl | hf
    · exact hi.closed s.born fun hd => Nat.lt_irrefl _ hd.1
    · exact (hopen f hf).same (fun x _ => ⟨rfl, rfl, rfl, rfl, rfl, rfl, fun _ => rfl, fun _ h => ⟨h, rfl⟩⟩) hg
  | enter =>
    rcases List.mem_cons.1 hf with rfl | hf
    · exact hopen _ List.mem_cons_self
    · obtain rfl := List.mem_singleton.1 hf
      trivial
  | @leave _ _ d d' via aw =>
    obtain rfl := hi.pulled hb
    obtain rfl := List.mem_singleton.1 hf
    refine ⟨hopen (.body d' (some aw)) List.mem_cons_self, fun j aw' hp => ?_⟩
    have : s.awaits d' = j ∧ aw = aw' := by simpa [State.leave] using hp
    rw [← this.1]
    exact hi.notStarted d' _ (Nat.le_refl _)
  | @finish _ _ d d' via v pc _ hpc =>
    obtain rfl := hi.pulled hb
    obtain rfl := List.mem_singleton.1 hf
    have ho : s.opened d' = none := hopen (.body d' none) List.mem_cons_self
    rw [hpc]
    split
    case isTrue hv =>
      refine ⟨ho, ?_, fun hne => absurd hv hne⟩
      intro x hx
      cases hx
    case isFalse => exact ho
  | setValue _ _ hc => exact hc.opens (hopen _ List.mem_cons_self) f hf
  | handler =>
    rcases List.mem_cons.1 hf with rfl | hf
    · trivial
    · exact (hopen f hf).same (fun x _ => ⟨rfl, rfl, rfl, rfl, rfl, rfl, fun _ => rfl, fun _ h => ⟨h, rfl⟩⟩) hg
  | @fetch _ _ d j via aw _ hp =>
    obtain rfl := List.mem_singleton.1 hf
    obtain ⟨ho, hst⟩ := hopen _ List.mem_cons_self
    exact ⟨ho, hst j aw hp⟩
  | registerFuture | registerContext | awaitParked | waitRegister =>
    obtain rfl := List.mem_singleton.1 hf
    trivial
  | @awaitExchange _ _ d j e =>
    obtain rfl := List.mem_singleton.1 hf
    exact Function.update_self ..
  | @awaitRegister _ _ d j e via c =>
    obtain rfl := List.mem_singleton.1 hf
    exact ⟨hopen (.run d via (.awaitSuspend j e c)) List.mem_cons_self, Function.update_self ..⟩
  | awaitRefused | awaitSpun =>
    obtain rfl := List.mem_singleton.1 hf
    exact Function.update_self ..
  | constructed | repost => cases hf
  | @ended _ _ d via =>
    obtain rfl := List.mem_singleton.1 hf
    exact ⟨hopen (.run d via .ended) List.mem_cons_self, hi.hands d, fun _ => Function.update_self ..⟩
  | runPostLeave =>
    obtain rfl := List.mem_singleton.1 hf
    exact hopen _ List.mem_cons_self
  | @setContinuation _ _ d via res c _ hc =>
    obtain rfl := List.mem_singleton.1 hf
    obtain ⟨ho, hh, hm⟩ := hopen _ List.mem_cons_self
    refine ⟨ho, hh, ?_⟩
    have hone : c = .one := by
      by_cases hv : via = .ctor
      · subst hv
        have hnot := hi.continuation_ctor (t := t) (d := d) (by rw [hb]; exact List.mem_cons_self)
        cases hmc : s.mContinuation d <;> simp_all
      · simp [hc, hm hv]
    simp [hone]
  | @setResult _ _ d via res _ _ _ hc =>
    exact hc.opens (g := .run d via (.ret res)) (hopen _ List.mem_cons_self).2.1 f hf
  | @ret _ _ d k res =>
    obtain rfl := List.mem_singleton.1 hf
    intro x hx
    have hh : s.Hands d res := hopen _ List.mem_cons_self
    obtain ⟨j, hw, -⟩ := hh x hx
    rcases s.returnRes_cases t d res (.runner k (.loop res) :: rest) with ⟨y, k', hy, -, hret⟩ | ⟨hno, -⟩
    · rw [hret]
      rw [hx] at hy
      cases hy
      exact Function.update_self ..
    · exact absurd hw (hno x _ hx)
  | @exchange _ _ k =>
    obtain rfl := List.mem_singleton.1 hf
    intro x hx
    exact hi.runnersOpen k x (hi.live_of_mem (t := t) (by rw [hb]; exact List.mem_cons_self)) hx

theorem HandOver.runner_closed (hi : HandOver s) (h : Step s t top top' rest s') (hl : s.live k = true)
    (hc : s.mCaller k = .data x) : s'.opened x = none := by
  have hmem : x ∈ s.rights (.runner k) := by simp [State.rights, hl, hc, Ptr.toList]
  rw [(hi.same h (hi.rights.elsewhere_other h.before hmem)).opened]
  exact hi.runnersOpen k x hl hc

theorem step_runnersOpen (hi : HandOver s) (h : Step s t top top' rest s') :
    ∀ k x, s'.live k = true → s'.mCaller k = .data x → s'.opened x = none := by
  intro k x hl hc
  have hsound := hi.sound h
  have hopen := hi.opens_top h
  have hstep := h
  cases h with
  | @leave _ _ d d' =>
    by_cases hk : k = (d, s.awaits d)
    · subst hk
      exact absurd hl (by simp [State.leave, State.goto, hi.fresh d _ (Nat.le_refl _)])
    · exact hi.runner_closed hstep hl (by simpa [State.leave, hk, State.goto] using hc)
  | setValue _ _ hcm | setResult _ hcm => cases hcm <;> exact hi.runner_closed hstep hl hc
  | @registerFuture _ _ d j n via | @registerContext _ _ d j n via =>
    obtain ⟨-, -, hcd, -⟩ := hsound _ List.mem_cons_self
    by_cases hk : k = (d, j)
    · subst hk
      obtain rfl : d = x := by
        have := hcd.symm.trans hc
        simpa using this
      exact (hopen _ List.mem_cons_self).1
    · exact hi.runner_closed hstep (by simpa [State.register, hk] using hl) hc
  | @awaitExchange _ _ d j =>
    obtain ⟨-, hfr, -⟩ := hsound _ List.mem_cons_self
    by_cases hk : k = (d, j)
    · subst hk
      exact absurd hl (by simp [State.goto, hfr.live])
    · exact hi.runner_closed hstep hl (by simpa [hk, State.goto] using hc)
  | @awaitRegister _ _ d j =>
    obtain ⟨-, -, hcd, -⟩ := hsound _ List.mem_cons_self
    by_cases hk : k = (d, j)
    · subst hk
      have := hcd.symm.trans hc
      cases this
    · exact hi.runner_closed hstep (by simpa [State.register, hk] using hl) hc
  | @ret _ _ d k' res =>
    obtain ⟨_, _, hret⟩ := s.returnRes_frame t d res (.runner k' (.loop res) :: rest)
    rw [hret] at hl hc hstep ⊢
    exact hi.runner_closed hstep hl hc
  | @exchange _ _ k' =>
    by_cases hk : k = k'
    · subst hk
      exact absurd hl (by simp)
    · exact hi.runner_closed hstep (by simpa [hk] using hl) (by simpa [hk] using hc)
  | _ => exact hi.runner_closed hstep hl hc

/-- The await that waits in `mContinuation` of `e` is still the open one. -/
theorem HandOver.hands_kept (hi : HandOver s) (h : Step s t top top' rest s') :
    s'.Hands e (s.mContinuation e) := by
  refine (hi.hands e).same (fun x hx => hi.same h (hi.rights.elsewhere_other h.before (q := .continuation e) ?_))
    (hi.grows h)
  exact hx

theorem step_hands (hi : HandOver s) (h : Step s t top top' rest s') : ∀ e, s'.Hands e (s'.mContinuation e) := by
  intro e
  have hkept := hi.hands_kept h (e := e)
  have hsound := hi.sound h
  have hopen := hi.opens_top h
  cases h with
  | setValue _ _ hcm | setResult _ hcm => cases hcm <;> exact hkept
  | @awaitParked _ _ d j e' via c =>
    by_cases he : e = e'
    · subst he
      obtain ⟨-, rfl, -⟩ := hsound _ List.mem_cons_self
      obtain ⟨ho, hw⟩ := hopen _ List.mem_cons_self
      intro x hx
      obtain rfl : d = x := by simpa using hx
      exact ⟨j, hw, ho⟩
    · simpa [he, State.goto] using hkept
  | @ended _ _ d =>
    by_cases he : e = d
    · subst he
      intro x hx
      simp at hx
    · simpa [he, State.goto] using hkept
  | @setContinuation _ _ d via res c _ hc =>
    by_cases he : e = d
    · subst he
      intro x hx
      refine hkept x ?_
      by_cases hnull : s.mContinuation e = .null <;> simp_all
    · simpa [he, State.goto] using hkept
  | @ret _ _ d k' res =>
    obtain ⟨_, _, hret⟩ := s.returnRes_frame t d res (.runner k' (.loop res) :: rest)
    rw [hret] at hkept ⊢
    exact hkept
  | _ => exact hkept

theorem step_notStarted (hi : HandOver s) (h : Step s t top top' rest s') :
    ∀ d j, s'.awaits d ≤ j → s'.started (d, j) = none := by
  intro d j hj
  have hsound := hi.sound h
  cases h with
  | @leave _ _ d' =>
    refine hi.notStarted d j ?_
    by_cases hd : d = d'
    · subst hd
      have : s.awaits d + 1 ≤ j := by simpa [State.leave] using hj
      omega
    · simpa [State.leave, hd, State.goto] using hj
  | setValue _ _ hc | setResult _ hc => cases hc <;> exact hi.notStarted d j hj
  | @awaitExchange _ _ d' j' =>
    obtain ⟨-, hfr, -⟩ := hsound _ List.mem_cons_self
    have hne : (d, j) ≠ (d', j') := by
      rintro heq
      cases heq
      exact absurd hfr.old (Nat.not_lt.2 hj)
    simpa [hne, State.goto] using hi.notStarted d j hj
  | @ret _ _ d' k res =>
    obtain ⟨_, _, hret⟩ := s.returnRes_frame t d' res (.runner k (.loop res) :: rest)
    rw [hret] at hj ⊢
    exact hi.notStarted d j hj
  | _ => exact hi.notStarted d j hj

/-! ### How often an await is continued -/

theorem State.Counted.of_eq (h : s.Counted k) (hv : s'.viaFalse k + s'.viaResume k = s.viaFalse k + s.viaResume k)
    (ho : s'.opened k.1 = s.opened k.1) (hs : s'.started k = s.started k) : s'.Counted k :=
  ⟨by rw [hv, ho, hs]; exact h.sum, fun e he => by rw [hs]; exact h.target e (ho ▸ he)⟩

/-- An await that is not the open one, before and after. -/
theorem State.Counted.of_ne (h : s.Counted k) (hv : s'.viaFalse k + s'.viaResume k = s.viaFalse k + s.viaResume k)
    (hold : ∀ e, s.opened k.1 ≠ some (k.2, e)) (hnew : ∀ e, s'.opened k.1 ≠ some (k.2, e))
    (hs : s'.started k = s.started k) : s'.Counted k := by
  have hsum := h.sum
  have hfst : ∀ {o : Option (Nat × Nat)}, (∀ e, o ≠ some (k.2, e)) → o.map Prod.fst ≠ some k.2 := by
    intro o ho hm
    obtain ⟨⟨j, e⟩, hoe, hj⟩ := Option.map_eq_some_iff.1 hm
    exact ho e (by rw [hoe, ← hj])
  rw [if_neg (hfst hold)] at hsum
  exact ⟨by rw [hv, hs, if_neg (hfst hnew)]; exact hsum, fun e he => absurd he (hnew e)⟩

/-- The open await of `d` is continued. -/
theorem HandOver.counted_close (hi : HandOver s) {j : Nat} (ho : s.opened d = some (j, e))
    (hv : ∀ k, s'.viaFalse k + s'.viaResume k = s.viaFalse k + s.viaResume k + if k = (d, j) then 1 else 0)
    (ho' : s'.opened = Function.update s.opened d none) (hs : s'.started = s.started) (k : RunnerId) :
    s'.Counted k := by
  have hc := hi.counted k
  have hvk := hv k
  by_cases hk : k = (d, j)
  · subst hk
    have hsum := hc.sum
    have hst : s.started (d, j) = some e := hc.target e ho
    simp only [ho, hst, Option.map_some, if_true, Option.isSome_some] at hsum hvk
    refine ⟨?_, fun e' he' => by simp [ho'] at he'⟩
    simp only [ho', hs, hst, Function.update_self, Option.map_none, Option.isSome_some, if_true, reduceCtorEq, if_false]
    omega
  · rw [if_neg hk, Nat.add_zero] at hvk
    by_cases hd : k.1 = d
    · refine hc.of_ne hvk (fun e' he' => ?_) (fun e' he' => by simp [ho', hd] at he') (by rw [hs])
      rw [hd, ho] at he'
      cases he'
      exact hk (by rw [← hd])
    · exact hc.of_eq hvk (by simp [ho', hd]) (by rw [hs])

/-- An await of `d` is started. -/
theorem HandOver.counted_open (hi : HandOver s) {j : Nat} (ho : s.opened d = none) (hst : s.started (d, j) = none)
    (hv : ∀ k, s'.viaFalse k + s'.viaResume k = s.viaFalse k + s.viaResume k)
    (ho' : s'.opened = Function.update s.opened d (some (j, e)))
    (hs : s'.started = Function.update s.started (d, j) (some e)) (k : RunnerId) : s'.Counted k := by
  have hc := hi.counted k
  have hvk := hv k
  by_cases hk : k = (d, j)
  · subst hk
    have hsum := hc.sum
    simp only [ho, hst, Option.map_none, reduceCtorEq, if_false, Option.isSome_none, Bool.false_eq_true] at hsum hvk
    refine ⟨?_, fun e' he' => by simpa [ho', hs] using he'⟩
    simp only [ho', hs, Function.update_self, Option.map_some, if_true, Option.isSome_some]
    omega
  · by_cases hd : k.1 = d
    · refine hc.of_ne hvk (fun e' he' => ?_) (fun e' he' => ?_) (by simp [hs, hk])
      · rw [hd, ho] at he'
        cases he'
      · rw [ho', hd] at he'
        have : j = k.2 ∧ e = e' := by simpa using he'
        exact hk (by rw [← hd, this.1])
    · exact hc.of_eq hvk (by simp [ho', hd]) (by simp [hs, hk])

theorem step_counted (hi : HandOver s) (h : Step s t top top' rest s') : ∀ k, s'.Counted k := by
  intro k
  have hc := hi.counted k
  have hopen := hi.opens_top h
  cases h with
  | setValue _ _ hcm | setResult _ hcm => cases hcm <;> exact hc.of_eq rfl rfl rfl
  | awaitExchange =>
    obtain ⟨ho, hst⟩ := hopen _ List.mem_cons_self
    exact hi.counted_open ho hst (fun _ => by rfl) (by rfl) (by rfl) k
  | @awaitRefused _ _ d j e via c =>
    have ho : s.opened d = some (j, e) := hopen (.run d via (.awaitSuspend j e c)) List.mem_cons_self
    refine hi.counted_close ho (fun k => ?_) (by rfl) (by rfl) k
    by_cases hk : k = (d, j) <;> simp [State.goOn, State.goto, hk, Nat.add_right_comm]
  | @awaitSpun _ _ d j e via =>
    refine hi.counted_close (hopen _ List.mem_cons_self).1 (fun k => ?_) (by rfl) (by rfl) k
    by_cases hk : k = (d, j) <;> simp [State.goOn, State.goto, hk, Nat.add_right_comm]
  | @ret _ _ d k' res =>
    have hh : s.Hands d res := hopen _ List.mem_cons_self
    rcases s.returnRes_cases t d res (.runner k' (.loop res) :: rest) with ⟨y, k'', hy, hw, hret⟩ | ⟨-, hret⟩
    · obtain ⟨j, hw', ho⟩ := hh y hy
      rw [hw] at hw'
      cases hw'
      rw [hret]
      refine hi.counted_close ho (fun k => ?_) (by rfl) (by rfl) k
      by_cases hk : k = (y, j) <;> simp [State.goto, hk, Nat.add_assoc]
    · rw [hret]
      exact hc.of_eq rfl rfl rfl
  | _ => exact hc.of_eq rfl rfl rfl

/-! ### The finish -/

theorem step_disabled (hi : HandOver s) (h : Step s t top top' rest s') :
    ∀ e, s'.mContinuation e = .one → s'.mPull e = false := by
  intro e he
  have hkeep : s.mContinuation e = .one → s'.mPull e = false := fun hm => h.ended_stays (hi.disabled e hm)
  have hsound := hi.sound h
  cases h with
  | setValue _ _ hcm | setResult _ hcm => cases hcm <;> exact hkeep he
  | @awaitParked _ _ d j e' via c =>
    by_cases hee : e = e'
    · subst hee
      obtain ⟨-, rfl, -⟩ := hsound _ List.mem_cons_self
      simp at he
    · exact hkeep (by simpa [hee, State.goto] using he)
  | @ended _ _ d | @setContinuation _ _ d =>
    by_cases hed : e = d
    · subst hed
      exact (hsound _ List.mem_cons_self).1
    · exact hkeep (by simpa [hed, State.goto] using he)
  | @ret _ _ d k' res =>
    obtain ⟨_, _, hret⟩ := s.returnRes_frame t d res (.runner k' (.loop res) :: rest)
    rw [hret] at he hkeep ⊢
    exact hkeep he
  | _ => exact hkeep he

/-- Only `ResultSetter` makes a result ready. -/
theorem Step.ready_cases (h : Step s t top top' rest s') (hr : (s'.fut (.result e)).isReady = true) :
    (s.fut (.result e)).isReady = true ∨ ∃ via res, .run e via (.setResult res) ∈ top := by
  cases h with
  | setValue _ _ hc => cases hc <;> exact .inl (by simpa [State.goto] using hr)
  | @setResult _ _ d _ _ _ _ _ hc =>
    by_cases he : e = d
    · subst he
      exact .inr ⟨_, _, List.mem_cons_self⟩
    · cases hc <;> exact .inl (by simpa [he, State.goto] using hr)
  | registerFuture => exact .inl (by simpa [State.register, State.goto] using hr)
  | @awaitRegister _ _ _ _ e' =>
    by_cases he : e = e'
    · subst he
      simp [State.register] at hr
    · exact .inl (by simpa [State.register, he, State.goto] using hr)
  | @waitRegister _ _ f =>
    by_cases hf : Future.result e = f
    · subst hf
      simp at hr
    · exact .inl (by simpa [hf] using hr)
  | @ret _ _ d k res =>
    obtain ⟨_, _, hret⟩ := s.returnRes_frame t d res (.runner k (.loop res) :: rest)
    rw [hret] at hr
    exact .inl hr
  | _ => exact .inl hr

theorem step_ready (hi : HandOver s) (h : Step s t top top' rest s') :
    ∀ e, (s'.fut (.result e)).isReady = true → s'.mContinuation e = .one := by
  intro e he
  refine (hi.grows h).disabled e ?_
  rcases h.ready_cases he with hr | ⟨via, res, hm⟩
  · exact hi.ready e hr
  · exact (hi.opens_top h _ hm).2.2

theorem Completed.ready_kept {f f' : Future} {v : Value Unit} {l pre : List Frame} (h : Completed s t f v l pre s')
    (hf : f' = f ∨ (s.fut f').isReady = true) : (s'.fut f').isReady = true := by
  by_cases hn : f' = f
  · subst hn
    cases h <;> simp
  · cases h <;> simpa [hn, State.goto] using hf.resolve_left hn

theorem Step.ready_kept (h : Step s t top top' rest s') {f : Future} (hf : (s.fut f).isReady = true) :
    (s'.fut f).isReady = true := by
  have hne : ∀ {g : Future}, (s.fut g).continuationPtr = .empty → f ≠ g := by
    rintro g hp rfl
    rw [LightFutureData.isReady_iff, hp] at hf
    cases hf
  cases h with
  | setValue _ _ hc => exact hc.ready_kept (.inr hf)
  | setResult _ hc => exact hc.ready_kept (.inr hf)
  | registerFuture _ hp | awaitRegister _ hp | waitRegister _ hp =>
    simpa [State.register, State.goto, hne hp] using hf
  | @ret _ _ d k res =>
    obtain ⟨_, _, hret⟩ := s.returnRes_frame t d res (.runner k (.loop res) :: rest)
    rw [hret]
    exact hf
  | _ => exact hf

/-- The completing thread goes on to publish the result. -/
theorem Step.finishing (h : Step s t top top' rest s') (hf : .run d via pc ∈ top) (hp : pc.finishes = true) :
    (s'.fut (.result d)).isReady = true ∨ ∃ pc', .run d via pc' ∈ top' ∧ pc'.finishes = true := by
  cases h with
  | stay => cases hf
  | move _ hm =>
    cases hm with
    | wait hidle =>
      obtain rfl := List.mem_singleton.1 hf
      cases hidle
    | _ => simp_all [RunPc.finishes]
  | constructed _ _ hpc =>
    obtain ⟨rfl, rfl, rfl⟩ : d = _ ∧ via = _ ∧ pc = _ := by simpa using hf
    rcases hpc with rfl | ⟨res, rfl⟩ <;> cases hp
  | setResult _ hc =>
    obtain ⟨rfl, rfl, rfl⟩ : d = _ ∧ via = _ ∧ pc = _ := by simpa using hf
    exact .inl (hc.ready_kept (.inl rfl))
  | construct _ hidle | setValue _ hidle | handler _ hidle =>
    obtain rfl := List.mem_singleton.1 hf
    cases hidle
  | _ => simp_all [RunPc.finishes]

theorem step_finisher (hi : HandOver s) (h : Step s t top top' rest s') :
    ∀ d, s'.mPull d = false → (s'.fut (.result d)).isReady = true ∨
      ∃ t via pc, .run d via pc ∈ s'.stack t ∧ pc.finishes = true := by
  intro d hd
  have htop' : ∀ {f : Frame}, f ∈ top' → f ∈ s'.stack t := by
    intro f hf
    rw [h.after, Function.update_self]
    exact List.mem_append_left _ hf
  by_cases hend : s.mPull d = false
  · rcases hi.finisher d hend with hr | ⟨u, via, pc, hf, hp⟩
    · exact .inl (h.ready_kept hr)
    · by_cases hu : u = t
      · subst hu
        rw [h.before, List.mem_append] at hf
        rcases hf with hf | hf
        · rcases h.finishing hf hp with hr | ⟨pc', hf', hp'⟩
          · exact .inl hr
          · exact .inr ⟨u, via, pc', htop' hf', hp'⟩
        · refine .inr ⟨u, via, pc, ?_, hp⟩
          rw [h.after, Function.update_self]
          exact List.mem_append_right _ hf
      · refine .inr ⟨u, via, pc, ?_, hp⟩
        rw [h.after, Function.update_of_ne hu]
        exact hf
  · have hb := h.before
    have hnot : s'.mPull d ≠ s.mPull d := fun he => hend (he ▸ hd)
    cases h with
    | @finish _ _ d' d'' via v pc _ hpc =>
      obtain rfl := hi.pulled hb
      by_cases hdd : d = d''
      · subst hdd
        refine .inr ⟨t, via, pc, htop' List.mem_cons_self, ?_⟩
        rw [hpc]
        split <;> rfl
      · exact absurd (by simp [hdd]) hnot
    | setValue _ _ hc | setResult _ hc => cases hc <;> exact absurd rfl hnot
    | @ret _ _ d' k res =>
      refine absurd ?_ hnot
      obtain ⟨_, _, hret⟩ := s.returnRes_frame t d' res (.runner k (.loop res) :: rest)
      rw [hret]
      rfl
    | _ => exact absurd rfl hnot

theorem step_closed (hi : HandOver s) (h : Step s t top top' rest s') :
    ∀ d, ¬ s'.unfinished d → s'.opened d = none := by
  intro d hd
  have ho : s.opened d = none := by
    by_cases hun : s.unfinished d
    · have hr : (s'.fut (.result d)).isReady = true := by
        by_contra hr
        exact hd ⟨Nat.lt_of_lt_of_le hun.1 h.born_le, by simpa using hr⟩
      rcases h.ready_cases hr with hr' | ⟨via, res, hm⟩
      · rw [hun.2] at hr'
        cases hr'
      · exact (hi.opens_top h _ hm).1
    · exact hi.closed d hun
  cases h with
  | setValue _ _ hc | setResult _ hc => cases hc <;> exact ho
  | @awaitExchange _ _ d' j e via hs =>
    have hne : d ≠ d' := by
      rintro rfl
      have hmem : .run d via (.suspend j (.routine e)) ∈ s.stack t := by
        rw [hs]
        exact List.mem_cons_self
      have hun : s.unfinished d := hi.unfinished_of_mem hmem (by simp)
      exact hd hun
    simpa [hne, State.goto] using ho
  | @awaitRefused _ _ d' | @awaitSpun _ _ d' =>
    by_cases hdd : d = d'
    · simp [State.goOn, hdd]
    · simpa [State.goOn, hdd, State.goto] using ho
  | @ret _ _ d' k res =>
    rcases s.returnRes_cases t d' res (.runner k (.loop res) :: rest) with ⟨y, k', -, -, hret⟩ | ⟨-, hret⟩
    · rw [hret]
      by_cases hdy : d = y
      · simp [hdy]
      · simpa [hdy, State.goto] using ho
    · rw [hret]
      exact ho
  | _ => exact ho

/-! ### The call of the registered Runner -/

theorem Step.awaits_le (h : Step s t top top' rest s') (d : Nat) : s.awaits d ≤ s'.awaits d := by
  cases h with
  | @leave _ _ d' => by_cases hd : d = d' <;> simp [State.leave, State.goto, hd]
  | setValue _ _ hc | setResult _ hc => cases hc <;> exact Nat.le_refl _
  | @ret _ _ d' k res =>
    obtain ⟨_, _, hret⟩ := s.returnRes_frame t d' res (.runner k (.loop res) :: rest)
    rw [hret]
    exact Nat.le_refl _
  | _ => exact Nat.le_refl _

/-- After its construction the `mCaller` of a Runner is only taken out. -/
theorem Inv.mCaller_cases (hi : Inv s) (h : Step s t top top' rest s') (hk : k.2 < s.awaits k.1) :
    s'.mCaller k = s.mCaller k ∨ s.mCaller k = .data k.1 ∧ s'.mCaller k = .null ∨ s'.mCaller k = .one := by
  have hsound := hi.sound h
  cases h with
  | @leave _ _ d =>
    have hne : k ≠ (d, s.awaits d) := by
      rintro rfl
      exact absurd hk (Nat.lt_irrefl _)
    exact .inl (by simp [State.leave, hne, State.goto])
  | setValue _ _ hcm | setResult _ hcm => cases hcm <;> exact .inl rfl
  | @awaitExchange _ _ d j =>
    obtain ⟨-, -, hcd, -⟩ := hsound _ List.mem_cons_self
    by_cases hkd : k = (d, j)
    · subst hkd
      exact .inr (.inl ⟨hcd, Function.update_self ..⟩)
    · exact .inl (by simp [hkd])
  | @ret _ _ d' k' res =>
    obtain ⟨_, _, hret⟩ := s.returnRes_frame t d' res (.runner k' (.loop res) :: rest)
    rw [hret]
    exact .inl rfl
  | @exchange _ _ k' =>
    by_cases hk' : k = k'
    · subst hk'
      exact .inr (.inr (Function.update_self ..))
    · exact .inl (by simp [hk'])
  | _ => exact .inl rfl

/-- A finishing `resume()` calls Runners where no coroutine is current. -/
theorem HandOver.current_none (hi : HandOver s) {l : List Frame}
    (hs : s.stack t = .runner k .enter :: .run e .resume (.ret res) :: l) : s.current t = none := by
  have hst := hi.stacked t
  have hab := hi.above t
  have hch := hi.chained t
  rw [hs] at hst hab hch
  have hon := hst.2
  cases l with
  | nil => exact absurd hon (by simp [Stacked])
  | cons g l =>
    obtain ⟨k', rfl⟩ := hon.1
    have hnil : bodies l = [] := hab.2.2.1.1
    have hbod : bodies (.runner k .enter :: .run e .resume (.ret res) :: .runner k' .running :: l) = bodies l := rfl
    rw [hbod, hnil] at hch
    exact hch

/-- What a thread does whose innermost activation is a Runner on entry. -/
theorem Step.of_runner (h : Step s t top top' rest s') {l : List Frame} (hs : s.stack t = .runner k .enter :: l) :
    s'.stack t = s.stack t ∨ (∃ x, s.current t = some x) ∨ s'.mCaller k = .one := by
  cases h with
  | stay => exact .inl rfl
  | move hb hm => cases hm <;> simp_all [Frame.idle]
  | construct hb hidle | setValue hb hidle | handler hb hidle =>
    rw [hs] at hb
    cases hb
    cases hidle
  | repost hb hx => exact .inr (.inl ⟨_, hx⟩)
  | exchange hb =>
    rw [hs] at hb
    cases hb
    exact .inr (.inr (Function.update_self ..))
  | _ => simp_all

theorem HandOver.called_kept (hi : HandOver s) (h : Step s t top top' rest s') (hw : s.waiter e = some k) :
    s'.Called e k := by
  obtain ⟨hold, htaken, hcall⟩ := hi.called e k hw
  have hcases := hi.mCaller_cases h hold
  refine ⟨Nat.lt_of_lt_of_le hold (h.awaits_le _), fun x hx => ?_, ?_⟩
  · rcases hcases with hc | ⟨hc, -⟩ | hc
    · exact htaken x (hc ▸ hx)
    · exact htaken _ hc
    · rw [hc] at hx
      cases hx
  have hcon := (hi.waiter e k hw).2
  rcases hcall with hp | hc | ⟨u, res, l, hs⟩
  · -- registered: only `ResultSetter` of `e` takes it out, and calls it
    have hne : ∀ {f : Future}, (s.fut f).continuationPtr = .empty → .result e ≠ f := by
      rintro f hf rfl
      rw [hf] at hp
      cases hp
    cases h with
    | setValue _ _ hcm => cases hcm <;> exact .inl (by simpa [State.goto] using hp)
    | @setResult _ _ d via res _ _ hs hcm =>
      by_cases hed : e = d
      · subst hed
        have hv : via = .resume := by
          by_contra hv
          have := (hi.underConstruction_of_mem (t := t) (by rw [hs]; exact List.mem_cons_self) hv).2
          rw [hcon] at this
          cases this
        subst hv
        cases hcm with
        | alone hp' | cv hp' =>
          rw [hp] at hp'
          cases hp'
        | runner hp' =>
          rw [hp] at hp'
          cases hp'
          exact .inr (.inr ⟨t, res, rest, Function.update_self ..⟩)
      · cases hcm <;> exact .inl (by simpa [hed, State.goto] using hp)
    | registerFuture _ hf | awaitRegister _ hf | waitRegister _ hf =>
      exact .inl (by simpa [State.register, State.goto, hne hf] using hp)
    | @ret _ _ d' k' res =>
      obtain ⟨_, _, hret⟩ := s.returnRes_frame t d' res (.runner k' (.loop res) :: rest)
      rw [hret]
      exact .inl hp
    | _ => exact .inl hp
  · rcases hcases with hc' | ⟨hc', -⟩ | hc'
    · exact .inr (.inl (hc'.trans hc))
    · exact absurd hc' (htaken _)
    · exact .inr (.inl hc')
  · by_cases hu : u = t
    · subst hu
      rcases h.of_runner hs with hsame | ⟨x, hx⟩ | hone
      · exact .inr (.inr ⟨u, res, l, by rw [hsame, hs]⟩)
      · rw [hi.current_none hs] at hx
        cases hx
      · exact .inr (.inl hone)
    · exact .inr (.inr ⟨u, res, l, by rw [h.after, Function.update_of_ne hu, hs]⟩)

theorem step_registered (hi : HandOver s) (h : Step s t top top' rest s') :
    ∀ e k, (s'.fut (.result e)).continuationPtr = .task (.runner k) → s'.waiter e = some k := by
  intro e k hk
  have hg := hi.grows h
  have hkeep : (s.fut (.result e)).continuationPtr = .task (.runner k) → s'.waiter e = some k :=
    fun hp => hg.waiter e k (hi.registered e k hp)
  cases h with
  | setValue _ _ hc => cases hc <;> exact hkeep (by simpa [State.goto] using hk)
  | @setResult _ _ d _ _ _ _ _ hc =>
    by_cases he : e = d
    · subst he
      cases hc <;> simp at hk
    · cases hc <;> exact hkeep (by simpa [he, State.goto] using hk)
  | registerFuture => exact hkeep (by simpa [State.register, State.goto] using hk)
  | @awaitRegister _ _ d j e' =>
    by_cases he : e = e'
    · subst he
      obtain rfl : (d, j) = k := by simpa [State.register] using hk
      exact Function.update_self ..
    · exact hkeep (by simpa [State.register, he, State.goto] using hk)
  | @waitRegister _ _ f =>
    by_cases hf : Future.result e = f
    · subst hf
      simp at hk
    · exact hkeep (by simpa [hf] using hk)
  | @ret _ _ d' k' res =>
    obtain ⟨_, _, hret⟩ := s.returnRes_frame t d' res (.runner k' (.loop res) :: rest)
    rw [hret] at hk hkeep ⊢
    exact hkeep hk
  | _ => exact hkeep hk

theorem step_called (hi : HandOver s) (h : Step s t top top' rest s') :
    ∀ e k, s'.waiter e = some k → s'.Called e k := by
  intro e k hk
  have hkeep := hi.called_kept h (e := e) (k := k)
  have hsound := hi.sound h
  cases h with
  | setValue _ _ hc | setResult _ hc => cases hc <;> exact hkeep hk
  | @awaitRegister _ _ d j e' =>
    by_cases he : e = e'
    · subst he
      obtain ⟨-, hfr, hnull, -⟩ := hsound _ List.mem_cons_self
      obtain rfl : (d, j) = k := by simpa [State.register] using hk
      refine ⟨hfr.old, fun x hx => ?_, .inl (by simp [State.register])⟩
      cases hnull.symm.trans hx
    · exact hkeep (by simpa [State.register, he, State.goto] using hk)
  | @ret _ _ d' k' res =>
    obtain ⟨_, _, hret⟩ := s.returnRes_frame t d' res (.runner k' (.loop res) :: rest)
    rw [hret] at hk hkeep ⊢
    exact hkeep hk
  | _ => exact hkeep hk

theorem step_handOver (hi : HandOver s) (h : Step s t top top' rest s') : HandOver s' where
  toInv := step_inv hi.toInv h
  chained := by
    intro u
    by_cases hu : u = t
    · subst hu
      exact h.chained hi.toInv (hi.chained u)
    · rw [h.current_other hu, h.after, Function.update_of_ne hu]
      refine (hi.chained u).congr fun x hx => ?_
      obtain ⟨f, hf, hxf⟩ := List.mem_flatMap.1 (bodies_sub hx)
      exact (hi.same h (hi.rights.elsewhere h.before (.inl ⟨hu, hf⟩) hxf)).mOuter
  above := by
    intro u
    by_cases hu : u = t
    · subst hu
      exact step_above hi h
    · rw [h.after, Function.update_of_ne hu]
      exact (hi.above u).grows (hi.grows h)
  opens := hi.rights.frames h.before h.after hi.opens (fun x hx => hi.same h hx)
    (fun f hf hx => hf.same hx (hi.grows h)) (step_opens hi h)
  runnersOpen := step_runnersOpen hi h
  hands := step_hands hi h
  notStarted := step_notStarted hi h
  counted := step_counted hi h
  disabled := step_disabled hi h
  ready := step_ready hi h
  finisher := step_finisher hi h
  closed := step_closed hi h
  registered := step_registered hi h
  called := step_called hi h

theorem handOver_reachable {ok : State → Act → Prop} (h : Reachable step ok init s) : HandOver s :=
  h.invariant handOver_init fun _ _ _ hi _ hst =>
    let ⟨_, _, _, _, hstep⟩ := step_cases hst
    step_handOver hi hstep

end CoAwait.Routine
