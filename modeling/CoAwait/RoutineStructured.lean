import CoAwait.RoutineIdle

/-!
# Structured programs finish (`async.hpp:8-34`)

`async` hands out a future whose promise belongs to the function it runs in a coroutine: the function completes it
before its coroutine ends, with a value or an exception. Where each coroutine keeps its promises in this way, and
awaits only what coroutines of a smaller `rank` have promised or are, the program does not deadlock.

* `structured`: the discipline, on the calls of user code only.
* `Ranked`: the invariant; the discipline of a call, wherever the library has put it by now.
* `structured_finishes`: where nobody can go on, all coroutines have ended.
-/

namespace CoAwait.Routine

open Runs

/-- `(n, d)`: coroutine `d` has promised to complete future `n`. -/
abbrev Promises := List (Nat × Nat)

/-- The body that thread `t` executes. -/
def State.executes (s : State) (t : Nat) : Option Nat :=
  match s.stack t with
  | .body d none :: _ => some d
  | _ => none

section
variable (promises : Promises) (rank : Nat → Nat)

/-- `d` may await it: it depends on coroutines of a smaller rank only. -/
def Lower (d : Nat) : Awaitable → Prop
  | .future n => ∃ p ∈ promises, p.1 = n ∧ rank p.2 < rank d
  | .routine e => rank e < rank d
  | .context _ => True

/-- A body awaits what is of a smaller rank, and ends after it has kept its promises. -/
def structured (s : State) : Act → Prop
  | .await t aw => ∀ d ∈ s.executes t, Lower promises rank d aw
  | .finish t _ => ∀ d ∈ s.executes t, ∀ p ∈ promises, p.2 = d → (s.fut (.plain p.1)).isReady = true
  | _ => True

instance (d : Nat) : (aw : Awaitable) → Decidable (Lower promises rank d aw)
  | .future n => inferInstanceAs (Decidable (∃ p ∈ promises, p.1 = n ∧ rank p.2 < rank d))
  | .routine e => inferInstanceAs (Decidable (rank e < rank d))
  | .context _ => .isTrue trivial

instance (s : State) : (a : Act) → Decidable (structured promises rank s a)
  | .await t aw => inferInstanceAs (Decidable (∀ d ∈ s.executes t, Lower promises rank d aw))
  | .finish t _ => inferInstanceAs
      (Decidable (∀ d ∈ s.executes t, ∀ p ∈ promises, p.2 = d → (s.fut (.plain p.1)).isReady = true))
  | .construct .. | .setValue .. | .handler .. | .wait .. | .step _ => .isTrue trivial

/-- What an activation is about to await. -/
def Frame.Ranked : Frame → Prop
  | .body d (some aw) => Lower promises rank d aw
  | .run d _ (.suspend _ aw) => Lower promises rank d aw
  | .run d _ (.awaitSuspend _ e _) => Lower promises rank d (.routine e)
  | _ => True

structure Ranked (s : State) : Prop where
  frames : ∀ t f, f ∈ s.stack t → f.Ranked promises rank
  left : ∀ d j aw, s.mPostLeave d = some (.await j aw) → Lower promises rank d aw
  parked : ∀ f d j, (s.fut f).continuationPtr = .task (.runner (d, j)) → Lower promises rank d f.awaitable
  kept : ∀ p ∈ promises, s.mPull p.2 = false → (s.fut (.plain p.1)).isReady = true
  known : ∀ t f b, .wait f b ∈ s.stack t → s.known f.awaitable = true

end

variable {promises : Promises} {rank : Nat → Nat} {s s' : State} {d n t : Nat} {aw : Awaitable} {a : Act}
  {top top' rest l : List Frame}

theorem ranked_init : Ranked promises rank init where
  frames := by
    intro t f hf
    obtain rfl : f = .main := by simpa [init] using hf
    trivial
  left := fun d j aw h => by simp [init] at h
  parked := fun f d j h => by simp [init] at h
  kept := fun p _ h => by simp [init] at h
  known := fun t f b h => by simp [init] at h

/-! ## The calls of user code -/

/-- Only the thread that makes the call leaves the body. -/
theorem thread_eq (h : step s a = some s') (hne : s'.stack t ≠ s.stack t) : a.thread = t := by
  obtain ⟨l', hl, -⟩ := step_restacked h
  by_contra ht
  exact hne (by rw [hl, Function.update_of_ne (Ne.symm ht)])

/-- The library does nothing while user code runs. -/
theorem not_library (h : step s (.step t) = some s') : s.stack t ≠ .body d none :: l := by
  intro hs
  simp [step, threadStep, hs] at h

/-- A body awaits because user code does. -/
theorem await_called (h : step s a = some s') (hs : s.stack t = .body d none :: l)
    (hs' : s'.stack t = .body d (some aw) :: l) : a = .await t aw := by
  obtain rfl : a.thread = t := thread_eq h (by rw [hs, hs']; simp)
  cases a with
  | await t aw' =>
    simp only [Act.thread] at hs hs'
    simp only [step, hs] at h
    split at h
    case isFalse => cases h
    case isTrue =>
      split at h <;> cases h
      · rw [hs] at hs'
        cases hs'
      · have haw : aw' = aw := by simpa [State.goto] using hs'
        rw [haw]
        rfl
  | step t => exact absurd hs (not_library h)
  | setValue t n v =>
    simp only [Act.thread] at hs hs'
    simp only [step, hs, Frame.idle, if_true] at h
    obtain ⟨pre, hc⟩ := complete_cases h
    rw [hc.after, Function.update_self] at hs'
    cases hc <;> simp at hs'
  | construct t ctx =>
    simp only [Act.thread] at hs hs'
    simp only [step, hs, Frame.idle, if_true] at h
    cases h
    simp [State.goto] at hs'
  | finish t v =>
    simp only [Act.thread] at hs hs'
    simp only [step, hs] at h
    split at h <;> cases h
    simp [State.goto] at hs'
  | handler t c i =>
    simp only [Act.thread] at hs hs'
    simp only [step, hs] at h
    split at h
    case h_1 =>
      split at h <;> cases h
      simp [State.goto] at hs'
    case h_2 => cases h
  | wait t f =>
    simp only [Act.thread] at hs hs'
    simp only [step, hs] at h
    split at h <;> cases h
    simp [State.goto] at hs'

/-- A body ends because user code returns. -/
theorem finish_called (h : step s a = some s') (hp : s.mPull d = true) (hp' : s'.mPull d = false) :
    ∃ t v l, a = .finish t v ∧ s.stack t = .body d none :: l := by
  have hchanged : s'.mPull ≠ s.mPull := by
    intro heq
    rw [heq, hp] at hp'
    cases hp'
  cases a with
  | finish t v =>
    simp only [step] at h
    split at h <;> cases h
    case h_1 d' d'' via rest hs =>
      obtain rfl : d = d' := by
        by_contra hne
        simp [hne, hp] at hp'
      exact ⟨t, v, _, rfl, hs⟩
  | step t =>
    obtain ⟨t', top, top', rest, hstep⟩ := step_cases h
    cases hstep with
    | finish hs hpc =>
      obtain rfl : t = _ := thread_eq h (by rw [hs]; simp [State.goto])
      exact absurd hs (not_library h)
    | setValue _ _ hc | setResult _ hc => exact absurd (by cases hc <;> rfl) hchanged
    | ret =>
      obtain ⟨_, _, hret⟩ := s.returnRes_frame _ _ _ _
      exact absurd (by rw [hret]; rfl) hchanged
    | _ => exact absurd rfl hchanged
  | setValue t n v =>
    simp only [step] at h
    split at h
    case h_1 =>
      split at h
      case isTrue =>
        obtain ⟨pre, hc⟩ := complete_cases h
        exact absurd (by cases hc <;> rfl) hchanged
      case isFalse => cases h
    case h_2 => cases h
  | _ =>
    simp only [step] at h
    repeat' (split at h)
    all_goals first | cases h; done | (cases h; exact absurd rfl hchanged)

/-! ## Steps -/

theorem Moves.ranked (h : Moves s top top') (hold : ∀ f ∈ top, f.Ranked promises rank)
    (hnew : ∀ d aw, top = [.body d none] → top' = [.body d (some aw)] → Lower promises rank d aw) :
    ∀ f ∈ top', f.Ranked promises rank := by
  intro f hf
  cases h with
  | await =>
    obtain rfl := List.mem_singleton.1 hf
    exact hnew _ _ rfl rfl
  | @wait _ g =>
    rcases List.mem_cons.1 hf with rfl | hf
    · trivial
    · exact hold f hf
  | loop =>
    rcases List.mem_cons.1 hf with rfl | hf
    · trivial
    · obtain rfl := List.mem_singleton.1 hf
      trivial
  | loopEnd | waitReady | waitDone => cases hf
  | _ =>
    obtain rfl := List.mem_singleton.1 hf
    trivial

theorem step_frames (hi : Ranked promises rank s) (h : Step s t top top' rest s')
    (hnew : ∀ d aw, top = [.body d none] → top' = [.body d (some aw)] → Lower promises rank d aw) :
    ∀ f ∈ top', f.Ranked promises rank := by
  have hold : ∀ f ∈ top, f.Ranked promises rank := fun f hf => hi.frames t f (by rw [h.before]; simp [hf])
  have htwo : ∀ {g g' : Frame}, g.Ranked promises rank → g'.Ranked promises rank →
      ∀ f ∈ [g, g'], f.Ranked promises rank := by
    intro g g' hg hg' f hf
    rcases List.mem_cons.1 hf with rfl | hf
    · exact hg
    · obtain rfl := List.mem_singleton.1 hf
      exact hg'
  have hone : ∀ {g : Frame}, g.Ranked promises rank → ∀ f ∈ [g], f.Ranked promises rank := by
    intro g hg f hf
    obtain rfl := List.mem_singleton.1 hf
    exact hg
  cases h with
  | stay => exact fun f hf => by cases hf
  | move _ hm => exact hm.ranked hold hnew
  | construct _ _ => exact htwo trivial (hold _ (by simp))
  | handler => exact htwo trivial (hold _ (by simp))
  | enter => exact htwo trivial trivial
  | @setValue _ _ _ _ g _ _ _ _ hc =>
    have hg := hold g (by simp)
    cases hc with
    | runner => exact htwo trivial hg
    | alone | cv => exact hone hg
  | setResult _ hc =>
    cases hc with
    | runner => exact htwo trivial trivial
    | alone | cv => exact hone trivial
  | finish _ hpc =>
    rw [hpc]
    exact hone (by split <;> trivial)
  | fetch _ hp => exact hone (hi.left _ _ _ hp)
  | @awaitExchange _ _ d j e via =>
    have hlower := hold (.run d via (.suspend j (.routine e))) (by simp)
    exact hone hlower
  | constructed | repost => exact fun f hf => by cases hf
  | _ => exact hone trivial

theorem step_left (hi : Ranked promises rank s) (h : Step s t top top' rest s') :
    ∀ d j aw, s'.mPostLeave d = some (.await j aw) → Lower promises rank d aw := by
  intro d j aw hp
  rcases h.left_new hp with hp | hf
  · exact hi.left d j aw hp
  · exact hi.frames t _ (h.mem hf)

theorem step_parkedRank (hi : Ranked promises rank s) (h : Step s t top top' rest s') :
    ∀ f d j, (s'.fut f).continuationPtr = .task (.runner (d, j)) → Lower promises rank d f.awaitable := by
  intro f d j hp
  rcases h.parked_new hp with hp | ⟨via, n, rfl, hf⟩ | ⟨via, e, c, rfl, hf⟩
  · exact hi.parked f d j hp
  · exact hi.frames t _ (h.mem hf)
  · exact hi.frames t _ (h.mem hf)

/-- A thread blocks on what user code can name. -/
theorem Step.waits (h : Step s t top top' rest s') {f : Future} {b : Bool} (hf : .wait f b ∈ top') :
    s.known f.awaitable = true ∨ ∃ b', .wait f b' ∈ top := by
  cases h with
  | move _ hm =>
    cases hm with
    | @wait _ g _ hk =>
      rcases List.mem_cons.1 hf with hf | hf
      · cases hf
        exact .inl hk
      · exact .inr ⟨b, hf⟩
    | _ => simp at hf
  | waitRegister =>
    obtain ⟨rfl, -⟩ : f = _ ∧ b = true := by simpa using hf
    exact .inr ⟨false, by simp⟩
  | setValue _ _ hc =>
    refine .inr ⟨b, ?_⟩
    cases hc <;> simpa using hf
  | setResult _ hc => cases hc <;> simp at hf
  | construct | handler => exact .inr ⟨b, by simpa using hf⟩
  | _ => simp at hf

theorem step_known (hi : Ranked promises rank s) (hinv : Inv s) (h : Step s t top top' rest s') :
    ∀ t f b, .wait f b ∈ s'.stack t → s'.known f.awaitable = true := by
  have hgrows := hinv.grows h
  intro u f b hf
  by_cases hu : u = t
  · subst hu
    rw [h.after, Function.update_self] at hf
    rcases List.mem_append.1 hf with hf | hf
    · rcases h.waits hf with hk | ⟨b', hf⟩
      · exact State.known_grows hgrows hk
      · exact State.known_grows hgrows (hi.known u f b' (by rw [h.before]; simp [hf]))
    · exact State.known_grows hgrows (hi.known u f b (by rw [h.before]; simp [hf]))
  · rw [h.after, Function.update_of_ne hu] at hf
    exact State.known_grows hgrows (hi.known u f b hf)

theorem step_ranked (hi : Ranked promises rank s) (hinv : Inv s) (hok : structured promises rank s a)
    (hst : step s a = some s') : Ranked promises rank s' := by
  obtain ⟨t, top, top', rest, h⟩ := step_cases hst
  refine ⟨?_, step_left hi h, step_parkedRank hi h, ?_, step_known hi hinv h⟩
  · have hnew : ∀ d aw, top = [.body d none] → top' = [.body d (some aw)] → Lower promises rank d aw := by
      rintro d aw rfl rfl
      have hs : s.stack t = .body d none :: rest := h.before
      obtain rfl := await_called hst hs (by rw [h.after, Function.update_self]; rfl)
      exact hok d (by simp [State.executes, hs])
    intro u f hf
    by_cases hu : u = t
    · subst hu
      rw [h.after, Function.update_self] at hf
      rcases List.mem_append.1 hf with hf | hf
      · exact step_frames hi h hnew f hf
      · exact hi.frames u f (by rw [h.before]; simp [hf])
    · rw [h.after, Function.update_of_ne hu] at hf
      exact hi.frames u f hf
  · intro p hp hpull
    cases hold : s.mPull p.2 with
    | false => exact h.ready_kept (hi.kept p hp hold)
    | true =>
      obtain ⟨u, v, l, rfl, hs⟩ := finish_called hst hold hpull
      exact h.ready_kept (hok p.2 (by simp [State.executes, hs]) p hp rfl)

theorem ranked_reachable (h : Reachable step (structured promises rank) init s) :
    Inv s ∧ Ranked promises rank s :=
  h.invariant (I := fun s => Inv s ∧ Ranked promises rank s) ⟨inv_init, ranked_init⟩ fun _ _ _ ⟨hinv, hi⟩ hok hst =>
    let ⟨_, _, _, _, hstep⟩ := step_cases hst
    ⟨step_inv hinv hstep, step_ranked hi hinv hok hst⟩

/-! ## The end -/

/-- **Structured programs do not deadlock.** Where no thread can make an operation of the library, no handler is
queued, no body is on a stack, and every coroutine that has promised something was started: all coroutines have ended
and published their results, all promises are kept, and whoever still blocks waits for a future that nobody has
promised. -/
theorem structured_finishes (h : Reachable step (structured promises rank) init s) (hstuck : s.stuck)
    (hqueue : ∀ c, s.queue c = []) (hbody : ∀ t d l, .body d l ∉ s.stack t)
    (hstarted : ∀ p ∈ promises, p.2 < s.born) :
    (∀ d, d < s.born → s.mPull d = false ∧ (s.fut (.result d)).isReady = true) ∧
    (∀ p ∈ promises, (s.fut (.plain p.1)).isReady = true) ∧
    ∀ t g l, s.stack t = .wait g true :: l → ∃ n, g = .plain n ∧ ∀ p ∈ promises, p.1 ≠ n := by
  have hw := watched_reachable h
  obtain ⟨hinv, hi⟩ := ranked_reachable h
  -- by induction on the rank: whatever a coroutine awaits has ended
  have hended : ∀ m d, rank d = m → d < s.born → s.mPull d = false := by
    intro m
    induction m using Nat.strong_induction_on with
    | _ m ih =>
      intro d hm hd
      subst hm
      by_contra hp
      rcases hw.executing_or_parked hstuck hqueue ⟨hd, by simpa using hp⟩ with ⟨t, l, hf⟩ | ⟨f, hparked, -⟩
      · exact hbody t d l hf
      · obtain ⟨j, -, hptr⟩ := id hparked
        have hlower := hi.parked f d j hptr
        have hnot : (s.fut f).isReady ≠ true := by
          rw [Ne, LightFutureData.isReady_iff, hptr]
          simp
        cases f with
        | plain n =>
          obtain ⟨p, hp, rfl, hlt⟩ := hlower
          exact hnot (hi.kept p hp (ih _ hlt p.2 rfl (hstarted p hp)))
        | result e =>
          obtain ⟨hborn, hpull⟩ := hw.awaited_active hstuck hparked
          rw [ih _ hlower e rfl hborn] at hpull
          cases hpull
  have hpublished : ∀ d, d < s.born → (s.fut (.result d)).isReady = true := fun d hd =>
    (hw.published_or_active hstuck d).resolve_right (by rw [hended _ d rfl hd]; simp)
  refine ⟨fun d hd => ⟨hended _ d rfl hd, hpublished d hd⟩,
    fun p hp => hi.kept p hp (hended _ p.2 rfl (hstarted p hp)), fun t g l hs => ?_⟩
  have hnot : (s.fut g).isReady ≠ true := by
    rw [Ne, LightFutureData.isReady_iff, hw.blocked_on hstuck hs]
    simp
  cases g with
  | plain n =>
    refine ⟨n, rfl, ?_⟩
    rintro p hp rfl
    exact hnot (hi.kept p hp (hended _ p.2 rfl (hstarted p hp)))
  | result e =>
    have hconstructed : s.constructed e = true := hi.known t (.result e) true (by simp [hs])
    refine absurd (hpublished e ?_) hnot
    by_contra hborn
    rw [(hinv.blank e (by omega)).constructed] at hconstructed
    cases hconstructed

/-- Coroutine 0 awaits future 0, which coroutine 1 has promised. -/
def promiseSchedule : List Act :=
  parkedSchedule ++
    [.construct 0 0, .step 0, .setValue 0 0 (.val ()), .step 0, .finish 0 (.val ()), .step 0, .step 0, .step 0, .step 0,
      .handler 0 0 0, .step 0, .step 0, .step 0, .finish 0 (.val ()), .step 0, .step 0, .step 0, .step 0, .step 0,
      .step 0]

theorem structured_finishes_promise : ∃ s : State,
    Run step (structured [(0, 1)] fun d => 1 - d) init promiseSchedule s ∧ s.born = 2 ∧ ∀ d < 2, (s.fut (.result d)).isReady = true := by
  have hrun := exec_get_run step (structured [(0, 1)] fun d => 1 - d) init promiseSchedule (by decide)
  have hidle : ∀ t, ((exec step (structured [(0, 1)] fun d => 1 - d) init promiseSchedule).get (by decide)).stack t =
      [.main] := fun t => by
    cases t <;> rfl
  have hend := structured_finishes ⟨_, hrun⟩ (fun t => by simp [step, threadStep, hidle t])
    (fun c => by cases c <;> rfl) (fun t d l => by simp [hidle t]) (by decide)
  exact ⟨_, hrun, rfl, fun d hd => (hend.1 d hd).2⟩

end CoAwait.Routine
