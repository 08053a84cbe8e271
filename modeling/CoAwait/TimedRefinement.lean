import CoAwait.MutexInv
import CoAwait.Simulation
import CoAwait.TimedWaiter

/-!
# `BaseTimedMutex` without timed waits is `BaseMutex<FairPolicy>`

The two `unlock` loops differ where `mWaiter` is empty although the counter is positive, that is, while a counted
`lock` has not yet added its waiter: `BaseMutex` searches again, `BaseTimedMutex` evaluates `*next` on the null pointer
(`timed_mutex.hpp:196`). In the runs in which this does not happen (`finds`) each step is a step of the plain mutex,
and the compare-exchange of `alreadyFinalized` and `cancel` are none.

* `Matches`: the two states.
* `timed_refines_plain`: the simulation, and what it says about `next`.
* `accounting_kept`: the accounting of the plain mutex carried over; `timed_call_miscounts`: no `try_lock_for` keeps it.
-/

namespace CoAwait.TimedMutex

open Runs Counting
open CoAwait.Mutex (Waiter Role Balance casWeak wrapInt)

variable {ι : Type}

/-- No `try_lock_for` with a positive timeout is called. -/
def untimed (_ : State ι) : Act ι → Prop
  | .tryLockFor _ positive => positive = false
  | _ => True

instance (s : State ι) : (a : Act ι) → Decidable (untimed s a)
  | .tryLockFor _ _ => inferInstanceAs (Decidable (_ = _))
  | .lock _ | .tryLock _ | .unlock _ | .run _ _ | .expire _ | .handler _ => .isTrue trivial

/-! ## The two states -/

/-- The program counter of the plain mutex. Having a waiter in `next`, `unlock` is about to complete it. -/
def Pc.toPlain : Pc ι → Mutex.Pc ι
  | .lockCas i => .lockCas i
  | .lockFetchAdd => .lockFetchAdd
  | .lockAddToWaiter n => .lockAddToWaiter n
  | .lockAwait n => .lockAwait n
  | .tryLock => .tryLock
  | .holding => .holding
  | .unlockFetchSub => .unlockFetchSub
  | .unlockSynchronize _ | .unlockCheck none | .unlockCount _ => .unlockSearch
  | .unlockCheck (some next) | .unlockCancel next | .unlockSetValue next => .unlockSetValue next
  | .idle | .tryLockForAddToWaiter _ | .tryLockForAwait _ | .tryLockForFetchSub _ => .idle

/-- The step of the plain mutex. -/
def toPlain (s : State ι) : Act ι → Option (Mutex.Act ι)
  | .lock c => some (.lock c)
  | .tryLock c | .tryLockFor c _ => some (.tryLock c)
  | .unlock c => some (.unlock c)
  | .run c spurious =>
    match s.pc c with
    | .unlockCheck _ | .unlockCancel _ => none
    | _ => some (.run c spurious)
  | .expire _ | .handler _ => none

/-- The same counter, the same queue, the same clients in the same places. -/
structure Matches (s : State ι) (t : Mutex.State ι) : Prop where
  count : t.mCountOfWaiter = s.mCountOfWaiter
  queue : t.mWaiter = s.mWaiter
  calls : t.calls = s.calls
  pc : ∀ c, t.pc c = (s.pc c).toPlain
  p : ∀ w, t.p w = (s.p w).result.isSome

def Pc.timedCall : Pc ι → Bool
  | .tryLockForAddToWaiter _ | .tryLockForAwait _ | .tryLockForFetchSub _ => true
  | _ => false

/-- There is no timer, and no client is in `try_lock_for`. -/
structure Untimed (s : State ι) : Prop where
  noTimer : ∀ w, (s.p w).timer = .none
  noCall : ∀ c, (s.pc c).timedCall = false

theorem matches_init : Matches (init : State ι) Mutex.init ∧ Untimed (init : State ι) :=
  ⟨⟨rfl, rfl, rfl, fun _ => rfl, fun _ => rfl⟩, ⟨fun _ => rfl, fun _ => rfl⟩⟩

/-- The same clients hold, wait and hand over. -/
theorem Matches.role {s : State ι} {t : Mutex.State ι} (h : Matches s t) (hu : Untimed s) (c : ι) :
    t.role c = s.role c := by
  have hcall := hu.noCall c
  unfold Mutex.State.role State.role
  rw [h.pc c]
  cases hp : s.pc c with
  | lockAddToWaiter n => simp [Pc.toPlain, h.p]
  | lockAwait n => simp [Pc.toPlain, h.p]
  | unlockCheck x => cases x <;> rfl
  | tryLockForAddToWaiter | tryLockForAwait | tryLockForFetchSub => rw [hp] at hcall; cases hcall
  | _ => rfl

section
variable [DecidableEq ι] {s s' : State ι} {t : Mutex.State ι} {c : ι} {w : Waiter ι} {x : Pc ι}

/-! ## Effects of a step on both sides -/

namespace Matches

theorem setPc (h : Matches s t) {y : Mutex.Pc ι} (hy : y = x.toPlain) : Matches (s.setPc c x) (t.setPc c y) where
  count := h.count
  queue := h.queue
  calls := h.calls
  pc d := by
    by_cases hd : d = c
    · rw [hd, setPc_pc_self, Mutex.setPc_pc_self, hy]
    · rw [setPc_pc_ne hd, Mutex.setPc_pc_ne hd, h.pc d]
  p := h.p

/-- A step that the plain mutex does not take. -/
theorem stay (h : Matches s t) (hx : x.toPlain = (s.pc c).toPlain) : Matches (s.setPc c x) t where
  count := h.count
  queue := h.queue
  calls := h.calls
  pc d := by
    by_cases hd : d = c
    · rw [hd, setPc_pc_self, hx, h.pc c]
    · rw [setPc_pc_ne hd, h.pc d]
  p := h.p

omit [DecidableEq ι] in
theorem setCount (h : Matches s t) (k : Int) :
    Matches { s with mCountOfWaiter := k } { t with mCountOfWaiter := k } := { h with count := rfl }

/-- A timer and `alreadyFinalized` have no counterpart. -/
theorem setP (h : Matches s t) {y : TimedMutexWaiter} (hy : y.result = (s.p w).result) : Matches (s.setP w y) t :=
  { h with
    p := by
      intro v
      by_cases hv : v = w
      · subst hv
        rw [setP_p_self, hy, h.p v]
      · rw [setP_p_ne hv, h.p v] }

theorem newWaiter (h : Matches s t) (hr : Record s) :
    Matches (s.newWaiter c .none) { t with calls := Function.update t.calls c (t.calls c + 1) } where
  count := h.count
  queue := h.queue
  calls := by rw [State.newWaiter, h.calls]
  pc := h.pc
  p v := by
    by_cases hv : v = (c, s.calls c)
    · subst hv
      simp [State.newWaiter, h.p, hr.fresh c (s.calls c) le_rfl]
    · simp [State.newWaiter, hv, h.p]

theorem setValue (h : Matches s t) : Matches (s.setValue w .succeeded) (Mutex.setValue t w) where
  count := h.count
  queue := h.queue
  calls := h.calls
  pc := h.pc
  p v := by
    by_cases hv : v = w
    · subst hv
      simp [State.setValue, Mutex.setValue]
    · simp [State.setValue, Mutex.setValue, setP_p_ne hv, hv, h.p]

end Matches

namespace Untimed

theorem setPc (h : Untimed s) (hx : x.timedCall = false) : Untimed (s.setPc c x) where
  noTimer := h.noTimer
  noCall d := by
    by_cases hd : d = c
    · rw [hd, setPc_pc_self, hx]
    · rw [setPc_pc_ne hd]
      exact h.noCall d

omit [DecidableEq ι] in
theorem setCount (h : Untimed s) (k : Int) : Untimed { s with mCountOfWaiter := k } := { h with }

theorem setP (h : Untimed s) {y : TimedMutexWaiter} (hy : y.timer = .none) : Untimed (s.setP w y) :=
  { h with
    noTimer := by
      intro v
      by_cases hv : v = w
      · rw [hv, setP_p_self, hy]
      · rw [setP_p_ne hv]
        exact h.noTimer v }

theorem cancel (h : Untimed s) (w : Waiter ι) : Untimed (s.setTimer w (s.p w).timer.cancel) :=
  h.setP (by simp [h.noTimer w, Timer.cancel])

theorem newWaiter (h : Untimed s) : Untimed (s.newWaiter c .none) :=
  { h with
    noTimer := by
      intro v
      by_cases hv : v = (c, s.calls c)
      · simp [State.newWaiter, hv]
      · simpa [State.newWaiter, hv] using h.noTimer v }

omit [DecidableEq ι] in
/-- Without timers the condition on an `unlock` is the only one. -/
theorem undisturbed (h : Untimed s) {a : Act ι} (ha : finds s a) : undisturbed s a := by
  refine ⟨ha, ?_⟩
  cases a with
  | handler w =>
    intro hq
    rw [h.noTimer w] at hq
    cases hq
  | run c spurious =>
    intro n _
    rw [h.noTimer]
    simp
  | lock | tryLock | tryLockFor | unlock | expire => trivial

end Untimed

/-! ## The simulation -/

/-- The plain mutex takes the step `b`, or none, and the states still match. -/
def Follows (s' : State ι) (t : Mutex.State ι) : Option (Mutex.Act ι) → Prop
  | none => Matches s' t
  | some b => ∃ t', Mutex.step .fair t b = some t' ∧ Matches s' t'

omit [DecidableEq ι] in
theorem getNextWaiter_eq (l : List (Waiter ι)) : Mutex.Policy.fair.getNextWaiter l = getNextWaiter l := by
  cases l <;> rfl

theorem lockFetchAdd_matches (h : Matches s t) (hu : Untimed s) (hr : Record s) :
    Untimed (lockFetchAdd s c) ∧ Matches (lockFetchAdd s c) (Mutex.lockFetchAdd t c) := by
  unfold lockFetchAdd Mutex.lockFetchAdd
  rw [h.count]
  dsimp only
  split
  · exact ⟨(hu.setCount _).setPc rfl, (h.setCount _).setPc rfl⟩
  · refine ⟨((hu.setCount _).newWaiter).setPc rfl, ?_⟩
    rw [h.calls]
    have hnew := ((h.setCount (wrapInt (s.mCountOfWaiter + 1))).newWaiter (c := c) (hr.count _)).setPc (c := c)
      (x := .lockAddToWaiter (s.calls c)) rfl
    rw [h.calls] at hnew
    exact hnew

theorem unlockFetchSub_matches (h : Matches s t) (hu : Untimed s) :
    Untimed (unlockFetchSub s c) ∧ Matches (unlockFetchSub s c) (Mutex.unlockFetchSub t c) := by
  unfold unlockFetchSub Mutex.unlockFetchSub
  rw [h.count]
  dsimp only
  split
  · exact ⟨(hu.setCount _).setPc rfl, (h.setCount _).setPc rfl⟩
  · exact ⟨(hu.setCount _).setPc rfl, (h.setCount _).setPc rfl⟩

theorem runStep_matches (h : Matches s t) (hu : Untimed s) (hr : Record s) (hs : Scoped s) {spurious : Bool}
    (hok : finds s (.run c spurious)) (hst : runStep s c spurious = some s') :
    Untimed s' ∧ Follows s' t (toPlain s (.run c spurious)) := by
  have hcall := hu.noCall c
  have hpc := h.pc c
  unfold runStep at hst
  split at hst
  case h_1 => cases hst
  case h_2 => cases hst
  case h_3 i hp =>
    rw [hp] at hpc
    simp only [toPlain, hp, Follows, Mutex.step, Mutex.runStep, hpc, Pc.toPlain, h.count]
    rcases hcas : casWeak spurious s.mCountOfWaiter with ⟨_ | _, e, k⟩ <;> simp only [hcas] at hst ⊢
    · split at hst <;> rename_i hloop <;> cases hst
      · exact ⟨hu.setPc rfl, _, if_pos hloop, h.setPc rfl⟩
      · exact ⟨hu.setPc rfl, _, if_neg hloop, h.setPc rfl⟩
    · cases hst
      exact ⟨(hu.setCount _).setPc rfl, _, rfl, (h.setCount _).setPc rfl⟩
  case h_4 hp =>
    cases hst
    rw [hp] at hpc
    simp only [toPlain, hp, Follows, Mutex.step, Mutex.runStep, hpc, Pc.toPlain]
    obtain ⟨hu', hm⟩ := lockFetchAdd_matches (c := c) h hu hr
    exact ⟨hu', _, rfl, hm⟩
  case h_5 n hp =>
    cases hst
    rw [hp] at hpc
    simp only [toPlain, hp, Follows, Mutex.step, Mutex.runStep, hpc, Pc.toPlain]
    have hm := h.setPc (c := c) (x := .lockAwait n) rfl
    have hu' := hu.setPc (c := c) (x := .lockAwait n) rfl
    refine ⟨⟨hu'.noTimer, hu'.noCall⟩, _, rfl, ⟨hm.count, ?_, hm.calls, hm.pc, hm.p⟩⟩
    show t.mWaiter ++ [(c, n)] = s.mWaiter ++ [(c, n)]
    rw [h.queue]
  case h_6 n hp =>
    rw [hp] at hpc
    split at hst <;> cases hst
    rename_i r hres
    have hdone : t.p (c, n) = true := by rw [h.p, hres]; rfl
    simp only [toPlain, hp, Follows, Mutex.step, Mutex.runStep, hpc, Pc.toPlain, hdone, if_true]
    refine ⟨(hu.cancel _).setPc rfl, _, rfl, Matches.setPc (Matches.setP h ?_) rfl⟩
    rfl
  case h_7 hp =>
    rw [hp] at hpc
    simp only [toPlain, hp, Follows, Mutex.step, Mutex.runStep, hpc, Pc.toPlain, h.count]
    rcases hcas : casWeak spurious s.mCountOfWaiter with ⟨_ | _, e, k⟩ <;> simp only [hcas] at hst ⊢ <;> cases hst
    · exact ⟨hu.setPc rfl, _, rfl, h.setPc rfl⟩
    · exact ⟨(hu.setCount _).setPc rfl, _, rfl, (h.setCount _).setPc rfl⟩
  case h_8 n hp => rw [hp] at hcall; cases hcall
  case h_9 n hp => rw [hp] at hcall; cases hcall
  case h_10 n hp => rw [hp] at hcall; cases hcall
  case h_11 hp =>
    cases hst
    rw [hp] at hpc
    simp only [toPlain, hp, Follows, Mutex.step, Mutex.runStep, hpc, Pc.toPlain]
    obtain ⟨hu', hm⟩ := unlockFetchSub_matches (c := c) h hu
    exact ⟨hu', _, rfl, hm⟩
  case h_12 next hp =>
    rw [hp] at hpc
    simp only [toPlain, hp, Follows, Mutex.step, Mutex.runStep, hpc, Pc.toPlain, getNextWaiter_eq, h.queue]
    -- an empty queue is what `finds` excludes
    obtain ⟨w, rest, hl⟩ := List.exists_cons_of_ne_nil (hok (by rw [hp]; rfl))
    simp only [hl, getNextWaiter] at hst ⊢
    cases hst
    have hm := h.setPc (c := c) (x := .unlockCheck (some w)) rfl
    have hu' := hu.setPc (c := c) (x := .unlockCheck (some w)) rfl
    exact ⟨⟨hu'.noTimer, hu'.noCall⟩, _, rfl, ⟨hm.count, rfl, hm.calls, hm.pc, hm.p⟩⟩
  case h_13 => cases hst
  case h_14 next hp =>
    obtain ⟨w, hw, -, -, hopen, -⟩ := hs.check c _ hp
    cases hw
    rw [if_neg (by simp [hopen])] at hst
    cases hst
    simp only [toPlain, hp, Follows]
    have hu' : Untimed (s.finalize next .handOver) :=
      ⟨(hu.setP (y := { s.p next with alreadyFinalized := true }) (hu.noTimer next)).noTimer, hu.noCall⟩
    have hm : Matches (s.finalize next .handOver) t :=
      ⟨h.count, h.queue, h.calls, h.pc, (h.setP (y := { s.p next with alreadyFinalized := true }) rfl).p⟩
    refine ⟨hu'.setPc rfl, hm.stay ?_⟩
    show _ = (s.pc c).toPlain
    rw [hp]
    rfl
  case h_15 next hp =>
    have := hs.noRetry c
    rw [hp] at this
    cases this
  case h_16 next hp =>
    cases hst
    simp only [toPlain, hp, Follows]
    refine ⟨(hu.cancel next).setPc rfl, Matches.stay (Matches.setP h rfl) ?_⟩
    show _ = (s.pc c).toPlain
    rw [hp]
    rfl
  case h_17 next hp =>
    cases hst
    rw [hp] at hpc
    simp only [toPlain, hp, Follows, Mutex.step, Mutex.runStep, hpc, Pc.toPlain]
    have hu' : Untimed (s.setValue next .succeeded) :=
      ⟨(hu.setP (y := { s.p next with result := some .succeeded }) (hu.noTimer next)).noTimer, hu.noCall⟩
    exact ⟨hu'.setPc rfl, _, rfl, h.setValue.setPc rfl⟩

theorem step_matches {a : Act ι} (h : Matches s t) (hu : Untimed s) (hr : Record s) (hs : Scoped s)
    (hok : untimed s a ∧ finds s a) (hst : step s a = some s') : Untimed s' ∧ Follows s' t (toPlain s a) := by
  cases a with
  | lock c =>
    simp only [step] at hst
    split at hst <;> cases hst
    rename_i hp
    exact ⟨hu.setPc rfl, _, if_pos (by rw [h.pc, hp]; rfl), h.setPc rfl⟩
  | tryLock c =>
    simp only [step] at hst
    split at hst <;> cases hst
    rename_i hp
    exact ⟨hu.setPc rfl, _, if_pos (by rw [h.pc, hp]; rfl), h.setPc rfl⟩
  | tryLockFor c positive =>
    obtain rfl : positive = false := hok.1
    simp only [step] at hst
    split at hst <;> cases hst
    rename_i hp
    exact ⟨hu.setPc rfl, _, if_pos (by rw [h.pc, hp]; rfl), h.setPc rfl⟩
  | unlock c =>
    simp only [step] at hst
    split at hst <;> cases hst
    rename_i hp
    exact ⟨hu.setPc rfl, _, if_pos (by rw [h.pc, hp]; rfl), h.setPc rfl⟩
  | run c spurious => exact runStep_matches h hu hr hs hok.2 hst
  | expire w =>
    simp only [step] at hst
    rw [if_neg (by simp [hu.noTimer w])] at hst
    cases hst
  | handler w =>
    simp only [step, handlerStep, hu.noTimer w] at hst
    cases hst

/-- What relates the two systems in the runs without timed waits. -/
structure Refines (s : State ι) (t : Mutex.State ι) : Prop where
  states : Matches s t
  noTimers : Untimed s
  record : Record s
  scope : Scoped s

omit [DecidableEq ι] in
theorem refines_init : Refines (init : State ι) Mutex.init :=
  ⟨matches_init.1, matches_init.2, record_init, scoped_init⟩

theorem Refines.step {a : Act ι} (h : Refines s t) (hok : untimed s a ∧ finds s a) (hst : step s a = some s') :
    (toPlain s a = none → Refines s' t) ∧
    ∀ b, toPlain s a = some b → ∃ t', Mutex.step .fair t b = some t' ∧ Refines s' t' := by
  obtain ⟨hu', hf⟩ := step_matches h.states h.noTimers h.record h.scope hok hst
  have hr' := record_step h.record hst
  have hs' := scoped_step h.scope h.record (h.noTimers.undisturbed hok.2) hst
  refine ⟨fun hb => ?_, fun b hb => ?_⟩
  · rw [hb] at hf
    exact ⟨hf, hu', hr', hs'⟩
  · rw [hb] at hf
    obtain ⟨t', ht', hm⟩ := hf
    exact ⟨t', ht', hm, hu', hr', hs'⟩

theorem simulation : Simulation (step (ι := ι)) (fun s a => untimed s a ∧ finds s a) (Mutex.step .fair) anyStep toPlain
    Refines where
  stutter h hok hst hev := (h.step hok hst).1 hev
  follow h hok hst hev := ⟨trivial, (h.step hok hst).2 _ hev⟩

/-- **Without timed waits, and where no `unlock` looks into an empty `mWaiter`, each run is one of
`BaseMutex<FairPolicy>`**, step by step, with the same counter, queue and holder. The pointer that `unlock` finalizes is
not null and was taken out in the same iteration, and `assert(!next)` is not reached. -/
theorem timed_refines_plain {as : List (Act ι)} (h : Run step (fun s a => untimed s a ∧ finds s a) init as s) :
    (∃ t, Run (Mutex.step .fair) anyStep Mutex.init (shadow step toPlain init as) t ∧ Matches s t ∧
      ∀ c, t.role c = s.role c) ∧
    (∀ c next, s.pc c = .unlockSynchronize next → next = none) ∧
    (∀ c next, s.pc c = .unlockCheck next → ∃ w, next = some w ∧ (s.p w).alreadyFinalized = false) ∧
    ∀ c next, s.pc c ≠ .unlockCount next := by
  obtain ⟨t, hrun, hR⟩ := simulation.run refines_init h
  refine ⟨⟨t, hrun, hR.states, hR.states.role hR.noTimers⟩, fun c next hc => ?_, fun c next hc => ?_,
    fun c next hc => ?_⟩
  · cases next with
    | none => rfl
    | some w => exact absurd hc (hR.scope.first c w)
  · obtain ⟨w, hw, -, -, hopen, -⟩ := hR.scope.check c next hc
    exact ⟨w, hw, hopen⟩
  · have hretry := hR.scope.noRetry c
    rw [hc] at hretry
    cases hretry

/-! ## The accounting -/

section
variable [Fintype ι]

/-- The counter is the number of clients that hold the mutex or wait for it and have not timed out. -/
def accounting (s : State ι) : Prop :=
  s.mCountOfWaiter = num s.role .holder + num s.role .waiting ∧ 0 ≤ s.mCountOfWaiter ∧ num s.role .holder ≤ 1

theorem simulation_few : Simulation (step (ι := ι)) (fun s a => fewClients s a ∧ untimed s a ∧ finds s a)
    (Mutex.step .fair) Mutex.fewClients toPlain Refines where
  stutter h hok hst hev := (h.step hok.2 hst).1 hev
  follow := by
    intro s t a s' b h hok hst hev
    refine ⟨?_, (h.step hok.2 hst).2 b hev⟩
    have hclients : t.clients = s.clients := by
      have hrole : t.role = s.role := funext (h.states.role h.noTimers)
      unfold Mutex.State.clients State.clients
      rw [hrole]
    cases a with
    | lock | tryLock | tryLockFor =>
      cases hev
      simpa only [Mutex.fewClients, fewClients, hclients] using hok.1
    | unlock => cases hev; trivial
    | run =>
      simp only [toPlain] at hev
      split at hev <;> cases hev
      trivial
    | expire | handler => cases hev

omit [Fintype ι] in
/-- A client without a next step, while nobody holds the mutex, is idle or suspended in `lock`. -/
theorem pending_of_run (h : Refines s t) (hrun : runStep s c false = none) (hfree : s.role c ≠ .holder) :
    s.pc c = .idle ∨ s.role c = .waiting := by
  have hcall := h.noTimers.noCall c
  cases hp : s.pc c with
  | idle => exact .inl rfl
  | lockAwait n =>
    right
    cases hres : (s.p (c, n)).result with
    | none => simp [State.role, hp, hres]
    | some => simp [runStep, hp, hres] at hrun
  | holding => exact absurd (by simp [State.role, hp]) hfree
  | lockCas i =>
    simp only [runStep, hp] at hrun
    split at hrun
    · cases hrun
    · split at hrun <;> cases hrun
  | tryLock =>
    simp only [runStep, hp] at hrun
    split at hrun <;> cases hrun
  | unlockSynchronize next =>
    simp only [runStep, hp] at hrun
    split at hrun <;> cases hrun
  | unlockCheck next =>
    obtain ⟨w, rfl, -⟩ := h.scope.check c next hp
    simp only [runStep, hp] at hrun
    split at hrun <;> cases hrun
  | unlockCount next =>
    simp only [runStep, hp] at hrun
    split at hrun <;> cases hrun
  | tryLockForAddToWaiter | tryLockForAwait | tryLockForFetchSub => rw [hp] at hcall; cases hcall
  | lockFetchAdd | lockAddToWaiter | unlockFetchSub | unlockCancel | unlockSetValue => simp [runStep, hp] at hrun

omit [DecidableEq ι] in
theorem Refines.accounting (h : Refines s t) (hI : Mutex.Inv t) : accounting s := by
  have hrole : t.role = s.role := funext (h.states.role h.noTimers)
  have hb := hI.balance
  rw [hrole, h.states.count] at hb
  have hex := hb.exclusive
  exact ⟨hb.counted, hb.nonneg, by omega⟩

/-- **`BaseTimedMutex` keeps its accounting** in the runs without `try_lock_for` (with a positive timeout) in which no
`unlock` looks into an empty `mWaiter`: counter, mutual exclusion, and no `lock` left suspended. -/
theorem accounting_kept (h : Reachable step (fun s a => fewClients s a ∧ untimed s a ∧ finds s a) init s) :
    accounting s ∧
    ((∀ c, s.role c ≠ .holder) → (∀ c, step s (.run c false) = none) →
      (∀ w, step s (.expire w) = none ∧ step s (.handler w) = none) → ∀ c, s.pc c = .idle) := by
  obtain ⟨as, hrun⟩ := h
  obtain ⟨t, hplain, hR⟩ := simulation_few.run refines_init hrun
  have hI : Mutex.Inv t := Mutex.inv_reachable ⟨_, hplain⟩
  refine ⟨hR.accounting hI, fun hfree hstop _ c => ?_⟩
  have hrole := hR.states.role hR.noTimers
  have hno : ∀ d, t.role d ≠ .handing := by
    intro d hd
    rw [hrole d] at hd
    rcases pending_of_run hR (hstop d) (hfree d) with hp | hp
    · rw [State.role, hp] at hd
      cases hd
    · rw [hp] at hd
      cases hd
  obtain ⟨-, hwait⟩ := hI.nobody_waits (fun d => by rw [hrole d]; exact hfree d) hno
  rcases pending_of_run hR (hstop c) (hfree c) with hp | hp
  · exact hp
  · exact absurd ((hrole c).trans hp) (hwait c)

omit [Fintype ι] [DecidableEq ι] in
theorem role_congr {d : ι} (hpc : s'.pc d = s.pc d) (hp : ∀ n, s'.p (d, n) = s.p (d, n)) : s'.role d = s.role d := by
  simp only [State.role, hpc, hp]

/-- A `try_lock_for` waits without having been counted: it breaks the accounting at once. -/
theorem timed_call_miscounts (h : accounting s) (hst : step s (.tryLockFor c true) = some s') : ¬ accounting s' := by
  simp only [step, if_true] at hst
  split at hst <;> cases hst
  rename_i hp
  have hr0 : s.role c = .outside := by rw [State.role, hp]
  have hr1 : ((s.newWaiter c .armed).setPc c (.tryLockForAddToWaiter (s.calls c))).role c = .waiting := by
    simp [State.role, State.setPc, State.newWaiter]
  have hother : ∀ d, d ≠ c →
      ((s.newWaiter c .armed).setPc c (.tryLockForAddToWaiter (s.calls c))).role d = s.role d := fun d hd =>
    role_congr (setPc_pc_ne hd) fun n => Function.update_of_ne (by simp [hd]) _ _
  have hwait := num_move (r := .waiting) hr0 hr1 hother
  have hhold := num_move (r := .holder) hr0 hr1 hother
  simp only [reduceCtorEq, ite_false, ite_true, Nat.add_zero] at hwait hhold
  rintro ⟨hcount, -, -⟩
  rw [hwait, hhold] at hcount
  have hbefore := h.1
  change s.mCountOfWaiter = _ at hcount
  omega

end

end

/-! ## Runs -/

attribute [local instance] twoClients

/-- Client 0 holds the mutex, client 1 enqueues itself, client 0 hands over. -/
def handOverSchedule : List (Act (Fin 2)) :=
  List.flatten [[.lock 0, .run 0 false, .lock 1], List.replicate 10 (.run 1 false), [.unlock 0],
    List.replicate 5 (.run 0 false), [.run 1 false]]

theorem timed_refines_plain_handOver : ∃ (s : State (Fin 2)) (t : Mutex.State (Fin 2)),
    s.pc 1 = .holding ∧ Run (Mutex.step .fair) anyStep Mutex.init (shadow step toPlain init handOverSchedule) t ∧
      t.role 1 = .holder := by
  have hrun := exec_get_run step (fun s a => untimed s a ∧ finds s a) (init : State (Fin 2)) handOverSchedule
    (by decide)
  obtain ⟨t, hplain, -, hrole⟩ := (timed_refines_plain hrun).1
  refine ⟨(exec step (fun s a => untimed s a ∧ finds s a) (init : State (Fin 2)) handOverSchedule).get (by decide), t,
    by decide, hplain, (hrole 1).trans (by decide)⟩

theorem accounting_kept_handOver : ∃ s : State (Fin 2),
    Run step (fun s a => fewClients s a ∧ untimed s a ∧ finds s a) init handOverSchedule s ∧ s.pc 1 = .holding ∧
    s.mCountOfWaiter = 1 ∧ accounting s := by
  have hrun := exec_get_run step (fun s a => fewClients s a ∧ untimed s a ∧ finds s a) (init : State (Fin 2))
    handOverSchedule (by decide)
  exact ⟨_, hrun, by decide, by decide, (accounting_kept ⟨_, hrun⟩).1⟩

/-- Client 1 is counted and has not added its waiter when client 0 unlocks. -/
def searchSchedule : List (Act (Fin 2)) :=
  List.flatten [[.lock 0, .run 0 false, .lock 1], List.replicate 9 (.run 1 false),
    [.unlock 0, .run 0 false, .run 0 false]]

/-- `unlock` does not search again: it is about to dereference the null pointer. -/
theorem unlock_dereferences_null : ∃ s : State (Fin 2), Run step untimed init searchSchedule s ∧
    s.mCountOfWaiter = 1 ∧ s.mWaiter = [] ∧ s.pc 0 = .unlockCheck none ∧
    ∀ spurious, step s (.run 0 spurious) = none := by
  have hrun := exec_get_run step untimed (init : State (Fin 2)) searchSchedule (by decide)
  refine ⟨_, hrun, by decide, by decide, by decide, fun spurious => ?_⟩
  cases spurious <;> rfl

/-- The only client's `try_lock_for` times out and returns. -/
def expiredSchedule : List (Act (Fin 1)) :=
  [.tryLockFor 0 true, .run 0 false, .expire (0, 0), .handler (0, 0), .handler (0, 0), .run 0 false, .run 0 false]

/-- The counter becomes negative. -/
theorem timeout_miscounts : ∃ s : State (Fin 1), Run step fewClients init expiredSchedule s ∧
    (∀ c, s.pc c = .idle) ∧ s.mCountOfWaiter = -1 ∧ ¬ accounting s := by
  have hrun := exec_get_run step fewClients (init : State (Fin 1)) expiredSchedule (by decide)
  have hcount :
      ((exec step fewClients (init : State (Fin 1)) expiredSchedule).get (by decide)).mCountOfWaiter = -1 := by decide
  refine ⟨_, hrun, by decide, hcount, fun h => ?_⟩
  have := h.2.1
  omega

end CoAwait.TimedMutex
