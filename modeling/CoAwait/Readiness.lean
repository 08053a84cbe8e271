import CoAwait.FutureWait

/-!
# Readiness of a `LightFutureData`

`continuationPtr` is written by `suspend`, by `on_ready` and by a `wait_for` whose timeout has expired.
The last one stores `EmptyHandle` before it looks at what was there (`future.hpp:269-274`): when the
producer has completed the future in between, the completion is lost and the next `wait` or `get` sleeps
forever.

* `inv_step`: the invariant of the runs in which that does not happen (`inTime`).
* `staysReady_iff_inTime`: exactly in these runs readiness is monotone; in them the consumer's calls
  agree on it and nothing is registered on a completed future.
* `wait_for_drops_completion`: a run outside of them.
-/

namespace CoAwait.FutureWait

open Runs

variable {T : Type}

/-- The task registered by the call in progress, up to the end of that call. -/
def CPc.registered : CPc → Option Nat
  | .cvLock _ k _ | .cvTest _ k _ | .cvBlocked _ k | .cvUnlock _ k _ | .deregister k => some k
  | _ => none

/-- The program counters that the consumer reaches only once the future is completed. -/
def CPc.afterReady : CPc → Bool
  | .cvUnlock _ _ true | .getUnchecked => true
  | _ => false

/-- The return values from which the consumer knows that the future is completed. -/
def Ret.showsReady : Ret T → Bool
  | .isReady b => b
  | .waitFor b => b
  | .wait | .get _ => true

/-- What holds in every state of a run in which no `wait_for` de-registers too late. -/
structure Inv (op : Value T) (s : State T) : Prop where
  ready : s.fut.continuationPtr = .invalid ↔ s.ppc.exchanged = true
  registered : ∀ k, s.fut.continuationPtr = .task k → s.cpc.registered = some k
  owned : ∀ k, s.cpc.registered = some k → s.ppc.exchanged = false → s.fut.continuationPtr = .task k
  dataReady : ∀ k, (s.tasks k).mDataReady = true → s.ppc.exchanged = true
  woken : s.cpc.afterReady = true → s.ppc.exchanged = true
  stored : s.ppc ≠ .start → s.fut.value = op
  shown : ∀ r ∈ s.log, r.showsReady = true → s.ppc.exchanged = true
  ordered : s.log.Pairwise fun r r' => r.showsReady = true → r'.showsReady = true
  got : ∀ r ∈ s.log, ∀ v, r = .get v → v = op

theorem inv_init (op : Value T) : Inv op (init : State T) := by
  constructor <;> simp [init, PPc.exchanged, CPc.registered, CPc.afterReady]

variable {op : Value T} {s s' : State T}

theorem Inv.isReady_eq (h : Inv op s) : s.fut.isReady = s.ppc.exchanged := by
  rw [Bool.eq_iff_iff, LightFutureData.isReady_iff]
  exact h.ready

theorem Inv.free (h : Inv op s) (hn : s.cpc.registered = none) (k : Nat) : s.fut.continuationPtr ≠ .task k := by
  intro hk
  rw [h.registered k hk] at hn
  cases hn

/-! ## Moves of the consumer -/

theorem Inv.goto (h : Inv op s) {pc : CPc}
    (hreg : ∀ k, s.fut.continuationPtr = .task k → pc.registered = some k)
    (hown : ∀ k, pc.registered = some k → s.ppc.exchanged = false → s.fut.continuationPtr = .task k)
    (hr : pc.afterReady = true → s.ppc.exchanged = true) : Inv op { s with cpc := pc } :=
  { h with registered := hreg, owned := hown, woken := hr }

/-- Inside a call: what is registered does not change. -/
theorem Inv.move (h : Inv op s) {pc : CPc} (hreg : pc.registered = s.cpc.registered)
    (hr : pc.afterReady = true → s.ppc.exchanged = true) : Inv op { s with cpc := pc } :=
  h.goto (fun k hk => hreg.trans (h.registered k hk)) (fun k hk => h.owned k (hreg.symm.trans hk)) hr

/-- Out of the scope of the task. -/
theorem Inv.leave (h : Inv op s) {p : CPc} (hfree : ∀ k, s.fut.continuationPtr ≠ .task k)
    (hn : p.registered = none) (hr : p.afterReady = true → s.ppc.exchanged = true) :
    Inv op { s with cpc := p } :=
  h.goto (fun k hk => absurd hk (hfree k)) (fun k hk => by rw [hn] at hk; cases hk) hr

/-- A call returns: its result shows readiness exactly when the producer has completed the future. -/
theorem Inv.ret (h : Inv op s) {r : Ret T} (hfree : ∀ k, s.fut.continuationPtr ≠ .task k)
    (hr : r.showsReady = s.ppc.exchanged) (hg : ∀ v, r = .get v → v = op) : Inv op (s.ret r) :=
  { h.leave (p := .idle) hfree rfl (fun hw => by cases hw) with
    shown := by
      intro r' hr' hs
      rcases List.mem_append.1 hr' with hr' | hr'
      · exact h.shown r' hr' hs
      · obtain rfl : r' = r := by simpa using hr'
        exact hr.symm.trans hs
    ordered := List.pairwise_append.2 ⟨h.ordered, List.pairwise_singleton _ _, fun a ha b hb hs => by
      obtain rfl : b = r := by simpa using hb
      exact hr.trans (h.shown a ha hs)⟩
    got := by
      intro r' hr' v hv
      rcases List.mem_append.1 hr' with hr' | hr'
      · exact h.got r' hr' v hv
      · obtain rfl : r' = r := by simpa using hr'
        exact hg v hv }

theorem Inv.waitReturns (h : Inv op s) (m : Method) (hx : s.ppc.exchanged = true) : Inv op (s.waitReturns m) := by
  have hfree : ∀ k, s.fut.continuationPtr ≠ .task k := by
    intro k hk
    rw [h.ready.2 hx] at hk
    cases hk
  cases m with
  | wait => exact h.ret hfree hx.symm (by intro v hv; cases hv)
  | getBlocking => exact h.leave hfree rfl (fun _ => hx)
  | waitFor => exact h.ret hfree hx.symm (by intro v hv; cases hv)

/-! ## Changes of a task -/

/-- `mDataReady` is set only after the producer's exchange. -/
theorem Inv.setTask (h : Inv op s) {k : Nat} {f : CvTask → CvTask}
    (hf : (f (s.tasks k)).mDataReady = true → s.ppc.exchanged = true) : Inv op (s.setTask k f) :=
  { h with
    dataReady := by
      intro j hj
      by_cases hjk : j = k
      · subst hjk; exact hf (by simpa [State.setTask] using hj)
      · exact h.dataReady j (by simpa [State.setTask, hjk] using hj) }

theorem Inv.newTask (h : Inv op s) (m : Method) (hn : s.cpc.registered = none) : Inv op (s.newTask m) :=
  { h.leave (p := .suspend m s.nextTask) (h.free hn) rfl (fun hw => by cases hw) with
    dataReady := by
      intro j hj
      by_cases hjk : j = s.nextTask
      · subst hjk; simp [State.newTask] at hj
      · exact h.dataReady j (by simpa [State.newTask, hjk] using hj) }

/-! ## The producer -/

theorem Inv.producerMove (h : Inv op s) {pc : PPc} (he : s.ppc.exchanged = true) (he' : pc.exchanged = true) :
    Inv op { s with ppc := pc } :=
  { h with
    ready := by rw [h.ready, he, he']
    owned := fun k hk hx => h.owned k hk (he.trans (he'.symm.trans hx))
    dataReady := fun _ _ => he'
    woken := fun _ => he'
    stored := fun _ => h.stored (by rintro h0; rw [h0] at he; cases he)
    shown := fun _ _ _ => he' }

/-- The exchange of `on_ready`. -/
theorem Inv.complete (h : Inv op s) {pc : PPc} (hp : s.ppc = .stored) (he : pc.exchanged = true) :
    Inv op { s with fut := (s.fut.exchange .invalid).2, ppc := pc } :=
  { h with
    ready := by simp [he]
    registered := fun k hk => by cases hk
    owned := fun k _ hx => by rw [he] at hx; cases hx
    dataReady := fun _ _ => he
    woken := fun _ => he
    stored := fun _ => h.stored (by rw [hp]; rintro ⟨⟩)
    shown := fun _ _ _ => he }

theorem producerStep_inv (h : Inv op s) (hst : producerStep op s = some s') : Inv op s' := by
  unfold producerStep at hst
  split at hst
  case h_1 hp =>
    cases hst
    have he : PPc.stored.exchanged = s.ppc.exchanged := by rw [hp]; rfl
    exact { h with
      ready := by rw [he]; exact h.ready
      owned := fun k hk hx => h.owned k hk (he.symm.trans hx)
      dataReady := fun k hk => he.trans (h.dataReady k hk)
      woken := fun hw => he.trans (h.woken hw)
      stored := fun _ => rfl
      shown := fun r hr hs => he.trans (h.shown r hr hs) }
  case h_2 hp =>
    split at hst
    case h_1 f hf =>
      cases hst
      obtain rfl : _ = f := congrArg Prod.snd hf
      exact h.complete hp rfl
    case h_2 k f hf =>
      cases hst
      obtain rfl : _ = f := congrArg Prod.snd hf
      exact h.complete hp rfl
    case h_3 => cases hst
  case h_3 k hp =>
    split at hst
    · cases hst
      exact (h.setTask (h.dataReady k)).producerMove (by rw [State.setTask, hp]; rfl) rfl
    · cases hst
  case h_4 k hp =>
    cases hst
    exact (h.setTask (fun _ => by rw [hp]; rfl)).producerMove (by rw [State.setTask, hp]; rfl) rfl
  case h_5 k hp =>
    cases hst
    exact (h.setTask (h.dataReady k)).producerMove (by rw [State.setTask, hp]; rfl) rfl
  case h_6 k hp =>
    cases hst
    exact h.producerMove (by rw [hp]; rfl) rfl
  case h_7 => cases hst

/-! ## The consumer -/

theorem callStep_inv (h : Inv op s) {c : Call} (hst : callStep s c = some s') : Inv op s' := by
  unfold callStep at hst
  split at hst
  case h_5 => cases hst
  all_goals
    rename_i hp
    cases hst
    exact h.move (by rw [hp]; rfl) (fun hw => by cases hw)

theorem consumerStep_inv (h : Inv op s) (hok : inTime s .consumer) (hst : consumerStep s = some s') :
    Inv op s' := by
  unfold consumerStep at hst
  split at hst
  case h_1 => cases hst
  case h_2 hp =>
    cases hst
    exact h.ret (h.free (by rw [hp]; rfl)) h.isReady_eq (by intro v hv; cases hv)
  case h_3 hp =>
    split at hst <;> cases hst
    case isTrue hr =>
      exact h.move (by rw [hp]; rfl) (fun _ => h.isReady_eq ▸ hr)
    case isFalse =>
      exact h.move (by rw [hp]; rfl) (fun hw => by cases hw)
  case h_4 m cnt hp =>
    split at hst
    case isTrue hr =>
      cases hst
      exact h.waitReturns m (h.isReady_eq ▸ hr)
    case isFalse =>
      split at hst <;> cases hst
      · exact h.move (by rw [hp]; rfl) (fun hw => by cases hw)
      · exact h.newTask m (by rw [hp]; rfl)
  case h_5 hp =>
    split at hst <;> cases hst
    case isTrue hr =>
      exact h.waitReturns .waitFor (h.isReady_eq ▸ hr)
    case isFalse => exact h.newTask .waitFor (by rw [hp]; rfl)
  case h_6 m k hp =>
    have hfree := h.free (by rw [hp]; rfl)
    split at hst <;> cases hst
    case h_1 f hf =>
      have hc : s.fut.continuationPtr = .empty :=
        LightFutureData.suspend_eq_true_iff.1 (congrArg Prod.fst hf)
      have hsnd : (s.fut.suspend k).2 = f := congrArg Prod.snd hf
      have hf1 : f.continuationPtr = .task k := hsnd ▸ LightFutureData.suspend_of_true (congrArg Prod.fst hf)
      have hv : f.value = s.fut.value := hsnd ▸ LightFutureData.suspend_value s.fut k
      have hx : s.ppc.exchanged = false := by rw [← h.isReady_eq]; simp [hc]
      exact { h with
        ready := by simp [hf1, hx]
        registered := fun j hj => by rw [hf1] at hj; cases hj; rfl
        owned := fun j hj _ => by cases hj; exact hf1
        woken := fun hw => by cases hw
        stored := fun hs => hv.trans (h.stored hs) }
    case h_2 f hf =>
      have hc : s.fut.continuationPtr ≠ .empty := by
        rw [Ne, ← LightFutureData.suspend_eq_true_iff (k := k), hf]
        simp
      refine h.waitReturns m (h.ready.1 ?_)
      cases hc' : s.fut.continuationPtr with
      | empty => exact absurd hc' hc
      | task j => exact absurd hc' (hfree j)
      | invalid => rfl
  case h_7 m k e hp =>
    split at hst <;> cases hst
    exact (h.setTask (h.dataReady k)).move (by rw [State.setTask, hp]; rfl) (fun hw => by cases hw)
  case h_8 m k e hp =>
    split at hst
    case isTrue hd =>
      cases hst
      exact h.move (by rw [hp]; rfl) (fun _ => h.dataReady k hd)
    case isFalse =>
      split at hst <;> cases hst
      · exact h.move (by rw [hp]; rfl) (fun hw => by cases hw)
      · exact (h.setTask (h.dataReady k)).move (by rw [State.setTask, hp]; rfl) (fun hw => by cases hw)
  case h_9 => cases hst
  case h_10 m k res hp =>
    have h1 : Inv op (s.setTask k fun t => { t with mMut := none }) := h.setTask (h.dataReady k)
    split at hst <;> cases hst
    case isTrue hr =>
      refine h1.waitReturns m (h1.woken ?_)
      rw [State.setTask, hp, hr]
      rfl
    case isFalse => exact h1.move (by rw [State.setTask, hp]; rfl) (fun hw => by cases hw)
  case h_11 k hp =>
    cases hst
    -- in time: the pointer is still the own task
    have hx : s.ppc.exchanged = false := by
      simpa [inTime, lateDeregister, hp, h.isReady_eq] using hok
    have hc : s.fut.continuationPtr = .task k := h.owned k (by rw [hp]; rfl) hx
    have h1 : Inv op { s with fut := (s.fut.exchange .empty).2, cpc := .idle } :=
      { h with
        ready := by simp [hx]
        registered := fun j hj => by cases hj
        owned := fun j hj => by cases hj
        woken := fun hw => by cases hw }
    refine h1.ret (fun j hj => by cases hj) ?_ (by intro v hv; cases hv)
    simp [hc, Ret.showsReady, hx]
  case h_12 hp =>
    cases hst
    have hx : s.ppc.exchanged = true := h.woken (by rw [hp]; rfl)
    refine h.ret (h.free (by rw [hp]; rfl)) hx.symm (fun v hv => ?_)
    cases hv
    exact h.stored (by rintro h0; rw [h0] at hx; cases hx)

/-- **One step in time keeps the invariant.** -/
theorem inv_step {a : Act} (h : Inv op s) (hok : inTime s a) (hst : step op s a = some s') : Inv op s' := by
  cases a with
  | producer => exact producerStep_inv h hst
  | call c => exact callStep_inv h hst
  | consumer => exact consumerStep_inv h hok hst
  | wake =>
    simp only [step] at hst
    split at hst <;> cases hst
    rename_i hp
    exact h.move (by rw [hp]; rfl) (fun hw => by cases hw)
  | timeout =>
    simp only [step] at hst
    split at hst <;> cases hst
    rename_i hp
    exact h.move (by rw [hp]; rfl) (fun hw => by cases hw)

theorem inv_reachable (h : Reachable (step op) inTime init s) : Inv op s :=
  h.invariant (inv_init op) (fun _ _ _ => inv_step)

/-! ## Monotone readiness -/

/-- Along the run `as`, `continuationPtr` never changes again once it is `InvalidHandle`. -/
def StaysReady (op : Value T) (as : List Act) : Prop :=
  ∀ bs cs ds t u, as = bs ++ cs ++ ds → Run (step op) anyStep init bs t → Run (step op) anyStep t cs u →
    t.fut.continuationPtr = .invalid → u.fut.continuationPtr = .invalid

theorem waitReturns_fut (s : State T) (m : Method) : (s.waitReturns m).fut = s.fut := by
  cases m <;> rfl

/-- A step in time leaves `InvalidHandle` alone. -/
theorem ready_step {a : Act} (hok : inTime s a) (hst : step op s a = some s')
    (hr : s.fut.continuationPtr = .invalid) : s'.fut.continuationPtr = .invalid := by
  cases a with
  | producer =>
    simp only [step, producerStep] at hst
    split at hst
    case h_2 => rw [LightFutureData.exchange, hr] at hst; cases hst
    case h_3 => split at hst <;> cases hst; exact hr
    all_goals cases hst; try exact hr
  | call c =>
    simp only [step, callStep] at hst
    split at hst <;> cases hst <;> exact hr
  | consumer =>
    simp only [step, consumerStep] at hst
    split at hst
    case h_6 m k hp =>
      have hs : s.fut.suspend k = (false, s.fut) := by simp [LightFutureData.suspend, hr]
      rw [hs] at hst
      cases hst
      rw [waitReturns_fut]
      exact hr
    case h_11 k hp => simp [inTime, lateDeregister, hp, hr] at hok
    all_goals
      repeat' (split at hst)
      all_goals cases hst
      all_goals first | exact hr | (rw [waitReturns_fut]; exact hr)
  | wake =>
    simp only [step] at hst
    split at hst <;> cases hst
    exact hr
  | timeout =>
    simp only [step] at hst
    split at hst <;> cases hst
    exact hr

theorem ready_run {as : List Act} (h : Run (step op) inTime s as s') (hr : s.fut.continuationPtr = .invalid) :
    s'.fut.continuationPtr = .invalid := by
  induction h with
  | nil => exact hr
  | snoc _ hok hst ih => exact ready_step hok hst ih

/-- A late de-registration turns `InvalidHandle` into `EmptyHandle`. -/
theorem late_step {a : Act} (hlate : ¬ inTime s a) (hst : step op s a = some s') :
    s.fut.continuationPtr = .invalid ∧ s'.fut.continuationPtr = .empty := by
  cases a with
  | consumer =>
    simp only [inTime, lateDeregister] at hlate
    split at hlate
    case h_1 k hp =>
      simp only [step, consumerStep, hp] at hst
      cases hst
      exact ⟨by simpa using hlate, rfl⟩
    case h_2 => exact absurd rfl hlate
  | producer | call | wake | timeout => exact absurd rfl hlate

theorem staysReady_of_inTime {as : List Act} (h : Run (step op) inTime init as s) : StaysReady op as := by
  rintro bs cs ds t u rfl hb hc hr
  obtain ⟨u', hbc, -⟩ := h.split
  obtain ⟨t', hb', hc'⟩ := hbc.split
  obtain rfl : t' = t := hb'.det hb
  obtain rfl : u' = u := hc'.det hc
  exact ready_run hc' hr

theorem inTime_of_staysReady {as : List Act} (h : Run (step op) anyStep init as s) (hs : StaysReady op as) :
    Run (step op) inTime init as s := by
  induction h with
  | nil => exact .nil _
  | @snoc t u as a hrun _ hst ih =>
    have hpre : StaysReady op as := fun bs cs ds v w heq hv hw =>
      hs bs cs (ds ++ [a]) v w (by rw [heq, List.append_assoc]) hv hw
    refine (ih hpre).snoc ?_ hst
    by_contra hlate
    obtain ⟨hr, he⟩ := late_step hlate hst
    have := hs as [a] [] t u (by simp) hrun (Run.cons trivial hst (.nil u)) hr
    rw [he] at this
    cases this

/-- **Readiness is monotone exactly in the runs in which no timed out `wait_for` de-registers from a
completed future.** In these runs a completed future is ready and refuses every registration, no result
shows it unready after one has shown it ready, and `get_unchecked` reads the value that was set. -/
theorem staysReady_iff_inTime (op : Value T) (as : List Act) (s : State T)
    (h : Run (step op) anyStep init as s) :
    (StaysReady op as ↔ Run (step op) inTime init as s) ∧
    (Run (step op) inTime init as s →
      (s.ppc.exchanged = true → s.fut.isReady = true ∧ ∀ k, (s.fut.suspend k).1 = false) ∧
      (∀ r ∈ s.log, r.showsReady = true → s.fut.isReady = true) ∧
      (s.log.Pairwise fun r r' => r.showsReady = true → r'.showsReady = true) ∧
      (s.cpc = .getUnchecked → s.fut.isReady = true ∧ s.fut.value = op)) := by
  refine ⟨⟨inTime_of_staysReady h, staysReady_of_inTime⟩, fun hin => ?_⟩
  have hI : Inv op s := inv_reachable ⟨as, hin⟩
  have hready : s.ppc.exchanged = true → s.fut.isReady = true := fun hx => by rw [hI.isReady_eq, hx]
  refine ⟨fun hx => ⟨hready hx, fun k => ?_⟩, fun r hr hs => hready (hI.shown r hr hs), hI.ordered, fun hp => ?_⟩
  · rw [← Bool.not_eq_true, LightFutureData.suspend_eq_true_iff, hI.ready.2 hx]
    simp
  · have hx : s.ppc.exchanged = true := hI.woken (by rw [hp]; rfl)
    exact ⟨hready hx, hI.stored (by rintro h0; rw [h0] at hx; cases hx)⟩

/-! ## The lost completion -/

/-- `wait_for` registers, its timeout expires, the producer completes the future, and only then
`wait_for` stores `EmptyHandle`. -/
def lostSchedule : List Act :=
  [.call .waitFor, .consumer, .consumer, .consumer, .consumer, .timeout, .consumer, .consumer, .consumer,
    .producer, .producer, .consumer]

/-- A schedule in time: the same up to the timeout, but the producer is not there yet. -/
def timeoutSchedule : List Act :=
  [.call .waitFor, .consumer, .consumer, .consumer, .consumer, .timeout, .consumer, .consumer, .consumer,
    .consumer, .producer, .producer, .call .getBlocking, .consumer, .consumer]

theorem staysReady_iff_inTime_timeout :
    ∃ s : State Nat, Run (step (.val 7)) inTime init timeoutSchedule s ∧ s.log = [.waitFor false, .get (.val 7)] ∧
      StaysReady (.val 7) timeoutSchedule ∧ s.fut.isReady = true := by
  have hin := exec_get_run (step (.val 7)) inTime (init : State Nat) timeoutSchedule (by decide)
  have h := staysReady_iff_inTime (.val 7) timeoutSchedule _ (hin.mono (fun _ _ _ => trivial))
  exact ⟨_, hin, by decide, h.1.2 hin, (h.2 hin).1 (by decide) |>.1⟩

theorem wait_for_drops_completion :
    ¬ ∀ (as : List Act) (s : State Nat), Run (step (.val 7)) anyStep init as s → StaysReady (.val 7) as := by
  intro h
  have hpre := exec_get_run (step (.val 7)) anyStep (init : State Nat) lostSchedule.dropLast (by decide)
  have hlast := exec_get_run (step (.val 7)) anyStep
    ((exec (step (.val 7)) anyStep (init : State Nat) lostSchedule.dropLast).get (by decide)) [.consumer] (by decide)
  have := h _ _ (hpre.append hlast) _ [.consumer] [] _ _ (by simp) hpre hlast (by decide)
  exact absurd this (by decide)

end CoAwait.FutureWait
