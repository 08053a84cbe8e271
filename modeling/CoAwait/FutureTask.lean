import CoAwait.Readiness

/-!
# The `ConditionVariableTask` of a blocking wait

The task lives on the stack of `wait` / `wait_for`, and `on_ready` calls it through the pointer it took out of
`continuationPtr`. Two returns do not wait for that call to end: a timed out `wait_for` leaves as soon as its
exchange has shown that the pointer is gone (`future.hpp:269-274`), and a waiter that finds `mDataReady` set leaves
although `notify_one` on its `mCond` is still to come (`:141-148`).

* `task_used_in_scope`: in the runs without such a return (`outlives`) the producer is done with a task before the
  call that owns it returns.
* `early_return`: every such return leaves the producer with a pointer to a destroyed task.
-/

namespace CoAwait.FutureWait

open Runs

variable {T : Type}

/-- The task that the producer's next step refers to. -/
def PPc.task : PPc → Option Nat
  | .called k | .setReady k | .unlock k | .notify k => some k
  | .start | .stored | .done => none

/-- The step ends the call that owns task `k` while the producer is inside `(*continuation)()` on it. -/
def returnsEarly (s : State T) : Act → Bool
  | .consumer =>
    match s.cpc with
    | .cvUnlock _ k true | .deregister k => s.ppc.task = some k
    | _ => false
  | _ => false

/-- The runs in which each call outlives the producer's use of its task. -/
def outlives (s : State T) (a : Act) : Prop := returnsEarly s a = false

instance (s : State T) (a : Act) : Decidable (outlives s a) := inferInstanceAs (Decidable (_ = _))

/-- A step of the producer that refers to a task is taken inside the call that owns the task. -/
def inScope (s : State T) (a : Act) : Prop :=
  a = .producer → s.ppc.task = none ∨ s.ppc.task = s.cpc.registered

instance (s : State T) (a : Act) : Decidable (inScope s a) := inferInstanceAs (Decidable (_ → _))

/-- The step is the call `(*continuation)()` on task `k`. -/
def invokes (k : Nat) (s : State T) (a : Act) : Bool := a = .producer ∧ s.ppc = .called k

/-! ## At most one invocation -/

def PPc.invoked : PPc → Bool
  | .start | .stored | .called _ => false
  | .setReady _ | .unlock _ | .notify _ | .done => true

variable {op : Value T} {s s' : State T}

/-- Only the producer moves the producer. -/
theorem ppc_step {a : Act} (ha : a ≠ .producer) (hst : step op s a = some s') : s'.ppc = s.ppc := by
  cases a with
  | producer => exact absurd rfl ha
  | call c =>
    simp only [step, callStep] at hst
    split at hst <;> cases hst <;> rfl
  | consumer =>
    have hret : ∀ (t : State T) m, (t.waitReturns m).ppc = t.ppc := fun t m => by cases m <;> rfl
    simp only [step, consumerStep] at hst
    split at hst
    all_goals
      repeat' (split at hst)
      all_goals cases hst
      all_goals first | rfl | exact hret _ _
  | wake =>
    simp only [step] at hst
    split at hst <;> cases hst
    rfl
  | timeout =>
    simp only [step] at hst
    split at hst <;> cases hst
    rfl

theorem invoked_step {a : Act} (hi : s.ppc.invoked = true) (hst : step op s a = some s') : s'.ppc.invoked = true := by
  by_cases ha : a = .producer
  · subst ha
    simp only [step, producerStep] at hst
    split at hst
    case h_1 hp => rw [hp] at hi; cases hi
    case h_2 hp => rw [hp] at hi; cases hi
    case h_3 hp => rw [hp] at hi; cases hi
    case h_7 => cases hst
    all_goals cases hst; rfl
  · rw [ppc_step ha hst]
    exact hi

theorem invoked_once (op : Value T) (as : List Act) (s : State T) (k : Nat) :
    occurrences (step op) (invokes k) s as ≤ 1 := by
  refine occurrences_le_one (q := fun s => s.ppc.invoked = true) (fun s a t hi hst => ⟨?_, invoked_step hi hst⟩) ?_ as s
  · simp only [invokes, decide_eq_false_iff_not]
    rintro ⟨-, hp⟩
    rw [hp] at hi
    cases hi
  · intro s a t hk hst
    simp only [invokes, decide_eq_true_eq] at hk
    obtain ⟨rfl, hp⟩ := hk
    simp only [step, producerStep, hp] at hst
    split at hst <;> cases hst
    rfl

/-! ## The scope of a task -/

/-- Who may hold a pointer to a task: `continuationPtr` before the producer takes it out, the producer after that;
both only inside the call that owns the task. -/
structure Scope (s : State T) : Prop where
  used : ∀ k, s.ppc.task = some k → s.cpc.registered = some k ∧ s.fut.continuationPtr ≠ .task k
  pointer : ∀ k, s.fut.continuationPtr = .task k → s.cpc.registered = some k ∧ (s.tasks k).mDataReady = false
  fresh : ∀ m k, s.cpc = .suspend m k → (s.tasks k).mDataReady = false
  woken : ∀ m k, s.cpc = .cvUnlock m k true → (s.tasks k).mDataReady = true

theorem scope_init : Scope (init : State T) := by
  constructor <;> simp [init, PPc.task]

namespace Scope

/-- Nobody refers to a task that is not registered. -/
theorem unused (h : Scope s) (hn : s.cpc.registered = none) (k : Nat) :
    s.ppc.task ≠ some k ∧ s.fut.continuationPtr ≠ .task k := by
  constructor <;> intro hk
  · have := (h.used k hk).1
    rw [hn] at this
    cases this
  · have := (h.pointer k hk).1
    rw [hn] at this
    cases this

/-- The consumer moves inside a call. -/
theorem move (h : Scope s) {pc : CPc} (hreg : pc.registered = s.cpc.registered)
    (hfresh : ∀ m k, pc ≠ .suspend m k) (hwoken : ∀ m k, pc = .cvUnlock m k true → (s.tasks k).mDataReady = true) :
    Scope { s with cpc := pc } where
  used k hk := ⟨hreg.trans (h.used k hk).1, (h.used k hk).2⟩
  pointer k hk := ⟨hreg.trans (h.pointer k hk).1, (h.pointer k hk).2⟩
  fresh m k hk := absurd hk (hfresh m k)
  woken := hwoken

/-- The consumer leaves the scope of a task, or has none. -/
theorem leave {pc : CPc} (hpc : pc = .idle ∨ pc = .getUnchecked)
    (hunused : ∀ k, s.ppc.task ≠ some k ∧ s.fut.continuationPtr ≠ .task k) : Scope { s with cpc := pc } where
  used k hk := absurd hk (hunused k).1
  pointer k hk := absurd hk (hunused k).2
  fresh m k hk := by rcases hpc with rfl | rfl <;> cases hk
  woken m k hk := by rcases hpc with rfl | rfl <;> cases hk

theorem log (h : Scope s) (l : List (Ret T)) : Scope { s with log := l } := ⟨h.used, h.pointer, h.fresh, h.woken⟩

theorem ret (r : Ret T) (hunused : ∀ k, s.ppc.task ≠ some k ∧ s.fut.continuationPtr ≠ .task k) : Scope (s.ret r) :=
  (leave (.inl rfl) hunused).log _

theorem waitReturns (m : Method) (hunused : ∀ k, s.ppc.task ≠ some k ∧ s.fut.continuationPtr ≠ .task k) :
    Scope (s.waitReturns m) := by
  cases m with
  | wait => exact ret _ hunused
  | waitFor => exact ret _ hunused
  | getBlocking => exact leave (.inr rfl) hunused

/-- `mMut` is locked or unlocked. -/
theorem lock (h : Scope s) {k : Nat} {f : CvTask → CvTask} (hf : (f (s.tasks k)).mDataReady = (s.tasks k).mDataReady) :
    Scope (s.setTask k f) := by
  have hsame : ∀ j, ((s.setTask k f).tasks j).mDataReady = (s.tasks j).mDataReady := by
    intro j
    by_cases hj : j = k
    · subst hj
      simpa [State.setTask] using hf
    · simp [State.setTask, hj]
  exact ⟨h.used, fun j hj => ⟨(h.pointer j hj).1, (hsame j).trans (h.pointer j hj).2⟩,
    fun m j hj => (hsame j).trans (h.fresh m j hj), fun m j hj => (hsame j).trans (h.woken m j hj)⟩

theorem newTask (h : Scope s) (m : Method) (hn : s.cpc.registered = none) : Scope (s.newTask m) where
  used k hk := absurd hk (h.unused hn k).1
  pointer k hk := absurd hk (h.unused hn k).2
  fresh m' k hk := by cases hk; simp [State.newTask]
  woken m' k hk := by cases hk

/-- The producer moves on with the same task, or is done with it. -/
theorem producerMove (h : Scope s) {pc : PPc} (hpc : ∀ k, pc.task = some k → s.ppc.task = some k) :
    Scope { s with ppc := pc } :=
  ⟨fun k hk => h.used k (hpc k hk), h.pointer, h.fresh, h.woken⟩

/-- `mDataReady = true` on the task that the producer has taken out of `continuationPtr`. -/
theorem setReady (h : Scope s) {k : Nat} (hk : s.ppc.task = some k) :
    Scope (s.setTask k fun t => { t with mDataReady := true }) := by
  obtain ⟨hreg, htaken⟩ := h.used k hk
  have hother : ∀ j, j ≠ k →
      (s.setTask k fun t => { t with mDataReady := true }).tasks j = s.tasks j := fun j hj => by
    simp [State.setTask, hj]
  refine ⟨h.used, fun j hj => ?_, fun m j hj => ?_, fun m j hj => ?_⟩
  · have hjk : j ≠ k := by rintro rfl; exact htaken hj
    rw [hother j hjk]
    exact h.pointer j hj
  · have hjk : j ≠ k := by
      rintro rfl
      have hj' : s.cpc = .suspend m j := hj
      rw [hj'] at hreg
      cases hreg
    rw [hother j hjk]
    exact h.fresh m j hj
  · by_cases hjk : j = k
    · subst hjk
      simp [State.setTask]
    · rw [hother j hjk]
      exact h.woken m j hj

end Scope

theorem producerStep_scope (h : Scope s) (hst : producerStep op s = some s') : Scope s' := by
  unfold producerStep at hst
  split at hst
  case h_1 hp =>
    cases hst
    exact ⟨fun k hk => by simp [PPc.task] at hk, h.pointer, h.fresh, h.woken⟩
  case h_2 hp =>
    split at hst
    case h_1 f hf =>
      cases hst
      obtain rfl : _ = f := congrArg Prod.snd hf
      exact ⟨fun k hk => by simp [PPc.task] at hk, fun k hk => by simp at hk, h.fresh, h.woken⟩
    case h_2 k f hf =>
      cases hst
      obtain rfl : _ = f := congrArg Prod.snd hf
      refine ⟨fun j hj => ⟨?_, by simp⟩, fun j hj => by simp at hj, h.fresh, h.woken⟩
      obtain rfl : k = j := by simpa [PPc.task] using hj
      exact (h.pointer k (congrArg Prod.fst hf)).1
    case h_3 => cases hst
  case h_3 k hp =>
    split at hst <;> cases hst
    exact (h.lock rfl).producerMove fun j hj => by rw [State.setTask, hp]; exact hj
  case h_4 k hp =>
    cases hst
    exact (h.setReady (by rw [hp]; rfl)).producerMove fun j hj => by rw [State.setTask, hp]; exact hj
  case h_5 k hp =>
    cases hst
    exact (h.lock rfl).producerMove fun j hj => by rw [State.setTask, hp]; exact hj
  case h_6 k hp =>
    cases hst
    exact h.producerMove fun j hj => by cases hj
  case h_7 => cases hst

theorem callStep_scope (h : Scope s) {c : Call} (hst : callStep s c = some s') : Scope s' := by
  unfold callStep at hst
  split at hst
  case h_5 => cases hst
  all_goals
    rename_i hp
    cases hst
    exact h.move (by rw [hp]; rfl) (by simp) (by simp)

theorem consumerStep_scope (h : Scope s) (hok : outlives s .consumer) (hst : consumerStep s = some s') : Scope s' := by
  unfold consumerStep at hst
  split at hst
  case h_1 => cases hst
  case h_2 hp =>
    cases hst
    exact .ret _ (h.unused (by rw [hp]; rfl))
  case h_3 hp =>
    split at hst <;> cases hst
    · exact h.move (by rw [hp]; rfl) (by simp) (by simp)
    · exact h.move (by rw [hp]; rfl) (by simp) (by simp)
  case h_4 m cnt hp =>
    split at hst
    case isTrue =>
      cases hst
      exact .waitReturns m (h.unused (by rw [hp]; rfl))
    case isFalse =>
      split at hst <;> cases hst
      · exact h.move (by rw [hp]; rfl) (by simp) (by simp)
      · exact h.newTask m (by rw [hp]; rfl)
  case h_5 hp =>
    split at hst <;> cases hst
    · exact .waitReturns .waitFor (h.unused (by rw [hp]; rfl))
    · exact h.newTask .waitFor (by rw [hp]; rfl)
  case h_6 m k hp =>
    have hunused := h.unused (by rw [hp]; rfl)
    split at hst <;> cases hst
    case h_1 f hf =>
      have hsnd : (s.fut.suspend k).2 = f := congrArg Prod.snd hf
      have hf1 : f.continuationPtr = .task k := hsnd ▸ LightFutureData.suspend_of_true (congrArg Prod.fst hf)
      refine ⟨fun j hj => absurd hj (hunused j).1, fun j hj => ?_, by simp, by simp⟩
      obtain rfl : k = j := by simpa [hf1] using hj
      exact ⟨rfl, h.fresh m k hp⟩
    case h_2 => exact .waitReturns m hunused
  case h_7 m k e hp =>
    split at hst <;> cases hst
    exact (h.lock rfl).move (by rw [State.setTask, hp]; rfl) (by simp) (by simp)
  case h_8 m k e hp =>
    split at hst
    case isTrue hd =>
      cases hst
      refine h.move (by rw [hp]; rfl) (by simp) fun m' j hj => ?_
      cases hj
      exact hd
    case isFalse =>
      split at hst <;> cases hst
      · exact h.move (by rw [hp]; rfl) (by simp) (by simp)
      · exact (h.lock rfl).move (by rw [State.setTask, hp]; rfl) (by simp) (by simp)
  case h_9 => cases hst
  case h_10 m k res hp =>
    have h1 : Scope (s.setTask k fun t => { t with mMut := none }) := h.lock rfl
    split at hst <;> cases hst
    case isTrue hr =>
      subst hr
      -- the producer is not inside this task, and it has taken the pointer out
      have hnot : s.ppc.task ≠ some k := by simpa [outlives, returnsEarly, hp] using hok
      have hready := h.woken m k hp
      refine .waitReturns m fun j => ⟨fun hj => ?_, fun hj => ?_⟩
      · have hown := (h.used j hj).1
        rw [hp] at hown
        cases hown
        exact hnot hj
      · obtain ⟨hown, hclear⟩ := h.pointer j hj
        rw [hp] at hown
        cases hown
        rw [hready] at hclear
        cases hclear
    case isFalse => exact h1.move (by rw [State.setTask, hp]; rfl) (by simp) (by simp)
  case h_11 k hp =>
    cases hst
    have hnot : s.ppc.task ≠ some k := by simpa [outlives, returnsEarly, hp] using hok
    have hunused : ∀ j, s.ppc.task ≠ some j := by
      intro j hj
      have hown := (h.used j hj).1
      rw [hp] at hown
      cases hown
      exact hnot hj
    exact Scope.ret (s := { s with fut := (s.fut.exchange .empty).2 }) _ fun j => ⟨hunused j, by simp⟩
  case h_12 hp =>
    cases hst
    exact .ret _ (h.unused (by rw [hp]; rfl))

/-- **A step that is no early return keeps every pointer inside the scope of its task.** -/
theorem scope_step {a : Act} (h : Scope s) (hok : outlives s a) (hst : step op s a = some s') : Scope s' := by
  cases a with
  | producer => exact producerStep_scope h hst
  | call c => exact callStep_scope h hst
  | consumer => exact consumerStep_scope h hok hst
  | wake =>
    simp only [step] at hst
    split at hst <;> cases hst
    rename_i hp
    exact h.move (by rw [hp]; rfl) (by simp) (by simp)
  | timeout =>
    simp only [step] at hst
    split at hst <;> cases hst
    rename_i hp
    exact h.move (by rw [hp]; rfl) (by simp) (by simp)

theorem scope_reachable (h : Reachable (step op) outlives init s) : Scope s :=
  h.invariant scope_init fun _ _ _ => scope_step

/-- **The producer uses a task only inside the call that owns it**, and calls it at most once, in every run in which
no call returns early. -/
theorem task_used_in_scope (op : Value T) {as : List Act} (h : Run (step op) outlives init as s) :
    Run (step op) inScope init as s ∧ ∀ k, occurrences (step op) (invokes k) (init : State T) as ≤ 1 := by
  refine ⟨?_, invoked_once op as init⟩
  induction h with
  | nil => exact .nil _
  | @snoc t u as a hrun hok hst ih =>
    refine ih.snoc ?_ hst
    rintro rfl
    have hscope := scope_reachable ⟨as, hrun⟩
    cases htask : t.ppc.task with
    | none => exact .inl rfl
    | some k => exact .inr (hscope.used k htask).1.symm

/-! ## Early returns -/

/-- After an early return the producer is still inside the task, and the call is over. -/
theorem early_return {a : Act} (hearly : ¬ outlives s a) (hst : step op s a = some s') :
    ∃ k, s.cpc.registered = some k ∧ s'.cpc.registered = none ∧ s'.ppc.task = some k := by
  cases a with
  | consumer =>
    simp only [outlives, returnsEarly] at hearly
    split at hearly
    case h_1 m k hp =>
      simp only [step, consumerStep, hp] at hst
      cases hst
      have htask : s.ppc.task = some k := by simpa using hearly
      refine ⟨k, by rw [hp]; rfl, ?_, ?_⟩
      · cases m <;> rfl
      · cases m <;> exact htask
    case h_2 k hp =>
      simp only [step, consumerStep, hp] at hst
      cases hst
      have htask : s.ppc.task = some k := by simpa using hearly
      exact ⟨k, by rw [hp]; rfl, rfl, htask⟩
    case h_3 => exact absurd rfl hearly
  | producer | call | wake | timeout => exact absurd rfl hearly

/-- `wait` registers and sleeps; the producer completes the future and the task up to `notify_one`, which wakes it. -/
def notifiedSchedule : List Act :=
  List.flatten [[.call .wait], List.replicate 8 .consumer, List.replicate 6 .producer, [.wake],
    List.replicate 3 .consumer]

/-- The same with a spurious wake-up before `notify_one`. -/
def spuriousSchedule : List Act :=
  List.flatten [[.call .wait], List.replicate 8 .consumer, List.replicate 5 .producer, [.wake],
    List.replicate 3 .consumer, [.producer]]

/-- `wait_for` registers and times out; the producer takes the pointer before the exchange of `wait_for`. -/
def timedOutSchedule : List Act :=
  List.flatten [[.call .waitFor], List.replicate 4 .consumer, [.timeout], List.replicate 3 .consumer,
    List.replicate 2 .producer, [.consumer, .producer]]

theorem task_used_in_scope_notified : ∃ s : State Nat, s.log = [.wait] ∧
    Run (step (.val 7)) inScope init notifiedSchedule s := by
  have hrun := exec_get_run (step (.val 7)) outlives (init : State Nat) notifiedSchedule (by decide)
  exact ⟨_, by decide, (task_used_in_scope (.val 7) hrun).1⟩

/-- In both schedules the last step of the producer refers to the task of a call that has returned. -/
theorem task_outlived :
    (∃ s : State Nat, Run (step (.val 7)) anyStep init spuriousSchedule s ∧
      ¬ Run (step (.val 7)) inScope init spuriousSchedule s) ∧
    ∃ s : State Nat, Run (step (.val 7)) anyStep init timedOutSchedule s ∧
      ¬ Run (step (.val 7)) inScope init timedOutSchedule s := by
  have key : ∀ (as : List Act) (hpre : (exec (step (.val 7)) anyStep (init : State Nat) as).isSome = true)
      (hall : (exec (step (.val 7)) anyStep (init : State Nat) (as ++ [.producer])).isSome = true),
      ¬ inScope ((exec (step (.val 7)) anyStep (init : State Nat) as).get hpre) .producer →
      ∃ s : State Nat, Run (step (.val 7)) anyStep init (as ++ [.producer]) s ∧
        ¬ Run (step (.val 7)) inScope init (as ++ [.producer]) s := by
    intro as hpre hall hout
    refine ⟨_, exec_get_run _ _ _ _ hall, fun hin => ?_⟩
    obtain ⟨t, hrun, hok, -⟩ := hin.last
    obtain rfl := (exec_get_run _ _ _ _ hpre).det hrun
    exact hout hok
  exact ⟨key spuriousSchedule.dropLast (by decide) (by decide) (by decide),
    key timedOutSchedule.dropLast (by decide) (by decide) (by decide)⟩

end CoAwait.FutureWait
