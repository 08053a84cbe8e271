import CoAwait.MutexInv

/-!
# `BaseMutex<FairPolicy>`: hand-over in the order of arrival

`FairPolicy` appends at the back of `mWaiter` and takes from the front, so the queue is what is left of the
record of arrivals. Between the `fetch_sub` of an `unlock` and its `set_value` nobody holds the mutex, but the
counter stays positive: neither a compare-exchange nor a `fetch_add` can succeed there.

* `Order`: `enqueued` is `dequeued` followed by `mWaiter`, and `dequeued` is `completed` followed by the waiter
  that an `unlock` has taken out and not yet completed.
* `fast_path_closed`: the counter is positive while an enqueued client has not obtained the mutex.
-/

namespace CoAwait.Mutex

open Runs Counting

variable {ι : Type}

structure Order (s : State ι) : Prop where
  arrivals : s.enqueued = s.dequeued ++ s.mWaiter
  chosen : ∀ c w, s.pc c = .unlockSetValue w → s.dequeued = s.completed ++ [w]
  settled : (∀ c w, s.pc c ≠ .unlockSetValue w) → s.dequeued = s.completed

theorem order_init : Order (init : State ι) :=
  ⟨rfl, fun c w hc => by simp [init] at hc, fun _ => rfl⟩

/-- `enqueued` waiters whose `set_value` has not been called. -/
def State.outstanding (s : State ι) (w : Waiter ι) : Prop := w ∈ s.enqueued ∧ w ∉ s.completed

theorem Order.in_order (h : Order s) : s.completed <+: s.enqueued := by
  rw [h.arrivals]
  by_cases hc : ∃ c w, s.pc c = .unlockSetValue w
  · obtain ⟨c, w, hc⟩ := hc
    rw [h.chosen c w hc, List.append_assoc]
    exact List.prefix_append _ _
  · push Not at hc
    rw [h.settled hc]
    exact List.prefix_append _ _

section
variable [DecidableEq ι] {s s' : State ι} {c : ι}

/-- A step of `c` that leaves the record alone and neither enters nor leaves the call of `set_value`. -/
theorem Order.keep {x : Pc ι} (h : Order s) (hpc : s'.pc = Function.update s.pc c x)
    (henq : s'.enqueued = s.enqueued) (hdeq : s'.dequeued = s.dequeued) (hcomp : s'.completed = s.completed)
    (hwait : s'.mWaiter = s.mWaiter) (hold : ∀ w, s.pc c ≠ .unlockSetValue w) (hnew : ∀ w, x ≠ .unlockSetValue w) :
    Order s' := by
  have hiff : ∀ d w, s'.pc d = .unlockSetValue w ↔ s.pc d = .unlockSetValue w := by
    intro d w
    by_cases hd : d = c
    · rw [hd, hpc, Function.update_self]
      exact iff_of_false (hnew w) (hold w)
    · rw [hpc, Function.update_of_ne hd]
  refine ⟨?_, fun d w hd => ?_, fun hno => ?_⟩
  · rw [henq, hdeq, hwait]
    exact h.arrivals
  · rw [hdeq, hcomp]
    exact h.chosen d w ((hiff d w).1 hd)
  · rw [hdeq, hcomp]
    exact h.settled fun d w hd => hno d w ((hiff d w).2 hd)

variable [Fintype ι]

/-- An `unlock` takes the front waiter: no other one is on its way. -/
theorem Order.search (h : Order s) (hI : Inv s) {next : Waiter ι} {rest : List (Waiter ι)}
    (hp : s.pc c = .unlockSearch) (hnext : Policy.fair.getNextWaiter s.mWaiter = some (next, rest)) :
    Order { s.setPc c (.unlockSetValue next) with mWaiter := rest, dequeued := s.dequeued ++ [next] } := by
  have hrc : s.role c = .handing := by rw [State.role, hp]
  have hfront : s.mWaiter = next :: rest := by
    cases hw : s.mWaiter with
    | nil => rw [hw] at hnext; cases hnext
    | cons w ws => rw [hw] at hnext; cases hnext; rfl
  have hnone : ∀ d w, s.pc d ≠ .unlockSetValue w := by
    intro d w hd
    obtain rfl : d = c := hI.handing_unique (by rw [State.role, hd]) hrc
    rw [hp] at hd
    cases hd
  refine ⟨?_, fun d w hd => ?_, fun hno => absurd setPc_pc_self (hno c next)⟩
  · show s.enqueued = s.dequeued ++ [next] ++ rest
    rw [h.arrivals, hfront, List.append_assoc]
    rfl
  · by_cases hdc : d = c
    · subst hdc
      obtain rfl : next = w := by simpa [State.setPc] using hd
      show s.dequeued ++ [next] = s.completed ++ [next]
      rw [h.settled hnone]
    · exact absurd ((setPc_pc_ne hdc).symm.trans hd) (hnone d w)

theorem Order.setValue (h : Order s) (hI : Inv s) {next : Waiter ι} (hp : s.pc c = .unlockSetValue next) :
    Order ((setValue s next).setPc c .idle) := by
  have hrc : s.role c = .handing := by rw [State.role, hp]
  refine ⟨h.arrivals, fun d w hd => ?_, fun _ => h.chosen c next hp⟩
  have hdc : d ≠ c := by rintro rfl; simp [State.setPc] at hd
  have hd' : s.pc d = .unlockSetValue w := (setPc_pc_ne hdc).symm.trans hd
  exact absurd (hI.handing_unique (by rw [State.role, hd']) hrc) hdc

theorem runStep_order (h : Order s) (hI : Inv s) {spurious : Bool} (hst : runStep .fair s c spurious = some s') :
    Order s' := by
  unfold runStep at hst
  split at hst
  case h_1 => cases hst
  case h_2 => cases hst
  case h_3 i hp =>
    split at hst
    · cases hst
      exact h.keep rfl rfl rfl rfl rfl (by simp [hp]) (by simp)
    · split at hst <;> cases hst
      · exact h.keep rfl rfl rfl rfl rfl (by simp [hp]) (by simp)
      · exact h.keep rfl rfl rfl rfl rfl (by simp [hp]) (by simp)
  case h_4 hp =>
    cases hst
    unfold lockFetchAdd
    dsimp only
    split
    · exact h.keep rfl rfl rfl rfl rfl (by simp [hp]) (by simp)
    · exact h.keep rfl rfl rfl rfl rfl (by simp [hp]) (by simp)
  case h_5 n hp =>
    cases hst
    have hkeep : Order (s.setPc c (.lockAwait n)) := h.keep rfl rfl rfl rfl rfl (by simp [hp]) (by simp)
    refine ⟨?_, hkeep.chosen, hkeep.settled⟩
    show s.enqueued ++ [(c, n)] = s.dequeued ++ (s.mWaiter ++ [(c, n)])
    rw [h.arrivals, List.append_assoc]
  case h_6 n hp =>
    split at hst <;> cases hst
    exact h.keep rfl rfl rfl rfl rfl (by simp [hp]) (by simp)
  case h_7 hp =>
    split at hst <;> cases hst
    · exact h.keep rfl rfl rfl rfl rfl (by simp [hp]) (by simp)
    · exact h.keep rfl rfl rfl rfl rfl (by simp [hp]) (by simp)
  case h_8 hp =>
    cases hst
    unfold unlockFetchSub
    dsimp only
    split
    · exact h.keep rfl rfl rfl rfl rfl (by simp [hp]) (by simp)
    · exact h.keep rfl rfl rfl rfl rfl (by simp [hp]) (by simp)
  case h_9 hp =>
    split at hst <;> cases hst
    case h_1 => exact h
    case h_2 next rest hnext => exact h.search hI hp hnext
  case h_10 next hp =>
    cases hst
    exact h.setValue hI hp

theorem order_step {a : Act ι} (h : Order s) (hI : Inv s) (hst : step .fair s a = some s') : Order s' := by
  cases a with
  | lock c =>
    simp only [step] at hst
    split at hst <;> cases hst
    rename_i hp
    exact h.keep rfl rfl rfl rfl rfl (by simp [hp]) (by simp)
  | tryLock c =>
    simp only [step] at hst
    split at hst <;> cases hst
    rename_i hp
    exact h.keep rfl rfl rfl rfl rfl (by simp [hp]) (by simp)
  | unlock c =>
    simp only [step] at hst
    split at hst <;> cases hst
    rename_i hp
    exact h.keep rfl rfl rfl rfl rfl (by simp [hp]) (by simp)
  | run c spurious => exact runStep_order h hI hst

theorem order_reachable (h : Reachable (step .fair) fewClients init s) : Inv s ∧ Order s := by
  refine h.invariant (I := fun s => Inv s ∧ Order s) ⟨inv_init, order_init⟩ ?_
  intro s a s' hI hok hst
  exact ⟨inv_step hI.1 hok hst, order_step hI.2 hI.1 hst⟩

/-! ## The fast path -/

omit [DecidableEq ι] in
/-- An enqueued client that has not obtained the mutex is counted. -/
theorem fast_path_closed (hI : Inv s) (hO : Order s) {w : Waiter ι} (hw : s.outstanding w) : 0 < s.mCountOfWaiter := by
  have hwait : s.role w.1 = .waiting := by
    have hparked : s.pc w.1 = .lockAwait w.2 ∧ s.p w = false := by
      have hmem := hw.1
      rw [hO.arrivals] at hmem
      rcases List.mem_append.1 hmem with hdeq | hq
      · -- taken out and not completed: an `unlock` is about to complete it
        by_cases hc : ∃ c v, s.pc c = .unlockSetValue v
        · obtain ⟨c, v, hc⟩ := hc
          rw [hO.chosen c v hc] at hdeq
          rcases List.mem_append.1 hdeq with hdone | hv
          · exact absurd hdone hw.2
          · obtain rfl : w = v := by simpa using hv
            exact (hI.queue.chosen c w hc).2
        · push Not at hc
          rw [hO.settled hc] at hdeq
          exact absurd hdeq hw.2
      · exact hI.queue.parked w hq
    simp only [State.role, hparked.1]
    exact if_neg (by rw [hparked.2]; decide)
  have hpos : 0 < num s.role .waiting := num_pos_iff.2 ⟨w.1, hwait⟩
  have hcount := hI.balance.counted
  omega

omit [Fintype ι] in
/-- Who holds the mutex changes for the client that moves only. -/
theorem holder_moved {x : Pc ι} {d : ι} (hnot : s.role d ≠ .holder) (hnow : s'.role d = .holder)
    (hpc : s'.pc = Function.update s.pc c x) (hp : s'.p = s.p) : d = c := by
  by_contra hd
  have hsame : s'.role d = s.role d := by
    simp only [State.role, hpc, hp, Function.update_of_ne hd]
  exact hnot (hsame.symm.trans hnow)

omit [Fintype ι] [DecidableEq ι] in
theorem casWeak_positive {spurious : Bool} {count e k : Int} (hpos : 0 < count) :
    casWeak spurious count ≠ (true, e, k) := by
  intro h
  unfold casWeak at h
  rw [if_neg (by omega)] at h
  cases h

/-- With a positive counter the step by which a client comes to hold the mutex is the `set_value` of its waiter. -/
theorem acquires_by_completion (hI : Inv s) (hpos : 0 < s.mCountOfWaiter) {a : Act ι}
    (hst : step .fair s a = some s') {d : ι} (hnot : s.role d ≠ .holder) (hnow : s'.role d = .holder) :
    ∃ c spurious n, a = .run c spurious ∧ s.pc c = .unlockSetValue (d, n) := by
  cases a with
  | lock c =>
    simp only [step] at hst
    split at hst <;> cases hst
    obtain rfl := holder_moved hnot hnow rfl rfl
    simp [State.role] at hnow
  | tryLock c =>
    simp only [step] at hst
    split at hst <;> cases hst
    obtain rfl := holder_moved hnot hnow rfl rfl
    simp [State.role] at hnow
  | unlock c =>
    simp only [step] at hst
    split at hst <;> cases hst
    rename_i hp
    obtain rfl := holder_moved hnot hnow rfl rfl
    exact absurd (by rw [State.role, hp]) hnot
  | run c spurious =>
    simp only [step] at hst
    unfold runStep at hst
    split at hst
    case h_1 => cases hst
    case h_2 => cases hst
    case h_3 i hp =>
      split at hst
      case h_1 e k hcas => exact absurd hcas (casWeak_positive hpos)
      case h_2 =>
        split at hst <;> cases hst <;> obtain rfl := holder_moved hnot hnow rfl rfl
        · simp [State.role] at hnow
        · simp [State.role] at hnow
    case h_4 hp =>
      cases hst
      have hlt := hI.count_lt (c := c) (by rw [State.role, hp])
      unfold lockFetchAdd at hnow
      rw [wrapInt_eq (by omega) hlt] at hnow
      dsimp only at hnow
      rw [if_neg (by omega)] at hnow
      obtain rfl := holder_moved hnot hnow rfl rfl
      have hfresh : s.p (d, s.calls d) = false :=
        hI.history.not_done fun hm => Nat.lt_irrefl _ (hI.history.numbered _ hm)
      simp [State.role, State.setPc, hfresh] at hnow
    case h_5 n hp =>
      cases hst
      obtain rfl := holder_moved hnot hnow rfl rfl
      have hfresh : s.p (d, n) = false := hI.history.not_done (hI.history.fresh d n hp).2
      simp [State.role, State.setPc, hfresh] at hnow
    case h_6 n hp =>
      split at hst <;> cases hst
      rename_i hdone
      obtain rfl := holder_moved hnot hnow rfl rfl
      exact absurd (by simp [State.role, hp, hdone]) hnot
    case h_7 hp =>
      split at hst <;> cases hst
      case h_1 e k hcas => exact absurd hcas (casWeak_positive hpos)
      case h_2 =>
        obtain rfl := holder_moved hnot hnow rfl rfl
        simp [State.role] at hnow
    case h_8 hp =>
      cases hst
      unfold unlockFetchSub at hnow
      dsimp only at hnow
      have hd : d = c := by split at hnow <;> exact holder_moved hnot hnow rfl rfl
      subst hd
      exact absurd (by rw [State.role, hp]) hnot
    case h_9 hp =>
      split at hst <;> cases hst
      case h_1 => exact absurd hnow hnot
      case h_2 next rest hnext =>
        obtain rfl := holder_moved hnot hnow rfl rfl
        simp [State.role, State.setPc] at hnow
    case h_10 next hp =>
      cases hst
      by_cases hd : d = next.1
      · exact ⟨c, spurious, next.2, rfl, by rw [hp, hd]⟩
      · have hnot' : (setValue s next).role d ≠ .holder := by rwa [role_setValue_ne hd]
        obtain rfl := holder_moved hnot' hnow rfl rfl
        simp [State.role] at hnow

omit [Fintype ι] in
theorem Order.next_in_line (hO : Order s) {w : Waiter ι} (hw : s.outstanding w) {v : Waiter ι}
    (hc : s.pc c = .unlockSetValue v) :
    s.completed ++ [v] <+: s.enqueued ∧ s.enqueued.idxOf v ≤ s.enqueued.idxOf w := by
  have hsplit : s.enqueued = s.completed ++ v :: s.mWaiter := by
    rw [hO.arrivals, hO.chosen c v hc, List.append_assoc]
    rfl
  constructor
  · exact ⟨s.mWaiter, by rw [hsplit, List.append_assoc]; rfl⟩
  · rw [hsplit, List.idxOf_append_of_notMem hw.2]
    calc List.idxOf v (s.completed ++ v :: s.mWaiter) ≤ s.completed.length := by
          by_cases hv : v ∈ s.completed
          · rw [List.idxOf_append_of_mem hv]
            exact List.idxOf_le_length
          · rw [List.idxOf_append_of_notMem hv, List.idxOf_cons_self, Nat.add_zero]
      _ ≤ s.completed.length + List.idxOf w (v :: s.mWaiter) := Nat.le_add_right _ _

/-- **First in, first out, and no barging.** The waiters are completed in the order in which they were enqueued.
While one of them, `w`, is enqueued and not completed, no compare-exchange and no `fetch_add` obtains the mutex, and
a client that does obtain it is the first in line: its waiter was enqueued before `w`, or is `w`. -/
theorem fair_handover (h : Reachable (step .fair) fewClients init s) :
    s.completed <+: s.enqueued ∧
    ∀ w ∈ s.enqueued, w ∉ s.completed → ∀ a s', step .fair s a = some s' →
      (∀ c spurious, a = .run c spurious → (∃ i, s.pc c = .lockCas i) ∨ s.pc c = .lockFetchAdd ∨ s.pc c = .tryLock →
        s'.pc c ≠ .holding) ∧
      ∀ d, s.role d ≠ .holder → s'.role d = .holder →
        ∃ n, s.completed ++ [(d, n)] <+: s.enqueued ∧ s.enqueued.idxOf (d, n) ≤ s.enqueued.idxOf w := by
  obtain ⟨hI, hO⟩ := order_reachable h
  refine ⟨hO.in_order, fun w henq hopen a s' hst => ⟨?_, fun d hnot hnow => ?_⟩⟩
  · rintro c spurious rfl hpc hhold
    have hpos := fast_path_closed hI hO ⟨henq, hopen⟩
    have hnot : s.role c ≠ .holder := by
      rcases hpc with ⟨i, hi⟩ | hi | hi <;> simp [State.role, hi]
    obtain ⟨c', spurious', n, ha, hset⟩ :=
      acquires_by_completion hI hpos hst hnot (by rw [State.role, hhold])
    cases ha
    rw [hset] at hpc
    rcases hpc with ⟨i, hi⟩ | hi | hi <;> cases hi
  · have hpos := fast_path_closed hI hO ⟨henq, hopen⟩
    obtain ⟨c, spurious, n, -, hset⟩ := acquires_by_completion hI hpos hst hnot hnow
    exact ⟨n, hO.next_in_line ⟨henq, hopen⟩ hset⟩

/-- Client 0 holds the mutex, client 1 enqueues itself; client 0 has done the `fetch_sub` and not yet chosen it, and
client 2 is at its compare-exchange. -/
def bargeSchedule : List (Act (Fin 3)) :=
  List.flatten [[.lock 0, .run 0 false, .lock 1], List.replicate 10 (.run 1 false),
    [.unlock 0, .run 0 false, .lock 2]]

theorem fair_handover_barge : ∃ s s' : State (Fin 3),
    Run (step .fair) fewClients init bargeSchedule s ∧ s.role 1 = .waiting ∧ (∀ c, s.role c ≠ .holder) ∧
    step .fair s (.run 2 false) = some s' ∧ s'.pc 2 ≠ .holding := by
  have hrun := exec_get_run (step .fair) fewClients (init : State (Fin 3)) bargeSchedule (by decide)
  have h := (fair_handover ⟨_, hrun⟩).2 (1, 0) (by decide) (by decide) (.run 2 false) _
    (Option.some_get (by decide)).symm
  exact ⟨_, _, hrun, by decide, by decide, (Option.some_get (by decide)).symm, h.1 2 false rfl (.inl ⟨0, by decide⟩)⟩

end

end CoAwait.Mutex
