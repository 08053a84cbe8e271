import CoAwait.ChannelOrder

/-!
# `BufferedChannel` with a fixed queue size: the back-pressure is exact

`push` compares after the insertion (`channel.hpp:191-195`) and `pop` releases the oldest parked sender
(`:235-236`), so with `mMaxQueueSize = M` the parked senders are those of the elements behind the first `M - 1`.

* `Pressure`: that equation, kept while the receiver is open.
* `Rendezvous`: with `M = 1` a sender waits for its own element.
* `exact_back_pressure`: both in every run that sets the size once, before any other call.
-/

namespace CoAwait.BufferedChannel

open Runs Table

variable {T : Type} {s s' : State T} {a : Act T} {M : Nat}

/-- The queue size stays. -/
def fixedSize (_ : State T) : Act T → Prop
  | .setMaxQueueSize _ => False
  | _ => True

instance (s : State T) : (a : Act T) → Decidable (fixedSize s a)
  | .setMaxQueueSize _ => .isFalse id
  | .push _ | .handOver _ | .pushReturn _ | .pop | .wakeSender _ | .popReturn _ | .closeSender
  | .closeReceiver | .notifyResized _ | .notifyReceiver | .notifySender => .isTrue trivial

structure Pressure (M : Nat) (s : State T) : Prop where
  size : s.chan.mMaxQueueSize = M
  parked : s.chan.mReceiverClosed = false → s.chan.mWaitingSender = (s.chan.mReadyData.drop (M - 1)).map Prod.fst

/-- The element of a sender that is completed with `true`, or is about to be, is assigned to a pop. -/
structure Rendezvous (s : State T) : Prop where
  sent : ∀ i, s.sent i = some true → ∃ x, (i, x) ∈ s.assigned
  waking : ∀ k w, look PopCall.sender s.pops k = some w → ∃ x, (w, x) ∈ s.assigned

theorem step_pressure (hM : 0 < M) (h : Pressure M s) (hok : fixedSize s a) (hst : step s a = some s') :
    Pressure M s' := by
  cases step_cases hst with
  | @buffer val parked hopen hr hw hp =>
    refine ⟨h.size, fun _ => ?_⟩
    have hdrop := h.parked hr
    rw [h.size] at hp
    simp only [hdrop, hp, List.drop_append, List.map_append]
    congr 1
    by_cases hfull : M ≤ s.chan.mReadyData.length + 1
    · have hz : M - 1 - s.chan.mReadyData.length = 0 := by omega
      simp [hfull, hz]
    · have hpos : M - 1 - s.chan.mReadyData.length = (M - 2 - s.chan.mReadyData.length) + 1 := by omega
      simp [hfull, hpos]
  | @popValue x rest hopen hr =>
    refine ⟨h.size, fun _ => ?_⟩
    have hdrop := h.parked hopen
    rw [hr] at hdrop
    simp only [hdrop, ← List.map_tail, List.tail_drop]
    have hM' : M - 1 + 1 = M := by omega
    rw [hM', ← hM', List.drop_succ_cons]
    rfl
  | resize => exact absurd hok id
  | closeReceiver hopen hw => exact ⟨h.size, nofun⟩
  | _ => exact ⟨h.size, h.parked⟩

theorem Rendezvous.sent_set (h : Rendezvous s) {w : Nat} {b : Bool} {q : PushCall T} (hq : s.pushes[w]? = some q)
    (hb : b = true → ∃ x, (w, x) ∈ s.assigned) (i : Nat)
    (hi : look PushCall.self (s.pushes.set w { q with self := some b }) i = some true) : ∃ x, (i, x) ∈ s.assigned := by
  rcases of_look_set hq hi with ⟨rfl, hs⟩ | hi
  · exact hb (Option.some.inj hs)
  · exact h.sent i hi

theorem Rendezvous.sent_append (h : Rendezvous s) {q : PushCall T} (hq : q.self ≠ some true) (i : Nat)
    (hi : look PushCall.self (s.pushes ++ [q]) i = some true) : ∃ x, (i, x) ∈ s.assigned := by
  rcases of_look_append hi with ⟨-, hi⟩ | hi
  · exact absurd hi hq
  · exact h.sent i hi

/-- With `M = 1` each sender is parked, and each pop wakes the sender of the element it takes. -/
theorem step_rendezvous (hp : Pressure 1 s) (h : Rendezvous s) (hst : step s a = some s') : Rendezvous s' := by
  cases step_cases hst with
  | @direct val k rest hopen hr hw =>
    refine ⟨fun i hi => ?_, fun k w hk => ?_⟩
    · rcases of_look_append hi with ⟨hin, -⟩ | hi
      · exact ⟨val, by simp [hin]⟩
      · obtain ⟨x, hx⟩ := h.sent i hi
        exact ⟨x, List.mem_append_left _ hx⟩
    · obtain ⟨x, hx⟩ := h.waking k w hk
      exact ⟨x, List.mem_append_left _ hx⟩
  | refuse hopen hr hw => exact ⟨h.sent_append (by simp), h.waking⟩
  | buffer hopen hr hw hfull =>
    rw [hp.size] at hfull
    exact ⟨h.sent_append (by simp [hfull]), h.waking⟩
  | handOver hq hp hnone =>
    exact ⟨fun i hi => h.sent i (by simpa [State.sent, look_set_same hq] using hi),
      fun k w hk => h.waking k w (by simpa [look_set_same hp] using hk)⟩
  | pushReturn hq => exact ⟨fun i hi => h.sent i (by simpa [State.sent, look_set_same hq] using hi), h.waking⟩
  | @popValue x rest hopen hr =>
    have hpark := hp.parked hopen
    rw [hr] at hpark
    refine ⟨fun i hi => ?_, fun k w hk => ?_⟩
    · obtain ⟨y, hy⟩ := h.sent i hi
      exact ⟨y, List.mem_append_left _ hy⟩
    · rcases of_look_append hk with ⟨-, hk⟩ | hk
      · have hw : w = x.1 := by simpa [hpark, eq_comm] using hk
        exact ⟨x.2, by simp [hw]⟩
      · obtain ⟨y, hy⟩ := h.waking k w hk
        exact ⟨y, List.mem_append_left _ hy⟩
  | popEmpty | popWait =>
    refine ⟨h.sent, fun k w hk => ?_⟩
    rw [look_append_none rfl] at hk
    exact h.waking k w hk
  | @wakeSender k w r returned q hpk hq hnone =>
    refine ⟨h.sent_set hq fun _ => h.waking k w (look_of_get hpk), fun k' w' hk => ?_⟩
    rcases of_look_set hpk hk with ⟨-, hk⟩ | hk
    · cases hk
    · exact h.waking k' w' hk
  | popReturn hpk => exact ⟨h.sent, fun k w hk => h.waking k w (by simpa [look_set_same hpk] using hk)⟩
  | resize | closeSender | closeReceiver => exact ⟨h.sent, h.waking⟩
  | notifyReceiver hc hpk hnone => exact ⟨h.sent, fun k w hk => h.waking k w (by simpa [look_set_same hpk] using hk)⟩
  | notifyResized hr hq hnone | notifySender hc hq hnone => exact ⟨h.sent_set hq (by simp), h.waking⟩

/-! ## Results -/

/-- `setMaxQueueSize(M)` on a fresh channel. -/
theorem fresh_size {s₀ : State T} (h : step (init : State T) (.setMaxQueueSize M) = some s₀) :
    0 < M ∧ Pressure M s₀ ∧ Rendezvous s₀ := by
  cases step_cases h with
  | resize hpos hn hquiet =>
    refine ⟨hpos, ⟨rfl, fun _ => by simp [init]⟩, ⟨fun i hi => ?_, fun k w hk => ?_⟩⟩
    · simp [State.sent, look, init] at hi
    · simp [look, init] at hk

theorem pressure_reachable {s₀ : State T} (h0 : step (init : State T) (.setMaxQueueSize M) = some s₀)
    (h : Reachable step fixedSize s₀ s) : Pressure M s := by
  obtain ⟨hM, hp, -⟩ := fresh_size h0
  exact h.invariant hp fun _ _ _ hI hok hst => step_pressure hM hI hok hst

theorem rendezvous_reachable {s₀ : State T} (h0 : step (init : State T) (.setMaxQueueSize 1) = some s₀)
    (h : Reachable step fixedSize s₀ s) : Rendezvous s := by
  obtain ⟨hM, hp, hr⟩ := fresh_size h0
  refine (h.invariant (I := fun s => Pressure 1 s ∧ Rendezvous s) ⟨hp, hr⟩ ?_).2
  intro s a s' hI hok hst
  exact ⟨step_pressure hM hI.1 hok hst, step_rendezvous hI.1 hI.2 hst⟩

/-- The elements in front of the parked senders' own. -/
theorem Pressure.unparked (h : Pressure M s) (hopen : s.chan.mReceiverClosed = false) :
    (s.chan.mReadyData.filter fun x => x.1 ∉ s.chan.mWaitingSender).length ≤ M - 1 := by
  have hsplit := List.take_append_drop (M - 1) s.chan.mReadyData
  have hdrop : ((s.chan.mReadyData.drop (M - 1)).filter fun x => x.1 ∉ s.chan.mWaitingSender) = [] := by
    refine List.filter_eq_nil_iff.2 fun x hx => ?_
    have hmem : x.1 ∈ s.chan.mWaitingSender := by
      rw [h.parked hopen]
      exact List.mem_map_of_mem hx
    simpa using hmem
  have hfil := congrArg (List.filter fun x => x.1 ∉ s.chan.mWaitingSender) hsplit
  rw [List.filter_append, hdrop, List.append_nil] at hfil
  rw [← hfil]
  calc _ ≤ (s.chan.mReadyData.take (M - 1)).length := List.length_filter_le _ _
    _ ≤ M - 1 := List.length_take_le _ _

/-- **Exact back-pressure.** Until `closeReceiver`, `|mReadyData| - (M - 1)` senders are parked, if that is positive,
those of the last elements in order; a sender is parked if and only if there are at least `M` elements; at most
`M - 1` elements have no parked sender. With `M = 1` a `push` returns `true` only for an element assigned to a pop. -/
theorem exact_back_pressure {s₀ : State T} (h0 : step (init : State T) (.setMaxQueueSize M) = some s₀)
    (h : Reachable step fixedSize s₀ s) :
    (s.chan.mReceiverClosed = false →
      (s.chan.mWaitingSender.length : Int) = max 0 (s.chan.mReadyData.length - (M - 1)) ∧
      s.chan.mWaitingSender =
        (s.chan.mReadyData.drop (s.chan.mReadyData.length - s.chan.mWaitingSender.length)).map Prod.fst ∧
      (s.chan.mWaitingSender ≠ [] ↔ M ≤ s.chan.mReadyData.length) ∧
      (s.chan.mReadyData.filter fun x => x.1 ∉ s.chan.mWaitingSender).length ≤ M - 1) ∧
    (M = 1 → ∀ i, s.sent i = some true → ∃ x, (i, x) ∈ s.assigned) := by
  have hM := (fresh_size h0).1
  have hp := pressure_reachable h0 h
  refine ⟨fun hopen => ?_, ?_⟩
  · have hpark := hp.parked hopen
    have hlen : s.chan.mWaitingSender.length = s.chan.mReadyData.length - (M - 1) := by
      rw [hpark, List.length_map, List.length_drop]
    refine ⟨by omega, ?_, ?_, hp.unparked hopen⟩
    · by_cases hle : M - 1 ≤ s.chan.mReadyData.length
      · have hback : s.chan.mReadyData.length - s.chan.mWaitingSender.length = M - 1 := by omega
        rw [hback]
        exact hpark
      · have hzero : s.chan.mWaitingSender.length = 0 := by omega
        rw [hzero, Nat.sub_zero, List.drop_length]
        exact List.length_eq_zero_iff.1 hzero
    · rw [← List.length_pos_iff, hlen]
      omega
  · rintro rfl i hi
    exact (rendezvous_reachable h0 h).sent i hi

/-- Three senders with a queue size of 2, then a pop: the youngest is still parked. -/
def pressureSchedule : List (Act Nat) := [.push 5, .push 6, .push 7, .pop, .wakeSender 0]

theorem exact_back_pressure_three : ∃ s₀ s : State Nat, step init (.setMaxQueueSize 2) = some s₀ ∧
    Run step fixedSize s₀ pressureSchedule s ∧ s.chan.mWaitingSender = [2] ∧ 2 ≤ s.chan.mReadyData.length := by
  have h0 : step (init : State Nat) (.setMaxQueueSize 2) = some ((step init (.setMaxQueueSize 2)).get (by decide)) :=
    (Option.some_get _).symm
  have hrun := exec_get_run step fixedSize ((step (init : State Nat) (.setMaxQueueSize 2)).get (by decide))
    pressureSchedule (by decide)
  have hpark := ((exact_back_pressure h0 ⟨_, hrun⟩).1 (by decide)).2.2.1
  exact ⟨_, _, h0, hrun, by decide, hpark.1 (by decide)⟩

end CoAwait.BufferedChannel
