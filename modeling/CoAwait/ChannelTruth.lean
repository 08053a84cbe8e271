import CoAwait.ChannelOrder

/-!
# `BufferedChannel`: what `push` returns

`Truthful`: `false` is on its way to a sender, or has arrived, only after `closeReceiver` has run, and the
element of that sender is not assigned to a pop. It holds in the runs in which no `setMaxQueueSize` releases
a parked sender; `setMaxQueueSize` completes the senders it releases with `false` (`channel.hpp:145-146`),
although their elements stay in `mReadyData`.
-/

namespace CoAwait.BufferedChannel

open Runs Table

variable {T : Type}

/-- The element of push call `i` is not assigned to a pop, and the receiver is closed, so that it never will be. -/
def State.Unread (s : State T) (i : Nat) : Prop :=
  s.chan.mReceiverClosed = true ∧ ∀ x, (i, x) ∉ s.assigned

structure Truthful (s : State T) : Prop where
  quiet : ∀ notify ∈ s.resized, notify = []
  refused : ∀ i, s.sent i = some false → s.Unread i
  closing : ∀ w ∈ s.receiverClosing, s.Unread w
  /-- Each parked sender still owns an element of `mReadyData`. -/
  parked : s.chan.mWaitingSender.Sublist (s.chan.mReadyData.map Prod.fst)

namespace Truthful

variable {s : State T}

theorem refused_complete (h : Truthful s) {w : Nat} {b : Bool} {q : PushCall T} (hq : s.pushes[w]? = some q)
    (hb : b = false → s.Unread w) (i : Nat)
    (hi : look PushCall.self (s.pushes.set w { q with self := some b }) i = some false) : s.Unread i := by
  rcases of_look_set hq hi with ⟨rfl, hs⟩ | hi
  · exact hb (Option.some.inj hs)
  · exact h.refused i hi

/-- While the receiver is open nobody has been refused. -/
theorem sent_ne_false (h : Truthful s) (hr : s.chan.mReceiverClosed = false) (i : Nat) : s.sent i ≠ some false :=
  fun hi => by
    have := (h.refused i hi).1
    rw [hr] at this; cases this

theorem receiverClosing_nil (h : Truthful s) (hr : s.chan.mReceiverClosed = false) : s.receiverClosing = [] := by
  refine List.eq_nil_iff_forall_not_mem.2 fun w hw => ?_
  have := (h.closing w hw).1
  rw [hr] at this; cases this

end Truthful

theorem step_truthful {s s' : State T} {a : Act T} (hf : Fifo s.flow) (h : Truthful s) (hok : noRelease s a)
    (hst : step s a = some s') : Truthful s' := by
  cases step_cases hst with
  | direct hopen hr hw =>
    exact { h with
      refused := by
        intro i hi
        rcases of_look_append hi with ⟨-, hi⟩ | hi
        · cases hi
        · exact absurd hi (h.sent_ne_false hr i)
      closing := fun w hw => by simp [h.receiverClosing_nil hr] at hw }
  | refuse hopen hr hw =>
    exact { h with
      refused := by
        intro i hi
        rcases of_look_append hi with ⟨rfl, -⟩ | hi
        · refine ⟨hr, fun x hx => ?_⟩
          have := hf.numbered _ (hf.assigned_sub hx)
          simp [State.flow] at this
        · exact h.refused i hi }
  | @buffer val parked hopen hr hw hp =>
    exact { h with
      refused := by
        intro i hi
        rcases of_look_append hi with ⟨-, hi⟩ | hi
        · cases parked <;> cases hi
        · exact absurd hi (h.sent_ne_false hr i)
      parked := by
        rw [List.map_append]
        refine h.parked.append ?_
        cases parked <;> simp }
  | handOver hq hp hnone =>
    exact { h with refused := fun i hi => h.refused i (by simpa [State.sent, look_set_same hq] using hi) }
  | pushReturn hq =>
    exact { h with refused := fun i hi => h.refused i (by simpa [State.sent, look_set_same hq] using hi) }
  | popValue hopen hr =>
    exact { h with
      refused := fun i hi => absurd hi (h.sent_ne_false hopen i)
      closing := fun w hw => by simp [h.receiverClosing_nil hopen] at hw
      parked := by simpa [hr] using h.parked.tail }
  | popEmpty hopen hr hc hw => exact { h with }
  | popWait hopen hr ho => exact { h with }
  | wakeSender hp hq hnone => exact { h with refused := h.refused_complete hq (fun hb => by cases hb) }
  | popReturn hp => exact { h with }
  | resize hpos hn hquiet =>
    exact { h with
      quiet := by
        intro l hl
        rcases List.mem_append.1 hl with hl | hl
        · exact h.quiet l hl
        · obtain rfl : l = _ := by simpa using hl
          exact hquiet hok
      parked := (List.drop_sublist _ _).trans h.parked }
  | notifyResized hr hq hnone => exact absurd (h.quiet _ (List.mem_of_getElem? hr)) (by simp)
  | closeSender hopen hw hr => exact { h with }
  | notifyReceiver hc hp hnone => exact { h with }
  | closeReceiver hopen hw =>
    exact {
      quiet := h.quiet
      refused := fun i hi => absurd hi (h.sent_ne_false hopen i)
      closing := by
        intro w hw
        obtain ⟨y, hy, rfl⟩ := List.mem_map.1 (h.parked.subset hw)
        exact ⟨rfl, fun x hx => hf.not_assigned hx hy rfl⟩
      parked := List.nil_sublist _ }
  | @notifySender w rest q hc hq hnone =>
    have hw : s.Unread w := h.closing w (by simp [hc])
    exact { h with
      refused := h.refused_complete hq (fun _ => hw)
      closing := fun v hv => h.closing v (by rw [hc]; exact List.mem_cons_of_mem _ hv) }

variable {s : State T}

theorem truthful_init : Truthful (init : State T) where
  quiet := fun _ h => by cases h
  refused := fun _ h => by cases h
  closing := fun _ h => by cases h
  parked := List.Sublist.refl _

theorem truthful_reachable (h : Reachable step noRelease (init : State T) s) : Truthful s := by
  refine (h.invariant (I := fun s => Fifo s.flow ∧ Truthful s) ⟨fifo_init, truthful_init⟩ ?_).2
  · intro s a s' hI hok hst
    exact ⟨step_fifo hI.1 hst, step_truthful hI.1 hI.2 hok hst⟩

/-- **`push` tells the truth as long as no `setMaxQueueSize` releases a parked sender**: it completes with
`false` only after `closeReceiver`, and its element is returned by no `pop`, then or later. -/
theorem push_truthful (h : Reachable step noRelease (init : State T) s) {i : Nat} (hi : s.sent i = some false) :
    s.chan.mReceiverClosed = true ∧
      ∀ t, Reachable step noRelease s t → ∀ k x, t.got k ≠ some (some (i, x)) := by
  refine ⟨((truthful_reachable h).refused i hi).1, fun t ht k x hk => ?_⟩
  have hreach := h.trans ht
  have hx : t.assigned[k]? = some (i, x) := (fifo_reachable hreach).got k _ hk
  exact ((truthful_reachable hreach).refused i (sent_stable ht hi)).2 x (List.mem_of_getElem? hx)

/-- The second sender is parked with its element in `mReadyData` when the receiver closes. -/
def closingSchedule : List (Act Nat) := [.push 5, .pushReturn 0, .push 6, .closeReceiver, .notifySender, .pushReturn 1]

theorem push_truthful_closing :
    ∃ s : State Nat, Run step noRelease init closingSchedule s ∧ s.pushes[1]? = some ⟨6, some false, none, true⟩ ∧
      s.chan.mReceiverClosed = true := by
  have hrun := exec_get_run step noRelease (init : State Nat) closingSchedule (by decide)
  exact ⟨_, hrun, by decide, (push_truthful ⟨_, hrun⟩ (i := 1) (by decide)).1⟩

/-- The second sender is parked with its element in `mReadyData` when the queue is enlarged; both elements
are popped afterwards. -/
def resizeSchedule : List (Act Nat) :=
  [.push 5, .pushReturn 0, .push 6, .setMaxQueueSize 3, .notifyResized 0, .pushReturn 1, .pop, .popReturn 0, .pop,
    .popReturn 1]

theorem resize_completes_push_with_false :
    ¬ ∀ (s : State Nat) (i : Nat), Reachable step disciplined init s → s.sent i = some false →
      s.chan.mReceiverClosed = true ∧ ∀ k x, s.got k ≠ some (some (i, x)) := by
  intro h
  have hrun := exec_get_run step disciplined (init : State Nat) resizeSchedule (by decide)
  have := (h _ 1 ⟨_, hrun⟩ (by decide)).1
  exact absurd this (by decide)

end CoAwait.BufferedChannel
