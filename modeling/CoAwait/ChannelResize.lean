import CoAwait.ChannelSteps

/-!
# `setMaxQueueSize` and the parked senders (`channel.hpp:124-147`)

A `push` that finds `|mReadyData| + 1 >= mMaxQueueSize` parks its sender, and a `pop` releases one sender for the
element it takes, so that `|mReadyData| - mMaxQueueSize + 1` senders may be parked. `setMaxQueueSize(cnt)` releases the
surplus only where `|mReadyData| < cnt`.

* `Snug`: there is no surplus; kept by every step whose `setMaxQueueSize` `fits`.
* `Overcrowded`: a surplus which pops alone turn into a sender parked without need.
* `resize_parks_none`: the main result.
-/

namespace CoAwait.BufferedChannel

open Runs

variable {T : Type} {s s' : State T} {a : Act T}

/-- Where the elements fill the new limit, not more senders are parked than it allows. -/
def fits (s : State T) : Act T → Prop
  | .setMaxQueueSize cnt => cnt ≤ s.chan.mReadyData.length →
    s.chan.mWaitingSender.length + cnt ≤ s.chan.mReadyData.length + 1
  | _ => True

instance (s : State T) : (a : Act T) → Decidable (fits s a)
  | .setMaxQueueSize _ => inferInstanceAs (Decidable (_ → _))
  | .push _ | .handOver _ | .pushReturn _ | .pop | .wakeSender _ | .popReturn _ | .closeSender
  | .closeReceiver | .notifyResized _ | .notifyReceiver | .notifySender => .isTrue trivial

/-- A sender is parked although the queue is not full. -/
def State.parkedInVain (s : State T) : Prop :=
  s.chan.mWaitingSender ≠ [] ∧ s.chan.mReadyData.length < s.chan.mMaxQueueSize

/-- The parked senders are among the elements behind the first `mMaxQueueSize - 1`. -/
def Snug (s : State T) : Prop :=
  s.chan.mWaitingSender = [] ∨ s.chan.mWaitingSender.length + s.chan.mMaxQueueSize ≤ s.chan.mReadyData.length + 1

theorem Snug.not_parkedInVain (h : Snug s) : ¬ s.parkedInVain := by
  rintro ⟨hne, hlt⟩
  rcases h with hnil | hle
  · exact hne hnil
  · have hpos := List.length_pos_iff.2 hne
    omega

/-- The loop of `setMaxQueueSize` has `cnt - mMaxQueueSize` rounds, if it is entered. -/
theorem resize_chan {cnt : Nat} (hst : step s (.setMaxQueueSize cnt) = some s') :
    s'.chan.mReadyData = s.chan.mReadyData ∧ s'.chan.mMaxQueueSize = cnt ∧
      s'.chan.mWaitingSender =
        s.chan.mWaitingSender.drop (if s.chan.mReadyData.length < cnt then cnt - s.chan.mMaxQueueSize else 0) := by
  simp only [step] at hst
  split at hst
  case h_1 => cases hst
  case h_2 chan notify hc =>
    obtain rfl := Option.some.inj hst
    unfold Channel.setMaxQueueSize at hc
    split at hc
    case isTrue => cases hc
    case isFalse =>
      split at hc
      case isTrue hlt =>
        rw [Channel.releaseSenders_eq] at hc
        obtain ⟨rfl, -⟩ := Prod.mk.inj (Option.some.inj hc)
        rw [if_pos hlt]
        exact ⟨rfl, rfl, rfl⟩
      case isFalse hge =>
        obtain ⟨rfl, -⟩ := Prod.mk.inj (Option.some.inj hc)
        rw [if_neg hge]
        exact ⟨rfl, rfl, rfl⟩

theorem resize_snug {cnt : Nat} (h : Snug s) (hok : fits s (.setMaxQueueSize cnt))
    (hst : step s (.setMaxQueueSize cnt) = some s') : Snug s' := by
  obtain ⟨hready, hmax, hwaiting⟩ := resize_chan hst
  unfold Snug
  rw [hready, hmax, hwaiting]
  by_cases hlt : s.chan.mReadyData.length < cnt
  · -- the released senders are at least the surplus of the old limit
    left
    rw [if_pos hlt, List.drop_eq_nil_iff]
    rcases h with hnil | hle
    · simp [hnil]
    · omega
  · right
    rw [if_neg hlt, List.drop_zero]
    exact hok (Nat.le_of_not_lt hlt)

theorem step_snug (h : Snug s) (hok : fits s a) (hst : step s a = some s') : Snug s' := by
  cases step_cases hst with
  | @buffer val parked hopen hr hw hp =>
    unfold Snug at h ⊢
    by_cases hfull : s.chan.mMaxQueueSize ≤ s.chan.mReadyData.length + 1
    · right
      simp only [hp, hfull, decide_true, if_true, List.length_append, List.length_singleton]
      rcases h with hnil | hle
      · rw [hnil, List.length_nil]
        omega
      · omega
    · left
      simp only [hp, hfull, decide_false, Bool.false_eq_true, if_false, List.append_nil]
      rcases h with hnil | hle
      · exact hnil
      · have hzero : s.chan.mWaitingSender.length = 0 := by omega
        exact List.length_eq_zero_iff.1 hzero
  | @popValue x rest hopen hr =>
    unfold Snug at h ⊢
    rw [hr, List.length_cons] at h
    rcases h with hnil | hle
    · left
      simp [hnil]
    · cases hw : s.chan.mWaitingSender with
      | nil => exact .inl rfl
      | cons w ws =>
        right
        rw [hw, List.length_cons] at hle
        simp only [List.tail_cons]
        omega
  | resize => exact resize_snug h hok hst
  | closeReceiver => exact .inl rfl
  | _ => exact h

theorem snug_reachable (h : Reachable step fits init s) : Snug s :=
  h.invariant (.inl rfl) fun _ _ _ hI hok hst => step_snug hI hok hst

/-! ## Where it does not fit -/

/-- More senders are parked than the limit allows, and the queue is full or nearly so. -/
structure Overcrowded (s : State T) : Prop where
  accepting : s.chan.mReceiverClosed = false
  surplus : s.chan.mReadyData.length + 1 < s.chan.mWaitingSender.length + s.chan.mMaxQueueSize
  full : s.chan.mMaxQueueSize ≤ s.chan.mReadyData.length + 1
  positive : 0 < s.chan.mMaxQueueSize

/-- A pop takes one element and releases one sender. -/
theorem pop_isSome {x : Nat × T} {rest : List (Nat × T)} (hopen : s.chan.mReceiverClosed = false)
    (hr : s.chan.mReadyData = x :: rest) : (step s .pop).isSome := by
  simp only [step, popStep, Channel.pop, hopen, hr, Bool.false_eq_true, if_false]
  cases s.chan.mWaitingSender <;> rfl

theorem Overcrowded.pop (h : Overcrowded s) (hge : s.chan.mMaxQueueSize ≤ s.chan.mReadyData.length) :
    ∃ t, step s .pop = some t ∧ Overcrowded t ∧ t.chan.mReadyData.length + 1 = s.chan.mReadyData.length := by
  have hpos := h.positive
  have hsurplus := h.surplus
  cases hr : s.chan.mReadyData with
  | nil =>
    rw [hr, List.length_nil] at hge
    exact absurd hge (Nat.not_le_of_lt hpos)
  | cons x rest =>
    obtain ⟨t, ht⟩ := Option.isSome_iff_exists.1 (pop_isSome h.accepting hr)
    refine ⟨t, ht, ?_⟩
    rw [hr, List.length_cons] at hge hsurplus
    cases step_cases ht with
    | @popValue y rest' hopen hy =>
      rw [hr] at hy
      obtain ⟨rfl, rfl⟩ := List.cons.inj hy
      have htail : s.chan.mWaitingSender.tail.length = s.chan.mWaitingSender.length - 1 := List.length_tail
      exact ⟨⟨hopen, by simp only [htail]; omega, hge, hpos⟩, rfl⟩
    | popEmpty _ hy | popWait _ hy =>
      rw [hr] at hy
      cases hy

/-- Pops alone lead to a sender that is parked without need. -/
theorem Overcrowded.reaches : ∀ (n : Nat) {s : State T}, Overcrowded s →
    s.chan.mReadyData.length + 1 = s.chan.mMaxQueueSize + n → ∃ t, Reachable step anyStep s t ∧ t.parkedInVain := by
  intro n
  induction n with
  | zero =>
    intro s h hn
    have hsurplus := h.surplus
    have hne : s.chan.mWaitingSender ≠ [] := by
      intro hnil
      rw [hnil, List.length_nil] at hsurplus
      omega
    exact ⟨s, .refl s, hne, by omega⟩
  | succ n ih =>
    intro s h hn
    obtain ⟨t, ht, hover, hlen⟩ := h.pop (by omega)
    have hmax : t.chan.mMaxQueueSize = s.chan.mMaxQueueSize := by
      cases step_cases ht <;> rfl
    obtain ⟨u, hu, hvain⟩ := ih hover (by omega)
    exact ⟨u, (Reachable.tail (.refl s) trivial ht).trans hu, hvain⟩

theorem overcrowded_of_not_fits {cnt : Nat} (hopen : s.chan.mReceiverClosed = false)
    (hst : step s (.setMaxQueueSize cnt) = some s') (hno : ¬ fits s (.setMaxQueueSize cnt)) : Overcrowded s' := by
  obtain ⟨hready, hmax, hwaiting⟩ := resize_chan hst
  simp only [fits, not_forall] at hno
  obtain ⟨hle, hsurplus⟩ := hno
  rw [if_neg (Nat.not_lt_of_le hle), List.drop_zero] at hwaiting
  have hpos : 0 < cnt := by
    cases step_cases hst with
    | resize hpos => exact hpos
  have hclosed : s'.chan.mReceiverClosed = false := by
    cases step_cases hst with
    | resize => exact hopen
  refine ⟨hclosed, ?_, ?_, hmax ▸ hpos⟩
  · rw [hready, hmax, hwaiting]
    omega
  · rw [hready, hmax]
    omega

/-! ## Results -/

/-- **Resizing parks no sender without need exactly where it fits.** In the runs in which every `setMaxQueueSize(cnt)`
that finds `cnt` elements finds at most `|mReadyData| - cnt + 1` parked senders, a sender is parked only while the queue
is full. After any other `setMaxQueueSize` before `closeReceiver`, pops alone lead to a sender that is parked while
it is not. -/
theorem resize_parks_none :
    (∀ s : State T, Reachable step fits init s →
      s.chan.mWaitingSender ≠ [] → s.chan.mMaxQueueSize ≤ s.chan.mReadyData.length) ∧
    ∀ (s s' : State T) (cnt : Nat), s.chan.mReceiverClosed = false → step s (.setMaxQueueSize cnt) = some s' →
      ¬ fits s (.setMaxQueueSize cnt) →
      ∃ t, Reachable step anyStep s' t ∧ t.chan.mWaitingSender ≠ [] ∧
        t.chan.mReadyData.length < t.chan.mMaxQueueSize := by
  refine ⟨fun s h hne => ?_, fun s s' cnt hopen hst hno => ?_⟩
  · by_contra hlt
    exact (snug_reachable h).not_parkedInVain ⟨hne, Nat.lt_of_not_le hlt⟩
  · have hover := overcrowded_of_not_fits hopen hst hno
    have hfull := hover.full
    exact hover.reaches (s'.chan.mReadyData.length + 1 - s'.chan.mMaxQueueSize) (by omega)

/-- Two senders are parked; the limit grows beyond the elements, and shrinks when they have been taken. -/
def fittingSchedule : List (Act Nat) :=
  [.push 5, .push 6, .push 7, .setMaxQueueSize 4, .notifyResized 0, .notifyResized 0, .push 8, .setMaxQueueSize 3]

theorem resize_parks_none_shrink : ∃ s : State Nat, Run step fits init fittingSchedule s ∧
    s.chan.mWaitingSender = [3] ∧ s.chan.mMaxQueueSize = 3 ∧ s.chan.mMaxQueueSize ≤ s.chan.mReadyData.length := by
  have hrun := exec_get_run step fits (init : State Nat) fittingSchedule (by decide)
  exact ⟨_, hrun, by decide, by decide, resize_parks_none.1 _ ⟨_, hrun⟩ (by decide)⟩

/-- Three elements, two parked senders and a limit of 3: the pop leaves two elements and one parked sender. -/
def growingSchedule : List (Act Nat) := [.push 5, .push 6, .push 7, .setMaxQueueSize 3, .pop]

theorem growing_parks_in_vain : ∃ s : State Nat, Reachable step anyStep init s ∧ s.chan.mReceiverClosed = false ∧
    s.chan.mWaitingSender ≠ [] ∧ s.chan.mReadyData.length < s.chan.mMaxQueueSize :=
  ⟨_, ⟨_, exec_get_run step anyStep (init : State Nat) growingSchedule (by decide)⟩, by decide, by decide, by decide⟩

end CoAwait.BufferedChannel
