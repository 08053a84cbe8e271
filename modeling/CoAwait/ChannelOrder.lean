import Mathlib.Data.List.Nodup
import CoAwait.ChannelSteps

/-!
# `BufferedChannel`: a lossless FIFO

A value travels through `mReadyData` or directly to a parked receiver, and in both cases it is handed over
after the lock is released. `Fifo` ties the deques and the hand-overs together: the accepted elements are
those assigned to pops followed by `mReadyData`, and the `k`-th pop gets the `k`-th assigned element. The
parked receivers are the pops after the assigned ones, in order, so that a hand-over always goes to the pop
whose turn it is.

The steps are handled by what they do to the `Flow` of the elements, the part of the state that their fates
depend on.
-/

namespace CoAwait.BufferedChannel

open Runs Table

variable {T : Type}

structure Flow (T : Type) where
  ready : List (Nat × T)
  waiting : List Nat
  senderClosed : Bool
  pushed : Nat
  popped : Nat
  /-- The value of a push call. -/
  val : Nat → Option T
  /-- The pop a push call still has to complete. -/
  handing : Nat → Option Nat
  /-- What a pop call is completed with. -/
  got : Nat → Option (Option (Nat × T))
  closing : List Nat
  accepted : List (Nat × T)
  assigned : List (Nat × T)

/-- The pops that push calls still have to complete. -/
def State.handing (s : State T) : Nat → Option Nat := look PushCall.receiver s.pushes

def State.flow (s : State T) : Flow T where
  ready := s.chan.mReadyData
  waiting := s.chan.mWaitingReceiver
  senderClosed := s.chan.mSenderClosed
  pushed := s.pushes.length
  popped := s.pops.length
  val := s.val
  handing := s.handing
  got := s.got
  closing := s.senderClosing
  accepted := s.accepted
  assigned := s.assigned

theorem flow_eq (s : State T) : s.flow = ⟨s.chan.mReadyData, s.chan.mWaitingReceiver, s.chan.mSenderClosed,
    s.pushes.length, s.pops.length, look (fun q => some q.val) s.pushes, look PushCall.receiver s.pushes,
    look PopCall.self s.pops, s.senderClosing, s.accepted, s.assigned⟩ := rfl

/-! ## The order of the elements -/

structure Fifo (v : Flow T) : Prop where
  split : v.accepted = v.assigned ++ v.ready
  ordered : (v.accepted.map Prod.fst).Pairwise (· < ·)
  genuine : ∀ x ∈ v.accepted, v.val x.1 = some x.2
  numbered : ∀ x ∈ v.accepted, x.1 < v.pushed
  bound : v.assigned.length ≤ v.popped
  waiting : v.waiting = if v.senderClosed then [] else
    List.range' v.assigned.length (v.popped - v.assigned.length)
  buffered : v.ready ≠ [] → v.assigned.length = v.popped
  fresh : ∀ k, v.popped ≤ k → v.got k = none
  got : ∀ k x, v.got k = some (some x) → v.assigned[k]? = some x
  served : ∀ k x, v.assigned[k]? = some x → v.got k = some (some x) ∨ v.got k = none ∧ v.handing x.1 = some k
  handing : ∀ i k, v.handing i = some k → v.got k = none ∧ ∃ x, v.assigned[k]? = some x ∧ x.1 = i
  empty : ∀ k, v.got k = some none → v.assigned.length ≤ k ∧ v.senderClosed = true ∧ v.ready = []
  closing : ∀ k ∈ v.closing, v.assigned.length ≤ k ∧ k < v.popped ∧ v.senderClosed = true ∧ v.ready = []

namespace Fifo

variable {v : Flow T}

/-- The pops from `assigned.length` on have no value yet. -/
theorem got_ne_value (h : Fifo v) {k : Nat} (hk : v.assigned.length ≤ k) (x : Nat × T) :
    v.got k ≠ some (some x) := by
  intro hg
  have := h.got k x hg
  rw [List.getElem?_eq_none hk] at this
  cases this

theorem got_of_open (h : Fifo v) (ho : v.senderClosed = false) {k : Nat} (hk : v.assigned.length ≤ k) :
    v.got k = none := by
  match hg : v.got k with
  | none => rfl
  | some (some x) => exact absurd hg (h.got_ne_value hk x)
  | some none => rw [(h.empty k hg).2.1] at ho; cases ho

theorem handing_lt (h : Fifo v) {i k : Nat} (hi : v.handing i = some k) : k < v.assigned.length := by
  obtain ⟨-, x, hx, -⟩ := h.handing i k hi
  exact (List.getElem?_eq_some_iff.1 hx).1

theorem assigned_sub (h : Fifo v) {x : Nat × T} (hx : x ∈ v.assigned) : x ∈ v.accepted := by
  rw [h.split]
  exact List.mem_append.2 (.inl hx)

theorem not_assigned (h : Fifo v) {x y : Nat × T} (hx : x ∈ v.assigned) (hy : y ∈ v.ready) : x.1 ≠ y.1 := by
  have hord := h.ordered
  rw [h.split, List.map_append, List.pairwise_append] at hord
  exact Nat.ne_of_lt (hord.2.2 _ (List.mem_map_of_mem hx) _ (List.mem_map_of_mem hy))

/-- The first parked receiver is the pop whose turn it is. -/
theorem waiting_head (h : Fifo v) (ho : v.senderClosed = false) {k : Nat} {rest : List Nat}
    (hw : v.waiting = k :: rest) :
    k = v.assigned.length ∧ v.assigned.length < v.popped ∧ v.ready = [] ∧
      rest = List.range' (v.assigned.length + 1) (v.popped - (v.assigned.length + 1)) := by
  have hq := h.waiting
  rw [hw, ho, if_neg (by simp)] at hq
  obtain ⟨n, hn⟩ : ∃ n, v.popped - v.assigned.length = n + 1 := by
    refine Nat.exists_eq_succ_of_ne_zero fun h0 => ?_
    rw [h0] at hq
    simp at hq
  rw [hn, List.range'_succ, List.cons.injEq] at hq
  have hready : v.ready = [] := by
    by_contra hne
    have := h.buffered hne
    omega
  refine ⟨hq.1, by omega, hready, ?_⟩
  rw [hq.2]
  congr 1
  omega

theorem caught_up (h : Fifo v) (ho : v.senderClosed = false) (hw : v.waiting = []) :
    v.assigned.length = v.popped := by
  have hq := h.waiting
  rw [hw, ho, if_neg (by simp), eq_comm, List.range'_eq_nil_iff] at hq
  have := h.bound
  omega

/-- The tags stay ordered when the next push call is accepted. -/
theorem ordered_append (h : Fifo v) (x : T) :
    ((v.accepted ++ [(v.pushed, x)]).map Prod.fst).Pairwise (· < ·) := by
  rw [List.map_append, List.pairwise_append]
  refine ⟨h.ordered, by simp, fun a ha b hb => ?_⟩
  obtain ⟨y, hy, rfl⟩ := List.mem_map.1 ha
  obtain rfl : b = v.pushed := by simpa using hb
  exact h.numbered y hy

theorem val_update (h : Fifo v) (x : T) {y : Nat × T} (hy : y ∈ v.accepted) :
    Function.update v.val v.pushed (some x) y.1 = some y.2 := by
  have hlt := h.numbered y hy
  rw [Function.update_of_ne (by omega)]
  exact h.genuine y hy

theorem genuine_append (h : Fifo v) (x : T) :
    ∀ y ∈ v.accepted ++ [(v.pushed, x)], Function.update v.val v.pushed (some x) y.1 = some y.2 := by
  intro y hy
  rcases List.mem_append.1 hy with hy | hy
  · exact h.val_update x hy
  · obtain rfl : y = (v.pushed, x) := by simpa using hy
    simp

theorem numbered_append (h : Fifo v) (x : T) : ∀ y ∈ v.accepted ++ [(v.pushed, x)], y.1 < v.pushed + 1 := by
  intro y hy
  rcases List.mem_append.1 hy with hy | hy
  · exact Nat.lt_succ_of_lt (h.numbered y hy)
  · obtain rfl : y = (v.pushed, x) := by simpa using hy
    exact Nat.lt_succ_self _

/-- A pop without an element gets `nullopt`: the others have what they had. -/
theorem got_nullopt (h : Fifo v) (k : Nat) :
    ∀ j y, Function.update v.got k (some none) j = some (some y) → v.assigned[j]? = some y := by
  intro j y hj
  by_cases hjk : j = k
  · subst hjk
    simp at hj
  · rw [Function.update_of_ne hjk] at hj
    exact h.got j y hj

theorem served_nullopt (h : Fifo v) {k : Nat} (hk : v.assigned.length ≤ k) :
    ∀ j y, v.assigned[j]? = some y → Function.update v.got k (some none) j = some (some y) ∨
      Function.update v.got k (some none) j = none ∧ v.handing y.1 = some j := by
  intro j y hy
  have hlt := (List.getElem?_eq_some_iff.1 hy).1
  rw [Function.update_of_ne (by omega)]
  exact h.served j y hy

theorem handing_nullopt (h : Fifo v) {k : Nat} (hk : v.assigned.length ≤ k) :
    ∀ i j, v.handing i = some j →
      Function.update v.got k (some none) j = none ∧ ∃ y, v.assigned[j]? = some y ∧ y.1 = i := by
  intro i j hj
  have hlt := h.handing_lt hj
  rw [Function.update_of_ne (by omega)]
  exact h.handing i j hj

/-! ### What the steps do to it -/

/-- `push` that sees the receiver closed. -/
theorem refuse (h : Fifo v) (x : T) (hh : v.handing v.pushed = none) :
    Fifo { v with
      pushed := v.pushed + 1
      val := Function.update v.val v.pushed (some x)
      handing := Function.update v.handing v.pushed none } := by
  rw [← hh, Function.update_eq_self]
  exact { h with
    genuine := fun y hy => h.val_update x hy
    numbered := fun y hy => Nat.lt_succ_of_lt (h.numbered y hy) }

/-- `push` into `mReadyData`. -/
theorem buffer (h : Fifo v) (x : T) (ho : v.senderClosed = false) (hw : v.waiting = [])
    (hh : v.handing v.pushed = none) :
    Fifo { v with
      ready := v.ready ++ [(v.pushed, x)]
      pushed := v.pushed + 1
      val := Function.update v.val v.pushed (some x)
      handing := Function.update v.handing v.pushed none
      accepted := v.accepted ++ [(v.pushed, x)] } := by
  rw [← hh, Function.update_eq_self]
  exact { h with
    split := by simp [h.split]
    ordered := h.ordered_append x
    genuine := h.genuine_append x
    numbered := h.numbered_append x
    buffered := fun _ => h.caught_up ho hw
    empty := fun k hk => absurd (h.empty k hk).2.1 (by simp [ho])
    closing := fun k hk => absurd (h.closing k hk).2.2.1 (by simp [ho]) }

/-- `push` directly to the first parked receiver. -/
theorem direct (h : Fifo v) (x : T) {k : Nat} {rest : List Nat} (ho : v.senderClosed = false)
    (hw : v.waiting = k :: rest) :
    Fifo { v with
      waiting := rest
      pushed := v.pushed + 1
      val := Function.update v.val v.pushed (some x)
      handing := Function.update v.handing v.pushed (some k)
      accepted := v.accepted ++ [(v.pushed, x)]
      assigned := v.assigned ++ [(v.pushed, x)] } := by
  obtain ⟨rfl, hlt, hready, hrest⟩ := h.waiting_head ho hw
  have hother : ∀ {j : Nat} {y : Nat × T}, v.assigned[j]? = some y → y.1 ≠ v.pushed := by
    intro j y hy
    have := h.numbered y (h.assigned_sub (List.mem_of_getElem? hy))
    omega
  exact {
    split := by simp [h.split, hready]
    ordered := h.ordered_append x
    genuine := h.genuine_append x
    numbered := h.numbered_append x
    bound := by simpa [Nat.succ_le_iff] using hlt
    waiting := by simpa [ho] using hrest
    buffered := fun hne => absurd hready hne
    fresh := h.fresh
    got := by
      intro j y hj
      have hj' := h.got j y hj
      have := (List.getElem?_eq_some_iff.1 hj').1
      rw [List.getElem?_append_left this]
      exact hj'
    served := by
      intro j y hy
      rcases get_concat_iff.1 hy with hy | ⟨rfl, rfl⟩
      · have hne : y.1 ≠ v.pushed := hother hy
        simpa [hne] using h.served j y hy
      · exact .inr ⟨h.got_of_open ho (Nat.le_refl _), by simp⟩
    handing := by
      intro i j hj
      by_cases hi : i = v.pushed
      · subst hi
        obtain rfl : v.assigned.length = j := by simpa using hj
        exact ⟨h.got_of_open ho (Nat.le_refl _), (v.pushed, x), by simp, rfl⟩
      · simp only [Function.update_of_ne hi] at hj
        obtain ⟨hg, y, hy, hyi⟩ := h.handing i j hj
        exact ⟨hg, y, get_concat_iff.2 (.inl hy), hyi⟩
    empty := fun j hj => absurd (h.empty j hj).2.1 (by simp [ho])
    closing := fun j hj => absurd (h.closing j hj).2.2.1 (by simp [ho]) }

/-- `receiver->set_value(std::move(val))`. -/
theorem handOver (h : Fifo v) {i k : Nat} {x : T} (hv : v.val i = some x) (hi : v.handing i = some k) :
    Fifo { v with
      handing := Function.update v.handing i none
      got := Function.update v.got k (some (some (i, x))) } := by
  obtain ⟨hg, y, hy, hyi⟩ := h.handing i k hi
  have hlt := h.handing_lt hi
  obtain rfl : y = (i, x) := by
    have hval := h.genuine y (h.assigned_sub (List.mem_of_getElem? hy))
    rw [hyi, hv] at hval
    exact Prod.ext hyi (Option.some.inj hval).symm
  exact { h with
    fresh := by
      intro j hj
      have := h.bound
      dsimp only at hj ⊢
      rw [Function.update_of_ne (by omega)]
      exact h.fresh j hj
    got := by
      intro j z hj
      by_cases hjk : j = k
      · subst hjk
        obtain rfl : (i, x) = z := by simpa using hj
        exact hy
      · simp only [Function.update_of_ne hjk] at hj
        exact h.got j z hj
    served := by
      intro j z hz
      by_cases hjk : j = k
      · subst hjk
        obtain rfl : (i, x) = z := Option.some.inj (hy.symm.trans hz)
        exact .inl (by simp)
      · rcases h.served j z hz with h1 | ⟨h1, h2⟩
        · exact .inl (by simpa [hjk] using h1)
        · have hzi : z.1 ≠ i := by
            rintro rfl
            exact hjk (Option.some.inj (h2.symm.trans hi))
          exact .inr ⟨by simpa [hjk] using h1, by simpa [hzi] using h2⟩
    handing := by
      intro i' j hj
      by_cases hii : i' = i
      · subst hii; simp at hj
      · simp only [Function.update_of_ne hii] at hj
        obtain ⟨h1, z, h2, h3⟩ := h.handing i' j hj
        have hjk : j ≠ k := by
          rintro rfl
          obtain rfl : z = (i, x) := Option.some.inj (h2.symm.trans hy)
          exact hii h3.symm
        exact ⟨by simpa [hjk] using h1, z, h2, h3⟩
    empty := by
      intro j hj
      by_cases hjk : j = k
      · subst hjk; simp at hj
      · simp only [Function.update_of_ne hjk] at hj
        exact h.empty j hj }

/-- `pop` of the front of `mReadyData`. -/
theorem popValue (h : Fifo v) {x : Nat × T} {rest : List (Nat × T)} (hr : v.ready = x :: rest) :
    Fifo { v with
      ready := rest
      popped := v.popped + 1
      got := Function.update v.got v.popped (some (some x))
      assigned := v.assigned ++ [x] } := by
  have hlen : v.assigned.length = v.popped := h.buffered (by simp [hr])
  exact { h with
    split := by simp [h.split, hr]
    bound := by simp [hlen]
    waiting := by
      have := h.waiting
      simpa [hlen] using this
    buffered := fun _ => by simp [hlen]
    fresh := by
      intro j hj
      dsimp only at hj ⊢
      rw [Function.update_of_ne (by omega)]
      exact h.fresh j (by omega)
    got := by
      intro j y hj
      by_cases hjk : j = v.popped
      · subst hjk
        obtain rfl : x = y := by simpa using hj
        exact get_concat_iff.2 (.inr ⟨hlen.symm, rfl⟩)
      · simp only [Function.update_of_ne hjk] at hj
        exact get_concat_iff.2 (.inl (h.got j y hj))
    served := by
      intro j y hy
      rcases get_concat_iff.1 hy with hy | ⟨rfl, rfl⟩
      · have hlt := (List.getElem?_eq_some_iff.1 hy).1
        dsimp only
        rw [Function.update_of_ne (by omega)]
        exact h.served j y hy
      · exact .inl (by simp [hlen])
    handing := by
      intro i j hj
      obtain ⟨h1, y, h2, h3⟩ := h.handing i j hj
      have hlt := h.handing_lt hj
      exact ⟨by dsimp only; rw [Function.update_of_ne (by omega)]; exact h1, y, get_concat_iff.2 (.inl h2), h3⟩
    empty := by
      intro j hj
      by_cases hjk : j = v.popped
      · subst hjk; simp at hj
      · simp only [Function.update_of_ne hjk] at hj
        exact absurd (h.empty j hj).2.2 (by simp [hr])
    closing := fun j hj => absurd (h.closing j hj).2.2.2 (by simp [hr]) }

/-- `pop` on an empty channel whose sender is closed. -/
theorem popEmpty (h : Fifo v) (hc : v.senderClosed = true) (hr : v.ready = []) :
    Fifo { v with popped := v.popped + 1, got := Function.update v.got v.popped (some none) } := by
  have hb := h.bound
  exact { h with
    bound := Nat.le_succ_of_le hb
    waiting := by simpa [hc] using h.waiting
    buffered := fun hne => absurd hr hne
    fresh := by
      intro j hj
      dsimp only at hj ⊢
      rw [Function.update_of_ne (by omega)]
      exact h.fresh j (by omega)
    got := h.got_nullopt v.popped
    served := h.served_nullopt hb
    handing := h.handing_nullopt hb
    empty := by
      intro j hj
      by_cases hjk : j = v.popped
      · subst hjk; exact ⟨hb, hc, hr⟩
      · simp only [Function.update_of_ne hjk] at hj
        exact h.empty j hj
    closing := by
      intro j hj
      obtain ⟨h1, h2, h3⟩ := h.closing j hj
      exact ⟨h1, Nat.lt_succ_of_lt h2, h3⟩ }

/-- `pop` on an empty channel whose sender is open. -/
theorem popWait (h : Fifo v) (ho : v.senderClosed = false) (hr : v.ready = []) :
    Fifo { v with
      waiting := v.waiting ++ [v.popped]
      popped := v.popped + 1
      got := Function.update v.got v.popped none } := by
  have hb := h.bound
  rw [← h.fresh v.popped (Nat.le_refl _), Function.update_eq_self]
  exact { h with
    bound := Nat.le_succ_of_le hb
    waiting := by
      have hsub : v.popped + 1 - v.assigned.length = (v.popped - v.assigned.length) + 1 := by omega
      have hlast : v.assigned.length + (v.popped - v.assigned.length) = v.popped := by omega
      have := h.waiting
      rw [ho, if_neg (by simp)] at this
      simp [ho, this, hsub, List.range'_concat, hlast]
    buffered := fun hne => absurd hr hne
    fresh := fun j hj => h.fresh j (by simp at hj; omega)
    closing := fun j hj => absurd (h.closing j hj).2.2.1 (by simp [ho]) }

/-- `closeSender`, with the parked receivers in `notify`. -/
theorem closeSender (h : Fifo v) (ho : v.senderClosed = false) (hr : v.waiting ≠ [] → v.ready = []) :
    Fifo { v with senderClosed := true, waiting := [], closing := v.waiting } :=
  { h with
    waiting := rfl
    empty := fun j hj => absurd (h.empty j hj).2.1 (by simp [ho])
    closing := by
      intro j hj
      have hw := h.waiting
      rw [ho, if_neg (by simp)] at hw
      have hmem : j ∈ v.waiting := hj
      have hne : v.waiting ≠ [] := List.ne_nil_of_mem hmem
      rw [hw, List.mem_range'_1] at hmem
      have hb := h.bound
      exact ⟨hmem.1, by simp only; omega, rfl, hr hne⟩ }

/-- `receiver->set_value({})` in `closeSender`. -/
theorem notifyReceiver (h : Fifo v) {k : Nat} {rest : List Nat} (hc : v.closing = k :: rest) :
    Fifo { v with closing := rest, got := Function.update v.got k (some none) } := by
  have hk := h.closing k (by simp [hc])
  exact { h with
    fresh := by
      intro j hj
      dsimp only
      rw [Function.update_of_ne (by simp at hj; omega)]
      exact h.fresh j hj
    got := h.got_nullopt k
    served := h.served_nullopt hk.1
    handing := h.handing_nullopt hk.1
    empty := by
      intro j hj
      by_cases hjk : j = k
      · subst hjk; exact ⟨hk.1, hk.2.2⟩
      · simp only [Function.update_of_ne hjk] at hj
        exact h.empty j hj
    closing := fun j hj => h.closing j (by rw [hc]; exact List.mem_cons_of_mem _ hj) }

end Fifo
/-! ## The invariant over runs -/

theorem fifo_init : Fifo (init : State T).flow where
  split := rfl
  ordered := .nil
  genuine := fun _ h => by cases h
  numbered := fun _ h => by cases h
  bound := Nat.le_refl _
  waiting := rfl
  buffered := fun h => absurd rfl h
  fresh := fun _ _ => rfl
  got := fun _ _ h => by cases h
  served := fun _ _ h => by cases h
  handing := fun _ _ h => by cases h
  empty := fun _ h => by cases h
  closing := fun _ h => by cases h

theorem step_fifo {s s' : State T} {a : Act T} (h : Fifo s.flow) (hst : step s a = some s') : Fifo s'.flow := by
  have hnew : s.flow.handing s.flow.pushed = none := look_out (Nat.le_refl _)
  cases step_cases hst with
  | @direct val _ _ hopen hr hw =>
    have := h.direct val hopen hw
    simpa [flow_eq, look_append] using this
  | @refuse val hopen hr hw =>
    have := h.refuse val hnew
    simpa [flow_eq, look_append] using this
  | @buffer val _ hopen hr hw hp =>
    have := h.buffer val hopen hw hnew
    simpa [flow_eq, look_append] using this
  | @handOver i k val _ _ _ hq hp hnone =>
    have hv : s.flow.val i = some val := look_of_get hq
    have hi : s.flow.handing i = some k := look_of_get hq
    have := h.handOver hv hi
    simpa [flow_eq, look_set (f := PushCall.receiver) hq, look_set_same hq,
      look_set hp] using this
  | pushReturn hq => simpa [flow_eq, look_set_same hq] using h
  | popValue hopen hr =>
    have := h.popValue hr
    simpa [flow_eq, look_append] using this
  | popEmpty hopen hr hc hw =>
    have := h.popEmpty hc hr
    simpa [flow_eq, look_append] using this
  | popWait hopen hr ho =>
    have := h.popWait ho hr
    simpa [flow_eq, look_append] using this
  | wakeSender hp hq hnone =>
    simpa [flow_eq, look_set_same hp, look_set_same hq] using h
  | popReturn hp => simpa [flow_eq, look_set_same hp] using h
  | resize hpos hn hquiet => exact h
  | notifyResized hr hq hnone => simpa [flow_eq, look_set_same hq] using h
  | closeSender hopen hw hr => exact h.closeSender hopen hr
  | notifyReceiver hc hp hnone =>
    have := h.notifyReceiver hc
    simpa [flow_eq, look_set hp] using this
  | closeReceiver hopen hw => exact h
  | notifySender hc hq hnone => simpa [flow_eq, look_set_same hq] using h

/-! ## Results -/

variable {ok : State T → Act T → Prop} {s : State T}

theorem fifo_reachable (h : Reachable step ok init s) : Fifo s.flow :=
  h.invariant (I := fun s => Fifo s.flow) fifo_init (fun _ _ _ hI _ hst => step_fifo hI hst)

/-- A push call is accepted, or it saw the receiver closed. -/
theorem accepted_or_refused (h : Reachable step ok init s) {i : Nat} {x : T} (hx : s.val i = some x) :
    (i, x) ∈ s.accepted ∨ s.sent i = some false ∧ s.chan.mReceiverClosed = true := by
  refine h.invariant (I := fun s => ∀ i x, s.val i = some x →
    (i, x) ∈ s.accepted ∨ s.sent i = some false ∧ s.chan.mReceiverClosed = true) ?_ ?_ i x hx
  · intro i x hx
    simp [init, State.val, look] at hx
  · intro s a s' hI _ hst i x hx
    have hg := step_grows hst
    rcases hg.fate i x hx with hx | hx
    · rcases hI i x hx with hx | ⟨hx, hc⟩
      · exact .inl (hg.accepted.subset hx)
      · exact .inr ⟨hg.sent i _ hx, hg.receiverClosed hc⟩
    · exact hx

/-- The values the first `n` pops have obtained, in the order of their sections. -/
def State.obtained (s : State T) (n : Nat) : List (Nat × T) := (s.pops.take n).filterMap (fun p => p.self.join)

theorem obtained_eq (h : Fifo s.flow) : ∀ n, (∀ k, k < n → k < s.pops.length → s.got k ≠ none) →
    s.obtained n = s.assigned.take n
  | 0, _ => rfl
  | n + 1, hdone => by
    have ih := obtained_eq h n (fun k hk => hdone k (by omega))
    by_cases hn : n < s.pops.length
    · have hget : s.pops[n]? = some s.pops[n] := List.getElem?_eq_getElem hn
      have hobt : s.obtained (n + 1) = s.obtained n ++ (s.pops[n].self.join).toList := by
        rw [State.obtained, List.take_add_one, hget, List.filterMap_append]
        cases hj : s.pops[n].self.join <;> simp [State.obtained, hj]
      rw [hobt, ih]
      match hg : s.got n with
      | none => exact absurd hg (hdone n (by omega) hn)
      | some (some x) =>
        have hx : s.assigned[n]? = some x := h.got n x hg
        rw [State.got, look_of_get hget] at hg
        rw [List.take_add_one, hx, hg]
        rfl
      | some none =>
        have hle : s.assigned.length ≤ n := (h.empty n hg).1
        rw [State.got, look_of_get hget] at hg
        rw [hg, List.take_of_length_le hle, List.take_of_length_le (by omega)]
        simp
    · have hb : s.assigned.length ≤ s.pops.length := h.bound
      have hobt : s.obtained (n + 1) = s.obtained n := by
        rw [State.obtained, State.obtained, List.take_of_length_le (by omega), List.take_of_length_le (by omega)]
      rw [hobt, ih, List.take_of_length_le (by omega), List.take_of_length_le (by omega)]

theorem obtained_prefix (h : Fifo s.flow) {n : Nat} (hdone : ∀ k, k < n → k < s.pops.length → s.got k ≠ none) :
    s.obtained n <+: s.accepted := by
  have hsplit : s.accepted = s.assigned ++ s.chan.mReadyData := h.split
  rw [obtained_eq h n hdone, hsplit]
  exact (List.take_prefix n _).trans (List.prefix_append _ _)

/-- **A lossless, duplicate-free FIFO.** The `k`-th pop gets the `k`-th accepted element, and what the first
`n` pops have obtained, once they are all completed, is a prefix of the accepted elements; no element goes to
two pops; an empty optional says that the sender is closed and every accepted element is assigned to an
earlier pop, which has it or will be handed it. The accepted elements are those of the push calls that did
not see the receiver closed, in the order of the calls. -/
theorem lossless_fifo (h : Reachable step ok init s) :
    (∀ k x, s.got k = some (some x) → s.accepted[k]? = some x) ∧
    (∀ n, (∀ k, k < n → k < s.pops.length → s.got k ≠ none) → s.obtained n <+: s.accepted) ∧
    (∀ k k' x x', s.got k = some (some x) → s.got k' = some (some x') → x.1 = x'.1 → k = k') ∧
    (∀ k, s.got k = some none → s.chan.mSenderClosed = true ∧ ∀ x ∈ s.accepted, ∃ j < k,
      s.got j = some (some x) ∨ s.got j = none ∧ s.handing x.1 = some j) ∧
    (s.accepted.map Prod.fst).Pairwise (· < ·) ∧
    (∀ i x, s.val i = some x → (i, x) ∈ s.accepted ∨ s.sent i = some false ∧ s.chan.mReceiverClosed = true) ∧
    (∀ x ∈ s.accepted, s.val x.1 = some x.2) := by
  have hf := fifo_reachable h
  have hsplit : s.accepted = s.assigned ++ s.chan.mReadyData := hf.split
  have hget : ∀ k x, s.got k = some (some x) → s.accepted[k]? = some x := by
    intro k x hk
    have hx : s.assigned[k]? = some x := hf.got k x hk
    rw [hsplit, List.getElem?_append_left (List.getElem?_eq_some_iff.1 hx).1]
    exact hx
  refine ⟨hget, fun n hn => obtained_prefix hf hn, fun k k' x x' hk hk' htag => ?_, fun k hk => ?_, hf.ordered,
    fun i x hx => accepted_or_refused h hx, hf.genuine⟩
  · obtain ⟨hlt, hkx⟩ := List.getElem?_eq_some_iff.1 (hget k x hk)
    obtain ⟨hlt', hkx'⟩ := List.getElem?_eq_some_iff.1 (hget k' x' hk')
    have hnodup : (s.accepted.map Prod.fst).Nodup := hf.ordered.imp Nat.ne_of_lt
    have hlt1 : k < (s.accepted.map Prod.fst).length := by simpa using hlt
    have hlt2 : k' < (s.accepted.map Prod.fst).length := by simpa using hlt'
    exact (List.Nodup.getElem_inj_iff hnodup).1 (show (s.accepted.map Prod.fst)[k] = (s.accepted.map Prod.fst)[k'] by
      simp [hkx, hkx', htag])
  · obtain ⟨hle, hclosed, hready⟩ := hf.empty k hk
    refine ⟨hclosed, fun x hx => ?_⟩
    have hready' : s.chan.mReadyData = [] := hready
    rw [hsplit, hready', List.append_nil] at hx
    obtain ⟨j, hj⟩ := List.mem_iff_getElem?.1 hx
    have hlt : j < s.assigned.length := (List.getElem?_eq_some_iff.1 hj).1
    exact ⟨j, Nat.lt_of_lt_of_le hlt hle, hf.served j x hj⟩

/-- Two parked receivers are handed `5` and `6`, a third `pop` finds the sender closed. -/
def handOverSchedule : List (Act Nat) :=
  [.pop, .pop, .push 5, .push 6, .handOver 1, .pushReturn 1, .handOver 0, .pushReturn 0, .popReturn 1, .closeSender,
    .pop, .popReturn 0, .popReturn 2, .closeReceiver]

theorem lossless_fifo_handOver :
    ∃ s : State Nat, Reachable step disciplined init s ∧ s.obtained 3 = [(0, 5), (1, 6)] ∧
      s.obtained 3 <+: s.accepted ∧ s.accepted[1]? = some (1, 6) := by
  have hrun := exec_get_run step disciplined (init : State Nat) handOverSchedule (by decide)
  have h := lossless_fifo ⟨_, hrun⟩
  exact ⟨_, ⟨_, hrun⟩, by decide, h.2.1 3 (by decide), h.1 1 _ (by decide)⟩

end CoAwait.BufferedChannel
