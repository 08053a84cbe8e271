import CoAwait.Mutex

/-!
# `BaseMutex`: mutual exclusion, and no waiter is lost

The counter, the queue and the owner disagree in many intermediate states. What they agree on:

* `Balance`: the counter is the number of holders plus the number of counted waiters, and there is one
  holder or one `unlock` on its way to a waiter, or the mutex is free and nobody waits.
* `Queue`: `mWaiter` holds, each once, the suspended `lock` calls whose waiter has not been chosen by an
  `unlock`.
* `History`: what was enqueued is what was dequeued and what is still in `mWaiter`, each waiter once.
-/

namespace CoAwait.Mutex

open Runs Counting

/-! ## The counter -/

/-- The abstract mutex: how the counter relates to the numbers of waiting, holding and handing clients. -/
structure Balance (count : Int) (waiting holder handing : Nat) : Prop where
  counted : count = holder + waiting
  exclusive : holder + handing ≤ 1
  free : holder + handing = 0 → waiting = 0
  handed : handing = 1 → 0 < waiting

namespace Balance
variable {count : Int} {w h u : Nat}

theorem nonneg (b : Balance count w h u) : 0 ≤ count := by
  have := b.counted; omega

theorem acquire (b : Balance 0 w h u) : Balance 1 w (h + 1) u := by
  have h1 := b.counted; have h2 := b.exclusive; have h4 := b.handed
  refine ⟨?_, ?_, ?_, ?_⟩ <;> omega

theorem announce (b : Balance count w h u) (hpos : count ≠ 0) : Balance (count + 1) (w + 1) h u := by
  have h1 := b.counted; have h2 := b.exclusive; have h3 := b.free; have h4 := b.handed
  refine ⟨?_, ?_, ?_, ?_⟩ <;> omega

theorem release (b : Balance count w (h + 1) u) (hz : count - 1 = 0) : Balance (count - 1) w h u := by
  have h1 := b.counted; have h2 := b.exclusive; have h4 := b.handed
  refine ⟨?_, ?_, ?_, ?_⟩ <;> omega

theorem handOver (b : Balance count w (h + 1) u) (hz : count - 1 ≠ 0) : Balance (count - 1) w h (u + 1) := by
  have h1 := b.counted; have h2 := b.exclusive
  refine ⟨?_, ?_, ?_, ?_⟩ <;> omega

theorem complete (b : Balance count (w + 1) h (u + 1)) : Balance count w (h + 1) u := by
  have h1 := b.counted; have h2 := b.exclusive
  refine ⟨?_, ?_, ?_, ?_⟩ <;> omega

end Balance

variable {ι : Type}

/-- `mWaiter` and the suspended `lock` calls. -/
structure Queue (s : State ι) : Prop where
  nodup : s.mWaiter.Nodup
  parked : ∀ w ∈ s.mWaiter, s.pc w.1 = .lockAwait w.2 ∧ s.p w = false
  chosen : ∀ c w, s.pc c = .unlockSetValue w → w ∉ s.mWaiter ∧ s.pc w.1 = .lockAwait w.2 ∧ s.p w = false
  found : ∀ c n, s.pc c = .lockAwait n → s.p (c, n) = false →
    (c, n) ∈ s.mWaiter ∨ ∃ d, s.pc d = .unlockSetValue (c, n)

/-- The recorded accesses to `mWaiter`. -/
structure History (s : State ι) : Prop where
  fresh : ∀ c n, s.pc c = .lockAddToWaiter n → n < s.calls c ∧ (c, n) ∉ s.enqueued
  numbered : ∀ w ∈ s.enqueued, w.2 < s.calls w.1
  once : s.enqueued.Nodup
  split : s.enqueued.Perm (s.dequeued ++ s.mWaiter)
  done : ∀ w, s.p w = true ↔ w ∈ s.completed
  completedOnce : s.completed.Nodup
  completedDequeued : ∀ w ∈ s.completed, w ∈ s.dequeued
  chosenDequeued : ∀ c w, s.pc c = .unlockSetValue w → w ∈ s.dequeued

/-! ## Steps that only move a program counter -/

section
variable [DecidableEq ι] {s s' : State ι} {c : ι} {x : Pc ι}

@[simp] theorem setPc_pc_self : (s.setPc c x).pc c = x := by simp [State.setPc]

theorem setPc_pc_ne {d : ι} (h : d ≠ c) : (s.setPc c x).pc d = s.pc d := by simp [State.setPc, h]

theorem role_setPc_ne {d : ι} (h : d ≠ c) : (s.setPc c x).role d = s.role d := by
  simp only [State.role, setPc_pc_ne h]
  rfl

/-- The program counters that `Queue` speaks about. -/
def Pc.linked : Pc ι → Bool
  | .lockAwait _ | .unlockSetValue _ => true
  | _ => false

theorem Queue.setPc (q : Queue s) (hx : x.linked = false)
    (hold : ∀ n, s.pc c = .lockAwait n → s.p (c, n) = true) (hset : ∀ w, s.pc c ≠ .unlockSetValue w) :
    Queue (s.setPc c x) := by
  have stay : ∀ w : Waiter ι, s.pc w.1 = .lockAwait w.2 → s.p w = false → (s.setPc c x).pc w.1 = .lockAwait w.2 := by
    intro w hw hp
    by_cases hc : w.1 = c
    · rw [hc] at hw
      have := hold w.2 hw
      rw [← hc] at this
      exact absurd (this.symm.trans hp) (by simp)
    · rw [setPc_pc_ne hc]; exact hw
  refine ⟨q.nodup, fun w hw => ?_, fun d w hd => ?_, fun d n hd hp => ?_⟩
  · obtain ⟨h1, h2⟩ := q.parked w hw
    exact ⟨stay w h1 h2, h2⟩
  · by_cases hc : d = c
    · subst hc; rw [setPc_pc_self] at hd; subst hd; cases hx
    · rw [setPc_pc_ne hc] at hd
      obtain ⟨h1, h2, h3⟩ := q.chosen d w hd
      exact ⟨h1, stay w h2 h3, h3⟩
  · by_cases hc : d = c
    · subst hc; rw [setPc_pc_self] at hd; subst hd; cases hx
    · rw [setPc_pc_ne hc] at hd
      rcases q.found d n hd hp with h | ⟨e, he⟩
      · exact .inl h
      · refine .inr ⟨e, ?_⟩
        have hec : e ≠ c := by rintro rfl; exact hset _ he
        rw [setPc_pc_ne hec]; exact he

theorem Queue.setPcOf (q : Queue s) (hold : (s.pc c).linked = false) (hx : x.linked = false) : Queue (s.setPc c x) :=
  q.setPc hx (fun n hn => by rw [hn] at hold; cases hold) (fun w hw => by rw [hw] at hold; cases hold)

theorem History.setPc (h : History s) (hx : ∀ n, x ≠ .lockAddToWaiter n)
    (hx' : ∀ w, x = .unlockSetValue w → w ∈ s.dequeued) : History (s.setPc c x) :=
  { h with
    fresh := by
      intro d n hd
      by_cases hc : d = c
      · subst hc; rw [setPc_pc_self] at hd; exact absurd hd (hx n)
      · rw [setPc_pc_ne hc] at hd; exact h.fresh d n hd
    chosenDequeued := by
      intro d w hd
      by_cases hc : d = c
      · subst hc; rw [setPc_pc_self] at hd; exact hx' w hd
      · rw [setPc_pc_ne hc] at hd; exact h.chosenDequeued d w hd }

omit [DecidableEq ι] in
theorem History.not_done {w : Waiter ι} (h : History s) (hw : w ∉ s.enqueued) : s.p w = false := by
  rw [← Bool.not_eq_true, h.done]
  intro hc
  exact hw (h.split.mem_iff.2 (List.mem_append.2 (.inl (h.completedDequeued w hc))))

end

/-! ## The policies -/

theorem getNextWaiter_perm {policy : Policy} {l rest : List (Waiter ι)} {w : Waiter ι}
    (h : policy.getNextWaiter l = some (w, rest)) : l.Perm (w :: rest) := by
  cases policy with
  | fair =>
    cases l with
    | nil => cases h
    | cons a l => cases h; exact .refl _
  | highThroughput =>
    obtain ⟨a, ha, he⟩ := Option.map_eq_some_iff.1 h
    cases he
    have hl : l.dropLast ++ [w] = l := List.dropLast_append_getLast? w ha
    conv => lhs; rw [← hl]
    exact List.perm_append_singleton w _

theorem getNextWaiter_none {policy : Policy} {l : List (Waiter ι)} (h : policy.getNextWaiter l = none) : l = [] := by
  cases policy with
  | fair => cases l with
    | nil => rfl
    | cons => cases h
  | highThroughput => simpa [Policy.getNextWaiter] using h

theorem wrapInt_eq {k : Int} (h0 : 0 ≤ k) (h1 : k < 2 ^ 31) : wrapInt k = k :=
  Int.bmod_eq_of_le (by omega) (by omega)

/-! ## One step -/

structure Inv [Fintype ι] (s : State ι) : Prop where
  balance : Balance s.mCountOfWaiter (num s.role .waiting) (num s.role .holder) (num s.role .handing)
  few : s.clients < 2 ^ 31
  queue : Queue s
  history : History s

theorem inv_init [Fintype ι] : Inv (init : State ι) := by
  have h0 : ∀ r, r ≠ .outside → num (init : State ι).role r = 0 := fun r hr =>
    num_eq_zero_iff.2 fun c hc => hr hc.symm
  refine ⟨?_, ?_, ?_, ?_⟩
  · rw [h0 _ (by decide), h0 _ (by decide), h0 _ (by decide)]
    exact ⟨rfl, by decide, fun _ => rfl, by decide⟩
  · rw [State.clients, h0 _ (by decide), h0 _ (by decide), h0 _ (by decide), h0 _ (by decide)]
    decide
  · constructor <;> simp [init]
  · constructor <;> simp [init]

variable [DecidableEq ι] [Fintype ι] {s s' : State ι} {c : ι} {x : Pc ι}

/-- The numbers of clients in each role after client `c` has moved from role `a` to role `b`. -/
theorem nums_move {a b : Role} (ha : s.role c = a) (hb : s'.role c = b) (hne : ∀ d, d ≠ c → s'.role d = s.role d) :
    num s'.role .entering + (if a = .entering then 1 else 0) = num s.role .entering + (if b = .entering then 1 else 0) ∧
    num s'.role .waiting + (if a = .waiting then 1 else 0) = num s.role .waiting + (if b = .waiting then 1 else 0) ∧
    num s'.role .holder + (if a = .holder then 1 else 0) = num s.role .holder + (if b = .holder then 1 else 0) ∧
    num s'.role .handing + (if a = .handing then 1 else 0) = num s.role .handing + (if b = .handing then 1 else 0) :=
  ⟨num_move ha hb hne, num_move ha hb hne, num_move ha hb hne, num_move ha hb hne⟩

theorem num_setPc_same (hr : (s.setPc c x).role c = s.role c) (r : Role) : num (s.setPc c x).role r = num s.role r := by
  refine num_stay fun d => ?_
  by_cases hd : d = c
  · rw [hd, hr]
  · exact role_setPc_ne hd

/-- The client keeps its role. -/
theorem Inv.stay (h : Inv s) (hr : (s.setPc c x).role c = s.role c) (q : Queue (s.setPc c x))
    (hh : History (s.setPc c x)) : Inv (s.setPc c x) := by
  have hn := num_setPc_same hr
  refine ⟨?_, ?_, q, hh⟩
  · rw [hn, hn, hn]; exact h.balance
  · rw [State.clients, hn, hn, hn, hn]; exact h.few

theorem Inv.plain (h : Inv s) (hold : (s.pc c).linked = false) (hx : x.linked = false)
    (hadd : ∀ n, x ≠ .lockAddToWaiter n) (hr : (s.setPc c x).role c = s.role c) : Inv (s.setPc c x) :=
  h.stay hr (h.queue.setPcOf hold hx) (h.history.setPc hadd (fun w hw => by rw [hw] at hx; cases hx))

/-- A call of `lock` or `try_lock` begins. -/
theorem Inv.enter (h : Inv s) (hp : s.pc c = .idle) (hx : x.linked = false) (hadd : ∀ n, x ≠ .lockAddToWaiter n)
    (hr : (s.setPc c x).role c = .entering) (hfew : s.clients + 1 < 2 ^ 31) : Inv (s.setPc c x) := by
  have hr0 : s.role c = .outside := by rw [State.role, hp]
  obtain ⟨he, hw, hh, hu⟩ := nums_move hr0 hr fun _ hd => role_setPc_ne hd
  simp only [reduceCtorEq, ite_false, ite_true, Nat.add_zero] at he hw hh hu
  refine ⟨?_, ?_, h.queue.setPcOf (by rw [hp]; rfl) hx, h.history.setPc hadd (fun w hw => by rw [hw] at hx; cases hx)⟩
  · rw [hw, hh, hu]; exact h.balance
  · unfold State.clients at hfew ⊢
    omega

/-- `try_lock` fails. -/
theorem Inv.giveUp (h : Inv s) (hp : s.pc c = .tryLock) : Inv (s.setPc c .idle) := by
  have hr0 : s.role c = .entering := by rw [State.role, hp]
  have hr : (s.setPc c .idle).role c = .outside := by simp [State.role]
  obtain ⟨he, hw, hh, hu⟩ := nums_move hr0 hr fun _ hd => role_setPc_ne hd
  simp only [reduceCtorEq, ite_false, ite_true, Nat.add_zero] at he hw hh hu
  refine ⟨?_, ?_, h.queue.setPcOf (by rw [hp]; rfl) rfl, h.history.setPc (by simp) (by simp)⟩
  · rw [hw, hh, hu]; exact h.balance
  · have := h.few
    unfold State.clients at this ⊢
    omega

/-- The compare-exchange succeeds. -/
theorem Inv.acquire (h : Inv s) (hc : s.mCountOfWaiter = 0) (hr0 : s.role c = .entering)
    (hp : (s.pc c).linked = false) : Inv ({ s with mCountOfWaiter := 1 }.setPc c .holding) := by
  have hr : (s.setPc c .holding).role c = .holder := by simp [State.role]
  obtain ⟨he, hw, hh, hu⟩ := nums_move hr0 hr fun _ hd => role_setPc_ne hd
  simp only [reduceCtorEq, ite_false, ite_true, Nat.add_zero] at he hw hh hu
  have q := h.queue.setPcOf (x := .holding) hp rfl
  have hist := h.history.setPc (c := c) (x := .holding) (by simp) (by simp)
  refine ⟨?_, ?_, ⟨q.nodup, q.parked, q.chosen, q.found⟩, { hist with }⟩
  · show Balance 1 (num (s.setPc c .holding).role .waiting) (num (s.setPc c .holding).role .holder)
      (num (s.setPc c .holding).role .handing)
    rw [hw, hh, hu]
    exact (hc ▸ h.balance).acquire
  · show (s.setPc c .holding).clients < 2 ^ 31
    have := h.few
    unfold State.clients at this ⊢
    omega

omit [DecidableEq ι] in
theorem Inv.count_lt (h : Inv s) (hr0 : s.role c = .entering) : s.mCountOfWaiter + 1 < 2 ^ 31 := by
  have h1 := h.balance.counted
  have h2 := h.few
  have h3 : 0 < num s.role .entering := num_pos_iff.2 ⟨c, hr0⟩
  unfold State.clients at h2
  omega

theorem lockFetchAdd_inv (h : Inv s) (hp : s.pc c = .lockFetchAdd) : Inv (lockFetchAdd s c) := by
  have hr0 : s.role c = .entering := by rw [State.role, hp]
  have h0 := h.balance.nonneg
  unfold lockFetchAdd
  rw [wrapInt_eq (by omega) (h.count_lt hr0)]
  dsimp only
  split
  case isTrue h1 =>
    rw [h1]
    exact h.acquire (by omega) hr0 (by rw [hp]; rfl)
  case isFalse h1 =>
    have hnew : (c, s.calls c) ∉ s.enqueued := fun hm => Nat.lt_irrefl _ (h.history.numbered _ hm)
    have hp0 : s.p (c, s.calls c) = false := h.history.not_done hnew
    have hr : (s.setPc c (.lockAddToWaiter (s.calls c))).role c = .waiting := by
      simp only [State.role, setPc_pc_self]
      exact if_neg (by rw [Bool.not_eq_true]; exact hp0)
    obtain ⟨he, hw, hh, hu⟩ := nums_move hr0 hr fun _ hd => role_setPc_ne hd
    simp only [reduceCtorEq, ite_false, ite_true, Nat.add_zero] at he hw hh hu
    have q := h.queue.setPcOf (x := .lockAddToWaiter (s.calls c)) (by rw [hp]; rfl) rfl
    refine ⟨?_, ?_, ⟨q.nodup, q.parked, q.chosen, q.found⟩,
      { h.history with fresh := ?_, numbered := ?_, chosenDequeued := ?_ }⟩
    · show Balance (s.mCountOfWaiter + 1) (num (s.setPc c _).role .waiting) (num (s.setPc c _).role .holder)
        (num (s.setPc c _).role .handing)
      rw [hw, hh, hu]
      exact h.balance.announce (by omega)
    · show (s.setPc c _).clients < 2 ^ 31
      have := h.few
      unfold State.clients at this ⊢
      omega
    · intro d n hd
      by_cases hc : d = c
      · subst hc
        obtain rfl : s.calls d = n := by simpa [State.setPc] using hd
        exact ⟨by simp, hnew⟩
      · simp only [State.setPc, ne_eq, hc, not_false_eq_true, Function.update_of_ne] at hd ⊢
        exact h.history.fresh d n hd
    · intro w hw
      have := h.history.numbered w hw
      by_cases hc : w.1 = c
      · rw [hc] at this; simp [hc]; omega
      · simpa [hc] using this
    · intro d w hd
      have hc : d ≠ c := by rintro rfl; simp [State.setPc] at hd
      exact h.history.chosenDequeued d w ((setPc_pc_ne hc).symm.trans hd)

/-- `addToWaiter`: the counted client becomes visible in the queue. -/
theorem addToWaiter_inv (h : Inv s) {n : Nat} (policy : Policy) (hp : s.pc c = .lockAddToWaiter n) :
    Inv { s.setPc c (.lockAwait n) with
      mWaiter := policy.addToWaiter s.mWaiter (c, n), enqueued := s.enqueued ++ [(c, n)] } := by
  obtain ⟨hlt, hnew⟩ := h.history.fresh c n hp
  have hp0 : s.p (c, n) = false := h.history.not_done hnew
  have hr : (s.setPc c (.lockAwait n)).role c = s.role c := by
    simp only [State.role, setPc_pc_self, hp]
    rfl
  have hw : (c, n) ∉ s.mWaiter := fun hm =>
    hnew (h.history.split.mem_iff.2 (List.mem_append.2 (.inr hm)))
  have other : ∀ w : Waiter ι, s.pc w.1 = .lockAwait w.2 → (s.setPc c (.lockAwait n)).pc w.1 = .lockAwait w.2 := by
    intro w hw
    have hc : w.1 ≠ c := by intro hc; rw [hc, hp] at hw; cases hw
    rw [setPc_pc_ne hc]; exact hw
  have hn := num_setPc_same hr
  refine ⟨?_, ?_, ?_, ?_⟩
  · show Balance s.mCountOfWaiter (num (s.setPc c _).role _) (num (s.setPc c _).role _) (num (s.setPc c _).role _)
    rw [hn, hn, hn]
    exact h.balance
  · show (s.setPc c _).clients < 2 ^ 31
    rw [State.clients, hn, hn, hn, hn]
    exact h.few
  · refine ⟨?_, fun w hw' => ?_, fun d w hd => ?_, fun d m hd hpd => ?_⟩
    · exact List.nodup_append.2 ⟨h.queue.nodup, List.nodup_singleton _, fun a ha b hb => by
        obtain rfl : b = (c, n) := by simpa using hb
        rintro rfl; exact hw ha⟩
    · rcases List.mem_append.1 hw' with hm | hm
      · obtain ⟨h1, h2⟩ := h.queue.parked w hm
        exact ⟨other w h1, h2⟩
      · obtain rfl : w = (c, n) := by simpa using hm
        exact ⟨setPc_pc_self, hp0⟩
    · have hdc : d ≠ c := by rintro rfl; simp [State.setPc] at hd
      have hd' : s.pc d = .unlockSetValue w := (setPc_pc_ne hdc).symm.trans hd
      obtain ⟨h1, h2, h3⟩ := h.queue.chosen d w hd'
      refine ⟨fun hm => ?_, other w h2, h3⟩
      rcases List.mem_append.1 hm with hm | hm
      · exact h1 hm
      · obtain rfl : w = (c, n) := by simpa using hm
        rw [hp] at h2; cases h2
    · by_cases hdc : d = c
      · subst hdc
        obtain rfl : n = m := by simpa [State.setPc] using hd
        exact .inl (List.mem_append.2 (.inr (by simp)))
      · rcases h.queue.found d m ((setPc_pc_ne hdc).symm.trans hd) hpd with hm | ⟨e, he⟩
        · exact .inl (List.mem_append.2 (.inl hm))
        · have hec : e ≠ c := by rintro rfl; rw [hp] at he; cases he
          exact .inr ⟨e, (setPc_pc_ne hec).trans he⟩
  · refine { h.history with fresh := ?_, numbered := ?_, once := ?_, split := ?_, chosenDequeued := ?_ }
    · intro d m hd
      have hdc : d ≠ c := by rintro rfl; simp [State.setPc] at hd
      obtain ⟨h1, h2⟩ := h.history.fresh d m ((setPc_pc_ne hdc).symm.trans hd)
      refine ⟨h1, fun hm => ?_⟩
      rcases List.mem_append.1 hm with hm | hm
      · exact h2 hm
      · obtain rfl : d = c := (by simpa using hm : d = c ∧ _).1
        exact hdc rfl
    · intro w hw'
      rcases List.mem_append.1 hw' with hm | hm
      · exact h.history.numbered w hm
      · obtain rfl : w = (c, n) := by simpa using hm
        exact hlt
    · exact List.nodup_append.2 ⟨h.history.once, List.nodup_singleton _, fun a ha b hb => by
        obtain rfl : b = (c, n) := by simpa using hb
        rintro rfl; exact hnew ha⟩
    · show (s.enqueued ++ [(c, n)]).Perm (s.dequeued ++ (s.mWaiter ++ [(c, n)]))
      rw [← List.append_assoc]
      exact h.history.split.append_right _
    · intro d w hd
      have hdc : d ≠ c := by rintro rfl; simp [State.setPc] at hd
      exact h.history.chosenDequeued d w ((setPc_pc_ne hdc).symm.trans hd)

/-- `await(p)` returns. -/
theorem await_inv (h : Inv s) {n : Nat} (hp : s.pc c = .lockAwait n) (hd : s.p (c, n) = true) :
    Inv (s.setPc c .holding) := by
  refine h.stay ?_ (h.queue.setPc rfl (fun m hm => ?_) (by simp [hp])) (h.history.setPc (by simp) (by simp))
  · simp [State.role, hp, hd]
  · obtain rfl : n = m := by simpa [hp] using hm
    exact hd

theorem unlockFetchSub_inv (h : Inv s) (hp : s.pc c = .unlockFetchSub) : Inv (unlockFetchSub s c) := by
  have hr0 : s.role c = .holder := by rw [State.role, hp]
  have hpos : 0 < num s.role .holder := num_pos_iff.2 ⟨c, hr0⟩
  have hcount := h.balance.counted
  have hbound : s.mCountOfWaiter < 2 ^ 31 := by
    have := h.few
    unfold State.clients at this
    omega
  obtain ⟨k, hk⟩ := Nat.exists_eq_succ_of_ne_zero (Nat.pos_iff_ne_zero.1 hpos)
  have hb := h.balance
  rw [hk] at hb
  unfold unlockFetchSub
  rw [wrapInt_eq (by omega) (by omega)]
  dsimp only
  split
  case isTrue hz =>
    have hr : (s.setPc c .idle).role c = .outside := by simp [State.role]
    obtain ⟨he, hw, hh, hu⟩ := nums_move hr0 hr fun _ hd => role_setPc_ne hd
    simp only [reduceCtorEq, ite_false, ite_true, Nat.add_zero] at he hw hh hu
    have q := h.queue.setPcOf (x := .idle) (by rw [hp]; rfl) rfl
    have hist := h.history.setPc (c := c) (x := .idle) (by simp) (by simp)
    refine ⟨?_, ?_, ⟨q.nodup, q.parked, q.chosen, q.found⟩, { hist with }⟩
    · show Balance (s.mCountOfWaiter - 1) (num (s.setPc c _).role _) (num (s.setPc c _).role _)
        (num (s.setPc c _).role _)
      rw [hw, hu, show num (s.setPc c .idle).role .holder = k by omega]
      exact hb.release hz
    · show (s.setPc c _).clients < 2 ^ 31
      have := h.few
      unfold State.clients at this ⊢
      omega
  case isFalse hz =>
    have hr : (s.setPc c .unlockSearch).role c = .handing := by simp [State.role]
    obtain ⟨he, hw, hh, hu⟩ := nums_move hr0 hr fun _ hd => role_setPc_ne hd
    simp only [reduceCtorEq, ite_false, ite_true, Nat.add_zero] at he hw hh hu
    have q := h.queue.setPcOf (x := .unlockSearch) (by rw [hp]; rfl) rfl
    have hist := h.history.setPc (c := c) (x := .unlockSearch) (by simp) (by simp)
    refine ⟨?_, ?_, ⟨q.nodup, q.parked, q.chosen, q.found⟩, { hist with }⟩
    · show Balance (s.mCountOfWaiter - 1) (num (s.setPc c _).role _) (num (s.setPc c _).role _)
        (num (s.setPc c _).role _)
      rw [hw, hu, show num (s.setPc c .unlockSearch).role .holder = k by omega]
      exact hb.handOver hz
    · show (s.setPc c _).clients < 2 ^ 31
      have := h.few
      unfold State.clients at this ⊢
      omega

/-- `getNextWaiter` finds a successor. -/
theorem unlockSearch_inv (h : Inv s) {policy : Policy} {next : Waiter ι} {rest : List (Waiter ι)}
    (hp : s.pc c = .unlockSearch) (hnext : policy.getNextWaiter s.mWaiter = some (next, rest)) :
    Inv { s.setPc c (.unlockSetValue next) with mWaiter := rest, dequeued := s.dequeued ++ [next] } := by
  have hperm := getNextWaiter_perm hnext
  obtain ⟨hnotin, hnodup⟩ := List.nodup_cons.1 (hperm.nodup h.queue.nodup)
  obtain ⟨hpark, hp0⟩ := h.queue.parked next (hperm.mem_iff.2 (by simp))
  have hr : (s.setPc c (.unlockSetValue next)).role c = s.role c := by simp [State.role, hp]
  have hn := num_setPc_same hr
  have other : ∀ {d : ι} {y : Pc ι}, s.pc d = y → y ≠ .unlockSearch → (s.setPc c (.unlockSetValue next)).pc d = y := by
    intro d y hd hy
    have hdc : d ≠ c := by rintro rfl; exact hy (hd.symm.trans hp)
    rw [setPc_pc_ne hdc]; exact hd
  refine ⟨?_, ?_, ?_, ?_⟩
  · show Balance s.mCountOfWaiter (num (s.setPc c _).role _) (num (s.setPc c _).role _) (num (s.setPc c _).role _)
    rw [hn, hn, hn]
    exact h.balance
  · show (s.setPc c _).clients < 2 ^ 31
    rw [State.clients, hn, hn, hn, hn]
    exact h.few
  · refine ⟨hnodup, fun w hw => ?_, fun d w hd => ?_, fun d m hd hpd => ?_⟩
    · obtain ⟨h1, h2⟩ := h.queue.parked w (hperm.mem_iff.2 (List.mem_cons_of_mem _ hw))
      exact ⟨other h1 (by simp), h2⟩
    · by_cases hdc : d = c
      · subst hdc
        obtain rfl : next = w := by simpa [State.setPc] using hd
        exact ⟨hnotin, other hpark (by simp), hp0⟩
      · obtain ⟨h1, h2, h3⟩ := h.queue.chosen d w ((setPc_pc_ne hdc).symm.trans hd)
        exact ⟨fun hm => h1 (hperm.mem_iff.2 (List.mem_cons_of_mem _ hm)), other h2 (by simp), h3⟩
    · have hdc : d ≠ c := by rintro rfl; simp [State.setPc] at hd
      rcases h.queue.found d m ((setPc_pc_ne hdc).symm.trans hd) hpd with hm | ⟨e, he⟩
      · rcases List.mem_cons.1 (hperm.mem_iff.1 hm) with hm | hm
        · exact .inr ⟨c, by rw [hm]; exact setPc_pc_self⟩
        · exact .inl hm
      · exact .inr ⟨e, other he (by simp)⟩
  · refine { h.history with fresh := ?_, split := ?_, completedDequeued := ?_, chosenDequeued := ?_ }
    · intro d m hd
      have hdc : d ≠ c := by rintro rfl; simp [State.setPc] at hd
      exact h.history.fresh d m ((setPc_pc_ne hdc).symm.trans hd)
    · show s.enqueued.Perm (s.dequeued ++ [next] ++ rest)
      rw [List.append_assoc]
      exact h.history.split.trans (hperm.append_left _)
    · exact fun w hw => List.mem_append.2 (.inl (h.history.completedDequeued w hw))
    · intro d w hd
      by_cases hdc : d = c
      · subst hdc
        obtain rfl : next = w := by simpa [State.setPc] using hd
        exact List.mem_append.2 (.inr (by simp))
      · exact List.mem_append.2 (.inl (h.history.chosenDequeued d w ((setPc_pc_ne hdc).symm.trans hd)))

omit [DecidableEq ι] in
/-- Only one `unlock` at a time is on its way to a waiter. -/
theorem Inv.handing_unique (h : Inv s) {d : ι} (hc : s.role c = .handing) (hd : s.role d = .handing) : c = d :=
  eq_of_num_le_one (by have := h.balance.exclusive; omega) hc hd

omit [Fintype ι] in
theorem role_setValue_ne {w : Waiter ι} {d : ι} (hd : d ≠ w.1) : (setValue s w).role d = s.role d := by
  have hp : ∀ n, (setValue s w).p (d, n) = s.p (d, n) := fun n =>
    Function.update_of_ne (fun he => hd (congrArg Prod.fst he)) _ _
  simp only [State.role, hp]
  rfl

/-- `set_value` makes the chosen client the holder. -/
theorem unlockSetValue_inv (h : Inv s) {next : Waiter ι} (hp : s.pc c = .unlockSetValue next) :
    Inv ((setValue s next).setPc c .idle) := by
  obtain ⟨hnotin, hpark, hp0⟩ := h.queue.chosen c next hp
  have hrc : s.role c = .handing := by rw [State.role, hp]
  have hne : c ≠ next.1 := by intro he; rw [← he, hp] at hpark; cases hpark
  have hr0 : s.role next.1 = .waiting := by
    simp only [State.role, hpark]
    exact if_neg (by rw [Bool.not_eq_true]; exact hp0)
  have hr1 : (setValue s next).role next.1 = .holder := by
    have hpc : (setValue s next).pc next.1 = .lockAwait next.2 := hpark
    simp only [State.role, hpc]
    exact if_pos (by simp [setValue])
  have hr2 : (setValue s next).role c = .handing := (role_setValue_ne hne).trans hrc
  have hr3 : ((setValue s next).setPc c .idle).role c = .outside := by simp [State.role]
  obtain ⟨he, hw, hh, hu⟩ := nums_move hr0 hr1 fun _ hd => role_setValue_ne hd
  obtain ⟨he', hw', hh', hu'⟩ := nums_move hr2 hr3 fun _ hd => role_setPc_ne hd
  simp only [reduceCtorEq, ite_false, ite_true, Nat.add_zero] at he hw hh hu he' hw' hh' hu'
  have other : ∀ {d : ι} {n : Nat}, s.pc d = .lockAwait n → ((setValue s next).setPc c .idle).pc d = .lockAwait n := by
    intro d n hd
    have hdc : d ≠ c := by rintro rfl; rw [hp] at hd; cases hd
    rw [setPc_pc_ne hdc]; exact hd
  have hold : ∀ {w : Waiter ι}, w ≠ next → (setValue s next).p w = s.p w := fun hw =>
    Function.update_of_ne hw _ _
  refine ⟨?_, ?_, ⟨h.queue.nodup, fun w hw => ?_, fun d w hd => ?_, fun d m hd hpd => ?_⟩, ?_⟩
  · have hb := h.balance
    rw [← hw, ← hu, ← hu'] at hb
    rw [hw', hh', hh]
    exact hb.complete
  · have := h.few
    unfold State.clients at this ⊢
    omega
  · obtain ⟨h1, h2⟩ := h.queue.parked w hw
    exact ⟨other h1, (hold (by rintro rfl; exact hnotin hw)).trans h2⟩
  · have hdc : d ≠ c := by rintro rfl; simp [State.setPc] at hd
    have hd' : s.pc d = .unlockSetValue w := (setPc_pc_ne hdc).symm.trans hd
    exact absurd (h.handing_unique (by rw [State.role, hd']) hrc) hdc
  · have hdc : d ≠ c := by rintro rfl; simp [State.setPc] at hd
    have hdn : (d, m) ≠ next := by rintro rfl; simp [setValue, State.setPc] at hpd
    rcases h.queue.found d m ((setPc_pc_ne hdc).symm.trans hd) ((hold hdn).symm.trans hpd) with hm | ⟨e, he⟩
    · exact .inl hm
    · obtain rfl : e = c := h.handing_unique (by rw [State.role, he]) hrc
      rw [hp] at he
      exact absurd (by simpa using he.symm) hdn
  · have hnew : next ∉ s.completed := by rw [← h.history.done]; simp [hp0]
    have hist := h.history.setPc (c := c) (x := .idle) (by simp) (by simp)
    refine { hist with done := fun w => ?_, completedOnce := ?_, completedDequeued := fun w hw => ?_ }
    · show (setValue s next).p w = true ↔ w ∈ s.completed ++ [next]
      by_cases hw : w = next
      · subst hw; simp [setValue]
      · rw [hold hw, h.history.done]; simp [hw]
    · exact List.nodup_append.2 ⟨h.history.completedOnce, List.nodup_singleton _, fun a ha b hb => by
        obtain rfl : b = next := by simpa using hb
        rintro rfl; exact hnew ha⟩
    · rcases List.mem_append.1 hw with hm | hm
      · exact h.history.completedDequeued w hm
      · obtain rfl : w = next := by simpa using hm
        exact h.history.chosenDequeued c w hp

/-! ## Every step -/

theorem casWeak_inv (h : Inv s) {spurious : Bool} (hr0 : s.role c = .entering) (hp : (s.pc c).linked = false)
    {e k : Int} (hcas : casWeak spurious s.mCountOfWaiter = (true, e, k)) :
    Inv ({ s with mCountOfWaiter := k }.setPc c .holding) := by
  unfold casWeak at hcas
  split at hcas
  case isTrue hz =>
    cases hcas
    exact h.acquire hz.1 hr0 hp
  case isFalse => cases hcas

theorem runStep_inv (h : Inv s) {policy : Policy} {spurious : Bool} (hst : runStep policy s c spurious = some s') :
    Inv s' := by
  unfold runStep at hst
  split at hst
  case h_1 => cases hst
  case h_2 => cases hst
  case h_3 i hp =>
    have hr0 : s.role c = .entering := by rw [State.role, hp]
    have hl : (s.pc c).linked = false := by rw [hp]; rfl
    split at hst
    case h_1 e k hcas =>
      cases hst
      exact casWeak_inv h hr0 hl hcas
    case h_2 =>
      split at hst <;> cases hst
      · exact h.plain hl rfl (by simp) (by rw [hr0]; simp [State.role])
      · exact h.plain hl rfl (by simp) (by rw [hr0]; simp [State.role])
  case h_4 hp =>
    cases hst
    exact lockFetchAdd_inv h hp
  case h_5 n hp =>
    cases hst
    exact addToWaiter_inv h policy hp
  case h_6 n hp =>
    split at hst <;> cases hst
    rename_i hd
    exact await_inv h hp hd
  case h_7 hp =>
    split at hst <;> cases hst
    case h_1 e k hcas =>
      exact casWeak_inv h (by rw [State.role, hp]) (by rw [hp]; rfl) hcas
    case h_2 => exact h.giveUp hp
  case h_8 hp =>
    cases hst
    exact unlockFetchSub_inv h hp
  case h_9 hp =>
    split at hst <;> cases hst
    case h_1 => exact h
    case h_2 next rest hnext => exact unlockSearch_inv h hp hnext
  case h_10 next hp =>
    cases hst
    exact unlockSetValue_inv h hp

/-- **One step of one client keeps the invariant.** -/
theorem inv_step {policy : Policy} {a : Act ι} (h : Inv s) (hok : fewClients s a) (hst : step policy s a = some s') :
    Inv s' := by
  cases a with
  | lock c =>
    simp only [step] at hst
    split at hst <;> cases hst
    rename_i hp
    exact h.enter hp rfl (by simp) (by simp [State.role]) hok
  | tryLock c =>
    simp only [step] at hst
    split at hst <;> cases hst
    rename_i hp
    exact h.enter hp rfl (by simp) (by simp [State.role]) hok
  | unlock c =>
    simp only [step] at hst
    split at hst <;> cases hst
    rename_i hp
    exact h.plain (by rw [hp]; rfl) rfl (by simp) (by simp [State.role, hp])
  | run c spurious => exact runStep_inv h hst

theorem inv_reachable {policy : Policy} (h : Reachable (step policy) fewClients init s) : Inv s :=
  h.invariant inv_init (fun _ _ _ => inv_step)

/-! ## Mutual exclusion -/

/-- **At most one client holds the mutex**, nobody does while an `unlock` is on its way to a waiter, and
the counter is the number of holders plus the number of waiting `lock` calls. -/
theorem mutual_exclusion {policy : Policy} (h : Reachable (step policy) fewClients init s) :
    (∀ c d, s.role c = .holder → s.role d = .holder → c = d) ∧
    (∀ c d, s.role c = .handing → s.role d ≠ .holder) ∧
    s.mCountOfWaiter = num s.role .holder + num s.role .waiting := by
  have hI := inv_reachable h
  have hex := hI.balance.exclusive
  refine ⟨fun c d hc hd => eq_of_num_le_one (by omega) hc hd, fun c d hc hd => ?_, hI.balance.counted⟩
  have h1 : 0 < num s.role .handing := num_pos_iff.2 ⟨c, hc⟩
  have h2 : 0 < num s.role .holder := num_pos_iff.2 ⟨d, hd⟩
  omega

/-- Client 0 locks, client 1 finds the mutex taken and enqueues itself, client 0 starts to unlock. -/
def handOverSchedule : List (Act (Fin 2)) :=
  [.lock 0, .run 0 false, .lock 1] ++ List.replicate 10 (.run 1 false) ++ [.unlock 0, .run 0 false]

theorem mutual_exclusion_handOver :
    ∃ s : State (Fin 2), Run (step .fair) fewClients init handOverSchedule s ∧ s.role 0 = .handing ∧
      s.mWaiter = [(1, 0)] ∧ s.role 1 ≠ .holder ∧ s.mCountOfWaiter = num s.role .holder + num s.role .waiting := by
  have hrun := exec_get_run (step .fair) fewClients (init : State (Fin 2)) handOverSchedule (by decide)
  have h := mutual_exclusion ⟨_, hrun⟩
  exact ⟨_, hrun, by decide, by decide, h.2.1 0 1 (by decide), h.2.2⟩

/-- The counter neither leaves `int` nor becomes negative: `assert(expected >= 0)` and
`assert(waitingCount >= 0)` hold. -/
theorem counter_in_range {policy : Policy} (h : Reachable (step policy) fewClients init s) :
    0 ≤ s.mCountOfWaiter ∧ s.mCountOfWaiter < 2 ^ 31 ∧
      ∀ c, s.pc c = .unlockFetchSub → 0 ≤ wrapInt (s.mCountOfWaiter - 1) := by
  have hI := inv_reachable h
  have hb := hI.balance.counted
  have hf := hI.few
  unfold State.clients at hf
  refine ⟨hI.balance.nonneg, by omega, fun c hc => ?_⟩
  have hpos : 0 < num s.role .holder := num_pos_iff.2 ⟨c, by rw [State.role, hc]⟩
  rw [wrapInt_eq (by omega) (by omega)]
  omega

/-! ## No waiter is lost -/

omit [Fintype ι] [DecidableEq ι] in
theorem getNextWaiter_isSome {policy : Policy} {l : List (Waiter ι)} (h : l ≠ []) :
    (policy.getNextWaiter l).isSome = true := by
  cases hn : policy.getNextWaiter l with
  | some => rfl
  | none => exact absurd (getNextWaiter_none hn) h

omit [DecidableEq ι] in
/-- An `unlock` that searches an empty queue: some counted client is about to enqueue itself. -/
theorem Inv.announced (h : Inv s) (hp : s.pc c = .unlockSearch) (hempty : s.mWaiter = []) :
    ∃ d n, s.pc d = .lockAddToWaiter n := by
  have hrc : s.role c = .handing := by rw [State.role, hp]
  have hone : num s.role .handing = 1 := by
    have h1 : 0 < num s.role .handing := num_pos_iff.2 ⟨c, hrc⟩
    have := h.balance.exclusive
    omega
  obtain ⟨d, hd⟩ := num_pos_iff.1 (h.balance.handed hone)
  unfold State.role at hd
  split at hd
  case h_5 n hpd => exact ⟨d, n, hpd⟩
  case h_6 n hpd =>
    split at hd
    · cases hd
    · rename_i hdone
      rcases h.queue.found d n hpd (by simpa using hdone) with hm | ⟨e, he⟩
      · rw [hempty] at hm; cases hm
      · obtain rfl : e = c := h.handing_unique (by rw [State.role, he]) hrc
        rw [hp] at he; cases he
  all_goals cases hd

omit [DecidableEq ι] in
/-- No client holds the mutex and no `unlock` is on its way: then nobody waits. -/
theorem Inv.nobody_waits (h : Inv s) (hfree : ∀ c, s.role c ≠ .holder) (hno : ∀ c, s.role c ≠ .handing) :
    s.mCountOfWaiter = 0 ∧ ∀ c, s.role c ≠ .waiting := by
  have h1 := num_eq_zero_iff.2 hfree
  have h2 := num_eq_zero_iff.2 hno
  have h3 := h.balance.free (by omega)
  have h4 := h.balance.counted
  exact ⟨by omega, num_eq_zero_iff.1 h3⟩

omit [Fintype ι] in
/-- A client without a next step, while nobody holds the mutex, is idle or suspended in `lock`. -/
theorem pending_of_run {policy : Policy} (hrun : runStep policy s c false = none) (hfree : s.role c ≠ .holder) :
    s.pc c = .idle ∨ ∃ n, s.pc c = .lockAwait n ∧ s.p (c, n) = false := by
  cases hp : s.pc c with
  | idle => exact .inl rfl
  | lockAwait n =>
    cases hd : s.p (c, n) with
    | false => exact .inr ⟨n, rfl, hd⟩
    | true => exact absurd (by simp [State.role, hp, hd]) hfree
  | holding => exact absurd (by simp [State.role, hp]) hfree
  | lockCas i =>
    simp only [runStep, hp] at hrun
    split at hrun
    · cases hrun
    · split at hrun <;> cases hrun
  | tryLock =>
    simp only [runStep, hp] at hrun
    split at hrun <;> cases hrun
  | unlockSearch =>
    simp only [runStep, hp] at hrun
    split at hrun <;> cases hrun
  | lockFetchAdd | lockAddToWaiter | unlockFetchSub | unlockSetValue => simp [runStep, hp] at hrun

/-- **`BaseMutex` never loses a waiter.** -/
theorem no_lost_waiter {policy : Policy} (h : Reachable (step policy) fewClients init s) :
    (∀ c, s.pc c = .unlockSearch → s.mWaiter = [] → ∃ d n s', s.pc d = .lockAddToWaiter n ∧
      step policy s (.run d false) = some s' ∧ (policy.getNextWaiter s'.mWaiter).isSome = true) ∧
    (s.mWaiter.Nodup ∧ ∀ w ∈ s.mWaiter, s.pc w.1 = .lockAwait w.2) ∧
    (s.enqueued.Nodup ∧ s.dequeued.Nodup ∧ s.completed.Nodup ∧
      (∀ w ∈ s.completed, w ∈ s.dequeued) ∧ ∀ w ∈ s.dequeued, w ∈ s.enqueued) ∧
    ((∀ c, s.role c ≠ .holder) → (∀ c, step policy s (.run c false) = none) →
      s.mCountOfWaiter = 0 ∧ s.mWaiter = [] ∧ ∀ c, s.pc c = .idle) := by
  have hI := inv_reachable h
  have hsplit := hI.history.split
  have honce := hsplit.nodup hI.history.once
  refine ⟨fun c hc hempty => ?_, ⟨hI.queue.nodup, fun w hw => (hI.queue.parked w hw).1⟩,
    ⟨hI.history.once, (List.nodup_append.1 honce).1, hI.history.completedOnce, hI.history.completedDequeued,
      fun w hw => hsplit.mem_iff.2 (List.mem_append.2 (.inl hw))⟩, fun hfree hstop => ?_⟩
  · obtain ⟨d, n, hd⟩ := hI.announced hc hempty
    refine ⟨d, n, _, hd, by simp only [step, runStep, hd]; rfl, getNextWaiter_isSome ?_⟩
    simp [Policy.addToWaiter]
  · have hpend := fun c => pending_of_run (hstop c) (hfree c)
    have hno : ∀ c, s.role c ≠ .handing := by
      intro c hc
      rcases hpend c with hp | ⟨n, hp, hd⟩
      · rw [State.role, hp] at hc; cases hc
      · simp [State.role, hp, hd] at hc
    obtain ⟨hzero, hwait⟩ := hI.nobody_waits hfree hno
    have hidle : ∀ c, s.pc c = .idle := by
      intro c
      rcases hpend c with hp | ⟨n, hp, hd⟩
      · exact hp
      · exact absurd (by simp [State.role, hp, hd]) (hwait c)
    refine ⟨hzero, List.eq_nil_iff_forall_not_mem.2 fun w hw => ?_, hidle⟩
    have := (hI.queue.parked w hw).1
    rw [hidle] at this
    cases this

/-- Client 1 is counted but not yet enqueued when client 0 starts to search. -/
def searchSchedule : List (Act (Fin 2)) :=
  [.lock 0, .run 0 false, .lock 1] ++ List.replicate 9 (.run 1 false) ++ [.unlock 0, .run 0 false, .run 0 false]

theorem no_lost_waiter_search :
    ∃ s : State (Fin 2), Run (step .highThroughput) fewClients init searchSchedule s ∧ s.pc 0 = .unlockSearch ∧
      s.mWaiter = [] ∧ ∃ d n, s.pc d = .lockAddToWaiter n := by
  have hrun := exec_get_run (step .highThroughput) fewClients (init : State (Fin 2)) searchSchedule (by decide)
  obtain ⟨d, n, -, hd, -⟩ := (no_lost_waiter ⟨_, hrun⟩).1 0 (by decide) (by decide)
  exact ⟨_, hrun, by decide, by decide, d, n, hd⟩

end CoAwait.Mutex
