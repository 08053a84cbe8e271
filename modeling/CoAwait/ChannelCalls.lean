import CoAwait.ChannelClients

/-!
# `BufferedChannel`: the calls that have not returned

What each step does to them, for users of the channel who keep account of their own calls.

* `State.pushOpen`, `State.popOpen`: the calls in progress.
* `PushesKept`, `PopsKept`: what the steps of the other side leave alone.
-/

namespace CoAwait.BufferedChannel

open Runs Table

variable {T : Type} {s s' : State T} {a : Act T} {i j k : Nat}

def State.pushOpen (s : State T) : Nat → Prop := Blank (fun q => if q.returned then some () else none) s.pushes

def State.popOpen (s : State T) : Nat → Prop := Blank (fun p => if p.returned then some () else none) s.pops

def State.vals (s : State T) : List T := s.pushes.map PushCall.val

/-- A step of a `push` call. -/
def Act.pushSide : Act T → Bool
  | .push _ | .handOver _ | .pushReturn _ => true
  | _ => false

/-- A step of a `pop` call. -/
def Act.popSide : Act T → Bool
  | .pop | .wakeSender _ | .popReturn _ => true
  | _ => false

structure PushesKept (s s' : State T) : Prop where
  open_ : ∀ i, s'.pushOpen i ↔ s.pushOpen i
  handing : s'.handing = s.handing
  vals : s'.vals = s.vals

structure PopsKept (s s' : State T) : Prop where
  open_ : ∀ k, s'.popOpen k ↔ s.popOpen k
  waking : s'.waking = s.waking
  length : s'.pops.length = s.pops.length

theorem PushesKept.refl (s : State T) : PushesKept s s := ⟨fun _ => Iff.rfl, rfl, rfl⟩

theorem PopsKept.refl (s : State T) : PopsKept s s := ⟨fun _ => Iff.rfl, rfl, rfl⟩

/-- Completing a `push` call. -/
theorem PushesKept.complete {q : PushCall T} {b : Bool} (hq : s.pushes[i]? = some q)
    (hs : s'.pushes = s.pushes.set i { q with self := some b }) : PushesKept s s' where
  open_ := by
    intro j
    simp only [State.pushOpen, hs]
    exact blank_set_same hq (by rfl)
  handing := by simp [State.handing, hs, look_set_same hq]
  vals := by
    simp only [State.vals, hs]
    exact map_set_same hq rfl

theorem PopsKept.complete {p : PopCall T} {r : Option (Nat × T)} (hp : s.pops[k]? = some p)
    (hs : s'.pops = s.pops.set k { p with self := some r }) : PopsKept s s' where
  open_ := by
    intro j
    simp only [State.popOpen, hs]
    exact blank_set_same hp (by rfl)
  waking := by simp [State.waking, hs, look_set_same hp]
  length := by simp [hs]

theorem step_pushesKept (hst : step s a = some s') (ha : a.pushSide = false) : PushesKept s s' := by
  cases step_cases hst with
  | direct | refuse | buffer | handOver | pushReturn => cases ha
  | wakeSender hp hq hnone => exact .complete hq rfl
  | notifyResized hr hq hnone => exact .complete hq rfl
  | notifySender hc hq hnone => exact .complete hq rfl
  | _ => exact ⟨fun _ => Iff.rfl, rfl, rfl⟩

theorem step_popsKept (hst : step s a = some s') (ha : a.popSide = false) : PopsKept s s' := by
  cases step_cases hst with
  | popValue | popEmpty | popWait | wakeSender | popReturn => cases ha
  | handOver hq hp hnone => exact .complete hp rfl
  | notifyReceiver hc hp hnone => exact .complete hp rfl
  | _ => exact ⟨fun _ => Iff.rfl, rfl, rfl⟩

/-! ## `push` calls -/

theorem push_open {val : T} (hst : step s (.push val) = some s') :
    (s'.pushOpen j ↔ j = s.pushes.length ∨ s.pushOpen j) ∧ s'.vals = s.vals ++ [val] ∧
      (s'.handing j ≠ none → j = s.pushes.length ∨ s.handing j ≠ none) := by
  cases step_cases hst with
  | direct | refuse | buffer =>
    refine ⟨by simp [State.pushOpen, blank_append], by simp [State.vals], fun hh => ?_⟩
    obtain ⟨k, hk⟩ := Option.ne_none_iff_exists'.1 hh
    rcases of_look_append hk with ⟨hj, -⟩ | hk
    · exact .inl hj
    · exact .inr (by rw [State.handing, hk]; simp)

theorem push_needs_open {val : T} (hst : step s (.push val) = some s') : s.chan.mSenderClosed = false := by
  cases step_cases hst with
  | direct hopen => exact hopen
  | refuse hopen => exact hopen
  | buffer hopen => exact hopen

theorem handOver_open (hst : step s (.handOver i) = some s') :
    (s'.pushOpen j ↔ s.pushOpen j) ∧ s'.vals = s.vals ∧ s'.handing = Function.update s.handing i none := by
  cases step_cases hst with
  | handOver hq hp hnone =>
    refine ⟨?_, map_set_same hq rfl, ?_⟩
    · unfold State.pushOpen
      exact blank_set_same hq (by rfl)
    · rw [State.handing, look_set hq]
      rfl

theorem pushReturn_open (hst : step s (.pushReturn i) = some s') :
    (s'.pushOpen j ↔ s.pushOpen j ∧ j ≠ i) ∧ s'.vals = s.vals ∧ s'.handing = s.handing ∧ s.handing i = none ∧
      ∃ b, s.sent i = some b := by
  cases step_cases hst with
  | @pushReturn i val b hq =>
    exact ⟨blank_set hq (by simp), map_set_same hq rfl, look_set_same hq rfl, look_of_get hq, b, look_of_get hq⟩

/-! ## `pop` calls -/

theorem pop_open (hst : step s .pop = some s') :
    (s'.popOpen j ↔ j = s.pops.length ∨ s.popOpen j) ∧ (s'.waking j ≠ none → j = s.pops.length ∨ s.waking j ≠ none) ∧
      s'.pops.length = s.pops.length + 1 := by
  cases step_cases hst with
  | popValue | popEmpty | popWait =>
    refine ⟨by simp [State.popOpen, blank_append], fun hh => ?_, by simp⟩
    obtain ⟨k, hk⟩ := Option.ne_none_iff_exists'.1 hh
    rcases of_look_append hk with ⟨hj, -⟩ | hk
    · exact .inl hj
    · exact .inr (by rw [State.waking, hk]; simp)

theorem wakeSender_open (hst : step s (.wakeSender k) = some s') :
    (s'.popOpen j ↔ s.popOpen j) ∧ s'.waking = Function.update s.waking k none ∧ s'.pops.length = s.pops.length := by
  cases step_cases hst with
  | wakeSender hp hq hnone =>
    refine ⟨?_, ?_, by simp⟩
    · unfold State.popOpen
      exact blank_set_same hp (by rfl)
    · rw [State.waking, look_set hp]
      rfl

theorem popReturn_open (hst : step s (.popReturn k) = some s') :
    (s'.popOpen j ↔ s.popOpen j ∧ j ≠ k) ∧ s'.waking = s.waking ∧ s.waking k = none ∧ s.popOpen k ∧
      s'.pops.length = s.pops.length ∧ s.got k ≠ none := by
  cases step_cases hst with
  | popReturn hp =>
    refine ⟨blank_set hp (by simp), look_set_same hp rfl, look_of_get hp, blank_iff.2 ⟨_, hp, rfl⟩, by simp, ?_⟩
    rw [State.got, look_of_get hp]
    simp

theorem handOver_got (hst : step s (.handOver i) = some s') (hk : s.handing i = some k) : ∃ r, s'.got k = some r := by
  cases step_cases hst with
  | @handOver i k' val done returned p hq hp hnone =>
    obtain rfl : k' = k := by
      rw [State.handing, look_of_get hq] at hk
      exact Option.some.inj hk
    exact ⟨some (i, val), by simp [State.got, look_set hp]⟩

theorem notifyReceiver_got {rest : List Nat} (hst : step s .notifyReceiver = some s')
    (hk : s.senderClosing = k :: rest) :
    s'.got = Function.update s.got k (some none) ∧ s'.senderClosing = rest := by
  cases step_cases hst with
  | notifyReceiver hc hp hnone =>
    rw [hk] at hc
    cases hc
    exact ⟨look_set hp, rfl⟩

/-- A step that completes a `pop` call. -/
def Act.serves : Act T → Bool
  | .pop | .handOver _ | .notifyReceiver => true
  | _ => false

theorem got_kept (hst : step s a = some s') (ha : a.serves = false) : s'.got = s.got := by
  cases step_cases hst with
  | handOver | popValue | popEmpty | popWait | notifyReceiver => cases ha
  | popReturn hp => exact look_set_same hp rfl
  | wakeSender hp => exact look_set_same hp rfl
  | _ => rfl

/-- Different calls are completed with elements of different `push` calls. -/
theorem got_injective (hf : Fifo s.flow) {x y : Nat × T} (hj : s.got j = some (some x)) (hk : s.got k = some (some y))
    (htag : x.1 = y.1) : j = k := by
  have hnodup : (s.assigned.map Prod.fst).Nodup := by
    have hord : (s.accepted.map Prod.fst).Pairwise (· < ·) := hf.ordered
    have hsplit : s.accepted = s.assigned ++ s.chan.mReadyData := hf.split
    rw [hsplit, List.map_append, List.pairwise_append] at hord
    exact hord.1.imp Nat.ne_of_lt
  have hx : (s.assigned.map Prod.fst)[j]? = some x.1 := by
    rw [List.getElem?_map]
    exact congrArg _ (hf.got j x hj)
  have hy : (s.assigned.map Prod.fst)[k]? = some x.1 := by
    rw [List.getElem?_map, htag]
    exact congrArg _ (hf.got k y hk)
  exact (List.getElem?_inj (List.getElem?_eq_some_iff.1 hx).1 hnodup).1 (hx.trans hy.symm)

/-- A call that has returned was completed. -/
theorem Clients.got_of_returned (h : Clients s) (hk : k < s.pops.length) (hopen : ¬ s.popOpen k) : s.got k ≠ none := by
  have hp : s.pops[k]? = some s.pops[k] := List.getElem?_eq_getElem hk
  have hret : s.pops[k].returned = true := by
    by_contra hr
    exact hopen (blank_iff.2 ⟨_, hp, by simp [hr]⟩)
  rw [State.got, look_of_get hp]
  exact h.pops _ (List.mem_of_getElem? hp) hret

/-! ## The closings -/

theorem senderClosed_kept (hst : step s a = some s') (ha : a ≠ .closeSender) :
    s'.chan.mSenderClosed = s.chan.mSenderClosed := by
  cases step_cases hst with
  | closeSender => exact absurd rfl ha
  | _ => rfl

theorem closeSender_closed (hst : step s .closeSender = some s') : s'.chan.mSenderClosed = true := by
  cases step_cases hst with
  | closeSender => rfl

theorem senderClosing_kept (hst : step s a = some s') (ha : a ≠ .closeSender) (hn : a ≠ .notifyReceiver) :
    s'.senderClosing = s.senderClosing := by
  cases step_cases hst with
  | closeSender => exact absurd rfl ha
  | notifyReceiver => exact absurd rfl hn
  | _ => rfl

theorem receiverClosed_kept (hst : step s a = some s') (ha : a ≠ .closeReceiver) :
    s'.chan.mReceiverClosed = s.chan.mReceiverClosed := by
  cases step_cases hst with
  | closeReceiver => exact absurd rfl ha
  | _ => rfl

theorem closeReceiver_closed (hst : step s .closeReceiver = some s') : s'.chan.mReceiverClosed = true := by
  cases step_cases hst with
  | closeReceiver => rfl

theorem closeReceiver_closing (hst : step s .closeReceiver = some s') : s'.receiverClosing = s.chan.mWaitingSender := by
  cases step_cases hst with
  | closeReceiver => rfl

theorem receiverClosing_kept (hst : step s a = some s') (ha : a ≠ .closeReceiver) (hn : a ≠ .notifySender) :
    s'.receiverClosing = s.receiverClosing := by
  cases step_cases hst with
  | closeReceiver => exact absurd rfl ha
  | notifySender => exact absurd rfl hn
  | _ => rfl

/-- While no `push` call is in progress none is completed. -/
theorem sent_kept (h : Clients s) (hidle : ∀ i, ¬ s.pushOpen i) (hst : step s a = some s')
    (ha : ∀ val, a ≠ .push val) : s'.sent = s.sent := by
  have hrow : ∀ {i : Nat} {q : PushCall T}, s.pushes[i]? = some q → q.self ≠ none := fun {i q} hq => by
    refine h.pushes q (List.mem_of_getElem? hq) ?_
    by_contra hr
    exact hidle i (blank_iff.2 ⟨q, hq, by simp [hr]⟩)
  cases step_cases hst with
  | direct | refuse | buffer => exact absurd rfl (ha _)
  | handOver hq hp hnone => exact look_set_same hq rfl
  | pushReturn hq => exact look_set_same hq rfl
  | wakeSender hp hq hnone => exact absurd hnone (hrow hq)
  | notifyResized hr hq hnone => exact absurd hnone (hrow hq)
  | notifySender hc hq hnone => exact absurd hnone (hrow hq)
  | _ => rfl

/-! ## What is left to complete -/

def PushCall.hands (q : PushCall T) : Nat := if q.receiver.isSome then 1 else 0

def PopCall.wakes (p : PopCall T) : Nat := if p.sender.isSome then 1 else 0

/-- The completions that are still to come, each once: of the parked calls, of those taken off the deques and of
those a single call refers to. -/
def State.pending (s : State T) : Nat :=
  s.chan.mWaitingReceiver.length + s.senderClosing.length + s.chan.mWaitingSender.length + s.receiverClosing.length +
    (s.pushes.map PushCall.hands).sum + (s.pops.map PopCall.wakes).sum

def Act.enters : Act T → Nat
  | .push _ | .pop => 1
  | _ => 0

def Act.completes : Act T → Nat
  | .handOver _ | .wakeSender _ | .notifyReceiver | .notifySender => 1
  | _ => 0

/-- Completing a call leaves what it refers to. -/
theorem hands_complete {q : PushCall T} {b : Bool} (hq : s.pushes[i]? = some q) :
    (s.pushes.set i { q with self := some b }).map PushCall.hands = s.pushes.map PushCall.hands :=
  map_set_same hq rfl

theorem wakes_complete {p : PopCall T} {r : Option (Nat × T)} (hp : s.pops[k]? = some p) :
    (s.pops.set k { p with self := some r }).map PopCall.wakes = s.pops.map PopCall.wakes :=
  map_set_same hp rfl

theorem hands_done {val : T} {done : Option Bool} {returned : Bool}
    (hq : s.pushes[i]? = some ⟨val, done, some k, returned⟩) :
    ((s.pushes.set i ⟨val, done, none, returned⟩).map PushCall.hands).sum + 1 = (s.pushes.map PushCall.hands).sum :=
  sum_map_set (g := PushCall.hands) hq

theorem wakes_done {r : Option (Option (Nat × T))} {returned : Bool}
    (hp : s.pops[k]? = some ⟨r, some i, returned⟩) :
    ((s.pops.set k ⟨r, none, returned⟩).map PopCall.wakes).sum + 1 = (s.pops.map PopCall.wakes).sum :=
  sum_map_set (g := PopCall.wakes) hp

/-- A call adds at most one completion, and each completion is done once. -/
theorem step_pending (hst : step s a = some s') : s'.pending + a.completes ≤ s.pending + a.enters := by
  cases step_cases hst with
  | direct hopen hr hw => simp [State.pending, Act.completes, Act.enters, PushCall.hands, hw]; omega
  | refuse hopen hr hw => simp [State.pending, Act.completes, Act.enters, PushCall.hands]
  | @buffer val parked hopen hr hw hp =>
    cases parked with
    | true => simp [State.pending, Act.completes, Act.enters, PushCall.hands]; omega
    | false => simp [State.pending, Act.completes, Act.enters, PushCall.hands]
  | handOver hq hp hnone =>
    have hdone := hands_done hq
    simp only [State.pending, Act.completes, Act.enters, wakes_complete hp]
    omega
  | @pushReturn i val b hq =>
    have hsame : (s.pushes.set i ⟨val, some b, none, true⟩).map PushCall.hands = s.pushes.map PushCall.hands :=
      map_set_same hq rfl
    simp only [State.pending, Act.completes, Act.enters, hsame, Nat.le_refl]
  | popValue hopen hr =>
    cases hw : s.chan.mWaitingSender with
    | nil => simp [State.pending, Act.completes, Act.enters, PopCall.wakes, hw]
    | cons => simp [State.pending, Act.completes, Act.enters, PopCall.wakes, hw]; omega
  | popEmpty => simp [State.pending, Act.completes, Act.enters, PopCall.wakes]
  | popWait => simp [State.pending, Act.completes, Act.enters, PopCall.wakes]; omega
  | wakeSender hp hq hnone =>
    have hdone := wakes_done hp
    simp only [State.pending, Act.completes, Act.enters, hands_complete hq]
    omega
  | @popReturn k r hp =>
    have hsame : (s.pops.set k ⟨some r, none, true⟩).map PopCall.wakes = s.pops.map PopCall.wakes :=
      map_set_same hp rfl
    simp only [State.pending, Act.completes, Act.enters, hsame, Nat.le_refl]
  | resize hpos hn hquiet => simp [State.pending, Act.completes, Act.enters]
  | notifyResized hr hq hnone => simp only [State.pending, Act.completes, Act.enters, hands_complete hq, Nat.le_refl]
  | closeSender hopen hw hr => simp [State.pending, Act.completes, Act.enters]
  | notifyReceiver hc hp hnone =>
    simp only [State.pending, Act.completes, Act.enters, hc, wakes_complete hp, List.length_cons]
    omega
  | closeReceiver hopen hw => simp [State.pending, Act.completes, Act.enters, hw]
  | notifySender hc hq hnone =>
    simp only [State.pending, Act.completes, Act.enters, hc, hands_complete hq, List.length_cons]
    omega

end CoAwait.BufferedChannel
