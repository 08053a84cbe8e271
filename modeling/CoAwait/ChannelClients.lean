import CoAwait.ChannelOrder
import CoAwait.Tokens

/-!
# `BufferedChannel`: no client is stranded

* `State.senders`, `State.receivers`: where the futures of suspended calls are referenced: in the deques, or by
  somebody who still has to complete them. Each is referenced once (`Sole`), so none is completed twice and
  none is forgotten.
* `Clients`: what the deques say about each other.
* `no_client_stranded`: in every reachable state, and no assertion fails on the way (`State.due`).
-/

namespace CoAwait.BufferedChannel

open Runs Table Tokens

variable {T : Type} {s s' : State T} {a : Act T}

/-! ## Who refers to a suspended call -/

inductive SenderPlace where
  | waiting
  | waking (k : Nat)
  | resized (r : Nat)
  | closing
deriving DecidableEq

/-- The sender a pop still has to wake. -/
def State.waking (s : State T) : Nat → Option Nat := look PopCall.sender s.pops

def State.senders (s : State T) : SenderPlace → List Nat
  | .waiting => s.chan.mWaitingSender
  | .waking k => (s.waking k).toList
  | .resized r => (s.resized[r]?).getD []
  | .closing => s.receiverClosing

inductive ReceiverPlace where
  | waiting
  | handing (i : Nat)
  | closing
deriving DecidableEq

def State.receivers (s : State T) : ReceiverPlace → List Nat
  | .waiting => s.chan.mWaitingReceiver
  | .handing i => (s.handing i).toList
  | .closing => s.senderClosing

/-- Push call `i` has left its section and is not completed. -/
def State.unsent (s : State T) : Nat → Prop := Blank PushCall.self s.pushes

/-- Pop call `k` has left its section and is not completed. -/
def State.unserved (s : State T) : Nat → Prop := Blank PopCall.self s.pops

/-- What the deques and the closings say about each other. -/
structure Clients (s : State T) : Prop where
  senders : Sole s.senders s.unsent
  receivers : Sole s.receivers s.unserved
  /-- Each pop takes an element and at most one sender, each from the front. -/
  parked : s.chan.mWaitingSender.Sublist (s.chan.mReadyData.map Prod.fst)
  open_ : s.chan.mWaitingReceiver ≠ [] → s.chan.mSenderClosed = false ∧ s.chan.mReceiverClosed = false
  accepting : s.chan.mWaitingSender ≠ [] → s.chan.mReceiverClosed = false
  closingSender : s.chan.mSenderClosed = false → s.senderClosing = []
  closingReceiver : s.chan.mReceiverClosed = false → s.receiverClosing = []
  pushes : ∀ q ∈ s.pushes, q.returned = true → q.self ≠ none
  pops : ∀ p ∈ s.pops, p.returned = true → p.self ≠ none

/-! ## Steps -/

theorem State.unsent.row {i : Nat} (h : s.unsent i) : ∃ q, s.pushes[i]? = some q ∧ q.self = none := blank_iff.1 h

theorem State.unserved.row {k : Nat} (h : s.unserved k) : ∃ p, s.pops[k]? = some p ∧ p.self = none := blank_iff.1 h

/-- Nobody but the steps that wake, resize or close touches the senders outside of `mWaitingSender`. -/
theorem step_senders (h : Clients s) (hst : step s a = some s') : Sole s'.senders s'.unsent := by
  have hs := h.senders
  cases step_cases hst with
  | direct hopen hr hw | refuse hopen hr hw =>
    refine hs.congr (fun p y => ?_) (fun y => ?_)
    · cases p <;> rfl
    · simp [State.unsent, blank_append]
  | @buffer val parked hopen hr hw hp =>
    cases parked with
    | false =>
      refine hs.congr (fun p y => ?_) (fun y => ?_)
      · cases p <;> simp [State.senders, State.waking]
      · simp [State.unsent, blank_append]
    | true =>
      refine hs.add (x := s.pushes.length) (p := .waiting) (fun hb => Nat.lt_irrefl _ hb.1) (fun y => ?_)
        (fun p hp => ?_) (fun y => ?_)
      · simp [State.senders, List.count_singleton]
      · cases p with
        | waiting => exact absurd rfl hp
        | _ => rfl
      · simp [State.unsent, blank_append]
  | handOver hq hp hnone =>
    refine hs.congr (fun p y => ?_) (fun y => ?_)
    · cases p <;> simp [State.senders, State.waking, look_set_same hp]
    · simp [State.unsent, blank_set_same hq]
  | pushReturn hq =>
    refine hs.congr (fun p y => ?_) (fun y => ?_)
    · cases p <;> rfl
    · simp [State.unsent, blank_set_same hq]
  | @popValue x rest hopen hr =>
    cases hw : s.chan.mWaitingSender with
    | nil =>
      refine hs.congr (fun p y => ?_) (fun y => Iff.rfl)
      cases p with
      | waking k => simp [State.senders, State.waking, look_append_none]
      | _ => simp [State.senders, hw]
    | cons w ws =>
      refine hs.transfer (p := .waiting) (q := .waking s.pops.length) (by simp) (fun y => ?_) (fun p hp hp' => ?_)
        (fun y => Iff.rfl)
      · simp [State.senders, State.waking, look_append, look_out (Nat.le_refl _), hw, List.count_cons]
      · cases p with
        | waiting => exact absurd rfl hp
        | waking k =>
          have hk : k ≠ s.pops.length := fun he => hp' (he ▸ rfl)
          simp [State.senders, State.waking, look_append, hk]
        | _ => rfl
  | popEmpty hopen hr hc hw | popWait hopen hr ho =>
    refine hs.congr (fun p y => ?_) (fun y => Iff.rfl)
    cases p with
    | waking k => simp [State.senders, State.waking, look_append_none]
    | _ => rfl
  | @wakeSender k w r returned q hp hq hnone =>
    refine hs.drop (x := w) (p := .waking k) (fun y => ?_) (fun p hp' => ?_) (fun y => ?_)
    · simp [State.senders, State.waking, look_set hp, look_of_get hp, List.count_singleton]
    · cases p with
      | waking k' =>
        have hk : k' ≠ k := fun he => hp' (he ▸ rfl)
        simp [State.senders, State.waking, look_set hp, hk]
      | _ => rfl
    · simp [State.unsent, blank_set hq]
  | popReturn hp =>
    refine hs.congr (fun p y => ?_) (fun y => Iff.rfl)
    cases p <;> simp [State.senders, State.waking, look_set_same hp]
  | @resize cnt n notify hpos hn hquiet =>
    refine hs.transfer (p := .waiting) (q := .resized s.resized.length) (by simp) (fun y => ?_) (fun p hp hp' => ?_)
      (fun y => Iff.rfl)
    · have hsplit := congrArg (List.count y) (List.take_append_drop n s.chan.mWaitingSender)
      rw [List.count_append] at hsplit
      simp [State.senders, hn]
      omega
    · cases p with
      | waiting => exact absurd rfl hp
      | resized r =>
        have hr : r ≠ s.resized.length := fun he => hp' (he ▸ rfl)
        simp only [State.senders]
        rcases Nat.lt_or_gt_of_ne hr with hlt | hgt
        · rw [List.getElem?_append_left hlt]
        · rw [List.getElem?_eq_none (by simp; omega), List.getElem?_eq_none (by omega)]
      | _ => rfl
  | @notifyResized r w rest q hr hq hnone =>
    have hlt : r < s.resized.length := (List.getElem?_eq_some_iff.1 hr).1
    refine hs.drop (x := w) (p := .resized r) (fun y => ?_) (fun p hp => ?_) (fun y => ?_)
    · rw [State.senders, State.senders, hr, List.getElem?_set_self hlt]
      simp [List.count_cons]
    · cases p with
      | resized r' =>
        have hr' : r ≠ r' := fun he => hp (he ▸ rfl)
        simp [State.senders, hr']
      | _ => rfl
    · simp [State.unsent, blank_set hq]
  | closeSender hopen hw hr =>
    refine hs.congr (fun p y => ?_) (fun y => Iff.rfl)
    cases p <;> rfl
  | notifyReceiver hc hp hnone =>
    refine hs.congr (fun p y => ?_) (fun y => Iff.rfl)
    cases p <;> simp [State.senders, State.waking, look_set_same hp]
  | closeReceiver hopen hw =>
    refine hs.transfer (p := .waiting) (q := .closing) (by simp) (fun y => ?_) (fun p hp hp' => ?_) (fun y => Iff.rfl)
    · simp [State.senders, h.closingReceiver hopen]
    · cases p with
      | waiting => exact absurd rfl hp
      | closing => exact absurd rfl hp'
      | _ => rfl
  | @notifySender w rest q hc hq hnone =>
    refine hs.drop (x := w) (p := .closing) (fun y => ?_) (fun p hp => ?_) (fun y => ?_)
    · simp [State.senders, hc, List.count_cons]
    · cases p with
      | closing => exact absurd rfl hp
      | _ => rfl
    · simp [State.unsent, blank_set hq]

theorem step_receivers (h : Clients s) (hst : step s a = some s') : Sole s'.receivers s'.unserved := by
  have hs := h.receivers
  have hnew : s.handing s.pushes.length = none := look_out (Nat.le_refl _)
  cases step_cases hst with
  | @direct val k rest hopen hr hw =>
    refine hs.transfer (p := .waiting) (q := .handing s.pushes.length) (by simp) (fun y => ?_) (fun p hp hp' => ?_)
      (fun y => Iff.rfl)
    · rw [State.receivers, State.receivers, State.receivers, State.receivers, hnew, hw, List.count_cons]
      simp [State.handing, look_append, List.count_singleton]
    · cases p with
      | waiting => exact absurd rfl hp
      | handing i =>
        have hi : i ≠ s.pushes.length := fun he => hp' (he ▸ rfl)
        simp [State.receivers, State.handing, look_append, hi]
      | closing => rfl
  | refuse hopen hr hw | buffer hopen hr hw hp =>
    refine hs.congr (fun p y => ?_) (fun y => Iff.rfl)
    cases p with
    | handing i => simp [State.receivers, State.handing, look_append_none]
    | _ => rfl
  | @handOver i k val done returned p hq hp hnone =>
    refine hs.drop (x := k) (p := .handing i) (fun y => ?_) (fun p hp' => ?_) (fun y => ?_)
    · simp [State.receivers, State.handing, look_set hq, look_of_get hq, List.count_singleton]
    · cases p with
      | handing i' =>
        have hi : i' ≠ i := fun he => hp' (he ▸ rfl)
        simp [State.receivers, State.handing, look_set hq, hi]
      | _ => rfl
    · simp [State.unserved, blank_set hp]
  | pushReturn hq =>
    refine hs.congr (fun p y => ?_) (fun y => Iff.rfl)
    cases p <;> simp [State.receivers, State.handing, look_set_same hq]
  | popValue hopen hr | popEmpty hopen hr hc hw =>
    refine hs.congr (fun p y => ?_) (fun y => ?_)
    · cases p <;> rfl
    · simp [State.unserved, blank_append]
  | popWait hopen hr ho =>
    refine hs.add (x := s.pops.length) (p := .waiting) (fun hb => Nat.lt_irrefl _ hb.1) (fun y => ?_)
      (fun p hp => ?_) (fun y => ?_)
    · simp [State.receivers, List.count_singleton]
    · cases p with
      | waiting => exact absurd rfl hp
      | _ => rfl
    · simp [State.unserved, blank_append]
  | wakeSender hp hq hnone =>
    refine hs.congr (fun p y => ?_) (fun y => ?_)
    · cases p <;> simp [State.receivers, State.handing, look_set_same hq]
    · simp [State.unserved, blank_set_same hp]
  | popReturn hp =>
    refine hs.congr (fun p y => ?_) (fun y => ?_)
    · cases p <;> rfl
    · simp [State.unserved, blank_set_same hp]
  | resize hpos hn hquiet =>
    refine hs.congr (fun p y => ?_) (fun y => Iff.rfl)
    cases p <;> rfl
  | notifyResized hr hq hnone | notifySender hc hq hnone =>
    refine hs.congr (fun p y => ?_) (fun y => Iff.rfl)
    cases p <;> simp [State.receivers, State.handing, look_set_same hq]
  | closeSender hopen hw hr =>
    refine hs.transfer (p := .waiting) (q := .closing) (by simp) (fun y => ?_) (fun p hp hp' => ?_) (fun y => Iff.rfl)
    · simp [State.receivers, h.closingSender hopen]
    · cases p with
      | waiting => exact absurd rfl hp
      | closing => exact absurd rfl hp'
      | handing i => rfl
  | @notifyReceiver k rest p hc hp hnone =>
    refine hs.drop (x := k) (p := .closing) (fun y => ?_) (fun p hp' => ?_) (fun y => ?_)
    · simp [State.receivers, hc, List.count_cons]
    · cases p with
      | closing => exact absurd rfl hp'
      | _ => rfl
    · simp [State.unserved, blank_set hp]
  | closeReceiver hopen hw =>
    refine hs.congr (fun p y => ?_) (fun y => Iff.rfl)
    cases p <;> rfl

theorem rows_append {ρ : Type} {P : ρ → Prop} {rows : List ρ} {r : ρ} (h : ∀ x ∈ rows, P x) (hr : P r) :
    ∀ x ∈ rows ++ [r], P x :=
  List.forall_mem_append.2 ⟨h, List.forall_mem_singleton.2 hr⟩

theorem rows_set {ρ : Type} {P : ρ → Prop} {rows : List ρ} {i : Nat} {r : ρ} (h : ∀ x ∈ rows, P x) (hr : P r) :
    ∀ x ∈ rows.set i r, P x := by
  intro x hx
  rcases List.mem_or_eq_of_mem_set hx with hx | rfl
  · exact h x hx
  · exact hr

theorem step_clients (h : Clients s) (hst : step s a = some s') : Clients s' := by
  have hsenders := step_senders h hst
  have hreceivers := step_receivers h hst
  cases step_cases hst with
  | @direct val k rest hopen hr hw =>
    have hne : s.chan.mWaitingReceiver ≠ [] := by simp [hw]
    exact { h with
      senders := hsenders
      receivers := hreceivers
      open_ := fun _ => h.open_ hne
      pushes := rows_append h.pushes (by simp) }
  | refuse hopen hr hw =>
    exact { h with
      senders := hsenders
      receivers := hreceivers
      pushes := rows_append h.pushes (by simp) }
  | @buffer val parked hopen hr hw hp =>
    exact { h with
      senders := hsenders
      receivers := hreceivers
      parked := by
        rw [List.map_append]
        refine h.parked.append ?_
        cases parked <;> simp
      accepting := fun _ => hr
      pushes := rows_append h.pushes (by simp) }
  | handOver hq hp hnone =>
    exact { h with
      senders := hsenders
      receivers := hreceivers
      pushes := rows_set h.pushes (by simpa using h.pushes _ (List.mem_of_getElem? hq))
      pops := rows_set h.pops (by simp) }
  | pushReturn hq =>
    exact { h with
      senders := hsenders
      receivers := hreceivers
      pushes := rows_set h.pushes (by simp) }
  | popValue hopen hr =>
    exact { h with
      senders := hsenders
      receivers := hreceivers
      parked := by simpa [hr] using h.parked.tail
      accepting := fun _ => hopen
      pops := rows_append h.pops (by simp) }
  | popEmpty hopen hr hc hw =>
    exact { h with
      senders := hsenders
      receivers := hreceivers
      pops := rows_append h.pops (by simp) }
  | popWait hopen hr ho =>
    exact { h with
      senders := hsenders
      receivers := hreceivers
      open_ := fun _ => ⟨ho, hopen⟩
      pops := rows_append h.pops (by simp) }
  | wakeSender hp hq hnone =>
    exact { h with
      senders := hsenders
      receivers := hreceivers
      pushes := rows_set h.pushes (by simp)
      pops := rows_set h.pops (by simpa using h.pops _ (List.mem_of_getElem? hp)) }
  | popReturn hp =>
    exact { h with
      senders := hsenders
      receivers := hreceivers
      pops := rows_set h.pops (by simp) }
  | resize hpos hn hquiet =>
    exact { h with
      senders := hsenders
      receivers := hreceivers
      parked := (List.drop_sublist _ _).trans h.parked
      accepting := fun hne => h.accepting fun he => hne (by simp [he]) }
  | notifyResized hr hq hnone =>
    exact { h with
      senders := hsenders
      receivers := hreceivers
      pushes := rows_set h.pushes (by simp) }
  | closeSender hopen hw hr =>
    exact { h with
      senders := hsenders
      receivers := hreceivers
      open_ := fun hne => absurd rfl hne
      closingSender := fun hc => by cases hc }
  | notifyReceiver hc hp hnone =>
    exact { h with
      senders := hsenders
      receivers := hreceivers
      closingSender := fun ho => by simp [h.closingSender ho] at hc
      pops := rows_set h.pops (by simp) }
  | closeReceiver hopen hw =>
    exact { h with
      senders := hsenders
      receivers := hreceivers
      parked := List.nil_sublist _
      open_ := fun hne => absurd hw hne
      accepting := fun hne => absurd rfl hne
      closingReceiver := fun hc => by cases hc }
  | notifySender hc hq hnone =>
    exact { h with
      senders := hsenders
      receivers := hreceivers
      closingReceiver := fun ho => by simp [h.closingReceiver ho] at hc
      pushes := rows_set h.pushes (by simp) }

theorem clients_init : Clients (init : State T) where
  senders := ⟨fun x hx => absurd hx.1 (Nat.not_lt_zero x), fun p x hx => by
    cases p <;> simp [init, State.senders, State.waking, look] at hx⟩
  receivers := ⟨fun x hx => absurd hx.1 (Nat.not_lt_zero x), fun p x hx => by
    cases p <;> simp [init, State.receivers, State.handing, look] at hx⟩
  parked := List.Sublist.refl _
  open_ := fun hne => absurd rfl hne
  accepting := fun hne => absurd rfl hne
  closingSender := fun _ => rfl
  closingReceiver := fun _ => rfl
  pushes := fun _ h => by cases h
  pops := fun _ h => by cases h

theorem clients_reachable {ok : State T → Act T → Prop} (h : Reachable step ok init s) : Clients s :=
  h.invariant clients_init fun _ _ _ hI _ hst => step_clients hI hst

/-! ## Results -/

/-- A call that the contract of the callers allows, or a completion that somebody still has to do. -/
def State.due (s : State T) : Act T → Prop
  | .push _ => s.chan.mSenderClosed = false
  | .pop => s.chan.mReceiverClosed = false
  | .setMaxQueueSize cnt => 0 < cnt
  | .closeSender => s.chan.mSenderClosed = false ∧ ∀ q ∈ s.pushes, q.returned = true
  | .closeReceiver => s.chan.mReceiverClosed = false ∧ ∀ p ∈ s.pops, p.returned = true
  | .handOver i => s.handing i ≠ none
  | .wakeSender k => s.waking k ≠ none
  | .notifyResized r => (s.resized[r]?).getD [] ≠ []
  | .notifyReceiver => s.senderClosing ≠ []
  | .notifySender => s.receiverClosing ≠ []
  | .pushReturn i => ∃ q b, s.pushes[i]? = some q ∧ q.self = some b ∧ q.receiver = none ∧ q.returned = false
  | .popReturn k => ∃ p r, s.pops[k]? = some p ∧ p.self = some r ∧ p.sender = none ∧ p.returned = false

/-- A parked sender has not returned. -/
theorem Clients.sender_waits (h : Clients s) {i : Nat} {p : SenderPlace} (hi : i ∈ s.senders p) :
    ∃ q, s.pushes[i]? = some q ∧ q.self = none ∧ q.returned = false := by
  obtain ⟨q, hq, hnone⟩ := (h.senders.living p i hi).row
  refine ⟨q, hq, hnone, ?_⟩
  by_contra hr
  exact h.pushes q (List.mem_of_getElem? hq) (by simpa using hr) hnone

theorem Clients.receiver_waits (h : Clients s) {k : Nat} {p : ReceiverPlace} (hk : k ∈ s.receivers p) :
    ∃ r, s.pops[k]? = some r ∧ r.self = none ∧ r.returned = false := by
  obtain ⟨r, hr, hnone⟩ := (h.receivers.living p k hk).row
  refine ⟨r, hr, hnone, ?_⟩
  by_contra hret
  exact h.pops r (List.mem_of_getElem? hr) (by simpa using hret) hnone

theorem completePush_isSome {i : Nat} {b : Bool} (h : ∃ q, s.pushes[i]? = some q ∧ q.self = none) :
    (s.completePush i b).isSome := by
  obtain ⟨q, hq, hnone⟩ := h
  simp [State.completePush, hq, hnone]

theorem completePop_isSome {k : Nat} {r : Option (Nat × T)} (h : ∃ p, s.pops[k]? = some p ∧ p.self = none) :
    (s.completePop k r).isSome := by
  obtain ⟨p, hp, hnone⟩ := h
  simp [State.completePop, hp, hnone]

/-- The assertions hold: `push` and `pop` never find a client of the other side parked without need, the closings
find none of their own side, and no future is completed a second time. -/
theorem due_isSome (hf : Fifo s.flow) (h : Clients s) (hdue : s.due a) : (step s a).isSome := by
  cases a with
  | push val =>
    have ho : s.chan.mSenderClosed = false := hdue
    cases hw : s.chan.mWaitingReceiver with
    | cons k rest =>
      have hr := (h.open_ (by simp [hw])).2
      simp [step, pushStep, Channel.push, ho, hw, hr]
    | nil =>
      simp only [step, pushStep, Channel.push, ho, hw]
      split
      case h_1 hn =>
        simp only [Bool.false_eq_true, if_false] at hn
        split at hn
        · cases hn
        · split at hn <;> cases hn
      case h_2 => split <;> rfl
  | pop =>
    have ho : s.chan.mReceiverClosed = false := hdue
    have hw : s.chan.mReadyData = [] → s.chan.mWaitingSender = [] := by
      intro hr
      have := h.parked
      simpa [hr] using this
    simp only [step, popStep, Channel.pop, ho]
    split
    case h_1 hn =>
      simp only [Bool.false_eq_true, if_false] at hn
      split at hn
      · split at hn <;> cases hn
      case h_2 hr =>
        simp only [hw hr, List.isEmpty_nil, if_true] at hn
        split at hn <;> cases hn
    case h_2 => split <;> rfl
  | setMaxQueueSize cnt =>
    have hpos : cnt ≠ 0 := Nat.pos_iff_ne_zero.1 hdue
    simp only [step, Channel.setMaxQueueSize, hpos, if_false]
    split
    case h_1 hn => split at hn <;> cases hn
    case h_2 => rfl
  | closeSender =>
    obtain ⟨ho, hret⟩ := hdue
    have hw : s.chan.mWaitingSender = [] := by
      refine List.eq_nil_iff_forall_not_mem.2 fun i hi => ?_
      obtain ⟨q, hq, -, hno⟩ := h.sender_waits (p := .waiting) hi
      rw [hret q (List.mem_of_getElem? hq)] at hno
      cases hno
    cases hr : s.chan.mWaitingReceiver with
    | nil => simp [step, Channel.closeSender, ho, hw, hr]
    | cons k rest =>
      have hready : s.chan.mReadyData = [] := (hf.waiting_head ho hr).2.2.1
      simp [step, Channel.closeSender, ho, hw, hr, hready]
  | closeReceiver =>
    obtain ⟨ho, hret⟩ := hdue
    have hw : s.chan.mWaitingReceiver = [] := by
      refine List.eq_nil_iff_forall_not_mem.2 fun k hk => ?_
      obtain ⟨p, hp, -, hno⟩ := h.receiver_waits (p := .waiting) hk
      rw [hret p (List.mem_of_getElem? hp)] at hno
      cases hno
    simp [step, Channel.closeReceiver, ho, hw]
  | handOver i =>
    obtain ⟨k, hk⟩ := Option.ne_none_iff_exists'.1 hdue
    obtain ⟨⟨val, done, receiver, returned⟩, hq, hrec⟩ := exists_of_look hk
    obtain rfl : receiver = some k := hrec
    have hwait := (h.receivers.living (.handing i) k (by simp [State.receivers, hk])).row
    simp only [step, hq]
    exact completePop_isSome hwait
  | wakeSender k =>
    obtain ⟨w, hw⟩ := Option.ne_none_iff_exists'.1 hdue
    obtain ⟨⟨r, sender, returned⟩, hp, hsend⟩ := exists_of_look hw
    obtain rfl : sender = some w := hsend
    have hwait := (h.senders.living (.waking k) w (by simp [State.senders, hw])).row
    simp only [step, hp]
    exact completePush_isSome hwait
  | notifyResized r =>
    have hne : (s.resized[r]?).getD [] ≠ [] := hdue
    cases hr : s.resized[r]? with
    | none => simp [hr] at hne
    | some l =>
      cases l with
      | nil => simp [hr] at hne
      | cons w rest =>
        have hwait := (h.senders.living (.resized r) w (by simp [State.senders, hr])).row
        simp only [step, hr]
        exact completePush_isSome hwait
  | notifyReceiver =>
    cases hc : s.senderClosing with
    | nil => exact absurd hc hdue
    | cons k rest =>
      have hwait := (h.receivers.living .closing k (by simp [State.receivers, hc])).row
      simp only [step, hc]
      exact completePop_isSome hwait
  | notifySender =>
    cases hc : s.receiverClosing with
    | nil => exact absurd hc hdue
    | cons w rest =>
      have hwait := (h.senders.living .closing w (by simp [State.senders, hc])).row
      simp only [step, hc]
      exact completePush_isSome hwait
  | pushReturn i =>
    obtain ⟨⟨val, done, receiver, returned⟩, b, hq, rfl, rfl, rfl⟩ := hdue
    simp [step, hq]
  | popReturn k =>
    obtain ⟨⟨done, sender, returned⟩, r, hp, rfl, rfl, rfl⟩ := hdue
    simp [step, hp]

/-- The parked senders with their elements. -/
theorem Clients.parked_values (h : Clients s) (hf : Fifo s.flow) :
    ∃ parked : List (Nat × T), parked.Sublist s.chan.mReadyData ∧
    parked.map Prod.fst = s.chan.mWaitingSender ∧ ∀ x ∈ parked, s.val x.1 = some x.2 := by
  obtain ⟨parked, hsub, heq⟩ := List.sublist_map_iff.1 h.parked
  refine ⟨parked, hsub, heq.symm, fun x hx => hf.genuine x ?_⟩
  have hsplit : s.accepted = s.assigned ++ s.chan.mReadyData := hf.split
  show x ∈ s.accepted
  rw [hsplit]
  exact List.mem_append_right _ (hsub.subset hx)

/-- **No client of a `BufferedChannel` is stranded.** Parked receivers mean an empty queue, no parked sender and
both sides open; the parked senders wait with their elements in `mReadyData`, in the same order; every suspended
call is referenced by the deques or by one pending completion, once; no assertion fails. -/
theorem no_client_stranded (h : Reachable step disciplined init s) :
    (s.chan.mWaitingReceiver ≠ [] → s.chan.mReadyData = [] ∧ s.chan.mWaitingSender = [] ∧
      s.chan.mSenderClosed = false ∧ s.chan.mReceiverClosed = false) ∧
    (s.chan.mWaitingSender ≠ [] → s.chan.mReadyData ≠ [] ∧ s.chan.mReceiverClosed = false) ∧
    (∃ parked : List (Nat × T), parked.Sublist s.chan.mReadyData ∧ parked.map Prod.fst = s.chan.mWaitingSender ∧
      ∀ x ∈ parked, s.val x.1 = some x.2) ∧
    (Sole s.senders s.unsent ∧ Sole s.receivers s.unserved) ∧
    ∀ a, s.due a → (step s a).isSome := by
  have hf := fifo_reachable h
  have hc := clients_reachable h
  have hempty : s.chan.mReadyData = [] → s.chan.mWaitingSender = [] := by
    intro hr
    have := hc.parked
    simpa [hr] using this
  refine ⟨fun hw => ?_, fun hw => ⟨fun hr => hw (hempty hr), hc.accepting hw⟩, hc.parked_values hf,
    ⟨hc.senders, hc.receivers⟩, fun a hdue => due_isSome hf hc hdue⟩
  obtain ⟨ho, hr⟩ := hc.open_ hw
  obtain ⟨k, rest, hk⟩ := List.exists_cons_of_ne_nil hw
  have hready : s.chan.mReadyData = [] := (hf.waiting_head ho hk).2.2.1
  exact ⟨hready, hempty hready, ho, hr⟩

/-- Two parked senders, of which the older one is released by the resize; the pop then wakes the younger one, whose
element is not the one popped. -/
def outOfStepSchedule : List (Act Nat) :=
  [.setMaxQueueSize 1, .push 5, .push 6, .push 7, .setMaxQueueSize 2, .pop, .setMaxQueueSize 3, .notifyResized 2, .pop]

theorem no_client_stranded_outOfStep :
    ∃ s : State Nat, Run step disciplined init outOfStepSchedule s ∧ s.chan.mReadyData = [(2, 7)] ∧
      s.waking 1 = some 2 ∧ (step s (.wakeSender 1)).isSome := by
  have hrun := exec_get_run step disciplined (init : State Nat) outOfStepSchedule (by decide)
  have h := no_client_stranded ⟨_, hrun⟩
  have hw : ((exec step disciplined (init : State Nat) outOfStepSchedule).get (by decide)).waking 1 ≠ none := by decide
  exact ⟨_, hrun, by decide, by decide, h.2.2.2.2 (.wakeSender 1) hw⟩

end CoAwait.BufferedChannel
