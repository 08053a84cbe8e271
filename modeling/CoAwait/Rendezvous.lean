import Mathlib.Data.List.ReduceOption
import CoAwait.UnbufferedChannel

/-!
# `UnbufferedChannel`: an exact rendezvous without a stuck state

A round of the handshake has four transfers: the sender sets `value`, the receiver recreates `value`, the
receiver sets `valueRead`, the sender recreates `valueRead`. `Phase` says how many of them the current round
has had, and `Joint` which program counters the two sides can have together. What is left to say is local:

* `Cell.Ok`: a future between two `emplace` calls, as its one setter and its one awaiter have used it.
* `History`: the recorded arguments and results.
-/

namespace CoAwait.UnbufferedChannel

open Runs

variable {α T : Type}

/-! ## One future of the channel -/

/-- `set` is what the future is completed with since its `emplace`, `a` where the awaiting side stands. -/
structure Cell.Ok (set : Option α) (a : Option Await) (c : Cell α) : Prop where
  unset : set = none → c.fut.continuationPtr = (if a = some .parked then .task () else .empty) ∧ c.sets = 0 ∧
    c.suspends = (if a = some .parked then 1 else 0) ∧ a ≠ some .get
  isSet : ∀ v, set = some v → c.fut.continuationPtr = .invalid ∧ c.fut.value = .val v ∧ c.sets = 1 ∧
    c.suspends ≤ 1 ∧ (a = some .suspend → c.suspends = 0)

/-- Before the loads of a `co::await`, or in none. -/
def Await.early : Option Await → Prop
  | none | some (.poll _) => True
  | _ => False

namespace Cell.Ok

variable {set : Option α} {a : Option Await} {c c' : Cell α} {v : α}

theorem emplace : Cell.Ok (α := α) none none {} :=
  ⟨fun _ => ⟨rfl, rfl, rfl, by simp⟩, fun _ h => by cases h⟩

theorem once (h : c.Ok set a) : c.sets ≤ 1 ∧ c.suspends ≤ 1 := by
  cases set with
  | none =>
    obtain ⟨-, h1, h2, -⟩ := h.unset rfl
    refine ⟨by omega, ?_⟩
    rw [h2]
    split <;> simp
  | some v =>
    obtain ⟨-, -, h1, h2, -⟩ := h.isSet v rfl
    exact ⟨by omega, h2⟩

theorem fresh (h : c.Ok none a) : c.sets = 0 := (h.unset rfl).2.1

theorem unsuspended (h : c.Ok set (some .suspend)) : c.suspends = 0 := by
  cases set with
  | none => simpa using (h.unset rfl).2.2.1
  | some v => exact (h.isSet v rfl).2.2.2.2 rfl

/-- The awaiting side turns away from the future or, not being suspended, to it. -/
theorem turn {a' : Option Await} (h : c.Ok set a) (ha : a ≠ some .parked) (he : Await.early a') : c.Ok set a' := by
  have h1 : a' ≠ some .parked := by rintro rfl; cases he
  have h2 : a' ≠ some .get := by rintro rfl; cases he
  have h3 : a' ≠ some .suspend := by rintro rfl; cases he
  refine ⟨fun hn => ?_, fun v hv => ?_⟩
  · obtain ⟨h4, h5, h6, -⟩ := h.unset hn
    simpa [ha, h1, h2, h5] using And.intro h4 h6
  · obtain ⟨h4, h5, h6, h7, -⟩ := h.isSet v hv
    exact ⟨h4, h5, h6, h7, fun hs => absurd hs h3⟩

/-- The continuation of the awaiting side is called. -/
theorem wake (h : c.Ok (some v) a) : c.Ok (some v) (some .get) where
  unset := fun hn => by cases hn
  isSet := by
    intro w hw
    obtain ⟨h4, h5, h6, h7, -⟩ := h.isSet w hw
    exact ⟨h4, h5, h6, h7, fun hs => by cases hs⟩

theorem store (h : c.Ok none a) (v : α) : (c.store v).Ok none a :=
  ⟨h.unset, fun _ hv => by cases hv⟩

theorem exchange (h : c.Ok none a) (hv : c.fut.value = .val v) :
    ∃ c', c.exchange = some (decide (a = some .parked), c') ∧ c'.Ok (some v) a := by
  obtain ⟨h1, h2, h3, -⟩ := h.unset rfl
  have hok : Cell.Ok (some v) a { c with fut := (c.fut.exchange .invalid).2, sets := c.sets + 1 } := by
    refine ⟨fun hn => (by cases hn), fun w hw => ?_⟩
    obtain rfl : v = w := Option.some.inj hw
    refine ⟨rfl, hv, by simp [h2], ?_, fun ha => ?_⟩
    · simp only [h3]; split <;> simp
    · simp [h3, ha]
  refine ⟨_, ?_, hok⟩
  by_cases ha : a = some .parked
  · rw [if_pos ha] at h1
    simp [Cell.exchange, LightFutureData.exchange, h1, ha]
  · rw [if_neg ha] at h1
    simp [Cell.exchange, LightFutureData.exchange, h1, ha]

/-- `get_unchecked` finds the future completed. -/
theorem get (h : c.Ok set (some .get)) : ∃ v, set = some v ∧ c.get = some v := by
  cases set with
  | none => exact absurd rfl (h.unset rfl).2.2.2
  | some v =>
    obtain ⟨h1, h2, -⟩ := h.isSet v rfl
    refine ⟨v, rfl, ?_⟩
    simp [Cell.get, LightFutureData.isReady, h1, h2]

/-- The loads and the registration of `co::await`: they have a step, and end parked only where the future is
not completed. -/
theorem awaitStep (mode : Mode) {b : Await} (h : c.Ok set (some b)) (hp : b ≠ .parked) (hg : b ≠ .get) :
    ∃ c' b', c.awaitStep mode b = some (c', b') ∧ c'.Ok set (some b') ∧ (b' = .parked → set = none) ∧
      c'.fut.value = c.fut.value := by
  cases set with
  | none =>
    obtain ⟨h1, h2, h3, -⟩ := h.unset rfl
    have hptr : c.fut.continuationPtr = .empty := by simpa [hp] using h1
    have hnot : c.fut.isReady = false := by simp [hptr]
    cases b with
    | poll n =>
      by_cases hn : n + 1 < mode.loads
      · exact ⟨c, .poll (n + 1), by simp [Cell.awaitStep, hnot, hn], h.turn (by simp) trivial,
          fun hc => (by cases hc), rfl⟩
      · refine ⟨c, .suspend, by simp [Cell.awaitStep, hnot, hn], ⟨fun _ => ?_, fun _ hv => by cases hv⟩,
          fun hc => (by cases hc), rfl⟩
        simpa using ⟨hptr, h2, h3⟩
    | suspend =>
      refine ⟨{ c with fut := { c.fut with continuationPtr := .task () }, suspends := c.suspends + 1 }, .parked,
        by simp [Cell.awaitStep, LightFutureData.suspend, hptr], ⟨fun _ => ?_, fun _ hv => by cases hv⟩, fun _ => rfl,
        rfl⟩
      simpa [h2] using h3
    | parked => exact absurd rfl hp
    | get => exact absurd rfl hg
  | some v =>
    obtain ⟨h1, h2, h3, h4, h5⟩ := h.isSet v rfl
    have hready : c.fut.isReady = true := by simp [h1]
    cases b with
    | poll n => exact ⟨c, .get, by simp [Cell.awaitStep, hready], h.wake, fun hc => (by cases hc), rfl⟩
    | suspend =>
      refine ⟨{ c with suspends := c.suspends + 1 }, .get,
        by simp [Cell.awaitStep, LightFutureData.suspend, h1, hready],
        ⟨fun hn => (by cases hn), fun w hw => ?_⟩, fun hc => (by cases hc), rfl⟩
      obtain rfl : v = w := Option.some.inj hw
      exact ⟨h1, h2, h3, by simp [h5 rfl], fun hs => by cases hs⟩
    | parked => exact absurd rfl hp
    | get => exact absurd rfl hg

end Cell.Ok

/-! ## The two sides together -/

/-- Who has to act next in the handshake. `b` is the answer to the offer of push `i`. -/
inductive Phase where
  | free
  | offered (i : Nat)
  | taken (i : Nat) (b : Bool)
  | answered (i : Nat) (b : Bool)
  /-- The offer of `closeSender` stands; `closeReceiver` may take and answer it. -/
  | closed
  | closedTaken
  | closedAnswered

/-- What `value` is completed with. -/
def Phase.value : Phase → Option (Option Nat)
  | .offered i => some (some i)
  | .closed => some none
  | _ => none

/-- What `valueRead` is completed with. -/
def Phase.read : Phase → Option Bool
  | .answered _ b => some b
  | .closedAnswered => some false
  | _ => none

def SenderPc.awaiting : SenderPc → Option Await
  | .await _ a => some a
  | _ => none

def ReceiverPc.awaiting : ReceiverPc T → Option Await
  | .await _ a => some a
  | _ => none

/-- No offer is out. -/
def SenderPc.quiet : SenderPc → Prop
  | .idle | .store _ | .exchange _ => True
  | _ => False

/-- On the way from the first `false` to `closeSender`'s offer. -/
def SenderPc.closing : SenderPc → Prop
  | .refused | .store none | .exchange none => True
  | _ => False

/-- The receiver before it has read an offer. -/
def ReceiverPc.waiting : ReceiverPc T → Prop
  | .idle | .await _ _ => True
  | _ => False

/-- The receiver with the offer of push `i` in front of it. -/
def ReceiverPc.deciding (i : Nat) : ReceiverPc T → Prop
  | .idle | .emplace _ => True
  | .await _ a => a ≠ .parked
  | .deref j => j = i
  | _ => False

/-- The receiver with the offer of `closeSender` in front of it. -/
def ReceiverPc.atClosed : ReceiverPc T → Prop
  | .idle | .emplace .close | .done => True
  | .await _ a => a ≠ .parked
  | _ => False

/-- The receiver after the answer `b`. -/
def ReceiverPc.after (b : Bool) : ReceiverPc T → Prop
  | .idle | .await _ _ => b = true
  | .done => b = false
  | _ => False

/-- The joint program counters in each phase. -/
inductive Joint : Phase → SenderPc → ReceiverPc T → Prop
  | free {spc rpc} (hs : spc.quiet) (hr : rpc.waiting) : Joint .free spc rpc
  | leaving {spc} (hs : spc.closing) : Joint .free spc .done
  | offerCall {i op} : Joint (.offered i) (.call (some i)) (.await op .parked)
  | offered {i a rpc} (hr : rpc.deciding i) : Joint (.offered i) (.await i a) rpc
  | takenStore {i a r} : Joint (.taken i r.answer) (.await i a) (.store r)
  | takenExchange {i a r} : Joint (.taken i r.answer) (.await i a) (.exchange r)
  | answerCall {i r} : Joint (.answered i r.answer) (.await i .parked) (.call r)
  | answered {i a b rpc} (ha : a ≠ .parked) (hr : rpc.after b) : Joint (.answered i b) (.await i a) rpc
  | answeredEmplace {i b rpc} (hr : rpc.after b) : Joint (.answered i b) (.emplace i b) rpc
  | closedCall {op} : Joint .closed (.call none) (.await op .parked)
  | closed {rpc} (hr : rpc.atClosed) : Joint .closed .done rpc
  | closedStore : Joint .closedTaken .done (.store .close)
  | closedExchange : Joint .closedTaken .done (.exchange .close)
  | closedAnswered : Joint .closedAnswered .done .done

/-! ## Control -/

/-- `v` is `value` and `r` is `valueRead`. -/
structure Sync (ph : Phase) (spc : SenderPc) (rpc : ReceiverPc T) (v : Cell (Option Nat)) (r : Cell Bool) : Prop where
  joint : Joint ph spc rpc
  value : v.Ok ph.value rpc.awaiting
  read : r.Ok ph.read spc.awaiting
  stored : ∀ p, spc = .exchange p → v.fut.value = .val p
  storedRead : ∀ q, rpc = .exchange q → r.fut.value = .val q.answer

/-- The phase that setting `value` to `p` starts. -/
def Phase.ofOffer : Option Nat → Phase
  | some i => .offered i
  | none => .closed

@[simp] theorem Phase.ofOffer_value (p : Option Nat) : (Phase.ofOffer p).value = some p := by cases p <;> rfl

@[simp] theorem Phase.ofOffer_read (p : Option Nat) : (Phase.ofOffer p).read = none := by cases p <;> rfl

/-- The phase that setting `valueRead` starts. -/
def Phase.answer : Phase → Phase
  | .taken i b => .answered i b
  | .closedTaken => .closedAnswered
  | ph => ph

/-- The answer to the pending `push` as far as it is determined. -/
def Phase.decided : Phase → ReceiverPc T → Option Bool
  | .offered _, .emplace q => some q.answer
  | .taken _ b, _ | .answered _ b, _ => some b
  | _, _ => none

/-- The offer of `closeSender` stands or was taken. -/
def Phase.atEnd : Phase → Prop
  | .closed | .closedTaken | .closedAnswered => True
  | _ => False

def Taking.afterAnswer : Taking T → ReceiverPc T
  | .pop _ => .idle
  | .close => .done

namespace Sync

variable {ph : Phase} {spc : SenderPc} {rpc : ReceiverPc T} {v : Cell (Option Nat)} {r : Cell Bool}
variable {i : Nat} {p : Option Nat} {a : Await} {b : Bool} {op : Op} {q : Taking T}

theorem push (h : Sync ph .idle rpc v r) (p : Option Nat) : ph = .free ∧ Sync ph (.store p) rpc v r := by
  cases h.joint with
  | free hs hr => exact ⟨rfl, .free trivial hr, h.value, h.read, fun _ hp => (by cases hp), h.storedRead⟩
  | leaving hs => cases hs

theorem refused (h : Sync ph .refused rpc v r) : ph = .free ∧ Sync ph (.store none) rpc v r := by
  cases h.joint with
  | free hs hr => cases hs
  | leaving hs => exact ⟨rfl, .leaving trivial, h.value, h.read, fun _ hp => (by cases hp), h.storedRead⟩

theorem store (h : Sync ph (.store p) rpc v r) : ph = .free ∧ Sync ph (.exchange p) rpc (v.store p) r := by
  have hstored : ∀ p', SenderPc.exchange p = .exchange p' → (v.store p).fut.value = .val p' := by
    intro p' hp
    cases hp
    rfl
  cases h.joint with
  | free hs hr => exact ⟨rfl, .free trivial hr, h.value.store p, h.read, hstored, h.storedRead⟩
  | leaving hs =>
    cases p with
    | none => exact ⟨rfl, .leaving trivial, h.value.store none, h.read, hstored, h.storedRead⟩
    | some i => cases hs

theorem exchange (h : Sync ph (.exchange p) rpc v r) :
    ph = .free ∧ ∃ c, v.exchange = some (decide (rpc.awaiting = some .parked), c) ∧
      (rpc.awaiting ≠ some .parked → Sync (.ofOffer p) (.afterSet p) rpc c r) ∧
      (rpc.awaiting = some .parked → Sync (.ofOffer p) (.call p) rpc c r) := by
  have hfree : ph = .free := by cases h.joint <;> rfl
  subst hfree
  obtain ⟨c, hc, hok⟩ := h.value.exchange (h.stored p rfl)
  have hread : ∀ a, Await.early a → r.Ok none a := fun a ha => h.read.turn (by simp [SenderPc.awaiting]) ha
  refine ⟨rfl, c, hc, fun hp => ?_, fun hp => ?_⟩
  · refine ⟨?_, by simpa using hok, ?_, fun p' hp' => ?_, fun q hq => ?_⟩
    · cases h.joint with
      | free hs hr =>
        cases p with
        | none =>
          cases rpc with
          | idle => exact .closed trivial
          | await op a => exact .closed (fun ha => hp (congrArg some ha))
          | _ => cases hr
        | some i =>
          cases rpc with
          | idle => exact .offered trivial
          | await op a => exact .offered (fun ha => hp (congrArg some ha))
          | _ => cases hr
      | leaving hs =>
        cases p with
        | none => exact .closed trivial
        | some i => cases hs
    · rw [Phase.ofOffer_read]
      cases p <;> exact hread _ trivial
    · cases p <;> cases hp'
    · exact h.storedRead q hq
  · refine ⟨?_, by simpa using hok, ?_, fun p' hp' => (by cases hp'), h.storedRead⟩
    · cases rpc with
      | await op a =>
        obtain rfl : a = .parked := by simpa [ReceiverPc.awaiting] using hp
        cases p with
        | none => exact .closedCall
        | some i => exact .offerCall
      | _ => cases hp
    · rw [Phase.ofOffer_read]
      exact hread _ trivial

/-- While no offer is out nothing is answered. -/
theorem undecided (h : Sync .free spc rpc v r) (p : Option Nat) :
    (Phase.ofOffer p).decided rpc = Phase.free.decided rpc := by
  cases h.joint with
  | free hs hr => cases p <;> cases rpc <;> first | rfl | cases hr
  | leaving hs => cases p <;> rfl

theorem call (h : Sync ph (.call p) rpc v r) :
    ph = .ofOffer p ∧ ∃ op, rpc = .await op .parked ∧
      Sync ph (.afterSet p) (.await op .get : ReceiverPc T) v r := by
  cases h.joint with
  | free hs hr => cases hs
  | leaving hs => cases hs
  | @offerCall i op =>
    refine ⟨rfl, op, rfl, .offered (by simp [ReceiverPc.deciding]), h.value.wake, ?_, fun _ hp => (by cases hp),
      fun _ hq => (by cases hq)⟩
    exact h.read.turn (by simp [SenderPc.awaiting]) trivial
  | @closedCall op =>
    refine ⟨rfl, op, rfl, .closed (by simp [ReceiverPc.atClosed]), h.value.wake, h.read, fun _ hp => (by cases hp),
      fun _ hq => (by cases hq)⟩

theorem get (h : Sync ph (.await i .get) rpc v r) :
    ∃ b, ph = .answered i b ∧ r.get = some b ∧ Sync ph (.emplace i b) rpc v r := by
  obtain ⟨b, hb, hget⟩ := h.read.get
  have hturn : r.Ok ph.read none := h.read.turn (by simp [SenderPc.awaiting]) trivial
  cases h.joint with
  | free hs hr => cases hs
  | leaving hs => cases hs
  | offered => cases hb
  | takenStore => cases hb
  | takenExchange => cases hb
  | answered ha hr =>
    obtain rfl := Option.some.inj hb
    exact ⟨_, rfl, hget, .answeredEmplace hr, h.value, hturn, fun _ hp => (by cases hp), h.storedRead⟩

theorem await (mode : Mode) (h : Sync ph (.await i a) rpc v r) (hp : a ≠ .parked) (hg : a ≠ .get) :
    ∃ c a', r.awaitStep mode a = some (c, a') ∧ Sync ph (.await i a') rpc v c := by
  obtain ⟨c, a', hstep, hok, hparked, hkeep⟩ := h.read.awaitStep mode hp hg
  refine ⟨c, a', hstep, ?_, h.value, hok, fun _ hp => (by cases hp), fun q hq => ?_⟩
  · cases h.joint with
    | free hs hr => cases hs
    | leaving hs => cases hs
    | offered hr => exact .offered hr
    | takenStore => exact .takenStore
    | takenExchange => exact .takenExchange
    | answerCall => exact absurd rfl hp
    | answered ha hr => exact .answered (fun hc => by cases hparked hc) hr
  · rw [hkeep]
    exact h.storedRead q hq

theorem emplace (h : Sync ph (.emplace i b) rpc v r) :
    ph = .answered i b ∧ Sync .free (if b then .idle else .refused) rpc v {} := by
  cases h.joint with
  | free hs hr => cases hs
  | leaving hs => cases hs
  | answeredEmplace hr =>
    refine ⟨rfl, ?_, h.value, ?_, fun p hp => ?_, fun q hq => by subst hq; cases hr⟩
    · cases b with
      | true =>
        refine .free trivial ?_
        cases rpc <;> trivial
      | false =>
        cases rpc with
        | done => exact .leaving trivial
        | _ => cases hr
    · cases b <;> exact .emplace
    · cases b <;> cases hp

/-! ### The receiver -/

theorem pop (h : Sync ph spc (.idle : ReceiverPc T) v r) (op : Op) :
    Sync ph spc (.await op (.poll 0) : ReceiverPc T) v r := by
  refine ⟨?_, h.value.turn (by simp [ReceiverPc.awaiting]) trivial, h.read, h.stored, fun _ hq => by cases hq⟩
  cases h.joint with
  | free hs hr => exact .free hs trivial
  | offered hr => exact .offered (by simp [ReceiverPc.deciding])
  | answered ha hr => exact .answered ha hr
  | answeredEmplace hr => exact .answeredEmplace hr
  | closed hr => exact .closed (by simp [ReceiverPc.atClosed])

theorem awaitValue (mode : Mode) (h : Sync ph spc (.await op a : ReceiverPc T) v r) (hp : a ≠ .parked) (hg : a ≠ .get) :
    ∃ c a', v.awaitStep mode a = some (c, a') ∧ Sync ph spc (.await op a' : ReceiverPc T) c r := by
  obtain ⟨c, a', hstep, hok, hparked, hkeep⟩ := h.value.awaitStep mode hp hg
  refine ⟨c, a', hstep, ?_, hok, h.read, fun p hp => ?_, fun _ hq => by cases hq⟩
  · cases h.joint with
    | free hs hr => exact .free hs trivial
    | offerCall => exact absurd rfl hp
    | offered hr => exact .offered (fun hc => by cases hparked hc)
    | answered ha hr => exact .answered ha hr
    | answeredEmplace hr => exact .answeredEmplace hr
    | closedCall => exact absurd rfl hp
    | closed hr => exact .closed (fun hc => by cases hparked hc)
  · rw [hkeep]
    exact h.stored p hp

/-- The receiver has read the offer: it is that of a push, or that of `closeSender`. -/
theorem getValue (h : Sync ph spc (.await op .get : ReceiverPc T) v r) :
    ∃ p, ph = .ofOffer p ∧ v.get = some p ∧
      (∀ i, p = some i → (∃ a, spc = .await i a) ∧ Sync ph spc (.deref i : ReceiverPc T) v r) ∧
      (p = none → spc = .done ∧ Sync ph spc (.idle : ReceiverPc T) v r) ∧
      Sync ph spc (.emplace .close : ReceiverPc T) v r := by
  obtain ⟨p, hp, hget⟩ := h.value.get
  have hturn : v.Ok ph.value none := h.value.turn (by simp [ReceiverPc.awaiting]) trivial
  cases h.joint with
  | free hs hr => cases hp
  | offered hr =>
    obtain rfl := Option.some.inj hp
    refine ⟨_, rfl, hget, fun i hi => ?_, fun hn => (by cases hn), .offered trivial, hturn, h.read, h.stored,
      fun _ hq => by cases hq⟩
    obtain rfl := Option.some.inj hi
    exact ⟨⟨_, rfl⟩, .offered rfl, hturn, h.read, h.stored, fun _ hq => by cases hq⟩
  | answered ha hr => cases hp
  | answeredEmplace hr => cases hp
  | closed hr =>
    obtain rfl := Option.some.inj hp
    exact ⟨none, rfl, hget, fun i hi => (by cases hi),
      fun _ => ⟨rfl, .closed trivial, hturn, h.read, h.stored, fun _ hq => by cases hq⟩,
      .closed trivial, hturn, h.read, h.stored, fun _ hq => by cases hq⟩

/-- `*ptr` is read while the push that published `ptr` awaits `valueRead`. -/
theorem derefPending (h : Sync ph spc (.deref i : ReceiverPc T) v r) : ph = .offered i ∧ ∃ a, spc = .await i a := by
  cases h.joint with
  | free hs hr => cases hr
  | offered hr =>
    obtain rfl : i = _ := hr
    exact ⟨rfl, _, rfl⟩
  | answered ha hr => cases hr
  | answeredEmplace hr => cases hr
  | closed hr => cases hr

theorem deref (h : Sync ph spc (.deref i : ReceiverPc T) v r) (x : T) :
    Sync ph spc (.emplace (.pop x) : ReceiverPc T) v r := by
  obtain ⟨rfl, a, rfl⟩ := h.derefPending
  exact ⟨.offered trivial, h.value, h.read, h.stored, fun _ hq => by cases hq⟩

theorem emplaceValue (h : Sync ph spc (.emplace q) v r) :
    (∃ i, ph = .offered i ∧ Sync (.taken i q.answer) spc (.store q) {} r) ∨
    (ph = .closed ∧ q = .close ∧ Sync .closedTaken spc (.store q) {} r) := by
  cases h.joint with
  | free hs hr => cases hr
  | offered hr =>
    exact .inl ⟨_, rfl, .takenStore, .emplace, h.read, fun _ hp => (by cases hp), fun _ hq => by cases hq⟩
  | answered ha hr => cases hr
  | answeredEmplace hr => cases hr
  | closed hr =>
    cases q with
    | pop x => cases hr
    | close =>
      exact .inr ⟨rfl, rfl, .closedStore, .emplace, h.read, fun _ hp => (by cases hp), fun _ hq => by cases hq⟩

theorem storeAnswer (h : Sync ph spc (.store q) v r) :
    Sync ph spc (.exchange q) v (r.store q.answer) := by
  have hstored : ∀ q', ReceiverPc.exchange q = .exchange q' → (r.store q.answer).fut.value = .val q'.answer := by
    intro q' hq
    cases hq
    rfl
  cases h.joint with
  | free hs hr => cases hr
  | offered hr => cases hr
  | takenStore => exact ⟨.takenExchange, h.value, h.read.store _, h.stored, hstored⟩
  | answered ha hr => cases hr
  | answeredEmplace hr => cases hr
  | closed hr => cases hr
  | closedStore => exact ⟨.closedExchange, h.value, h.read.store _, h.stored, hstored⟩

/-- After it has answered, the receiver returns. -/
theorem after_answer (q : Taking T) : ReceiverPc.after q.answer q.afterAnswer ∧
    (∀ q', q.afterAnswer ≠ .exchange q') ∧ q.afterAnswer.awaiting = none := by
  cases q with
  | pop m => exact ⟨rfl, by simp [Taking.afterAnswer], rfl⟩
  | close => exact ⟨rfl, by simp [Taking.afterAnswer], rfl⟩

theorem exchangeAnswer (h : Sync ph spc (.exchange q) v r) :
    ((∃ i b, ph = .taken i b) ∨ ph = .closedTaken ∧ q = .close) ∧
    ∃ c, r.exchange = some (decide (spc.awaiting = some .parked), c) ∧
      (spc.awaiting ≠ some .parked → Sync ph.answer spc q.afterAnswer v c) ∧
      (spc.awaiting = some .parked → Sync ph.answer spc (.call q) v c) := by
  obtain ⟨hafter, hq', hawait⟩ := after_answer q
  cases h.joint with
  | free hs hr => cases hr
  | offered hr => cases hr
  | @takenExchange i a q =>
    obtain ⟨c, hc, hok⟩ := h.read.exchange (h.storedRead q rfl)
    refine ⟨.inl ⟨_, _, rfl⟩, c, hc, fun hp => ?_, fun hp => ?_⟩
    · exact ⟨.answered (fun ha => hp (congrArg some ha)) hafter, hawait ▸ h.value, hok, h.stored,
        fun q' hq => absurd hq (hq' q')⟩
    · obtain rfl : a = .parked := by simpa [SenderPc.awaiting] using hp
      exact ⟨.answerCall, h.value, hok, h.stored, fun _ hq => by cases hq⟩
  | answered ha hr => cases hr
  | answeredEmplace hr => cases hr
  | closed hr => cases hr
  | closedExchange =>
    obtain ⟨c, hc, hok⟩ := h.read.exchange (h.storedRead .close rfl)
    exact ⟨.inr ⟨rfl, rfl⟩, c, hc,
      fun _ => ⟨.closedAnswered, h.value, hok, fun _ hp => (by cases hp), fun _ hq => by cases hq⟩,
      fun hp => by cases hp⟩

theorem callAnswer (h : Sync ph spc (.call q) v r) :
    ∃ i, spc = .await i .parked ∧ ph = .answered i q.answer ∧ Sync ph (.await i .get) q.afterAnswer v r := by
  obtain ⟨hafter, hq', hawait⟩ := after_answer q
  cases h.joint with
  | free hs hr => cases hr
  | offered hr => cases hr
  | answerCall =>
    exact ⟨_, rfl, rfl, .answered (by simp) hafter, hawait ▸ h.value, h.read.wake, fun _ hp => (by cases hp),
      fun q' hq => absurd hq (hq' q')⟩
  | answered ha hr => cases hr
  | answeredEmplace hr => cases hr
  | closed hr => cases hr

/-! ### Both -/

/-- Who is about to set a future, or to suspend on it, is the first to do so since its `emplace`. -/
theorem first (h : Sync ph spc rpc v r) :
    (∀ p, spc = .exchange p → v.sets = 0) ∧ (∀ q, rpc = .exchange q → r.sets = 0) ∧
    (∀ op, rpc = .await op .suspend → v.suspends = 0) ∧ ∀ i, spc = .await i .suspend → r.suspends = 0 := by
  refine ⟨fun p hp => ?_, fun q hq => ?_, fun op hop => ?_, fun i hi => ?_⟩
  · subst hp
    obtain ⟨rfl, -⟩ := h.exchange
    exact h.value.fresh
  · subst hq
    rcases h.exchangeAnswer.1 with ⟨i, b, rfl⟩ | ⟨rfl, -⟩
    · exact h.read.fresh
    · exact h.read.fresh
  · subst hop
    exact h.value.unsuspended
  · subst hi
    exact h.read.unsuspended

/-- The offer of `closeSender` is not taken away by `pop`. -/
theorem stillClosed (h : Sync ph spc (.idle : ReceiverPc T) v r) (hend : ph.atEnd) :
    spc = .done ∧ v.fut.continuationPtr = .invalid ∧ v.fut.value = .val none := by
  cases h.joint with
  | free hs hr => cases hend
  | offered hr => cases hend
  | answered ha hr => cases hend
  | answeredEmplace hr => cases hend
  | closed hr =>
    obtain ⟨hptr, hval, -⟩ := h.value.isSet none rfl
    exact ⟨rfl, hptr, hval⟩

end Sync

/-! ## Data -/

/-- The `push` that has not returned yet. -/
def SenderPc.pending : SenderPc → Option Nat
  | .store p | .exchange p | .call p => p
  | .await i _ | .emplace i _ => some i
  | _ => none

/-- `closeReceiver` has read an offer. -/
def ReceiverPc.closed : ReceiverPc T → Prop
  | .emplace .close | .store .close | .exchange .close | .call .close | .done => True
  | _ => False

/-- The `res` of a `pop` that has not returned yet. -/
def ReceiverPc.held : ReceiverPc T → List T
  | .emplace (.pop x) | .store (.pop x) | .exchange (.pop x) | .call (.pop x) => [x]
  | _ => []

/-- The answers so far: one `true` for each value moved out, and `false` for the offer `closeReceiver` took. -/
def State.answers (s : State T) : List Bool :=
  List.replicate s.got.length true ++ if s.closeTook.isSome then [false] else []

structure History (ph : Phase) (s : State T) : Prop where
  pending : ∀ i, s.spc.pending = some i → s.pushed.length = i + 1 ∧ s.results.length = i
  settled : s.spc.pending = none → s.results.length = s.pushed.length
  answers : s.answers = s.results ++ (ph.decided s.rpc).toList
  took : ∀ k, s.closeTook = some k → k = s.got.length ∧ s.rpc.closed
  got : s.got <+: s.pushed
  popped : s.popped.reduceOption ++ s.rpc.held = s.got
  empty : none ∈ s.popped → ph.atEnd ∧ s.got = s.pushed
  last : s.popped.Pairwise (fun a b => a = none → b = none)

structure Inv (ph : Phase) (s : State T) : Prop where
  sync : Sync ph s.spc s.rpc s.value s.valueRead
  history : History ph s

namespace History

variable {ph ph' : Phase} {s : State T} {spc : SenderPc} {rpc : ReceiverPc T} {v : Cell (Option Nat)} {r : Cell Bool}

/-- A step that records nothing. -/
theorem move (h : History ph s) (h1 : spc.pending = s.spc.pending) (h2 : ph'.decided rpc = ph.decided s.rpc)
    (h3 : s.rpc.closed → rpc.closed) (h4 : rpc.held = s.rpc.held) (h5 : ph.atEnd → ph'.atEnd) :
    History ph' { s with spc := spc, rpc := rpc, value := v, valueRead := r } where
  pending := fun i hi => h.pending i (h1 ▸ hi)
  settled := fun hn => h.settled (h1 ▸ hn)
  answers := by rw [h2]; exact h.answers
  took := fun k hk => ⟨(h.took k hk).1, h3 (h.took k hk).2⟩
  got := h.got
  popped := by rw [h4]; exact h.popped
  empty := fun hn => ⟨h5 (h.empty hn).1, (h.empty hn).2⟩
  last := h.last

/-- Before the pending offer is answered. -/
theorem undecided (h : History ph s) (hopen : ¬s.rpc.closed) (hd : ph.decided s.rpc = none) :
    s.closeTook = none ∧ s.answers = s.results ∧ s.got.length = s.results.length := by
  have htook : s.closeTook = none := by
    cases hc : s.closeTook with
    | none => rfl
    | some k => exact absurd (h.took k hc).2 hopen
  have hanswers : s.answers = s.results := by simpa [hd] using h.answers
  refine ⟨htook, hanswers, ?_⟩
  rw [← hanswers]
  simp [State.answers, htook]

theorem push (h : History .free s) (hs : s.spc = .idle) (x : T) :
    History .free { s with spc := .store (some s.pushed.length), pushed := s.pushed ++ [x] } where
  pending := by
    intro i hi
    obtain rfl : s.pushed.length = i := Option.some.inj hi
    exact ⟨by simp, h.settled (by rw [hs]; rfl)⟩
  settled := fun hn => by cases hn
  answers := h.answers
  took := h.took
  got := h.got.trans (List.prefix_append _ _)
  popped := h.popped
  empty := fun hn => absurd (h.empty hn).1 (by simp [Phase.atEnd])
  last := h.last

/-- `push` returns `b`. -/
theorem pushReturn {i : Nat} {b : Bool} (h : History (.answered i b) s) (hs : s.spc = .emplace i b) :
    History .free { s with
      valueRead := {}, results := s.results ++ [b], spc := if b then .idle else .refused } where
  pending := fun j hj => by cases b <;> cases hj
  settled := by
    intro _
    obtain ⟨h1, h2⟩ := h.pending i (by rw [hs]; rfl)
    simp [h1, h2]
  answers := by
    have := h.answers
    simpa [Phase.decided, State.answers] using this
  took := h.took
  got := h.got
  popped := h.popped
  empty := fun hn => absurd (h.empty hn).1 (by simp [Phase.atEnd])
  last := h.last

/-- `*ptr` is moved out. -/
theorem deref {i : Nat} {a : Await} {x : T} (h : History (.offered i) s) (hs : s.spc = .await i a)
    (hr : s.rpc = .deref i) (hx : s.pushed[i]? = some x) :
    History (.offered i) { s with rpc := .emplace (.pop x), got := s.got ++ [x] } := by
  obtain ⟨h1, h2⟩ := h.pending i (by rw [hs]; rfl)
  obtain ⟨h3, h4, h5⟩ := h.undecided (by rw [hr]; exact id) (by rw [hr]; rfl)
  have hheld : s.popped.reduceOption = s.got := by simpa [hr, ReceiverPc.held] using h.popped
  exact {
    pending := h.pending
    settled := h.settled
    answers := by
      rw [← h4]
      simp [State.answers, h3, Phase.decided, Taking.answer, List.replicate_succ']
    took := fun k hk => by rw [h3] at hk; cases hk
    got := by
      obtain ⟨rest, hrest⟩ := h.got
      have hlen : s.got.length = i := h5.trans h2
      rw [← hrest, List.getElem?_append_right (by omega), hlen, Nat.sub_self] at hx
      cases rest with
      | nil => cases hx
      | cons y ys =>
        obtain rfl : y = x := by simpa using hx
        exact ⟨ys, by simpa using hrest⟩
    popped := by simp [hheld, ReceiverPc.held]
    empty := fun hn => absurd (h.empty hn).1 (by simp [Phase.atEnd])
    last := h.last }

/-- `pop` reads the `nullptr` of `closeSender`. -/
theorem popEmpty (h : History .closed s) (hs : s.spc.pending = none) (hr : s.rpc = .await .pop .get) :
    History .closed { s with rpc := .idle, popped := s.popped ++ [none] } := by
  obtain ⟨h3, h4, h5⟩ := h.undecided (by rw [hr]; exact id) (by rw [hr]; rfl)
  exact {
    pending := h.pending
    settled := h.settled
    answers := by rw [show Phase.closed.decided (.idle : ReceiverPc T) = Phase.closed.decided s.rpc by rw [hr]; rfl]
                  exact h.answers
    took := fun k hk => by rw [h3] at hk; cases hk
    got := h.got
    popped := by
      have := h.popped
      rw [hr] at this
      simpa [ReceiverPc.held, List.reduceOption_append] using this
    empty := fun _ => ⟨trivial, h.got.eq_of_length (h5.trans (h.settled hs))⟩
    last := List.pairwise_append.2 ⟨h.last, List.pairwise_singleton _ _, fun a _ b hb _ => by simpa using hb⟩ }

/-- `closeReceiver` takes the offer of push `i`. -/
theorem closeTakes {i : Nat} {a : Await} (h : History (.offered i) s) (hs : s.spc = .await i a)
    (hr : s.rpc = .await .close .get) :
    History (.offered i) { s with rpc := .emplace .close, closeTook := some i } := by
  obtain ⟨h1, h2⟩ := h.pending i (by rw [hs]; rfl)
  obtain ⟨h3, h4, h5⟩ := h.undecided (by rw [hr]; exact id) (by rw [hr]; rfl)
  exact {
    pending := h.pending
    settled := h.settled
    answers := by
      rw [← h4]
      simp [State.answers, h3, Phase.decided, Taking.answer]
    took := by
      intro k hk
      obtain rfl := Option.some.inj hk
      exact ⟨(h5.trans h2).symm, trivial⟩
    got := h.got
    popped := by
      have := h.popped
      rw [hr] at this
      simpa [ReceiverPc.held] using this
    empty := fun hn => absurd (h.empty hn).1 (by simp [Phase.atEnd])
    last := h.last }

/-- `pop` returns `x`. -/
theorem popReturn {x : T} (h : History ph s) (hend : ¬ph.atEnd) (hheld : s.rpc.held = [x]) (hopen : ¬s.rpc.closed)
    (h1 : spc.pending = s.spc.pending) (h2 : ph'.decided (.idle : ReceiverPc T) = ph.decided s.rpc) :
    History ph' { s with
      spc := spc, rpc := .idle, value := v, valueRead := r, popped := s.popped ++ [some x] } := by
  have hfree : none ∉ s.popped := fun hn => hend (h.empty hn).1
  exact {
    pending := fun i hi => h.pending i (h1 ▸ hi)
    settled := fun hn => h.settled (h1 ▸ hn)
    answers := by rw [h2]; exact h.answers
    took := fun k hk => absurd (h.took k hk).2 hopen
    got := h.got
    popped := by
      have := h.popped
      rw [hheld] at this
      simpa [ReceiverPc.held, List.reduceOption_append] using this
    empty := fun hn => by simp [hfree] at hn
    last := List.pairwise_append.2 ⟨h.last, List.pairwise_singleton _ _, fun a ha b _ hn => by
      subst hn
      exact absurd ha hfree⟩ }

end History

/-! ## The invariant over runs -/

theorem inv_init : Inv .free (init : State T) where
  sync := ⟨.free trivial trivial, .emplace, .emplace, fun _ hp => (by cases hp), fun _ hq => by cases hq⟩
  history := {
    pending := fun _ hi => by cases hi
    settled := fun _ => rfl
    answers := rfl
    took := fun _ hk => by cases hk
    got := List.prefix_rfl
    popped := rfl
    empty := fun hn => by cases hn
    last := .nil }

variable {ph : Phase} {s s' : State T} {mode : Mode}

theorem senderStep_inv (h : Inv ph s) (hst : senderStep mode s = some s') : ∃ ph', Inv ph' s' := by
  obtain ⟨hsync, hhist⟩ := h
  unfold senderStep at hst
  split at hst
  case h_1 => cases hst
  case h_2 => cases hst
  case h_3 => cases hst
  case h_4 p hs =>
    obtain rfl := Option.some.inj hst
    rw [hs] at hsync
    obtain ⟨rfl, hsync⟩ := hsync.store
    exact ⟨.free, hsync, hhist.move (by rw [hs]; rfl) rfl id rfl id⟩
  case h_5 p hs =>
    rw [hs] at hsync
    obtain ⟨rfl, c, hc, hset, hcall⟩ := hsync.exchange
    rw [hc] at hst
    by_cases hp : s.rpc.awaiting = some .parked
    · simp only [hp, decide_true] at hst
      obtain rfl := Option.some.inj hst
      exact ⟨.ofOffer p, hcall hp, hhist.move (by rw [hs]; rfl) (hsync.undecided p) id rfl (fun hn => by cases hn)⟩
    · simp only [hp, decide_false] at hst
      obtain rfl := Option.some.inj hst
      refine ⟨.ofOffer p, hset hp, hhist.move ?_ (hsync.undecided p) id rfl (fun hn => by cases hn)⟩
      rw [hs]
      cases p <;> rfl
  case h_6 p hs =>
    rw [hs] at hsync
    obtain ⟨rfl, op, hr, hsync⟩ := hsync.call
    rw [hr] at hst
    obtain rfl := Option.some.inj hst
    refine ⟨.ofOffer p, hsync, hhist.move ?_ (by rw [hr]; cases p <;> rfl) (by rw [hr]; exact id) (by rw [hr]; rfl) id⟩
    rw [hs]
    cases p <;> rfl
  case h_7 i hs =>
    rw [hs] at hsync
    obtain ⟨b, rfl, hget, hsync⟩ := hsync.get
    rw [hget] at hst
    obtain rfl := Option.some.inj hst
    exact ⟨.answered i b, hsync, hhist.move (by rw [hs]; rfl) rfl id rfl id⟩
  case h_8 i a hg hs =>
    rw [hs] at hsync
    by_cases hp : a = .parked
    · subst hp
      cases hst
    · obtain ⟨c, a', hstep, hsync⟩ := hsync.await mode hp hg
      rw [hstep] at hst
      obtain rfl := Option.some.inj hst
      exact ⟨ph, hsync, hhist.move (by rw [hs]; rfl) rfl id rfl id⟩
  case h_9 i b hs =>
    obtain rfl := Option.some.inj hst
    rw [hs] at hsync
    obtain ⟨rfl, hnext⟩ := hsync.emplace
    exact ⟨.free, hnext, hhist.pushReturn hs⟩

/-- The way `pop` and `closeReceiver` return from `valueRead->set_value`. -/
theorem answered_inv {ph' : Phase} {q : Taking T} {spc : SenderPc} {v : Cell (Option Nat)} {r : Cell Bool}
    (hsync : Sync ph' spc q.afterAnswer v r) (hhist : History ph s) (hr : s.rpc = .exchange q ∨ s.rpc = .call q)
    (hend : q ≠ .close → ¬ph.atEnd) (h1 : spc.pending = s.spc.pending)
    (h2 : ph'.decided q.afterAnswer = ph.decided s.rpc) (h5 : ph.atEnd → ph'.atEnd) :
    Inv ph' ({ s with spc := spc, value := v, valueRead := r }.answered q) := by
  cases q with
  | close =>
    refine ⟨hsync, hhist.move h1 h2 (fun _ => trivial) ?_ h5⟩
    rcases hr with hr | hr <;> rw [hr] <;> rfl
  | pop x =>
    refine ⟨hsync, hhist.popReturn (hend (by simp)) ?_ ?_ h1 h2⟩
    · rcases hr with hr | hr <;> rw [hr] <;> rfl
    · rcases hr with hr | hr <;> rw [hr] <;> exact id

theorem receiverStep_inv (h : Inv ph s) (hst : receiverStep mode s = some s') : ∃ ph', Inv ph' s' := by
  obtain ⟨hsync, hhist⟩ := h
  unfold receiverStep at hst
  split at hst
  case h_1 => cases hst
  case h_2 => cases hst
  case h_3 op hr =>
    rw [hr] at hsync
    obtain ⟨p, rfl, hget, hderef, hempty, hclose⟩ := hsync.getValue
    rw [hget] at hst
    cases op with
    | pop =>
      cases p with
      | some i =>
        obtain rfl := Option.some.inj hst
        exact ⟨_, (hderef i rfl).2, hhist.move rfl (by rw [hr]; rfl) (by rw [hr]; exact id) (by rw [hr]; rfl) id⟩
      | none =>
        obtain rfl := Option.some.inj hst
        obtain ⟨hs, hnext⟩ := hempty rfl
        exact ⟨_, hnext, hhist.popEmpty (by rw [hs]; rfl) hr⟩
    | close =>
      cases p with
      | some i =>
        obtain rfl := Option.some.inj hst
        obtain ⟨⟨a, hs⟩, -⟩ := hderef i rfl
        exact ⟨_, hclose, hhist.closeTakes hs hr⟩
      | none =>
        obtain rfl := Option.some.inj hst
        have htook : s.closeTook = none := (hhist.undecided (by rw [hr]; exact id) (by rw [hr]; rfl)).1
        have hmove : History .closed { s with rpc := .emplace .close } :=
          hhist.move rfl (by rw [hr]; rfl) (fun _ => trivial) (by rw [hr]; rfl) id
        rw [htook] at hmove
        exact ⟨_, hclose, hmove⟩
  case h_4 op a hg hr =>
    rw [hr] at hsync
    by_cases hp : a = .parked
    · subst hp
      cases hst
    · obtain ⟨c, a', hstep, hsync⟩ := hsync.awaitValue mode hp hg
      rw [hstep] at hst
      obtain rfl := Option.some.inj hst
      exact ⟨ph, hsync, hhist.move rfl (by rw [hr]; cases ph <;> rfl) (by rw [hr]; exact id) (by rw [hr]; rfl) id⟩
  case h_5 i hr =>
    split at hst
    case h_1 x hx =>
      obtain rfl := Option.some.inj hst
      rw [hr] at hsync
      obtain ⟨rfl, a, hs⟩ := hsync.derefPending
      exact ⟨_, hsync.deref x, hhist.deref hs hr hx⟩
    case h_2 => cases hst
  case h_6 q hr =>
    obtain rfl := Option.some.inj hst
    rw [hr] at hsync
    rcases hsync.emplaceValue with ⟨i, rfl, hnext⟩ | ⟨rfl, rfl, hnext⟩
    · refine ⟨_, hnext, hhist.move rfl (by rw [hr]; rfl) ?_ ?_ id⟩ <;> rw [hr] <;> cases q <;> first | exact id | rfl
    · exact ⟨_, hnext, hhist.move rfl (by rw [hr]; rfl) (fun _ => trivial) (by rw [hr]; rfl) id⟩
  case h_7 q hr =>
    obtain rfl := Option.some.inj hst
    rw [hr] at hsync
    refine ⟨_, hsync.storeAnswer, hhist.move rfl ?_ ?_ ?_ id⟩
    · rw [hr]; cases ph <;> rfl
    · rw [hr]; cases q <;> exact id
    · rw [hr]; cases q <;> rfl
  case h_8 q hr =>
    rw [hr] at hsync
    obtain ⟨hph, c, hc, hset, hcall⟩ := hsync.exchangeAnswer
    rw [hc] at hst
    have hend : q ≠ .close → ¬ph.atEnd := by
      rcases hph with ⟨i, b, rfl⟩ | ⟨rfl, rfl⟩
      · exact fun _ => id
      · exact fun hq => absurd rfl hq
    have hend' : ph.atEnd → ph.answer.atEnd := by rcases hph with ⟨i, b, rfl⟩ | ⟨rfl, rfl⟩ <;> exact id
    have hd : ∀ rpc : ReceiverPc T, ph.answer.decided rpc = ph.decided s.rpc := by
      rcases hph with ⟨i, b, rfl⟩ | ⟨rfl, rfl⟩
      · exact fun rpc => rfl
      · exact fun rpc => by cases rpc <;> rfl
    by_cases hp : s.spc.awaiting = some .parked
    · simp only [hp, decide_true] at hst
      obtain rfl := Option.some.inj hst
      refine ⟨_, hcall hp, hhist.move rfl (hd _) ?_ ?_ hend'⟩ <;> rw [hr] <;> cases q <;> first | exact id | rfl
    · simp only [hp, decide_false] at hst
      obtain rfl := Option.some.inj hst
      exact ⟨_, answered_inv (hset hp) hhist (.inl hr) hend rfl (hd _) hend'⟩
  case h_9 q hr =>
    rw [hr] at hsync
    obtain ⟨i, hs, rfl, hnext⟩ := hsync.callAnswer
    rw [hs] at hst
    obtain rfl := Option.some.inj hst
    refine ⟨_, answered_inv hnext hhist (.inr hr) (fun _ => id) (by rw [hs]; rfl) ?_ id⟩
    rw [hr]
    rfl

variable {senderMode receiverMode : Mode} {ok : State T → Act T → Prop}

theorem inv_step {a : Act T} (h : Inv ph s) (hst : step senderMode receiverMode s a = some s') : ∃ ph', Inv ph' s' := by
  obtain ⟨hsync, hhist⟩ := h
  cases a with
  | push val =>
    simp only [step] at hst
    split at hst
    case h_1 hs =>
      obtain rfl := Option.some.inj hst
      rw [hs] at hsync
      obtain ⟨rfl, hnext⟩ := hsync.push (some s.pushed.length)
      exact ⟨.free, hnext, hhist.push hs val⟩
    case h_2 => cases hst
  | closeSender =>
    simp only [step] at hst
    split at hst
    case h_1 hs =>
      obtain rfl := Option.some.inj hst
      rw [hs] at hsync
      obtain ⟨rfl, hnext⟩ := hsync.push none
      exact ⟨.free, hnext, hhist.move (by rw [hs]; rfl) rfl id rfl id⟩
    case h_2 hs =>
      obtain rfl := Option.some.inj hst
      rw [hs] at hsync
      obtain ⟨rfl, hnext⟩ := hsync.refused
      exact ⟨.free, hnext, hhist.move (by rw [hs]; rfl) rfl id rfl id⟩
    case h_3 => cases hst
  | sender => exact senderStep_inv ⟨hsync, hhist⟩ hst
  | pop =>
    simp only [step] at hst
    split at hst
    case h_1 hr =>
      obtain rfl := Option.some.inj hst
      rw [hr] at hsync
      refine ⟨ph, hsync.pop .pop, hhist.move rfl ?_ ?_ ?_ id⟩ <;> rw [hr]
      · cases ph <;> rfl
      · exact id
      · rfl
    case h_2 => cases hst
  | closeReceiver =>
    simp only [step] at hst
    split at hst
    case h_1 hr =>
      obtain rfl := Option.some.inj hst
      rw [hr] at hsync
      refine ⟨ph, hsync.pop .close, hhist.move rfl ?_ ?_ ?_ id⟩ <;> rw [hr]
      · cases ph <;> rfl
      · exact id
      · rfl
    case h_2 => cases hst
  | receiver => exact receiverStep_inv ⟨hsync, hhist⟩ hst

theorem inv_reachable (h : Reachable (step senderMode receiverMode) ok init s) : ∃ ph, Inv ph s :=
  h.invariant (I := fun s => ∃ ph, Inv ph s) ⟨.free, inv_init⟩ fun _ _ _ ⟨_, hI⟩ _ hst => inv_step hI hst

/-! ## Results -/

/-- `closeSender` has set `value`. -/
def SenderPc.hasClosed : SenderPc → Prop
  | .call none | .done => True
  | _ => False

theorem Sync.hasClosed {spc : SenderPc} {rpc : ReceiverPc T} {v : Cell (Option Nat)} {r : Cell Bool}
    (h : Sync ph spc rpc v r) (hend : ph.atEnd) : spc.hasClosed := by
  cases h.joint <;> trivial

theorem Sync.held_atEnd {spc : SenderPc} {rpc : ReceiverPc T} {v : Cell (Option Nat)} {r : Cell Bool}
    (h : Sync ph spc rpc v r) (hend : ph.atEnd) : rpc.held = [] := by
  cases h.joint with
  | @closed rpc hr =>
    cases rpc with
    | emplace q => cases q <;> first | rfl | cases hr
    | _ => first | rfl | cases hr
  | _ => first | rfl | cases hend

/-- What the answer to push `k` says. -/
theorem History.result (h : History ph s) {k : Nat} {b : Bool} (hk : s.results[k]? = some b) :
    (b = true ↔ k < s.got.length) ∧ (b = false ↔ s.closeTook = some k) := by
  have hans : s.answers[k]? = some b := by
    rw [h.answers, List.getElem?_append_left (List.getElem?_eq_some_iff.1 hk).1]
    exact hk
  by_cases hlt : k < s.got.length
  · have hb : b = true := by
      rw [State.answers, List.getElem?_append_left (by simpa using hlt)] at hans
      simpa [hlt, eq_comm] using hans
    subst hb
    refine ⟨by simp [hlt], ⟨fun hf => (by cases hf), fun hc => ?_⟩⟩
    have := (h.took k hc).1
    omega
  · rw [State.answers, List.getElem?_append_right (by simpa using hlt)] at hans
    cases hc : s.closeTook with
    | none => simp [hc] at hans
    | some j =>
      have hj := (h.took j hc).1
      simp only [hc, List.length_replicate, Option.isSome_some, if_true] at hans
      have hkj : k - s.got.length = 0 := by
        by_contra hne
        rw [List.getElem?_eq_none (by simp; omega)] at hans
        cases hans
      rw [hkj] at hans
      obtain rfl : b = false := by simpa [eq_comm] using hans
      refine ⟨by simp [hlt], by simp; omega⟩

/-- The sender is suspended or has finished. -/
def SenderPc.blocked : SenderPc → Prop
  | .await _ .parked | .done => True
  | _ => False

def ReceiverPc.blocked : ReceiverPc T → Prop
  | .await _ .parked | .done => True
  | _ => False

/-- Inside a call a side can go on unless it is suspended. -/
theorem sender_moves (h : Inv ph s) (hs : ¬s.spc.blocked) (hidle : s.spc ≠ .idle) (hrefused : s.spc ≠ .refused) :
    (step senderMode receiverMode s .sender).isSome := by
  have hsync := h.sync
  cases hpc : s.spc with
  | idle => exact absurd hpc hidle
  | refused => exact absurd hpc hrefused
  | done => exact absurd (by rw [hpc]; trivial) hs
  | store p => simp [step, senderStep, hpc]
  | exchange p =>
    rw [hpc] at hsync
    obtain ⟨-, c, hc, -⟩ := hsync.exchange
    cases hd : decide (s.rpc.awaiting = some .parked) <;> simp [step, senderStep, hpc, hc, hd]
  | call p =>
    rw [hpc] at hsync
    obtain ⟨-, op, hr, -⟩ := hsync.call
    simp [step, senderStep, hpc, hr]
  | await i a =>
    rw [hpc] at hsync
    by_cases hg : a = .get
    · subst hg
      obtain ⟨b, -, hget, -⟩ := hsync.get
      simp [step, senderStep, hpc, hget]
    · have hp : a ≠ .parked := by
        rintro rfl
        exact hs (by rw [hpc]; trivial)
      obtain ⟨c, a', hstep, -⟩ := hsync.await senderMode hp hg
      simp [step, senderStep, hpc, hstep]
  | emplace i b => simp [step, senderStep, hpc]

theorem receiver_moves (h : Inv ph s) (hr : ¬s.rpc.blocked) (hidle : s.rpc ≠ .idle) :
    (step senderMode receiverMode s .receiver).isSome := by
  have hsync := h.sync
  cases hpc : s.rpc with
  | idle => exact absurd hpc hidle
  | done => exact absurd (by rw [hpc]; trivial) hr
  | await op a =>
    rw [hpc] at hsync
    by_cases hg : a = .get
    · subst hg
      obtain ⟨p, -, hget, -⟩ := hsync.getValue
      cases op <;> cases p <;> simp [step, receiverStep, hpc, hget]
    · have hp : a ≠ .parked := by
        rintro rfl
        exact hr (by rw [hpc]; trivial)
      obtain ⟨c, a', hstep, -⟩ := hsync.awaitValue receiverMode hp hg
      simp [step, receiverStep, hpc, hstep]
  | deref i =>
    rw [hpc] at hsync
    obtain ⟨-, a, hs⟩ := hsync.derefPending
    have hlen := (h.history.pending i (by rw [hs]; rfl)).1
    have hx : s.pushed[i]? = some s.pushed[i] := List.getElem?_eq_getElem (by omega)
    simp only [step, receiverStep, hpc, hx]
    rfl
  | emplace q => simp [step, receiverStep, hpc]
  | store q => simp [step, receiverStep, hpc]
  | exchange q =>
    rw [hpc] at hsync
    obtain ⟨-, c, hc, -⟩ := hsync.exchangeAnswer
    cases hd : decide (s.spc.awaiting = some .parked) <;> simp [step, receiverStep, hpc, hc, hd]
  | call q =>
    rw [hpc] at hsync
    obtain ⟨i, hs, -⟩ := hsync.callAnswer
    simp [step, receiverStep, hpc, hs]

/-- After an empty optional the sender has finished, and a `pop` finds its offer again. -/
theorem pop_again (h : Inv ph s) (hn : none ∈ s.popped) (hr : s.rpc = .idle) :
    s.spc = .done ∧
    Run (step senderMode receiverMode) anyStep s [.pop, .receiver, .receiver]
      { s with popped := s.popped ++ [none] } := by
  have hsync := h.sync
  rw [hr] at hsync
  obtain ⟨hdone, hptr, hval⟩ := hsync.stillClosed (h.history.empty hn).1
  have hready : s.value.fut.isReady = true := by simp [hptr]
  have hpop : step senderMode receiverMode s .pop = some { s with rpc := .await .pop (.poll 0) } := by simp [step, hr]
  have hload : step senderMode receiverMode { s with rpc := .await .pop (.poll 0) } .receiver =
      some { s with rpc := .await .pop .get } := by
    simp [step, receiverStep, Cell.awaitStep, hready]
  have hget : step senderMode receiverMode { s with rpc := .await .pop .get } .receiver =
      some { s with popped := s.popped ++ [none] } := by
    simp [step, receiverStep, Cell.get, hready, hval, hr]
  exact ⟨hdone, (((Run.nil s).snoc trivial hpop).snoc trivial hload).snoc trivial hget⟩

/-- **An exact in-order rendezvous.** The values the pops have returned, and the one a pop is about to return,
are a prefix of the pushed values. A push has returned `true` exactly if its value is one of them, and `false`
exactly if `closeReceiver` took its offer. An empty optional says that `closeSender` has published its offer
and that every pushed value was returned; only empty optionals follow, and they do follow: the receiver finds the
next one by its own steps. `*ptr` is read only while the push that published `ptr` is pending. No future is set or
suspended on twice between two `emplace` calls: whoever is about to do so is the first, and a side inside a call that
is not suspended can go on. -/
theorem exact_rendezvous (h : Reachable (step senderMode receiverMode) ok init s) :
    (s.popped.reduceOption ++ s.rpc.held <+: s.pushed) ∧
    (∀ k b, s.results[k]? = some b →
      (b = true ↔ k < (s.popped.reduceOption ++ s.rpc.held).length) ∧ (b = false ↔ s.closeTook = some k)) ∧
    (none ∈ s.popped → s.spc.hasClosed ∧ s.popped.reduceOption = s.pushed) ∧
    (∀ (j k : Nat) x, j ≤ k → s.popped[j]? = some none → s.popped[k]? = some x → x = none) ∧
    (none ∈ s.popped → s.rpc = .idle → s.spc = .done ∧
      Run (step senderMode receiverMode) anyStep s [.pop, .receiver, .receiver]
        { s with popped := s.popped ++ [none] }) ∧
    (∀ i, s.rpc = .deref i → s.spc.pending = some i ∧ s.pushed.length = i + 1) ∧
    ((s.value.sets ≤ 1 ∧ s.value.suspends ≤ 1) ∧ (s.valueRead.sets ≤ 1 ∧ s.valueRead.suspends ≤ 1)) ∧
    ((∀ p, s.spc = .exchange p → s.value.sets = 0) ∧ (∀ q, s.rpc = .exchange q → s.valueRead.sets = 0) ∧
      (∀ op, s.rpc = .await op .suspend → s.value.suspends = 0) ∧
      ∀ i, s.spc = .await i .suspend → s.valueRead.suspends = 0) ∧
    (¬s.spc.blocked → s.spc ≠ .idle → s.spc ≠ .refused → (step senderMode receiverMode s .sender).isSome) ∧
    (¬s.rpc.blocked → s.rpc ≠ .idle → (step senderMode receiverMode s .receiver).isSome) := by
  obtain ⟨ph, hI⟩ := inv_reachable h
  obtain ⟨hsync, hhist⟩ := id hI
  refine ⟨?_, fun k b hk => ?_, fun hn => ?_, fun j k x hjk hj hk => ?_, pop_again hI, fun i hi => ?_,
    ⟨hsync.value.once, hsync.read.once⟩, hsync.first, sender_moves hI, receiver_moves hI⟩
  · rw [hhist.popped]
    exact hhist.got
  · rw [hhist.popped]
    exact hhist.result hk
  · obtain ⟨hend, hgot⟩ := hhist.empty hn
    refine ⟨hsync.hasClosed hend, ?_⟩
    rw [← hgot, ← hhist.popped, hsync.held_atEnd hend, List.append_nil]
  · rcases Nat.eq_or_lt_of_le hjk with rfl | hlt
    · exact (Option.some.inj (hj.symm.trans hk)).symm
    · obtain ⟨hj', hxj⟩ := List.getElem?_eq_some_iff.1 hj
      obtain ⟨hk', hxk⟩ := List.getElem?_eq_some_iff.1 hk
      exact hxk ▸ List.pairwise_iff_getElem.1 hhist.last j k hj' hk' hlt hxj
  · rw [hi] at hsync
    obtain ⟨-, a, hs⟩ := hsync.derefPending
    have hp : s.spc.pending = some i := by rw [hs]; rfl
    exact ⟨hp, (hhist.pending i hp).1⟩

/-- A parked receiver, two pushes of which the second is refused by `closeReceiver`, then `closeSender`. -/
def refuseSchedule : List (Act Nat) :=
  [.pop, .receiver, .receiver, .push 5, .sender, .sender, .sender, .receiver, .receiver, .receiver, .receiver,
    .receiver, .closeReceiver, .sender, .sender, .sender, .push 6, .sender, .sender, .receiver, .receiver, .receiver,
    .receiver, .receiver, .sender, .sender, .sender, .closeSender, .sender, .sender]

theorem exact_rendezvous_refuse :
    ∃ s : State Nat, Run (step .routine .routine) anyStep init refuseSchedule s ∧ s.results = [true, false] ∧
      s.popped = [some 5] ∧ s.popped.reduceOption ++ s.rpc.held <+: s.pushed ∧ s.closeTook = some 1 := by
  have hrun := exec_get_run (step .routine .routine) anyStep (init : State Nat) refuseSchedule (by decide)
  have h := exact_rendezvous ⟨_, hrun⟩
  exact ⟨_, hrun, by decide, by decide, h.1, (h.2.1 1 false (by decide)).2.1 rfl⟩

/-! ### No stuck state -/

/-- If neither side has a step of its own, both have finished. -/
theorem Sync.both_done {spc : SenderPc} {rpc : ReceiverPc T} {v : Cell (Option Nat)} {r : Cell Bool}
    (h : Sync ph spc rpc v r) (hs : spc.blocked) (hr : rpc.blocked) : spc = .done ∧ rpc = .done := by
  cases h.joint with
  | free hq =>
    cases spc with
    | done => cases hq
    | await => cases hq
    | _ => cases hs
  | leaving hq =>
    cases spc with
    | done => cases hq
    | await => cases hq
    | _ => cases hs
  | offerCall => cases hs
  | offered hd =>
    cases rpc with
    | await op a =>
      obtain rfl : a = .parked := by cases a <;> first | rfl | cases hr
      exact absurd rfl hd
    | done => cases hd
    | _ => cases hr
  | takenStore => cases hr
  | takenExchange => cases hr
  | answerCall => cases hr
  | @answered i a b rpc ha =>
    obtain rfl : a = .parked := by cases a <;> first | rfl | cases hs
    exact absurd rfl ha
  | answeredEmplace => cases hs
  | closedCall => cases hs
  | closed hd =>
    cases rpc with
    | await op a =>
      obtain rfl : a = .parked := by cases a <;> first | rfl | cases hr
      exact absurd rfl hd
    | done => exact ⟨rfl, rfl⟩
    | _ => cases hr
  | closedStore => cases hr
  | closedExchange => cases hr
  | closedAnswered => exact ⟨rfl, rfl⟩

theorem sender_enabled (h : Inv ph s) (hs : ¬s.spc.blocked) :
    ∃ a, stopsAtEmpty s a ∧ (step senderMode receiverMode s a).isSome := by
  by_cases hidle : s.spc = .idle
  · exact ⟨.closeSender, trivial, by simp [step, hidle]⟩
  · by_cases hrefused : s.spc = .refused
    · exact ⟨.closeSender, trivial, by simp [step, hrefused]⟩
    · exact ⟨.sender, trivial, sender_moves h hs hidle hrefused⟩

theorem receiver_enabled (h : Inv ph s) (hr : ¬s.rpc.blocked) :
    ∃ a, stopsAtEmpty s a ∧ (step senderMode receiverMode s a).isSome := by
  by_cases hidle : s.rpc = .idle
  · exact ⟨.closeReceiver, trivial, by simp [step, hidle]⟩
  · exact ⟨.receiver, trivial, receiver_moves h hr hidle⟩

/-- **No stuck state.** Both sides have finished, or one of them has an enabled step. Neither side is left
suspended by a side that has finished, and the two are not suspended together. -/
theorem no_stuck_state (h : Reachable (step senderMode receiverMode) stopsAtEmpty init s) :
    ((s.spc = .done ∧ s.rpc = .done) ∨ ∃ a, stopsAtEmpty s a ∧ (step senderMode receiverMode s a).isSome) ∧
    (∀ op, ¬(s.spc = .done ∧ s.rpc = .await op .parked)) ∧
    (∀ i, ¬(s.rpc = .done ∧ s.spc = .await i .parked)) ∧
    (∀ i op, ¬(s.spc = .await i .parked ∧ s.rpc = .await op .parked)) := by
  obtain ⟨ph, hI⟩ := inv_reachable h
  have hboth := hI.sync.both_done
  refine ⟨?_, fun op hc => ?_, fun i hc => ?_, fun i op hc => ?_⟩
  · by_cases hs : s.spc.blocked
    · by_cases hr : s.rpc.blocked
      · exact .inl (hboth hs hr)
      · exact .inr (receiver_enabled hI hr)
    · exact .inr (sender_enabled hI hs)
  all_goals
    obtain ⟨hs, hr⟩ := hc
    rw [hs, hr] at hboth
    have := hboth trivial trivial
    simp at this

/-- The receiver, on a plain thread, closes before the sender does, and is suspended until `closeSender`. -/
def closeFirstSchedule : List (Act Nat) :=
  [.closeReceiver, .receiver, .receiver, .receiver, .receiver, .receiver, .receiver, .receiver, .receiver,
    .closeSender, .sender, .sender]

theorem no_stuck_state_closeFirst :
    ∃ s : State Nat, Run (step .routine .thread) stopsAtEmpty init closeFirstSchedule s ∧
      s.rpc = .await .close .parked ∧ s.spc = .call none ∧
      ∃ a, stopsAtEmpty s a ∧ (step .routine .thread s a).isSome := by
  have hrun := exec_get_run (step .routine .thread) stopsAtEmpty (init : State Nat) closeFirstSchedule (by decide)
  obtain ⟨hdone, -⟩ | henabled := (no_stuck_state ⟨_, hrun⟩).1
  · exact absurd hdone (by decide)
  · exact ⟨_, hrun, by decide, by decide, henabled⟩

end CoAwait.UnbufferedChannel
