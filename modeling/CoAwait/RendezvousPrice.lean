import CoAwait.Rendezvous

/-!
# The steps of a rendezvous, and how many there are

* `SenderStep`, `ReceiverStep`: what one step of a side that is inside a call can do, with its guards.
* `State.price`: how many steps the calls that have begun still take, the ones of a woken side included.
* `steps_le_calls`: in any interleaving a run has at most sixteen steps for each call.
-/

namespace CoAwait.UnbufferedChannel

open Runs

variable {α T : Type}

/-! ## The steps -/

/-- One step of the sender inside `push` or `closeSender`. -/
inductive SenderStep (mode : Mode) (s : State T) : State T → Prop
  | store (p : Option Nat) : s.spc = .store p →
      SenderStep mode s { s with value := s.value.store p, spc := .exchange p }
  | exchange (p : Option Nat) (c : Cell (Option Nat)) : s.spc = .exchange p → s.value.exchange = some (false, c) →
      SenderStep mode s { s with value := c, spc := .afterSet p }
  | announce (p : Option Nat) (c : Cell (Option Nat)) : s.spc = .exchange p → s.value.exchange = some (true, c) →
      SenderStep mode s { s with value := c, spc := .call p }
  | call (p : Option Nat) (op : Op) : s.spc = .call p → s.rpc = .await op .parked →
      SenderStep mode s { s with rpc := .await op .get, spc := .afterSet p }
  | get (i : Nat) (res : Bool) : s.spc = .await i .get → s.valueRead.get = some res →
      SenderStep mode s { s with spc := .emplace i res }
  | await (i : Nat) (a b : Await) (c : Cell Bool) : s.spc = .await i a → s.valueRead.awaitStep mode a = some (c, b) →
      SenderStep mode s { s with valueRead := c, spc := .await i b }
  | emplace (i : Nat) (res : Bool) : s.spc = .emplace i res →
      SenderStep mode s { s with
        valueRead := {}, results := s.results ++ [res], spc := if res then .idle else .refused }

/-- One step of the receiver inside `pop` or `closeReceiver`. -/
inductive ReceiverStep (mode : Mode) (s : State T) : State T → Prop
  | await (op : Op) (a b : Await) (c : Cell (Option Nat)) : s.rpc = .await op a →
      s.value.awaitStep mode a = some (c, b) → ReceiverStep mode s { s with value := c, rpc := .await op b }
  | offer (i : Nat) : s.rpc = .await .pop .get → s.value.get = some (some i) →
      ReceiverStep mode s { s with rpc := .deref i }
  | empty : s.rpc = .await .pop .get → s.value.get = some none →
      ReceiverStep mode s { s with rpc := .idle, popped := s.popped ++ [none] }
  | take (p : Option Nat) : s.rpc = .await .close .get → s.value.get = some p →
      ReceiverStep mode s { s with rpc := .emplace .close, closeTook := p }
  | deref (i : Nat) (x : T) : s.rpc = .deref i → s.pushed[i]? = some x →
      ReceiverStep mode s { s with rpc := .emplace (.pop x), got := s.got ++ [x] }
  | emplace (r : Taking T) : s.rpc = .emplace r → ReceiverStep mode s { s with value := {}, rpc := .store r }
  | store (r : Taking T) : s.rpc = .store r →
      ReceiverStep mode s { s with valueRead := s.valueRead.store r.answer, rpc := .exchange r }
  | exchange (r : Taking T) (c : Cell Bool) : s.rpc = .exchange r → s.valueRead.exchange = some (false, c) →
      ReceiverStep mode s ({ s with valueRead := c }.answered r)
  | announce (r : Taking T) (c : Cell Bool) : s.rpc = .exchange r → s.valueRead.exchange = some (true, c) →
      ReceiverStep mode s { s with valueRead := c, rpc := .call r }
  | call (r : Taking T) (i : Nat) : s.rpc = .call r → s.spc = .await i .parked →
      ReceiverStep mode s ({ s with spc := .await i .get }.answered r)

variable {mode senderMode receiverMode : Mode} {ok : State T → Act T → Prop} {s s' : State T} {as : List (Act T)}

theorem senderStep_cases (hst : senderStep mode s = some s') : SenderStep mode s s' := by
  unfold senderStep at hst
  split at hst
  case h_1 => cases hst
  case h_2 => cases hst
  case h_3 => cases hst
  case h_4 p hs =>
    cases hst
    exact .store p hs
  case h_5 p hs =>
    split at hst <;> cases hst
    case h_1 c hc => exact .exchange p c hs hc
    case h_2 c hc => exact .announce p c hs hc
  case h_6 p hs =>
    split at hst <;> cases hst
    case h_1 op hr => exact .call p op hs hr
  case h_7 i hs =>
    split at hst <;> cases hst
    case h_1 res hg => exact .get i res hs hg
  case h_8 i a _ hs =>
    split at hst <;> cases hst
    case h_1 c b hc => exact .await i a b c hs hc
  case h_9 i res hs =>
    cases hst
    exact .emplace i res hs

theorem receiverStep_cases (hst : receiverStep mode s = some s') : ReceiverStep mode s s' := by
  unfold receiverStep at hst
  split at hst
  case h_1 => cases hst
  case h_2 => cases hst
  case h_3 op hr =>
    split at hst <;> cases hst
    case h_1 i hg => exact .offer i hr hg
    case h_2 hg => exact .empty hr hg
    case h_3 p hg => exact .take p hr hg
  case h_4 op a _ hr =>
    split at hst <;> cases hst
    case h_1 c b hc => exact .await op a b c hr hc
  case h_5 i hr =>
    split at hst <;> cases hst
    case h_1 x hx => exact .deref i x hr hx
  case h_6 r hr =>
    cases hst
    exact .emplace r hr
  case h_7 r hr =>
    cases hst
    exact .store r hr
  case h_8 r hr =>
    split at hst <;> cases hst
    case h_1 c hc => exact .exchange r c hr hc
    case h_2 c hc => exact .announce r c hr hc
  case h_9 r hr =>
    split at hst <;> cases hst
    case h_1 i hs => exact .call r i hr hs

/-! ## Prices -/

/-- The loads that are left of `co::await`, two for `suspend` and the read of the result. -/
def Await.price : Await → Nat
  | .poll n => max 3 (9 - n)
  | .suspend => 2
  | .parked | .get => 1

def SenderPc.price : SenderPc → Nat
  | .idle | .refused | .done => 0
  | .emplace _ _ => 1
  | .await _ a => 1 + a.price
  | .call _ => 12
  | .exchange _ => 13
  | .store _ => 14

def ReceiverPc.price : ReceiverPc T → Nat
  | .idle | .done => 0
  | .call _ => 1
  | .exchange _ => 2
  | .store _ => 3
  | .emplace _ => 4
  | .deref _ => 5
  | .await _ a => 5 + a.price

def State.price (s : State T) : Nat := s.spc.price + s.rpc.price

/-- `closeSender` has been called. -/
def SenderPc.closes : SenderPc → Nat
  | .store none | .exchange none | .call none | .done => 1
  | _ => 0

/-- A `pop` or `closeReceiver` has been called and its result is not recorded in `popped`. -/
def ReceiverPc.calls : ReceiverPc T → Nat
  | .idle => 0
  | _ => 1

/-- The calls of either side that have begun. -/
def State.calls (s : State T) : Nat := s.pushed.length + s.spc.closes + (s.popped.length + s.rpc.calls)

theorem awaitStep_price {c c' : Cell α} {a b : Await} (h : c.awaitStep mode a = some (c', b)) : b.price < a.price := by
  have hloads : mode.loads ≤ 7 := by cases mode <;> decide
  cases a with
  | poll n =>
    simp only [Cell.awaitStep] at h
    split at h
    · cases h
      simp only [Await.price]
      omega
    · split at h
      · cases h
        simp only [Await.price]
        omega
      · cases h
        simp only [Await.price]
        omega
  | suspend =>
    simp only [Cell.awaitStep] at h
    split at h
    · cases h
      simp [Await.price]
    · split at h <;> cases h
      simp [Await.price]
  | parked => cases h
  | get => cases h

theorem senderStep_price (h : SenderStep mode s s') : s'.price < s.price ∧ s'.calls = s.calls := by
  cases h with
  | store p hs => cases p <;> simp [State.price, State.calls, hs, SenderPc.price, SenderPc.closes]
  | exchange p c hs hc =>
    cases p <;> simp [State.price, State.calls, hs, SenderPc.afterSet, SenderPc.price, SenderPc.closes, Await.price]
  | announce p c hs hc => cases p <;> simp [State.price, State.calls, hs, SenderPc.price, SenderPc.closes]
  | call p op hs hr =>
    cases p <;> simp [State.price, State.calls, hs, hr, SenderPc.afterSet, SenderPc.price, SenderPc.closes,
      ReceiverPc.price, ReceiverPc.calls, Await.price]
  | get i res hs hg => simp [State.price, State.calls, hs, SenderPc.price, SenderPc.closes, Await.price]
  | await i a b c hs hc =>
    have := awaitStep_price hc
    simpa [State.price, State.calls, hs, SenderPc.price, SenderPc.closes] using this
  | emplace i res hs => cases res <;> simp [State.price, State.calls, hs, SenderPc.price, SenderPc.closes]

/-- `pop` and `closeReceiver` return from `valueRead->set_value`. -/
theorem answered_price (s : State T) (r : Taking T) :
    (s.answered r).price = s.spc.price ∧
    (s.answered r).calls = s.pushed.length + s.spc.closes + (s.popped.length + 1) := by
  cases r <;> simp [State.answered, State.price, State.calls, ReceiverPc.price, ReceiverPc.calls]

theorem receiverStep_price (h : ReceiverStep mode s s') : s'.price < s.price ∧ s'.calls = s.calls := by
  cases h with
  | await op a b c hr hc =>
    have := awaitStep_price hc
    simpa [State.price, State.calls, hr, ReceiverPc.price, ReceiverPc.calls] using this
  | offer i hr hg => simp [State.price, State.calls, hr, ReceiverPc.price, ReceiverPc.calls, Await.price]
  | empty hr hg => simp [State.price, State.calls, hr, ReceiverPc.price, ReceiverPc.calls, Await.price]
  | take p hr hg => simp [State.price, State.calls, hr, ReceiverPc.price, ReceiverPc.calls, Await.price]
  | deref i x hr hx => simp [State.price, State.calls, hr, ReceiverPc.price, ReceiverPc.calls]
  | emplace r hr => simp [State.price, State.calls, hr, ReceiverPc.price, ReceiverPc.calls]
  | store r hr => simp [State.price, State.calls, hr, ReceiverPc.price, ReceiverPc.calls]
  | exchange r c hr hc =>
    obtain ⟨h1, h2⟩ := answered_price { s with valueRead := c } r
    rw [h1, h2]
    simp [State.price, State.calls, hr, ReceiverPc.price, ReceiverPc.calls]
  | announce r c hr hc => simp [State.price, State.calls, hr, ReceiverPc.price, ReceiverPc.calls]
  | call r i hr hs =>
    obtain ⟨h1, h2⟩ := answered_price { s with spc := .await i .get } r
    rw [h1, h2]
    simp [State.price, State.calls, hr, hs, ReceiverPc.price, ReceiverPc.calls, SenderPc.price, SenderPc.closes,
      Await.price]

/-- A call puts in what its steps take out. -/
theorem step_price {a : Act T} (hst : step senderMode receiverMode s a = some s') :
    s'.price < s.price ∧ s'.calls = s.calls ∨ s'.price ≤ s.price + 15 ∧ s'.calls = s.calls + 1 := by
  cases a with
  | push val =>
    simp only [step] at hst
    split at hst <;> cases hst
    case h_1 hs =>
      refine .inr ⟨?_, ?_⟩
      · simp only [State.price, hs, SenderPc.price]
        omega
      · simp only [State.calls, hs, SenderPc.closes, List.length_append, List.length_singleton]
        omega
  | closeSender =>
    simp only [step] at hst
    split at hst <;> cases hst
    case h_1 hs =>
      refine .inr ⟨?_, ?_⟩ <;> simp only [State.price, State.calls, hs, SenderPc.price, SenderPc.closes] <;> omega
    case h_2 hs =>
      refine .inr ⟨?_, ?_⟩ <;> simp only [State.price, State.calls, hs, SenderPc.price, SenderPc.closes] <;> omega
  | sender => exact .inl (senderStep_price (senderStep_cases hst))
  | pop =>
    simp only [step] at hst
    split at hst <;> cases hst
    case h_1 hr =>
      refine .inr ⟨?_, ?_⟩ <;>
        simp only [State.price, State.calls, hr, ReceiverPc.price, ReceiverPc.calls, Await.price] <;>
        omega
  | closeReceiver =>
    simp only [step] at hst
    split at hst <;> cases hst
    case h_1 hr =>
      refine .inr ⟨?_, ?_⟩ <;>
        simp only [State.price, State.calls, hr, ReceiverPc.price, ReceiverPc.calls, Await.price] <;>
        omega
  | receiver => exact .inl (receiverStep_price (receiverStep_cases hst))

/-- **No busy waiting.** In any interleaving a run has at most sixteen steps for each call. -/
theorem steps_le_calls (hrun : Run (step senderMode receiverMode) ok init as s) :
    as.length + s.price ≤ 16 * s.calls := by
  generalize hinit : (init : State T) = s₀ at hrun
  induction hrun with
  | nil =>
    subst hinit
    exact Nat.le_refl 0
  | snoc _ _ hst hle =>
    rw [List.length_append, List.length_singleton]
    rcases step_price hst with ⟨h1, h2⟩ | ⟨h1, h2⟩ <;> omega

end CoAwait.UnbufferedChannel
