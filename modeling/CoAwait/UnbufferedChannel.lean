import CoAwait.LightFuture
import CoAwait.Runs

/-!
# `UnbufferedChannel` (`channel.hpp:16-64`)

One sender and one receiver. Each atomic operation on the two `LightFutureData` and each `emplace` is one
step, and so are the store of a value before its `exchange`, the call of a continuation and the read of a
result.

| here | there |
| --- | --- |
| `Cell`                            | `std::optional<impl::LightFutureData<…>>`, never empty (`:20-21`) |
| `Await`, `Cell.awaitStep`         | `co::await(*value)`, `co::await(*valueRead)` up to `get_unchecked` (`await.hpp:194-229`) |
| `Mode.loads`                      | the loads before `suspend`: one in a coroutine, seven on a plain thread (`future.hpp:217-256`) |
| `Cell.get`                        | `get_unchecked` with its assertion (`future.hpp:211-215`) |
| `SenderPc`, `senderStep`          | `closeSender`, `push` (`:35-43`) |
| `ReceiverPc`, `receiverStep`      | `closeReceiver`, `pop` (`:45-63`) |

A pointer to the local `val` of the `i`-th `push` is `some i`, `nullptr` is `none`. Only one side awaits
each future, so the address of its task needs no name; to call it is to let that side go on, in one step also where
it is the `ConditionVariableTask` of a thread. What a woken coroutine runs inside the call are steps of its own side.

`Cell.sets` and `Cell.suspends` count the `set_value` and `suspend` calls since the last `emplace`.
`pushed`, `results`, `got`, `popped` and `closeTook` record the arguments and results of the `push` calls, the
values moved out through `*ptr`, the results of the `pop` calls and the offer that `closeReceiver` took.
-/

namespace CoAwait.UnbufferedChannel

variable {α T : Type}

/-! ## One future of the channel -/

structure Cell (α : Type) where
  fut : LightFutureData Unit α := {}
  sets : Nat := 0
  suspends : Nat := 0
deriving DecidableEq, Repr

/-- Where the awaiting side runs. -/
inductive Mode where
  | routine
  | thread
deriving DecidableEq, Repr

/-- `await_ready`; on a thread also `get_blocking` and the five rounds of `wait`. -/
def Mode.loads : Mode → Nat
  | .routine => 1
  | .thread => 7

/-- Inside `co::await`; `poll n` after `n` loads that found the future not ready. -/
inductive Await where
  | poll (n : Nat)
  | suspend
  | parked
  | get
deriving DecidableEq, Repr

namespace Cell

/-- One step of `co::await`; `none` while parked, and where the assertion of `suspend` fails. -/
def awaitStep (mode : Mode) (c : Cell α) : Await → Option (Cell α × Await)
  | .poll n =>
    if c.fut.isReady then some (c, .get)
    else if n + 1 < mode.loads then some (c, .poll (n + 1))
    else some (c, .suspend)
  | .suspend =>
    match c.fut.suspend () with
    | (true, f) => some ({ c with fut := f, suspends := c.suspends + 1 }, .parked)
    | (false, f) =>
      if f.isReady then some ({ c with fut := f, suspends := c.suspends + 1 }, .get) else none
  | .parked | .get => none

/-- `get_unchecked`. -/
def get (c : Cell α) : Option α :=
  match c.fut.isReady, c.fut.value with
  | true, .val v => some v
  | _, _ => none

/-- `value = std::move(val)` in `set_value`. -/
def store (c : Cell α) (v : α) : Cell α := { c with fut := c.fut.store (.val v) }

/-- `on_ready` up to the call: whether there is a continuation; `none` where it was set before. -/
def exchange (c : Cell α) : Option (Bool × Cell α) :=
  match c.fut.exchange .invalid with
  | (.empty, f) => some (false, { c with fut := f, sets := c.sets + 1 })
  | (.task (), f) => some (true, { c with fut := f, sets := c.sets + 1 })
  | (.invalid, _) => none

end Cell

/-! ## The two sides -/

/-- The sender's program counter. `p` is the pointer it publishes, `i` the current `push`. -/
inductive SenderPc where
  | idle
  | store (p : Option Nat)
  | exchange (p : Option Nat)
  | call (p : Option Nat)
  | await (i : Nat) (a : Await)
  | emplace (i : Nat) (res : Bool)
  /-- `push` has returned `false`: the sender stops pushing. -/
  | refused
  | done
deriving DecidableEq, Repr

inductive Op where
  | pop
  | close
deriving DecidableEq, Repr

/-- What the receiver does with the offer it took: a `pop` with its `res`, or `closeReceiver`. -/
inductive Taking (T : Type) where
  | pop (res : T)
  | close
deriving DecidableEq, Repr

/-- The argument of `valueRead->set_value`. -/
def Taking.answer : Taking T → Bool
  | .pop _ => true
  | .close => false

/-- The receiver's program counter. -/
inductive ReceiverPc (T : Type) where
  | idle
  | await (op : Op) (a : Await)
  | deref (i : Nat)
  | emplace (r : Taking T)
  | store (r : Taking T)
  | exchange (r : Taking T)
  | call (r : Taking T)
  | done
deriving DecidableEq, Repr

structure State (T : Type) where
  value : Cell (Option Nat) := {}
  valueRead : Cell Bool := {}
  spc : SenderPc := .idle
  rpc : ReceiverPc T := .idle
  pushed : List T := []
  results : List Bool := []
  got : List T := []
  popped : List (Option T) := []
  closeTook : Option Nat := none
deriving DecidableEq, Repr

def init : State T := {}

inductive Act (T : Type) where
  | push (val : T)
  | closeSender
  | sender
  | pop
  | closeReceiver
  | receiver
deriving DecidableEq, Repr

/-- After `value->set_value(p)`: `push` awaits `valueRead`, `closeSender` returns. -/
def SenderPc.afterSet : Option Nat → SenderPc
  | some i => .await i (.poll 0)
  | none => .done

def senderStep (mode : Mode) (s : State T) : Option (State T) :=
  match s.spc with
  | .idle | .refused | .done => none
  | .store p => some { s with value := s.value.store p, spc := .exchange p }
  | .exchange p =>
    match s.value.exchange with
    | some (false, c) => some { s with value := c, spc := .afterSet p }
    | some (true, c) => some { s with value := c, spc := .call p }
    | none => none
  | .call p =>
    match s.rpc with
    | .await op .parked => some { s with rpc := .await op .get, spc := .afterSet p }
    | _ => none
  | .await i .get =>
    match s.valueRead.get with
    | some res => some { s with spc := .emplace i res }
    | none => none
  | .await i a =>
    match s.valueRead.awaitStep mode a with
    | some (c, a) => some { s with valueRead := c, spc := .await i a }
    | none => none
  | .emplace _ res =>
    some { s with valueRead := {}, results := s.results ++ [res], spc := if res then .idle else .refused }

/-- After `valueRead->set_value`: `pop` returns its `res`, `closeReceiver` returns. -/
def State.answered (s : State T) : Taking T → State T
  | .pop res => { s with rpc := .idle, popped := s.popped ++ [some res] }
  | .close => { s with rpc := .done }

def receiverStep (mode : Mode) (s : State T) : Option (State T) :=
  match s.rpc with
  | .idle | .done => none
  | .await op .get =>
    match s.value.get, op with
    | some (some i), .pop => some { s with rpc := .deref i }
    | some none, .pop => some { s with rpc := .idle, popped := s.popped ++ [none] }
    | some p, .close => some { s with rpc := .emplace .close, closeTook := p }
    | none, _ => none
  | .await op a =>
    match s.value.awaitStep mode a with
    | some (c, a) => some { s with value := c, rpc := .await op a }
    | none => none
  | .deref i =>
    match s.pushed[i]? with
    | some x => some { s with rpc := .emplace (.pop x), got := s.got ++ [x] }
    | none => none
  | .emplace r => some { s with value := {}, rpc := .store r }
  | .store r => some { s with valueRead := s.valueRead.store r.answer, rpc := .exchange r }
  | .exchange r =>
    match s.valueRead.exchange with
    | some (false, c) => some ({ s with valueRead := c }.answered r)
    | some (true, c) => some { s with valueRead := c, rpc := .call r }
    | none => none
  | .call r =>
    match s.spc with
    | .await i .parked => some ({ s with spc := .await i .get }.answered r)
    | _ => none

/-- `senderMode` and `receiverMode` say where the two sides run. -/
def step (senderMode receiverMode : Mode) (s : State T) : Act T → Option (State T)
  | .push val =>
    match s.spc with
    | .idle => some { s with spc := .store (some s.pushed.length), pushed := s.pushed ++ [val] }
    | _ => none
  | .closeSender =>
    match s.spc with
    | .idle | .refused => some { s with spc := .store none }
    | _ => none
  | .sender => senderStep senderMode s
  | .pop =>
    match s.rpc with
    | .idle => some { s with rpc := .await .pop (.poll 0) }
    | _ => none
  | .closeReceiver =>
    match s.rpc with
    | .idle => some { s with rpc := .await .close (.poll 0) }
    | _ => none
  | .receiver => receiverStep receiverMode s

/-- The receiver stops popping at the empty optional. -/
def stopsAtEmpty (s : State T) : Act T → Prop
  | .pop => none ∉ s.popped
  | _ => True

instance (s : State T) : (a : Act T) → Decidable (stopsAtEmpty s a)
  | .pop => decidable_of_iff (s.popped.all Option.isSome = true) (by
      rw [List.all_eq_true]
      exact ⟨fun h hn => by simpa using h none hn, fun h x hx => by cases x with
        | none => exact absurd hx h
        | some y => rfl⟩)
  | .push _ | .closeSender | .sender | .closeReceiver | .receiver => .isTrue trivial

end CoAwait.UnbufferedChannel
