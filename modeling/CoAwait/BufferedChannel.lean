import Mathlib.Data.List.Basic
import CoAwait.Runs

/-!
# `BufferedChannel` (`channel.hpp:66-254`)

Any number of senders and receivers. Each section under `mMutex` is one step, and so is each `set_value`
done after the lock is released. A call is named by the order of the critical sections of its kind: push
call `i` is the `i`-th `push` to enter its section, pop call `k` the `k`-th `pop`. These numbers stand for
the addresses of the futures on the stacks of the calls.

| here | there |
| --- | --- |
| `Channel`                                | the members of `BufferedChannel` (`:81-93`) |
| `Channel.push` … `Channel.setMaxQueueSize` | the sections under `mMutex` (`:124-253`); `none` is a failing assertion |
| `PushCall`, `PopCall`                    | the locals of `push` (`:173-174`) and `pop` (`:226-227`), the future as `Option` of its value |
| `Act.handOver`, `Act.wakeSender`         | `receiver->set_value(std::move(val))` (`:201-202`), `sender->set_value(true)` (`:249-250`) |
| `Act.notifyResized` …                    | one round of the loops over `notify` (`:145`, `:167`, `:220`) |
| `Act.pushReturn`, `Act.popReturn`        | `co::await(self)` returns |

The code is generic in the element type; the runs use it at elements tagged with the push call they come
from, so that equal elements of different calls stay distinguishable. `accepted` and `assigned` record the
elements in the order in which the sections accept them and assign them to pops.
-/

namespace CoAwait.BufferedChannel

variable {α T : Type}

structure Channel (α : Type) where
  mReadyData : List α := []
  mWaitingSender : List Nat := []
  mWaitingReceiver : List Nat := []
  mSenderClosed : Bool := false
  mReceiverClosed : Bool := false
  mMaxQueueSize : Nat := 2
deriving DecidableEq, Repr

namespace Channel

/-- The loop `for (size_t i = mMaxQueueSize; i < cnt; i++)` of `setMaxQueueSize`, with its number of rounds:
`notify` and the remaining `mWaitingSender`. -/
def releaseSenders : Nat → List Nat → List Nat → List Nat × List Nat
  | 0, notify, ws => (notify, ws)
  | _ + 1, notify, [] => (notify, [])
  | n + 1, notify, w :: ws => releaseSenders n (notify ++ [w]) ws

def setMaxQueueSize (c : Channel α) (cnt : Nat) : Option (Channel α × List Nat) :=
  if cnt = 0 then none
  else if c.mReadyData.length < cnt then
    let (notify, ws) := releaseSenders (cnt - c.mMaxQueueSize) [] c.mWaitingSender
    some ({ c with mWaitingSender := ws, mMaxQueueSize := cnt }, notify)
  else some ({ c with mMaxQueueSize := cnt }, [])

def closeSender (c : Channel α) : Option (Channel α × List Nat) :=
  if c.mSenderClosed || !c.mWaitingSender.isEmpty then none
  else if c.mWaitingReceiver.isEmpty then some ({ c with mSenderClosed := true }, [])
  else if !c.mReadyData.isEmpty then none
  else some ({ c with mSenderClosed := true, mWaitingReceiver := [] }, c.mWaitingReceiver)

/-- The channel, `receiver`, and what `self` is completed with inside the section. -/
def push (c : Channel α) (self : Nat) (val : α) : Option (Channel α × Option Nat × Option Bool) :=
  if c.mSenderClosed then none
  else match c.mWaitingReceiver with
    | receiver :: rest =>
      if c.mReceiverClosed then none else some ({ c with mWaitingReceiver := rest }, some receiver, some true)
    | [] =>
      if c.mReceiverClosed then some (c, none, some false)
      else
        let c := { c with mReadyData := c.mReadyData ++ [val] }
        if c.mReadyData.length ≥ c.mMaxQueueSize then
          some ({ c with mWaitingSender := c.mWaitingSender ++ [self] }, none, none)
        else some (c, none, some true)

def closeReceiver (c : Channel α) : Option (Channel α × List Nat) :=
  if c.mReceiverClosed || !c.mWaitingReceiver.isEmpty then none
  else some ({ c with mReceiverClosed := true, mWaitingSender := [] }, c.mWaitingSender)

/-- The channel, `sender`, and what `self` is completed with inside the section. -/
def pop (c : Channel α) (self : Nat) : Option (Channel α × Option Nat × Option (Option α)) :=
  if c.mReceiverClosed then none
  else match c.mReadyData with
    | val :: rest =>
      match c.mWaitingSender with
      | [] => some ({ c with mReadyData := rest }, none, some (some val))
      | sender :: ws => some ({ c with mReadyData := rest, mWaitingSender := ws }, some sender, some (some val))
    | [] =>
      if c.mSenderClosed then
        if c.mWaitingSender.isEmpty then some (c, none, some none) else none
      else some ({ c with mWaitingReceiver := c.mWaitingReceiver ++ [self] }, none, none)

end Channel

/-- A `push` call after its section; `receiver` is the hand-over it still has to do. -/
structure PushCall (T : Type) where
  val : T
  self : Option Bool
  receiver : Option Nat
  returned : Bool := false
deriving DecidableEq, Repr

/-- A `pop` call after its section; `sender` is the sender it still has to wake. -/
structure PopCall (T : Type) where
  self : Option (Option (Nat × T))
  sender : Option Nat
  returned : Bool := false
deriving DecidableEq, Repr

structure State (T : Type) where
  chan : Channel (Nat × T) := {}
  pushes : List (PushCall T) := []
  pops : List (PopCall T) := []
  /-- The remaining `notify` of each call of `setMaxQueueSize`. -/
  resized : List (List Nat) := []
  senderClosing : List Nat := []
  receiverClosing : List Nat := []
  accepted : List (Nat × T) := []
  assigned : List (Nat × T) := []
deriving DecidableEq, Repr

def init : State T := {}

inductive Act (T : Type) where
  | push (val : T)
  | handOver (i : Nat)
  | pushReturn (i : Nat)
  | pop
  | wakeSender (k : Nat)
  | popReturn (k : Nat)
  | setMaxQueueSize (cnt : Nat)
  | notifyResized (r : Nat)
  | closeSender
  | notifyReceiver
  | closeReceiver
  | notifySender
deriving DecidableEq, Repr

/-- `set_value(b)` on the future of push call `i`; the second one fails the assertion of `on_ready`. -/
def State.completePush (s : State T) (i : Nat) (b : Bool) : Option (State T) :=
  match s.pushes[i]? with
  | some q => if q.self.isNone then some { s with pushes := s.pushes.set i { q with self := some b } } else none
  | none => none

/-- `set_value(r)` on the future of pop call `k`. -/
def State.completePop (s : State T) (k : Nat) (r : Option (Nat × T)) : Option (State T) :=
  match s.pops[k]? with
  | some p => if p.self.isNone then some { s with pops := s.pops.set k { p with self := some r } } else none
  | none => none

def pushStep (s : State T) (val : T) : Option (State T) :=
  let i := s.pushes.length
  match s.chan.push i (i, val) with
  | none => none
  | some (chan, receiver, self) =>
    let s := { s with chan := chan, pushes := s.pushes ++ [{ val, self, receiver }] }
    match receiver, self with
    | some _, _ => some { s with accepted := s.accepted ++ [(i, val)], assigned := s.assigned ++ [(i, val)] }
    | none, some false => some s
    | none, _ => some { s with accepted := s.accepted ++ [(i, val)] }

def popStep (s : State T) : Option (State T) :=
  match s.chan.pop s.pops.length with
  | none => none
  | some (chan, sender, self) =>
    let s := { s with chan := chan, pops := s.pops ++ [{ self, sender }] }
    match self with
    | some (some val) => some { s with assigned := s.assigned ++ [val] }
    | _ => some s

def step (s : State T) : Act T → Option (State T)
  | .push val => pushStep s val
  | .handOver i =>
    match s.pushes[i]? with
    | some ⟨val, self, some k, returned⟩ =>
      { s with pushes := s.pushes.set i ⟨val, self, none, returned⟩ }.completePop k (some (i, val))
    | _ => none
  | .pushReturn i =>
    match s.pushes[i]? with
    | some ⟨val, some b, none, false⟩ => some { s with pushes := s.pushes.set i ⟨val, some b, none, true⟩ }
    | _ => none
  | .pop => popStep s
  | .wakeSender k =>
    match s.pops[k]? with
    | some ⟨self, some w, returned⟩ =>
      { s with pops := s.pops.set k ⟨self, none, returned⟩ }.completePush w true
    | _ => none
  | .popReturn k =>
    match s.pops[k]? with
    | some ⟨some r, none, false⟩ => some { s with pops := s.pops.set k ⟨some r, none, true⟩ }
    | _ => none
  | .setMaxQueueSize cnt =>
    match s.chan.setMaxQueueSize cnt with
    | none => none
    | some (chan, notify) => some { s with chan := chan, resized := s.resized ++ [notify] }
  | .notifyResized r =>
    match s.resized[r]? with
    | some (w :: rest) => { s with resized := s.resized.set r rest }.completePush w false
    | _ => none
  | .closeSender =>
    match s.chan.closeSender with
    | none => none
    | some (chan, notify) => some { s with chan := chan, senderClosing := notify }
  | .notifyReceiver =>
    match s.senderClosing with
    | k :: rest => { s with senderClosing := rest }.completePop k none
    | [] => none
  | .closeReceiver =>
    match s.chan.closeReceiver with
    | none => none
    | some (chan, notify) => some { s with chan := chan, receiverClosing := notify }
  | .notifySender =>
    match s.receiverClosing with
    | w :: rest => { s with receiverClosing := rest }.completePush w false
    | [] => none

/-- The contract of the callers: the last sender closes after all `push` calls have returned, the last
receiver after all `pop` calls have. (That each closes once and that nobody pushes or pops after it is
asserted in the sections.) -/
def disciplined (s : State T) : Act T → Prop
  | .closeSender => ∀ q ∈ s.pushes, q.returned = true
  | .closeReceiver => ∀ p ∈ s.pops, p.returned = true
  | _ => True

instance (s : State T) : (a : Act T) → Decidable (disciplined s a)
  | .closeSender => inferInstanceAs (Decidable (∀ q ∈ s.pushes, q.returned = true))
  | .closeReceiver => inferInstanceAs (Decidable (∀ p ∈ s.pops, p.returned = true))
  | .push _ | .handOver _ | .pushReturn _ | .pop | .wakeSender _ | .popReturn _ | .setMaxQueueSize _
  | .notifyResized _ | .notifyReceiver | .notifySender => .isTrue trivial

/-- `setMaxQueueSize(cnt)` would release a parked sender now. -/
def Channel.releases (c : Channel α) (cnt : Nat) : Bool :=
  decide (c.mReadyData.length < cnt) && decide (c.mMaxQueueSize < cnt) && !c.mWaitingSender.isEmpty

/-- The runs in which no `setMaxQueueSize` releases a parked sender. -/
def noRelease (s : State T) : Act T → Prop
  | .setMaxQueueSize cnt => s.chan.releases cnt = false
  | _ => True

instance (s : State T) : (a : Act T) → Decidable (noRelease s a)
  | .setMaxQueueSize _ => inferInstanceAs (Decidable (_ = _))
  | .push _ | .handOver _ | .pushReturn _ | .pop | .wakeSender _ | .popReturn _ | .closeSender
  | .closeReceiver | .notifyResized _ | .notifyReceiver | .notifySender => .isTrue trivial

end CoAwait.BufferedChannel
