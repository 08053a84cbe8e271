import Mathlib.Data.List.Basic
import CoAwait.ChannelClients

/-!
# `forEach` on an input range (`foreach.hpp:92-128`)

One caller, which iterates over the range and pushes the elements, and `maxParallelity` worker coroutines, which pop
them. The channel is `BufferedChannel`; each step of it is one step here.

| here | there |
| --- | --- |
| `Worker`, `workerStep`     | the lambda of a worker (`:102-112`) with `Receiver::iterator` (`channel.hpp:322-360`) |
| `Worker.leaving` …         | the captures are destroyed before the coroutine ends: `~Receiver` (`channel.hpp:316`) |
| `Caller`, `callerStep`     | `forEach` (`:94-128`), `~Sender` (`channel.hpp:279`) at the end of the scope of `chan` |
| `CallerAct.rangeThrow`     | `begin`, `end`, `++`, `*` of the range or the copy of `itm` throws |
| `Tail`                     | `:127-131` and the destructor of `coros`, also for the other branch |
| `State.calls`, `State.thrown` | what `func` was called with, and what it has thrown |
| `State.inlined`            | the worker that runs on the stack of the caller |

A coroutine starts on the stack of its creator (`routine.hpp:307-309`). `set_value` resumes a suspended one on the
spot when it is called outside of a coroutine; otherwise the resumption is posted (`routine.hpp:176-200`). Moving
an element does not throw.
-/

namespace CoAwait.ForEach

variable {T E : Type}

structure Config (T : Type) where
  maxParallelity : Nat
  positive : 0 < maxParallelity
  range : List T
  /-- `forEach` is called outside of a coroutine. -/
  plain : Bool

inductive Worker (T E : Type) where
  | iterating
  | popping (k : Nat)
  /-- Suspended in pop call `k`. -/
  | parked (k : Nat)
  | resumed (k : Nat)
  /-- In `func(itm)`. -/
  | running (x : Nat × T)
  | suspended (x : Nat × T)
  | failed (e : E)
  /-- The body has returned; the closure still owns the `Receiver`. -/
  | leaving
  /-- The closure was the last owner. -/
  | closing
  /-- In the loop over `notify` of `closeReceiver`. -/
  | notifying
  | released
  | finished
deriving DecidableEq, Repr

namespace Worker

def isFinished : Worker T E → Bool
  | finished => true
  | _ => false

/-- The closure owns the `Receiver`. -/
def holds : Worker T E → Bool
  | closing | notifying | released | finished => false
  | _ => true

/-- The pop call that is not returned. -/
def call : Worker T E → Option Nat
  | popping k | parked k | resumed k => some k
  | _ => none

def parkedIn (k : Nat) : Worker T E → Bool
  | parked k' => k' == k
  | _ => false

end Worker

/-- Awaiting the coroutines, `rethrow_exception`, and the destructor of `coros`. -/
inductive Tail (E : Type) where
  | awaiting (j : Nat)
  | destroying (j : Nat) (error : Option E)
  | returned (error : Option E)
  /-- `std::terminate` in `~Data` (`routine.hpp:314-318`). -/
  | terminated
deriving DecidableEq, Repr

/-- `ended` says of each element of `coros` whether its coroutine has finished. -/
def Tail.next (ended : List Bool) (firstError : Option E) : Tail E → Option (Tail E)
  | awaiting j =>
    match ended[j]? with
    | some true => some (awaiting (j + 1))
    | some false => none
    | none => some (destroying 0 firstError)
  | destroying j error =>
    match ended[j]? with
    | some true => some (destroying (j + 1) error)
    | some false => some terminated
    | none => some (returned error)
  | returned _ => none
  | terminated => none

inductive Caller (E : Type) where
  | creating
  | iterating
  /-- In push call `i`. -/
  | pushing (i : Nat)
  /-- `push` has returned `false`. -/
  | refused
  /-- `chan` goes out of scope. -/
  | leaving
  /-- In the loop over `notify` of `closeSender`. -/
  | notifying
  | tail (t : Tail E)
deriving DecidableEq, Repr

structure State (T E : Type) where
  chan : BufferedChannel.State T
  /-- What the range refers to. -/
  elements : List T
  itr : Nat := 0
  /-- `chan.receiver` is not yet reset. -/
  receiver : Bool := true
  /-- The coroutines in `coros`; the default constructed ones are left out. -/
  workers : List (Worker T E) := []
  caller : Caller E := .creating
  inlined : Option Nat := none
  firstError : Option E := none
  rangeError : Option E := none
  calls : List (Nat × T) := []
  thrown : List E := []
deriving DecidableEq, Repr

/-- The elements that are still to be pushed. -/
def State.todo (s : State T E) : List T := s.elements.drop s.itr

theorem State.todo_cons {s : State T E} {itm : T} (h : s.elements[s.itr]? = some itm) :
    s.todo = itm :: s.elements.drop (s.itr + 1) := by
  obtain ⟨hlt, rfl⟩ := List.getElem?_eq_some_iff.1 h
  exact List.drop_eq_getElem_cons hlt

/-- `makeBufferedChannel` (`channel.hpp:400-409`). -/
def makeBufferedChannel (maxQueueSize : Nat) : Option (BufferedChannel.State T) :=
  BufferedChannel.step BufferedChannel.init (.setMaxQueueSize maxQueueSize)

theorem makeBufferedChannel_isSome {n : Nat} (h : 0 < n) :
    (makeBufferedChannel n : Option (BufferedChannel.State T)).isSome :=
  BufferedChannel.due_isSome BufferedChannel.fifo_init BufferedChannel.clients_init h

def Config.init (c : Config T) : State T E where
  chan := (makeBufferedChannel c.maxParallelity).get (makeBufferedChannel_isSome c.positive)
  elements := c.range

inductive CallerAct (E : Type) where
  | create
  | dropReceiver
  | push
  | handOver
  | pushReturn
  | breakLoop
  | rangeEnd
  | rangeThrow (e : E)
  | closeSender
  | notifyReceiver
  | scopeLeft
  | tail
deriving DecidableEq, Repr

inductive WorkerAct (E : Type) where
  | pop
  | wakeSender
  | suspend
  | resume
  | popReturn
  | funcSuspend
  | funcResume
  | funcReturn
  | funcThrow (e : E)
  | handleError
  | release
  | closeReceiver
  | notifySender
  | finish
deriving DecidableEq, Repr

inductive Act (E : Type) where
  | caller (a : CallerAct E)
  | worker (w : Nat) (a : WorkerAct E)
deriving DecidableEq, Repr

def State.place (s : State T E) (w : Nat) (p : Worker T E) : State T E := { s with workers := s.workers.set w p }

/-- Worker `w` leaves the stack it runs on. -/
def State.yield (s : State T E) (w : Nat) (p : Worker T E) : State T E :=
  { s.place w p with inlined := if s.inlined = some w then none else s.inlined }

/-- The worker that `set_value` on the future of pop call `k` resumes on the spot. -/
def State.wake (s : State T E) (plain : Bool) (k : Nat) : Option Nat :=
  if plain then s.workers.findIdx? (Worker.parkedIn k) else none

def callerStep (c : Config T) (s : State T E) (a : CallerAct E) : Option (State T E) :=
  match s.caller, a with
  | .creating, .create =>
    if s.workers.length < c.maxParallelity then
      some { s with workers := s.workers ++ [.iterating], inlined := some s.workers.length }
    else none
  | .creating, .dropReceiver =>
    if s.workers.length = c.maxParallelity then
      if s.workers.any Worker.holds then some { s with receiver := false, caller := .iterating }
      else
        -- the last reference; nothing is pushed yet, so that `notify` is empty
        (BufferedChannel.step s.chan .closeReceiver).map fun chan =>
          { s with chan, receiver := false, caller := .iterating }
    else none
  | .iterating, .push =>
    -- `operator()(value_type val)` takes a copy of `itm`
    match s.elements[s.itr]? with
    | some itm =>
      (BufferedChannel.step s.chan (.push itm)).map fun chan =>
        { s with chan, itr := s.itr + 1, caller := .pushing s.chan.pushes.length }
    | none => none
  | .iterating, .rangeEnd => if s.itr = s.elements.length then some { s with caller := .leaving } else none
  | .iterating, .rangeThrow e => some { s with rangeError := some e, caller := .leaving }
  | .pushing i, .handOver =>
    match s.chan.handing i with
    | some k => (BufferedChannel.step s.chan (.handOver i)).map fun chan => { s with chan, inlined := s.wake c.plain k }
    | none => none
  | .pushing i, .pushReturn =>
    (BufferedChannel.step s.chan (.pushReturn i)).map fun chan =>
      { s with chan, caller := if s.chan.sent i = some true then .iterating else .refused }
  | .refused, .breakLoop => if s.firstError.isSome then some { s with caller := .leaving } else none
  | .leaving, .closeSender =>
    (BufferedChannel.step s.chan .closeSender).map fun chan => { s with chan, caller := .notifying }
  | .notifying, .notifyReceiver =>
    match s.chan.senderClosing with
    | k :: _ =>
      (BufferedChannel.step s.chan .notifyReceiver).map fun chan => { s with chan, inlined := s.wake c.plain k }
    | [] => none
  | .notifying, .scopeLeft =>
    if s.chan.senderClosing.isEmpty then
      match s.rangeError with
      | some e => some { s with caller := .tail (.destroying 0 (some e)) }
      | none => some { s with caller := .tail (.awaiting 0) }
    else none
  | .tail t, .tail =>
    (t.next (s.workers.map Worker.isFinished) s.firstError).map fun t => { s with caller := .tail t }
  | _, _ => none

/-- `mCurrent = mChannel->pop()` returns; with a value, `func` is called. -/
def popReturn (s : State T E) (w k : Nat) : Option (State T E) :=
  match s.chan.got k, BufferedChannel.step s.chan (.popReturn k) with
  | some (some x), some chan => some { s.place w (.running x) with chan, calls := s.calls ++ [x] }
  | some none, some chan => some { s.place w .leaving with chan }
  | _, _ => none

def workerStep (s : State T E) (w : Nat) (p : Worker T E) (a : WorkerAct E) : Option (State T E) :=
  match p, a with
  | .iterating, .pop =>
    (BufferedChannel.step s.chan .pop).map fun chan => { s.place w (.popping s.chan.pops.length) with chan }
  | .popping k, .wakeSender => (BufferedChannel.step s.chan (.wakeSender k)).map fun chan => { s with chan }
  | .popping k, .suspend =>
    if (s.chan.got k).isNone && (s.chan.waking k).isNone then some (s.yield w (.parked k)) else none
  | .parked k, .resume => if (s.chan.got k).isSome then some (s.place w (.resumed k)) else none
  | .popping k, .popReturn => popReturn s w k
  | .resumed k, .popReturn => popReturn s w k
  | .running x, .funcSuspend => some (s.yield w (.suspended x))
  | .suspended x, .funcResume => some (s.place w (.running x))
  | .running _, .funcReturn => some (s.place w .iterating)
  | .running _, .funcThrow e => some { s.place w (.failed e) with thrown := s.thrown ++ [e] }
  | .failed e, .handleError =>
    some { s.place w .leaving with firstError := if s.firstError.isSome then s.firstError else some e }
  | .leaving, .release =>
    if s.receiver || (s.workers.set w .released).any Worker.holds then some (s.place w .released)
    else some (s.place w .closing)
  | .closing, .closeReceiver =>
    (BufferedChannel.step s.chan .closeReceiver).map fun chan => { s.place w .notifying with chan }
  | .notifying, .notifySender => (BufferedChannel.step s.chan .notifySender).map fun chan => { s with chan }
  | .notifying, .finish => if s.chan.receiverClosing.isEmpty then some (s.yield w .finished) else none
  | .released, .finish => some (s.yield w .finished)
  | _, _ => none

/-- The caller goes on when the worker on its stack has left it. -/
def step (c : Config T) (s : State T E) : Act E → Option (State T E)
  | .caller a => if s.inlined.isSome then none else callerStep c s a
  | .worker w a => (s.workers[w]?).bind fun p => workerStep s w p a

/-- The runs in which the range does not throw. -/
def rangeKeeps (_ : State T E) : Act E → Prop
  | .caller (.rangeThrow _) => False
  | _ => True

instance (s : State T E) : (a : Act E) → Decidable (rangeKeeps s a)
  | .caller (.rangeThrow _) => .isFalse id
  | .caller .create | .caller .dropReceiver | .caller .push | .caller .handOver | .caller .pushReturn
  | .caller .breakLoop | .caller .rangeEnd | .caller .closeSender | .caller .notifyReceiver | .caller .scopeLeft
  | .caller .tail | .worker _ _ => .isTrue trivial

end CoAwait.ForEach
