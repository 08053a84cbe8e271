import CoAwait.BufferedChannel
import CoAwait.ChannelOrder
import CoAwait.ChannelClients
import CoAwait.Handles

/-!
# `SharedChannel` (`channel.hpp:256-409`)

Any number of threads and coroutines share the `Sender` and the `Receiver` that `makeBufferedChannel` returns, by
copies of the two `std::shared_ptr`. What they push and pop, and when, is left open; `generateForMultiConsumer`
(`generate.hpp:27-41`) is the case in which the first copy of the sender goes into a Routine and the function gives
its own one back.

| here | there |
| --- | --- |
| `State.senders`, `State.receivers`     | the owners of the two handles; the use count is that of the `shared_ptr` |
| `Act.copySender`, `Act.dropSender`     | a copy of the `shared_ptr`, the destructor of one; the last one runs `~Sender` (`:279`) |
| `Act.push`                             | `Sender::operator()` (`:281`) |
| `Act.pop`                              | `Receiver::iterator`: its constructor and `operator++` (`:335`, `:348-352`) |
| `Act.sender`, `Act.receiver`           | the next operation of the owner: of its call, or of `close()` (`:283-290`, `:366-373`) |
| `makeBufferedChannel`                  | `:400-409` |
| `State.taken`                          | which owner has got what by which pop |

`close()` is called by the destructors only, and `operator=` is not used (it does not return).
-/

namespace CoAwait.SharedChannel

open Runs Table Handles
open BufferedChannel (disciplined noRelease)

structure State (T : Type) where
  chan : BufferedChannel.State T
  senders : List Phase := [.idle]
  receivers : List Phase := [.idle]
  taken : List (Nat × Nat) := []
deriving DecidableEq, Repr

variable {T : Type}

def makeBufferedChannel (maxQueueSize : Nat) : Option (State T) :=
  (BufferedChannel.step BufferedChannel.init (.setMaxQueueSize maxQueueSize)).map fun c => { chan := c }

inductive Act (T : Type) where
  | copySender (p : Nat)
  | push (p : Nat) (val : T)
  | dropSender (p : Nat)
  | sender (p : Nat)
  | copyReceiver (c : Nat)
  | pop (c : Nat)
  | dropReceiver (c : Nat)
  | receiver (c : Nat)
deriving DecidableEq, Repr

/-- The next operation of `push` or of `~Sender` in owner `p`. -/
def senderStep (s : State T) (p : Nat) : Option (State T) :=
  match s.senders[p]? with
  | some (.calling i) =>
    if (s.chan.handing i).isSome then (BufferedChannel.step s.chan (.handOver i)).map fun c => { s with chan := c }
    else (BufferedChannel.step s.chan (.pushReturn i)).map fun c =>
      { s with chan := c, senders := s.senders.set p .idle }
  | some .closing =>
    (BufferedChannel.step s.chan .closeSender).map fun c => { s with chan := c, senders := s.senders.set p .notifying }
  | some .notifying =>
    if s.chan.senderClosing.isEmpty then some { s with senders := s.senders.set p .left }
    else (BufferedChannel.step s.chan .notifyReceiver).map fun c => { s with chan := c }
  | _ => none

/-- The next operation of `pop` or of `~Receiver` in owner `c`. -/
def receiverStep (s : State T) (c : Nat) : Option (State T) :=
  match s.receivers[c]? with
  | some (.calling k) =>
    if (s.chan.waking k).isSome then (BufferedChannel.step s.chan (.wakeSender k)).map fun ch => { s with chan := ch }
    else (BufferedChannel.step s.chan (.popReturn k)).map fun ch =>
      { s with chan := ch, receivers := s.receivers.set c .idle, taken := s.taken ++ [(c, k)] }
  | some .closing =>
    (BufferedChannel.step s.chan .closeReceiver).map fun ch =>
      { s with chan := ch, receivers := s.receivers.set c .notifying }
  | some .notifying =>
    if s.chan.receiverClosing.isEmpty then some { s with receivers := s.receivers.set c .left }
    else (BufferedChannel.step s.chan .notifySender).map fun ch => { s with chan := ch }
  | _ => none

def step (s : State T) : Act T → Option (State T)
  | .copySender p =>
    match s.senders[p]? with
    | some .idle => some { s with senders := s.senders ++ [.idle] }
    | _ => none
  | .push p val =>
    match s.senders[p]? with
    | some .idle => (BufferedChannel.step s.chan (.push val)).map fun c =>
      { s with chan := c, senders := s.senders.set p (.calling s.chan.pushes.length) }
    | _ => none
  | .dropSender p =>
    match s.senders[p]? with
    | some .idle => some { s with senders := s.senders.set p (released s.senders) }
    | _ => none
  | .sender p => senderStep s p
  | .copyReceiver c =>
    match s.receivers[c]? with
    | some .idle => some { s with receivers := s.receivers ++ [.idle] }
    | _ => none
  | .pop c =>
    match s.receivers[c]? with
    | some .idle => (BufferedChannel.step s.chan .pop).map fun ch =>
      { s with chan := ch, receivers := s.receivers.set c (.calling s.chan.pops.length) }
    | _ => none
  | .dropReceiver c =>
    match s.receivers[c]? with
    | some .idle => some { s with receivers := s.receivers.set c (released s.receivers) }
    | _ => none
  | .receiver c => receiverStep s c

/-- Steps of the library, in a call or in a destructor. -/
def Act.library : Act T → Bool
  | .sender _ | .receiver _ => true
  | _ => false

/-! ## What a step can do -/

inductive Step (s : State T) : Act T → State T → Prop
  | copySender {p : Nat} (hp : s.senders[p]? = some .idle) :
      Step s (.copySender p) { s with senders := s.senders ++ [.idle] }
  | push {p : Nat} {val : T} {c : BufferedChannel.State T} (hp : s.senders[p]? = some .idle)
      (hc : BufferedChannel.step s.chan (.push val) = some c) :
      Step s (.push p val) { s with chan := c, senders := s.senders.set p (.calling s.chan.pushes.length) }
  | dropSender {p : Nat} (hp : s.senders[p]? = some .idle) :
      Step s (.dropSender p) { s with senders := s.senders.set p (released s.senders) }
  | handOver {p i : Nat} {c : BufferedChannel.State T} (hp : s.senders[p]? = some (.calling i))
      (hc : BufferedChannel.step s.chan (.handOver i) = some c) : Step s (.sender p) { s with chan := c }
  | pushReturn {p i : Nat} {c : BufferedChannel.State T} (hp : s.senders[p]? = some (.calling i))
      (hc : BufferedChannel.step s.chan (.pushReturn i) = some c) :
      Step s (.sender p) { s with chan := c, senders := s.senders.set p .idle }
  | closeSender {p : Nat} {c : BufferedChannel.State T} (hp : s.senders[p]? = some .closing)
      (hc : BufferedChannel.step s.chan .closeSender = some c) :
      Step s (.sender p) { s with chan := c, senders := s.senders.set p .notifying }
  | notifyReceiver {p : Nat} {c : BufferedChannel.State T} (hp : s.senders[p]? = some .notifying)
      (hc : BufferedChannel.step s.chan .notifyReceiver = some c) : Step s (.sender p) { s with chan := c }
  | senderLeaves {p : Nat} (hp : s.senders[p]? = some .notifying) (hnone : s.chan.senderClosing = []) :
      Step s (.sender p) { s with senders := s.senders.set p .left }
  | copyReceiver {c : Nat} (hp : s.receivers[c]? = some .idle) :
      Step s (.copyReceiver c) { s with receivers := s.receivers ++ [.idle] }
  | pop {c : Nat} {ch : BufferedChannel.State T} (hp : s.receivers[c]? = some .idle)
      (hc : BufferedChannel.step s.chan .pop = some ch) :
      Step s (.pop c) { s with chan := ch, receivers := s.receivers.set c (.calling s.chan.pops.length) }
  | dropReceiver {c : Nat} (hp : s.receivers[c]? = some .idle) :
      Step s (.dropReceiver c) { s with receivers := s.receivers.set c (released s.receivers) }
  | wakeSender {c k : Nat} {ch : BufferedChannel.State T} (hp : s.receivers[c]? = some (.calling k))
      (hc : BufferedChannel.step s.chan (.wakeSender k) = some ch) : Step s (.receiver c) { s with chan := ch }
  | popReturn {c k : Nat} {ch : BufferedChannel.State T} (hp : s.receivers[c]? = some (.calling k))
      (hc : BufferedChannel.step s.chan (.popReturn k) = some ch) :
      Step s (.receiver c)
        { s with chan := ch, receivers := s.receivers.set c .idle, taken := s.taken ++ [(c, k)] }
  | closeReceiver {c : Nat} {ch : BufferedChannel.State T} (hp : s.receivers[c]? = some .closing)
      (hc : BufferedChannel.step s.chan .closeReceiver = some ch) :
      Step s (.receiver c) { s with chan := ch, receivers := s.receivers.set c .notifying }
  | notifySender {c : Nat} {ch : BufferedChannel.State T} (hp : s.receivers[c]? = some .notifying)
      (hc : BufferedChannel.step s.chan .notifySender = some ch) : Step s (.receiver c) { s with chan := ch }
  | receiverLeaves {c : Nat} (hp : s.receivers[c]? = some .notifying) (hnone : s.chan.receiverClosing = []) :
      Step s (.receiver c) { s with receivers := s.receivers.set c .left }

variable {s s' : State T} {a : Act T}

theorem senderStep_cases {p : Nat} (h : senderStep s p = some s') : Step s (.sender p) s' := by
  unfold senderStep at h
  split at h
  case h_1 i hp =>
    split at h
    case isTrue =>
      obtain ⟨c, hc, rfl⟩ := Option.map_eq_some_iff.1 h
      exact .handOver hp hc
    case isFalse =>
      obtain ⟨c, hc, rfl⟩ := Option.map_eq_some_iff.1 h
      exact .pushReturn hp hc
  case h_2 hp =>
    obtain ⟨c, hc, rfl⟩ := Option.map_eq_some_iff.1 h
    exact .closeSender hp hc
  case h_3 hp =>
    split at h
    case isTrue hnone =>
      obtain rfl := Option.some.inj h
      exact .senderLeaves hp (List.isEmpty_iff.1 hnone)
    case isFalse =>
      obtain ⟨c, hc, rfl⟩ := Option.map_eq_some_iff.1 h
      exact .notifyReceiver hp hc
  case h_4 => cases h

theorem receiverStep_cases {c : Nat} (h : receiverStep s c = some s') : Step s (.receiver c) s' := by
  unfold receiverStep at h
  split at h
  case h_1 k hp =>
    split at h
    case isTrue =>
      obtain ⟨ch, hc, rfl⟩ := Option.map_eq_some_iff.1 h
      exact .wakeSender hp hc
    case isFalse =>
      obtain ⟨ch, hc, rfl⟩ := Option.map_eq_some_iff.1 h
      exact .popReturn hp hc
  case h_2 hp =>
    obtain ⟨ch, hc, rfl⟩ := Option.map_eq_some_iff.1 h
    exact .closeReceiver hp hc
  case h_3 hp =>
    split at h
    case isTrue hnone =>
      obtain rfl := Option.some.inj h
      exact .receiverLeaves hp (List.isEmpty_iff.1 hnone)
    case isFalse =>
      obtain ⟨ch, hc, rfl⟩ := Option.map_eq_some_iff.1 h
      exact .notifySender hp hc
  case h_4 => cases h

theorem step_cases (h : step s a = some s') : Step s a s' := by
  unfold step at h
  split at h
  case h_1 =>
    split at h
    case h_1 hp =>
      obtain rfl := Option.some.inj h
      exact .copySender hp
    case h_2 => cases h
  case h_2 =>
    split at h
    case h_1 hp =>
      obtain ⟨c, hc, rfl⟩ := Option.map_eq_some_iff.1 h
      exact .push hp hc
    case h_2 => cases h
  case h_3 =>
    split at h
    case h_1 hp =>
      obtain rfl := Option.some.inj h
      exact .dropSender hp
    case h_2 => cases h
  case h_4 => exact senderStep_cases h
  case h_5 =>
    split at h
    case h_1 hp =>
      obtain rfl := Option.some.inj h
      exact .copyReceiver hp
    case h_2 => cases h
  case h_6 =>
    split at h
    case h_1 hp =>
      obtain ⟨ch, hc, rfl⟩ := Option.map_eq_some_iff.1 h
      exact .pop hp hc
    case h_2 => cases h
  case h_7 =>
    split at h
    case h_1 hp =>
      obtain rfl := Option.some.inj h
      exact .dropReceiver hp
    case h_2 => cases h
  case h_8 => exact receiverStep_cases h

end CoAwait.SharedChannel
