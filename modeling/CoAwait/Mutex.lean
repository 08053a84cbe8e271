import Mathlib.Logic.Function.Basic
import CoAwait.Counting
import CoAwait.Runs

/-!
# `BaseMutex` (`mutex.hpp`)

Any number of clients run `lock`, `try_lock` and `unlock`. Every atomic operation on `mCountOfWaiter`,
every locked access to `mWaiter` and every `set_value` is one step; the weak compare-exchange may fail
spuriously. `unlock` is called by the client that holds the mutex; on which thread it runs does not matter.

| here | there |
| --- | --- |
| `Policy`                                | `HighThroughputPolicy`, `FairPolicy` (`mutex.hpp:16-54`) |
| `State.mCountOfWaiter`, `State.mWaiter` | the members of `BaseMutex` (`:61-63`); a waiter is its client and the number of the `lock` call |
| `State.p`                               | the `LightFutureData` on the stack of a `lock` call (`:98`): has it been completed? |
| `Pc.lockCas` … `Pc.lockAwait`           | `lock` (`:77-101`) |
| `Pc.tryLock`                            | `try_lock` (`:103-109`) |
| `Pc.unlockFetchSub` … `Pc.unlockSetValue` | `unlock` (`:111-132`) |
| `wrapInt`                               | the two's complement wrap-around of `std::atomic<int>` |

`enqueued`, `dequeued` and `completed` record the accesses to `mWaiter` and the `set_value` calls in order.
-/

namespace CoAwait.Mutex

open Runs Counting

inductive Policy where
  | highThroughput
  | fair
deriving DecidableEq, Repr

variable {α ι : Type}

/-- Both policies `push_back`. -/
def Policy.addToWaiter (_ : Policy) (c : List α) (t : α) : List α := c ++ [t]

/-- `back()` and `pop_back()`, or `front()` and `pop_front()`; the caller has checked that `c` is not empty. -/
def Policy.getNextWaiter : Policy → List α → Option (α × List α)
  | .highThroughput, c => c.getLast?.map fun t => (t, c.dropLast)
  | .fair, [] => none
  | .fair, t :: c => some (t, c)

/-- A `lock` call that waits: its client and its number among the waiting calls of that client. -/
abbrev Waiter (ι : Type) := ι × Nat

inductive Pc (ι : Type) where
  | idle
  | lockCas (i : Nat)
  | lockFetchAdd
  | lockAddToWaiter (n : Nat)
  | lockAwait (n : Nat)
  | tryLock
  | holding
  | unlockFetchSub
  | unlockSearch
  | unlockSetValue (next : Waiter ι)
deriving DecidableEq, Repr

structure State (ι : Type) where
  mCountOfWaiter : Int := 0
  mWaiter : List (Waiter ι) := []
  pc : ι → Pc ι := fun _ => .idle
  /-- How many `FuturePromiseT p` a client has constructed so far. -/
  calls : ι → Nat := fun _ => 0
  p : Waiter ι → Bool := fun _ => false
  enqueued : List (Waiter ι) := []
  dequeued : List (Waiter ι) := []
  completed : List (Waiter ι) := []

def init : State ι := {}

/-- What a client may do: start a call, or take the next step of the call in progress. `spurious` makes a
weak compare-exchange fail for no reason. -/
inductive Act (ι : Type) where
  | lock (c : ι)
  | tryLock (c : ι)
  | unlock (c : ι)
  | run (c : ι) (spurious : Bool)
deriving DecidableEq, Repr

def wrapInt (x : Int) : Int := Int.bmod x (2 ^ 32)

/-- `mCountOfWaiter.compare_exchange_weak(expected = 0, 1)`: the result, `expected` and the counter. -/
def casWeak (spurious : Bool) (count : Int) : Bool × Int × Int :=
  if count = 0 ∧ spurious = false then (true, 0, 1) else (false, count, count)

section
variable [DecidableEq ι]

def State.setPc (s : State ι) (c : ι) (x : Pc ι) : State ι := { s with pc := Function.update s.pc c x }

/-- `fetch_add(1) + 1`; a positive old value means that the client has to wait, and it constructs `p`. -/
def lockFetchAdd (s : State ι) (c : ι) : State ι :=
  let waitingCount := wrapInt (s.mCountOfWaiter + 1)
  let s := { s with mCountOfWaiter := waitingCount }
  if waitingCount = 1 then s.setPc c .holding
  else { s.setPc c (.lockAddToWaiter (s.calls c)) with calls := Function.update s.calls c (s.calls c + 1) }

/-- `fetch_sub(1) - 1` of `unlock`. -/
def unlockFetchSub (s : State ι) (c : ι) : State ι :=
  let waitingCount := wrapInt (s.mCountOfWaiter - 1)
  let s := { s with mCountOfWaiter := waitingCount }
  if waitingCount = 0 then s.setPc c .idle else s.setPc c .unlockSearch

/-- `next->set_value(…)`. -/
def setValue (s : State ι) (w : Waiter ι) : State ι :=
  { s with p := Function.update s.p w true, completed := s.completed ++ [w] }

def runStep (policy : Policy) (s : State ι) (c : ι) (spurious : Bool) : Option (State ι) :=
  match s.pc c with
  | .idle | .holding => none
  | .lockCas i =>
    match casWeak spurious s.mCountOfWaiter with
    | (true, _, count) => some ({ s with mCountOfWaiter := count }.setPc c .holding)
    | (false, expected, _) =>
      -- `break`, or the end of `for (int i = 0; i < 8; i++)`
      if expected > 1 ∨ ¬ i + 1 < 8 then some (s.setPc c .lockFetchAdd) else some (s.setPc c (.lockCas (i + 1)))
  | .lockFetchAdd => some (lockFetchAdd s c)
  | .lockAddToWaiter n =>
    some { s.setPc c (.lockAwait n) with
      mWaiter := policy.addToWaiter s.mWaiter (c, n), enqueued := s.enqueued ++ [(c, n)] }
  | .lockAwait n => if s.p (c, n) then some (s.setPc c .holding) else none
  | .tryLock =>
    match casWeak spurious s.mCountOfWaiter with
    | (true, _, count) => some ({ s with mCountOfWaiter := count }.setPc c .holding)
    | (false, _, _) => some (s.setPc c .idle)
  | .unlockFetchSub => some (unlockFetchSub s c)
  | .unlockSearch =>
    match policy.getNextWaiter s.mWaiter with
    | none => some s
    | some (next, rest) =>
      some { s.setPc c (.unlockSetValue next) with mWaiter := rest, dequeued := s.dequeued ++ [next] }
  | .unlockSetValue next => some ((setValue s next).setPc c .idle)

def step (policy : Policy) (s : State ι) : Act ι → Option (State ι)
  | .lock c => if s.pc c = .idle then some (s.setPc c (.lockCas 0)) else none
  | .tryLock c => if s.pc c = .idle then some (s.setPc c .tryLock) else none
  | .unlock c => if s.pc c = .holding then some (s.setPc c .unlockFetchSub) else none
  | .run c spurious => runStep policy s c spurious

end

/-! ## Roles -/

/-- What a client is to the mutex. -/
inductive Role where
  | outside
  /-- In `lock` or `try_lock`, not yet counted. -/
  | entering
  /-- In `lock`, counted by its `fetch_add` from a positive value, its waiter not yet completed. -/
  | waiting
  /-- It acquired the mutex and has not yet done the `fetch_sub` of its own `unlock`. -/
  | holder
  /-- In `unlock`, between the `fetch_sub` with a positive result and the `set_value`. -/
  | handing
deriving DecidableEq, Repr

def State.role (s : State ι) (c : ι) : Role :=
  match s.pc c with
  | .idle => .outside
  | .lockCas _ | .lockFetchAdd | .tryLock => .entering
  | .lockAddToWaiter n | .lockAwait n => if s.p (c, n) then .holder else .waiting
  | .holding | .unlockFetchSub => .holder
  | .unlockSearch | .unlockSetValue _ => .handing

section
variable [Fintype ι]

/-- The clients that are in a call or hold the mutex. -/
def State.clients (s : State ι) : Nat :=
  num s.role .entering + num s.role .waiting + num s.role .holder + num s.role .handing

/-- Fewer than `2 ^ 31` clients at once. -/
def fewClients (s : State ι) : Act ι → Prop
  | .lock _ | .tryLock _ => s.clients + 1 < 2 ^ 31
  | _ => True

instance (s : State ι) : (a : Act ι) → Decidable (fewClients s a)
  | .lock _ | .tryLock _ => inferInstanceAs (Decidable (_ < _))
  | .unlock _ | .run _ _ => .isTrue trivial

end

end CoAwait.Mutex
