import CoAwait.Mutex

/-!
# `experimental::BaseTimedMutex<TimedFairPolicy>` (`timed_mutex.hpp`)

Any number of clients run `lock`, `try_lock`, `try_lock_for` and `unlock`; the timers of the waiters expire and
their handlers run at any moment. `TimedMutexWaiter p{timeoutDuration}` is read as a waiter with a timer on the
current `io_context`. Steps are the atomic operations, the locked accesses to `mWaiter`, `cancel`, `set_value` and
the two halves of a handler. Failing assertions are not evaluated; `*next` on a null pointer has no step.

| here | there |
| --- | --- |
| `TimedMutexWaiter`                             | `impl::TimedMutexWaiter` (`:16-49`); `result` as what `set_value` stored, `timer` as the state of its `async_wait` |
| `addToWaiter`, `getNextWaiter`                 | `TimedFairPolicy` (`:70-86`) |
| `Pc.lockCas` … `Pc.lockAwait`                  | `spinLock` and `lock` (`:104-145`) |
| `Pc.tryLock`                                   | `try_lock` (`:147-153`) |
| `Pc.tryLockForAddToWaiter` … `tryLockForFetchSub` | `try_lock_for` (`:155-171`) |
| `Pc.unlockFetchSub` … `Pc.unlockSetValue`      | `unlock` (`:181-209`); the argument of `unlockSynchronize`, `unlockCheck` and `unlockCount` is the local `next` |
| `Act.expire`, `Act.handler`                    | the expiry that queues the handler; the handler (`:28-34`) |

`finalized` and `results` record the successful compare-exchanges of `alreadyFinalized` and the `set_value` calls.
-/

namespace CoAwait.TimedMutex

open Runs Counting
open CoAwait.Mutex (Waiter Role casWeak wrapInt)

variable {ι : Type}

inductive Result where
  | succeeded
  | timedOut
deriving DecidableEq, Repr

/-- Where the handler of `timer->async_wait` is. -/
inductive Timer where
  /-- The waiter has no timer. -/
  | none
  | armed
  /-- Expired: the handler is queued with a success code, `cancel()` comes too late. -/
  | queued
  /-- The handler has won the compare-exchange and is about to call `set_value(TimedOut)`. -/
  | setting
  | ran
  /-- The handler is queued with `operation_aborted`; it does not look at the waiter. -/
  | cancelled
deriving DecidableEq, Repr

/-- `timer->cancel()`, also by its destructor. -/
def Timer.cancel : Timer → Timer
  | .armed => .cancelled
  | t => t

structure TimedMutexWaiter where
  alreadyFinalized : Bool := false
  result : Option Result := none
  timer : Timer := .none
deriving DecidableEq, Repr

/-- Who won the compare-exchange of `alreadyFinalized`. -/
inductive Finalizer where
  | handOver
  | timeout
deriving DecidableEq, Repr

def addToWaiter (c : List (Waiter ι)) (t : Waiter ι) : List (Waiter ι) := c ++ [t]

/-- `front()` and `pop_front()`; `none` where the container is empty, which the caller has excluded. -/
def getNextWaiter : List (Waiter ι) → Option (Waiter ι × List (Waiter ι))
  | [] => none
  | t :: c => some (t, c)

inductive Pc (ι : Type) where
  | idle
  | lockCas (i : Nat)
  | lockFetchAdd
  | lockAddToWaiter (n : Nat)
  | lockAwait (n : Nat)
  | tryLock
  | tryLockForAddToWaiter (n : Nat)
  | tryLockForAwait (n : Nat)
  | tryLockForFetchSub (n : Nat)
  | holding
  | unlockFetchSub
  | unlockSynchronize (next : Option (Waiter ι))
  | unlockCheck (next : Option (Waiter ι))
  | unlockCount (next : Option (Waiter ι))
  | unlockCancel (next : Waiter ι)
  | unlockSetValue (next : Waiter ι)
deriving DecidableEq, Repr

structure State (ι : Type) where
  mCountOfWaiter : Int := 0
  mWaiter : List (Waiter ι) := []
  pc : ι → Pc ι := fun _ => .idle
  /-- How many `TimedMutexWaiter p` a client has constructed so far. -/
  calls : ι → Nat := fun _ => 0
  p : Waiter ι → TimedMutexWaiter := fun _ => {}
  finalized : List (Waiter ι × Finalizer) := []
  results : List (Waiter ι × Result) := []

def init : State ι := {}

/-- What may happen: a client starts a call or takes its next step, a timer expires, a handler takes its next step.
`positive` says that the duration given to `try_lock_for` is greater than zero. -/
inductive Act (ι : Type) where
  | lock (c : ι)
  | tryLock (c : ι)
  | tryLockFor (c : ι) (positive : Bool)
  | unlock (c : ι)
  | run (c : ι) (spurious : Bool)
  | expire (w : Waiter ι)
  | handler (w : Waiter ι)
deriving DecidableEq, Repr

section
variable [DecidableEq ι]

def State.setPc (s : State ι) (c : ι) (x : Pc ι) : State ι := { s with pc := Function.update s.pc c x }

def State.setP (s : State ι) (w : Waiter ι) (x : TimedMutexWaiter) : State ι := { s with p := Function.update s.p w x }

/-- The constructor of `p`; with a timer it starts `async_wait`. -/
def State.newWaiter (s : State ι) (c : ι) (timer : Timer) : State ι :=
  { s with
    calls := Function.update s.calls c (s.calls c + 1)
    p := Function.update s.p (c, s.calls c) { timer := timer } }

/-- `explicit operator bool`: the compare-exchange of `alreadyFinalized`. -/
def State.finalize (s : State ι) (w : Waiter ι) (by_ : Finalizer) : State ι :=
  { s.setP w { s.p w with alreadyFinalized := true } with finalized := s.finalized ++ [(w, by_)] }

/-- `result.set_value(r)`. -/
def State.setValue (s : State ι) (w : Waiter ι) (r : Result) : State ι :=
  { s.setP w { s.p w with result := some r } with results := s.results ++ [(w, r)] }

def State.setTimer (s : State ι) (w : Waiter ι) (t : Timer) : State ι := s.setP w { s.p w with timer := t }

/-- The destructor of `p` at the end of the call. -/
def State.destroy (s : State ι) (w : Waiter ι) : State ι := s.setTimer w (s.p w).timer.cancel

/-- `fetch_add(1) + 1`, and the construction of `p` in `lock` if the mutex was taken. -/
def lockFetchAdd (s : State ι) (c : ι) : State ι :=
  let waitingCount := wrapInt (s.mCountOfWaiter + 1)
  let s := { s with mCountOfWaiter := waitingCount }
  if waitingCount = 1 then s.setPc c .holding
  else (s.newWaiter c .none).setPc c (.lockAddToWaiter (s.calls c))

/-- `fetch_sub(1) - 1` of `unlock`. -/
def unlockFetchSub (s : State ι) (c : ι) : State ι :=
  let waitingCount := wrapInt (s.mCountOfWaiter - 1)
  let s := { s with mCountOfWaiter := waitingCount }
  if waitingCount = 0 then s.setPc c .idle else s.setPc c (.unlockSynchronize none)

def runStep (s : State ι) (c : ι) (spurious : Bool) : Option (State ι) :=
  match s.pc c with
  | .idle | .holding => none
  | .lockCas i =>
    match casWeak spurious s.mCountOfWaiter with
    | (true, _, count) => some ({ s with mCountOfWaiter := count }.setPc c .holding)
    | (false, expected, _) =>
      if expected > 1 ∨ ¬ i + 1 < 8 then some (s.setPc c .lockFetchAdd) else some (s.setPc c (.lockCas (i + 1)))
  | .lockFetchAdd => some (lockFetchAdd s c)
  | .lockAddToWaiter n => some { s.setPc c (.lockAwait n) with mWaiter := addToWaiter s.mWaiter (c, n) }
  | .lockAwait n =>
    match (s.p (c, n)).result with
    | none => none
    | some _ => some ((s.destroy (c, n)).setPc c .holding)
  | .tryLock =>
    match casWeak spurious s.mCountOfWaiter with
    | (true, _, count) => some ({ s with mCountOfWaiter := count }.setPc c .holding)
    | (false, _, _) => some (s.setPc c .idle)
  | .tryLockForAddToWaiter n => some { s.setPc c (.tryLockForAwait n) with mWaiter := addToWaiter s.mWaiter (c, n) }
  | .tryLockForAwait n =>
    match (s.p (c, n)).result with
    | none => none
    | some .timedOut => some (s.setPc c (.tryLockForFetchSub n))
    | some .succeeded => some ((s.destroy (c, n)).setPc c .holding)
  | .tryLockForFetchSub n =>
    some (({ s with mCountOfWaiter := wrapInt (s.mCountOfWaiter - 1) }.destroy (c, n)).setPc c .idle)
  | .unlockFetchSub => some (unlockFetchSub s c)
  | .unlockSynchronize next =>
    match getNextWaiter s.mWaiter with
    | none => some (s.setPc c (.unlockCheck next))
    | some (next, rest) => some { s.setPc c (.unlockCheck (some next)) with mWaiter := rest }
  | .unlockCheck none => none
  | .unlockCheck (some next) =>
    if (s.p next).alreadyFinalized then some (s.setPc c (.unlockCount (some next)))
    else some ((s.finalize next .handOver).setPc c (.unlockCancel next))
  | .unlockCount next =>
    if s.mCountOfWaiter = 0 then some (s.setPc c .idle) else some (s.setPc c (.unlockSynchronize next))
  | .unlockCancel next => some ((s.setTimer next (s.p next).timer.cancel).setPc c (.unlockSetValue next))
  | .unlockSetValue next => some ((s.setValue next .succeeded).setPc c .idle)

/-- A handler that runs with a success code. -/
def handlerStep (s : State ι) (w : Waiter ι) : Option (State ι) :=
  match (s.p w).timer with
  | .queued =>
    if (s.p w).alreadyFinalized then some (s.setTimer w .ran)
    else some ((s.finalize w .timeout).setTimer w .setting)
  | .setting => some ((s.setValue w .timedOut).setTimer w .ran)
  | .none | .armed | .ran | .cancelled => none

def step (s : State ι) : Act ι → Option (State ι)
  | .lock c => if s.pc c = .idle then some (s.setPc c (.lockCas 0)) else none
  | .tryLock c => if s.pc c = .idle then some (s.setPc c .tryLock) else none
  | .tryLockFor c positive =>
    if s.pc c = .idle then
      if positive then some ((s.newWaiter c .armed).setPc c (.tryLockForAddToWaiter (s.calls c)))
      else some (s.setPc c .tryLock)
    else none
  | .unlock c => if s.pc c = .holding then some (s.setPc c .unlockFetchSub) else none
  | .run c spurious => runStep s c spurious
  | .expire w => if (s.p w).timer = .armed then some (s.setTimer w .queued) else none
  | .handler w => handlerStep s w

end

/-! ## Roles -/

/-- What a client is to the mutex; a timed out `try_lock_for` is outside again. -/
def State.role (s : State ι) (c : ι) : Role :=
  match s.pc c with
  | .idle | .tryLockForFetchSub _ => .outside
  | .lockCas _ | .lockFetchAdd | .tryLock => .entering
  | .lockAddToWaiter n | .lockAwait n => if (s.p (c, n)).result.isSome then .holder else .waiting
  | .tryLockForAddToWaiter n | .tryLockForAwait n =>
    match (s.p (c, n)).result with
    | none => .waiting
    | some .succeeded => .holder
    | some .timedOut => .outside
  | .holding | .unlockFetchSub => .holder
  | .unlockSynchronize _ | .unlockCheck _ | .unlockCount _ | .unlockCancel _ | .unlockSetValue _ => .handing

section
variable [Fintype ι]

def State.clients (s : State ι) : Nat :=
  num s.role .entering + num s.role .waiting + num s.role .holder + num s.role .handing

/-- Fewer than `2 ^ 31` clients at once. -/
def fewClients (s : State ι) : Act ι → Prop
  | .lock _ | .tryLock _ | .tryLockFor _ _ => s.clients + 1 < 2 ^ 31
  | _ => True

instance (s : State ι) : (a : Act ι) → Decidable (fewClients s a)
  | .lock _ | .tryLock _ | .tryLockFor _ _ => inferInstanceAs (Decidable (_ < _))
  | .unlock _ | .run _ _ | .expire _ | .handler _ => .isTrue trivial

end

end CoAwait.TimedMutex
