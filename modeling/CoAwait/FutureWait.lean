import Mathlib.Logic.Function.Basic
import CoAwait.LightFuture
import CoAwait.Runs

/-!
# One producer and one blocking consumer of a `LightFutureData` (`future.hpp:133-304`)

The producer calls `set_value` or `set_exception` once. The consumer runs any sequence of `is_ready`,
`wait`, `wait_for` and `get_blocking`. Every load, exchange and compare-exchange on `continuationPtr` is
one step, and so is every step on the `ConditionVariableTask` that a wait registers.

| here | there |
| --- | --- |
| `CvTask`                                  | `impl::ConditionVariableTask` (`:133-168`), `mMut` as its holder |
| `PPc`, `producerStep`                     | `set_value` / `set_exception`, `on_ready`, `ConditionVariableTask::operator()` (`:281-304`, `:141-148`) |
| `CPc.waitLoad`                            | the loop of `wait` (`:245-251`) |
| `CPc.suspend`                             | `suspend(task)` in `wait` (`:254`) and `wait_for` (`:265`) |
| `CPc.cvLock` … `CPc.cvUnlock`             | `ConditionVariableTask::wait` / `wait_for` (`:150-167`) |
| `CPc.deregister`                          | `continuationPtr.exchange(EmptyHandle)` in `wait_for` (`:269`) |
| `Act.wake`, `Act.timeout`                 | a (possibly spurious) wake-up of `mCond`; the end of `timeout_duration` |

Tasks get fresh numbers, so a pointer to a task of an earlier call stays distinguishable. `log` records
what the consumer's calls returned.
-/

namespace CoAwait.FutureWait

variable {T : Type}

inductive Side where
  | producer
  | consumer
deriving DecidableEq, Repr

structure CvTask where
  mMut : Option Side := none
  mDataReady : Bool := false
deriving DecidableEq, Repr

/-- The producer's program counter; `called k` is the call `(*continuation)()` on task `k`. -/
inductive PPc where
  | start
  | stored
  | called (k : Nat)
  | setReady (k : Nat)
  | unlock (k : Nat)
  | notify (k : Nat)
  | done
deriving DecidableEq, Repr

/-- `on_ready` has done its exchange. -/
def PPc.exchanged : PPc → Bool
  | .start | .stored => false
  | _ => true

/-- Which member function runs the wait. -/
inductive Method where
  | wait
  | getBlocking
  | waitFor
deriving DecidableEq, Repr

/-- The consumer's program counter. `k` is the task of the current call, `expired` says that the timed
wait of `mCond` has returned because of the timeout, `res` is the result of the predicate. -/
inductive CPc where
  | idle
  | isReady
  | getWeak
  | waitLoad (m : Method) (cnt : Nat)
  | waitForLoad
  | suspend (m : Method) (k : Nat)
  | cvLock (m : Method) (k : Nat) (expired : Bool)
  | cvTest (m : Method) (k : Nat) (expired : Bool)
  | cvBlocked (m : Method) (k : Nat)
  | cvUnlock (m : Method) (k : Nat) (res : Bool)
  | deregister (k : Nat)
  | getUnchecked
deriving DecidableEq, Repr

inductive Call where
  | isReady
  | wait
  | waitFor
  | getBlocking
deriving DecidableEq, Repr

/-- A finished call of the consumer; `waitFor true` is `future_status::ready`. -/
inductive Ret (T : Type) where
  | isReady (b : Bool)
  | wait
  | waitFor (ready : Bool)
  | get (v : Value T)
deriving DecidableEq, Repr

inductive Act where
  | producer
  | call (c : Call)
  | consumer
  | wake
  | timeout
deriving DecidableEq, Repr

structure State (T : Type) where
  fut : LightFutureData Nat T := {}
  tasks : Nat → CvTask := fun _ => {}
  nextTask : Nat := 0
  ppc : PPc := .start
  cpc : CPc := .idle
  log : List (Ret T) := []

def State.setTask (s : State T) (k : Nat) (f : CvTask → CvTask) : State T :=
  { s with tasks := Function.update s.tasks k (f (s.tasks k)) }

def State.ret (s : State T) (r : Ret T) : State T := { s with cpc := .idle, log := s.log ++ [r] }

/-- `op` is the argument of `set_value` / `set_exception`. The second `set_*` on one future is the
failing assertion of `on_ready`, where no step is left. -/
def producerStep (op : Value T) (s : State T) : Option (State T) :=
  match s.ppc with
  | .start => some { s with fut := s.fut.store op, ppc := .stored }
  | .stored =>
    match s.fut.exchange .invalid with
    | (.empty, f) => some { s with fut := f, ppc := .done }
    | (.task k, f) => some { s with fut := f, ppc := .called k }
    | (.invalid, _) => none
  | .called k =>
    match (s.tasks k).mMut with
    | none => some { s.setTask k (fun t => { t with mMut := some .producer }) with ppc := .setReady k }
    | some _ => none
  | .setReady k => some { s.setTask k (fun t => { t with mDataReady := true }) with ppc := .unlock k }
  | .unlock k => some { s.setTask k (fun t => { t with mMut := none }) with ppc := .notify k }
  | .notify _ => some { s with ppc := .done }
  | .done => none

def callStep (s : State T) (c : Call) : Option (State T) :=
  match s.cpc, c with
  | .idle, .isReady => some { s with cpc := .isReady }
  | .idle, .wait => some { s with cpc := .waitLoad .wait 0 }
  | .idle, .waitFor => some { s with cpc := .waitForLoad }
  | .idle, .getBlocking => some { s with cpc := .getWeak }
  | _, _ => none

/-- The return of `wait`, to the caller or into `get_blocking`. -/
def State.waitReturns (s : State T) : Method → State T
  | .getBlocking => { s with cpc := .getUnchecked }
  | .wait => s.ret .wait
  | .waitFor => s.ret (.waitFor true)

/-- `impl::ConditionVariableTask task;` -/
def State.newTask (s : State T) (m : Method) : State T :=
  { s with
    tasks := Function.update s.tasks s.nextTask {}
    nextTask := s.nextTask + 1
    cpc := .suspend m s.nextTask }

def consumerStep (s : State T) : Option (State T) :=
  match s.cpc with
  | .idle => none
  | .isReady => some (s.ret (.isReady s.fut.isReady))
  | .getWeak =>
    if s.fut.isReady then some { s with cpc := .getUnchecked }
    else some { s with cpc := .waitLoad .getBlocking 0 }
  | .waitLoad m cnt =>
    if s.fut.isReady then some (s.waitReturns m)
    else if cnt < 4 then some { s with cpc := .waitLoad m (cnt + 1) }
    else some (s.newTask m)
  | .waitForLoad => if s.fut.isReady then some (s.ret (.waitFor true)) else some (s.newTask .waitFor)
  | .suspend m k =>
    match s.fut.suspend k with
    | (true, f) => some { s with fut := f, cpc := .cvLock m k false }
    | (false, _) => some (s.waitReturns m)
  | .cvLock m k expired =>
    match (s.tasks k).mMut with
    | none => some { s.setTask k (fun t => { t with mMut := some .consumer }) with cpc := .cvTest m k expired }
    | some _ => none
  | .cvTest m k expired =>
    if (s.tasks k).mDataReady then some { s with cpc := .cvUnlock m k true }
    else if expired then some { s with cpc := .cvUnlock m k false }
    else some { s.setTask k (fun t => { t with mMut := none }) with cpc := .cvBlocked m k }
  | .cvBlocked _ _ => none
  | .cvUnlock m k res =>
    let s := s.setTask k (fun t => { t with mMut := none })
    if res then some (s.waitReturns m) else some { s with cpc := .deregister k }
  | .deregister k =>
    match s.fut.exchange .empty with
    | (state, f) => some ({ s with fut := f }.ret (.waitFor (if state = Handle.task k then false else true)))
  | .getUnchecked => some (s.ret (.get s.fut.value))

def step (op : Value T) (s : State T) : Act → Option (State T)
  | .producer => producerStep op s
  | .call c => callStep s c
  | .consumer => consumerStep s
  | .wake =>
    match s.cpc with
    | .cvBlocked m k => some { s with cpc := .cvLock m k false }
    | _ => none
  | .timeout =>
    match s.cpc with
    | .cvBlocked .waitFor k => some { s with cpc := .cvLock .waitFor k true }
    | _ => none

def init : State T := {}

/-- The step is `wait_for`'s de-registering exchange, taken after the producer has completed the future. -/
def lateDeregister (s : State T) : Act → Bool
  | .consumer =>
    match s.cpc with
    | .deregister _ => s.fut.isReady
    | _ => false
  | _ => false

/-- The runs in which no timed out `wait_for` de-registers from a completed future. -/
def inTime (s : State T) (a : Act) : Prop := lateDeregister s a = false

instance (s : State T) (a : Act) : Decidable (inTime s a) := inferInstanceAs (Decidable (_ = _))

end CoAwait.FutureWait
