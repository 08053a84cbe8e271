import CoAwait.LightFuture
import CoAwait.Runs

/-!
# One `Routine::Data` and its owner (`routine.hpp:95-104`, `:131`, `:205-224`, `:297-365`, `:430-487`)

The body suspends and is resumed any number of times, on any threads, and ends normally or by an exception.
Where the right to resume it is in between, and whether a post-leave function refuses to suspend, is left
open here. The owner has the handle when the constructor has returned, and does one of `detach()`, `join()`
or `co::await`, the last two followed by the destruction of the handle. Each atomic operation is one step.

| here | there |
| --- | --- |
| `Run.running`, `Run.left`, `Run.suspended` | inside `mPull` (`:301`, `:351`), in `runPostLeave` (`:303`, `:360`), in between |
| `Via`                                     | who runs the body: the constructor, the `resume()` in it (`:304`), any other `resume()` |
| `Run.ended`                               | `mContinuation.exchange(1)` in `resume` (`:355`) |
| `Run.setDetached` … `Run.destroy`         | `ResultSetter::operator()` (`:458-487`) |
| `Run.ret`                                 | the way back to the constructor, or with `res` to the Runner loop (`:198`) |
| `OwnerPc.detach`, `OwnerPc.reset`         | the compare-exchange of `detach` (`:100`), `Destructor`, by `d.reset()` or by the handle (`:442-448`) |
| `OwnerPc.poll` … `OwnerPc.parked`         | `get_blocking` in `join` (`:131`) |
| `OwnerPc.awaitReady` … `OwnerPc.awaitParked` | `co::await` in a coroutine: `await_ready`, `await_suspend` (`:205-224`), suspended |
| `State.destroy`                           | `destroy` and `deallocate` (`:446-447`, `:482-483`) |

The two destruction sites are counted together in `destroyed`, the block sizes handed back are listed in
`freed`, and `terminated` says that `~Data` found `mPull` active (`:308-315`).
-/

namespace CoAwait.RoutineData

inductive Via where
  | ctor
  | ctorResume
  | resume
deriving DecidableEq, Repr

/-- `Data*` in `mContinuation` and `mCaller`: null, the Data of the owner's coroutine, or `1`. -/
inductive Ptr where
  | null
  | data
  | one
deriving DecidableEq, Repr

/-- What can be registered in `mResult`: the owner's `Runner` or its `ConditionVariableTask`. -/
inductive Task where
  | runner
  | cv
deriving DecidableEq, Repr

/-- `res` is the old `mContinuation` that `resume` returns, `destruct` the local of `ResultSetter`. -/
inductive Run where
  | running (via : Via)
  | left (via : Via)
  | suspended
  | ended (via : Via)
  | setDetached (via : Via) (res : Ptr)
  | setContinuation (via : Via) (res : Ptr) (destruct : Bool)
  | setResult (via : Via) (res : Ptr) (destruct : Bool)
  | call (via : Via) (res : Ptr) (destruct : Bool) (task : Task)
  | destroy (via : Via) (res : Ptr)
  | ret (via : Via) (res : Ptr)
  | finished
deriving DecidableEq, Repr

inductive OwnerPc where
  | constructing
  | returning
  | idle
  | detach
  | released
  | poll (loads : Nat)
  | suspend
  | parked
  | awaitReady
  | awaitExchange
  | awaitSuspend (continuation : Ptr)
  | awaitContinuation (continuation : Ptr)
  | awaitSpin
  | awaitParked
  | get
  | reset
  | done
deriving DecidableEq, Repr

structure State where
  mIsDetached : Bool := false
  mContinuation : Ptr := .null
  mResult : LightFutureData Task Unit := {}
  mSetResult : Value Unit := .unset
  mPull : Bool := true
  mCaller : Ptr := .data
  run : Run := .running .ctor
  owner : OwnerPc := .constructing
  destroyed : Nat := 0
  freed : List Nat := []
  terminated : Bool := false
deriving DecidableEq, Repr

def init : State := {}

inductive Choice where
  | detach
  | join
  /-- `co::await` on a plain thread: one more load before `join`. -/
  | awaitThread
  | await
deriving DecidableEq, Repr

inductive Act where
  | leave
  /-- The body ends with a result or with an exception. -/
  | finish (exception : Option Nat)
  /-- `runPostLeave` returns `b`; with `true` the right to resume is registered. -/
  | postLeave (b : Bool)
  | resume
  | run
  | choose (c : Choice)
  | owner
deriving DecidableEq, Repr

/-- `size` is `sizeof(Data) + mStackSize`. -/
def State.destroy (s : State) (size : Nat) : State :=
  { s with destroyed := s.destroyed + 1, freed := s.freed ++ [size], terminated := s.terminated || s.mPull }

/-- The next step of the completing thread after the body has ended. -/
def runStep (size : Nat) (s : State) : Option State :=
  match s.run with
  | .running _ | .left _ | .suspended | .finished => none
  | .ended via => some { s with mContinuation := .one, run := .setDetached via s.mContinuation }
  | .setDetached via res =>
    if s.mIsDetached then some { s with run := .setContinuation via res true }
    else some { s with mIsDetached := true, run := .setContinuation via res false }
  | .setContinuation via res destruct =>
    let c := if s.mContinuation = .null then .one else s.mContinuation
    some { s with mContinuation := c, run := .setResult via res destruct }
  | .setResult via res destruct =>
    let next : Run := if destruct then .destroy via res else .ret via res
    match (s.mResult.store s.mSetResult).exchange .invalid with
    | (.empty, f) => some { s with mResult := f, run := next }
    | (.task k, f) => some { s with mResult := f, run := .call via res destruct k }
    | (.invalid, _) => none
  | .call via res destruct task =>
    let next : Run := if destruct then .destroy via res else .ret via res
    match task, s.owner, s.mCaller with
    | .cv, .parked, _ => some { s with owner := .get, run := next }
    | .cv, _, _ => none
    | .runner, _, .data => some { s with mCaller := .one, owner := .get, run := next }
    | .runner, _, _ => some { s with mCaller := .one, run := next }
  | .destroy via res => some { s.destroy size with run := .ret via res }
  | .ret .resume res =>
    match res, s.owner with
    | .data, .awaitParked => some { s with owner := .get, run := .finished }
    | .data, _ => none
    | _, _ => some { s with run := .finished }
  | .ret _ _ => some { s with owner := .returning, run := .finished }

/-- `none` while the owner waits: in the constructor, in a blocking wait, suspended, or spinning. -/
def ownerStep (size : Nat) (s : State) : Option State :=
  match s.owner with
  | .constructing | .idle | .released | .parked | .awaitParked | .done => none
  | .returning => some { s with owner := .idle }
  | .detach =>
    if s.mIsDetached then some { s with owner := .reset } else some { s with mIsDetached := true, owner := .released }
  | .poll (n + 1) => if s.mResult.isReady then some { s with owner := .get } else some { s with owner := .poll n }
  | .poll 0 => some { s with owner := .suspend }
  | .suspend =>
    match s.mResult.suspend .cv with
    | (true, f) => some { s with mResult := f, owner := .parked }
    | (false, _) => some { s with owner := .get }
  | .awaitReady => if s.mResult.isReady then some { s with owner := .get } else some { s with owner := .awaitExchange }
  | .awaitExchange => some { s with mCaller := .null, owner := .awaitSuspend s.mCaller }
  | .awaitSuspend continuation =>
    match s.mResult.suspend .runner with
    | (true, f) => some { s with mResult := f, owner := .awaitContinuation continuation }
    | (false, _) => some { s with owner := .get }
  | .awaitContinuation continuation =>
    match s.mContinuation with
    | .null => some { s with mContinuation := continuation, owner := .awaitParked }
    | .one => some { s with owner := .awaitSpin }
    | .data => none
  | .awaitSpin => if s.mCaller = .one then some { s with owner := .get } else none
  | .get => if s.mResult.isReady then some { s with owner := .reset } else none
  | .reset => some { s.destroy size with owner := .done }

/-- `size` is `sizeof(Data) + mStackSize`. -/
def step (size : Nat) (s : State) : Act → Option State
  | .leave =>
    match s.run with
    | .running via => some { s with run := .left via }
    | _ => none
  | .finish exception =>
    let v := match exception with
      | none => .val ()
      | some e => .exception e
    match s.run with
    | .running .ctor => some { s with mPull := false, mSetResult := v, run := .setDetached .ctor .null }
    | .running via => some { s with mPull := false, mSetResult := v, run := .ended via }
    | _ => none
  | .postLeave b =>
    match s.run, b with
    | .left .resume, true => some { s with run := .suspended }
    | .left _, true => some { s with run := .suspended, owner := .returning }
    | .left .resume, false => some { s with run := .running .resume }
    | .left _, false => some { s with run := .running .ctorResume }
    | _, _ => none
  | .resume =>
    match s.run with
    | .suspended => some { s with run := .running .resume }
    | _ => none
  | .run => runStep size s
  | .choose c =>
    match s.owner, c with
    | .idle, .detach => some { s with owner := .detach }
    | .idle, .join => some { s with owner := .poll 6 }
    | .idle, .awaitThread => some { s with owner := .poll 7 }
    | .idle, .await => some { s with owner := .awaitReady }
    | _, _ => none
  | .owner => ownerStep size s

/-- `detach` finds `mIsDetached` set while the result is not yet published. -/
def lateDetach (s : State) : Act → Bool
  | .owner => s.owner == .detach && s.mIsDetached && !s.mResult.isReady
  | _ => false

/-- The runs in which no `detach()` falls between the completing thread's exchange of `mIsDetached` and its
publication of `mResult`. -/
def inTime (s : State) (a : Act) : Prop := lateDetach s a = false

instance (s : State) (a : Act) : Decidable (inTime s a) := inferInstanceAs (Decidable (_ = _))

/-- `ResultSetter::operator()` has done its last operation on the members of Data. -/
def Run.published : Run → Bool
  | .call .. | .destroy .. | .ret .. | .finished => true
  | _ => false

end CoAwait.RoutineData
