import CoAwait.LightFuture
import CoAwait.Runs

/-!
# Coroutines on threads (`routine.hpp`, `await.hpp:80-95`, `194-229`)

Any number of coroutines, threads, futures and io_contexts. A thread is a stack of activations, the innermost
first; each atomic operation on something another thread can reach is one step of its innermost activation.
What the bodies do is left open: they construct coroutines, await, complete futures, run handlers, block, end.

| here | there |
| --- | --- |
| `Frame.main`                        | the function of the thread, or `io_context::run` in it |
| `Frame.body`                        | a body inside `mPull()`; with an awaitable after `await_ready()` returned `false` (`await.hpp:200`) |
| `Frame.run`, `RunPc.enter`          | the constructor of Data or `resume()`, about to pull (`routine.hpp:284`, `:301`, `:348-351`) |
| `RunPc.pull`, `RunPc.left`          | inside `mPull()`, before `mPostLeave.exchange(nullptr)` of `runPostLeave` (`:326`) |
| `RunPc.suspend`                     | `mAw.await_suspend(mRunner)` (`await.hpp:221`) |
| `RunPc.awaitSuspend` … `.awaitSpin` | `Routine::await_suspend` after the exchange of `mCaller` (`:209-224`) |
| `RunPc.suspended`                   | `runPostLeave` returned `true` |
| `RunPc.ended`, `.runPostLeave`      | `mContinuation.exchange(1)` (`:355`), then `runPostLeave` with `&mSetResult` (`:356`) |
| `RunPc.setContinuation`, `.setResult`, `.ret` | `ResultSetter::operator()` (`:470`, `:472-474`), `return res` (`:358`) |
| `Frame.runner`                      | `Runner::operator()` (`:175-202`): on entry, with `continuation`, inside `resume()` |
| `Frame.wait`, `State.cvReady`       | `get_blocking` (`future.hpp:217-222`), its polling left out; a call of its `ConditionVariableTask` is one step here, see `FutureWait` |
| `Future.result d`                   | `mResult` of `d` |
| `State.awaits`, `State.resumes`     | how often the body has left by `leave()`, and has been entered by `resume()` |

A Runner is named after the Data that awaits and the number of that await. `live`, `started`, `opened`,
`waiter`, `viaFalse` and `viaResume` are the history: a Runner is live from its registration to its exchange
of `mCaller`; an await of a Routine is open from its `mCaller.exchange(nullptr)` until the awaiting coroutine
is continued, by `false` (`viaFalse`) or by the finishing `resume()` (`viaResume`); `waiter` is the Runner
registered in `mResult`. `mIsDetached` and the end of Data are in `RoutineData`, the assertions are not
evaluated, `mAwaitableCnt` of a Runner is never given, and a member of Data has the value of its initializer until
the constructor runs.
-/

namespace CoAwait.Routine

/-- A `Data*` that may be null or `1`. -/
inductive Ptr where
  | null
  | one
  | data (d : Nat)
deriving DecidableEq, Repr

def Ptr.toList : Ptr → List Nat
  | .data d => [d]
  | _ => []

/-- `(d, j)`: the Runner of the `j`-th await of `d`, a local of `co::await` on the stack of `d`. -/
abbrev RunnerId := Nat × Nat

/-- What is registered in a `LightFutureData`: a Runner or the `ConditionVariableTask` of a thread. -/
inductive Task where
  | runner (k : RunnerId)
  | cv (t : Nat)
deriving DecidableEq, Repr

inductive Future where
  | plain (n : Nat)
  | result (d : Nat)
deriving DecidableEq, Repr

inductive Awaitable where
  | future (n : Nat)
  | context (c : Nat)
  | routine (e : Nat)
deriving DecidableEq, Repr

/-- `PostLeave` of the `j`-th await, or `mSetResult`. -/
inductive PostLeave where
  | await (j : Nat) (aw : Awaitable)
  | setResult
deriving DecidableEq, Repr

inductive Via where
  | ctor
  | ctorResume
  | resume
deriving DecidableEq, Repr

inductive RunPc where
  | enter
  | pull
  | left
  | suspend (j : Nat) (aw : Awaitable)
  | awaitSuspend (j e : Nat) (continuation : Ptr)
  | awaitContinuation (j e : Nat) (continuation : Ptr)
  | awaitSpin (j e : Nat)
  | suspended
  | ended
  | runPostLeave (res : Ptr)
  | setContinuation (res : Ptr)
  | setResult (res : Ptr)
  | ret (res : Ptr)
deriving DecidableEq, Repr

inductive RunnerPc where
  | enter
  | loop (continuation : Ptr)
  | running
deriving DecidableEq, Repr

inductive Frame where
  | main
  | body (d : Nat) (leaving : Option Awaitable)
  | run (d : Nat) (via : Via) (pc : RunPc)
  | runner (k : RunnerId) (pc : RunnerPc)
  | wait (f : Future) (registered : Bool)
deriving DecidableEq, Repr

structure State where
  stack : Nat → List Frame := fun _ => [.main]
  current : Nat → Option Nat := fun _ => none
  born : Nat := 0
  mContext : Nat → Nat := fun _ => 0
  mPostLeave : Nat → Option PostLeave := fun _ => none
  mContinuation : Nat → Ptr := fun _ => .null
  mOuter : Nat → Option Nat := fun _ => none
  mPull : Nat → Bool := fun _ => true
  mSetResult : Nat → Value Unit := fun _ => .unset
  mCaller : RunnerId → Ptr := fun _ => .null
  fut : Future → LightFutureData Task Unit := fun _ => {}
  /-- The handlers posted to an io_context. -/
  queue : Nat → List RunnerId := fun _ => []
  cvReady : Nat → Bool := fun _ => false
  /-- The constructor has returned, there is a handle. -/
  constructed : Nat → Bool := fun _ => false
  awaits : Nat → Nat := fun _ => 0
  resumes : Nat → Nat := fun _ => 0
  live : RunnerId → Bool := fun _ => false
  started : RunnerId → Option Nat := fun _ => none
  opened : Nat → Option (Nat × Nat) := fun _ => none
  waiter : Nat → Option RunnerId := fun _ => none
  viaFalse : RunnerId → Nat := fun _ => 0
  viaResume : RunnerId → Nat := fun _ => 0

def init : State := {}

inductive Act where
  | construct (t ctx : Nat)
  | await (t : Nat) (aw : Awaitable)
  | finish (t : Nat) (v : Value Unit)
  | setValue (t n : Nat) (v : Value Unit)
  /-- `io_context::run` or `poll` takes a handler. -/
  | handler (t c i : Nat)
  | wait (t : Nat) (f : Future)
  | step (t : Nat)
deriving DecidableEq, Repr

/-- User code that is not inside a call of the library. -/
def Frame.idle : Frame → Bool
  | .main | .body _ none => true
  | _ => false

def State.goto (s : State) (t : Nat) (l : List Frame) : State := { s with stack := Function.update s.stack t l }

/-- User code can name it: a future, a context, a Routine whose constructor has returned. -/
def State.known (s : State) : Awaitable → Bool
  | .routine e => s.constructed e
  | _ => true

def Future.awaitable : Future → Awaitable
  | .plain n => .future n
  | .result e => .routine e

def State.awaitReady (s : State) : Awaitable → Bool
  | .future n => (s.fut (.plain n)).isReady
  | .context _ => false
  | .routine e => (s.fut (.result e)).isReady

/-- `set_value` / `set_exception` of a future by thread `t`, which goes on with `rest`. -/
def State.complete (s : State) (t : Nat) (f : Future) (v : Value Unit) (rest : List Frame) : Option State :=
  match ((s.fut f).store v).exchange .invalid with
  | (.empty, g) => some { s.goto t rest with fut := Function.update s.fut f g }
  | (.task (.runner k), g) => some { s.goto t (.runner k .enter :: rest) with fut := Function.update s.fut f g }
  | (.task (.cv u), g) =>
    some { s.goto t rest with fut := Function.update s.fut f g, cvReady := Function.update s.cvReady u true }
  | (.invalid, _) => none

/-- The body goes on: `resume()` in the constructor (`:304`), the loop of `resume` elsewhere (`:360`). -/
def Via.again : Via → Via
  | .ctor | .ctorResume => .ctorResume
  | .resume => .resume

/-- `leave` (`:333-342`), called by `co::await` with the Runner it has constructed. -/
def State.leave (s : State) (t d : Nat) (aw : Awaitable) (l : List Frame) : State :=
  { s.goto t l with
    mCaller := Function.update s.mCaller (d, s.awaits d) (.data d)
    mPostLeave := Function.update s.mPostLeave d (some (.await (s.awaits d) aw))
    current := Function.update s.current t (s.mOuter d)
    awaits := Function.update s.awaits d (s.awaits d + 1) }

def State.enter (s : State) (t d : Nat) (via : Via) (l : List Frame) : State :=
  { s.goto t l with
    mOuter := Function.update s.mOuter d (s.current t)
    current := Function.update s.current t (some d)
    resumes := Function.update s.resumes d (s.resumes d + if via = .ctor then 0 else 1) }

def State.register (s : State) (t : Nat) (f : Future) (k : RunnerId) (g : LightFutureData Task Unit)
    (l : List Frame) : State :=
  { s.goto t l with
    fut := Function.update s.fut f g
    live := Function.update s.live k true }

/-- An `await_suspend` on a Routine returns `false`. -/
def State.goOn (s : State) (t : Nat) (k : RunnerId) (l : List Frame) : State :=
  { s.goto t l with
    viaFalse := Function.update s.viaFalse k (s.viaFalse k + 1)
    opened := Function.update s.opened k.1 none }

/-- The return of the constructor of Data. -/
def State.construct (s : State) (t d : Nat) (l : List Frame) : State :=
  { s.goto t l with constructed := Function.update s.constructed d true }

/-- The finishing `resume()` of `d` returns `res` to the Runner loop. -/
def State.returnRes (s : State) (t d : Nat) (res : Ptr) (l : List Frame) : State :=
  match res, s.waiter d with
  | .data x, some k =>
    { s.goto t l with
      viaResume := Function.update s.viaResume k (s.viaResume k + 1)
      opened := Function.update s.opened x none }
  | _, _ => s.goto t l

/-- The next operation of `Data::Data` or `Data::resume`, with `rest` below it. -/
def runStep (s : State) (t d : Nat) (via : Via) (rest : List Frame) : RunPc → Option State
  | .enter => some (s.enter t d via (.body d none :: .run d via .pull :: rest))
  | .pull => none
  | .left =>
    let s' := { s with mPostLeave := Function.update s.mPostLeave d none }
    match s.mPostLeave d with
    | none => some (s'.goto t (.run d via .suspended :: rest))
    | some (.await j aw) => some (s'.goto t (.run d via (.suspend j aw) :: rest))
    -- never here: mPull is active
    | some .setResult => none
  | .suspend j (.future n) =>
    match (s.fut (.plain n)).suspend (.runner (d, j)) with
    | (true, g) => some (s.register t (.plain n) (d, j) g (.run d via .suspended :: rest))
    | (false, _) => some (s.goto t (.run d via.again .enter :: rest))
  | .suspend j (.context c) =>
    some { s.goto t (.run d via .suspended :: rest) with
      queue := Function.update s.queue c (s.queue c ++ [(d, j)])
      live := Function.update s.live (d, j) true }
  | .suspend j (.routine e) =>
    some { s.goto t (.run d via (.awaitSuspend j e (s.mCaller (d, j))) :: rest) with
      mCaller := Function.update s.mCaller (d, j) .null
      started := Function.update s.started (d, j) (some e)
      opened := Function.update s.opened d (some (j, e)) }
  | .awaitSuspend j e c =>
    match (s.fut (.result e)).suspend (.runner (d, j)) with
    | (true, g) =>
      some { s.register t (.result e) (d, j) g (.run d via (.awaitContinuation j e c) :: rest) with
        waiter := Function.update s.waiter e (some (d, j)) }
    | (false, _) => some (s.goOn t (d, j) (.run d via.again .enter :: rest))
  | .awaitContinuation j e c =>
    if s.mContinuation e = .null then
      some { s.goto t (.run d via .suspended :: rest) with mContinuation := Function.update s.mContinuation e c }
    else some (s.goto t (.run d via (.awaitSpin j e) :: rest))
  | .awaitSpin j _ =>
    if s.mCaller (d, j) = .one then some (s.goOn t (d, j) (.run d via.again .enter :: rest)) else none
  | .suspended =>
    match via, rest with
    | .resume, .runner k .running :: rest => some (s.goto t (.runner k (.loop .null) :: rest))
    | .resume, _ => none
    | _, rest => some (s.construct t d rest)
  | .ended =>
    some { s.goto t (.run d via (.runPostLeave (s.mContinuation d)) :: rest) with
      mContinuation := Function.update s.mContinuation d .one }
  | .runPostLeave res =>
    match s.mPostLeave d with
    | some .setResult =>
      some { s.goto t (.run d via (.setContinuation res) :: rest) with
        mPostLeave := Function.update s.mPostLeave d none }
    -- never here: the body has ended
    | _ => none
  | .setContinuation res =>
    let c := if s.mContinuation d = .null then .one else s.mContinuation d
    some { s.goto t (.run d via (.setResult res) :: rest) with mContinuation := Function.update s.mContinuation d c }
  | .setResult res => s.complete t (.result d) (s.mSetResult d) (.run d via (.ret res) :: rest)
  | .ret res =>
    match via, rest with
    | .resume, .runner k .running :: rest => some (s.returnRes t d res (.runner k (.loop res) :: rest))
    | .resume, _ => none
    | _, rest => some (s.construct t d rest)

def runnerStep (s : State) (t : Nat) (k : RunnerId) (rest : List Frame) : RunnerPc → Option State
  | .enter =>
    match s.current t with
    | some curr =>
      let c := s.mContext curr
      some { s.goto t rest with queue := Function.update s.queue c (s.queue c ++ [k]) }
    | none =>
      some { s.goto t (.runner k (.loop (s.mCaller k)) :: rest) with
        mCaller := Function.update s.mCaller k .one
        live := Function.update s.live k false }
  | .loop (.data d) => some (s.goto t (.run d .resume .enter :: .runner k .running :: rest))
  | .loop _ => some (s.goto t rest)
  | .running => none

def waitStep (s : State) (t : Nat) (f : Future) (rest : List Frame) : Bool → Option State
  | false =>
    match (s.fut f).suspend (.cv t) with
    | (true, g) =>
      some { s.goto t (.wait f true :: rest) with
        fut := Function.update s.fut f g
        cvReady := Function.update s.cvReady t false }
    | (false, _) => some (s.goto t rest)
  | true => if s.cvReady t then some (s.goto t rest) else none

/-- The next operation of the innermost activation of `t`. -/
def threadStep (s : State) (t : Nat) : Option State :=
  match s.stack t with
  | .body d (some aw) :: .run d' via .pull :: rest => some (s.leave t d aw (.run d' via .left :: rest))
  | .run d via pc :: rest => runStep s t d via rest pc
  | .runner k pc :: rest => runnerStep s t k rest pc
  | .wait f registered :: rest => waitStep s t f rest registered
  | _ => none

def step (s : State) : Act → Option State
  | .construct t ctx =>
    match s.stack t with
    | f :: rest =>
      if f.idle then
        some { s.goto t (.run s.born .ctor .enter :: f :: rest) with
          born := s.born + 1
          mContext := Function.update s.mContext s.born ctx }
      else none
    | [] => none
  | .await t aw =>
    match s.stack t with
    | .body d none :: rest =>
      if s.known aw then
        if s.awaitReady aw then some s else some (s.goto t (.body d (some aw) :: rest))
      else none
    | _ => none
  | .finish t v =>
    match s.stack t with
    | .body d none :: .run d' via .pull :: rest =>
      let pc := if via = .ctor then .runPostLeave .null else .ended
      some { s.goto t (.run d' via pc :: rest) with
        mPull := Function.update s.mPull d false
        mSetResult := Function.update s.mSetResult d v
        mPostLeave := Function.update s.mPostLeave d (some .setResult)
        current := Function.update s.current t (s.mOuter d) }
    | _ => none
  | .setValue t n v =>
    match s.stack t with
    | f :: rest => if f.idle then s.complete t (.plain n) v (f :: rest) else none
    | [] => none
  | .handler t c i =>
    match s.stack t, (s.queue c)[i]? with
    | f :: rest, some k =>
      if f.idle then
        some { s.goto t (.runner k .enter :: f :: rest) with
          queue := Function.update s.queue c ((s.queue c).eraseIdx i) }
      else none
    | _, _ => none
  | .wait t f =>
    match s.stack t with
    | g :: rest => if g.idle && s.known f.awaitable then some (s.goto t (.wait f false :: g :: rest)) else none
    | [] => none
  | .step t => threadStep s t

end CoAwait.Routine
