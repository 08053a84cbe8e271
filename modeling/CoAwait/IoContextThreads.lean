import CoAwait.Custody
import CoAwait.Runs
import CoAwait.Table

/-!
# `IoContextThreads` (`executor.hpp:36-78`)

A handle has two members: `mIosWork`, which keeps the `io_context` from running out of work, and `mThreads`, which run
it. The defaulted move constructor moves them differently, and `joinAll` is public and the body of the destructor.

| here | there |
| --- | --- |
| `Handle.mIosWork`         | `boost::optional<io_context::work>`: the context that the work object keeps busy |
| `Handle.mThreads`         | `std::vector<std::thread>` |
| `.construct`              | `IoContextThreads(cnt, ioc)` (`:43-52`) |
| `.move`                   | the move constructor (`:64`): `mIosWork` stays engaged and is copied, `mThreads` is left empty |
| `joinThreads`, `joinAll`  | `joinAll` (`:69-75`) |
| `.destroy`                | the destructor (`:77`), which does not let an exception out |

A thread is joinable until a `join` has returned, and a `join` does not return while a work object for the context
of the thread exists. Where a `join` cannot return, or the destructor throws, the run ends. Other work of the
contexts, and whether they were stopped before, is not modelled.
-/

namespace CoAwait.IoContextThreads

open Table

/-- A `std::thread` that runs `ioc`. -/
structure Thread where
  id : Nat
  ioc : Nat
deriving DecidableEq, Repr

structure Construction where
  number : Nat
  ioc : Nat
deriving DecidableEq, Repr

structure Handle where
  mIosWork : Option Nat
  mThreads : List Thread
  /-- The construction it descends from; no member, for the statements only. -/
  construction : Construction
deriving DecidableEq, Repr

/-- A call of `t.join()` in `joinAll`. -/
structure Join where
  thread : Thread
  joinable : Bool
  /-- Some handle keeps the context of the thread busy. -/
  busy : Bool
  /-- A handle descended from the same construction holds a work object. -/
  held : Bool
deriving DecidableEq, Repr

def Join.returned (join : Join) : Bool := join.joinable && !join.busy

inductive Status where
  | running
  | terminated
  | blocked
deriving DecidableEq, Repr

/-- The handles by their numbers, and `none` for those that were destroyed. -/
structure State where
  handles : List (Option Handle) := []
  started : List Thread := []
  joins : List Join := []
  status : Status := .running
deriving DecidableEq, Repr

def init : State := {}

inductive Act where
  | construct (cnt ioc : Nat)
  | move (h : Nat)
  | joinAll (h : Nat)
  | destroy (h : Nat)
deriving DecidableEq, Repr

inductive Outcome where
  | returned
  | threw
  | blocked
deriving DecidableEq, Repr

/-- A work object for `ioc` exists. -/
def State.busy (s : State) (ioc : Nat) : Bool := s.handles.any fun h => h.any fun a => a.mIosWork = some ioc

/-- A handle descended from `c` holds a work object. -/
def State.held (s : State) (c : Construction) : Bool :=
  s.handles.any fun h => h.any fun a => a.construction = c && a.mIosWork.isSome

/-- A `join` on `t` has returned. -/
def joinedIn (joins : List Join) (t : Thread) : Bool := joins.any fun join => join.thread = t && join.returned

/-- `for (auto& t : mThreads) t.join();` -/
def joinThreads (busy : Nat → Bool) (held : Bool) : List Thread → List Join → List Join × Outcome
  | [], joins => (joins, .returned)
  | t :: ts, joins =>
    let join : Join := ⟨t, !joinedIn joins t, busy t.ioc, held⟩
    if !join.joinable then (joins ++ [join], .threw)
    else if join.busy then (joins ++ [join], .blocked)
    else joinThreads busy held ts (joins ++ [join])

/-- `joinAll` on the handle number `h`, which is `a`. -/
def State.joinAll (s : State) (h : Nat) (a : Handle) : State × Outcome :=
  let s' := { s with handles := s.handles.set h (some { a with mIosWork := none }) }
  let r := joinThreads s'.busy (s'.held a.construction) a.mThreads s'.joins
  ({ s' with joins := r.1 }, r.2)

def newThreads (s : State) (cnt ioc : Nat) : List Thread :=
  (List.range cnt).map fun i => ⟨s.started.length + i, ioc⟩

def step (s : State) (act : Act) : Option State :=
  if s.status = .running then
    match act with
    | .construct cnt ioc =>
      some { s with handles := s.handles ++ [some ⟨some ioc, newThreads s cnt ioc, ⟨s.handles.length, ioc⟩⟩],
                    started := s.started ++ newThreads s cnt ioc }
    | .move h =>
      (look id s.handles h).map fun a =>
        { s with handles := s.handles.set h (some { a with mThreads := [] }) ++ [some a] }
    | .joinAll h =>
      (look id s.handles h).map fun a =>
        match s.joinAll h a with
        | (s', .returned) | (s', .threw) => s'
        | (s', .blocked) => { s' with status := .blocked }
    | .destroy h =>
      (look id s.handles h).map fun a =>
        match s.joinAll h a with
        | (s', .returned) => { s' with handles := s'.handles.set h none }
        | (s', .threw) => { s' with status := .terminated }
        | (s', .blocked) => { s' with status := .blocked }
  else none

/-- Nothing is left to do: all handles have been destroyed, or the run cannot go on. -/
def Ended (s : State) : Prop := s.status ≠ .running ∨ ∀ h ∈ s.handles, h = none

/-- Every thread has been joined once, no other was, and no work object of the construction existed. -/
structure Sound (s : State) : Prop where
  once : ∀ t ∈ s.started, (s.joins.countP fun join => join.thread = t && join.returned) = 1
  joinable : ∀ join ∈ s.joins, join.joinable = true
  free : ∀ join ∈ s.joins, join.held = false

/-- `joinAll` is not called on a handle that owns threads, and no other handle keeps the context busy when such a
handle is destroyed. -/
def careful (s : State) : Act → Prop
  | .joinAll h => ∀ a, look id s.handles h = some a → a.mThreads = []
  | .destroy h => ∀ a, look id s.handles h = some a → ∀ t ∈ a.mThreads, ∀ h' a', h' ≠ h →
    look id s.handles h' = some a' → a'.mIosWork ≠ some t.ioc
  | _ => True

instance (s : State) : (act : Act) → Decidable (careful s act)
  | .construct _ _ | .move _ => .isTrue trivial
  | .joinAll h => inferInstanceAs (Decidable (∀ a ∈ look id s.handles h, a.mThreads = []))
  | .destroy h => decidable_of_iff (∀ a ∈ look id s.handles h, ∀ t ∈ a.mThreads, ∀ h' < s.handles.length, h' ≠ h →
      ∀ a' ∈ look id s.handles h', a'.mIosWork ≠ some t.ioc)
    ⟨fun hall a hl t ht h' a' hne hl' => hall a hl t ht h' (lt_of_look hl') hne a' hl',
      fun hc a hl t ht h' _ hne a' hl' => hc a hl t ht h' a' hne hl'⟩

end CoAwait.IoContextThreads
