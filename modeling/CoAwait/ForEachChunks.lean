import CoAwait.ForEachOutcome

/-!
# `forEach` on a random-access sized range (`foreach.hpp:55-91`)

The elements are split into contiguous chunks, one for each coroutine; `func` gets references to them.

| here | there |
| --- | --- |
| `State.elements`                 | what the iterators of the range refer to |
| `CallerAct.split`                | `coroCnt`, `itemsPerCoro`, `remaining` (`:57-64`) |
| `CallerAct.create`               | one round of the loop over `coros` (`:68-90`) |
| `CallerAct.rangeThrow`           | `size`, `begin` or the arithmetic of the iterators throws |
| `Worker`, `workerStep`           | the lambda of a worker (`:78-89`), the loop over `[begin, end)` |
| `WorkerAct.funcReturn v`         | `func(*itr)` returns and leaves `v` in the element |
| `WorkerAct.rangeThrow`           | `!=`, `++` or `*` throws in a worker |

`chunkStart` is where the chunks begin; the invariant `Split` says that the loop computes it.
-/

namespace CoAwait.ForEach.Chunks

variable {T E : Type}

inductive Worker (E : Type) where
  | iterating (itr last : Nat)
  /-- In `func(*itr)`. -/
  | running (itr last : Nat)
  | suspended (itr last : Nat)
  | failed (e : E)
  /-- The body has returned. -/
  | leaving
  | finished
deriving DecidableEq, Repr

def Worker.isFinished : Worker E → Bool
  | finished => true
  | _ => false

inductive Caller (E : Type) where
  | entering
  | creating
  | tail (t : Tail E)
deriving DecidableEq, Repr

structure State (T E : Type) where
  elements : List T
  coroCnt : Nat := 0
  itemsPerCoro : Nat := 0
  remaining : Nat := 0
  /-- The variable `end` of the loop. -/
  last : Nat := 0
  workers : List (Worker E) := []
  caller : Caller E := .entering
  /-- The worker that runs on the stack of the caller. -/
  inlined : Option Nat := none
  firstError : Option E := none
  calls : List (Nat × T) := []
deriving DecidableEq, Repr

def init (c : Config T) : State T E := { elements := c.range }

inductive CallerAct (E : Type) where
  | split
  | create
  | created
  | rangeThrow (e : E)
  | tail
deriving DecidableEq, Repr

inductive WorkerAct (T E : Type) where
  | call
  | funcSuspend
  | funcResume
  | funcReturn (v : T)
  | funcThrow (e : E)
  | rangeThrow (e : E)
  | loopEnd
  | handleError
  | finish
deriving DecidableEq, Repr

inductive Act (T E : Type) where
  | caller (a : CallerAct E)
  | worker (w : Nat) (a : WorkerAct T E)
deriving DecidableEq, Repr

def State.place (s : State T E) (w : Nat) (p : Worker E) : State T E := { s with workers := s.workers.set w p }

/-- Worker `w` leaves the stack it runs on. -/
def State.yield (s : State T E) (w : Nat) (p : Worker E) : State T E :=
  { s.place w p with inlined := if s.inlined = some w then none else s.inlined }

def callerStep (c : Config T) (s : State T E) (a : CallerAct E) : Option (State T E) :=
  match s.caller, a with
  | .entering, .split =>
    let size := s.elements.length
    let coroCnt := min c.maxParallelity size
    -- `s / coroCnt` divides by zero
    if coroCnt = 0 then none
    else some { s with
      coroCnt
      itemsPerCoro := size / coroCnt
      remaining := size % coroCnt
      caller := .creating }
  | .entering, .rangeThrow e => some { s with caller := .tail (.destroying 0 (some e)) }
  | .creating, .create =>
    if s.workers.length < s.coroCnt then
      let last := s.last + s.itemsPerCoro
      let last := if s.remaining ≠ 0 then last + 1 else last
      some { s with
        last
        remaining := s.remaining - 1
        workers := s.workers ++ [.iterating s.last last]
        inlined := some s.workers.length }
    else none
  | .creating, .rangeThrow e =>
    if s.workers.length < s.coroCnt then some { s with caller := .tail (.destroying 0 (some e)) } else none
  | .creating, .created =>
    if s.workers.length < s.coroCnt then none else some { s with caller := .tail (.awaiting 0) }
  | .tail t, .tail =>
    (t.next (s.workers.map Worker.isFinished) s.firstError).map fun t => { s with caller := .tail t }
  | _, _ => none

def workerStep (s : State T E) (w : Nat) (p : Worker E) (a : WorkerAct T E) : Option (State T E) :=
  match p, a with
  | .iterating itr last, .call =>
    if itr = last then none
    else (s.elements[itr]?).map fun x => { s.place w (.running itr last) with calls := s.calls ++ [(itr, x)] }
  | .running itr last, .funcSuspend => some (s.yield w (.suspended itr last))
  | .suspended itr last, .funcResume => some (s.place w (.running itr last))
  | .running itr last, .funcReturn v =>
    some { s.place w (.iterating (itr + 1) last) with elements := s.elements.set itr v }
  | .running _ _, .funcThrow e => some (s.place w (.failed e))
  | .iterating _ _, .rangeThrow e => some (s.place w (.failed e))
  | .iterating itr last, .loopEnd => if itr = last then some (s.place w .leaving) else none
  | .failed e, .handleError =>
    some { s.place w .leaving with firstError := if s.firstError.isSome then s.firstError else some e }
  | .leaving, .finish => some (s.yield w .finished)
  | _, _ => none

def step (c : Config T) (s : State T E) : Act T E → Option (State T E)
  | .caller a => if s.inlined.isSome then none else callerStep c s a
  | .worker w a => (s.workers[w]?).bind fun p => workerStep s w p a

/-- The element that worker `w` has passed to `func`. -/
def State.current (s : State T E) (w : Nat) : Option T :=
  match s.workers[w]? with
  | some (.running itr _) => s.elements[itr]?
  | _ => none

/-- The runs in which nothing throws and `func` replaces each element `x` it is called with by `f x`. -/
def calm (f : T → T) (s : State T E) : Act T E → Prop
  | .caller (.rangeThrow _) | .worker _ (.funcThrow _) | .worker _ (.rangeThrow _) => False
  | .worker w (.funcReturn v) => some v = (s.current w).map f
  | _ => True

instance [DecidableEq T] (f : T → T) (s : State T E) : (a : Act T E) → Decidable (calm f s a)
  | .caller (.rangeThrow _) | .worker _ (.funcThrow _) | .worker _ (.rangeThrow _) => .isFalse id
  | .worker _ (.funcReturn _) => inferInstanceAs (Decidable (_ = _))
  | .caller .split | .caller .create | .caller .created | .caller .tail | .worker _ .call | .worker _ .funcSuspend
  | .worker _ .funcResume | .worker _ .loopEnd | .worker _ .handleError | .worker _ .finish => .isTrue trivial

/-! ## The branches of `step` -/

open Runs Table

inductive CallerStep (c : Config T) (s : State T E) : CallerAct E → State T E → Prop
  | split {coroCnt : Nat} (hc : s.caller = .entering) (hcnt : coroCnt = min c.maxParallelity s.elements.length)
      (hpos : coroCnt ≠ 0) :
      CallerStep c s .split { s with
        coroCnt := coroCnt
        itemsPerCoro := s.elements.length / coroCnt
        remaining := s.elements.length % coroCnt
        caller := .creating }
  | create {last : Nat} (hc : s.caller = .creating) (hlen : s.workers.length < s.coroCnt)
      (hlast : last = s.last + s.itemsPerCoro + if s.remaining = 0 then 0 else 1) :
      CallerStep c s .create { s with
        last := last
        remaining := s.remaining - 1
        workers := s.workers ++ [.iterating s.last last]
        inlined := some s.workers.length }
  | created (hc : s.caller = .creating) (hlen : s.coroCnt ≤ s.workers.length) :
      CallerStep c s .created { s with caller := .tail (.awaiting 0) }
  | rangeThrow {e : E} (hc : s.caller = .entering ∨ s.caller = .creating ∧ s.workers.length < s.coroCnt) :
      CallerStep c s (.rangeThrow e) { s with caller := .tail (.destroying 0 (some e)) }
  | tail {t t' : Tail E} (hc : s.caller = .tail t)
      (ht : t.next (s.workers.map Worker.isFinished) s.firstError = some t') :
      CallerStep c s .tail { s with caller := .tail t' }

inductive WorkerStep (s : State T E) (w : Nat) : Worker E → WorkerAct T E → State T E → Prop
  | call {itr last : Nat} {x : T} (hne : itr ≠ last) (hx : s.elements[itr]? = some x) :
      WorkerStep s w (.iterating itr last) .call { s.place w (.running itr last) with calls := s.calls ++ [(itr, x)] }
  | funcSuspend {itr last : Nat} :
      WorkerStep s w (.running itr last) .funcSuspend (s.yield w (.suspended itr last))
  | funcResume {itr last : Nat} : WorkerStep s w (.suspended itr last) .funcResume (s.place w (.running itr last))
  | funcReturn {itr last : Nat} {v : T} :
      WorkerStep s w (.running itr last) (.funcReturn v) { s.place w (.iterating (itr + 1) last) with
        elements := s.elements.set itr v }
  | funcThrow {itr last : Nat} {e : E} : WorkerStep s w (.running itr last) (.funcThrow e) (s.place w (.failed e))
  | rangeThrow {itr last : Nat} {e : E} : WorkerStep s w (.iterating itr last) (.rangeThrow e) (s.place w (.failed e))
  | loopEnd {last : Nat} : WorkerStep s w (.iterating last last) .loopEnd (s.place w .leaving)
  | handleError {e : E} :
      WorkerStep s w (.failed e) .handleError { s.place w .leaving with
        firstError := if s.firstError.isSome then s.firstError else some e }
  | finish : WorkerStep s w .leaving .finish (s.yield w .finished)

inductive Step (c : Config T) (s : State T E) : Act T E → State T E → Prop
  | caller {a : CallerAct E} {s' : State T E} (hfree : s.inlined = none) (hst : CallerStep c s a s') :
      Step c s (.caller a) s'
  | worker {w : Nat} {p : Worker E} {a : WorkerAct T E} {s' : State T E} (hw : s.workers[w]? = some p)
      (hst : WorkerStep s w p a s') : Step c s (.worker w a) s'

variable {c : Config T} {s s' : State T E} {w : Nat} {p : Worker E}

theorem callerStep_cases {a : CallerAct E} (h : callerStep c s a = some s') : CallerStep c s a s' := by
  unfold callerStep at h
  split at h
  case h_1 hc =>
    dsimp only at h
    split at h
    case isTrue => cases h
    case isFalse hpos =>
      obtain rfl := Option.some.inj h
      exact .split hc rfl hpos
  case h_2 e hc =>
    obtain rfl := Option.some.inj h
    exact .rangeThrow (.inl hc)
  case h_3 hc =>
    split at h
    case isTrue hlen =>
      obtain rfl := Option.some.inj h
      refine .create hc hlen ?_
      split <;> simp_all
    case isFalse => cases h
  case h_4 e hc =>
    split at h
    case isTrue hlen =>
      obtain rfl := Option.some.inj h
      exact .rangeThrow (.inr ⟨hc, hlen⟩)
    case isFalse => cases h
  case h_5 hc =>
    split at h
    case isTrue => cases h
    case isFalse hlen =>
      obtain rfl := Option.some.inj h
      exact .created hc (Nat.le_of_not_lt hlen)
  case h_6 t hc =>
    obtain ⟨t', ht, rfl⟩ := Option.map_eq_some_iff.1 h
    exact .tail hc ht
  case h_7 => cases h

theorem workerStep_cases {a : WorkerAct T E} (h : workerStep s w p a = some s') : WorkerStep s w p a s' := by
  unfold workerStep at h
  split at h
  case h_1 =>
    split at h
    case isTrue => cases h
    case isFalse hne =>
      obtain ⟨x, hx, rfl⟩ := Option.map_eq_some_iff.1 h
      exact .call hne hx
  case h_2 =>
    obtain rfl := Option.some.inj h
    exact .funcSuspend
  case h_3 =>
    obtain rfl := Option.some.inj h
    exact .funcResume
  case h_4 =>
    obtain rfl := Option.some.inj h
    exact .funcReturn
  case h_5 =>
    obtain rfl := Option.some.inj h
    exact .funcThrow
  case h_6 =>
    obtain rfl := Option.some.inj h
    exact .rangeThrow
  case h_7 =>
    split at h
    case isTrue heq =>
      subst heq
      obtain rfl := Option.some.inj h
      exact .loopEnd
    case isFalse => cases h
  case h_8 =>
    obtain rfl := Option.some.inj h
    exact .handleError
  case h_9 =>
    obtain rfl := Option.some.inj h
    exact .finish
  case h_10 => cases h

theorem step_cases {a : Act T E} (h : step c s a = some s') : Step c s a s' := by
  cases a with
  | caller a =>
    simp only [step] at h
    split at h
    case isTrue => cases h
    case isFalse hfree => exact .caller (by simpa using hfree) (callerStep_cases h)
  | worker w a =>
    obtain ⟨p, hw, hp⟩ := Option.bind_eq_some_iff.1 h
    exact .worker hw (workerStep_cases hp)

end CoAwait.ForEach.Chunks
