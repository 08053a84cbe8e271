import CoAwait.SpecificPtr
import CoAwait.Runs
import Mathlib.Logic.Function.Basic

/-!
# Slots are keyed by addresses (`~SpecificPtr`, `get`; routine_specific_ptr.hpp:25)

Objects come and go at addresses, and every coroutine has a slot for an address in its own map. The destructor of an
object calls `reset`, which clears the slot of the coroutine it runs in and of no other; a new object at the address
finds in every other coroutine what was left there.

* `World`: the live objects by their addresses and the maps of the coroutines. What is cleaned up is not recorded here.
* `lastReset`: the pointer that a coroutine has passed to `reset` since the object was constructed.
* `leftBehind`: what a coroutine has last written to the slot of an address, for whatever object.
* `Tracked`: slots hold what was left behind, which for a live object is the pointer last passed to `reset`.
-/

namespace CoAwait.SpecificPtr

open Runs

variable {R A V F : Type} [DecidableEq R] [DecidableEq A]

structure World (R A V F : Type) where
  /-- The cleanup function of the object that lives at an address. -/
  live : A → Option F
  finished : R → Bool
  mLocalStorage : R → Storage A V F

inductive Action (R A V F : Type)
  | construct (address : A) (cleanupFunction : F)
  /-- `~SpecificPtr`, run in a coroutine or in a plain thread. -/
  | destroy (place : Option R) (address : A)
  | reset (routine : R) (address : A) (newValue : Option V)
  | get (routine : R) (address : A)
  /-- The end of a coroutine and of its `Data`. -/
  | finish (routine : R)
deriving DecidableEq

namespace World

def start : World R A V F := ⟨fun _ => none, fun _ => false, fun _ => ∅⟩

/-- `reset` in the coroutine `r`. -/
def resetIn (w : World R A V F) (r : R) (address : A) (newValue : Option V) (f : F) : World R A V F :=
  { w with mLocalStorage :=
      Function.update w.mLocalStorage r (reset (w.mLocalStorage r) address newValue f).1 }

/-- `reset()` in the destructor; in a plain thread it touches no map. -/
def resetAt (w : World R A V F) (place : Option R) (address : A) (f : F) : World R A V F :=
  match place with
  | some r => w.resetIn r address none f
  | none => w

def running (w : World R A V F) (place : Option R) : Bool :=
  match place with
  | some r => !w.finished r
  | none => true

/-- An object is constructed where none lives, and it is used and destroyed while it lives, in coroutines that have
not finished. -/
def step (w : World R A V F) : Action R A V F → Option (World R A V F)
  | .construct address f =>
    if w.live address = none then some { w with live := Function.update w.live address (some f) } else none
  | .destroy place address =>
    match w.live address with
    | some f =>
      if w.running place then
        some { w.resetAt place address f with live := Function.update w.live address none }
      else none
    | none => none
  | .reset r address newValue =>
    match w.live address with
    | some f => if w.running (some r) then some (w.resetIn r address newValue f) else none
    | none => none
  | .get r address => if w.live address ≠ none ∧ w.running (some r) then some w else none
  | .finish r =>
    if w.running (some r) then
      some { w with mLocalStorage := Function.update w.mLocalStorage r ∅,
                    finished := Function.update w.finished r true }
    else none

end World

/-! ## What a coroutine has done to a slot

A history is read from its last action backwards. -/

/-- The pointer that `r` has last passed to `reset` on the object constructed at `address`. -/
def lastReset (r : R) (address : A) : List (Action R A V F) → Option (Option V)
  | [] => none
  | .construct address' _ :: past => if address' = address then none else lastReset r address past
  | .reset r' address' newValue :: past =>
    if r' = r ∧ address' = address then some newValue else lastReset r address past
  | _ :: past => lastReset r address past

/-- What `get` should return. -/
def expected (r : R) (address : A) (past : List (Action R A V F)) : Option V := (lastReset r address past).join

/-- What `r` has last written to the slot of `address`: a destructor that runs in `r` writes `nullptr`. -/
def leftBehind (r : R) (address : A) : List (Action R A V F) → Option V
  | [] => none
  | .destroy place address' :: past =>
    if place = some r ∧ address' = address then none else leftBehind r address past
  | .reset r' address' newValue :: past =>
    if r' = r ∧ address' = address then newValue else leftBehind r address past
  | _ :: past => leftBehind r address past

section

variable {w w' : World R A V F} {past as : List (Action R A V F)} {r r' : R} {address a : A} {place : Option R}

/-- The slots hold what was left behind; of a live object that is the pointer last passed to its `reset`. -/
structure Tracked (past : List (Action R A V F)) (w : World R A V F) : Prop where
  slots : ∀ r a, w.finished r = false → get (w.mLocalStorage r) a = leftBehind r a past
  latest : ∀ r a v, w.live a ≠ none → lastReset r a past = some v → leftBehind r a past = v

theorem get_resetIn {v : Option V} {f : F} :
    get ((w.resetIn r address v f).mLocalStorage r') a =
      if r = r' ∧ address = a then v else get (w.mLocalStorage r') a := by
  by_cases hr : r = r'
  · subst hr
    simp only [World.resetIn, Function.update_self, get_eq]
    by_cases ha : address = a
    · subst ha
      simp
    · rw [slot_reset_ne (Ne.symm ha), if_neg fun h => ha h.2]
  · simp only [World.resetIn, Function.update_of_ne (Ne.symm hr)]
    rw [if_neg fun h => hr h.1]

/-- The destructor clears the slot of the coroutine it runs in. -/
theorem get_resetAt {f : F} :
    get ((w.resetAt place address f).mLocalStorage r) a =
      if place = some r ∧ address = a then none else get (w.mLocalStorage r) a := by
  cases place with
  | none => simp [World.resetAt]
  | some r' => simp [World.resetAt, get_resetIn]

@[simp] theorem resetAt_finished {f : F} : (w.resetAt place address f).finished = w.finished := by
  cases place <;> rfl

/-- What an action needs and what it changes. -/
theorem step_cases {x : Action R A V F} (hst : w.step x = some w') :
    (∃ address f, x = .construct address f ∧ w' = { w with live := Function.update w.live address (some f) }) ∨
    (∃ place address f, x = .destroy place address ∧
      w' = { w.resetAt place address f with live := Function.update w.live address none }) ∨
    (∃ r address v f, x = .reset r address v ∧ w' = w.resetIn r address v f) ∨
    (∃ r address, x = .get r address ∧ w.live address ≠ none ∧ w.finished r = false ∧ w' = w) ∨
    ∃ r, x = .finish r ∧ w' = { w with mLocalStorage := Function.update w.mLocalStorage r ∅,
                                       finished := Function.update w.finished r true } := by
  cases x with
  | construct address f =>
    simp only [World.step, Option.ite_none_right_eq_some, Option.some.injEq] at hst
    exact .inl ⟨address, f, rfl, hst.2.symm⟩
  | destroy place address =>
    rcases hlive : w.live address with _ | f
    · simp [World.step, hlive] at hst
    · simp only [World.step, hlive, Option.ite_none_right_eq_some, Option.some.injEq] at hst
      exact .inr (.inl ⟨place, address, f, rfl, hst.2.symm⟩)
  | reset r address v =>
    rcases hlive : w.live address with _ | f
    · simp [World.step, hlive] at hst
    · simp only [World.step, hlive, Option.ite_none_right_eq_some, Option.some.injEq] at hst
      exact .inr (.inr (.inl ⟨r, address, v, f, rfl, hst.2.symm⟩))
  | get r address =>
    simp only [World.step, World.running, Option.ite_none_right_eq_some, Option.some.injEq, Bool.not_eq_true'] at hst
    exact .inr (.inr (.inr (.inl ⟨r, address, rfl, hst.1.1, hst.1.2, hst.2.symm⟩)))
  | finish r =>
    simp only [World.step, Option.ite_none_right_eq_some, Option.some.injEq] at hst
    exact .inr (.inr (.inr (.inr ⟨r, rfl, hst.2.symm⟩)))

theorem tracked_step (h : Tracked past w) {x : Action R A V F} (hst : w.step x = some w') : Tracked (x :: past) w' := by
  obtain ⟨address, f, rfl, rfl⟩ | ⟨place, address, f, rfl, rfl⟩ | ⟨r', address, v', f, rfl, rfl⟩ |
    ⟨r', address, rfl, -, -, rfl⟩ | ⟨r', rfl, rfl⟩ := step_cases hst
  · refine ⟨h.slots, fun r a v hlive hlast => ?_⟩
    -- no `reset` of the new object has been made yet
    by_cases ha : address = a
    · simp [lastReset, ha] at hlast
    · rw [lastReset, if_neg ha] at hlast
      exact h.latest r a v (by simpa [Function.update_of_ne (Ne.symm ha)] using hlive) hlast
  · refine ⟨fun r a hr => ?_, fun r a v hlive hlast => ?_⟩
    · rw [leftBehind, ← h.slots r a (by simpa using hr)]
      exact get_resetAt
    · have ha : address ≠ a := by
        rintro rfl
        simp at hlive
      rw [leftBehind, if_neg fun he => ha he.2]
      exact h.latest r a v (by simpa [Function.update_of_ne (Ne.symm ha)] using hlive) hlast
  · refine ⟨fun r a hr => ?_, fun r a v hlive hlast => ?_⟩
    · rw [leftBehind, ← h.slots r a hr]
      exact get_resetIn
    · by_cases he : r' = r ∧ address = a
      · rw [lastReset, if_pos he] at hlast
        rw [leftBehind, if_pos he]
        exact Option.some.inj hlast
      · rw [lastReset, if_neg he] at hlast
        rw [leftBehind, if_neg he]
        exact h.latest r a v hlive hlast
  · exact ⟨h.slots, h.latest⟩
  · refine ⟨fun r a hr => ?_, h.latest⟩
    have hne : r ≠ r' := by
      rintro rfl
      simp at hr
    simp only [Function.update_of_ne hne] at hr ⊢
    exact h.slots r a hr

theorem tracked_run (hrun : Run World.step anyStep .start as w) : Tracked as.reverse w := by
  induction hrun with
  | nil => exact ⟨fun _ _ _ => rfl, fun _ _ _ hlive => absurd rfl hlive⟩
  | snoc _ _ hst ih =>
    rw [List.reverse_append]
    exact tracked_step ih hst

/-- **Which pointer `get` returns.** After any history, `get` on a live object in a running coroutine returns the
pointer last passed to `reset` on this object in this coroutine exactly when there has been such a `reset`, or when the
coroutine has left `nullptr` in the slot of the address. -/
theorem get_expected_iff (hrun : Run World.step anyStep .start as w) (hget : w.step (.get r a) = some w') :
    get (w.mLocalStorage r) a = expected r a as.reverse ↔
      lastReset r a as.reverse ≠ none ∨ leftBehind r a as.reverse = none := by
  have htracked := tracked_run hrun
  simp only [World.step, World.running, Option.ite_none_right_eq_some, Bool.not_eq_true'] at hget
  obtain ⟨⟨hlive, hrunning⟩, -⟩ := hget
  rw [htracked.slots r a hrunning, expected]
  rcases hlast : lastReset r a as.reverse with _ | v
  · simp
  · simp [htracked.latest r a v hlive hlast]

end

/-- A coroutine sets a pointer, the object is destroyed in `place`, and a new one takes its address. -/
def reused (place : Option Nat) : List (Action Nat Nat Nat String) :=
  [.construct 0 "delete", .reset 0 0 (some 7), .destroy place 0, .construct 0 "free"]

theorem get_expected_destroyed_inside : ∃ w, Run World.step anyStep .start (reused (some 0)) w ∧
    get (w.mLocalStorage 0) 0 = expected 0 0 (reused (some 0)).reverse := by
  have hrun := exec_get_run World.step anyStep .start (reused (some 0)) (by decide)
  exact ⟨_, hrun, (get_expected_iff hrun (Option.some_get (by decide)).symm).2 (.inr (by decide))⟩

/-- If the object is destroyed elsewhere, its pointer is returned by the new object. -/
theorem get_of_reused_address : ∃ w, Run World.step anyStep .start (reused none) w ∧
    (w.step (.get 0 0)).isSome ∧ lastReset 0 0 (reused none).reverse = none ∧ get (w.mLocalStorage 0) 0 = some 7 := by
  have hrun := exec_get_run World.step anyStep .start (reused none) (by decide)
  exact ⟨_, hrun, by decide, by decide, by decide⟩

end CoAwait.SpecificPtr
