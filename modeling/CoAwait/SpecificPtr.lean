import Mathlib.Data.List.AList

/-!
# Coroutine-local pointers (routine_specific_ptr.hpp; `Data::StorageItem`, routine.hpp:377)

Every `Data` has a map `mLocalStorage` from the address of a `SpecificPtr` to a `StorageItem`, a type-erased
pointer with the function that cleans it up. In a coroutine a `SpecificPtr` works on the map of the running
`Data`; elsewhere it forwards to a `boost::thread_specific_ptr`.

* A pointer is an `Option V`, and `none` is `nullptr`; an empty `std::function` is `none` too.
* `mLocalStorage[this] = StorageItem{newValue, mCleanupFunction}` is written out: the temporary, the slot that
  `operator[]` inserts, the move assignment and the destructor of the temporary.
* `std::unordered_map` destroys its elements in no particular order: `Destroyed` allows all of them.
* In a coroutine `release` returns the `void*` of the item where `T*` is declared, which compiles only as long as
  nobody calls it; it is modelled as the returned pointer.
-/

namespace CoAwait

/-- A call of a cleanup function. -/
structure Cleanup (V F : Type) where
  fn : F
  arg : Option V
deriving DecidableEq

structure StorageItem (V F : Type) where
  data : Option V
  cleanupFunction : Option F
deriving DecidableEq

namespace StorageItem

variable {V F : Type}

/-- `StorageItem() = default` -/
def empty : StorageItem V F := ⟨none, none⟩

/-- `StorageItem(T* t, void (*ownCleanup)(T*))` -/
def make (t : Option V) (ownCleanup : F) : StorageItem V F := ⟨t, some ownCleanup⟩

/-- `if (cleanupFunction) cleanupFunction(data);` -/
def cleanup (item : StorageItem V F) : List (Cleanup V F) :=
  match item.cleanupFunction with
  | some fn => [⟨fn, item.data⟩]
  | none => []

/-- `operator=(StorageItem&& other)` (routine.hpp:401): the item, `other` and the calls made. -/
def moveAssign (item other : StorageItem V F) : StorageItem V F × StorageItem V F × List (Cleanup V F) :=
  (⟨other.data, other.cleanupFunction⟩, { other with cleanupFunction := none }, item.cleanup)

@[simp] theorem cleanup_empty : (empty : StorageItem V F).cleanup = [] := rfl

@[simp] theorem cleanup_some {d : Option V} {f : F} : (⟨d, some f⟩ : StorageItem V F).cleanup = [⟨f, d⟩] := rfl

end StorageItem

namespace SpecificPtr

variable {P V F : Type} [DecidableEq P]

/-- `mLocalStorage` (routine.hpp:423) -/
abbrev Storage (P V F : Type) : Type := AList fun _ : P => StorageItem V F

/-- `get` in a coroutine (routine_specific_ptr.hpp:30) -/
def get (mLocalStorage : Storage P V F) (this : P) : Option V :=
  match mLocalStorage.lookup this with
  | some item => item.data
  | none => none

/-- `release` in a coroutine (routine_specific_ptr.hpp:52) -/
def release (mLocalStorage : Storage P V F) (this : P) : Option V × Storage P V F :=
  match mLocalStorage.lookup this with
  | some item => (item.data, mLocalStorage.insert this { item with data := none })
  | none => (none, mLocalStorage)

/-- `mLocalStorage[this]`: a default-constructed item is inserted where there is none. -/
def slot (mLocalStorage : Storage P V F) (this : P) : StorageItem V F :=
  (mLocalStorage.lookup this).getD .empty

/-- `reset` in a coroutine (routine_specific_ptr.hpp:67) -/
def reset (mLocalStorage : Storage P V F) (this : P) (newValue : Option V) (mCleanupFunction : F) :
    Storage P V F × List (Cleanup V F) :=
  let temporary := StorageItem.make newValue mCleanupFunction
  let assigned := (slot mLocalStorage this).moveAssign temporary
  (mLocalStorage.insert this assigned.1, assigned.2.2 ++ assigned.2.1.cleanup)

/-- The calls made when `mLocalStorage` is destroyed with its `Data`. -/
def Destroyed (mLocalStorage : Storage P V F) (calls : List (Cleanup V F)) : Prop :=
  ∃ order : List (Sigma fun _ : P => StorageItem V F),
    order.Perm mLocalStorage.entries ∧ calls = order.flatMap fun entry => entry.2.cleanup

section Spec

variable {s : Storage P V F} {p q : P} {v : Option V} {f : F}

theorem reset_storage : (reset s p v f).1 = s.insert p ⟨v, some f⟩ := rfl

theorem reset_calls : (reset s p v f).2 = (slot s p).cleanup := by
  simp [reset, StorageItem.moveAssign, StorageItem.make, StorageItem.cleanup]

theorem slot_of_lookup {item : StorageItem V F} (h : s.lookup p = some item) : slot s p = item := by
  simp [slot, h]

theorem slot_of_none (h : s.lookup p = none) : slot s p = .empty := by simp [slot, h]

theorem get_eq : get s p = (slot s p).data := by
  cases h : s.lookup p with
  | none => simp [get, slot, h, StorageItem.empty]
  | some item => simp [get, slot, h]

theorem release_result : (release s p).1 = get s p := by
  cases h : s.lookup p <;> simp [release, get, h]

theorem release_of_lookup {item : StorageItem V F} (h : s.lookup p = some item) :
    (release s p).2 = s.insert p { item with data := none } := by simp [release, h]

theorem release_of_none (h : s.lookup p = none) : (release s p).2 = s := by simp [release, h]

@[simp] theorem slot_insert {item : StorageItem V F} : slot (s.insert p item) p = item := by simp [slot]

theorem slot_insert_ne {item : StorageItem V F} (h : p ≠ q) : slot (s.insert q item) p = slot s p := by
  simp [slot, AList.lookup_insert_ne h]

/-- A `release` forgets the pointer and keeps the function. -/
theorem slot_release : slot (release s p).2 p = { slot s p with data := none } := by
  cases h : s.lookup p with
  | none => simp [release_of_none h, slot_of_none h, StorageItem.empty]
  | some item => simp [release_of_lookup h, slot_of_lookup h]

theorem slot_release_ne (h : p ≠ q) : slot (release s q).2 p = slot s p := by
  cases hq : s.lookup q with
  | none => rw [release_of_none hq]
  | some item => rw [release_of_lookup hq, slot_insert_ne h]

theorem slot_reset_ne (h : p ≠ q) : slot (reset s q v f).1 p = slot s p := slot_insert_ne h

@[simp] theorem slot_reset : slot (reset s p v f).1 p = ⟨v, some f⟩ := slot_insert

end Spec

/-! ## Calls made in one coroutine -/

inductive Op (V : Type)
  | get
  | reset (newValue : Option V)
  | release
deriving DecidableEq

/-- What a `get` or a `release` has returned. -/
structure Answer (P V : Type) where
  this : P
  call : Op V
  result : Option V
deriving DecidableEq

/-- A coroutine's storage with what its calls have returned and cleaned up so far. -/
structure Session (P V F : Type) where
  mLocalStorage : Storage P V F
  answers : List (Answer P V)
  cleaned : List (Cleanup V F)

namespace Session

/-- A new `Data`. -/
def start : Session P V F := ⟨∅, [], []⟩

def perform (mCleanupFunction : P → F) (σ : Session P V F) (this : P) : Op V → Session P V F
  | .get => { σ with answers := σ.answers ++ [⟨this, .get, get σ.mLocalStorage this⟩] }
  | .reset newValue =>
    { σ with mLocalStorage := (reset σ.mLocalStorage this newValue (mCleanupFunction this)).1,
             cleaned := σ.cleaned ++ (reset σ.mLocalStorage this newValue (mCleanupFunction this)).2 }
  | .release =>
    { σ with mLocalStorage := (release σ.mLocalStorage this).2,
             answers := σ.answers ++ [⟨this, .release, (release σ.mLocalStorage this).1⟩] }

/-- The calls `ops`, each on the object it names. -/
def run (mCleanupFunction : P → F) (σ : Session P V F) (ops : List (P × Op V)) : Session P V F :=
  ops.foldl (fun σ op => σ.perform mCleanupFunction op.1 op.2) σ

variable {fn : P → F} {σ : Session P V F} {p q : P} {op : Op V} {ops ops' : List (P × Op V)}

@[simp] theorem run_nil : run fn σ [] = σ := rfl

theorem run_cons : run fn σ ((p, op) :: ops) = run fn (σ.perform fn p op) ops := rfl

theorem run_append : run fn σ (ops ++ ops') = run fn (run fn σ ops) ops' := List.foldl_append

theorem run_concat : run fn σ (ops ++ [(p, op)]) = (run fn σ ops).perform fn p op := by
  rw [run_append]; rfl

/-- A call on one object leaves the slots of the others alone. -/
theorem slot_perform_ne (h : p ≠ q) : slot (σ.perform fn q op).mLocalStorage p = slot σ.mLocalStorage p := by
  cases op with
  | get => rfl
  | reset newValue => exact slot_reset_ne h
  | release => exact slot_release_ne h

end Session

end SpecificPtr

end CoAwait
