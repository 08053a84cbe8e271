import Mathlib.Tactic.Common

/-!
# `LightFutureData` (`future.hpp:170-308`)

| here | there |
| --- | --- |
| `Handle`                    | the values of `continuationPtr`: `EmptyHandle`, the address of a registered task, `InvalidHandle` |
| `Value`                     | `impl::Value<T>` = `boost::variant<Unset, T, std::exception_ptr>` (`:20-45`) |
| `LightFutureData.isReady`   | `is_ready` / `is_ready_weak` (`:185-194`) |
| `LightFutureData.suspend`   | the compare-exchange of `suspend` (`:229-239`) |
| `LightFutureData.store`     | `value = std::move(val)` in `set_value` / `set_exception` (`:281-291`) |
| `LightFutureData.exchange`  | `continuationPtr.exchange(h)`, in `on_ready` (`:294-304`) and in `wait_for` (`:269`) |

One atomic operation is one function here, so that the systems built on it can interleave them. What
stands for the address of a task is a parameter.
-/

namespace CoAwait

variable {K T : Type}

inductive Handle (K : Type) where
  | empty
  | task (k : K)
  | invalid
deriving DecidableEq, Repr

inductive Value (T : Type) where
  | unset
  | val (t : T)
  | exception (e : Nat)
deriving DecidableEq, Repr

structure LightFutureData (K T : Type) where
  continuationPtr : Handle K := .empty
  value : Value T := .unset
deriving DecidableEq, Repr

namespace LightFutureData

def isReady (f : LightFutureData K T) : Bool :=
  match f.continuationPtr with
  | .invalid => true
  | _ => false

/-- `compare_exchange_strong(expected = EmptyHandle, &func)`: the result and the data after it. -/
def suspend (f : LightFutureData K T) (func : K) : Bool × LightFutureData K T :=
  match f.continuationPtr with
  | .empty => (true, { f with continuationPtr := .task func })
  | _ => (false, f)

def store (f : LightFutureData K T) (v : Value T) : LightFutureData K T := { f with value := v }

/-- `continuationPtr.exchange(h)`: the old pointer and the data after it. -/
def exchange (f : LightFutureData K T) (h : Handle K) : Handle K × LightFutureData K T :=
  (f.continuationPtr, { f with continuationPtr := h })

@[simp] theorem isReady_iff {f : LightFutureData K T} : f.isReady = true ↔ f.continuationPtr = .invalid := by
  unfold isReady
  split <;> simp_all

@[simp] theorem isReady_eq_false_iff {f : LightFutureData K T} :
    f.isReady = false ↔ f.continuationPtr ≠ .invalid := by
  rw [← Bool.not_eq_true, isReady_iff]

@[simp] theorem store_continuationPtr (f : LightFutureData K T) (v : Value T) :
    (f.store v).continuationPtr = f.continuationPtr := rfl

@[simp] theorem exchange_fst (f : LightFutureData K T) (h : Handle K) : (f.exchange h).1 = f.continuationPtr := rfl

@[simp] theorem exchange_continuationPtr (f : LightFutureData K T) (h : Handle K) :
    (f.exchange h).2.continuationPtr = h := rfl

@[simp] theorem exchange_value (f : LightFutureData K T) (h : Handle K) : (f.exchange h).2.value = f.value := rfl

@[simp] theorem suspend_value (f : LightFutureData K T) (k : K) : (f.suspend k).2.value = f.value := by
  unfold suspend
  split <;> rfl

/-- `suspend` registers exactly on a fresh future. -/
theorem suspend_eq_true_iff {f : LightFutureData K T} {k : K} :
    (f.suspend k).1 = true ↔ f.continuationPtr = .empty := by
  unfold suspend
  split <;> simp_all

theorem suspend_of_true {f : LightFutureData K T} {k : K} (h : (f.suspend k).1 = true) :
    (f.suspend k).2.continuationPtr = .task k := by
  rw [suspend_eq_true_iff] at h
  simp [suspend, h]

end LightFutureData

end CoAwait
