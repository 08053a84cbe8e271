import Mathlib.Data.Fintype.Basic
import Mathlib.Data.Fintype.Card
import Mathlib.Algebra.Order.BigOperators.Group.Finset

/-!
# Counting the clients in a role

Every client of a concurrent object is in one role at a time. `num role r` is the number of clients in
role `r`; `num_move` says how the numbers change when one client moves, `num_stay` that nothing changes
when every client keeps its role.
-/

namespace Counting

variable {ι R : Type} [Fintype ι] [DecidableEq R]

/-- The number of clients in role `r`. -/
def num (role : ι → R) (r : R) : Nat := (Finset.univ.filter fun i => role i = r).card

variable {role role' : ι → R} {r r' : R}

theorem num_pos_iff : 0 < num role r ↔ ∃ i, role i = r := by
  simp [num, Finset.card_pos, Finset.Nonempty]

theorem num_eq_zero_iff : num role r = 0 ↔ ∀ i, role i ≠ r := by
  simp [num, Finset.filter_eq_empty_iff]

theorem num_stay (h : ∀ i, role' i = role i) : num role' r = num role r := by
  rw [funext h]

theorem eq_of_num_le_one (h : num role r ≤ 1) {i j : ι} (hi : role i = r) (hj : role j = r) : i = j :=
  Finset.card_le_one.1 h i (by simpa using hi) j (by simpa using hj)

/-- One client moves from role `a` to role `b`. -/
theorem num_move [DecidableEq ι] {i : ι} {a b : R} (ha : role i = a) (hb : role' i = b)
    (h : ∀ j, j ≠ i → role' j = role j) :
    num role' r + (if a = r then 1 else 0) = num role r + (if b = r then 1 else 0) := by
  have split : ∀ f : ι → R, num f r
      = (((Finset.univ.erase i).filter fun j => f j = r).card + if f i = r then 1 else 0) := by
    intro f
    rw [num, ← Finset.insert_erase (Finset.mem_univ i), Finset.filter_insert]
    by_cases hf : f i = r
    · rw [if_pos hf, if_pos hf, Finset.card_insert_of_notMem (by simp), Finset.erase_insert (by simp)]
    · rw [if_neg hf, if_neg hf, Finset.erase_insert (by simp), Nat.add_zero]
  have rest : ((Finset.univ.erase i).filter fun j => role' j = r) = (Finset.univ.erase i).filter fun j => role j = r :=
    Finset.filter_congr fun j hj => by rw [h j (Finset.ne_of_mem_erase hj)]
  rw [split role, split role', rest, ha, hb]
  omega

end Counting
