import Mathlib.Order.Monotone.Basic
import Mathlib.Data.Nat.Init

/-!
# Contiguous chunks of almost equal size

`size` items are split into `cnt` chunks; the first `size % cnt` of them get one item more. `chunkStart size cnt k`
is where chunk `k` begins.

* `chunkStart_succ`, `chunk_nonempty`, `chunk_balanced`: the sizes.
* `chunkStart_all`, `exists_chunk`, `chunk_unique`: every item is in exactly one chunk.
* `Tiles`: a list of intervals, each of which begins where the one before it ends; `tiles_chunks`.
-/

namespace Chunking

def chunkStart (size cnt k : Nat) : Nat := k * (size / cnt) + min k (size % cnt)

variable {size cnt i j k : Nat}

theorem chunkStart_zero : chunkStart size cnt 0 = 0 := by simp [chunkStart]

theorem chunkStart_succ :
    chunkStart size cnt (k + 1) = chunkStart size cnt k + size / cnt + if size % cnt - k = 0 then 0 else 1 := by
  simp only [chunkStart, Nat.succ_mul]
  split <;> omega

theorem chunkStart_all (h : 0 < cnt) : chunkStart size cnt cnt = size := by
  have hmod := Nat.mod_lt size h
  have hdiv := Nat.div_add_mod size cnt
  rw [chunkStart, Nat.min_eq_right (Nat.le_of_lt hmod)]
  exact hdiv

theorem chunkStart_mono : Monotone (chunkStart size cnt) := by
  refine monotone_nat_of_le_succ fun k => ?_
  rw [chunkStart_succ]
  exact Nat.le_trans (Nat.le_add_right _ _) (Nat.le_add_right _ _)

theorem chunkStart_le (h : 0 < cnt) (hk : k ≤ cnt) : chunkStart size cnt k ≤ size := by
  have hmono : chunkStart size cnt k ≤ chunkStart size cnt cnt := chunkStart_mono hk
  rwa [chunkStart_all h] at hmono

theorem exists_chunk (h : 0 < cnt) (hi : i < size) :
    ∃ j, j < cnt ∧ chunkStart size cnt j ≤ i ∧ i < chunkStart size cnt (j + 1) := by
  have key : ∀ k, i < chunkStart size cnt k →
      ∃ j, j < k ∧ chunkStart size cnt j ≤ i ∧ i < chunkStart size cnt (j + 1) := by
    intro k
    induction k with
    | zero =>
      intro hlt
      rw [chunkStart_zero] at hlt
      exact absurd hlt (Nat.not_lt_zero i)
    | succ k ih =>
      intro hlt
      by_cases hk : i < chunkStart size cnt k
      · obtain ⟨j, hj, hin⟩ := ih hk
        exact ⟨j, Nat.lt_succ_of_lt hj, hin⟩
      · exact ⟨k, Nat.lt_succ_self k, Nat.le_of_not_lt hk, hlt⟩
  exact key cnt (by rwa [chunkStart_all h])

theorem chunk_unique (hj : chunkStart size cnt j ≤ i) (hj' : i < chunkStart size cnt (j + 1))
    (hk : chunkStart size cnt k ≤ i) (hk' : i < chunkStart size cnt (k + 1)) : j = k := by
  have hle : ∀ {a b : Nat}, chunkStart size cnt a ≤ i → i < chunkStart size cnt (b + 1) → a ≤ b := by
    intro a b ha hb
    by_contra hlt
    have hmono : chunkStart size cnt (b + 1) ≤ chunkStart size cnt a := chunkStart_mono (Nat.lt_of_not_le hlt)
    omega
  exact Nat.le_antisymm (hle hj hk') (hle hk hj')

theorem chunk_nonempty (h : 0 < cnt) (hle : cnt ≤ size) : chunkStart size cnt k < chunkStart size cnt (k + 1) := by
  have hdiv : 0 < size / cnt := Nat.div_pos hle h
  rw [chunkStart_succ]
  omega

theorem chunk_balanced : chunkStart size cnt (j + 1) - chunkStart size cnt j ≤
    chunkStart size cnt (k + 1) - chunkStart size cnt k + 1 := by
  rw [chunkStart_succ, chunkStart_succ]
  split <;> split <;> omega

/-- The intervals `[b, e)` of the list are nonempty and fill `[lo, hi)` from left to right. -/
def Tiles : Nat → List (Nat × Nat) → Nat → Prop
  | lo, [], hi => lo = hi
  | lo, (b, e) :: rest, hi => b = lo ∧ b < e ∧ Tiles e rest hi

theorem Tiles.concat {mid hi : Nat} : ∀ {lo : Nat} {l : List (Nat × Nat)}, Tiles lo l mid → mid < hi →
    Tiles lo (l ++ [(mid, hi)]) hi := by
  intro lo l
  induction l generalizing lo with
  | nil =>
    intro h hlt
    obtain rfl : lo = mid := h
    exact ⟨rfl, hlt, rfl⟩
  | cons x rest ih =>
    intro h hlt
    obtain ⟨hb, he, hrest⟩ := h
    exact ⟨hb, he, ih hrest hlt⟩

theorem tiles_chunks (h : 0 < cnt) (hle : cnt ≤ size) (n : Nat) :
    Tiles 0 ((List.range n).map fun k => (chunkStart size cnt k, chunkStart size cnt (k + 1)))
      (chunkStart size cnt n) := by
  induction n with
  | zero => exact chunkStart_zero.symm
  | succ n ih =>
    rw [List.range_succ, List.map_append]
    exact ih.concat (chunk_nonempty h hle)

end Chunking
