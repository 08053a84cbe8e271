import Mathlib.Data.Fintype.EquivFin
import Mathlib.Logic.Relation
import Mathlib.Order.WellFounded

/-!
# Who waits for whom

A party that is not held up from outside waits for another one. Among finitely many parties, following the waits
from any of them ends at one that is held up from outside, or in a cycle (`end_or_cycle`).
-/

namespace WaitsFor

open Relation

variable {α : Type} {r : α → α → Prop} {S P : α → Prop}

/-- Without a cycle, the waits that start at `x` are well-founded. -/
theorem wellFounded_of_acyclic [Finite { x // S x }] (hacyclic : ∀ x, S x → ¬ TransGen r x x) :
    WellFounded fun y x : { x // S x } => TransGen r x.1 y.1 := by
  have htrans : IsTrans { x // S x } fun y x => TransGen r x.1 y.1 := ⟨fun _ _ _ hyx hzy => hzy.trans hyx⟩
  have hirrefl : Std.Irrefl fun y x : { x // S x } => TransGen r x.1 y.1 := ⟨fun x => hacyclic x.1 x.2⟩
  exact Finite.wellFounded_of_trans_of_irrefl _

/-- Following the waits ends at a party that is held up from outside, or in a cycle. -/
theorem end_or_cycle [Finite { x // S x }] (hstep : ∀ x, S x → P x ∨ ∃ y, S y ∧ r x y) {x : α} (hx : S x) :
    ∃ y, S y ∧ ReflTransGen r x y ∧ (P y ∨ TransGen r y y) := by
  by_contra hno
  have hreach : ∀ y, S y → ReflTransGen r x y → ¬ P y ∧ ¬ TransGen r y y := by
    intro y hy hxy
    exact ⟨fun hp => hno ⟨y, hy, hxy, .inl hp⟩, fun hc => hno ⟨y, hy, hxy, .inr hc⟩⟩
  have hfinite : Finite { y // S y ∧ ReflTransGen r x y } :=
    Finite.of_injective (fun y => (⟨y.1, y.2.1⟩ : { y // S y })) fun y z h => Subtype.ext (by simpa using h)
  have hwf := wellFounded_of_acyclic (S := fun y => S y ∧ ReflTransGen r x y) (r := r)
    fun y hy => (hreach y hy.1 hy.2).2
  -- the last one on the way has nobody to wait for
  obtain ⟨y, -, hmin⟩ := hwf.has_min Set.univ ⟨⟨x, hx, .refl⟩, trivial⟩
  rcases hstep y.1 y.2.1 with hp | ⟨z, hz, hyz⟩
  · exact (hreach y.1 y.2.1 y.2.2).1 hp
  · exact hmin ⟨z, hz, y.2.2.tail hyz⟩ trivial (.single hyz)

end WaitsFor
