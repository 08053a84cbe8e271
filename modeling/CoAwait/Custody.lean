import Mathlib.Algebra.Order.Group.Multiset
import Mathlib.Data.Multiset.Filter
import Mathlib.Data.Multiset.MapFold
import Mathlib.Data.Multiset.UnionInter
import Mathlib.Tactic.Abel

/-!
# Things in custody

A keeper accepts things, and at some later time it disposes of a thing or hands it out. `Accounted` says that every
thing accepted has been disposed of, has been handed out or is held, and that nothing else is in any of these
places.

* `Accounted.dispose`, `hand`, `close`: the book after a step.
* `Accounted.disposed_ne_handed`, `disposed_ne_held`: if the things accepted have different names, no name is in
  two places.
* `Accounted.disposed_once`: what has been neither handed out nor kept has been disposed of once.
-/

namespace Custody

variable {α β : Type}

def Accounted (accepted disposed handed held : Multiset α) : Prop := accepted = disposed + handed + held

variable {a d o k a' d' o' k' : Multiset α} {name : α → β} {x y : α}

theorem accounted_start : Accounted (0 : Multiset α) 0 0 0 := by simp [Accounted]

/-- What a step accepts is held afterwards, unless the step disposes of it. -/
theorem Accounted.dispose (h : Accounted a d o k) (hstep : d' + k' = a' + k) : Accounted (a + a') (d + d') o k' := by
  have hall : a + a' = d + o + (d' + k') := by rw [hstep, h]; abel
  rw [Accounted, hall]
  abel

/-- What a step hands out was held. -/
theorem Accounted.hand (h : Accounted a d o k) (hstep : o' + k' = k) : Accounted a d (o + o') k' := by
  rw [Accounted, h, ← hstep]
  abel

/-- The keeper disposes of all that it holds. -/
theorem Accounted.close (h : Accounted a d o k) : Accounted a (d + k) o 0 := by
  rw [Accounted, h]
  abel

theorem Accounted.disposed_ne_handed (h : Accounted a d o k) (hnd : (a.map name).Nodup) (hx : x ∈ d) (hy : y ∈ o) :
    name x ≠ name y := by
  rw [h, Multiset.map_add, Multiset.map_add, Multiset.nodup_add, Multiset.nodup_add] at hnd
  exact fun he => Multiset.disjoint_left.1 hnd.1.2.2 (Multiset.mem_map_of_mem name hx)
    (he ▸ Multiset.mem_map_of_mem name hy)

theorem Accounted.disposed_ne_held (h : Accounted a d o k) (hnd : (a.map name).Nodup) (hx : x ∈ d) (hy : y ∈ k) :
    name x ≠ name y := by
  rw [h, Multiset.map_add, Multiset.map_add, Multiset.nodup_add] at hnd
  exact fun he => Multiset.disjoint_left.1 hnd.2.2
    (Multiset.mem_add.2 (.inl (Multiset.mem_map_of_mem name hx))) (he ▸ Multiset.mem_map_of_mem name hy)

theorem Accounted.held_nodup (h : Accounted a d o k) (hnd : (a.map name).Nodup) : (k.map name).Nodup := by
  rw [h, Multiset.map_add, Multiset.nodup_add] at hnd
  exact hnd.2.1

/-- A thing of a unique name is the only one of that name. -/
theorem filter_name_eq [DecidableEq β] (hnd : (d.map name).Nodup) (hx : x ∈ d) :
    d.filter (fun y => name y = name x) = {x} := by
  obtain ⟨rest, rfl⟩ := Multiset.exists_cons_of_mem hx
  rw [Multiset.map_cons, Multiset.nodup_cons] at hnd
  rw [Multiset.filter_cons_of_pos (p := fun y => name y = name x) _ rfl, Multiset.filter_eq_nil.2, Multiset.cons_zero]
  exact fun y hy he => hnd.1 (he ▸ Multiset.mem_map_of_mem name hy)

theorem Accounted.disposed_once [DecidableEq β] (h : Accounted a d o k) (hnd : (a.map name).Nodup) (hx : x ∈ a)
    (ho : x ∉ o) (hk : x ∉ k) : d.filter (fun y => name y = name x) = {x} := by
  have hd : x ∈ d := by
    rw [h, Multiset.mem_add, Multiset.mem_add] at hx
    exact (hx.resolve_right hk).resolve_right ho
  refine filter_name_eq ?_ hd
  rw [h, Multiset.map_add, Multiset.map_add, Multiset.nodup_add, Multiset.nodup_add] at hnd
  exact hnd.1.1

end Custody
