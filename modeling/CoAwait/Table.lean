import Mathlib.Data.List.Induction
import Mathlib.Algebra.GroupWithZero.Nat
import Mathlib.Data.List.Nodup
import Mathlib.Data.List.Perm.Basic
import Mathlib.Logic.Function.Basic

/-!
# Append-only tables

A list to which rows are appended and in which a row is replaced in place: the calls of a run, numbered in
the order in which they start. `look f rows i` reads the optional field `f` of row `i`, and `Blank f rows i` says
that row `i` is there and has no `f` yet.
-/

namespace Table

variable {ρ β : Type}

def look (f : ρ → Option β) (rows : List ρ) (i : Nat) : Option β := (rows[i]?).bind f

variable {f : ρ → Option β} {rows : List ρ} {r r' : ρ} {i : Nat} {b : β}

theorem look_of_get (h : rows[i]? = some r) : look f rows i = f r := by simp [look, h]

theorem look_out (h : rows.length ≤ i) : look f rows i = none := by
  simp [look, List.getElem?_eq_none h]

theorem lt_of_look (h : look f rows i = some b) : i < rows.length := by
  by_contra hge
  rw [look_out (by omega)] at h
  cases h

theorem exists_of_look (h : look f rows i = some b) : ∃ r, rows[i]? = some r ∧ f r = some b := by
  simpa [look, Option.bind_eq_some_iff] using h

theorem get_concat_iff : (rows ++ [r])[i]? = some r' ↔ rows[i]? = some r' ∨ i = rows.length ∧ r' = r := by
  rcases Nat.lt_trichotomy i rows.length with h | h | h
  · simp [List.getElem?_append_left h, Nat.ne_of_lt h]
  · simp [h, eq_comm]
  · rw [List.getElem?_eq_none (by simp; omega), List.getElem?_eq_none (by omega)]
    simp; omega

theorem look_append : look f (rows ++ [r]) = Function.update (look f rows) rows.length (f r) := by
  funext j
  rcases Nat.lt_trichotomy j rows.length with h | h | h
  · simp [look, List.getElem?_append_left h, Nat.ne_of_lt h]
  · simp [look, h]
  · rw [look_out (by simp; omega), Function.update_of_ne (by omega), look_out (by omega)]

theorem look_append_none (h : f r = none) : look f (rows ++ [r]) = look f rows := by
  rw [look_append, h, ← look_out (f := f) (Nat.le_refl rows.length), Function.update_eq_self]

/-- An entry of the longer table is that of the new row, or an old one. -/
theorem of_look_append (h : look f (rows ++ [r]) i = some b) :
    i = rows.length ∧ f r = some b ∨ look f rows i = some b := by
  rw [look_append] at h
  by_cases hi : i = rows.length
  · rw [hi, Function.update_self] at h
    exact .inl ⟨hi, h⟩
  · rw [Function.update_of_ne hi] at h
    exact .inr h

theorem look_set (h : rows[i]? = some r) : look f (rows.set i r') = Function.update (look f rows) i (f r') := by
  funext j
  have hi : i < rows.length := (List.getElem?_eq_some_iff.1 h).1
  by_cases hj : j = i
  · subst hj; simp [look, hi]
  · rw [Function.update_of_ne hj]
    simp [look, List.getElem?_set_ne (Ne.symm hj)]

theorem of_look_set (h : rows[i]? = some r) {j : Nat} (hj : look f (rows.set i r') j = some b) :
    j = i ∧ f r' = some b ∨ look f rows j = some b := by
  rw [look_set h] at hj
  by_cases hi : j = i
  · rw [hi, Function.update_self] at hj
    exact .inl ⟨hi, hj⟩
  · rw [Function.update_of_ne hi] at hj
    exact .inr hj

/-- Replacing a row by one with the same field. -/
theorem look_set_same (h : rows[i]? = some r) (hf : f r' = f r) : look f (rows.set i r') = look f rows := by
  rw [look_set h, hf, ← look_of_get (f := f) h, Function.update_eq_self]

theorem map_set_same {γ : Type} {g : ρ → γ} (h : rows[i]? = some r) (hg : g r' = g r) :
    (rows.set i r').map g = rows.map g := by
  obtain ⟨hi, rfl⟩ := List.getElem?_eq_some_iff.1 h
  have hi' : i < (rows.map g).length := by simpa using hi
  rw [List.map_set, hg, ← List.getElem_map g (h := hi'), List.set_getElem_self]

theorem set_same (h : rows[i]? = some r) : rows.set i r = rows := by
  obtain ⟨hi, rfl⟩ := List.getElem?_eq_some_iff.1 h
  exact List.set_getElem_self hi

/-- What is in the rows after one of them has been replaced. -/
theorem get_set_iff (h : rows[i]? = some r) {j : Nat} {q : ρ} :
    (rows.set i r')[j]? = some q ↔ j = i ∧ q = r' ∨ j ≠ i ∧ rows[j]? = some q := by
  have hi : i < rows.length := (List.getElem?_eq_some_iff.1 h).1
  by_cases hj : j = i
  · subst hj
    simp [hi, eq_comm]
  · simp [List.getElem?_set_ne (Ne.symm hj), hj]

/-- A row may be marked. When row `i` is replaced, it still has what is asked of the marked row, or is unmarked. -/
theorem marked_set {P Q : ρ → Prop} {marked marked' : Option Nat}
    (h : ∀ j, marked = some j → ∃ q, rows[j]? = some q ∧ P q) (hi : rows[i]? = some r) (hkeep : ∀ q, P q → Q q)
    (hrow : marked' = marked ∧ Q r' ∨ marked' = if marked = some i then none else marked) :
    ∀ j, marked' = some j → ∃ q, (rows.set i r')[j]? = some q ∧ Q q := by
  intro j hj
  have hold : marked = some j := by
    rcases hrow with ⟨heq, -⟩ | heq
    · rwa [heq] at hj
    · rw [heq] at hj
      split at hj
      · cases hj
      · exact hj
  obtain ⟨q, hq, hP⟩ := h j hold
  by_cases hji : j = i
  · subst hji
    refine ⟨r', (get_set_iff hi).2 (.inl ⟨rfl, rfl⟩), ?_⟩
    rcases hrow with ⟨-, hQ⟩ | heq
    · exact hQ
    · rw [heq, if_pos hold] at hj
      cases hj
  · exact ⟨q, (get_set_iff hi).2 (.inr ⟨hji, hq⟩), hkeep q hP⟩

/-- Increasing numbers without gaps are those below their count. -/
theorem eq_range_of_ordered {l : List Nat} (hord : l.Pairwise (· < ·)) (hdown : ∀ i ∈ l, ∀ j < i, j ∈ l) :
    l = List.range l.length := by
  induction l using List.reverseRecOn with
  | nil => rfl
  | append_singleton l a ih =>
    obtain ⟨hl, -, hlast⟩ := List.pairwise_append.1 hord
    have hbelow : ∀ i ∈ l, i < a := fun i hi => hlast i hi a (List.mem_singleton_self a)
    have hl : l = List.range l.length := by
      refine ih hl fun i hi j hj => ?_
      rcases List.mem_append.1 (hdown i (List.mem_append_left _ hi) j hj) with hmem | hmem
      · exact hmem
      · obtain rfl := List.mem_singleton.1 hmem
        exact absurd (hbelow i hi) (by omega)
    have hmem : ∀ j, j ∈ l ↔ j < l.length := by
      intro j
      rw [hl, List.mem_range, List.length_range]
    have ha : a = l.length := by
      rcases Nat.lt_trichotomy a l.length with hlt | heq | hgt
      · exact absurd (hbelow a ((hmem a).2 hlt)) (Nat.lt_irrefl a)
      · exact heq
      · rcases List.mem_append.1 (hdown a (by simp) l.length hgt) with hin | hin
        · exact absurd ((hmem _).1 hin) (Nat.lt_irrefl _)
        · exact (List.mem_singleton.1 hin).symm
    rw [List.length_append, List.length_singleton, List.range_succ, ← hl, ha]

/-- What replacing a row does to a sum over the rows. -/
theorem sum_map_set {g : ρ → Nat} (h : rows[i]? = some r) :
    ((rows.set i r').map g).sum + g r = (rows.map g).sum + g r' := by
  induction rows generalizing i with
  | nil => simp at h
  | cons x xs ih =>
    cases i with
    | zero =>
      obtain rfl : x = r := by simpa using h
      simp only [List.set_cons_zero, List.map_cons, List.sum_cons]
      omega
    | succ i =>
      have hrest := ih (show xs[i]? = some r by simpa using h)
      simp only [List.set_cons_succ, List.map_cons, List.sum_cons]
      omega

/-- What a row adds to a list made of all rows. -/
theorem flatMap_set_perm (g : ρ → List β) (r' : ρ) (h : rows[i]? = some r) :
    ((rows.set i r').flatMap g).Perm (g r' ++ (rows.eraseIdx i).flatMap g) := by
  obtain ⟨hi, rfl⟩ := List.getElem?_eq_some_iff.1 h
  exact (List.set_perm_cons_eraseIdx hi r').flatMap_right g

theorem flatMap_perm (g : ρ → List β) (h : rows[i]? = some r) :
    (rows.flatMap g).Perm (g r ++ (rows.eraseIdx i).flatMap g) := by
  simpa [set_same h] using flatMap_set_perm g r h

/-- Rows that are found by their numbers. -/
theorem perm_of_numbered {xs : List (Nat × β)} {ys : List β} (hnodup : (xs.map Prod.fst).Nodup)
    (hmem : ∀ i y, (i, y) ∈ xs ↔ ys[i]? = some y) : (xs.map Prod.snd).Perm ys := by
  have hswap : (xs.map Prod.swap).Perm ys.zipIdx := by
    refine (List.perm_ext_iff_of_nodup ?_ ?_).2 fun x => ?_
    · refine List.Nodup.of_map Prod.snd ?_
      rw [List.map_map]
      exact hnodup
    · refine List.Nodup.of_map Prod.snd ?_
      rw [List.zipIdx_map_snd]
      exact List.nodup_range'
    · rw [List.mem_zipIdx_iff_getElem?, ← hmem]
      constructor
      · intro hx
        obtain ⟨y, hy, rfl⟩ := List.mem_map.1 hx
        exact hy
      · intro hx
        exact List.mem_map.2 ⟨(x.2, x.1), hx, rfl⟩
  have hmap := hswap.map Prod.fst
  rw [List.zipIdx_map_fst, List.map_map] at hmap
  exact hmap

/-- The rows, found by their numbers. -/
theorem filterMap_range_look : (List.range rows.length).filterMap (look f rows) = rows.filterMap f := by
  induction rows using List.reverseRecOn with
  | nil => rfl
  | append_singleton rows r ih =>
    have hsame : ∀ i ∈ List.range rows.length, look f (rows ++ [r]) i = look f rows i := by
      intro i hi
      rw [look_append, Function.update_of_ne (Nat.ne_of_lt (List.mem_range.1 hi))]
    rw [List.length_append, List.length_singleton, List.range_succ, List.filterMap_append,
      List.filterMap_congr hsame, ih, List.filterMap_append, List.filterMap_cons, List.filterMap_cons, look_append,
      Function.update_self]
    rfl

def Blank (f : ρ → Option β) (rows : List ρ) (i : Nat) : Prop := i < rows.length ∧ look f rows i = none

theorem blank_iff : Blank f rows i ↔ ∃ r, rows[i]? = some r ∧ f r = none := by
  constructor
  · rintro ⟨hlt, hn⟩
    have hr : rows[i]? = some rows[i] := List.getElem?_eq_getElem hlt
    exact ⟨rows[i], hr, by rwa [look_of_get hr] at hn⟩
  · rintro ⟨r, hr, hn⟩
    exact ⟨(List.getElem?_eq_some_iff.1 hr).1, by rw [look_of_get hr, hn]⟩

theorem blank_append {j : Nat} : Blank f (rows ++ [r]) j ↔ j = rows.length ∧ f r = none ∨ Blank f rows j := by
  rw [blank_iff, blank_iff]
  constructor
  · rintro ⟨r', hr', hn⟩
    rcases get_concat_iff.1 hr' with hr' | ⟨rfl, rfl⟩
    · exact .inr ⟨r', hr', hn⟩
    · exact .inl ⟨rfl, hn⟩
  · rintro (⟨rfl, hn⟩ | ⟨r', hr', hn⟩)
    · exact ⟨r, get_concat_iff.2 (.inr ⟨rfl, rfl⟩), hn⟩
    · exact ⟨r', get_concat_iff.2 (.inl hr'), hn⟩

theorem blank_set (h : rows[i]? = some r) (hf : f r' ≠ none) {j : Nat} :
    Blank f (rows.set i r') j ↔ Blank f rows j ∧ j ≠ i := by
  simp only [Blank, List.length_set, look_set h]
  by_cases hj : j = i
  · simp [hj, hf]
  · simp [hj]

theorem blank_set_same (h : rows[i]? = some r) (hf : f r' = f r) {j : Nat} :
    Blank f (rows.set i r') j ↔ Blank f rows j := by
  simp only [Blank, List.length_set, look_set_same h hf]

end Table
