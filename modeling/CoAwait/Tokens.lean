import Mathlib.Data.List.Basic
import Mathlib.Logic.Function.Basic
import Mathlib.Tactic.Common

/-!
# Tokens that are in one place at a time

`held p` lists the tokens found at place `p`. `Sole held alive` says that every living token is found exactly
once, over all places together, and that nothing else is found anywhere: no two parties hold one right, and
none is lost.

* `Sole.unique`, `Sole.count_eq_one`: what holding a token excludes.
* `Sole.congr`, `Sole.transfer`, `Sole.add`, `Sole.drop`: what a step may do to the tokens.
* `spread`: tokens held by the activations on the stacks of some threads, and elsewhere; `Sole.restack` …
  `Sole.pop` for a step that replaces the top of one stack, `Sole.frames` for what is known of an activation
  because of the tokens it holds.
-/

namespace Tokens

variable {P T : Type} [BEq T]

structure Sole (held : P → List T) (alive : T → Prop) : Prop where
  one : ∀ x, alive x → ∃ p, (held p).count x = 1 ∧ ∀ q, q ≠ p → x ∉ held q
  living : ∀ p, ∀ x ∈ held p, alive x

variable {held held' : P → List T} {alive alive' : T → Prop} {p q : P} {x : T}

theorem Sole.unique (h : Sole held alive) (hp : x ∈ held p) (hq : x ∈ held q) : p = q := by
  obtain ⟨r, -, hr⟩ := h.one x (h.living p x hp)
  have hpr : p = r := by_contra fun hne => hr p hne hp
  have hqr : q = r := by_contra fun hne => hr q hne hq
  rw [hpr, hqr]

theorem Sole.count_eq_one (h : Sole held alive) (hp : x ∈ held p) : (held p).count x = 1 := by
  obtain ⟨r, hr, hne⟩ := h.one x (h.living p x hp)
  obtain rfl : p = r := by_contra fun hpr => hne p hpr hp
  exact hr

theorem Sole.notMem (h : Sole held alive) (hp : x ∈ held p) (hne : q ≠ p) : x ∉ held q :=
  fun hq => hne (h.unique hq hp)

variable [LawfulBEq T]

/-- Holding a token at `p` in `l` excludes it from the rest of `p` and from every other place. -/
theorem Sole.notMem_append {l m : List T} (h : Sole held alive) (hp : held p = l ++ m) (hx : x ∈ l) : x ∉ m := by
  intro hx'
  have h1 := h.count_eq_one (p := p) (x := x) (by rw [hp]; exact List.mem_append_left _ hx)
  rw [hp, List.count_append] at h1
  have := List.count_pos_iff.2 hx
  have := List.count_pos_iff.2 hx'
  omega

theorem Sole.congr (h : Sole held alive) (hheld : ∀ p y, (held' p).count y = (held p).count y)
    (halive : ∀ y, alive' y ↔ alive y) : Sole held' alive' := by
  have hmem : ∀ p y, y ∈ held' p ↔ y ∈ held p := by
    intro p y
    rw [← List.count_pos_iff, hheld, List.count_pos_iff]
  refine ⟨fun y hy => ?_, fun p y hy => ?_⟩
  · obtain ⟨p, hp, hne⟩ := h.one y ((halive y).1 hy)
    refine ⟨p, by rw [hheld, hp], fun q hq => ?_⟩
    rw [hmem]
    exact hne q hq
  · rw [halive]
    exact h.living p y ((hmem p y).1 hy)

/-- Tokens move between `p` and `q`. -/
theorem Sole.transfer (h : Sole held alive) (hpq : p ≠ q)
    (hsum : ∀ y, (held' p).count y + (held' q).count y = (held p).count y + (held q).count y)
    (hother : ∀ r, r ≠ p → r ≠ q → held' r = held r) (halive : ∀ y, alive' y ↔ alive y) : Sole held' alive' := by
  have hmem : ∀ r y, y ∈ held' r → ∃ r', y ∈ held r' := by
    intro r y hy
    have hpos := List.count_pos_iff.2 hy
    have hs := hsum y
    by_cases hr : r = p ∨ r = q
    · have : 0 < (held p).count y ∨ 0 < (held q).count y := by
        rcases hr with rfl | rfl <;> omega
      rcases this with h' | h'
      · exact ⟨p, List.count_pos_iff.1 h'⟩
      · exact ⟨q, List.count_pos_iff.1 h'⟩
    · rw [not_or] at hr
      exact ⟨r, by rwa [hother r hr.1 hr.2] at hy⟩
  refine ⟨fun y hy => ?_, fun r y hy => ?_⟩
  · obtain ⟨r, hr, hne⟩ := h.one y ((halive y).1 hy)
    have hs := hsum y
    by_cases hrpq : r = p ∨ r = q
    · have hzero : ∀ r', r' ≠ p → r' ≠ q → y ∉ held' r' := by
        intro r' h1 h2
        rw [hother r' h1 h2]
        refine hne r' ?_
        rcases hrpq with rfl | rfl <;> assumption
      have htotal : (held p).count y + (held q).count y = 1 := by
        rcases hrpq with rfl | rfl
        · rw [hr, List.count_eq_zero_of_not_mem (hne q hpq.symm)]
        · rw [hr, List.count_eq_zero_of_not_mem (hne p hpq)]
      by_cases hp1 : (held' p).count y = 1
      · refine ⟨p, hp1, fun r' hr' => ?_⟩
        by_cases hq' : r' = q
        · subst hq'
          exact List.count_eq_zero.1 (by omega)
        · exact hzero r' hr' hq'
      · refine ⟨q, by omega, fun r' hr' => ?_⟩
        by_cases hp' : r' = p
        · subst hp'
          exact List.count_eq_zero.1 (by omega)
        · exact hzero r' hp' hr'
    · rw [not_or] at hrpq
      have h1 := List.count_eq_zero_of_not_mem (hne p (Ne.symm hrpq.1))
      have h2 := List.count_eq_zero_of_not_mem (hne q (Ne.symm hrpq.2))
      refine ⟨r, by rw [hother r hrpq.1 hrpq.2, hr], fun r' hr' => ?_⟩
      by_cases hp' : r' = p
      · subst hp'
        exact List.count_eq_zero.1 (by omega)
      · by_cases hq' : r' = q
        · subst hq'
          exact List.count_eq_zero.1 (by omega)
        · rw [hother r' hp' hq']
          exact hne r' hr'
  · obtain ⟨r', hr'⟩ := hmem r y hy
    exact (halive y).2 (h.living r' y hr')

/-- A new token appears at `p`. -/
theorem Sole.add (h : Sole held alive) (hnew : ¬ alive x)
    (hp : ∀ y, (held' p).count y = (held p).count y + if x == y then 1 else 0)
    (hother : ∀ q, q ≠ p → held' q = held q) (halive : ∀ y, alive' y ↔ y = x ∨ alive y) : Sole held' alive' := by
  have hnone : ∀ q, x ∉ held q := fun q hq => hnew (h.living q x hq)
  refine ⟨fun y hy => ?_, fun q y hy => ?_⟩
  · by_cases hyx : y = x
    · subst hyx
      refine ⟨p, by simp [hp, List.count_eq_zero_of_not_mem (hnone p)], fun q hq => ?_⟩
      rw [hother q hq]
      exact hnone q
    · have hbeq : (x == y) = false := by simpa using Ne.symm hyx
      obtain ⟨r, hr, hne⟩ := h.one y (((halive y).1 hy).resolve_left hyx)
      have hcount : ∀ q, (held' q).count y = (held q).count y := by
        intro q
        by_cases hq : q = p
        · simp [hq, hp, hbeq]
        · rw [hother q hq]
      refine ⟨r, by rw [hcount, hr], fun q hq => ?_⟩
      rw [← List.count_eq_zero, hcount, List.count_eq_zero]
      exact hne q hq
  · by_cases hyx : y = x
    · exact (halive y).2 (.inl hyx)
    · refine (halive y).2 (.inr ?_)
      by_cases hq : q = p
      · subst hq
        have hpos := List.count_pos_iff.2 hy
        rw [hp, show (x == y) = false by simpa using Ne.symm hyx] at hpos
        exact h.living q y (List.count_pos_iff.1 hpos)
      · rw [hother q hq] at hy
        exact h.living q y hy

/-- The token `x` disappears from `p`. -/
theorem Sole.drop (h : Sole held alive)
    (hp : ∀ y, (held p).count y = (held' p).count y + if x == y then 1 else 0)
    (hother : ∀ q, q ≠ p → held' q = held q) (halive : ∀ y, alive' y ↔ alive y ∧ y ≠ x) : Sole held' alive' := by
  have hx : x ∈ held p := List.count_pos_iff.1 (by simp [hp])
  have hgone : ∀ q, x ∉ held' q := by
    intro q
    by_cases hq : q = p
    · subst hq
      have := h.count_eq_one hx
      rw [hp, beq_self_eq_true, if_pos rfl] at this
      exact List.count_eq_zero.1 (by omega)
    · rw [hother q hq]
      exact h.notMem hx hq
  have hcount : ∀ q y, y ≠ x → (held' q).count y = (held q).count y := by
    intro q y hy
    have hbeq : (x == y) = false := by simpa using Ne.symm hy
    by_cases hq : q = p
    · simp [hq, hp, hbeq]
    · rw [hother q hq]
  refine ⟨fun y hy => ?_, fun q y hy => ?_⟩
  · obtain ⟨halv, hyx⟩ := (halive y).1 hy
    obtain ⟨r, hr, hne⟩ := h.one y halv
    refine ⟨r, by rw [hcount r y hyx, hr], fun q hq => ?_⟩
    rw [← List.count_eq_zero, hcount q y hyx, List.count_eq_zero]
    exact hne q hq
  · have hyx : y ≠ x := fun he => hgone q (he ▸ hy)
    have hpos := List.count_pos_iff.2 hy
    rw [hcount q y hyx] at hpos
    exact (halive y).2 ⟨h.living q y (List.count_pos_iff.1 hpos), hyx⟩

/-! ## Stacks of activations -/

variable {I F Q : Type}

/-- The tokens on the stacks, where an activation `f` holds `g f`, and those at the other places. -/
def spread (g : F → List T) (stack : I → List F) (other : Q → List T) : I ⊕ Q → List T
  | .inl t => (stack t).flatMap g
  | .inr q => other q

variable [DecidableEq I] {g : F → List T} {stack stack' : I → List F} {other other' : Q → List T} {t : I}
  {top top' rest : List F}

omit [BEq T] [LawfulBEq T] in
theorem spread_other_thread (hs' : stack' = Function.update stack t (top' ++ rest)) {u : I} (hu : u ≠ t) :
    spread g stack' other' (.inl u) = spread g stack other (.inl u) := by
  simp [spread, hs', hu]

variable (g other other') in
omit [LawfulBEq T] in
theorem spread_count (hs : stack t = top ++ rest) (hs' : stack' = Function.update stack t (top' ++ rest)) (y : T) :
    (spread g stack' other' (.inl t)).count y + (top.flatMap g).count y =
      (spread g stack other (.inl t)).count y + (top'.flatMap g).count y := by
  simp only [spread, hs', hs, Function.update_self, List.flatMap_append, List.count_append]
  omega

/-- The top of the stack of `t` changes, the tokens stay where they are. -/
theorem Sole.restack (h : Sole (spread g stack other) alive) (hs : stack t = top ++ rest)
    (hs' : stack' = Function.update stack t (top' ++ rest))
    (htop : ∀ y, (top'.flatMap g).count y = (top.flatMap g).count y) (hother : ∀ q, other' q = other q)
    (halive : ∀ y, alive' y ↔ alive y) : Sole (spread g stack' other') alive' := by
  refine h.congr (fun p y => ?_) halive
  rcases p with u | q
  · by_cases hu : u = t
    · subst hu
      have := spread_count g other other' hs hs' y
      have := htop y
      omega
    · rw [spread_other_thread hs' hu]
  · rw [spread, spread, hother]

/-- Tokens move between the top of the stack of `t` and `q`. -/
theorem Sole.exchange {q : Q} (h : Sole (spread g stack other) alive) (hs : stack t = top ++ rest)
    (hs' : stack' = Function.update stack t (top' ++ rest))
    (hsum : ∀ y, (top'.flatMap g).count y + (other' q).count y = (top.flatMap g).count y + (other q).count y)
    (hother : ∀ r, r ≠ q → other' r = other r) (halive : ∀ y, alive' y ↔ alive y) :
    Sole (spread g stack' other') alive' := by
  refine h.transfer (p := .inl t) (q := .inr q) (by simp) (fun y => ?_) (fun r hrt hrq => ?_) halive
  · have := spread_count g other other' hs hs' y
    have := hsum y
    simp only [spread] at *
    omega
  · rcases r with u | r
    · exact spread_other_thread hs' (by simpa using hrt)
    · exact hother r (by simpa using hrq)

/-- A new token appears on the stack of `t`. -/
theorem Sole.push (h : Sole (spread g stack other) alive) (hs : stack t = top ++ rest)
    (hs' : stack' = Function.update stack t (top' ++ rest)) (hnew : ¬ alive x)
    (htop : ∀ y, (top'.flatMap g).count y = (top.flatMap g).count y + if x == y then 1 else 0)
    (hother : ∀ q, other' q = other q) (halive : ∀ y, alive' y ↔ y = x ∨ alive y) :
    Sole (spread g stack' other') alive' := by
  refine h.add (p := .inl t) hnew (fun y => ?_) (fun r hr => ?_) halive
  · have := spread_count g other other' hs hs' y
    have := htop y
    omega
  · rcases r with u | q
    · exact spread_other_thread hs' (by simpa using hr)
    · exact hother q

/-- A new token appears at `q`. -/
theorem Sole.arrive {q : Q} (h : Sole (spread g stack other) alive) (hs : stack t = top ++ rest)
    (hs' : stack' = Function.update stack t (top' ++ rest)) (hnew : ¬ alive x)
    (htop : ∀ y, (top'.flatMap g).count y = (top.flatMap g).count y)
    (hq : ∀ y, (other' q).count y = (other q).count y + if x == y then 1 else 0)
    (hother : ∀ r, r ≠ q → other' r = other r) (halive : ∀ y, alive' y ↔ y = x ∨ alive y) :
    Sole (spread g stack' other') alive' := by
  have hmid : Sole (spread g stack' other) alive := h.restack hs hs' htop (fun _ => rfl) (fun _ => Iff.rfl)
  refine hmid.add (p := .inr q) hnew hq (fun r hr => ?_) halive
  rcases r with u | r
  · rfl
  · exact hother r (by simpa using hr)

/-- A token disappears from the stack of `t`. -/
theorem Sole.pop (h : Sole (spread g stack other) alive) (hs : stack t = top ++ rest)
    (hs' : stack' = Function.update stack t (top' ++ rest))
    (htop : ∀ y, (top.flatMap g).count y = (top'.flatMap g).count y + if x == y then 1 else 0)
    (hother : ∀ q, other' q = other q) (halive : ∀ y, alive' y ↔ alive y ∧ y ≠ x) :
    Sole (spread g stack' other') alive' := by
  refine h.drop (p := .inl t) (x := x) (fun y => ?_) (fun r hr => ?_) halive
  · have := spread_count g other other' hs hs' y
    have := htop y
    omega
  · rcases r with u | q
    · exact spread_other_thread hs' (by simpa using hr)
    · exact hother q

omit [DecidableEq I] in
/-- Activations below the top or on another stack hold none of the tokens of the top. -/
theorem Sole.elsewhere (h : Sole (spread g stack other) alive) (hs : stack t = top ++ rest) {u : I} {f : F}
    (hf : (u ≠ t ∧ f ∈ stack u) ∨ f ∈ rest) (hx : x ∈ g f) : x ∉ top.flatMap g := by
  intro htop
  rcases hf with ⟨hu, hf⟩ | hf
  · have h1 : x ∈ spread g stack other (.inl t) := by simp [spread, hs, List.mem_flatMap.1 htop]
    have h2 : x ∈ spread g stack other (.inl u) := List.mem_flatMap.2 ⟨f, hf, hx⟩
    exact hu (Sum.inl.inj (h.unique h2 h1))
  · refine h.notMem_append (p := .inl t) (l := top.flatMap g) (m := rest.flatMap g) ?_ htop
      (List.mem_flatMap.2 ⟨f, hf, hx⟩)
    simp [spread, hs]

omit [DecidableEq I] in
/-- A token on the stacks is held by one activation. -/
theorem Sole.holder (h : Sole (spread g stack other) alive) {u : I} {f f' : F} (hf : f ∈ stack t) (hf' : f' ∈ stack u)
    (hx : x ∈ g f) (hx' : x ∈ g f') : f = f' := by
  have ht : x ∈ spread g stack other (.inl t) := List.mem_flatMap.2 ⟨f, hf, hx⟩
  have hu : x ∈ spread g stack other (.inl u) := List.mem_flatMap.2 ⟨f', hf', hx'⟩
  obtain rfl := Sum.inl.inj (h.unique ht hu)
  by_contra hne
  obtain ⟨l₁, l₂, hl⟩ := List.append_of_mem hf
  have hcount := h.count_eq_one ht
  simp only [spread, hl, List.flatMap_append, List.flatMap_cons, List.count_append] at hcount
  have hone := List.count_pos_iff.2 hx
  rw [hl, List.mem_append, List.mem_cons] at hf'
  rcases hf' with hf' | rfl | hf'
  · have := List.count_pos_iff.2 (List.mem_flatMap.2 ⟨f', hf', hx'⟩)
    omega
  · exact hne rfl
  · have := List.count_pos_iff.2 (List.mem_flatMap.2 ⟨f', hf', hx'⟩)
    omega

omit [LawfulBEq T] [DecidableEq I] in
/-- The tokens at another place are none of those of the top. -/
theorem Sole.elsewhere_other (h : Sole (spread g stack other) alive) (hs : stack t = top ++ rest) {q : Q}
    (hx : x ∈ other q) : x ∉ top.flatMap g := by
  intro htop
  have h1 : x ∈ spread g stack other (.inl t) := by simp [spread, hs, List.mem_flatMap.1 htop]
  have h2 : x ∈ spread g stack other (.inr q) := hx
  cases h.unique h1 h2

/-- **The frame rule of the stacks**: what is known of an activation depends on the tokens it holds; a step that
touches only what belongs to the tokens of the top keeps it everywhere else. -/
theorem Sole.frames {ok ok' : F → Prop} {same : T → Prop} (h : Sole (spread g stack other) alive)
    (hs : stack t = top ++ rest) (hs' : stack' = Function.update stack t (top' ++ rest))
    (hok : ∀ u, ∀ f ∈ stack u, ok f) (hsame : ∀ x, x ∉ top.flatMap g → same x)
    (hkeep : ∀ f, ok f → (∀ x ∈ g f, same x) → ok' f) (hnew : ∀ f ∈ top', ok' f) :
    ∀ u, ∀ f ∈ stack' u, ok' f := by
  intro u f hf
  rw [hs'] at hf
  by_cases hu : u = t
  · subst hu
    rw [Function.update_self, List.mem_append] at hf
    rcases hf with hf | hf
    · exact hnew f hf
    · exact hkeep f (hok u f (by rw [hs]; exact List.mem_append_right _ hf))
        (fun x hx => hsame x (h.elsewhere hs (u := u) (.inr hf) hx))
  · rw [Function.update_of_ne hu] at hf
    exact hkeep f (hok u f hf) (fun x hx => hsame x (h.elsewhere hs (.inl ⟨hu, hf⟩) hx))

end Tokens
