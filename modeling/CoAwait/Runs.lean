import Mathlib.Data.List.Induction

/-!
# Runs of a partial step function

A concurrent system is a state type, an action type and `step : S → A → Option S`, where `none` says
that the action is not enabled. `ok` restricts the runs to those whose every step is taken in a state
that meets a condition: the contract of the callers, or the absence of a schedule.

* `Run` / `Reachable`: finite runs and the states they end in.
* `Reachable.invariant`: the induction over a run, done once.
* `occurrences`: how many steps of a run are of a given kind; `occurrences_le_measure` bounds them.
* `history`: what an observer has recorded of a run; `Run.history_invariant`.
* `exec`: the runner used on concrete schedules, with `exec_run`.
-/

namespace Runs

variable {S A : Type}

/-- `Run step ok s as t`: the actions `as` lead from `s` to `t`, each of them taken where `ok` allows it. -/
inductive Run (step : S → A → Option S) (ok : S → A → Prop) : S → List A → S → Prop
  | nil (s : S) : Run step ok s [] s
  | snoc {s t u : S} {as : List A} {a : A} :
      Run step ok s as t → ok t a → step t a = some u → Run step ok s (as ++ [a]) u

/-- Some run leads from `s` to `t`. -/
def Reachable (step : S → A → Option S) (ok : S → A → Prop) (s t : S) : Prop :=
  ∃ as, Run step ok s as t

/-- No restriction on the runs. -/
def anyStep : S → A → Prop := fun _ _ => True

instance (s : S) (a : A) : Decidable (anyStep s a) := .isTrue trivial

variable {step : S → A → Option S} {ok ok' : S → A → Prop} {s t u : S} {as bs : List A} {a : A}

theorem Run.append (h1 : Run step ok s as t) (h2 : Run step ok t bs u) : Run step ok s (as ++ bs) u := by
  induction h2 with
  | nil => simpa using h1
  | snoc _ hok hst ih =>
    rw [← List.append_assoc]
    exact ih.snoc hok hst

theorem Run.cons (hok : ok s a) (hst : step s a = some t) (h : Run step ok t as u) :
    Run step ok s (a :: as) u :=
  Run.append (Run.snoc (Run.nil s) hok hst) h

theorem Run.mono (hle : ∀ t a, ok t a → ok' t a) (h : Run step ok s as t) : Run step ok' s as t := by
  induction h with
  | nil => exact .nil _
  | snoc _ hok hst ih => exact ih.snoc (hle _ _ hok) hst

theorem Run.split : ∀ {bs : List A} {u : S}, Run step ok s (as ++ bs) u →
    ∃ t, Run step ok s as t ∧ Run step ok t bs u := by
  intro bs
  induction bs using List.reverseRecOn with
  | nil => intro u h; exact ⟨u, by simpa using h, .nil u⟩
  | append_singleton bs b ih =>
    intro u h
    rw [← List.append_assoc] at h
    generalize hcs : as ++ bs ++ [b] = cs at h
    cases h with
    | nil => simp at hcs
    | snoc hpre hok hst =>
      obtain ⟨rfl, hb⟩ := List.append_inj' hcs rfl
      obtain rfl : b = _ := by simpa using hb
      obtain ⟨t, h1, h2⟩ := ih hpre
      exact ⟨t, h1, h2.snoc hok hst⟩

/-- `step` is a function: the actions determine the run. -/
theorem Run.det (h1 : Run step ok s as t) (h2 : Run step ok' s as u) : t = u := by
  induction h1 generalizing u with
  | nil =>
    generalize hcs : ([] : List A) = cs at h2
    cases h2 with
    | nil => rfl
    | snoc => simp at hcs
  | snoc _ _ hst ih =>
    rename_i as a _ _
    generalize hcs : as ++ [a] = cs at h2
    cases h2 with
    | nil => simp at hcs
    | snoc hpre _ hst' =>
      obtain ⟨rfl, ha⟩ := List.append_inj' hcs rfl
      obtain rfl : a = _ := by simpa using ha
      rw [ih hpre, hst'] at hst
      exact (Option.some.inj hst).symm

theorem Reachable.refl (s : S) : Reachable step ok s s := ⟨[], .nil s⟩

theorem Reachable.tail (h : Reachable step ok s t) (hok : ok t a) (hst : step t a = some u) :
    Reachable step ok s u := by
  obtain ⟨as, h⟩ := h
  exact ⟨_, h.snoc hok hst⟩

theorem Reachable.trans (h1 : Reachable step ok s t) (h2 : Reachable step ok t u) :
    Reachable step ok s u := by
  obtain ⟨as, h1⟩ := h1
  obtain ⟨bs, h2⟩ := h2
  exact ⟨_, h1.append h2⟩

theorem Reachable.mono (hle : ∀ t a, ok t a → ok' t a) (h : Reachable step ok s t) :
    Reachable step ok' s t := by
  obtain ⟨as, h⟩ := h
  exact ⟨as, h.mono hle⟩

/-- **Induction over a run**: what holds at the start and is kept by every allowed step holds at the end. -/
theorem Reachable.invariant {I : S → Prop} (h0 : I s)
    (hstep : ∀ t a u, I t → ok t a → step t a = some u → I u) (h : Reachable step ok s t) : I t := by
  obtain ⟨as, h⟩ := h
  induction h with
  | nil => exact h0
  | snoc _ hok hst ih => exact hstep _ _ _ ih hok hst

/-- A part of the state that moves as `step'` says: what the part reaches, the whole reaches. -/
theorem Reachable.embed {S' A' : Type} {step' : S' → A' → Option S'} {x y : S'} (put : S' → S) (act : A' → A)
    (hstep : ∀ x b y, step' x b = some y → step (put x) (act b) = some (put y)) (h : Reachable step' anyStep x y) :
    Reachable step anyStep (put x) (put y) := by
  refine h.invariant (I := fun z => Reachable step anyStep (put x) (put z)) (.refl _) ?_
  intro u b v hreach _ hst
  exact hreach.tail trivial (hstep u b v hst)

/-- The last step of a run. -/
theorem Run.last (h : Run step ok s (as ++ [a]) u) : ∃ t, Run step ok s as t ∧ ok t a ∧ step t a = some u := by
  generalize hcs : as ++ [a] = cs at h
  cases h with
  | nil => simp at hcs
  | snoc hpre hok hst =>
    obtain ⟨rfl, hb⟩ := List.append_inj' hcs rfl
    obtain rfl : a = _ := by simpa using hb
    exact ⟨_, hpre, hok, hst⟩

/-- The first step of a run. -/
theorem Run.first (h : Run step ok s (a :: as) u) : ∃ t, ok s a ∧ step s a = some t ∧ Run step ok t as u := by
  obtain ⟨t, hone, hrest⟩ := (show Run step ok s ([a] ++ as) u from h).split
  obtain ⟨v, hnil, hok, hst⟩ := (show Run step ok s ([] ++ [a]) t from hone).last
  obtain rfl : s = v := (Run.nil s : Run step ok s [] s).det hnil
  exact ⟨t, hok, hst, hrest⟩

/-! ## Steps of a kind -/

/-- How many of the steps `as` from `s` on are of the kind `p`. -/
def occurrences (step : S → A → Option S) (p : S → A → Bool) : S → List A → Nat
  | _, [] => 0
  | s, a :: as =>
    match step s a with
    | none => 0
    | some t => (if p s a then 1 else 0) + occurrences step p t as

/-- A step of the kind `p` leads to where there is no other one. -/
theorem occurrences_le_one {p : S → A → Bool} {q : S → Prop}
    (hpast : ∀ s a t, q s → step s a = some t → p s a = false ∧ q t)
    (henter : ∀ s a t, p s a = true → step s a = some t → q t) :
    ∀ (as : List A) (s : S), occurrences step p s as ≤ 1 := by
  have hnone : ∀ (as : List A) (s : S), q s → occurrences step p s as = 0 := by
    intro as
    induction as with
    | nil => intro s _; rfl
    | cons a as ih =>
      intro s hs
      unfold occurrences
      split
      case h_1 => rfl
      case h_2 t ht =>
        obtain ⟨hp, hnext⟩ := hpast s a t hs ht
        simp [hp, ih t hnext]
  intro as
  induction as with
  | nil => intro s; exact Nat.zero_le 1
  | cons a as ih =>
    intro s
    unfold occurrences
    split
    case h_1 => exact Nat.zero_le 1
    case h_2 t ht =>
      by_cases hp : p s a = true
      · simp [hp, hnone as t (henter s a t hp ht)]
      · rw [if_neg hp, Nat.zero_add]
        exact ih t

/-- No step raises the measure, and those of the kind `p` lower it. -/
theorem occurrences_le_measure {p : S → A → Bool} {μ : S → Nat} {I : S → Prop}
    (hI : ∀ s a t, I s → ok s a → step s a = some t → I t)
    (hμ : ∀ s a t, I s → ok s a → step s a = some t → μ t + (if p s a then 1 else 0) ≤ μ s) :
    ∀ (as : List A) (s : S), I s → Run step ok s as t → occurrences step p s as ≤ μ s := by
  intro as
  induction as with
  | nil => intro s _ _; exact Nat.zero_le _
  | cons a as ih =>
    intro s hs h
    obtain ⟨u, hok, hu, hrest⟩ := h.first
    have hnext := ih u (hI s a u hs hok hu) hrest
    have hdrop := hμ s a u hs hok hu
    simp only [occurrences, hu]
    omega

/-- A step of the kind `p` pays with the measure, any other one puts at most `c` in. -/
theorem Run.amortized {p : A → Bool} {m : S → Nat} {c : Nat} (hrun : Run step ok s as t)
    (hm : ∀ a ∈ as, ∀ u v, ok u a → step u a = some v → if p a then m v < m u else m v ≤ m u + c) :
    as.countP p + m t ≤ m s + c * as.countP fun a => !p a := by
  induction as generalizing s with
  | nil =>
    obtain rfl : s = t := (Run.nil s : Run step ok s [] s).det hrun
    simp
  | cons a as ih =>
    obtain ⟨u, hok, hu, hrest⟩ := hrun.first
    have hrec := ih hrest fun b hb => hm b (List.mem_cons_of_mem a hb)
    have hone := hm a List.mem_cons_self s u hok hu
    cases hp : p a with
    | true =>
      rw [hp, if_pos rfl] at hone
      simp only [List.countP_cons, hp, if_pos, Bool.not_true, Bool.false_eq_true, if_false, Nat.add_zero]
      omega
    | false =>
      rw [hp, if_neg (by simp)] at hone
      simp only [List.countP_cons, hp, if_pos, Bool.not_false, Bool.false_eq_true, if_false, Nat.add_zero, Nat.mul_add,
        Nat.mul_one]
      omega

/-- Each step of the kind `p` adds to a measure that no step takes from. -/
theorem Run.counted {p : A → Bool} {m : S → Nat} (hrun : Run step ok s as t)
    (hm : ∀ u a v, step u a = some v → m u + (if p a then 1 else 0) ≤ m v) : as.countP p + m s ≤ m t := by
  induction hrun with
  | nil => simp
  | @snoc u v as a hrest hok hst ih =>
    have hone := hm u a v hst
    rw [List.countP_append, List.countP_singleton]
    omega

/-! ## The history of a run -/

/-- What `record` makes of the steps `as` from `s` on. It sees the state before and after each step. -/
def history {H : Type} (step : S → A → Option S) (record : H → S → A → S → H) : H → S → List A → H
  | h, _, [] => h
  | h, s, a :: as =>
    match step s a with
    | none => h
    | some t => history step record (record h s a t) t as

/-- `Reachable.invariant` with the history. -/
theorem Run.history_invariant {H : Type} {record : H → S → A → S → H} {I : H → S → Prop} {h : H}
    (hrun : Run step ok s as t) (h0 : I h s)
    (hstep : ∀ h s a t, I h s → ok s a → step s a = some t → I (record h s a t) t) :
    I (history step record h s as) t := by
  induction as generalizing h s with
  | nil =>
    obtain rfl : s = t := (Run.nil s : Run step ok s [] s).det hrun
    exact h0
  | cons a as ih =>
    obtain ⟨u, hok, hu, hrest⟩ := hrun.first
    simp only [history, hu]
    exact ih hrest (hstep h s a u h0 hok hu)

/-! ## Running a concrete schedule -/

section
variable (step ok)
variable [∀ s a, Decidable (ok s a)]

def exec : S → List A → Option S
  | s, [] => some s
  | s, a :: as => if ok s a then (step s a).bind (fun t => exec t as) else none

end

theorem exec_run [∀ s a, Decidable (ok s a)] :
    ∀ (as : List A) (s t : S), exec step ok s as = some t → Run step ok s as t
  | [], s, t, h => by
    obtain rfl : s = t := by simpa [exec] using h
    exact .nil _
  | a :: as, s, t, h => by
    simp only [exec] at h
    split at h
    case isTrue hok =>
      obtain ⟨u, hu, hrest⟩ := Option.bind_eq_some_iff.1 h
      exact Run.cons hok hu (exec_run as u t hrest)
    case isFalse => cases h

theorem exec_get_run (step : S → A → Option S) (ok : S → A → Prop) [∀ s a, Decidable (ok s a)] (s : S)
    (as : List A) (h : (exec step ok s as).isSome) : Run step ok s as ((exec step ok s as).get h) :=
  exec_run as s _ (Option.some_get h).symm

end Runs
