import CoAwait.Runs

/-!
# Forward simulation

A step of the implementation either stands for one step of the abstract system (`event`) or for none. The relation
may hold of reachable states only: what the implementation's invariant says is part of it.

* `shadow`: the abstract steps that the steps of a run stand for.
* `Simulation.run`: the abstract system runs along.
-/

namespace Runs

variable {S A S' A' : Type}

def shadow (step : S → A → Option S) (event : S → A → Option A') : S → List A → List A'
  | _, [] => []
  | s, a :: as =>
    match step s a with
    | none => []
    | some t => (event s a).toList ++ shadow step event t as

variable {step : S → A → Option S} {ok : S → A → Prop} {event : S → A → Option A'} {s t : S} {as : List A} {a : A}

theorem shadow_concat (h : Run step ok s as t) {u : S} (hst : step t a = some u) :
    shadow step event s (as ++ [a]) = shadow step event s as ++ (event t a).toList := by
  have key : ∀ (as : List A) (s : S), Run step ok s as t →
      shadow step event s (as ++ [a]) = shadow step event s as ++ (event t a).toList := by
    intro as
    induction as with
    | nil =>
      intro s h
      obtain rfl : s = t := (Run.nil s : Run step ok s [] s).det h
      simp [shadow, hst]
    | cons b as ih =>
      intro s h
      obtain ⟨v, -, hv, hrest⟩ := h.first
      simp [shadow, hv, ih v hrest]
  exact key as s h

/-- Every step that the implementation takes is one of the abstract system, or none. -/
structure Simulation (step : S → A → Option S) (ok : S → A → Prop) (step' : S' → A' → Option S')
    (ok' : S' → A' → Prop) (event : S → A → Option A') (R : S → S' → Prop) : Prop where
  stutter : ∀ {s s' a u}, R s s' → ok s a → step s a = some u → event s a = none → R u s'
  follow : ∀ {s s' a u b}, R s s' → ok s a → step s a = some u → event s a = some b →
    ok' s' b ∧ ∃ u', step' s' b = some u' ∧ R u u'

theorem Simulation.run {step' : S' → A' → Option S'} {ok' : S' → A' → Prop} {R : S → S' → Prop}
    (hsim : Simulation step ok step' ok' event R) {s' : S'} (h0 : R s s') (h : Run step ok s as t) :
    ∃ t', Run step' ok' s' (shadow step event s as) t' ∧ R t t' := by
  induction h with
  | nil => exact ⟨s', .nil _, h0⟩
  | @snoc t u as a hrun hok hst ih =>
    obtain ⟨t', hrun', hR⟩ := ih
    rw [shadow_concat hrun hst]
    cases hev : event t a with
    | none => exact ⟨t', by simpa using hrun', hsim.stutter hR hok hst hev⟩
    | some b =>
      obtain ⟨hok', u', hst', hR'⟩ := hsim.follow hR hok hst hev
      exact ⟨u', hrun'.snoc hok' hst', hR'⟩

end Runs
