import CoAwait.SpecificPtr
import CoAwait.Custody
import Mathlib.Data.List.Induction

/-!
# Coroutine-local objects are cleaned up once (`Data::StorageItem`, routine.hpp:377)

The map of a `Data` keeps the pointers passed to `reset`, and answers for cleaning them up: `duties` are the cleanups
that are still to be made. `reset` takes one duty on and discharges the one it finds in the slot, `release` hands the
pointer out and leaves a duty to clean up `nullptr`, and the destruction of the map discharges the rest.

* `booked`: the book of a run is balanced (`Custody.Accounted`), by `perform_duties` for one call.
* `run_keeps`: a slot keeps its pointer until the next `reset` or `release` of the same object.
* `cleaned_exactly_once` puts both together, for pointers that are passed to `reset` only once.
-/

namespace CoAwait.SpecificPtr

open Custody

variable {P V F : Type}

/-- The cleanups to come. -/
def duties (s : Storage P V F) : Multiset (Cleanup V F) := (s.entries.flatMap fun entry => entry.2.cleanup : List _)

/-- The cleanups that are not calls with `nullptr`. -/
def nonNull (m : Multiset (Cleanup V F)) : Multiset (Cleanup V F) := m.filter fun c => c.arg.isSome

section Duties

variable [DecidableEq P] {s : Storage P V F} {p : P} {v : Option V} {f : F} {item : StorageItem V F}
  {calls : List (Cleanup V F)}

theorem nonNull_add {m m' : Multiset (Cleanup V F)} : nonNull (m + m') = nonNull m + nonNull m' :=
  Multiset.filter_add _ _ _

theorem entries_perm (h : s.lookup p = some item) : s.entries.Perm (⟨p, item⟩ :: s.entries.kerase p) := by
  have hmem : p ∈ s.entries.keys := AList.mem_keys.1 (AList.lookup_isSome.1 (by rw [h]; rfl))
  obtain ⟨item', front, back, hnot, hs, hk⟩ := List.exists_of_kerase hmem
  have hitem : item' = item := by
    have hin : item' ∈ s.lookup p := AList.mem_lookup_iff.2 (by rw [hs]; simp)
    simpa [h, eq_comm] using hin
  rw [hk, hs, hitem]
  exact List.perm_middle

/-- The duties apart from those of the slot of `p`. -/
def otherDuties (s : Storage P V F) (p : P) : Multiset (Cleanup V F) :=
  ((s.entries.kerase p).flatMap fun entry => entry.2.cleanup : List _)

theorem duties_eq : duties s = (slot s p).cleanup + otherDuties s p := by
  cases h : s.lookup p with
  | none =>
    rw [slot_of_none h, otherDuties, List.kerase_of_notMem_keys (AList.lookup_eq_none.1 h)]
    simp [duties]
  | some item =>
    rw [slot_of_lookup h, otherDuties, Multiset.coe_add]
    exact Multiset.coe_eq_coe.2 ((entries_perm h).flatMap_right _)

theorem duties_insert : duties (s.insert p item) = item.cleanup + otherDuties s p := by
  rw [duties, AList.entries_insert, otherDuties, List.flatMap_cons, Multiset.coe_add]

/-- `reset` takes a duty on and discharges the one it finds. -/
theorem duties_reset : ↑(reset s p v f).2 + duties (reset s p v f).1 = {⟨f, v⟩} + duties s := by
  rw [reset_calls, reset_storage, duties_insert, duties_eq (s := s) (p := p), StorageItem.cleanup_some,
    Multiset.coe_singleton]
  abel

/-- Every item has the function of its object. -/
def Owned (fn : P → F) (s : Storage P V F) : Prop := ∀ p, slot s p = .empty ∨ ∃ d, slot s p = ⟨d, some (fn p)⟩

end Duties

section Book

variable {fn : P → F} {σ : Session P V F} {p q : P} {op : Op V} {v : V} {ops pre mid post : List (P × Op V)}
  {final : List (Cleanup V F)}

/-- The pointers passed to `reset` that are not null. -/
def given (ops : List (P × Op V)) : List V :=
  ops.filterMap fun
    | (_, .reset newValue) => newValue
    | _ => none

/-- The duties that come with them. -/
def accepted (fn : P → F) (ops : List (P × Op V)) : Multiset (Cleanup V F) :=
  (ops.filterMap fun
    | (p, .reset (some v)) => some ⟨fn p, some v⟩
    | _ => none : List (Cleanup V F))

/-- The pointer that a `release` has returned, with the function of its object. -/
def handedBy (fn : P → F) (a : Answer P V) : Option (Cleanup V F) :=
  match a.call, a.result with
  | .release, some v => some ⟨fn a.this, some v⟩
  | _, _ => none

def handedOut (fn : P → F) (answers : List (Answer P V)) : Multiset (Cleanup V F) :=
  (answers.filterMap (handedBy fn) : List _)

/-- `v` has been returned by a `release`. -/
def Handed (σ : Session P V F) (v : V) : Prop := ∃ p, ⟨p, .release, some v⟩ ∈ σ.answers

theorem accepted_append : accepted fn (pre ++ post) = accepted fn pre + accepted fn post := by
  rw [accepted, List.filterMap_append]; rfl

theorem accepted_reset {newValue : Option V} :
    accepted fn [(p, .reset newValue)] = nonNull {⟨fn p, newValue⟩} := by
  cases newValue <;> rfl

theorem handedOut_append {as as' : List (Answer P V)} :
    handedOut fn (as ++ as') = handedOut fn as + handedOut fn as' := by
  rw [handedOut, List.filterMap_append]; rfl

theorem handedOut_release {d : Option V} : handedOut fn [⟨p, .release, d⟩] = nonNull {⟨fn p, d⟩} := by
  cases d <;> rfl

/-- The duties are named by their pointers. -/
theorem accepted_names (fn : P → F) (ops : List (P × Op V)) :
    (accepted fn ops).map Cleanup.arg = ((given ops).map some : List (Option V)) := by
  rw [accepted, Multiset.map_coe, given, List.map_filterMap, List.map_filterMap]
  congr 2
  funext op
  obtain ⟨p, op⟩ := op
  rcases op with _ | (_ | v) | _ <;> rfl

theorem nodup_names (fn : P → F) (h : (given ops).Nodup) : ((accepted fn ops).map Cleanup.arg).Nodup := by
  rw [accepted_names]
  exact Multiset.coe_nodup.2 (h.map (Option.some_injective V))

theorem mem_accepted (h : (p, .reset (some v)) ∈ ops) : ⟨fn p, some v⟩ ∈ accepted fn ops :=
  Multiset.mem_coe.2 (List.mem_filterMap.2 ⟨_, h, rfl⟩)

theorem mem_handedOut {c : Cleanup V F} {as : List (Answer P V)} (h : c ∈ handedOut fn as) :
    ∃ p v, ⟨p, .release, some v⟩ ∈ as ∧ c = ⟨fn p, some v⟩ := by
  obtain ⟨⟨p, op, d⟩, ha, hc⟩ := List.mem_filterMap.1 (Multiset.mem_coe.1 h)
  cases op with
  | get => cases hc
  | reset newValue => cases hc
  | release =>
    cases d with
    | none => cases hc
    | some v => exact ⟨p, v, ha, (Option.some.inj hc).symm⟩

theorem mem_nonNull {c : Cleanup V F} {l : List (Cleanup V F)} (hc : c ∈ l) (harg : c.arg = some v) :
    c ∈ nonNull (l : Multiset (Cleanup V F)) := by
  refine Multiset.mem_filter.2 ⟨hc, ?_⟩
  rw [harg]; rfl

variable [DecidableEq P]

theorem owned_perform (h : Owned fn σ.mLocalStorage) : Owned fn (σ.perform fn q op).mLocalStorage := by
  intro p
  by_cases hpq : p = q
  · subst hpq
    cases op with
    | get => exact h p
    | reset newValue => exact .inr ⟨newValue, slot_reset⟩
    | release =>
      simp only [Session.perform, slot_release]
      rcases h p with he | ⟨d, hd⟩
      · rw [he]; exact .inl rfl
      · rw [hd]; exact .inr ⟨none, rfl⟩
  · rw [Session.slot_perform_ne hpq]
    exact h p

theorem owned_run (fn : P → F) (ops : List (P × Op V)) : Owned fn (Session.run fn .start ops).mLocalStorage := by
  induction ops using List.reverseRecOn with
  | nil => exact fun p => .inl (slot_of_none rfl)
  | append_singleton ops op ih =>
    rw [Session.run_concat]
    exact owned_perform ih

/-- A `release` hands out the pointer of the duty that it takes off. -/
theorem duties_release (h : Owned fn σ.mLocalStorage) :
    handedOut fn [⟨p, .release, (release σ.mLocalStorage p).1⟩] + nonNull (duties (release σ.mLocalStorage p).2) =
      nonNull (duties σ.mLocalStorage) := by
  rw [handedOut_release, release_result, get_eq]
  cases hs : σ.mLocalStorage.lookup p with
  | none =>
    rw [release_of_none hs, slot_of_none hs]
    exact zero_add _
  | some item =>
    obtain rfl := (slot_of_lookup hs).symm
    rw [release_of_lookup hs, duties_insert, duties_eq (p := p), nonNull_add, nonNull_add, ← add_assoc]
    congr 1
    rcases h p with he | ⟨d, hd⟩
    · rw [he]; rfl
    · rw [hd]; exact add_zero _

/-- What one call does to the book. -/
theorem perform_duties (howned : Owned fn σ.mLocalStorage) {a : Multiset (Cleanup V F)}
    (h : Accounted a (nonNull σ.cleaned) (handedOut fn σ.answers) (nonNull (duties σ.mLocalStorage))) :
    Accounted (a + accepted fn [(p, op)]) (nonNull (σ.perform fn p op).cleaned)
      (handedOut fn (σ.perform fn p op).answers) (nonNull (duties (σ.perform fn p op).mLocalStorage)) := by
  cases op with
  | get =>
    have hstep : handedOut fn [⟨p, .get, get σ.mLocalStorage p⟩] + nonNull (duties σ.mLocalStorage) =
      nonNull (duties σ.mLocalStorage) := zero_add _
    have hmove := h.hand hstep
    rw [← handedOut_append, ← add_zero a] at hmove
    exact hmove
  | reset newValue =>
    have hstep := congrArg nonNull (duties_reset (s := σ.mLocalStorage) (p := p) (v := newValue) (f := fn p))
    rw [nonNull_add, nonNull_add, ← accepted_reset] at hstep
    have hmove := h.dispose hstep
    rw [← nonNull_add, Multiset.coe_add] at hmove
    exact hmove
  | release =>
    have hmove := h.hand (duties_release (p := p) howned)
    rw [← handedOut_append, ← add_zero a] at hmove
    exact hmove

/-- The book of a coroutine is balanced. -/
theorem booked : Accounted (accepted fn ops) (nonNull (Session.run fn .start ops).cleaned)
    (handedOut fn (Session.run fn .start ops).answers)
    (nonNull (duties (Session.run fn .start ops).mLocalStorage)) := by
  induction ops using List.reverseRecOn with
  | nil => exact accounted_start
  | append_singleton ops op ih =>
    rw [Session.run_concat, accepted_append]
    exact perform_duties (owned_run fn ops) ih

/-- The book is closed when the map is destroyed. -/
theorem booked_destroyed (hfinal : Destroyed (Session.run fn .start ops).mLocalStorage final) :
    Accounted (accepted fn ops) (nonNull ((Session.run fn .start ops).cleaned ++ final : List (Cleanup V F)))
      (handedOut fn (Session.run fn .start ops).answers) 0 := by
  have hduties : (final : Multiset (Cleanup V F)) = duties (Session.run fn .start ops).mLocalStorage := by
    obtain ⟨order, hperm, rfl⟩ := hfinal
    exact Multiset.coe_eq_coe.2 (hperm.flatMap_right _)
  rw [← Multiset.coe_add, nonNull_add, hduties]
  exact booked.close

/-! ## What becomes of a pointer -/

/-- Nothing that has been returned is taken back. -/
theorem handed_perform {w : V} (h : Handed σ w) : Handed (σ.perform fn p op) w := by
  obtain ⟨q, hq⟩ := h
  cases op with
  | reset newValue => exact ⟨q, hq⟩
  | get => exact ⟨q, List.mem_append_left _ hq⟩
  | release => exact ⟨q, List.mem_append_left _ hq⟩

theorem handed_run {w : V} (h : Handed σ w) : Handed (σ.run fn ops) w := by
  induction ops generalizing σ with
  | nil => exact h
  | cons op ops ih => exact ih (handed_perform h)

/-- A slot keeps its pointer until the next `reset` or `release` of the same object. -/
theorem run_keeps {f : F} (hslot : slot σ.mLocalStorage p = ⟨some v, some f⟩) (hmid : ∀ w, (p, .reset w) ∉ mid)
    (hnot : ¬Handed (σ.run fn mid) v) : slot (σ.run fn mid).mLocalStorage p = ⟨some v, some f⟩ := by
  induction mid generalizing σ with
  | nil => exact hslot
  | cons op mid ih =>
    obtain ⟨q, op⟩ := op
    refine ih ?_ (fun w hw => hmid w (List.mem_cons_of_mem _ hw)) hnot
    by_cases hpq : p = q
    · subst hpq
      cases op with
      | get => exact hslot
      | reset w => exact absurd (List.mem_cons_self ..) (hmid w)
      | release =>
        have hreturned : (release σ.mLocalStorage p).1 = some v := by rw [release_result, get_eq, hslot]
        have hhanded : Handed (σ.perform fn p .release) v :=
          ⟨p, List.mem_append_right _ (by rw [hreturned]; exact List.mem_singleton_self _)⟩
        exact absurd (handed_run hhanded) hnot
    · rw [Session.slot_perform_ne hpq, hslot]

/-- A pointer passed to `reset` and not returned by a `release` stays in the slot until the next `reset`. -/
theorem given_keeps {rest : List (P × Op V)} (hmid : ∀ w, (p, .reset w) ∉ mid)
    (hnot : ¬Handed (Session.run fn .start (pre ++ (p, .reset (some v)) :: (mid ++ rest))) v) :
    slot (Session.run fn .start (pre ++ (p, .reset (some v)) :: mid)).mLocalStorage p = ⟨some v, some (fn p)⟩ := by
  rw [Session.run_append, Session.run_cons, Session.run_append] at hnot
  rw [Session.run_append, Session.run_cons]
  exact run_keeps slot_reset hmid fun h => hnot (handed_run h)

/-- What a slot holds at the end is among the last cleanups. -/
theorem slot_destroyed {s : Storage P V F} {d : Option V} {f : F} (hslot : slot s p = ⟨d, some f⟩)
    (hfinal : Destroyed s final) : ⟨f, d⟩ ∈ final := by
  obtain ⟨order, hperm, rfl⟩ := hfinal
  have hcalls : (order.flatMap fun entry => entry.2.cleanup).Perm (s.entries.flatMap fun entry => entry.2.cleanup) :=
    hperm.flatMap_right _
  have hmem : (⟨f, d⟩ : Cleanup V F) ∈ duties s := by
    rw [duties_eq (p := p), hslot]
    exact Multiset.mem_add.2 (.inl (by simp))
  exact hcalls.mem_iff.2 hmem

/-- A pointer in a slot is a duty that has not been discharged. -/
theorem get_not_cleaned (hdistinct : (given ops).Nodup)
    (hget : get (Session.run fn .start ops).mLocalStorage p = some v) :
    ∀ c ∈ (Session.run fn .start ops).cleaned, c.arg ≠ some v := by
  intro c hc harg
  have hheld : (⟨fn p, some v⟩ : Cleanup V F) ∈ nonNull (duties (Session.run fn .start ops).mLocalStorage) := by
    rw [get_eq] at hget
    rw [duties_eq (p := p), nonNull_add]
    refine Multiset.mem_add.2 (.inl (mem_nonNull ?_ rfl))
    rcases owned_run fn ops p with he | ⟨d, hd⟩
    · rw [he] at hget; cases hget
    · rw [hd] at hget ⊢
      obtain rfl : d = some v := hget
      exact List.mem_singleton_self _
  exact booked.disposed_ne_held (nodup_names fn hdistinct) (mem_nonNull hc harg) hheld harg

variable [DecidableEq V]

/-- What becomes of the pointers passed to `reset`, in the run `ops` and at its end. -/
structure CleanedOnce (fn : P → F) (ops : List (P × Op V)) (final : List (Cleanup V F)) : Prop where
  /-- A pointer that `release` has returned is not cleaned up. -/
  handed : ∀ p v, (p, .reset (some v)) ∈ ops → Handed (Session.run fn .start ops) v →
    ∀ c ∈ (Session.run fn .start ops).cleaned ++ final, c.arg ≠ some v
  /-- Any other pointer is cleaned up once, by the function of its object. -/
  once : ∀ p v, (p, .reset (some v)) ∈ ops → ¬Handed (Session.run fn .start ops) v →
    ((Session.run fn .start ops).cleaned ++ final).filter (fun c => c.arg = some v) = [⟨fn p, some v⟩]
  /-- The next `reset` of the object cleans it up. -/
  nextReset : ∀ pre p v mid w post, ops = pre ++ (p, .reset (some v)) :: (mid ++ (p, .reset w) :: post) →
    (∀ u, (p, .reset u) ∉ mid) → ¬Handed (Session.run fn .start ops) v →
    (Session.run fn .start (pre ++ (p, .reset (some v)) :: (mid ++ [(p, .reset w)]))).cleaned =
      (Session.run fn .start (pre ++ (p, .reset (some v)) :: mid)).cleaned ++ [⟨fn p, some v⟩]
  /-- If there is none, the destruction of the map does. -/
  atEnd : ∀ pre p v post, ops = pre ++ (p, .reset (some v)) :: post → (∀ u, (p, .reset u) ∉ post) →
    ¬Handed (Session.run fn .start ops) v → ⟨fn p, some v⟩ ∈ final
  /-- After every call, `get` returns no pointer that has been cleaned up. -/
  live : ∀ pre post, ops = pre ++ post → ∀ p v, get (Session.run fn .start pre).mLocalStorage p = some v →
    ∀ c ∈ (Session.run fn .start pre).cleaned, c.arg ≠ some v

/-- In a list of calls, those with a given pointer are those of its name in the book. -/
theorem filter_nonNull {calls : List (Cleanup V F)} :
    (nonNull (calls : Multiset (Cleanup V F))).filter (fun c => c.arg = some v) =
      (calls.filter (fun c => c.arg = some v) : List (Cleanup V F)) := by
  rw [nonNull, Multiset.filter_filter, ← Multiset.filter_coe]
  refine Multiset.filter_congr fun c _ => and_iff_left_of_imp fun h => ?_
  rw [h]; rfl

/-- **Cleaned up once.** A pointer passed to `reset` in a coroutine is cleaned up once, by the function of its object,
unless `release` returns it. -/
theorem cleaned_exactly_once (hdistinct : (given ops).Nodup)
    (hfinal : Destroyed (Session.run fn .start ops).mLocalStorage final) : CleanedOnce fn ops final := by
  have hbook := booked_destroyed hfinal
  have hnames := nodup_names fn hdistinct
  refine ⟨?_, ?_, ?_, ?_, ?_⟩
  · rintro p v - ⟨q, hq⟩ c hc harg
    have hout : (⟨fn q, some v⟩ : Cleanup V F) ∈ handedOut fn (Session.run fn .start ops).answers :=
      Multiset.mem_coe.2 (List.mem_filterMap.2 ⟨_, hq, rfl⟩)
    exact hbook.disposed_ne_handed hnames (mem_nonNull hc harg) hout harg
  · intro p v hop hnot
    have hout : (⟨fn p, some v⟩ : Cleanup V F) ∉ handedOut fn (Session.run fn .start ops).answers := by
      intro hout
      obtain ⟨q, w, hq, he⟩ := mem_handedOut hout
      obtain rfl : v = w := by simpa using congrArg Cleanup.arg he
      exact hnot ⟨q, hq⟩
    have hone := hbook.disposed_once hnames (mem_accepted hop) hout (Multiset.notMem_zero _)
    rw [filter_nonNull] at hone
    exact Multiset.coe_eq_singleton.1 hone
  · intro pre p v mid w post hops hmid hnot
    rw [hops] at hnot
    have hslot := given_keeps hmid hnot
    have hlist : pre ++ (p, .reset (some v)) :: (mid ++ [(p, .reset w)]) =
        (pre ++ (p, .reset (some v)) :: mid) ++ [(p, .reset w)] := by simp
    rw [hlist, Session.run_concat]
    simp only [Session.perform, reset_calls, hslot, StorageItem.cleanup_some]
  · rintro pre p v post hops hpost hnot
    rw [hops, ← List.append_nil post] at hnot
    rw [hops] at hfinal
    exact slot_destroyed (given_keeps hpost hnot) hfinal
  · intro pre post hops p v hget
    rw [hops, given, List.filterMap_append] at hdistinct
    exact get_not_cleaned (List.nodup_append.1 hdistinct).1 hget

theorem cleaned_exactly_once_two : CleanedOnce (fun p : Bool => if p then "free" else "delete")
    [(true, .reset (some 1)), (false, .reset (some 2)), (true, .reset (some 3)), (false, .release), (false, .get)]
    [⟨"delete", none⟩, ⟨"free", some 3⟩] :=
  cleaned_exactly_once (by decide) ⟨[⟨false, ⟨none, some "delete"⟩⟩, ⟨true, ⟨some 3, some "free"⟩⟩], by decide, rfl⟩

end Book

end CoAwait.SpecificPtr
