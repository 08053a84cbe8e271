import CoAwait.SpecificPtr

/-!
# One abstraction inside and outside of coroutines (routine_specific_ptr.hpp:30)

The README promises that a `SpecificPtr` uses `boost::thread_specific_ptr` outside of coroutines. The same calls
are made on one object in a coroutine whose `Data` is destroyed afterwards, and in a thread that ends afterwards.

| call | coroutine | thread |
|---|---|---|
| `reset` | cleans up whatever the item holds, also `nullptr` and the pointer that is being set | skips both |
| end | cleans up whatever the item holds | skips `nullptr` |
| `get`, `release` | the same results | the same results |

* `ThreadPtr.Documented` is what boost documents; `Plain` are the calls on which both worlds agree.
* A call that only the coroutine makes is never made up for (`Tied.run`).
-/

namespace CoAwait.SpecificPtr

/-- A thread's view of a `boost::thread_specific_ptr`: its calls return the arguments of the cleanups they make. -/
structure ThreadPtr (V : Type) where
  State : Type
  start : State
  get : State → Option V
  reset : State → Option V → State × List (Option V)
  release : State → Option V × State
  threadEnd : State → List (Option V)

/-- The cleanup function is called with no pointer but a stored one that is not null. -/
def ThreadPtr.stored {V : Type} (boost : ThreadPtr V) (t : boost.State) : List (Option V) :=
  (boost.get t).toList.map some

variable {P V F : Type} [DecidableEq P]

structure ThreadPtr.Documented (boost : ThreadPtr V) : Prop where
  get_start : boost.get boost.start = none
  get_reset : ∀ t q, boost.get (boost.reset t q).1 = q
  reset_same : ∀ t q, q = boost.get t → (boost.reset t q).2 = []
  reset_other : ∀ t q, q ≠ boost.get t → (boost.reset t q).2 = boost.stored t
  release_returns : ∀ t, (boost.release t).1 = boost.get t
  get_release : ∀ t, boost.get (boost.release t).2 = none
  end_cleans : ∀ t, boost.threadEnd t = boost.stored t

namespace ThreadPtr

/-- A thread with what its calls have returned and cleaned up so far. -/
structure Session (boost : ThreadPtr V) where
  state : boost.State
  answers : List (Option V)
  cleaned : List (Option V)

variable (boost : ThreadPtr V)

/-- The branches of `get`, `reset` and `release` outside of a coroutine. -/
def perform (τ : boost.Session) : Op V → boost.Session
  | .get => { τ with answers := τ.answers ++ [boost.get τ.state] }
  | .reset newValue =>
    { τ with state := (boost.reset τ.state newValue).1,
             cleaned := τ.cleaned ++ (boost.reset τ.state newValue).2 }
  | .release =>
    { τ with state := (boost.release τ.state).2, answers := τ.answers ++ [(boost.release τ.state).1] }

def run (τ : boost.Session) (ops : List (Op V)) : boost.Session := ops.foldl boost.perform τ

/-- The calls in a new thread. -/
def outside (ops : List (Op V)) : boost.Session := boost.run ⟨boost.start, [], []⟩ ops

end ThreadPtr

/-- The calls in a new coroutine, all of them on `this`. -/
def inside (mCleanupFunction : F) (this : P) (ops : List (Op V)) : Session P V F :=
  Session.run (fun _ => mCleanupFunction) .start (ops.map fun op => (this, op))

/-- The results of `get` and `release` and the cleanups, with those at the end, are the same in both worlds. -/
def Agree (boost : ThreadPtr V) (mCleanupFunction : F) (this : P) (ops : List (Op V)) : Prop :=
  ∀ final, Destroyed (inside mCleanupFunction this ops).mLocalStorage final →
    (inside mCleanupFunction this ops).answers.map Answer.result = (boost.outside ops).answers ∧
    (inside mCleanupFunction this ops).cleaned ++ final =
      ((boost.outside ops).cleaned ++ boost.threadEnd (boost.outside ops).state).map fun v => ⟨mCleanupFunction, v⟩

/-! ## The calls on which both worlds agree -/

/-- The pointers passed to `reset`. -/
def resets (ops : List (Op V)) : List (Option V) :=
  ops.filterMap fun
    | .reset newValue => some newValue
    | _ => none

/-- `op'` is not a `release` after a `reset`. -/
def Keeps (op op' : Op V) : Prop := (∃ q, op = .reset q) → op' ≠ .release

/-- No `reset` is passed `nullptr`, no `release` follows a `reset`, and no `reset` is passed the pointer that was
passed to the one before. -/
structure Plain (ops : List (Op V)) : Prop where
  nonNull : none ∉ resets ops
  kept : ops.Pairwise Keeps
  fresh : (resets ops).IsChain (· ≠ ·)

section Plain

variable {ops : List (Op V)} {op : Op V} {d q : Option V}

theorem plain_nil : Plain ([] : List (Op V)) := ⟨by simp [resets], .nil, by simp [resets]⟩

theorem kept_reset : (Op.reset d :: ops).Pairwise Keeps ↔ Op.release ∉ ops := by
  refine ⟨fun h hm => (List.pairwise_cons.1 h).1 _ hm ⟨d, rfl⟩ rfl, fun h => ?_⟩
  have hr : ∀ op ∈ ops, op ≠ .release := fun op hop he => h (he ▸ hop)
  exact List.pairwise_cons.2 ⟨fun op hop _ => hr op hop, List.pairwise_of_forall_mem_list fun _ _ op hop _ => hr op hop⟩

/-- A `get` or a `release` that comes before any `reset` changes nothing. -/
theorem plain_other (hop : ∀ q, op ≠ .reset q) : Plain (op :: ops) ↔ Plain ops := by
  have hres : resets (op :: ops) = resets ops := by
    cases op with
    | reset q => exact absurd rfl (hop q)
    | get => rfl
    | release => rfl
  refine ⟨fun h => ⟨hres ▸ h.nonNull, (List.pairwise_cons.1 h.kept).2, hres ▸ h.fresh⟩, fun h => ?_⟩
  refine ⟨hres ▸ h.nonNull, List.pairwise_cons.2 ⟨fun op' _ hq => ?_, h.kept⟩, hres ▸ h.fresh⟩
  obtain ⟨q, rfl⟩ := hq
  exact absurd rfl (hop q)

@[simp] theorem resets_reset : resets (.reset q :: ops) = q :: resets ops := rfl

theorem plain_reset_cons : Plain (.reset d :: ops) ↔
    (d ≠ none ∧ none ∉ resets ops) ∧ .release ∉ ops ∧ (d :: resets ops).IsChain (· ≠ ·) := by
  rw [← kept_reset (d := d)]
  have hn : none ∉ resets (.reset d :: ops) ↔ d ≠ none ∧ none ∉ resets ops := by
    simp [resets, eq_comm (a := none)]
  exact ⟨fun h => ⟨hn.1 h.nonNull, h.kept, h.fresh⟩, fun h => ⟨hn.2 h.1, h.2.1, h.2.2⟩⟩

theorem plain_reset : Plain [.reset d] ↔ d ≠ none := by simp [plain_reset_cons, resets]

theorem plain_reset_get : Plain (.reset d :: .get :: ops) ↔ Plain (.reset d :: ops) := by
  simp [plain_reset_cons, resets]

theorem plain_reset_reset : Plain (.reset d :: .reset q :: ops) ↔ d ≠ none ∧ d ≠ q ∧ Plain (.reset q :: ops) := by
  simp only [plain_reset_cons, resets_reset, List.isChain_cons_cons, List.mem_cons, not_or]
  constructor
  · rintro ⟨⟨hd, hq, hn⟩, ⟨-, hr⟩, hdq, hc⟩
    exact ⟨hd, hdq, ⟨Ne.symm hq, hn⟩, hr, hc⟩
  · rintro ⟨hd, hdq, ⟨hq, hn⟩, hr, hc⟩
    exact ⟨⟨hd, Ne.symm hq, hn⟩, ⟨by simp, hr⟩, hdq, hc⟩

end Plain

/-! ## Both worlds side by side -/

variable {boost : ThreadPtr V} {f : F} {p : P} {σ : Session P V F} {τ : boost.Session} {ops : List (Op V)} {op : Op V}

/-- The coroutine has at most the slot of `p`, with the pointer that the thread has stored. -/
structure Tied (f : F) (p : P) (σ : Session P V F) (τ : boost.Session) : Prop where
  only : ∀ q ∈ σ.mLocalStorage, q = p
  item : slot σ.mLocalStorage p = .empty ∨ (slot σ.mLocalStorage p).cleanupFunction = some f
  same : (slot σ.mLocalStorage p).data = boost.get τ.state
  answers : σ.answers.map Answer.result = τ.answers

theorem tied_start (hb : boost.Documented) :
    Tied f p (.start : Session P V F) (⟨boost.start, [], []⟩ : boost.Session) :=
  ⟨by simp [Session.start], .inl (slot_of_none (by simp [Session.start])),
    by rw [slot_of_none (by simp [Session.start]), hb.get_start]; rfl, rfl⟩

theorem mem_release {s : Storage P V F} {q : P} : q ∈ (release s p).2 ↔ q ∈ s := by
  cases h : s.lookup p with
  | none => rw [release_of_none h]
  | some item =>
    rw [release_of_lookup h, AList.mem_insert, or_iff_right_of_imp]
    rintro rfl
    exact AList.lookup_isSome.1 (by rw [h]; rfl)

/-- The same call keeps both worlds tied. -/
theorem Tied.perform (op : Op V) (h : Tied f p σ τ) (hb : boost.Documented) :
    Tied f p (σ.perform (fun _ => f) p op) (boost.perform τ op) := by
  cases op with
  | get =>
    refine ⟨h.only, h.item, h.same, ?_⟩
    simp [Session.perform, ThreadPtr.perform, h.answers, get_eq, h.same]
  | reset newValue =>
    refine ⟨fun q hq => ?_, .inr (by simp [Session.perform]), ?_, h.answers⟩
    · rcases (AList.mem_insert _).1 hq with hq | hq
      · exact hq
      · exact h.only q hq
    · simp [Session.perform, ThreadPtr.perform, hb.get_reset]
  | release =>
    refine ⟨fun q hq => h.only q (mem_release.1 hq), ?_, ?_, ?_⟩
    · simp only [Session.perform, slot_release]
      rcases h.item with he | hf
      · rw [he]; exact .inl rfl
      · exact .inr hf
    · simp [Session.perform, ThreadPtr.perform, slot_release, hb.get_release]
    · simp [Session.perform, ThreadPtr.perform, h.answers, release_result, get_eq, h.same, hb.release_returns]

/-- The slot has not been used, or it holds what the thread has stored. -/
theorem Tied.cases (h : Tied f p σ τ) :
    slot σ.mLocalStorage p = .empty ∧ boost.get τ.state = none ∨
      ∃ d, slot σ.mLocalStorage p = ⟨d, some f⟩ ∧ boost.get τ.state = d := by
  rcases h.item with he | hf
  · exact .inl ⟨he, by rw [← h.same, he]; rfl⟩
  · exact .inr ⟨_, by rw [← hf], h.same.symm⟩

/-- A `reset` in a coroutine cleans up whatever it finds. -/
theorem cleaned_reset {q : Option V} :
    (σ.perform (fun _ => f) p (.reset q)).cleaned = σ.cleaned ++ (slot σ.mLocalStorage p).cleanup := by
  simp [Session.perform, reset_calls]

/-- What there is to clean up in the thread there is in the coroutine. -/
theorem Tied.stored_le (h : Tied f p σ τ) :
    (boost.stored τ.state).length ≤ (slot σ.mLocalStorage p).cleanup.length := by
  rcases h.cases with ⟨he, hget⟩ | ⟨d, hs, hget⟩
  · simp [ThreadPtr.stored, he, hget]
  · rw [hs, ThreadPtr.stored, hget]
    cases d <;> simp

theorem reset_cleans_le (hb : boost.Documented) {q : Option V} :
    (boost.reset τ.state q).2.length ≤ (boost.stored τ.state).length := by
  by_cases hq : q = boost.get τ.state
  · simp [hb.reset_same _ _ hq]
  · rw [hb.reset_other _ _ hq]

/-- Cleanups that only the coroutine has made stay ahead of those of the thread. -/
theorem Tied.ahead (h : Tied f p σ τ) (hb : boost.Documented) {n : Nat} (hn : τ.cleaned.length + n ≤ σ.cleaned.length) :
    (boost.perform τ op).cleaned.length + n ≤ (σ.perform (fun _ => f) p op).cleaned.length := by
  cases op with
  | get => exact hn
  | release => exact hn
  | reset q =>
    have h1 := h.stored_le
    have h2 := reset_cleans_le hb (τ := τ) (q := q)
    rw [cleaned_reset, List.length_append]
    simp only [ThreadPtr.perform, List.length_append]
    omega

/-- The same calls keep both worlds tied, and what the coroutine is ahead by is not made up for. -/
theorem Tied.run (ops : List (Op V)) (h : Tied f p σ τ) (hb : boost.Documented) {n : Nat}
    (hn : τ.cleaned.length + n ≤ σ.cleaned.length) :
    Tied f p (Session.run (fun _ => f) σ (ops.map fun op => (p, op))) (boost.run τ ops) ∧
      (boost.run τ ops).cleaned.length + n ≤
        (Session.run (fun _ => f) σ (ops.map fun op => (p, op))).cleaned.length := by
  induction ops generalizing σ τ with
  | nil => exact ⟨h, hn⟩
  | cons op ops ih => exact ih (h.perform op hb) (h.ahead hb hn)

/-! ## The end of the coroutine and of the thread -/

/-- All cleanups, with the one at the end. -/
def allInside (p : P) (σ : Session P V F) : List (Cleanup V F) := σ.cleaned ++ (slot σ.mLocalStorage p).cleanup

def allOutside (boost : ThreadPtr V) (f : F) (τ : boost.Session) : List (Cleanup V F) :=
  (τ.cleaned ++ boost.threadEnd τ.state).map fun v => ⟨f, v⟩

/-- A map with no other key than `p` has one entry or none. -/
theorem entries_of_only {s : Storage P V F} (honly : ∀ q ∈ s, q = p) :
    s.entries = (s.lookup p).toList.map (Sigma.mk p) := by
  obtain ⟨entries, hnd⟩ := s
  have hkey : ∀ e ∈ entries, e.1 = p := fun e he => honly e.1 (List.mem_keys_of_mem he)
  cases entries with
  | nil => rfl
  | cons e es =>
    obtain ⟨q, item⟩ := e
    obtain rfl : q = p := hkey ⟨q, item⟩ (by simp)
    have hes : es = [] := by
      refine List.eq_nil_iff_forall_not_mem.2 fun e he => ?_
      have hmem := List.mem_keys_of_mem he
      rw [hkey e (List.mem_cons_of_mem _ he)] at hmem
      exact (List.nodupKeys_cons.1 hnd).1 hmem
    simp [AList.lookup, hes]

/-- The destruction of the map cleans up its only slot. -/
theorem destroyed_iff {s : Storage P V F} (honly : ∀ q ∈ s, q = p) {calls : List (Cleanup V F)} :
    Destroyed s calls ↔ calls = (slot s p).cleanup := by
  have hcalls : (s.entries.flatMap fun entry => entry.2.cleanup) = (slot s p).cleanup := by
    rw [entries_of_only honly]
    cases h : s.lookup p <;> simp [slot, h]
  constructor
  · rintro ⟨order, hperm, rfl⟩
    have hlen : s.entries.length ≤ 1 := by
      rw [entries_of_only honly]
      cases s.lookup p <;> simp
    have horder : order = s.entries := by
      rcases hs : s.entries with _ | ⟨e, _ | ⟨e', es⟩⟩
      · rw [hs] at hperm; exact hperm.eq_nil
      · rw [hs] at hperm; exact List.perm_singleton.1 hperm
      · simp [hs] at hlen
    rw [horder, hcalls]
  · rintro rfl
    exact ⟨s.entries, .rfl, hcalls.symm⟩

/-- A cleanup that only the coroutine has made shows at the end. -/
theorem Tied.differ (h : Tied f p σ τ) (hb : boost.Documented) (hn : τ.cleaned.length < σ.cleaned.length) :
    allInside p (Session.run (fun _ => f) σ (ops.map fun op => (p, op))) ≠ allOutside boost f (boost.run τ ops) := by
  obtain ⟨ht, hlen⟩ := h.run ops hb (n := 1) hn
  have hs := ht.stored_le
  intro he
  have := congrArg List.length he
  simp only [allInside, allOutside, List.length_append, List.length_map, hb.end_cleans] at this
  omega

/-- The calls so far, as far as they matter: what the slot has been set to. -/
def setTo (item : StorageItem V F) : List (Op V) :=
  match item.cleanupFunction with
  | some _ => [.reset item.data]
  | none => []

@[simp] theorem setTo_empty : setTo (.empty : StorageItem V F) = [] := rfl

@[simp] theorem setTo_some {d : Option V} : setTo (⟨d, some f⟩ : StorageItem V F) = [.reset d] := rfl

theorem Tied.all_iff (ops : List (Op V)) (h : Tied f p σ τ) (hb : boost.Documented)
    (heq : σ.cleaned = τ.cleaned.map fun v => ⟨f, v⟩) :
    allInside p (Session.run (fun _ => f) σ (ops.map fun op => (p, op))) = allOutside boost f (boost.run τ ops) ↔
      Plain (setTo (slot σ.mLocalStorage p) ++ ops) := by
  induction ops generalizing σ τ with
  | nil =>
    simp only [allInside, allOutside, List.map_nil, Session.run_nil, ThreadPtr.run, List.foldl_nil, List.map_append,
      heq, List.append_cancel_left_eq, hb.end_cleans, List.append_nil]
    rcases h.cases with ⟨he, hget⟩ | ⟨d, hs, hget⟩
    · simp [ThreadPtr.stored, he, hget, plain_nil]
    · rw [hs, ThreadPtr.stored, hget, setTo_some, plain_reset]
      cases d <;> simp
  | cons op ops ih =>
    have hp := h.perform op hb
    simp only [List.map_cons, Session.run_cons, ThreadPtr.run, List.foldl_cons] at ih ⊢
    cases op with
    | get =>
      rw [ih hp heq]
      rcases h.cases with ⟨he, -⟩ | ⟨d, hs, -⟩
      · simp [Session.perform, he, plain_other]
      · simp [Session.perform, hs, plain_reset_get]
    | release =>
      rw [ih hp heq]
      simp only [Session.perform, slot_release]
      rcases h.cases with ⟨he, -⟩ | ⟨d, hs, -⟩
      · rw [he]
        exact (plain_other (by simp)).symm
      · -- a released item is cleaned up with `nullptr` later on
        simp [hs, plain_reset_cons]
    | reset q =>
      rcases h.cases with ⟨he, hget⟩ | ⟨d, hs, hget⟩
      · rw [ih hp]
        · simp [Session.perform, he]
        · have hq : (boost.reset τ.state q).2 = [] := by
            have := reset_cleans_le hb (τ := τ) (q := q)
            simpa [ThreadPtr.stored, hget] using this
          simp [cleaned_reset, he, ThreadPtr.perform, hq, heq]
      · rw [hs, setTo_some, List.singleton_append, plain_reset_reset]
        by_cases hd : d ≠ none ∧ d ≠ q
        · rw [ih hp]
          · simp [Session.perform, hd]
          · obtain ⟨v, rfl⟩ := Option.ne_none_iff_exists'.1 hd.1
            have hq : (boost.reset τ.state q).2 = [some v] := by
              rw [hb.reset_other _ _ (by rw [hget]; exact hd.2.symm), ThreadPtr.stored, hget]
              rfl
            simp [cleaned_reset, hs, ThreadPtr.perform, hq, heq]
        · refine iff_of_false (hp.differ hb ?_) fun hplain => hd ⟨hplain.1, hplain.2.1⟩
          have hq : (boost.reset τ.state q).2 = [] := by
            by_cases hdq : q = boost.get τ.state
            · exact hb.reset_same _ _ hdq
            · have hd' : d = none := by
                by_contra hne
                exact hd ⟨hne, fun he => hdq (by rw [hget, he])⟩
              rw [hb.reset_other _ _ hdq, ThreadPtr.stored, hget, hd']
              rfl
          simp [cleaned_reset, hs, ThreadPtr.perform, hq, heq]

/-- `get` and `release` return the same in both worlds, whatever the calls. -/
theorem answers_agree (hb : boost.Documented) :
    (inside f p ops).answers.map Answer.result = (boost.outside ops).answers :=
  ((tied_start hb).run ops hb (n := 0) (Nat.le_refl _)).1.answers

/-- **One abstraction.** The calls have the same results and the same cleanups in a coroutine and in a thread
exactly when they are plain. -/
theorem same_as_thread_iff (hb : boost.Documented) : Agree boost f p ops ↔ Plain ops := by
  have hstart := tied_start (P := P) (f := f) (p := p) hb
  have hend := (hstart.run ops hb (n := 0) (Nat.le_refl _)).1
  have hall := hstart.all_iff ops hb rfl
  rw [show slot (Session.start : Session P V F).mLocalStorage p = .empty from slot_of_none rfl, setTo_empty,
    List.nil_append] at hall
  rw [← hall]
  constructor
  · intro h
    exact (h _ ((destroyed_iff hend.only).2 rfl)).2
  · intro h final hfinal
    rw [(destroyed_iff hend.only).1 hfinal]
    exact ⟨answers_agree hb, h⟩

/-- A thread's pointer as boost documents it. -/
def ThreadPtr.reference : ThreadPtr Nat where
  State := Option Nat
  start := none
  get t := t
  reset t q := (q, if q = t then [] else t.toList.map some)
  release t := (t, none)
  threadEnd t := t.toList.map some

theorem ThreadPtr.reference_documented : ThreadPtr.reference.Documented where
  get_start := rfl
  get_reset _ _ := rfl
  reset_same _ _ h := if_pos h
  reset_other _ _ h := if_neg h
  release_returns _ := rfl
  get_release _ := rfl
  end_cleans _ := rfl

theorem same_as_thread_replaced :
    Agree ThreadPtr.reference "delete" 0 [.get, .release, .reset (some 1), .get, .reset (some 2)] :=
  (same_as_thread_iff ThreadPtr.reference_documented).2 ⟨by decide, by simp [Keeps], by decide⟩

/-- A pointer that is set again is deleted twice in a coroutine and once in a thread. -/
theorem set_again_deleted_twice :
    ThreadPtr.reference.Documented ∧ ¬Agree ThreadPtr.reference "delete" 0 [.reset (some 1), .reset (some 1)] :=
  ⟨ThreadPtr.reference_documented, fun h => absurd (h _ ⟨_, .rfl, rfl⟩).2 (by decide)⟩

end CoAwait.SpecificPtr
