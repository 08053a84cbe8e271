import CoAwait.IoContextThreads

/-!
# Every thread is joined once (`IoContextThreads::joinAll`, `executor.hpp:69`)

`joinAll` is called by the destructor, so a handle that still owns threads joins them a second time if it was called
before; and a handle that was moved from keeps its work object until it is destroyed or `joinAll` is called on it.

* `joinThreads_spec`: how the loop of `joinAll` ends.
* `Spoiled`: what cannot be made good again; every step keeps it (`Spoiled.step`), and a careless step brings it
  about (`spoiled_of_careless`).
* `Good`: what holds as long as the steps are careful; the threads are in the custody of the handles.
-/

namespace CoAwait.IoContextThreads

open Runs Table Custody

/-! ## The loop -/

section Loop

variable {busy : Nat → Bool} {held : Bool} {ts : List Thread} {t : Thread} {joins : List Join}

/-- A thread that is joinable and whose context is not busy is joined. -/
theorem joinThreads_cons (hj : joinedIn joins t = false) (hb : busy t.ioc = false) :
    joinThreads busy held (t :: ts) joins = joinThreads busy held ts (joins ++ [⟨t, true, false, held⟩]) := by
  simp [joinThreads, hj, hb]

/-- The calls are appended to the log. A loop that does not end has met a thread that was joined before, or one that
cannot be joined yet. -/
theorem joinThreads_spec (busy : Nat → Bool) (held : Bool) (ts : List Thread) (joins : List Join) :
    ∃ new, (joinThreads busy held ts joins).1 = joins ++ new ∧
    ((joinThreads busy held ts joins).2 = .threw → ∃ join ∈ new, join.joinable = false) ∧
    ((joinThreads busy held ts joins).2 = .blocked → ∃ t ∈ ts, joinedIn (joins ++ new) t = false) := by
  induction ts generalizing joins with
  | nil => exact ⟨[], by simp [joinThreads], by simp [joinThreads], by simp [joinThreads]⟩
  | cons t ts ih =>
    by_cases hj : joinedIn joins t = true
    · exact ⟨[⟨t, false, busy t.ioc, held⟩], by simp [joinThreads, hj], by simp, by simp [joinThreads, hj]⟩
    · by_cases hb : busy t.ioc = true
      · refine ⟨[⟨t, true, true, held⟩], by simp [joinThreads, hj, hb], by simp [joinThreads, hj, hb], fun _ => ?_⟩
        exact ⟨t, by simp, by simpa [joinedIn, Join.returned] using hj⟩
      · obtain ⟨new, h1, h2, h3⟩ := ih (joins ++ [⟨t, true, false, held⟩])
        rw [joinThreads_cons (by simpa using hj) (by simpa using hb)]
        refine ⟨⟨t, true, false, held⟩ :: new, by simpa using h1, fun hthrew => ?_, fun hblocked => ?_⟩
        · obtain ⟨join, hmem, hfalse⟩ := h2 hthrew
          exact ⟨join, List.mem_cons_of_mem _ hmem, hfalse⟩
        · obtain ⟨t', hmem, hnot⟩ := h3 hblocked
          exact ⟨t', List.mem_cons_of_mem _ hmem, by simpa using hnot⟩

/-- A loop that ends has joined all threads, none of which was joined before or is kept by a busy context. -/
theorem joinThreads_returned (h : (joinThreads busy held ts joins).2 = .returned) :
    (∀ t ∈ ts, joinedIn joins t = false ∧ busy t.ioc = false) ∧
      ∀ t, joinedIn joins t = true ∨ t ∈ ts → joinedIn (joinThreads busy held ts joins).1 t = true := by
  induction ts generalizing joins with
  | nil => exact ⟨by simp, by simp [joinThreads]⟩
  | cons t ts ih =>
    by_cases hj : joinedIn joins t = true
    · simp [joinThreads, hj] at h
    · by_cases hb : busy t.ioc = true
      · simp [joinThreads, hj, hb] at h
      · rw [joinThreads_cons (by simpa using hj) (by simpa using hb)] at h ⊢
        obtain ⟨hall, hjoined⟩ := ih h
        have hmono : ∀ t',
            joinedIn (joins ++ [⟨t, true, false, held⟩]) t' = true ↔ joinedIn joins t' = true ∨ t' = t := by
          intro t'
          simp [joinedIn, Join.returned, eq_comm (a := t)]
        refine ⟨fun t' ht' => ?_, fun t' ht' => hjoined t' ?_⟩
        · rcases List.mem_cons.1 ht' with rfl | ht'
          · exact ⟨by simpa using hj, by simpa using hb⟩
          · obtain ⟨hnot, hfree⟩ := hall t' ht'
            refine ⟨Bool.eq_false_iff.2 fun he => ?_, hfree⟩
            rw [(hmono t').2 (.inl he)] at hnot
            cases hnot
        · rw [hmono, List.mem_cons] at *
          tauto

/-- Threads that were not joined before, and that no busy context keeps, are joined. -/
theorem joinThreads_all (hnd : ts.Nodup) (hnot : ∀ t ∈ ts, joinedIn joins t = false)
    (hfree : ∀ t ∈ ts, busy t.ioc = false) :
    joinThreads busy held ts joins = (joins ++ ts.map fun t => ⟨t, true, false, held⟩, .returned) := by
  induction ts generalizing joins with
  | nil => simp [joinThreads]
  | cons t ts ih =>
    obtain ⟨hn, hnd⟩ := List.nodup_cons.1 hnd
    rw [joinThreads_cons (hnot t (by simp)) (hfree t (by simp)),
      ih hnd (fun t' ht' => ?_) fun t' ht' => hfree t' (List.mem_cons_of_mem _ ht')]
    · simp
    · have hne : t ≠ t' := fun he => hn (he ▸ ht')
      simpa [joinedIn, hne] using hnot t' (List.mem_cons_of_mem _ ht')

end Loop

/-! ## Steps -/

section

variable {s s' : State} {act : Act} {h h' : Nat} {a a' : Handle} {t : Thread} {joins : List Join} {ioc : Nat}
  {as : List Act}

theorem get_of_look (hl : look id s.handles h = some a) : s.handles[h]? = some (some a) := by
  obtain ⟨r, hr, hra⟩ := exists_of_look hl
  rw [hr]
  exact congrArg some hra

theorem mem_handles : some a ∈ s.handles ↔ ∃ h, look id s.handles h = some a := by
  rw [List.mem_iff_getElem?]
  refine exists_congr fun h => ⟨fun hg => look_of_get hg, get_of_look⟩

theorem busy_iff : s.busy ioc = true ↔ ∃ h a, look id s.handles h = some a ∧ a.mIosWork = some ioc := by
  simp only [State.busy, List.any_eq_true, Option.any_eq_true, decide_eq_true_eq]
  constructor
  · rintro ⟨_, hmem, a, rfl, ha⟩
    obtain ⟨h, hl⟩ := mem_handles.1 hmem
    exact ⟨h, a, hl, ha⟩
  · rintro ⟨h, a, hl, ha⟩
    exact ⟨_, mem_handles.2 ⟨h, hl⟩, a, rfl, ha⟩

theorem held_iff {c : Construction} :
    s.held c = true ↔ ∃ h a, look id s.handles h = some a ∧ a.construction = c ∧ a.mIosWork.isSome = true := by
  simp only [State.held, List.any_eq_true, Option.any_eq_true, Bool.and_eq_true, decide_eq_true_eq]
  constructor
  · rintro ⟨_, hmem, a, rfl, ha⟩
    obtain ⟨h, hl⟩ := mem_handles.1 hmem
    exact ⟨h, a, hl, ha⟩
  · rintro ⟨h, a, hl, ha⟩
    exact ⟨_, mem_handles.2 ⟨h, hl⟩, a, rfl, ha⟩

/-- The handles and the log after `joinAll`. -/
theorem look_joinAll (hl : look id s.handles h = some a) :
    look id (s.joinAll h a).1.handles = Function.update (look id s.handles) h (some { a with mIosWork := none }) :=
  look_set (get_of_look hl)

/-- The handles after the destructor. -/
theorem look_destroy (hl : look id s.handles h = some a) :
    look id ((s.joinAll h a).1.handles.set h none) = Function.update (look id s.handles) h none := by
  have hget : (s.joinAll h a).1.handles[h]? = some (some { a with mIosWork := none }) :=
    get_of_look (by rw [look_joinAll hl, Function.update_self])
  rw [look_set hget, look_joinAll hl, Function.update_idem]
  rfl

/-- The handles after a move. -/
theorem look_move (hl : look id s.handles h = some a) :
    look id (s.handles.set h (some { a with mThreads := [] }) ++ [some a]) =
      Function.update (Function.update (look id s.handles) h (some { a with mThreads := [] })) s.handles.length
        (some a) := by
  rw [look_append, look_set (get_of_look hl), List.length_set]
  rfl

theorem joinAll_spec : ∃ new, (s.joinAll h a).1.joins = s.joins ++ new ∧
    ((s.joinAll h a).2 = .threw → ∃ join ∈ new, join.joinable = false) ∧
    ((s.joinAll h a).2 = .blocked → ∃ t ∈ a.mThreads, joinedIn (s.joinAll h a).1.joins t = false) := by
  let s₁ : State := { s with handles := s.handles.set h (some { a with mIosWork := none }) }
  obtain ⟨new, h1, h2, h3⟩ := joinThreads_spec s₁.busy (s₁.held a.construction) a.mThreads s.joins
  refine ⟨new, h1, h2, fun hb => ?_⟩
  obtain ⟨t, ht, hn⟩ := h3 hb
  exact ⟨t, ht, by rw [← h1] at hn; exact hn⟩

/-- What an action needs and what it changes. -/
theorem step_cases (hst : step s act = some s') : s.status = .running ∧
    ((∃ cnt ioc, act = .construct cnt ioc ∧
      s' = { s with handles := s.handles ++ [some ⟨some ioc, newThreads s cnt ioc, ⟨s.handles.length, ioc⟩⟩],
                    started := s.started ++ newThreads s cnt ioc }) ∨
    (∃ h a, act = .move h ∧ look id s.handles h = some a ∧
      s' = { s with handles := s.handles.set h (some { a with mThreads := [] }) ++ [some a] }) ∨
    (∃ h a, act = .joinAll h ∧ look id s.handles h = some a ∧
      ((s.joinAll h a).2 ≠ .blocked ∧ s' = (s.joinAll h a).1 ∨
        (s.joinAll h a).2 = .blocked ∧ s' = { (s.joinAll h a).1 with status := .blocked })) ∨
    ∃ h a, act = .destroy h ∧ look id s.handles h = some a ∧
      ((s.joinAll h a).2 = .returned ∧ s' = { (s.joinAll h a).1 with handles := (s.joinAll h a).1.handles.set h none } ∨
        (s.joinAll h a).2 = .threw ∧ s' = { (s.joinAll h a).1 with status := .terminated } ∨
        (s.joinAll h a).2 = .blocked ∧ s' = { (s.joinAll h a).1 with status := .blocked })) := by
  unfold step at hst
  by_cases hrun : s.status = .running
  · rw [if_pos hrun] at hst
    refine ⟨hrun, ?_⟩
    cases act with
    | construct cnt ioc => exact .inl ⟨cnt, ioc, rfl, (Option.some.inj hst).symm⟩
    | move h =>
      obtain ⟨a, hl, he⟩ := Option.map_eq_some_iff.1 hst
      exact .inr (.inl ⟨h, a, rfl, hl, he.symm⟩)
    | joinAll h =>
      obtain ⟨a, hl, he⟩ := Option.map_eq_some_iff.1 hst
      refine .inr (.inr (.inl ⟨h, a, rfl, hl, ?_⟩))
      rcases hr : s.joinAll h a with ⟨r, out⟩
      rw [hr] at he
      cases out with
      | returned => exact .inl ⟨by simp, he.symm⟩
      | threw => exact .inl ⟨by simp, he.symm⟩
      | blocked => exact .inr ⟨rfl, he.symm⟩
    | destroy h =>
      obtain ⟨a, hl, he⟩ := Option.map_eq_some_iff.1 hst
      refine .inr (.inr (.inr ⟨h, a, rfl, hl, ?_⟩))
      rcases hr : s.joinAll h a with ⟨r, out⟩
      rw [hr] at he
      cases out with
      | returned => exact .inl ⟨rfl, he.symm⟩
      | threw => exact .inr (.inl ⟨rfl, he.symm⟩)
      | blocked => exact .inr (.inr ⟨rfl, he.symm⟩)
  · rw [if_neg hrun] at hst
    cases hst

/-! ## What holds in every run -/

/-- A handle's work is for the context of its construction, which its threads run. -/
structure Consistent (s : State) : Prop where
  work : ∀ h a ioc, look id s.handles h = some a → a.mIosWork = some ioc → ioc = a.construction.ioc
  threads : ∀ h a t, look id s.handles h = some a → t ∈ a.mThreads → t.ioc = a.construction.ioc ∧ t ∈ s.started

/-- `a'` has nothing that `a` had not. -/
structure Handle.Within (a' a : Handle) : Prop where
  construction : a'.construction = a.construction
  work : ∀ ioc, a'.mIosWork = some ioc → a.mIosWork = some ioc
  threads : ∀ t ∈ a'.mThreads, t ∈ a.mThreads

/-- A handle whose work is reset, or whose threads were moved out, has less than before. -/
theorem Handle.within_reset : Handle.Within { a with mIosWork := none } a := ⟨rfl, by simp, fun _ ht => ht⟩

theorem Handle.within_moved : Handle.Within { a with mThreads := [] } a := ⟨rfl, fun _ hi => hi, by simp⟩

theorem Handle.Within.refl : Handle.Within a a := ⟨rfl, fun _ hi => hi, fun _ ht => ht⟩

theorem Consistent.within (hc : Consistent s) (hstarted : s'.started = s.started)
    (hwithin : ∀ h' a', look id s'.handles h' = some a' → ∃ h a, look id s.handles h = some a ∧ a'.Within a) :
    Consistent s' := by
  refine ⟨fun h' a' ioc hl hi => ?_, fun h' a' t hl ht => ?_⟩
  · obtain ⟨h, a, hla, hw⟩ := hwithin h' a' hl
    rw [hw.construction]
    exact hc.work h a ioc hla (hw.work ioc hi)
  · obtain ⟨h, a, hla, hw⟩ := hwithin h' a' hl
    rw [hw.construction, hstarted]
    exact hc.threads h a t hla (hw.threads t ht)

/-- After `joinAll`, every handle is within what it was. -/
theorem within_joinAll (hl : look id s.handles h = some a) (h' : Nat) (a' : Handle)
    (hl' : look id (s.joinAll h a).1.handles h' = some a') :
    ∃ h₀ a₀, look id s.handles h₀ = some a₀ ∧ a'.Within a₀ := by
  rw [look_joinAll hl] at hl'
  by_cases hh : h' = h
  · rw [hh, Function.update_self] at hl'
    exact ⟨h, a, hl, Option.some.inj hl' ▸ Handle.within_reset⟩
  · rw [Function.update_of_ne hh] at hl'
    exact ⟨h', a', hl', .refl⟩

theorem consistent_step (hc : Consistent s) (hst : step s act = some s') : Consistent s' := by
  obtain ⟨-, ⟨cnt, ioc, rfl, rfl⟩ | ⟨h, a, rfl, hl, rfl⟩ | ⟨h, a, rfl, hl, hend⟩ | ⟨h, a, rfl, hl, hend⟩⟩ :=
    step_cases hst
  · refine ⟨fun h' a' ioc' hl' hi => ?_, fun h' a' t hl' ht => ?_⟩
    · rcases of_look_append hl' with ⟨-, hl'⟩ | hl'
      · obtain rfl := Option.some.inj hl'
        exact (Option.some.inj hi).symm
      · exact hc.work h' a' ioc' hl' hi
    · rcases of_look_append hl' with ⟨-, hl'⟩ | hl'
      · obtain rfl := Option.some.inj hl'
        obtain ⟨i, -, rfl⟩ := List.mem_map.1 ht
        exact ⟨rfl, List.mem_append_right _ ht⟩
      · obtain ⟨h1, h2⟩ := hc.threads h' a' t hl' ht
        exact ⟨h1, List.mem_append_left _ h2⟩
  · refine hc.within rfl fun h' a' hl' => ?_
    rw [look_move hl] at hl'
    by_cases hlen : h' = s.handles.length
    · rw [hlen, Function.update_self] at hl'
      exact ⟨h, a, hl, Option.some.inj hl' ▸ .refl⟩
    · rw [Function.update_of_ne hlen] at hl'
      by_cases hh : h' = h
      · rw [hh, Function.update_self] at hl'
        exact ⟨h, a, hl, Option.some.inj hl' ▸ Handle.within_moved⟩
      · rw [Function.update_of_ne hh] at hl'
        exact ⟨h', a', hl', .refl⟩
  · rcases hend with ⟨-, rfl⟩ | ⟨-, rfl⟩
    · exact hc.within rfl (within_joinAll hl)
    · exact hc.within rfl (within_joinAll hl)
  · rcases hend with ⟨-, rfl⟩ | ⟨-, rfl⟩ | ⟨-, rfl⟩
    · refine hc.within rfl fun h' a' hl' => ?_
      rw [look_destroy hl] at hl'
      by_cases hh : h' = h
      · rw [hh, Function.update_self] at hl'
        cases hl'
      · rw [Function.update_of_ne hh] at hl'
        exact ⟨h', a', hl', .refl⟩
    · exact hc.within rfl (within_joinAll hl)
    · exact hc.within rfl (within_joinAll hl)

theorem consistent_run (hrun : Run step anyStep init as s) : Consistent s := by
  induction hrun with
  | nil => exact ⟨fun _ _ _ hl => (by cases hl), fun _ _ _ hl => (by cases hl)⟩
  | snoc _ _ hst ih => exact consistent_step ih hst

/-- Where a run cannot go on, the log shows it. -/
structure Halted (s : State) : Prop where
  terminated : s.status = .terminated → ∃ join ∈ s.joins, join.joinable = false
  blocked : s.status = .blocked → ∃ t ∈ s.started, joinedIn s.joins t = false

theorem unjoinable_of_threw (hthrew : (s.joinAll h a).2 = .threw) :
    ∃ join ∈ (s.joinAll h a).1.joins, join.joinable = false := by
  obtain ⟨new, h1, h2, -⟩ := joinAll_spec (s := s) (h := h) (a := a)
  obtain ⟨join, hmem, hfalse⟩ := h2 hthrew
  exact ⟨join, by rw [h1]; exact List.mem_append_right _ hmem, hfalse⟩

theorem unjoined_of_blocked (hc : Consistent s) (hl : look id s.handles h = some a)
    (hblocked : (s.joinAll h a).2 = .blocked) : ∃ t ∈ s.started, joinedIn (s.joinAll h a).1.joins t = false := by
  obtain ⟨new, -, -, h3⟩ := joinAll_spec (s := s) (h := h) (a := a)
  obtain ⟨t, ht, hn⟩ := h3 hblocked
  exact ⟨t, (hc.threads h a t hl ht).2, hn⟩

theorem halted_step (hc : Consistent s) (hst : step s act = some s') : Halted s' := by
  have hrunning : ∀ {r : State}, r.status = .running → Halted r := fun hr =>
    ⟨fun hs => (by rw [hr] at hs; cases hs), fun hs => (by rw [hr] at hs; cases hs)⟩
  obtain ⟨hrun, ⟨cnt, ioc, rfl, rfl⟩ | ⟨h, a, rfl, hl, rfl⟩ | ⟨h, a, rfl, hl, hend⟩ | ⟨h, a, rfl, hl, hend⟩⟩ :=
    step_cases hst
  · exact hrunning hrun
  · exact hrunning hrun
  · rcases hend with ⟨-, rfl⟩ | ⟨hb, rfl⟩
    · exact hrunning hrun
    · exact ⟨fun hs => (by cases hs), fun _ => unjoined_of_blocked hc hl hb⟩
  · rcases hend with ⟨-, rfl⟩ | ⟨ht, rfl⟩ | ⟨hb, rfl⟩
    · exact hrunning hrun
    · exact ⟨fun _ => unjoinable_of_threw ht, fun hs => (by cases hs)⟩
    · exact ⟨fun hs => (by cases hs), fun _ => unjoined_of_blocked hc hl hb⟩

theorem halted_run (hrun : Run step anyStep init as s) : Halted s := by
  cases hrun with
  | nil => exact ⟨fun hs => (by cases hs), fun hs => (by cases hs)⟩
  | snoc hpre _ hst => exact halted_step (consistent_run hpre) hst

/-- A sound run has not been cut short. -/
theorem Sound.running (hs : Sound s) (hh : Halted s) : s.status = .running := by
  cases hstatus : s.status with
  | running => rfl
  | terminated =>
    obtain ⟨join, hmem, hfalse⟩ := hh.terminated hstatus
    rw [hs.joinable join hmem] at hfalse
    cases hfalse
  | blocked =>
    obtain ⟨t, ht, hn⟩ := hh.blocked hstatus
    have hpos : 0 < s.joins.countP fun join => join.thread = t && join.returned := by rw [hs.once t ht]; omega
    have hany : joinedIn s.joins t = true := List.any_eq_true.2 (List.countP_pos_iff.1 hpos)
    rw [hn] at hany
    cases hany

/-! ## A careless step is not made good again -/

/-- No call has thrown or blocked so far. -/
structure Clean (s : State) : Prop where
  running : s.status = .running
  joinable : ∀ join ∈ s.joins, join.joinable = true

/-- A thread that has been joined is still owned: a later destructor joins it again. -/
def Spoiled (s : State) : Prop :=
  ∃ h a t, look id s.handles h = some a ∧ t ∈ a.mThreads ∧ joinedIn s.joins t = true

theorem Clean.before {new : List Join} (h : Clean s') (hrun : s.status = .running)
    (hjoins : s'.joins = s.joins ++ new) : Clean s :=
  ⟨hrun, fun join hmem => h.joinable join (by rw [hjoins]; exact List.mem_append_left _ hmem)⟩

/-- In a clean run `joinAll` returns. -/
theorem clean_cases (hclean : Clean s') (hst : step s act = some s') : Clean s ∧
    ((∃ cnt ioc, act = .construct cnt ioc ∧
      s' = { s with handles := s.handles ++ [some ⟨some ioc, newThreads s cnt ioc, ⟨s.handles.length, ioc⟩⟩],
                    started := s.started ++ newThreads s cnt ioc }) ∨
    (∃ h a, act = .move h ∧ look id s.handles h = some a ∧
      s' = { s with handles := s.handles.set h (some { a with mThreads := [] }) ++ [some a] }) ∨
    (∃ h a, act = .joinAll h ∧ look id s.handles h = some a ∧ (s.joinAll h a).2 = .returned ∧
      s' = (s.joinAll h a).1) ∨
    ∃ h a, act = .destroy h ∧ look id s.handles h = some a ∧ (s.joinAll h a).2 = .returned ∧
      s' = { (s.joinAll h a).1 with handles := (s.joinAll h a).1.handles.set h none }) := by
  have hthrew : ∀ h a, s'.joins = (s.joinAll h a).1.joins → (s.joinAll h a).2 ≠ .threw := by
    intro h a hj ht
    obtain ⟨join, hmem, hfalse⟩ := unjoinable_of_threw ht
    rw [hclean.joinable join (hj ▸ hmem)] at hfalse
    cases hfalse
  have hbefore : ∀ h a, s.status = .running → s'.joins = (s.joinAll h a).1.joins → Clean s := by
    intro h a hrun hj
    obtain ⟨new, h1, -⟩ := joinAll_spec (s := s) (h := h) (a := a)
    exact hclean.before hrun (hj.trans h1)
  have hblocked : s'.status ≠ .blocked := by rw [hclean.running]; simp
  obtain ⟨hrun, hact | hact | ⟨h, a, rfl, hl, hend⟩ | ⟨h, a, rfl, hl, hend⟩⟩ := step_cases hst
  · refine ⟨?_, .inl hact⟩
    obtain ⟨cnt, ioc, -, rfl⟩ := hact
    exact ⟨hrun, hclean.joinable⟩
  · refine ⟨?_, .inr (.inl hact)⟩
    obtain ⟨h, a, -, -, rfl⟩ := hact
    exact ⟨hrun, hclean.joinable⟩
  · rcases hend with ⟨hb, rfl⟩ | ⟨-, rfl⟩
    · have ht := hthrew h a rfl
      refine ⟨hbefore h a hrun rfl, .inr (.inr (.inl ⟨h, a, rfl, hl, ?_, rfl⟩))⟩
      cases hout : (s.joinAll h a).2 with
      | returned => rfl
      | threw => exact absurd hout ht
      | blocked => exact absurd hout hb
    · exact absurd rfl hblocked
  · rcases hend with ⟨hr, rfl⟩ | ⟨ht, rfl⟩ | ⟨-, rfl⟩
    · exact ⟨hbefore h a hrun rfl, .inr (.inr (.inr ⟨h, a, rfl, hl, hr, rfl⟩))⟩
    · exact absurd ht (hthrew h a rfl)
    · exact absurd rfl hblocked

/-- A `joinAll` that returns finds its threads joinable, and no other handle that keeps their context busy. -/
theorem joinAll_returned (hl : look id s.handles h = some a) (hr : (s.joinAll h a).2 = .returned) :
    (∀ t ∈ a.mThreads, joinedIn s.joins t = false) ∧
    (∀ t ∈ a.mThreads, ∀ h' a', h' ≠ h → look id s.handles h' = some a' → a'.mIosWork ≠ some t.ioc) ∧
    ∀ t, joinedIn s.joins t = true ∨ t ∈ a.mThreads → joinedIn (s.joinAll h a).1.joins t = true := by
  obtain ⟨hall, hjoined⟩ := joinThreads_returned hr
  refine ⟨fun t ht => (hall t ht).1, fun t ht h' a' hne hl' hwork => ?_, hjoined⟩
  have hbusy : State.busy { s with handles := s.handles.set h (some { a with mIosWork := none }) } t.ioc = true := by
    refine busy_iff.2 ⟨h', a', ?_, hwork⟩
    rw [look_set (get_of_look hl), Function.update_of_ne hne]
    exact hl'
  have hfree := (hall t ht).2
  rw [hbusy] at hfree
  cases hfree

theorem Spoiled.step (hs : Spoiled s) (hclean : Clean s') (hst : step s act = some s') : Spoiled s' := by
  obtain ⟨h₀, a₀, t, hl₀, ht, hj⟩ := hs
  obtain ⟨-, ⟨cnt, ioc, rfl, rfl⟩ | ⟨h, a, rfl, hl, rfl⟩ | ⟨h, a, rfl, hl, hr, rfl⟩ | ⟨h, a, rfl, hl, hr, rfl⟩⟩ :=
    clean_cases hclean hst
  · refine ⟨h₀, a₀, t, ?_, ht, hj⟩
    rw [look_append, Function.update_of_ne (lt_of_look hl₀).ne]
    exact hl₀
  · by_cases hh : h₀ = h
    · subst hh
      obtain rfl : a₀ = a := Option.some.inj (hl₀.symm.trans hl)
      exact ⟨s.handles.length, a₀, t, by rw [look_move hl, Function.update_self], ht, hj⟩
    · refine ⟨h₀, a₀, t, ?_, ht, hj⟩
      rw [look_move hl, Function.update_of_ne (lt_of_look hl₀).ne, Function.update_of_ne hh]
      exact hl₀
  all_goals
    obtain ⟨hnot, -, hjoined⟩ := joinAll_returned hl hr
    have hh : h₀ ≠ h := by
      rintro rfl
      obtain rfl : a₀ = a := Option.some.inj (hl₀.symm.trans hl)
      rw [hnot t ht] at hj
      cases hj
    refine ⟨h₀, a₀, t, ?_, ht, hjoined t (.inl hj)⟩
  · rw [look_joinAll hl, Function.update_of_ne hh]
    exact hl₀
  · rw [look_destroy hl, Function.update_of_ne hh]
    exact hl₀

theorem spoiled_of_careless (hclean : Clean s') (hst : step s act = some s') (hcareless : ¬careful s act) :
    Spoiled s' := by
  obtain ⟨-, ⟨cnt, ioc, rfl, rfl⟩ | ⟨h, a, rfl, hl, rfl⟩ | ⟨h, a, rfl, hl, hr, rfl⟩ | ⟨h, a, rfl, hl, hr, rfl⟩⟩ :=
    clean_cases hclean hst
  · exact absurd trivial hcareless
  · exact absurd trivial hcareless
  · obtain ⟨-, -, hjoined⟩ := joinAll_returned hl hr
    rcases hts : a.mThreads with _ | ⟨t, ts⟩
    · refine absurd (fun a' hl' => ?_) hcareless
      rw [← Option.some.inj (hl.symm.trans hl'), hts]
    · refine ⟨h, { a with mIosWork := none }, t, ?_, by simp [hts], hjoined t (.inr (by simp [hts]))⟩
      rw [look_joinAll hl, Function.update_self]
  · obtain ⟨-, hfree, -⟩ := joinAll_returned hl hr
    refine absurd (fun a' hl' t ht h' b hne hb => ?_) hcareless
    obtain rfl : a = a' := Option.some.inj (hl.symm.trans hl')
    exact hfree t ht h' b hne hb

theorem careful_or_spoiled (hrun : Run step anyStep init as s) (hclean : Clean s) :
    Run step careful init as s ∨ Spoiled s := by
  induction hrun with
  | nil => exact .inl (.nil _)
  | @snoc s s' as act _ _ hst ih =>
    rcases ih (clean_cases hclean hst).1 with hcareful | hspoiled
    · by_cases hact : careful s act
      · exact .inl (hcareful.snoc hact hst)
      · exact .inr (spoiled_of_careless hclean hst hact)
    · exact .inr (hspoiled.step hclean hst)

/-! ## Careful runs -/

def threadsOf : Option Handle → List Thread
  | some a => a.mThreads
  | none => []

/-- The threads that the handles own. -/
def owned (s : State) : List Thread := s.handles.flatMap threadsOf

structure Good (s : State) : Prop where
  running : s.status = .running
  calls : ∀ join ∈ s.joins, join.joinable = true ∧ join.busy = false ∧ join.held = false
  numbered : s.started.map Thread.id = List.range s.started.length
  book : Accounted (s.started : Multiset Thread) (s.joins.map Join.thread : List Thread) 0 (owned s : List Thread)

theorem Good.nodup (hg : Good s) : ((s.started : Multiset Thread).map id).Nodup := by
  rw [Multiset.map_id, Multiset.coe_nodup]
  exact List.Nodup.of_map Thread.id (hg.numbered ▸ List.nodup_range)

theorem owned_perm (hl : look id s.handles h = some a) :
    (owned s).Perm (a.mThreads ++ (s.handles.eraseIdx h).flatMap threadsOf) :=
  flatMap_perm threadsOf (get_of_look hl)

theorem mem_owned (hl : look id s.handles h = some a) (ht : t ∈ a.mThreads) : t ∈ owned s :=
  List.mem_flatMap.2 ⟨some a, mem_handles.2 ⟨h, hl⟩, ht⟩

/-- The threads of a handle are different and have not been joined. -/
theorem Good.joinable (hg : Good s) (hl : look id s.handles h = some a) :
    a.mThreads.Nodup ∧ ∀ t ∈ a.mThreads, joinedIn s.joins t = false := by
  constructor
  · have hnd := hg.book.held_nodup hg.nodup
    rw [Multiset.map_id, Multiset.coe_nodup, (owned_perm hl).nodup_iff] at hnd
    exact (List.nodup_append.1 hnd).1
  · intro t ht
    by_contra hj
    obtain ⟨join, hmem, hjoin⟩ := List.any_eq_true.1 (Bool.not_eq_false _ ▸ hj : joinedIn s.joins t = true)
    have hthread : join.thread = t := by
      simp only [Bool.and_eq_true, decide_eq_true_eq] at hjoin
      exact hjoin.1
    exact hg.book.disposed_ne_held hg.nodup (x := t) (y := t)
      (Multiset.mem_coe.2 (List.mem_map.2 ⟨join, hmem, hthread⟩)) (mem_owned hl ht) rfl

/-- A careful destructor finds neither its context busy nor a work object of the construction. -/
theorem joinAll_careful (hc : Consistent s) (hg : Good s) (hl : look id s.handles h = some a)
    (hfree : ∀ t ∈ a.mThreads, ∀ h' a', h' ≠ h → look id s.handles h' = some a' → a'.mIosWork ≠ some t.ioc) :
    (s.joinAll h a).2 = .returned ∧
      (s.joinAll h a).1.joins = s.joins ++ a.mThreads.map fun t => ⟨t, true, false, false⟩ := by
  let s₁ : State := { s with handles := s.handles.set h (some { a with mIosWork := none }) }
  have hother : ∀ h' a', look id s₁.handles h' = some a' → a'.mIosWork.isSome = true →
      h' ≠ h ∧ look id s.handles h' = some a' := by
    intro h' a' hl' hwork
    rw [look_set (get_of_look hl)] at hl'
    by_cases hh : h' = h
    · rw [hh, Function.update_self] at hl'
      rw [← Option.some.inj hl'] at hwork
      cases hwork
    · rw [Function.update_of_ne hh] at hl'
      exact ⟨hh, hl'⟩
  have hbusy : ∀ t ∈ a.mThreads, s₁.busy t.ioc = false := by
    intro t ht
    by_contra hb
    obtain ⟨h', a', hl', hwork⟩ := busy_iff.1 (Bool.not_eq_false _ ▸ hb : s₁.busy t.ioc = true)
    obtain ⟨hne, hl'⟩ := hother h' a' hl' (by rw [hwork]; rfl)
    exact hfree t ht h' a' hne hl' hwork
  have hheld : ∀ t ∈ a.mThreads, s₁.held a.construction = false := by
    intro t ht
    by_contra hb
    obtain ⟨h', a', hl', hcons, hwork⟩ := held_iff.1 (Bool.not_eq_false _ ▸ hb : s₁.held a.construction = true)
    obtain ⟨hne, hl'⟩ := hother h' a' hl' hwork
    obtain ⟨ioc, hioc⟩ := Option.isSome_iff_exists.1 hwork
    refine hfree t ht h' a' hne hl' ?_
    rw [hioc, hc.work h' a' ioc hl' hioc, hcons, (hc.threads h a t hl ht).1]
  obtain ⟨hnd, hnot⟩ := hg.joinable hl
  have hall : joinThreads s₁.busy (s₁.held a.construction) a.mThreads s.joins = _ := joinThreads_all hnd hnot hbusy
  refine ⟨congrArg Prod.snd hall, (congrArg Prod.fst hall).trans ?_⟩
  exact congrArg (s.joins ++ ·) (List.map_congr_left fun t ht => by rw [hheld t ht])

theorem good_step (hc : Consistent s) (hg : Good s) (hcareful : careful s act) (hst : step s act = some s') :
    Good s' := by
  obtain ⟨-, ⟨cnt, ioc, rfl, rfl⟩ | ⟨h, a, rfl, hl, rfl⟩ | ⟨h, a, rfl, hl, hend⟩ | ⟨h, a, rfl, hl, hend⟩⟩ :=
    step_cases hst
  · refine ⟨hg.running, hg.calls, ?_, ?_⟩
    · rw [List.map_append, hg.numbered, newThreads, List.map_map, List.length_append, List.length_map,
        List.length_range, List.range_add]
      rfl
    · have hheld : ((0 : Multiset Thread) + (owned s ++ newThreads s cnt ioc : List Thread)) =
          (newThreads s cnt ioc : List Thread) + (owned s : List Thread) := by
        rw [zero_add, Multiset.coe_add]
        exact Multiset.coe_eq_coe.2 List.perm_append_comm
      have hbook := hg.book.dispose hheld
      rw [Multiset.coe_add, add_zero] at hbook
      simpa [owned, threadsOf] using hbook
  · refine ⟨hg.running, hg.calls, hg.numbered, ?_⟩
    have hperm : (owned s).Perm ((s.handles.set h (some { a with mThreads := [] }) ++ [some a]).flatMap threadsOf) := by
      have hset := flatMap_set_perm threadsOf (some { a with mThreads := [] }) (get_of_look hl)
      rw [List.flatMap_append]
      refine (owned_perm hl).trans (List.perm_append_comm.trans ?_)
      simpa [threadsOf] using hset.symm.append_right a.mThreads
    rw [owned, ← Multiset.coe_eq_coe.2 hperm]
    exact hg.book
  · have hnone : a.mThreads = [] := hcareful a hl
    obtain ⟨hr, hjoins⟩ := joinAll_careful hc hg hl (by simp [hnone])
    rw [hnone, List.map_nil, List.append_nil] at hjoins
    have hperm : (owned s).Perm (owned (s.joinAll h a).1) := by
      have hset := flatMap_set_perm threadsOf (some { a with mIosWork := none }) (get_of_look hl)
      exact (owned_perm hl).trans hset.symm
    rcases hend with ⟨-, rfl⟩ | ⟨hb, -⟩
    · refine ⟨hg.running, by rw [hjoins]; exact hg.calls, hg.numbered, ?_⟩
      rw [hjoins, ← Multiset.coe_eq_coe.2 hperm]
      exact hg.book
    · rw [hr] at hb
      cases hb
  · obtain ⟨hr, hjoins⟩ := joinAll_careful hc hg hl (hcareful a hl)
    rcases hend with ⟨-, rfl⟩ | ⟨ht, -⟩ | ⟨hb, -⟩
    · refine ⟨hg.running, fun join hmem => ?_, hg.numbered, ?_⟩
      · rw [show _ = s.joins ++ _ from hjoins] at hmem
        rcases List.mem_append.1 hmem with hmem | hmem
        · exact hg.calls join hmem
        · obtain ⟨t, -, rfl⟩ := List.mem_map.1 hmem
          exact ⟨rfl, rfl, rfl⟩
      · have hset := flatMap_set_perm threadsOf none (get_of_look hl)
        have hheld : (a.mThreads : Multiset Thread) + ((s.handles.set h none).flatMap threadsOf : List Thread) =
            0 + (owned s : List Thread) := by
          rw [zero_add, Multiset.coe_add]
          exact Multiset.coe_eq_coe.2 ((hset.append_left _).trans (owned_perm hl).symm)
        have hlog : (s.joinAll h a).1.joins.map Join.thread = s.joins.map Join.thread ++ a.mThreads := by
          rw [hjoins]
          simp [Function.comp_def]
        have howned : (s.joinAll h a).1.handles.set h none = s.handles.set h none := by simp [State.joinAll]
        have hbook := hg.book.dispose hheld
        rw [Multiset.coe_add, add_zero, ← hlog, ← howned] at hbook
        exact hbook
    · rw [hr] at ht
      cases ht
    · rw [hr] at hb
      cases hb

theorem good_run (hrun : Run step careful init as s) : Good s := by
  induction hrun with
  | nil => exact ⟨rfl, by simp [init], rfl, by simp [owned, init, Accounted]⟩
  | snoc hpre hok hst ih => exact good_step (consistent_run (hpre.mono fun _ _ _ => trivial)) ih hok hst

/-- **When the threads are joined.** At the end of a run every thread has been joined once, no other `join` was called
and no work object of the construction existed, exactly if `joinAll` was never called on a handle that owned threads
and no such handle was destroyed while another one kept the context busy. -/
theorem sound_iff_careful (hrun : Run step anyStep init as s) (hend : Ended s) :
    Sound s ↔ Run step careful init as s := by
  constructor
  · intro hs
    have hstatus := hs.running (halted_run hrun)
    rcases careful_or_spoiled hrun ⟨hstatus, hs.joinable⟩ with hcareful | ⟨h, a, t, hl, -, -⟩
    · exact hcareful
    · rcases hend with hstopped | hnone
      · exact absurd hstatus hstopped
      · exact absurd (hnone _ (mem_handles.2 ⟨h, hl⟩)) (by simp)
  · intro hcareful
    have hg := good_run hcareful
    refine ⟨fun t ht => ?_, fun join hmem => (hg.calls join hmem).1, fun join hmem => (hg.calls join hmem).2.2⟩
    have hnone : ∀ h ∈ s.handles, h = none := hend.resolve_left fun hstopped => hstopped hg.running
    have howned : owned s = [] := List.flatMap_eq_nil_iff.2 fun h hmem => by rw [hnone h hmem]; rfl
    have hperm : s.started.Perm (s.joins.map Join.thread) := by
      have hbook := hg.book
      rw [howned, Accounted, add_zero, Multiset.coe_nil, add_zero] at hbook
      exact Multiset.coe_eq_coe.1 hbook
    have hnd : s.started.Nodup := by simpa using hg.nodup
    have hcount : (s.joins.map Join.thread).count t = 1 := by
      rw [← hperm.count_eq]
      exact List.count_eq_one_of_mem hnd ht
    rw [List.count, List.countP_map] at hcount
    rw [← hcount]
    refine List.countP_congr fun join hmem => ?_
    obtain ⟨hj, hb, -⟩ := hg.calls join hmem
    simp [Join.returned, hj, hb]

end

/-- A handle is moved, and the one it was moved from goes first. -/
theorem sound_moved : ∃ s, Run step careful init [.construct 2 0, .move 0, .destroy 0, .destroy 1] s ∧
    s.started.length = 2 ∧ Sound s := by
  have hrun := exec_get_run step careful init [.construct 2 0, .move 0, .destroy 0, .destroy 1] (by decide)
  exact ⟨_, hrun, by decide, (sound_iff_careful (hrun.mono fun _ _ _ => trivial) (.inr (by decide))).2 hrun⟩

/-- `joinAll` is called, and the destructor joins the thread a second time. -/
theorem joinAll_then_destroyed : ∃ s, Run step anyStep init [.construct 1 0, .joinAll 0, .destroy 0] s ∧ Ended s ∧
    ¬Sound s := by
  have hrun := exec_get_run step anyStep init [.construct 1 0, .joinAll 0, .destroy 0] (by decide)
  refine ⟨_, hrun, .inl (by decide), fun h => ?_⟩
  exact absurd (h.joinable ⟨⟨0, 0⟩, false, false, false⟩ (by decide)) (by decide)

end CoAwait.IoContextThreads
