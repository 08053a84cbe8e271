import CoAwait.Chunking
import CoAwait.ForEachTeardown

/-!
# `forEach` on a random-access range: every element is in one chunk

For the runs in which nothing throws and `func` replaces each element `x` by `f x` (`calm`).

* `Split`: the loop over `coros` computes `chunkStart`, and each worker is in its chunk.
* `Passed`: what `func` was called with and what it has changed is what the workers have passed.
-/

namespace CoAwait.ForEach.Chunks

open Runs Table Chunking

variable {T E : Type} {c : Config T} {s s' : State T E} {w : Nat} {p : Worker E} {f : T → T}

/-! ## The chunks -/

/-- Where chunk `k` begins. -/
def State.start (s : State T E) (k : Nat) : Nat := chunkStart s.elements.length s.coroCnt k

/-- The worker is in its chunk `[lo, hi)`. -/
def Worker.InChunk (lo hi : Nat) : Worker E → Prop
  | iterating itr last => last = hi ∧ lo ≤ itr ∧ itr ≤ hi
  | running itr last | suspended itr last => last = hi ∧ lo ≤ itr ∧ itr < hi
  | failed _ => False
  | leaving | finished => True

structure Split (c : Config T) (s : State T E) : Prop where
  size : s.elements.length = c.range.length
  entering : s.caller = .entering → s.workers = [] ∧ s.last = 0
  count : s.caller ≠ .entering → 0 < s.coroCnt ∧ s.coroCnt = min c.maxParallelity s.elements.length
  items : s.caller ≠ .entering → s.itemsPerCoro = s.elements.length / s.coroCnt
  remaining : s.caller ≠ .entering → s.remaining = s.elements.length % s.coroCnt - s.workers.length
  last : s.caller ≠ .entering → s.last = s.start s.workers.length
  bound : s.workers.length ≤ s.coroCnt
  full : ∀ t, s.caller = .tail t → s.workers.length = s.coroCnt
  inChunk : ∀ (w : Nat) p, s.workers[w]? = some p → p.InChunk (s.start w) (s.start (w + 1))

theorem split_init (c : Config T) : Split c (init c : State T E) where
  size := rfl
  entering := fun _ => ⟨rfl, rfl⟩
  count := fun h => absurd rfl h
  items := fun h => absurd rfl h
  remaining := fun h => absurd rfl h
  last := fun h => absurd rfl h
  bound := Nat.le_refl 0
  full := nofun
  inChunk := fun w p hw => by simp [init] at hw

theorem Split.le_size (h : Split c s) (hc : s.caller ≠ .entering) {k : Nat} (hk : k ≤ s.coroCnt) :
    s.start k ≤ s.elements.length :=
  chunkStart_le (h.count hc).1 hk

theorem CallerStep.keeps_split {a : CallerAct E} (h : Split c s) (hok : calm f s (.caller a))
    (hst : CallerStep c s a s') : Split c s' := by
  cases hst with
  | @split coroCnt hc hcnt hpos =>
    obtain ⟨hnil, hlast⟩ := h.entering hc
    exact {
      size := h.size
      entering := nofun
      count := fun _ => ⟨Nat.pos_of_ne_zero hpos, hcnt⟩
      items := fun _ => rfl
      remaining := fun _ => by simp [hnil]
      last := by
        intro _
        show s.last = chunkStart s.elements.length coroCnt s.workers.length
        rw [hlast, hnil]
        exact chunkStart_zero.symm
      bound := by simp [hnil]
      full := nofun
      inChunk := fun w p hw => by simp [hnil] at hw }
  | @create last hc hlen hlast =>
    have hne : s.caller ≠ .entering := by simp [hc]
    have hstart : last = s.start (s.workers.length + 1) := by
      rw [hlast, h.last hne, h.items hne, h.remaining hne]
      exact chunkStart_succ.symm
    exact {
      size := h.size
      entering := fun he => absurd he hne
      count := fun _ => h.count hne
      items := fun _ => h.items hne
      remaining := by
        intro _
        show s.remaining - 1 = _
        rw [h.remaining hne, List.length_append, Nat.sub_sub]
        rfl
      last := by
        intro _
        show last = s.start (s.workers ++ [Worker.iterating s.last last]).length
        rw [List.length_append]
        exact hstart
      bound := by
        rw [List.length_append]
        exact hlen
      full := fun t ht => by simp [hc] at ht
      inChunk := by
        intro w p hw
        rcases get_concat_iff.1 hw with hw | ⟨rfl, rfl⟩
        · exact h.inChunk w p hw
        · refine ⟨hstart, (h.last hne).ge, ?_⟩
          rw [h.last hne]
          exact chunkStart_mono (Nat.le_succ _) }
  | created hc hlen =>
    have hne : s.caller ≠ .entering := by simp [hc]
    exact { h with
      entering := nofun
      count := fun _ => h.count hne
      items := fun _ => h.items hne
      remaining := fun _ => h.remaining hne
      last := fun _ => h.last hne
      full := fun _ _ => Nat.le_antisymm h.bound hlen }
  | rangeThrow => exact absurd hok id
  | tail hc ht =>
    have hne : s.caller ≠ .entering := by simp [hc]
    exact { h with
      entering := nofun
      count := fun _ => h.count hne
      items := fun _ => h.items hne
      remaining := fun _ => h.remaining hne
      last := fun _ => h.last hne
      full := fun _ _ => h.full _ hc }

/-- One worker moves within its chunk. -/
theorem Split.move (h : Split c s) {p' : Worker E} (hw : s.workers[w]? = some p)
    (hworkers : s'.workers = s.workers.set w p') (hcaller : s'.caller = s.caller)
    (hlen : s'.elements.length = s.elements.length) (hcnt : s'.coroCnt = s.coroCnt)
    (hitems : s'.itemsPerCoro = s.itemsPerCoro) (hrem : s'.remaining = s.remaining) (hlast : s'.last = s.last)
    (hin : p'.InChunk (s.start w) (s.start (w + 1))) : Split c s' := by
  have hstart : s'.start = s.start := by
    funext k
    rw [State.start, hlen, hcnt]
    rfl
  have hlength : s'.workers.length = s.workers.length := by rw [hworkers, List.length_set]
  exact {
    size := hlen.trans h.size
    entering := by
      intro he
      rw [hcaller] at he
      rw [(h.entering he).1] at hw
      simp at hw
    count := by
      rw [hcaller, hcnt, hlen]
      exact h.count
    items := by
      rw [hcaller, hitems, hlen, hcnt]
      exact h.items
    remaining := by
      rw [hcaller, hrem, hlen, hcnt, hlength]
      exact h.remaining
    last := by
      rw [hcaller, hlast, hstart, hlength]
      exact h.last
    bound := by
      rw [hlength, hcnt]
      exact h.bound
    full := by
      rw [hcaller, hlength, hcnt]
      exact h.full
    inChunk := by
      intro w' q hq
      rw [hstart]
      rw [hworkers] at hq
      rcases (get_set_iff hw).1 hq with ⟨rfl, rfl⟩ | ⟨-, hq⟩
      · exact hin
      · exact h.inChunk w' q hq }

theorem WorkerStep.keeps_split {a : WorkerAct T E} (h : Split c s) (hw : s.workers[w]? = some p)
    (hok : calm f s (.worker w a)) (hst : WorkerStep s w p a s') : Split c s' := by
  have hin := h.inChunk w p hw
  cases hst with
  | call hne hx =>
    exact h.move hw rfl rfl rfl rfl rfl rfl rfl ⟨hin.1, hin.2.1, Nat.lt_of_le_of_ne hin.2.2 (hin.1 ▸ hne)⟩
  | funcSuspend | funcResume => exact h.move hw rfl rfl rfl rfl rfl rfl rfl hin
  | funcReturn =>
    exact h.move hw rfl rfl (List.length_set ..) rfl rfl rfl rfl ⟨hin.1, Nat.le_succ_of_le hin.2.1, hin.2.2⟩
  | funcThrow | rangeThrow => exact absurd hok id
  | loopEnd => exact h.move hw rfl rfl rfl rfl rfl rfl rfl trivial
  | handleError => exact absurd hin id
  | finish => exact h.move hw rfl rfl rfl rfl rfl rfl rfl trivial

theorem step_split {a : Act T E} (h : Split c s) (hok : calm f s a) (hst : step c s a = some s') : Split c s' := by
  cases step_cases hst with
  | caller hfree hcs => exact hcs.keeps_split h hok
  | worker hw hws => exact hws.keeps_split h hw hok

/-! ## The elements -/

/-- `func` was called with the elements of the chunk before this one. -/
def Worker.called (hi : Nat) : Worker E → Nat
  | iterating itr _ => itr
  | running itr _ | suspended itr _ => itr + 1
  | failed _ => 0
  | leaving | finished => hi

/-- The calls of `func` have returned for the elements of the chunk before this one. -/
def Worker.changed (hi : Nat) : Worker E → Nat
  | iterating itr _ | running itr _ | suspended itr _ => itr
  | failed _ => 0
  | leaving | finished => hi

/-- Position `i` is one that some worker has passed. -/
def State.Reached (s : State T E) (g : Nat → Worker E → Nat) (i : Nat) : Prop :=
  ∃ (w : Nat) (p : Worker E), s.workers[w]? = some p ∧ s.start w ≤ i ∧ i < g (s.start (w + 1)) p

/-- What `func` was called with and what it has changed. -/
structure Passed (c : Config T) (f : T → T) (s : State T E) : Prop where
  called : ∀ i x, (i, x) ∈ s.calls ↔ c.range[i]? = some x ∧ s.Reached Worker.called i
  once : (s.calls.map Prod.fst).Nodup
  changed : ∀ i, s.Reached Worker.changed i → s.elements[i]? = (c.range[i]?).map f
  untouched : ∀ i, ¬ s.Reached Worker.changed i → s.elements[i]? = c.range[i]?

theorem passed_init (c : Config T) (f : T → T) : Passed c f (init c : State T E) where
  called := fun i x => by simp [init, State.Reached]
  once := List.nodup_nil
  changed := fun i hi => by simp [init, State.Reached] at hi
  untouched := fun _ _ => rfl

/-- The positions that the other workers have passed. -/
def State.ReachedBy (s : State T E) (g : Nat → Worker E → Nat) (i w : Nat) : Prop :=
  ∃ (w' : Nat) (p : Worker E), w' ≠ w ∧ s.workers[w']? = some p ∧ s.start w' ≤ i ∧ i < g (s.start (w' + 1)) p

theorem reached_iff {g : Nat → Worker E → Nat} {i : Nat} (hw : s.workers[w]? = some p) :
    s.Reached g i ↔ s.start w ≤ i ∧ i < g (s.start (w + 1)) p ∨ s.ReachedBy g i w := by
  constructor
  · rintro ⟨w', q, hq, hi⟩
    by_cases hww : w' = w
    · subst hww
      rw [hw] at hq
      cases hq
      exact .inl hi
    · exact .inr ⟨w', q, hww, hq, hi⟩
  · rintro (hi | ⟨w', q, -, hq, hi⟩)
    · exact ⟨w, p, hw, hi⟩
    · exact ⟨w', q, hq, hi⟩

/-- Worker `w` moves. -/
theorem reached_move {g : Nat → Worker E → Nat} {i : Nat} {p' : Worker E} (hw : s.workers[w]? = some p)
    (hworkers : s'.workers = s.workers.set w p') (hstart : s'.start = s.start) :
    s'.Reached g i ↔ s.start w ≤ i ∧ i < g (s.start (w + 1)) p' ∨ s.ReachedBy g i w := by
  have hw' : s'.workers[w]? = some p' := by
    rw [hworkers]
    exact (get_set_iff hw).2 (.inl ⟨rfl, rfl⟩)
  rw [reached_iff hw', hstart]
  refine or_congr_right ⟨?_, ?_⟩
  · rintro ⟨w', q, hne, hq, hi⟩
    rw [hworkers, List.getElem?_set_ne (Ne.symm hne)] at hq
    rw [hstart] at hi
    exact ⟨w', q, hne, hq, hi⟩
  · rintro ⟨w', q, hne, hq, hi⟩
    refine ⟨w', q, hne, ?_, ?_⟩
    · rw [hworkers, List.getElem?_set_ne (Ne.symm hne)]
      exact hq
    · rw [hstart]
      exact hi

/-- In its chunk a worker passes nothing of another one. -/
theorem Split.not_reachedBy (h : Split c s) {g : Nat → Worker E → Nat}
    (hg : ∀ lo hi (q : Worker E), q.InChunk lo hi → g hi q ≤ hi) {i : Nat} (hlo : s.start w ≤ i)
    (hhi : i < s.start (w + 1)) : ¬ s.ReachedBy g i w := by
  rintro ⟨w', q, hne, hq, hlo', hlt⟩
  have hle := hg _ _ q (h.inChunk w' q hq)
  exact hne (chunk_unique hlo' (Nat.lt_of_lt_of_le hlt hle) hlo hhi)

theorem called_le {lo hi : Nat} {q : Worker E} (h : q.InChunk lo hi) : q.called hi ≤ hi := by
  cases q with
  | iterating itr last => exact h.2.2
  | running itr last => exact h.2.2
  | suspended itr last => exact h.2.2
  | failed e => exact Nat.zero_le _
  | leaving => exact Nat.le_refl _
  | finished => exact Nat.le_refl _

theorem changed_le {lo hi : Nat} {q : Worker E} (h : q.InChunk lo hi) : q.changed hi ≤ hi := by
  cases q with
  | iterating itr last => exact h.2.2
  | running itr last => exact Nat.le_of_lt h.2.2
  | suspended itr last => exact Nat.le_of_lt h.2.2
  | failed e => exact Nat.zero_le _
  | leaving => exact Nat.le_refl _
  | finished => exact Nat.le_refl _

theorem reached_same {g : Nat → Worker E → Nat} {i : Nat} {p' : Worker E} (hw : s.workers[w]? = some p)
    (hworkers : s'.workers = s.workers.set w p') (hstart : s'.start = s.start)
    (hsame : g (s.start (w + 1)) p' = g (s.start (w + 1)) p) : s'.Reached g i ↔ s.Reached g i := by
  rw [reached_move hw hworkers hstart, hsame, ← reached_iff hw]

/-- The worker passes one element. -/
theorem reached_pass {g : Nat → Worker E → Nat} {i itr : Nat} {p' : Worker E} (hw : s.workers[w]? = some p)
    (hworkers : s'.workers = s.workers.set w p') (hstart : s'.start = s.start) (hlo : s.start w ≤ itr)
    (hat : g (s.start (w + 1)) p = itr) (hpast : g (s.start (w + 1)) p' = itr + 1) :
    s'.Reached g i ↔ i = itr ∨ s.Reached g i := by
  rw [reached_move hw hworkers hstart, reached_iff hw, hat, hpast, ← or_assoc]
  refine or_congr_left ?_
  omega

/-- The next element of a worker is one that nobody has passed. -/
theorem Split.next_unreached (h : Split c s) {g : Nat → Worker E → Nat}
    (hg : ∀ lo hi (q : Worker E), q.InChunk lo hi → g hi q ≤ hi) {itr : Nat} (hw : s.workers[w]? = some p)
    (hlo : s.start w ≤ itr) (hhi : itr < s.start (w + 1)) (hat : g (s.start (w + 1)) p = itr) : ¬ s.Reached g itr := by
  rw [reached_iff hw, hat]
  rintro (hi | hi)
  · exact absurd hi.2 (Nat.lt_irrefl itr)
  · exact h.not_reachedBy hg hlo hhi hi

/-- A worker moves and passes no element. -/
theorem Passed.move (h : Passed c f s) {p' : Worker E} (hw : s.workers[w]? = some p)
    (hworkers : s'.workers = s.workers.set w p') (hstart : s'.start = s.start)
    (hcalls : s'.calls = s.calls) (helements : s'.elements = s.elements)
    (hcalled : p'.called (s.start (w + 1)) = p.called (s.start (w + 1)))
    (hchanged : p'.changed (s.start (w + 1)) = p.changed (s.start (w + 1))) : Passed c f s' where
  called := by
    intro i x
    rw [hcalls, h.called, reached_same hw hworkers hstart hcalled]
  once := by
    rw [hcalls]
    exact h.once
  changed := by
    intro i hi
    rw [helements]
    exact h.changed i ((reached_same hw hworkers hstart hchanged).1 hi)
  untouched := by
    intro i hi
    rw [helements]
    exact h.untouched i fun hr => hi ((reached_same hw hworkers hstart hchanged).2 hr)

theorem Passed.call (h : Passed c f s) (hsplit : Split c s) {itr last : Nat} {x : T}
    (hw : s.workers[w]? = some (.iterating itr last)) (hne : itr ≠ last) (hx : s.elements[itr]? = some x) :
    Passed c f { s.place w (.running itr last) with calls := s.calls ++ [(itr, x)] } := by
  obtain ⟨hlast, hlo, hle⟩ := hsplit.inChunk w _ hw
  have hhi : itr < s.start (w + 1) := Nat.lt_of_le_of_ne hle (hlast ▸ hne)
  have hfresh : ¬ s.Reached Worker.called itr :=
    hsplit.next_unreached (fun _ _ _ => called_le) hw hlo hhi rfl
  have hold : ¬ s.Reached Worker.changed itr :=
    hsplit.next_unreached (fun _ _ _ => changed_le) hw hlo hhi rfl
  have hrange : c.range[itr]? = some x := by rw [← h.untouched itr hold, hx]
  have hpass : ∀ i, State.Reached { s.place w (.running itr last) with calls := s.calls ++ [(itr, x)] }
      Worker.called i ↔ i = itr ∨ s.Reached Worker.called i := fun i => reached_pass hw rfl rfl hlo rfl rfl
  have hsame : ∀ i, State.Reached { s.place w (.running itr last) with calls := s.calls ++ [(itr, x)] }
      Worker.changed i ↔ s.Reached Worker.changed i := fun i => reached_same hw rfl rfl rfl
  exact {
    called := by
      intro i y
      rw [hpass, List.mem_append, h.called, List.mem_singleton, Prod.mk.injEq]
      constructor
      · rintro (⟨hy, hi⟩ | ⟨rfl, rfl⟩)
        · exact ⟨hy, .inr hi⟩
        · exact ⟨hrange, .inl rfl⟩
      · rintro ⟨hy, rfl | hi⟩
        · rw [hrange] at hy
          exact .inr ⟨rfl, (Option.some.inj hy).symm⟩
        · exact .inl ⟨hy, hi⟩
    once := by
      rw [List.map_append, List.map_singleton, ← List.concat_eq_append]
      refine h.once.concat fun hmem => ?_
      obtain ⟨⟨i, y⟩, hy, rfl⟩ := List.mem_map.1 hmem
      exact hfresh ((h.called i y).1 hy).2
    changed := fun i hi => h.changed i ((hsame i).1 hi)
    untouched := fun i hi => h.untouched i fun hr => hi ((hsame i).2 hr) }

theorem Passed.funcReturn (h : Passed c f s) (hsplit : Split c s) {itr last : Nat} {v : T}
    (hw : s.workers[w]? = some (.running itr last)) (hv : some v = (s.current w).map f) :
    Passed c f { s.place w (.iterating (itr + 1) last) with elements := s.elements.set itr v } := by
  obtain ⟨-, hlo, hlt⟩ := hsplit.inChunk w _ hw
  have hold : ¬ s.Reached Worker.changed itr :=
    hsplit.next_unreached (fun _ _ _ => changed_le) hw hlo (by omega) rfl
  simp only [State.current, hw] at hv
  obtain ⟨x, hx, hfx⟩ := Option.map_eq_some_iff.1 hv.symm
  have hstart :
      State.start { s.place w (.iterating (itr + 1) last) with elements := s.elements.set itr v } = s.start := by
    funext k
    rw [State.start, List.length_set]
    rfl
  have hpass : ∀ i, State.Reached { s.place w (.iterating (itr + 1) last) with elements := s.elements.set itr v }
      Worker.changed i ↔ i = itr ∨ s.Reached Worker.changed i := fun i => reached_pass hw rfl hstart hlo rfl rfl
  have hsame : ∀ i, State.Reached { s.place w (.iterating (itr + 1) last) with elements := s.elements.set itr v }
      Worker.called i ↔ s.Reached Worker.called i := fun i => reached_same hw rfl hstart rfl
  have hlen : itr < s.elements.length := (List.getElem?_eq_some_iff.1 hx).1
  exact {
    called := by
      intro i y
      rw [hsame]
      exact h.called i y
    once := h.once
    changed := by
      intro i hi
      show (s.elements.set itr v)[i]? = _
      by_cases heq : i = itr
      · rw [heq, List.getElem?_set_self hlen, ← h.untouched itr hold, hx, Option.map_some, hfx]
      · rw [List.getElem?_set_ne (Ne.symm heq)]
        exact h.changed i (((hpass i).1 hi).resolve_left heq)
    untouched := by
      intro i hi
      rw [hpass, not_or] at hi
      show (s.elements.set itr v)[i]? = _
      rw [List.getElem?_set_ne (Ne.symm hi.1)]
      exact h.untouched i hi.2 }

theorem WorkerStep.keeps_passed {a : WorkerAct T E} (h : Passed c f s) (hsplit : Split c s)
    (hw : s.workers[w]? = some p) (hok : calm f s (.worker w a)) (hst : WorkerStep s w p a s') : Passed c f s' := by
  have hin := hsplit.inChunk w p hw
  cases hst with
  | call hne hx => exact h.call hsplit hw hne hx
  | funcReturn => exact h.funcReturn hsplit hw hok
  | funcSuspend | funcResume | finish => exact h.move hw rfl rfl rfl rfl rfl rfl
  | loopEnd => exact h.move hw rfl rfl rfl rfl hin.1.symm hin.1.symm
  | funcThrow | rangeThrow => exact absurd hok id
  | handleError => exact absurd hin id

/-- A worker starts at the beginning of its chunk. -/
theorem reached_create {g : Nat → Worker E → Nat} {i : Nat} (hworkers : s'.workers = s.workers ++ [p])
    (hstart : s'.start = s.start) (hat : g (s.start (s.workers.length + 1)) p = s.start s.workers.length) :
    s'.Reached g i ↔ s.Reached g i := by
  unfold State.Reached
  simp only [hworkers, hstart]
  constructor
  · rintro ⟨w, q, hq, hlo, hlt⟩
    rcases get_concat_iff.1 hq with hq | ⟨rfl, rfl⟩
    · exact ⟨w, q, hq, hlo, hlt⟩
    · rw [hat] at hlt
      exact absurd hlt (Nat.not_lt.2 hlo)
  · rintro ⟨w, q, hq, hi⟩
    exact ⟨w, q, get_concat_iff.2 (.inl hq), hi⟩

theorem Passed.congr (h : Passed c f s) (hreached : ∀ g i, (g = Worker.called ∨ g = Worker.changed) →
    (s'.Reached g i ↔ s.Reached g i)) (hcalls : s'.calls = s.calls) (helements : s'.elements = s.elements) :
    Passed c f s' where
  called := by
    intro i x
    rw [hcalls, h.called, hreached _ i (.inl rfl)]
  once := by
    rw [hcalls]
    exact h.once
  changed := by
    intro i hi
    rw [helements]
    exact h.changed i ((hreached _ i (.inr rfl)).1 hi)
  untouched := by
    intro i hi
    rw [helements]
    exact h.untouched i fun hr => hi ((hreached _ i (.inr rfl)).2 hr)

theorem CallerStep.keeps_passed {a : CallerAct E} (h : Passed c f s) (hsplit : Split c s) (hok : calm f s (.caller a))
    (hst : CallerStep c s a s') : Passed c f s' := by
  cases hst with
  | split hc =>
    have hnil := (hsplit.entering hc).1
    exact h.congr (fun g i _ => by simp [State.Reached, hnil]) rfl rfl
  | create hc =>
    have hlast := hsplit.last (by simp [hc])
    refine h.congr (fun g i hg => reached_create rfl rfl ?_) rfl rfl
    rcases hg with rfl | rfl <;> exact hlast
  | created | tail => exact h.congr (fun _ _ _ => Iff.rfl) rfl rfl
  | rangeThrow => exact absurd hok id

theorem step_passed {a : Act T E} (h : Passed c f s) (hsplit : Split c s) (hok : calm f s a)
    (hst : step c s a = some s') : Passed c f s' := by
  cases step_cases hst with
  | caller hfree hcs => exact hcs.keeps_passed h hsplit hok
  | worker hw hws => exact hws.keeps_passed h hsplit hw hok

end CoAwait.ForEach.Chunks
