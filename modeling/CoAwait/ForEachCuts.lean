import CoAwait.ForEachSplit

/-!
# `forEach` on a random-access range: the chunks (`foreach.hpp:57-91`)

In any run, whatever `func` and the iterators do.

* `Handout`: what an observer records: the iterators of each round of the loop over `coros`, and the positions that
  each worker gives to `func`.
* `Cut`: each round cuts `[chunkStart k, chunkStart (k + 1))`, and worker `k` goes through it from the left.
* `Tail.Ended`: without an exception `forEach` returns only after all rounds, and after all workers have finished.
* `partition_exact`: the main result.
-/

namespace CoAwait.ForEach

variable {E : Type}

/-- `forEach` is on its way to return normally. -/
def Tail.normal : Tail E → Bool
  | awaiting _ | destroying _ none | returned none => true
  | _ => false

end CoAwait.ForEach

namespace CoAwait.ForEach.Chunks

open Runs Table Chunking

variable {T E : Type} {c : Config T} {s s' : State T E} {w : Nat} {p : Worker E}

/-! ## The record -/

structure Handout where
  /-- `begin` and `end` after each round of the loop. -/
  cuts : List (Nat × Nat) := []
  /-- The positions that each worker gave to `func`. -/
  given : Nat → List Nat := fun _ => []

def Handout.record (h : Handout) (s : State T E) (a : Act T E) (s' : State T E) : Handout :=
  match a with
  | .caller .create => { h with cuts := h.cuts ++ [(s.last, s'.last)] }
  | .worker w .call =>
    match s.workers[w]? with
    | some (.iterating itr _) => { h with given := Function.update h.given w (h.given w ++ [itr]) }
    | _ => h
  | _ => h

/-! ## The invariant -/

/-- The worker has given the first elements of `[lo, hi)` to `func`. -/
def Worker.GoneTo (lo hi : Nat) (given : List Nat) (noError : Prop) : Worker E → Prop
  | iterating itr last => last = hi ∧ itr = lo + given.length ∧ itr ≤ hi
  | running itr last | suspended itr last => last = hi ∧ itr + 1 = lo + given.length ∧ itr < hi
  | failed _ => lo + given.length ≤ hi
  | leaving | finished => lo + given.length ≤ hi ∧ (noError → lo + given.length = hi)

structure Cut (c : Config T) (h : Handout) (s : State T E) : Prop where
  size : s.elements.length = c.range.length
  before : s.coroCnt = 0 → s.workers = [] ∧ s.last = 0
  entering : s.caller = .entering → s.coroCnt = 0
  creating : s.caller = .creating → s.coroCnt ≠ 0
  count : s.coroCnt ≠ 0 → s.coroCnt = min c.maxParallelity s.elements.length
  items : s.coroCnt ≠ 0 → s.itemsPerCoro = s.elements.length / s.coroCnt
  remaining : s.coroCnt ≠ 0 → s.remaining = s.elements.length % s.coroCnt - s.workers.length
  last : s.coroCnt ≠ 0 → s.last = s.start s.workers.length
  bound : s.workers.length ≤ s.coroCnt
  cuts : h.cuts = (List.range s.workers.length).map fun k => (s.start k, s.start (k + 1))
  order : ∀ w, h.given w = List.range' (s.start w) (h.given w).length
  nobody : ∀ w, s.workers.length ≤ w → h.given w = []
  gone : ∀ (w : Nat) p, s.workers[w]? = some p →
    p.GoneTo (s.start w) (s.start (w + 1)) (h.given w) (s.firstError = none)
  tail : ∀ t, s.caller = .tail t → t.normal = true → t.Sound (s.workers.map Worker.isFinished) (· = s.firstError) ∧
    s.workers.length = s.coroCnt ∧ s.coroCnt ≠ 0

theorem cut_init (c : Config T) : Cut c {} (init c : State T E) where
  size := rfl
  before := fun _ => ⟨rfl, rfl⟩
  entering := fun _ => rfl
  creating := nofun
  count := fun hne => absurd rfl hne
  items := fun hne => absurd rfl hne
  remaining := fun hne => absurd rfl hne
  last := fun hne => absurd rfl hne
  bound := Nat.le_refl 0
  cuts := rfl
  order := fun _ => rfl
  nobody := fun _ _ => rfl
  gone := fun w p hw => by simp [init] at hw
  tail := nofun

/-! ## Steps -/

variable {h h' : Handout}

theorem Tail.normal_next {ended : List Bool} {firstError : Option E} {t t' : Tail E}
    (ht : t.next ended firstError = some t') (hn : t'.normal = true) : t.normal = true := by
  cases t with
  | awaiting j => rfl
  | destroying j error =>
    cases error with
    | none => rfl
    | some e =>
      simp only [Tail.next] at ht
      split at ht <;>
      · obtain rfl := Option.some.inj ht
        cases hn
  | returned error => cases ht
  | terminated => cases ht

theorem CallerStep.keeps_cut {a : CallerAct E} (hcut : Cut c h s) (hst : CallerStep c s a s') :
    Cut c (h.record s (.caller a) s') s' := by
  cases hst with
  | @split coroCnt hc hcnt hpos =>
    obtain ⟨hnil, hlast⟩ := hcut.before (hcut.entering hc)
    have hnone : ∀ w, h.given w = [] := fun w => hcut.nobody w (by simp [hnil])
    exact {
      size := hcut.size
      before := fun he => absurd he hpos
      entering := nofun
      creating := fun _ => hpos
      count := fun _ => hcnt
      items := fun _ => rfl
      remaining := fun _ => by simp [hnil]
      last := by
        intro _
        show s.last = chunkStart s.elements.length coroCnt s.workers.length
        rw [hlast, hnil]
        exact chunkStart_zero.symm
      bound := by simp [hnil]
      cuts := by
        show h.cuts = _
        rw [hcut.cuts, hnil]
        rfl
      order := by
        intro w
        show h.given w = List.range' _ (h.given w).length
        rw [hnone w]
        rfl
      nobody := fun w _ => hnone w
      gone := fun w p hw => by simp [hnil] at hw
      tail := nofun }
  | @create last hc hlen hlast =>
    have hne : s.coroCnt ≠ 0 := hcut.creating hc
    have hstart : last = s.start (s.workers.length + 1) := by
      rw [hlast, hcut.last hne, hcut.items hne, hcut.remaining hne]
      exact chunkStart_succ.symm
    exact {
      size := hcut.size
      before := fun he => absurd he hne
      entering := fun he => by simp [hc] at he
      creating := fun _ => hne
      count := hcut.count
      items := hcut.items
      remaining := by
        intro _
        show s.remaining - 1 = _
        rw [hcut.remaining hne, List.length_append, Nat.sub_sub]
        rfl
      last := by
        intro _
        show last = s.start (s.workers ++ [Worker.iterating s.last last]).length
        rw [List.length_append]
        exact hstart
      bound := by
        rw [List.length_append]
        exact hlen
      cuts := by
        show h.cuts ++ [(s.last, last)] = (List.range (s.workers ++ [Worker.iterating s.last last]).length).map _
        rw [List.length_append, List.length_singleton, List.range_succ, List.map_append, hcut.cuts, hstart,
          hcut.last hne]
        rfl
      order := hcut.order
      nobody := fun w hw => hcut.nobody w (by
        rw [List.length_append] at hw
        omega)
      gone := by
        intro w p hw
        rcases get_concat_iff.1 hw with hw | ⟨rfl, rfl⟩
        · exact hcut.gone w p hw
        · have hnone : h.given s.workers.length = [] := hcut.nobody _ (Nat.le_refl _)
          show Worker.GoneTo (s.start _) (s.start _) (h.given s.workers.length) _ _
          rw [hnone]
          refine ⟨hstart, hcut.last hne, ?_⟩
          rw [hcut.last hne]
          exact chunkStart_mono (Nat.le_succ _)
      tail := fun t ht => by simp [hc] at ht }
  | created hc hlen =>
    exact { hcut with
      entering := nofun
      creating := nofun
      tail := by
        intro t ht _
        cases ht
        exact ⟨fun i hi => absurd hi (Nat.not_lt_zero i), Nat.le_antisymm hcut.bound hlen, hcut.creating hc⟩ }
  | rangeThrow =>
    exact { hcut with
      entering := nofun
      creating := nofun
      tail := by
        intro t ht hn
        cases ht
        cases hn }
  | tail hc hnext =>
    exact { hcut with
      entering := nofun
      creating := nofun
      tail := by
        intro t ht hn
        cases ht
        obtain ⟨hsound, hfull⟩ := hcut.tail _ hc (Tail.normal_next hnext hn)
        exact ⟨hsound.next rfl hnext, hfull⟩ }

theorem Worker.GoneTo.mono {lo hi : Nat} {given : List Nat} {noError noError' : Prop} (hle : noError' → noError)
    (hp : p.GoneTo lo hi given noError) : p.GoneTo lo hi given noError' := by
  cases p with
  | leaving => exact ⟨hp.1, fun hn => hp.2 (hle hn)⟩
  | finished => exact ⟨hp.1, fun hn => hp.2 (hle hn)⟩
  | _ => exact hp

/-- Worker `w` moves. -/
theorem Cut.move {p' : Worker E} (hcut : Cut c h s) (hw : s.workers[w]? = some p) (hnot : p.isFinished = false)
    (hworkers : s'.workers = s.workers.set w p') (hcaller : s'.caller = s.caller)
    (hlen : s'.elements.length = s.elements.length) (hcnt : s'.coroCnt = s.coroCnt)
    (hitems : s'.itemsPerCoro = s.itemsPerCoro) (hrem : s'.remaining = s.remaining) (hlast : s'.last = s.last)
    (herr : s'.firstError = none → s.firstError = none) (hcuts : h'.cuts = h.cuts)
    (hothers : ∀ w', w' ≠ w → h'.given w' = h.given w')
    (horder : h'.given w = List.range' (s.start w) (h'.given w).length)
    (hgone : p'.GoneTo (s.start w) (s.start (w + 1)) (h'.given w) (s'.firstError = none)) : Cut c h' s' := by
  have hstart : s'.start = s.start := by
    funext k
    rw [State.start, hlen, hcnt]
    rfl
  have hlength : s'.workers.length = s.workers.length := by rw [hworkers, List.length_set]
  have hwlt : w < s.workers.length := (List.getElem?_eq_some_iff.1 hw).1
  exact {
    size := hlen.trans hcut.size
    before := by
      rw [hcnt, hlast]
      intro hz
      rw [(hcut.before hz).1] at hwlt
      exact absurd hwlt (Nat.not_lt_zero w)
    entering := by
      rw [hcaller, hcnt]
      exact hcut.entering
    creating := by
      rw [hcaller, hcnt]
      exact hcut.creating
    count := by
      rw [hcnt, hlen]
      exact hcut.count
    items := by
      rw [hitems, hlen, hcnt]
      exact hcut.items
    remaining := by
      rw [hrem, hlen, hcnt, hlength]
      exact hcut.remaining
    last := by
      rw [hcnt, hlast, hstart, hlength]
      exact hcut.last
    bound := by
      rw [hlength, hcnt]
      exact hcut.bound
    cuts := by
      rw [hcuts, hlength, hstart]
      exact hcut.cuts
    order := by
      intro w'
      rw [hstart]
      by_cases hww : w' = w
      · subst hww
        exact horder
      · rw [hothers w' hww]
        exact hcut.order w'
    nobody := by
      intro w' hw'
      rw [hlength] at hw'
      rw [hothers w' (by omega)]
      exact hcut.nobody w' hw'
    gone := by
      intro w' q hq
      rw [hstart]
      rw [hworkers] at hq
      rcases (get_set_iff hw).1 hq with ⟨rfl, rfl⟩ | ⟨hne, hq⟩
      · exact hgone
      · rw [hothers w' hne]
        exact (hcut.gone w' q hq).mono herr
    tail := by
      intro t ht hn
      rw [hcaller] at ht
      obtain ⟨hsound, hfull⟩ := hcut.tail t ht hn
      rw [hworkers, List.length_set, hcnt]
      exact ⟨hsound.set hw hnot, hfull⟩ }

theorem WorkerStep.keeps_cut {a : WorkerAct T E} (hcut : Cut c h s) (hw : s.workers[w]? = some p)
    (hst : WorkerStep s w p a s') : Cut c (h.record s (.worker w a) s') s' := by
  have hgone := hcut.gone w p hw
  have hord := hcut.order w
  cases hst with
  | @call itr last x hne hx =>
    obtain ⟨hlast, hitr, hle⟩ := hgone
    have hrec : h.record s (.worker w .call) { s.place w (.running itr last) with calls := s.calls ++ [(itr, x)] } =
        { h with given := Function.update h.given w (h.given w ++ [itr]) } := by
      simp only [Handout.record, hw]
    rw [hrec]
    refine hcut.move hw rfl rfl rfl rfl rfl rfl rfl rfl id rfl (fun w' hww => Function.update_of_ne hww ..) ?_ ?_
    · simp only [Function.update_self, List.length_append, List.length_singleton, List.range'_1_concat]
      rw [← hord, ← hitr]
    · simp only [Function.update_self, Worker.GoneTo, List.length_append, List.length_singleton]
      omega
  | funcSuspend | funcResume =>
    exact hcut.move hw rfl rfl rfl rfl rfl rfl rfl rfl id rfl (fun _ _ => rfl) hord hgone
  | funcReturn =>
    obtain ⟨hlast, hitr, hlt⟩ := hgone
    exact hcut.move hw rfl rfl rfl (List.length_set ..) rfl rfl rfl rfl id rfl (fun _ _ => rfl) hord
      ⟨hlast, hitr, hlt⟩
  | funcThrow =>
    obtain ⟨hlast, hitr, hlt⟩ := hgone
    refine hcut.move hw rfl rfl rfl rfl rfl rfl rfl rfl id rfl (fun _ _ => rfl) hord ?_
    show s.start w + (h.given w).length ≤ s.start (w + 1)
    omega
  | rangeThrow =>
    obtain ⟨hlast, hitr, hle⟩ := hgone
    refine hcut.move hw rfl rfl rfl rfl rfl rfl rfl rfl id rfl (fun _ _ => rfl) hord ?_
    show s.start w + (h.given w).length ≤ s.start (w + 1)
    omega
  | loopEnd =>
    obtain ⟨hlast, hitr, hle⟩ := hgone
    refine hcut.move hw rfl rfl rfl rfl rfl rfl rfl rfl id rfl (fun _ _ => rfl) hord ⟨?_, fun _ => ?_⟩
    · show s.start w + (h.given w).length ≤ s.start (w + 1)
      omega
    · show s.start w + (h.given w).length = s.start (w + 1)
      omega
  | @handleError e =>
    have hsome : (if s.firstError.isSome then s.firstError else some e) ≠ none := by
      cases s.firstError <;> simp
    exact hcut.move hw rfl rfl rfl rfl rfl rfl rfl rfl (fun hn => absurd hn hsome) rfl (fun _ _ => rfl) hord
      ⟨hgone, fun hn => absurd hn hsome⟩
  | finish =>
    exact hcut.move hw rfl rfl rfl rfl rfl rfl rfl rfl id rfl (fun _ _ => rfl) hord hgone

theorem step_cut {a : Act T E} (hcut : Cut c h s) (hst : step c s a = some s') : Cut c (h.record s a s') s' := by
  cases step_cases hst with
  | caller hfree hcs => exact hcs.keeps_cut hcut
  | worker hw hws => exact hws.keeps_cut hcut hw

/-- What is recorded of the run `as` of `forEach`. -/
def handout (c : Config T) (as : List (Act T E)) : Handout := history (step c) Handout.record {} (init c) as

theorem cut_run {ok : State T E → Act T E → Prop} {as : List (Act T E)} (hrun : Run (step c) ok (init c) as s) :
    Cut c (handout c as) s :=
  hrun.history_invariant (cut_init c) fun _ _ _ _ hI _ hst => step_cut hI hst

/-! ## Results -/

theorem Cut.tiles (hcut : Cut c h s) : Tiles 0 h.cuts s.last := by
  by_cases hz : s.coroCnt = 0
  · obtain ⟨hnil, hlast⟩ := hcut.before hz
    rw [hcut.cuts, hnil, hlast]
    rfl
  · rw [hcut.cuts, hcut.last hz]
    have hcnt := hcut.count hz
    exact tiles_chunks (Nat.pos_of_ne_zero hz) (by omega) _

theorem Cut.get (hcut : Cut c h s) {x : Nat × Nat} (hx : h.cuts[w]? = some x) :
    w < s.workers.length ∧ x = (s.start w, s.start (w + 1)) := by
  rw [hcut.cuts, List.getElem?_map] at hx
  obtain ⟨k, hk, rfl⟩ := Option.map_eq_some_iff.1 hx
  obtain ⟨hlt, rfl⟩ := List.getElem?_eq_some_iff.1 hk
  rw [List.length_range] at hlt
  rw [List.getElem_range]
  exact ⟨hlt, rfl⟩

/-- The worker stays in its chunk. -/
theorem Cut.given_lt (hcut : Cut c h s) {i : Nat} (hi : i ∈ h.given w) :
    w < s.workers.length ∧ s.start w ≤ i ∧ i < s.start (w + 1) := by
  have hw : w < s.workers.length := by
    by_contra hge
    rw [hcut.nobody w (Nat.le_of_not_lt hge)] at hi
    cases hi
  have hgone := hcut.gone w _ (List.getElem?_eq_getElem hw)
  have hle : s.start w + (h.given w).length ≤ s.start (w + 1) := by
    generalize s.workers[w] = q at hgone
    cases q <;> simp only [Worker.GoneTo] at hgone <;> omega
  rw [hcut.order w, List.mem_range'_1] at hi
  omega

theorem Cut.given_all (hcut : Cut c h s) (hc : s.caller = .tail (.returned none)) {i : Nat} (hi : i < c.range.length) :
    ∃ w, i ∈ h.given w := by
  obtain ⟨⟨hall, hnone⟩, hlen, hne⟩ := hcut.tail _ hc rfl
  rw [← hcut.size] at hi
  obtain ⟨w, hw, hlo, hhi⟩ := exists_chunk (Nat.pos_of_ne_zero hne) hi
  rw [← hlen] at hw
  have hgone := hcut.gone w _ (List.getElem?_eq_getElem hw)
  have hfin : s.workers[w].isFinished = true := hall _ (List.mem_map_of_mem (List.getElem_mem hw))
  refine ⟨w, ?_⟩
  rw [hcut.order w, List.mem_range'_1]
  generalize s.workers[w] = q at hgone hfin
  cases q with
  | finished =>
    have hfull := hgone.2 hnone.symm
    exact ⟨hlo, hfull ▸ hhi⟩
  | _ => cases hfin

/-- **The random-access branch partitions the range exactly.** In every run, the chunks that the loop over `coros` has
cut fill the range from its begin to the variable `end`, from left to right and without an empty one, the lengths of two
of them differ by at most one, and there is one for each worker. When the loop is left, there are
`min(maxParallelity, s)`, `end` is `s` and `remaining` is 0. Each worker gives the elements of its chunk to `func`, each
once and from left to right, none of them is given by two workers, and each is given when `forEach` has returned
without an exception. -/
theorem partition_exact {ok : State T E → Act T E → Prop} {as : List (Act T E)}
    (hrun : Run (step c) ok (init c) as s) :
    (Tiles 0 (handout c as).cuts s.last ∧ s.last ≤ c.range.length ∧ (handout c as).cuts.length = s.workers.length) ∧
    (∀ x ∈ (handout c as).cuts, ∀ y ∈ (handout c as).cuts, x.2 - x.1 ≤ y.2 - y.1 + 1) ∧
    (∀ t, step c s (.caller .created) = some t →
      (handout c as).cuts.length = min c.maxParallelity c.range.length ∧ s.last = c.range.length ∧ s.remaining = 0) ∧
    (∀ (w : Nat) x, (handout c as).cuts[w]? = some x →
      (handout c as).given w = List.range' x.1 ((handout c as).given w).length ∧
      x.1 + ((handout c as).given w).length ≤ x.2) ∧
    (∀ i w w', i ∈ (handout c as).given w → i ∈ (handout c as).given w' → w = w') ∧
    (s.caller = .tail (.returned none) → ∀ i, i < c.range.length → ∃ w, i ∈ (handout c as).given w) := by
  have hcut := cut_run hrun
  refine ⟨⟨hcut.tiles, ?_, ?_⟩, ?_, ?_, ?_, ?_, fun hc i hi => hcut.given_all hc hi⟩
  · by_cases hz : s.coroCnt = 0
    · rw [(hcut.before hz).2]
      exact Nat.zero_le _
    · rw [hcut.last hz, ← hcut.size]
      exact chunkStart_le (Nat.pos_of_ne_zero hz) hcut.bound
  · rw [hcut.cuts, List.length_map, List.length_range]
  · intro x hx y hy
    rw [hcut.cuts] at hx hy
    obtain ⟨j, -, rfl⟩ := List.mem_map.1 hx
    obtain ⟨k, -, rfl⟩ := List.mem_map.1 hy
    exact chunk_balanced
  · intro t ht
    cases step_cases ht with
    | caller hfree hcs =>
      cases hcs with
      | created hc hlen =>
        have hne := hcut.creating hc
        have hfull : s.workers.length = s.coroCnt := Nat.le_antisymm hcut.bound hlen
        refine ⟨?_, ?_, ?_⟩
        · rw [hcut.cuts, List.length_map, List.length_range, hfull, hcut.count hne, hcut.size]
        · rw [hcut.last hne, hfull, ← hcut.size]
          exact chunkStart_all (Nat.pos_of_ne_zero hne)
        · have hmod := Nat.mod_lt s.elements.length (Nat.pos_of_ne_zero hne)
          rw [hcut.remaining hne, hfull]
          omega
  · intro w x hx
    obtain ⟨hw, rfl⟩ := hcut.get hx
    refine ⟨hcut.order w, ?_⟩
    have hgone := hcut.gone w _ (List.getElem?_eq_getElem hw)
    generalize s.workers[w] = q at hgone
    cases q <;> simp only [Worker.GoneTo] at hgone <;> omega
  · intro i w w' hi hi'
    obtain ⟨-, hlo, hhi⟩ := hcut.given_lt hi
    obtain ⟨-, hlo', hhi'⟩ := hcut.given_lt hi'
    exact chunk_unique hlo hhi hlo' hhi'

/-- Five elements in two chunks; the second worker is done before the first one has begun its last element. -/
def fiveElements : Config Nat := ⟨2, Nat.two_pos, [5, 6, 7, 8, 9], true⟩

def cutSchedule : List (Act Nat Nat) :=
  List.flatten [
    [.caller .split, .caller .create, .worker 0 .call, .worker 0 (.funcReturn 0), .worker 0 .call],
    [.worker 0 .funcSuspend, .caller .create, .worker 1 .call, .worker 1 (.funcReturn 0), .worker 1 .call],
    [.worker 1 (.funcReturn 0), .worker 1 .loopEnd, .worker 1 .finish, .caller .created, .worker 0 .funcResume],
    [.worker 0 (.funcReturn 0), .worker 0 .call, .worker 0 (.funcReturn 0), .worker 0 .loopEnd, .worker 0 .finish],
    List.replicate 6 (.caller .tail)]

theorem partition_exact_five :
    (∃ s : State Nat Nat, Run (step fiveElements) anyStep (init fiveElements) cutSchedule s) ∧
    (handout fiveElements cutSchedule).cuts = [(0, 3), (3, 5)] ∧
    ∀ i, i < 5 → ∃ w, i ∈ (handout fiveElements cutSchedule).given w := by
  have hrun := exec_get_run (step fiveElements) anyStep (init fiveElements : State Nat Nat) cutSchedule (by decide)
  exact ⟨⟨_, hrun⟩, by decide, (partition_exact hrun).2.2.2.2.2 (by decide)⟩

end CoAwait.ForEach.Chunks
