import CoAwait.ForEachSplit

/-!
# The two branches of `forEach` agree

* `Chunks.goesOn`, `Chunks.measure`: on a random-access range `forEach` returns.
* `Chunks.Passed.returned`: what it has done then.
* `paths_agree`: the main result.

The branches differ in what `func` does to the container: it gets references to the elements of a random-access range,
and copies of the others. On an empty random-access range `s / coroCnt` divides by zero.
-/

namespace CoAwait.ForEach.Chunks

open Runs Table Chunking

variable {T E : Type} {c : Config T} {s s' : State T E} {w : Nat} {p : Worker E} {f : T → T}

/-- Nobody has to wake the worker for it to go on. -/
def Worker.awake : Worker E → Bool
  | suspended _ _ | finished => false
  | _ => true

/-- `forEach` gets to its end in order. -/
structure Orderly (s : State T E) : Prop where
  noError : s.firstError = none
  tail : ∀ t, s.caller = .tail t → t.Sound (s.workers.map Worker.isFinished) (· = none)
  onTop : ∀ w : Nat, s.inlined = some w → ∃ p, s.workers[w]? = some p ∧ p.awake = true

theorem orderly_init (c : Config T) : Orderly (init c : State T E) where
  noError := rfl
  tail := nofun
  onTop := nofun

/-- A worker leaves the stack when it stops being awake. -/
theorem WorkerStep.stack {a : WorkerAct T E} (h : WorkerStep s w p a s') :
    ∃ p', s'.workers = s.workers.set w p' ∧
      (s'.inlined = s.inlined ∧ p'.awake = true ∨ s'.inlined = if s.inlined = some w then none else s.inlined) := by
  cases h with
  | funcSuspend | finish => exact ⟨_, rfl, .inr rfl⟩
  | _ => exact ⟨_, rfl, .inl ⟨rfl, rfl⟩⟩

theorem WorkerStep.keeps_orderly {a : WorkerAct T E} (h : Orderly s) (hsplit : Split c s)
    (hw : s.workers[w]? = some p) (hst : WorkerStep s w p a s') : Orderly s' where
  noError := by
    cases hst with
    | handleError => exact absurd (hsplit.inChunk w _ hw) id
    | _ => exact h.noError
  tail := by
    intro t ht
    obtain ⟨hcaller, p', hset⟩ := hst.set
    rw [hcaller] at ht
    rw [hset]
    exact (h.tail t ht).set hw hst.not_finished
  onTop := by
    obtain ⟨p', hset, htop⟩ := hst.stack
    rw [hset]
    exact marked_set h.onTop hw (fun _ ha => ha) htop

theorem CallerStep.keeps_orderly {a : CallerAct E} (h : Orderly s) (hok : calm f s (.caller a))
    (hst : CallerStep c s a s') : Orderly s' := by
  cases hst with
  | split hc =>
    exact { h with
      tail := nofun }
  | create hc =>
    exact {
      noError := h.noError
      tail := fun t ht => by simp [hc] at ht
      onTop := by
        intro w hw
        obtain rfl := Option.some.inj hw
        exact ⟨_, get_concat_iff.2 (.inr ⟨rfl, rfl⟩), rfl⟩ }
  | created =>
    exact { h with
      tail := by
        intro t ht
        cases ht
        exact fun i hi => absurd hi (Nat.not_lt_zero i) }
  | rangeThrow => exact absurd hok id
  | tail hc hnext =>
    exact { h with
      tail := by
        intro t ht
        cases ht
        exact (h.tail _ hc).next h.noError hnext }

theorem step_orderly {a : Act T E} (h : Orderly s) (hsplit : Split c s) (hok : calm f s a)
    (hst : step c s a = some s') : Orderly s' := by
  cases step_cases hst with
  | caller hfree hcs => exact hcs.keeps_orderly h hok
  | worker hw hws => exact hws.keeps_orderly h hsplit hw

structure Inv (c : Config T) (f : T → T) (s : State T E) : Prop where
  split : Split c s
  passed : Passed c f s
  orderly : Orderly s

theorem inv_init (c : Config T) (f : T → T) : Inv c f (init c : State T E) :=
  ⟨split_init c, passed_init c f, orderly_init c⟩

theorem step_inv {a : Act T E} (h : Inv c f s) (hok : calm f s a) (hst : step c s a = some s') : Inv c f s' :=
  ⟨step_split h.split hok hst, step_passed h.passed h.split hok hst, step_orderly h.orderly h.split hok hst⟩

theorem inv_reachable (h : Reachable (step c) (calm f) (init c) s) : Inv c f s :=
  h.invariant (inv_init c f) fun _ _ _ hI hok hst => step_inv hI hok hst

/-! ## No deadlock -/

/-- A step of `func`, not of `forEach`. -/
def Act.ofFunc : Act T E → Bool
  | .worker _ .funcSuspend | .worker _ .funcResume | .worker _ (.funcReturn _) | .worker _ (.funcThrow _) => true
  | _ => false

/-- A call of `func` is in progress. -/
def Worker.inFunc : Worker E → Bool
  | running _ _ | suspended _ _ => true
  | _ => false

/-- `forEach` can take a step, or `func` is running somewhere. -/
inductive State.GoesOn (c : Config T) (f : T → T) (s : State T E) : Prop
  | own {a : Act T E} (ha : a.ofFunc = false) (hok : calm f s a) (h : (step c s a).isSome) : s.GoesOn c f
  | func {p : Worker E} (hp : p ∈ s.workers) (hfunc : p.inFunc = true) : s.GoesOn c f

theorem State.GoesOn.caller {a : CallerAct E} (hfree : s.inlined = none) (hok : ∀ e, a ≠ .rangeThrow e)
    (h : (callerStep c s a).isSome) : s.GoesOn c f := by
  refine .own (a := .caller a) rfl ?_ (by simpa [step, hfree] using h)
  cases a <;> first | trivial | exact absurd rfl (hok _)

theorem Split.worker_lt (h : Split c s) (hw : s.workers[w]? = some p) : s.caller ≠ .entering ∧ w < s.coroCnt := by
  have hlt := (List.getElem?_eq_some_iff.1 hw).1
  refine ⟨fun hc => ?_, Nat.lt_of_lt_of_le hlt h.bound⟩
  rw [(h.entering hc).1] at hlt
  exact absurd hlt (Nat.not_lt_zero w)

/-- A worker goes on, unless it has finished. -/
theorem Inv.goes (h : Inv c f s) (hw : s.workers[w]? = some p) : s.GoesOn c f ∨ p = .finished := by
  have hin := h.split.inChunk w p hw
  have hown : ∀ a : WorkerAct T E, (Act.worker w a).ofFunc = false → calm f s (.worker w a) →
      (workerStep s w p a).isSome → s.GoesOn c f := fun a ha hok hstep =>
    .own ha hok (by simpa [step, hw] using hstep)
  cases p with
  | iterating itr last =>
    left
    by_cases heq : itr = last
    · exact hown .loopEnd rfl trivial (by simp [workerStep, heq])
    · obtain ⟨hne, hcnt⟩ := h.split.worker_lt hw
      have hsize := h.split.le_size hne (Nat.succ_le_of_lt hcnt)
      obtain ⟨hlast, -, hle⟩ := hin
      have hlt : itr < s.elements.length := by
        rw [← hlast] at hle hsize
        omega
      exact hown .call rfl trivial (by simp [workerStep, heq, hlt])
  | running itr last | suspended itr last => exact .inl (.func (List.mem_of_getElem? hw) rfl)
  | failed e => exact absurd hin id
  | leaving => exact .inl (hown .finish rfl trivial rfl)
  | finished => exact .inr rfl

/-- **No deadlock** on a nonempty range. -/
theorem Inv.goesOn (h : Inv c f s) (hrange : c.range ≠ []) (hne : ∀ error, s.caller ≠ .tail (.returned error)) :
    s.GoesOn c f := by
  cases hin : s.inlined with
  | some w =>
    obtain ⟨p, hw, hawake⟩ := h.orderly.onTop w hin
    rcases h.goes hw with hgo | rfl
    · exact hgo
    · cases hawake
  | none =>
    cases hc : s.caller with
    | entering =>
      have hpos : min c.maxParallelity s.elements.length ≠ 0 := by
        have := c.positive
        have := List.length_pos_iff.2 hrange
        have := h.split.size
        omega
      exact .caller (a := .split) hin (by simp) (by simp [callerStep, hc, hpos])
    | creating =>
      by_cases hlt : s.workers.length < s.coroCnt
      · exact .caller (a := .create) hin (by simp) (by simp [callerStep, hc, hlt])
      · exact .caller (a := .created) hin (by simp) (by simp [callerStep, hc, hlt])
    | tail t =>
      cases t with
      | awaiting j =>
        cases hj : (s.workers.map Worker.isFinished)[j]? with
        | none => exact .caller (a := .tail) hin (by simp) (by simp [callerStep, hc, Tail.next, hj])
        | some b =>
          cases b with
          | true => exact .caller (a := .tail) hin (by simp) (by simp [callerStep, hc, Tail.next, hj])
          | false =>
            rw [List.getElem?_map] at hj
            obtain ⟨p, hp, hfin⟩ := Option.map_eq_some_iff.1 hj
            rcases h.goes hp with hgo | rfl
            · exact hgo
            · cases hfin
      | destroying j error =>
        refine .caller (a := .tail) hin (by simp) ?_
        simp only [callerStep, hc, Tail.next]
        split <;> rfl
      | returned error => exact absurd hc (hne error)
      | terminated => exact absurd (h.orderly.tail _ hc) id

/-! ## Termination -/

/-- Every step but the suspensions and resumptions of `func`. -/
def Act.counts : Act T E → Bool
  | .worker _ .funcSuspend | .worker _ .funcResume => false
  | _ => true

def Worker.rank : Worker E → Nat
  | iterating itr last => 2 * (last - itr) + 3
  | running itr last | suspended itr last => 2 * (last - itr) + 2
  | failed _ => 2
  | leaving => 1
  | finished => 0

def Caller.rank (m : Nat) : Caller E → Nat
  | entering => 2 * m + 4
  | creating => 2 * m + 3
  | tail t => t.rank m

/-- Each element is in the chunk of a worker or in none yet. -/
def measure (c : Config T) (s : State T E) : Nat :=
  2 * (s.elements.length - s.last) + 4 * (c.maxParallelity - s.workers.length) +
    (s.workers.map Worker.rank).sum + s.caller.rank c.maxParallelity

theorem Split.crew_le (h : Split c s) : s.workers.length ≤ c.maxParallelity := by
  by_cases hc : s.caller = .entering
  · simp [(h.entering hc).1]
  · have hcnt := (h.count hc).2
    have hbound := h.bound
    omega

theorem CallerStep.measure {a : CallerAct E} (h' : Split c s') (hok : calm f s (.caller a))
    (hst : CallerStep c s a s') : measure c s' + 1 ≤ measure c s := by
  unfold Chunks.measure
  cases hst with
  | split hc =>
    simp only [hc, Caller.rank]
    omega
  | @create last hc hlen hlast =>
    have hcrew := h'.crew_le
    have hnext : last ≤ s.elements.length := by
      have hle := h'.le_size (by simp [hc]) h'.bound
      rw [← h'.last (by simp [hc])] at hle
      exact hle
    have hprev : s.last ≤ last := by
      rw [hlast, Nat.add_assoc]
      exact Nat.le_add_right _ _
    simp only [List.length_append, List.map_append, List.sum_append, List.map_cons, List.map_nil, List.sum_cons,
      List.sum_nil, List.length_cons, List.length_nil, Worker.rank] at hcrew ⊢
    omega
  | created hc =>
    simp only [hc, Caller.rank, Tail.rank]
    omega
  | rangeThrow => exact absurd hok id
  | tail hc ht =>
    have hrank := Tail.rank_next (m := c.maxParallelity) (by simpa using h'.crew_le) ht
    simp only [hc, Caller.rank]
    omega

theorem WorkerStep.rank {a : WorkerAct T E} (h : Split c s) (hw : s.workers[w]? = some p) (hok : calm f s (.worker w a))
    (hst : WorkerStep s w p a s') : s'.last = s.last ∧ s'.caller = s.caller ∧ s'.elements.length = s.elements.length ∧
      ∃ p', s'.workers = s.workers.set w p' ∧ p'.rank + (if (Act.worker w a).counts then 1 else 0) ≤ p.rank := by
  have hin := h.inChunk w p hw
  cases hst with
  | funcReturn =>
    refine ⟨rfl, rfl, List.length_set .., _, rfl, ?_⟩
    obtain ⟨rfl, -, hlt⟩ := hin
    simp only [Worker.rank, Act.counts, if_true]
    omega
  | funcThrow | rangeThrow => exact absurd hok id
  | _ =>
    refine ⟨rfl, rfl, rfl, _, rfl, ?_⟩
    simp only [Worker.rank, Act.counts, if_true, Bool.false_eq_true, if_false]
    omega

theorem step_measure {a : Act T E} (h : Split c s) (hok : calm f s a) (hst : step c s a = some s') :
    measure c s' + (if a.counts then 1 else 0) ≤ measure c s := by
  have h' := step_split h hok hst
  cases step_cases hst with
  | caller hfree hcs => exact hcs.measure h' hok
  | @worker w p a s' hw hws =>
    obtain ⟨hlast, hcaller, helements, p', hset, hrank⟩ := hws.rank h hw hok
    have hsum : ((s.workers.set w p').map Worker.rank).sum + p.rank = (s.workers.map Worker.rank).sum + p'.rank :=
      sum_map_set hw
    simp only [measure, hlast, hcaller, helements, hset, List.length_set]
    omega

theorem measure_init (c : Config T) :
    measure c (init c : State T E) = 2 * c.range.length + 6 * c.maxParallelity + 4 := by
  simp only [measure, init, Caller.rank, List.length_nil, List.map_nil, List.sum_nil]
  omega

theorem run_bounded {as : List (Act T E)} (h : Run (step c) (calm f) (init c) as s) :
    occurrences (step c) (fun _ a => a.counts) (init c) as ≤ 2 * c.range.length + 6 * c.maxParallelity + 4 := by
  rw [← measure_init (E := E) c]
  exact occurrences_le_measure (I := Split c) (fun _ _ _ hI hok hst => step_split hI hok hst)
    (fun _ _ _ hI hok hst => step_measure hI hok hst) as _ (split_init c) h

/-! ## What is done at the end -/

/-- When all workers have finished, every element has been passed. -/
theorem Split.reached (h : Split c s) {t : Tail E} (hc : s.caller = .tail t)
    (hdone : ∀ p ∈ s.workers, p.isFinished = true) {g : Nat → Worker E → Nat} (hg : ∀ hi, g hi .finished = hi) {i : Nat}
    (hi : i < c.range.length) : s.Reached g i := by
  rw [← h.size] at hi
  obtain ⟨w, hw, hlo, hhi⟩ := exists_chunk (h.count (by simp [hc])).1 hi
  rw [← h.full t hc] at hw
  refine ⟨w, s.workers[w], List.getElem?_eq_getElem hw, hlo, ?_⟩
  have hfin := hdone _ (List.getElem_mem hw)
  generalize s.workers[w] = p at hfin
  cases p with
  | finished =>
    rw [hg]
    exact hhi
  | _ => cases hfin

theorem Inv.returned (h : Inv c f s) {error : Option E} (hc : s.caller = .tail (.returned error)) :
    error = none ∧ (s.calls.map Prod.snd).Perm c.range ∧ s.elements = c.range.map f := by
  have hsound := h.orderly.tail _ hc
  have hdone := hsound.all (j := 0) (.inr rfl)
  refine ⟨hsound.2, perm_of_numbered h.passed.once fun i x => ?_, List.ext_getElem? fun i => ?_⟩
  · rw [h.passed.called]
    refine and_iff_left_of_imp fun hx => ?_
    exact h.split.reached hc hdone (fun _ => rfl) (List.getElem?_eq_some_iff.1 hx).1
  · rw [List.getElem?_map]
    rcases Nat.lt_or_ge i c.range.length with hi | hi
    · exact h.passed.changed i (h.split.reached hc hdone (fun _ => rfl) hi)
    · rw [List.getElem?_eq_none hi, List.getElem?_eq_none (h.split.size ▸ hi), Option.map_none]

end CoAwait.ForEach.Chunks

/-! ## The input branch -/

namespace CoAwait.ForEach

open Runs

variable {T E : Type} {c : Config T} {s s' : State T E} {f : T → T}

/-- The runs in which nothing throws. -/
def quiet (s : State T E) : Act E → Prop
  | .worker _ (.funcThrow _) => False
  | a => rangeKeeps s a

instance (s : State T E) : (a : Act E) → Decidable (quiet s a)
  | .worker _ (.funcThrow _) => .isFalse id
  | .caller a => inferInstanceAs (Decidable (rangeKeeps s (.caller a)))
  | .worker _ .pop | .worker _ .wakeSender | .worker _ .suspend | .worker _ .resume | .worker _ .popReturn
  | .worker _ .funcSuspend | .worker _ .funcResume | .worker _ .funcReturn | .worker _ .handleError
  | .worker _ .release | .worker _ .closeReceiver | .worker _ .notifySender | .worker _ .finish => .isTrue trivial

theorem quiet_keeps (s : State T E) (a : Act E) (h : quiet s a) : rangeKeeps s a := by
  unfold quiet at h
  split at h
  case h_1 => exact absurd h id
  case h_2 => exact h

theorem step_quiet {a : Act E} (h : s.thrown = []) (hok : quiet s a) (hst : step c s a = some s') : s'.thrown = [] := by
  cases step_cases hst with
  | caller hfree hc =>
    rw [hc.frame.thrown]
    exact h
  | worker hw hws =>
    cases hws with
    | funcThrow => exact absurd hok id
    | _ => exact h

theorem quiet_reachable (h : Reachable (step c) quiet c.init s) : s.thrown = [] :=
  h.invariant (I := fun s => s.thrown = []) rfl fun _ _ _ hI hok hst => step_quiet hI hok hst

/-! ## Results -/

/-- **The branches of `forEach` agree on the calls of `func`.** Nothing throws, and `func` replaces each element `x` it
gets a reference to by `f x`. Both branches take a bounded number of steps besides the suspensions and resumptions of
`func`, do not get stuck before they return, and return normally; the elements `func` is called with are the same, those
of the range. The random-access branch has then changed the elements of the container, the other one has not. -/
theorem paths_agree {as : List (Act E)} {bs : List (Chunks.Act T E)} {s : State T E} {t : Chunks.State T E}
    (h : Run (step c) quiet c.init as s) (h' : Run (Chunks.step c) (Chunks.calm f) (Chunks.init c) bs t) :
    (occurrences (step c) (fun _ a => a.counts) c.init as ≤ 19 * c.range.length + 13 * c.maxParallelity + 8 ∧
      occurrences (Chunks.step c) (fun _ a => a.counts) (Chunks.init c) bs ≤
        2 * c.range.length + 6 * c.maxParallelity + 4) ∧
    ((∀ error, s.caller ≠ .tail (.returned error)) → s.GoesOn c) ∧
    (c.range ≠ [] → (∀ error, t.caller ≠ .tail (.returned error)) → t.GoesOn c f) ∧
    (∀ error, s.caller = .tail (.returned error) →
      error = none ∧ (s.calls.map Prod.snd).Perm c.range ∧ s.elements = c.range) ∧
    (∀ error, t.caller = .tail (.returned error) →
      error = none ∧ (t.calls.map Prod.snd).Perm c.range ∧ t.elements = c.range.map f) := by
  have hkeeps : Run (step c) rangeKeeps c.init as s := h.mono quiet_keeps
  have hreach : Reachable (step c) rangeKeeps c.init s := ⟨as, hkeeps⟩
  have hinv := inv_reachable hreach
  have ho := outcome_reachable hreach
  have hinv' : Chunks.Inv c f t := Chunks.inv_reachable ⟨bs, h'⟩
  refine ⟨⟨run_bounded hkeeps, Chunks.run_bounded h'⟩, hinv.goesOn ho, hinv'.goesOn, fun error hc => ?_,
    fun error hc => hinv'.returned hc⟩
  obtain ⟨herr, hperm⟩ := hinv.returned_quiet ho hc (quiet_reachable ⟨as, h⟩)
  exact ⟨herr, hperm, hinv.feed.elements⟩

/-- Each worker takes one element; the second one suspends in `func` until the first one has finished. -/
def quietSchedule : List (Act Nat) :=
  List.flatten [
    [.caller .create, .worker 0 .pop, .worker 0 .suspend, .caller .create, .worker 1 .pop, .worker 1 .suspend],
    [.caller .dropReceiver, .caller .push, .caller .handOver, .caller .pushReturn, .worker 0 .resume],
    [.worker 0 .popReturn, .worker 0 .funcReturn, .caller .push, .caller .handOver, .caller .pushReturn],
    [.worker 1 .resume, .worker 1 .popReturn, .worker 1 .funcSuspend, .caller .rangeEnd, .caller .closeSender],
    [.caller .scopeLeft, .worker 0 .pop, .worker 0 .popReturn, .worker 0 .release, .worker 0 .finish],
    [.worker 1 .funcResume, .worker 1 .funcReturn, .worker 1 .pop, .worker 1 .popReturn, .worker 1 .release],
    [.worker 1 .closeReceiver, .worker 1 .finish],
    List.replicate 6 (.caller .tail)]

def calmSchedule : List (Chunks.Act Nat Nat) :=
  List.flatten [
    [.caller .split, .caller .create, .worker 0 .call, .worker 0 .funcSuspend, .caller .create, .worker 1 .call],
    [.worker 1 (.funcReturn 7), .worker 1 .loopEnd, .worker 1 .finish, .caller .created, .worker 0 .funcResume],
    [.worker 0 (.funcReturn 6), .worker 0 .loopEnd, .worker 0 .finish],
    List.replicate 6 (.caller .tail)]

theorem paths_agree_increment : ∃ (s : State Nat Nat) (t : Chunks.State Nat Nat),
    Run (step twoWorkers) quiet twoWorkers.init quietSchedule s ∧
    Run (Chunks.step twoWorkers) (Chunks.calm (· + 1)) (Chunks.init twoWorkers) calmSchedule t ∧
    s.caller = .tail (.returned none) ∧ t.caller = .tail (.returned none) ∧
    (s.calls.map Prod.snd).Perm [5, 6] ∧ (t.calls.map Prod.snd).Perm [5, 6] ∧ t.elements = [6, 7] := by
  have hrun := exec_get_run (step twoWorkers) quiet (twoWorkers.init : State Nat Nat) quietSchedule (by decide)
  have hrun' := exec_get_run (Chunks.step twoWorkers) (Chunks.calm (· + 1))
    (Chunks.init twoWorkers : Chunks.State Nat Nat) calmSchedule (by decide)
  obtain ⟨-, -, -, hret, hret'⟩ := paths_agree hrun hrun'
  have hs := hret none (by decide)
  have ht := hret' none (by decide)
  exact ⟨_, _, hrun, hrun', by decide, by decide, hs.2.1, ht.2.1, ht.2.2⟩

def noElements : Config Nat := ⟨2, Nat.two_pos, [], false⟩

/-- Both branches have returned, and only one has changed the container; on an empty random-access range `forEach` does
not get past the division. -/
theorem paths_differ :
    (∃ (s : State Nat Nat) (t : Chunks.State Nat Nat),
      Reachable (step twoWorkers) quiet twoWorkers.init s ∧
      Reachable (Chunks.step twoWorkers) (Chunks.calm (· + 1)) (Chunks.init twoWorkers) t ∧
      s.caller = .tail (.returned none) ∧ t.caller = .tail (.returned none) ∧ s.elements = [5, 6] ∧
      t.elements = [6, 7]) ∧
    ∀ (a : Chunks.Act Nat Nat), Chunks.calm (· + 1) (Chunks.init noElements) a →
      Chunks.step noElements (Chunks.init noElements) a = none := by
  refine ⟨?_, fun a ha => ?_⟩
  · exact ⟨_, _,
      ⟨_, exec_get_run (step twoWorkers) quiet (twoWorkers.init : State Nat Nat) quietSchedule (by decide)⟩,
      ⟨_, exec_get_run (Chunks.step twoWorkers) (Chunks.calm (· + 1)) (Chunks.init twoWorkers) calmSchedule
        (by decide)⟩,
      by decide, by decide, by decide, by decide⟩
  · cases a with
    | worker w a => rfl
    | caller a =>
      cases a with
      | rangeThrow => exact absurd ha id
      | _ => rfl

end CoAwait.ForEach
