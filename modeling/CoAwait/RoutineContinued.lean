import CoAwait.RoutineHandOver

/-!
# Awaiting a Routine continues the awaiting coroutine exactly once

* `Pending`: what is still going to continue it; `WillCall`: the finishing thread has the call of the Runner
  before it.
* `HandOver.settled`: where no thread can go on, an await is pending only on a Routine that has not ended.
* `continued_once`: continued by `false` or by the finishing `resume()`, never by both, never by neither.
-/

namespace CoAwait.Routine

open Runs Tokens

variable {s s' : State} {d e x : Nat} {k : RunnerId} {via : Via} {pc : RunPc} {res : Ptr} {t : Nat}
  {rest : List Frame}

/-! ## What is still to come -/

/-- The await of a Routine that is being evaluated. -/
def RunPc.awaits : RunPc → Option (Nat × Nat)
  | .awaitSuspend j e _ | .awaitContinuation j e _ | .awaitSpin j e => some (j, e)
  | _ => none

/-- What the finishing `resume()` is about to return. -/
def RunPc.returns : RunPc → Ptr
  | .runPostLeave res | .setContinuation res | .setResult res | .ret res => res
  | _ => .null

/-- Await `j` of `d` on `e` has not continued `d`, and this is what is still going to. -/
inductive State.Pending (s : State) (d j e : Nat) : Prop where
  /-- A thread is inside `await_suspend`. -/
  | evaluating {t : Nat} {via : Via} {pc : RunPc} : .run d via pc ∈ s.stack t → pc.awaits = some (j, e) →
      State.Pending s d j e
  /-- `d` is in `mContinuation`, and the finishing `resume()` of `e` has its exchange before it. -/
  | waiting : s.mContinuation e = .data d → s.waiter e = some (d, j) →
      (s.mPull e = true ∨ ∃ t, .run e .resume .ended ∈ s.stack t) → State.Pending s d j e
  /-- The finishing `resume()` of `e` returns `d` to a Runner loop. -/
  | returning {t : Nat} {pc : RunPc} {k : RunnerId} {l₁ l₂ : List Frame} :
      s.stack t = l₁ ++ .run e .resume pc :: .runner k .running :: l₂ → pc.returns = .data d →
      s.waiter e = some (d, j) → State.Pending s d j e

/-- The completing thread of `e` has the call of the Runner before it, and will not post it again. -/
inductive State.WillCall (s : State) (e : Nat) (k : RunnerId) : Prop where
  | registered {t : Nat} {pc : RunPc} {l : List Frame} : s.stack t = .run e .resume pc :: l → pc.finishes = true →
      (s.fut (.result e)).continuationPtr = .task (.runner k) → State.WillCall s e k
  | entered {t : Nat} {res : Ptr} {l : List Frame} :
      s.stack t = .runner k .enter :: .run e .resume (.ret res) :: l → s.current t = none → State.WillCall s e k

/-- No thread has an operation of the library to make, or it spins or blocks. -/
def State.stuck (s : State) : Prop := ∀ t, step s (.step t) = none

theorem Inv.via_resume (hi : Inv s) (hc : s.constructed d = true) (hf : .run d via pc ∈ s.stack t) : via = .resume := by
  by_contra hv
  rw [(hi.underConstruction_of_mem hf hv).2] at hc
  cases hc

theorem Stacked.below : ∀ {l : List Frame}, Stacked l → .run d .resume pc ∈ l →
    ∃ k l₁ l₂, l = l₁ ++ .run d .resume pc :: .runner k .running :: l₂
  | [], h, _ => absurd h id
  | [f], h, hf => by
    obtain rfl : f = .main := h
    simp at hf
  | f :: g :: l, h, hf => by
    rcases List.mem_cons.1 hf with rfl | hf
    · obtain ⟨k, rfl⟩ := h.1
      exact ⟨k, [], l, rfl⟩
    · obtain ⟨k, l₁, l₂, hl⟩ := Stacked.below h.2 hf
      exact ⟨k, f :: l₁, l₂, by rw [hl]; rfl⟩

/-- Only a body and the Runner of a finish stand on a constructor or `resume()`. -/
theorem Frame.on_run {f : Frame} (h : f.on (.run d via pc)) :
    pc = .pull ∨ ∃ k c res, f = .runner k c ∧ pc = .ret res := by
  cases f with
  | main => exact absurd h id
  | body =>
    obtain ⟨_, heq⟩ := h
    cases heq
    exact .inl rfl
  | run _ via' =>
    rw [Frame.on] at h
    split at h
    case isTrue =>
      obtain ⟨_, heq⟩ := h
      cases heq
    case isFalse => cases h
  | runner k c =>
    rcases h with hidle | ⟨_, _, res, heq⟩
    · cases hidle
    · cases heq
      exact .inr ⟨k, c, res, rfl, rfl⟩
  | wait => cases h

theorem Frame.on_runner {f : Frame} {c : RunnerPc} (h : f.on (.runner k c)) : c = .running := by
  cases f with
  | main => exact absurd h id
  | body =>
    obtain ⟨_, heq⟩ := h
    cases heq
  | run _ via' =>
    rw [Frame.on] at h
    split at h
    case isTrue =>
      obtain ⟨_, heq⟩ := h
      cases heq
      rfl
    case isFalse => cases h
  | runner =>
    rcases h with hidle | ⟨_, _, _, heq⟩
    · cases hidle
    · cases heq
  | wait => cases h

theorem Stacked.innermost : ∀ {l : List Frame}, Stacked l → .run d via pc ∈ l → pc ≠ .pull → (∀ res, pc ≠ .ret res) →
    ∃ l', l = .run d via pc :: l'
  | [], h, _, _, _ => absurd h id
  | [f], h, hf, _, _ => by
    obtain rfl : f = .main := h
    simp at hf
  | f :: g :: l, h, hf, hpull, hret => by
    rcases List.mem_cons.1 hf with rfl | hf
    · exact ⟨g :: l, rfl⟩
    · obtain ⟨l', hl⟩ := Stacked.innermost h.2 hf hpull hret
      cases hl
      rcases Frame.on_run h.1 with hp | ⟨_, _, res, -, hp⟩
      · exact absurd hp hpull
      · exact absurd hp (hret res)

/-- The completing thread of a Routine that has ended without publishing its result. -/
theorem HandOver.finishing (hi : HandOver s) (hc : s.constructed e = true) (hp : s.mPull e = false)
    (hr : (s.fut (.result e)).isReady = false) :
    ∃ t pc l, s.stack t = .run e .resume pc :: l ∧ pc.finishes = true := by
  rcases hi.finisher e hp with h | ⟨t, via, pc, hf, hfin⟩
  · rw [hr] at h
    cases h
  · obtain rfl := hi.via_resume hc hf
    obtain ⟨l, hl⟩ := (hi.stacked t).innermost hf (by rintro rfl; cases hfin) (by rintro res rfl; cases hfin)
    exact ⟨t, pc, l, hl, hfin⟩

theorem HandOver.pending_of_mContinuation (hi : HandOver s) {j : Nat} (hm : s.mContinuation e = .data d)
    (hw : s.waiter e = some (d, j)) : s.Pending d j e := by
  refine .waiting hm hw ?_
  by_contra hno
  rw [not_or, Bool.not_eq_true] at hno
  have hc := (hi.continuations e d hm).2
  have hr : (s.fut (.result e)).isReady = false := by
    by_contra hr
    rw [hi.ready e (by simpa using hr)] at hm
    cases hm
  obtain ⟨t, pc, l, hs, hfin⟩ := hi.finishing hc hno.1 hr
  have hf : .run e .resume pc ∈ s.stack t := by
    rw [hs]
    exact List.mem_cons_self
  have hopen := hi.opens t _ hf
  cases pc with
  | ended => exact hno.2 ⟨t, hf⟩
  | runPostLeave res | setContinuation res =>
    rw [hopen.2.2 (by simp)] at hm
    cases hm
  | setResult res =>
    rw [hopen.2.2] at hm
    cases hm
  | _ => cases hfin

theorem RunPc.Opens.awaits (h : pc.Opens s d via) {j : Nat} (ha : pc.awaits = some (j, e)) :
    s.opened d = some (j, e) := by
  cases pc with
  | awaitSuspend j' e' c =>
    cases ha
    exact h
  | awaitContinuation j' e' c | awaitSpin j' e' =>
    cases ha
    exact h.1
  | _ => cases ha

/-- A coroutine that a thread is about to pull, or has pulled, has no await open unless it is evaluated there. -/
theorem RunPc.Opens.own (h : pc.Opens s d via) (hne : pc ≠ .pull ∧ pc ≠ .suspended ∧ ∀ res, pc ≠ .ret res)
    (ha : pc.awaits = none) : s.opened d = none := by
  cases pc with
  | enter | ended => exact h
  | left | suspend | runPostLeave | setContinuation | setResult => exact h.1
  | awaitSuspend | awaitContinuation | awaitSpin => cases ha
  | pull => exact absurd rfl hne.1
  | suspended => exact absurd rfl hne.2.1
  | ret res => exact absurd rfl (hne.2.2 res)

theorem RunPc.Opens.hands (h : pc.Opens s d via) (hr : pc.returns = .data x) : s.Hands d (.data x) := by
  cases pc with
  | runPostLeave | setContinuation | setResult =>
    cases hr
    exact h.2.1
  | ret res =>
    cases hr
    exact h
  | _ => cases hr

theorem RunPc.Sound.constructed (h : pc.Sound s d via) (hr : pc.returns = .data x) : s.constructed d = true := by
  cases pc with
  | runPostLeave res => exact h.2.2.constructed x hr
  | setContinuation res | setResult res => exact h.2.constructed x hr
  | ret res => exact State.Resumable.constructed h x hr
  | _ => cases hr

/-- A constructor or `resume()` holds its own coroutine or the one it returns. -/
theorem RunPc.mem_holds (hx : x ∈ (Frame.run d via pc).holds) :
    (x = d ∧ pc ≠ .pull ∧ pc ≠ .suspended ∧ ∀ res, pc ≠ .ret res) ∨ pc.returns = .data x := by
  cases pc with
  | runPostLeave res | setContinuation res | setResult res | ret res =>
    cases res <;> simp_all [RunPc.returns, Ptr.toList, eq_comm]
  | _ => simp_all

/-- Where the right of the awaiting coroutine is while its await is open. -/
theorem HandOver.pending_of_opened (hi : HandOver s) {j : Nat} (ho : s.opened d = some (j, e)) : s.Pending d j e := by
  have hun : s.unfinished d := by
    by_contra hun
    rw [hi.closed d hun] at ho
    cases ho
  obtain ⟨p, hp, -⟩ := hi.rights.one d hun
  have hmem := List.count_pos_iff.1 (by rw [hp]; exact Nat.one_pos)
  rcases p with t | k | e'
  · obtain ⟨f, hf, hdf⟩ := List.mem_flatMap.1 hmem
    have hopen := hi.opens t f hf
    have hsound := hi.frames t f hf
    cases f with
    | main | wait => cases hdf
    | body d' l =>
      obtain rfl : d = d' := by simpa using hdf
      rw [show s.opened d = none from hopen] at ho
      cases ho
    | runner k pc =>
      cases pc with
      | enter | running => cases hdf
      | loop c =>
        have hc : c = .data d := by cases c <;> simp_all [Ptr.toList]
        rw [hopen d hc] at ho
        cases ho
    | run d' via pc =>
      rcases RunPc.mem_holds hdf with ⟨rfl, hne⟩ | hr
      · cases ha : pc.awaits with
        | none =>
          rw [RunPc.Opens.own hopen hne ha] at ho
          cases ho
        | some je =>
          have ho' := RunPc.Opens.awaits (j := je.1) (e := je.2) hopen ha
          rw [ho] at ho'
          cases ho'
          exact .evaluating hf ha
      · obtain ⟨j', hw, ho'⟩ := RunPc.Opens.hands hopen hr d rfl
        rw [ho] at ho'
        cases ho'
        obtain rfl := hi.via_resume (RunPc.Sound.constructed hsound hr) hf
        obtain ⟨k, l₁, l₂, hl⟩ := (hi.stacked t).below hf
        exact .returning hl hr hw
  · have hlive : s.live k = true := by
      by_contra hl
      rw [spread, rights_dead (by simpa using hl)] at hmem
      cases hmem
    have hcaller : s.mCaller k = .data d := by
      cases hc : s.mCaller k <;> simp_all [spread, State.rights, Ptr.toList]
    rw [hi.runnersOpen k d hlive hcaller] at ho
    cases ho
  · have hm : s.mContinuation e' = .data d := by
      cases hc : s.mContinuation e' <;> simp_all [spread, State.rights, Ptr.toList]
    obtain ⟨j', hw, ho'⟩ := hi.hands e' d hm
    rw [ho] at ho'
    cases ho'
    exact hi.pending_of_mContinuation hm hw

theorem HandOver.opened_of_pending (hi : HandOver s) {j : Nat} (h : s.Pending d j e) : s.opened d = some (j, e) := by
  cases h with
  | @evaluating t via pc hf ha => exact RunPc.Opens.awaits (hi.opens t _ hf) ha
  | waiting hm hw =>
    obtain ⟨j', hw', ho⟩ := hi.hands e d hm
    rw [hw] at hw'
    cases hw'
    exact ho
  | @returning t pc k l₁ l₂ hs hr hw =>
    have hf : .run e .resume pc ∈ s.stack t := by simp [hs]
    obtain ⟨j', hw', ho⟩ := RunPc.Opens.hands (hi.opens t _ hf) hr d rfl
    rw [hw] at hw'
    cases hw'
    exact ho

/-! ## Nobody is left behind -/

theorem step_run (hs : s.stack t = .run d via pc :: rest) : step s (.step t) = runStep s t d via rest pc := by
  simp only [step, threadStep, hs]

theorem step_runner {c : RunnerPc} (hs : s.stack t = .runner k c :: rest) :
    step s (.step t) = runnerStep s t k rest c := by
  simp only [step, threadStep, hs]

/-- Nothing keeps a thread from the end of a finish. -/
theorem HandOver.finishes_enabled (hi : HandOver s) (hs : s.stack t = .run e via pc :: rest)
    (hp : pc.finishes = true) : step s (.step t) ≠ none := by
  have hf : .run e via pc ∈ s.stack t := by
    rw [hs]
    exact List.mem_cons_self
  have hsound := hi.frames t _ hf
  rw [step_run hs]
  cases pc with
  | ended | setContinuation => simp [runStep]
  | runPostLeave res => simp [runStep, hsound.2.1]
  | setResult res =>
    have hr : (s.fut (.result e)).isReady = false := (hi.unfinished_of_mem hf (by simp)).2
    simp only [runStep, State.complete, LightFutureData.exchange, LightFutureData.store]
    split <;> simp_all
  | _ => cases hp

theorem runner_enabled {c : RunnerPc} (hs : s.stack t = .runner k c :: rest) (hc : c ≠ .running) :
    step s (.step t) ≠ none := by
  rw [step_runner hs]
  cases c with
  | running => exact absurd rfl hc
  | enter =>
    simp only [runnerStep]
    split <;> simp
  | loop c => cases c <;> simp [runnerStep]

theorem State.WillCall.enabled (hi : HandOver s) (h : s.WillCall e k) : ¬ s.stuck := by
  intro hstuck
  cases h with
  | registered hs hp => exact hi.finishes_enabled hs hp (hstuck _)
  | entered hs => exact runner_enabled hs nofun (hstuck _)

/-- The assertion of the spin: the completing thread calls this Runner. -/
theorem HandOver.willCall (hi : HandOver s) (hw : s.waiter e = some k) (hm : s.mContinuation e = .one) :
    s.mCaller k = .one ∨ s.WillCall e k := by
  rcases (hi.called e k hw).called with hp | hc | ⟨t, res, l, hs⟩
  · have hr : (s.fut (.result e)).isReady = false := by
      by_contra hr
      rw [Bool.not_eq_false, LightFutureData.isReady_iff, hp] at hr
      cases hr
    obtain ⟨t, pc, l, hs, hfin⟩ := hi.finishing (hi.waiter e k hw).2 (hi.disabled e hm) hr
    exact .inr (.registered hs hfin hp)
  · exact .inl hc
  · exact .inr (.entered hs (hi.current_none hs))

/-- On a finish that returns stands at most a Runner, which resumes nothing. -/
theorem Above.over_ret : ∀ {l₁ l₂ : List Frame}, Above s (l₁ ++ .run e .resume (.ret res) :: l₂) →
    Stacked (l₁ ++ .run e .resume (.ret res) :: l₂) → l₁ = [] ∨ ∃ k c, l₁ = [.runner k c] ∧ c ≠ .running
  | [], _, _, _ => .inl rfl
  | [f], l₂, ha, hst => by
    rcases Frame.on_run hst.1 with hp | ⟨k, c, _, rfl, -⟩
    · cases hp
    · refine .inr ⟨k, c, rfl, ?_⟩
      rintro rfl
      exact ha.1.2 e ⟨_, _, l₂, rfl⟩
  | f :: g :: l₁, l₂, ha, hst => by
    have hrec : g :: l₁ = [] ∨ ∃ k c, g :: l₁ = [.runner k c] ∧ c ≠ .running := Above.over_ret ha.2 hst.2
    rcases hrec with hnil | ⟨k, c, hl, hc⟩
    · cases hnil
    · cases hl
      exact absurd (Frame.on_runner hst.1) hc

theorem HandOver.ret_enabled (hi : HandOver s) {l₁ l₂ : List Frame}
    (hs : s.stack t = l₁ ++ .run e .resume (.ret res) :: .runner k .running :: l₂) : step s (.step t) ≠ none := by
  have ha := hi.above t
  have hst := hi.stacked t
  rw [hs] at ha hst
  rcases ha.over_ret hst with rfl | ⟨k', pc, rfl, hpc⟩
  · rw [step_run hs]
    simp [runStep]
  · exact runner_enabled hs hpc

theorem HandOver.await_enabled (hi : HandOver s) {j : Nat} (hs : s.stack t = .run d via pc :: rest)
    (ha : pc.awaits = some (j, e)) : ¬ s.stuck := by
  intro hstuck
  have hnone := hstuck t
  have hf : .run d via pc ∈ s.stack t := by
    rw [hs]
    exact List.mem_cons_self
  rw [step_run hs] at hnone
  cases pc with
  | awaitSuspend j' e' c =>
    simp only [runStep] at hnone
    split at hnone <;> cases hnone
  | awaitContinuation j' e' c =>
    simp only [runStep] at hnone
    split at hnone <;> cases hnone
  | awaitSpin j' e' =>
    obtain ⟨-, hw, hm⟩ := hi.opens t _ hf
    rcases hi.willCall hw hm with hc | hcall
    · simp [runStep, hc] at hnone
    · exact hcall.enabled hi hstuck
  | _ => cases ha

/-- Where all threads are stuck, an await is open only on a Routine that has not ended. -/
theorem HandOver.settled (hi : HandOver s) {j : Nat} (h : s.Pending d j e) (hstuck : s.stuck) : s.mPull e = true := by
  cases h with
  | @evaluating t via pc hf ha =>
    obtain ⟨l, hs⟩ := (hi.stacked t).innermost hf (by rintro rfl; cases ha) (by rintro res rfl; cases ha)
    exact absurd hstuck (hi.await_enabled hs ha)
  | waiting hm hw hnext =>
    rcases hnext with hp | ⟨t, hf⟩
    · exact hp
    · obtain ⟨l, hs⟩ := (hi.stacked t).innermost hf nofun nofun
      exact absurd (hstuck t) (hi.finishes_enabled hs rfl)
  | @returning t pc k l₁ l₂ hs hr =>
    have hf : .run e .resume pc ∈ s.stack t := by simp [hs]
    cases pc with
    | ret res => exact absurd (hstuck t) (hi.ret_enabled hs)
    | runPostLeave res | setContinuation res | setResult res =>
      obtain ⟨l, hs'⟩ := (hi.stacked t).innermost hf nofun nofun
      exact absurd (hstuck t) (hi.finishes_enabled hs' rfl)
    | _ => cases hr

/-! ## Results -/

/-- The `j`-th await of `d`, on Routine `e`. -/
structure State.ContinuedOnce (s : State) (d j e : Nat) : Prop where
  /-- Not by both. -/
  atMostOnce : s.viaFalse (d, j) + s.viaResume (d, j) ≤ 1
  /-- Not by neither: until `d` is continued, something is still going to continue it. -/
  pending : s.viaFalse (d, j) + s.viaResume (d, j) = 0 ↔ s.Pending d j e
  settled : s.stuck → s.mPull e = false → s.viaFalse (d, j) + s.viaResume (d, j) = 1
  /-- `d` executes its body again only continued. -/
  executing : ∀ t l, .body d l ∈ s.stack t → s.viaFalse (d, j) + s.viaResume (d, j) = 1
  /-- `assert(expected == 1)` where the exchange with null fails. -/
  expected : ∀ t via c, .run d via (.awaitContinuation j e c) ∈ s.stack t → s.mContinuation e ≠ .null →
    s.mContinuation e = .one
  spin : ∀ t via, .run d via (.awaitSpin j e) ∈ s.stack t → s.mCaller (d, j) = .one ∨ s.WillCall e (d, j)

/-- However many coroutines, Routines and awaits: an await of a Routine that has been started continues the
awaiting coroutine exactly once. -/
theorem continued_once {ok : State → Act → Prop} (h : Reachable step ok init s) {d j e : Nat}
    (hs : s.started (d, j) = some e) : s.ContinuedOnce d j e := by
  have hi := handOver_reachable h
  have hsum := (hi.counted (d, j)).sum
  rw [hs, Option.isSome_some, if_pos rfl] at hsum
  have hopened : (s.opened d).map Prod.fst = some j ↔ s.Pending d j e := by
    constructor
    · intro hm
      obtain ⟨⟨j', e'⟩, ho, rfl⟩ := Option.map_eq_some_iff.1 hm
      have hst := (hi.counted (d, j')).target e' ho
      rw [hs] at hst
      cases hst
      exact hi.pending_of_opened ho
    · intro hp
      rw [hi.opened_of_pending hp]
      rfl
  have hpending : s.viaFalse (d, j) + s.viaResume (d, j) = 0 ↔ s.Pending d j e := by
    rw [← hopened]
    by_cases hm : (s.opened d).map Prod.fst = some j
    · rw [if_pos hm] at hsum
      exact ⟨fun _ => hm, fun _ => by omega⟩
    · rw [if_neg hm] at hsum
      exact ⟨fun h0 => by omega, fun h1 => absurd h1 hm⟩
  have hle : s.viaFalse (d, j) + s.viaResume (d, j) ≤ 1 := by omega
  have hone : ¬ s.Pending d j e → s.viaFalse (d, j) + s.viaResume (d, j) = 1 := by
    intro hno
    rw [← hpending] at hno
    omega
  refine ⟨hle, hpending, fun hstuck hp => hone fun hpd => ?_, fun t l hf => hone fun hpd => ?_, ?_, ?_⟩
  · rw [hi.settled hpd hstuck] at hp
    cases hp
  · have ho : s.opened d = none := hi.opens t _ hf
    rw [hi.opened_of_pending hpd] at ho
    cases ho
  · intro t via c hf hnull
    have hnot := hi.not_data hf
    cases hm : s.mContinuation e with
    | null => exact absurd hm hnull
    | one => rfl
    | data x => exact absurd hm (hnot x)
  · intro t via hf
    obtain ⟨-, hw, hm⟩ := hi.opens t _ hf
    exact hi.willCall hw hm

/-- Thread 0 registers its Runner, thread 1 then exchanges `mContinuation` first, and thread 0 spins. -/
def spinSchedule : List Act :=
  [.construct 0 0, .step 0, .await 0 (.future 0), .step 0, .step 0, .step 0, .step 0, .construct 0 0, .step 0,
    .await 0 (.routine 0), .step 0, .step 0, .step 0, .step 0, .setValue 1 0 (.val ()), .step 1, .step 1, .step 1,
    .finish 1 (.val ()), .step 1, .step 0, .step 1, .step 1, .step 1, .step 1, .step 0]

theorem continued_once_spin :
    ∃ s : State, Run step anyStep init spinSchedule s ∧ s.viaFalse (1, 0) = 1 ∧ s.viaResume (1, 0) = 0 ∧
      ¬ s.Pending 1 0 0 := by
  have hrun := exec_get_run step anyStep init spinSchedule (by decide)
  have honce := continued_once ⟨_, hrun⟩ (d := 1) (j := 0) (e := 0) (by decide)
  exact ⟨_, hrun, by decide, by decide, fun hp => absurd (honce.pending.2 hp) (by decide)⟩

end CoAwait.Routine
