import CoAwait.RoutineScope
import CoAwait.RoutinePrice
import CoAwait.WaitsFor

/-!
# No lost wakeup: where no thread can go on, everybody waits for somebody

| here | there |
| --- | --- |
| `Frame.beneath`                      | a pull, or a Runner loop that has called `resume()`: never innermost |
| `Watched`                            | a blocked thread and the `ConditionVariableTask` it has registered (`future.hpp:217-222`) |
| `State.parkedOn`                     | a coroutine whose Runner lies in a future |
| `no_lost_wakeup`                     | all queues empty, no operation of the library left |
| `unfinished_waits`                   | following who awaits whom from a coroutine |
-/

namespace CoAwait.Routine

open Runs Tokens WaitsFor Relation

variable {s s' : State} {d e x j : Nat} {k : RunnerId} {via : Via} {pc : RunPc} {res : Ptr} {t u : Nat} {f : Future}
  {a : Act} {top top' rest l : List Frame}

/-- An activation that waits for the one it has called. -/
def Frame.beneath : Frame → Bool
  | .run _ _ .pull | .runner _ .running => true
  | _ => false

/-! ## Who blocks is registered -/

/-- Only the completion of its future lets a blocked thread go on. -/
theorem wait_left (h : step s a = some s') (hs : s.stack t = .wait f true :: l) (hne : s'.stack t ≠ s.stack t) :
    s.cvReady t = true := by
  obtain ⟨l', hl, -⟩ := step_restacked h
  have ht : t = a.thread := by
    by_contra ht
    exact hne (by rw [hl, Function.update_of_ne ht])
  cases a with
  | step =>
    obtain rfl := ht
    simp only [step, threadStep, hs, waitStep] at h
    split at h
    case isTrue hcv => exact hcv
    case isFalse => cases h
  | handler t c i =>
    obtain rfl := ht
    cases hq : (s.queue c)[i]? <;> simp [step, hs, hq, Frame.idle] at h
  | _ =>
    obtain rfl := ht
    simp [step, hs, Frame.idle] at h

/-- What a step does to the futures, where the blocked threads stay blocked or one of them joins them. -/
inductive Futures (s : State) (t : Nat) (rest : List Frame) (s' : State) : Prop where
  | same : s'.fut = s.fut → s'.cvReady = s.cvReady →
      (∀ u f l, s'.stack u = .wait f true :: l → s.stack u = .wait f true :: l) → Futures s t rest s'
  | completed {f : Future} {v : Value Unit} {l pre : List Frame} : Completed s t f v l pre s' →
      (∀ u f l, s'.stack u = .wait f true :: l → s.stack u = .wait f true :: l) → Futures s t rest s'
  | runner {f : Future} {k : RunnerId} : (s.fut f).continuationPtr = .empty →
      s'.fut = Function.update s.fut f { s.fut f with continuationPtr := .task (.runner k) } →
      s'.cvReady = s.cvReady →
      (∀ u f l, s'.stack u = .wait f true :: l → s.stack u = .wait f true :: l) → Futures s t rest s'
  | cv {f : Future} : s.stack t = .wait f false :: rest → (s.fut f).continuationPtr = .empty →
      s'.stack = Function.update s.stack t (.wait f true :: rest) →
      s'.fut = Function.update s.fut f { s.fut f with continuationPtr := .task (.cv t) } →
      s'.cvReady = Function.update s.cvReady t false → Futures s t rest s'

/-- What calls something is user code, waits for what it has called, or returns. -/
theorem Frame.on_cases {g f : Frame} (h : g.on f) :
    f.idle = true ∨ f.beneath = true ∨ ∃ d via res, f = .run d via (.ret res) := by
  cases g with
  | main => exact absurd h id
  | body =>
    obtain ⟨_, rfl⟩ := h
    exact .inr (.inl rfl)
  | run d via pc =>
    rw [Frame.on] at h
    split at h
    case isTrue =>
      obtain ⟨_, rfl⟩ := h
      exact .inr (.inl rfl)
    case isFalse => exact .inl h
  | runner =>
    rcases h with hidle | ⟨d, via, res, rfl⟩
    · exact .inl hidle
    · exact .inr (.inr ⟨d, via, res, rfl⟩)
  | wait => exact .inl h

/-- What calls nothing is innermost. -/
theorem Stacked.head {x : Frame} (hf : ∀ g : Frame, ¬ g.on x) : ∀ {l₁ : List Frame}, Stacked (l₁ ++ x :: l) → l₁ = []
  | [], _ => rfl
  | [g], h => absurd h.1 (hf g)
  | g :: g' :: l₁, h => by
    have hnil : g' :: l₁ = [] := Stacked.head hf h.2
    cases hnil

theorem Stacked.wait_head {registered : Bool} {l₁ : List Frame} (h : Stacked (l₁ ++ .wait f registered :: l)) :
    l₁ = [] :=
  h.head fun _ hon => by rcases Frame.on_cases hon with h | h | ⟨_, _, _, h⟩ <;> cases h

theorem Stacked.leaving_head {aw : Awaitable} {l₁ : List Frame} (h : Stacked (l₁ ++ .body d (some aw) :: l)) :
    l₁ = [] :=
  h.head fun _ hon => by rcases Frame.on_cases hon with h | h | ⟨_, _, _, h⟩ <;> cases h

theorem Step.wait_old (hi : Inv s) (h : Step s t top top' rest s') (hnew : ∀ f l, top' ≠ .wait f true :: l) :
    ∀ u f l, s'.stack u = .wait f true :: l → s.stack u = .wait f true :: l := by
  intro u f l hw
  by_cases hu : u = t
  · subst hu
    rw [h.after, Function.update_self] at hw
    cases top' with
    | nil =>
      have hst := hi.stacked u
      rw [h.before, show rest = .wait f true :: l from hw] at hst
      rw [h.before, hst.wait_head]
      exact hw
    | cons g top' =>
      cases hw
      exact absurd rfl (hnew f top')
  · rwa [h.after, Function.update_of_ne hu] at hw

theorem Completed.fresh {v : Value Unit} {l' pre : List Frame} {g : Frame} (h : Completed s t f v l' pre s')
    (hg : ∀ f', g ≠ .wait f' true) (f' : Future) (l : List Frame) : pre ++ [g] ≠ .wait f' true :: l := by
  intro heq
  cases h with
  | alone | cv =>
    cases heq
    exact hg f' rfl
  | runner => cases heq

theorem Step.futures (hi : Inv s) (h : Step s t top top' rest s') : Futures s t rest s' := by
  have hold := h.wait_old hi
  cases h with
  | stay => exact .same rfl rfl fun _ _ _ hw => hw
  | move _ hm =>
    refine .same rfl rfl (hold ?_)
    rintro f l rfl
    cases hm
  | construct hs hf => exact .same rfl rfl (hold (by simp))
  | @setValue _ _ _ _ f pre _ hs hf hc =>
    refine .completed hc (hold (hc.fresh ?_))
    rintro f' rfl
    cases hf
  | setResult hs hc => exact .completed hc (hold (hc.fresh (by simp)))
  | registerFuture hs hp => exact .runner hp rfl rfl (hold (by simp))
  | awaitRegister hs hp => exact .runner hp rfl rfl (hold (by simp))
  | @finish _ _ d d' via v pc _ hpc => exact .same rfl rfl (hold (by simp))
  | @ret _ _ d k res =>
    have hold := hold (by simp)
    obtain ⟨_, _, hret⟩ := s.returnRes_frame t d res (.runner k (.loop res) :: rest)
    rw [hret] at hold ⊢
    exact .same rfl rfl hold
  | waitRegister hs hp => exact .cv hs hp rfl rfl rfl
  | _ => exact .same rfl rfl (hold (by simp))

structure Watched (s : State) : Prop extends Scope s where
  innermost : ∀ t f l, s.stack t = f :: l → f.beneath = false
  waits : ∀ t f l, s.stack t = .wait f true :: l →
    if s.cvReady t then (s.fut f).isReady = true else (s.fut f).continuationPtr = .task (.cv t)
  blocked : ∀ f t, (s.fut f).continuationPtr = .task (.cv t) →
    s.cvReady t = false ∧ ∃ l, s.stack t = .wait f true :: l
  /-- A Runner registered with a Routine stays there until the result is published. -/
  parked : ∀ e k, s.waiter e = some k →
    (s.fut (.result e)).continuationPtr = .task (.runner k) ∨ (s.fut (.result e)).isReady = true

theorem watched_init : Watched init where
  toScope := scope_init
  innermost := by
    intro t f l hs
    obtain rfl : f = .main := by
      cases hs
      rfl
    rfl
  waits := fun t f l hs => by cases hs
  blocked := fun f t hp => by simp [init] at hp
  parked := fun e k hw => by simp [init] at hw

/-! ### Steps -/

/-- What an activation that returns or goes away stands on can go on itself. -/
theorem Stacked.returns {f g : Frame} (h : Stacked (f :: g :: l)) (hb : ∀ d l, f ≠ .body d l)
    (hr : ∀ d pc, f ≠ .run d .resume pc) : g.beneath = false := by
  have hidle : g.idle = true → g.beneath = false := by
    intro hg
    cases g <;> first | rfl | cases hg
  cases f with
  | main => exact absurd h.1 id
  | body d l => exact absurd rfl (hb d l)
  | run d via pc =>
    have hon := h.1
    rw [Frame.on] at hon
    split at hon
    case isTrue hv =>
      subst hv
      exact absurd rfl (hr d pc)
    case isFalse => exact hidle hon
  | runner =>
    rcases h.1 with hg | ⟨_, _, _, rfl⟩
    · exact hidle hg
    · rfl
  | wait => exact hidle h.1

theorem step_innermost (hi : Watched s) (h : Step s t top top' rest s') :
    ∀ u f l, s'.stack u = f :: l → f.beneath = false := by
  intro u f l hs
  by_cases hu : u = t
  · subst hu
    have hst := hi.stacked u
    have hpop : ∀ g, top = [g] → top' = [] → (∀ d l, g ≠ .body d l) → (∀ d pc, g ≠ .run d .resume pc) →
        f.beneath = false := by
      rintro g rfl rfl hb hr
      rw [h.after, Function.update_self] at hs
      rw [h.before, show rest = f :: l from hs] at hst
      exact hst.returns hb hr
    have hafter := hs
    rw [h.after, Function.update_self] at hafter
    cases h with
    | stay => exact hi.innermost _ f l hs
    | move _ hm =>
      cases hm with
      | loopEnd | waitReady | waitDone => exact hpop _ rfl rfl (by simp) (by simp)
      | _ =>
        cases hafter
        rfl
    | @constructed _ _ d via pc _ hv => exact hpop _ rfl rfl (by simp) (by simp [hv])
    | repost => exact hpop _ rfl rfl (by simp) (by simp)
    | setValue hs' hidle hc =>
      cases hc with
      | alone | cv =>
        cases hafter
        exact hi.innermost _ _ _ hs'
      | runner =>
        cases hafter
        rfl
    | setResult _ hc =>
      cases hc with
      | alone | cv | runner =>
        cases hafter
        rfl
    | @finish _ _ d d' via v pc _ hpc =>
      cases hafter
      rw [hpc]
      split <;> rfl
    | _ =>
      cases hafter
      rfl
  · rw [h.after, Function.update_of_ne hu] at hs
    exact hi.innermost u f l hs

theorem Step.waiter_new (h : Step s t top top' rest s') (hw : s'.waiter e = some k) :
    s.waiter e = some k ∨ (s'.fut (.result e)).continuationPtr = .task (.runner k) := by
  cases h with
  | setValue _ _ hc | setResult _ hc => exact .inl (by cases hc <;> exact hw)
  | @ret _ _ d k' res =>
    obtain ⟨_, _, hret⟩ := s.returnRes_frame t d res (.runner k' (.loop res) :: rest)
    rw [hret] at hw
    exact .inl hw
  | @awaitRegister _ _ d j e' =>
    by_cases he : e = e'
    · subst he
      obtain rfl : (d, j) = k := by simpa using hw
      exact .inr (by simp [State.register])
    · exact .inl (by simpa [State.register, he, State.goto] using hw)
  | _ => exact .inl hw

theorem step_parked (hi : Watched s) (h : Step s t top top' rest s') : ∀ e k, s'.waiter e = some k →
    (s'.fut (.result e)).continuationPtr = .task (.runner k) ∨ (s'.fut (.result e)).isReady = true := by
  intro e k hw
  rcases h.waiter_new hw with hw | hw
  · rcases hi.parked e k hw with hp | hr
    · have hother : ∀ {f : Future} {g : LightFutureData Task Unit}, (s.fut f).continuationPtr = .empty →
          s'.fut = Function.update s.fut f g → (s'.fut (.result e)).continuationPtr = .task (.runner k) := by
        intro f g hempty hfut
        have hne : Future.result e ≠ f := by
          rintro rfl
          rw [hp] at hempty
          cases hempty
        rw [hfut, Function.update_of_ne hne, hp]
      rcases h.futures hi.toInv with ⟨hf, -, -⟩ | ⟨hc, -⟩ | ⟨hempty, hf, -, -⟩ | ⟨-, hempty, -, hf, -⟩
      · exact .inl (by rw [hf, hp])
      · rename_i f v l pre
        by_cases he : Future.result e = f
        · subst he
          exact .inr (by cases hc <;> simp)
        · exact .inl (by cases hc <;> simp [he, hp])
      · exact .inl (hother hempty hf)
      · exact .inl (hother hempty hf)
    · exact .inr (h.ready_kept hr)
  · exact .inl hw

theorem Completed.fut {v : Value Unit} {pre : List Frame} (h : Completed s t f v l pre s') :
    s'.fut = Function.update s.fut f ⟨.invalid, v⟩ := by
  cases h <;> rfl

/-- A Runner is registered where its coroutine awaits. -/
theorem Step.parked_new (h : Step s t top top' rest s') (hp : (s'.fut f).continuationPtr = .task (.runner (d, j))) :
    (s.fut f).continuationPtr = .task (.runner (d, j)) ∨
      (∃ via n, f = .plain n ∧ .run d via (.suspend j (.future n)) ∈ top) ∨
      ∃ via e c, f = .result e ∧ .run d via (.awaitSuspend j e c) ∈ top := by
  have hcompleted : ∀ {f' : Future} {v : Value Unit} {l pre : List Frame}, Completed s t f' v l pre s' →
      (s.fut f).continuationPtr = .task (.runner (d, j)) := by
    intro f' v l pre hc
    have hf : f ≠ f' := by
      rintro rfl
      simp [hc.fut] at hp
    simpa [hc.fut, hf] using hp
  cases h with
  | setValue _ _ hc | setResult _ hc => exact .inl (hcompleted hc)
  | ret =>
    obtain ⟨_, _, hret⟩ := s.returnRes_frame _ _ _ _
    rw [hret] at hp
    exact .inl hp
  | @registerFuture _ _ d' j' n via =>
    by_cases hf : f = .plain n
    · subst hf
      obtain ⟨rfl, rfl⟩ : d' = d ∧ j' = j := by simpa [State.register] using hp
      exact .inr (.inl ⟨via, n, rfl, List.mem_cons_self⟩)
    · exact .inl (by simpa [State.register, hf, State.goto] using hp)
  | @awaitRegister _ _ d' j' e via c =>
    by_cases hf : f = .result e
    · subst hf
      obtain ⟨rfl, rfl⟩ : d' = d ∧ j' = j := by simpa [State.register] using hp
      exact .inr (.inr ⟨via, e, c, rfl, List.mem_cons_self⟩)
    · exact .inl (by simpa [State.register, hf, State.goto] using hp)
  | @waitRegister _ _ f' =>
    have hf : f ≠ f' := by
      rintro rfl
      simp at hp
    exact .inl (by simpa [hf] using hp)
  | _ => exact .inl hp

/-- A post-leave function is that of the await by which the body leaves. -/
theorem Step.left_new {aw : Awaitable} (h : Step s t top top' rest s')
    (hp : s'.mPostLeave d = some (.await j aw)) : s.mPostLeave d = some (.await j aw) ∨ .body d (some aw) ∈ top := by
  cases h with
  | setValue _ _ hc | setResult _ hc => exact .inl (by cases hc <;> exact hp)
  | ret =>
    obtain ⟨_, _, hret⟩ := s.returnRes_frame _ _ _ _
    rw [hret] at hp
    exact .inl hp
  | @leave _ _ d' _ _ aw' =>
    by_cases hd : d = d'
    · subst hd
      obtain ⟨-, rfl⟩ : _ ∧ aw' = aw := by simpa [State.leave] using hp
      exact .inr List.mem_cons_self
    · exact .inl (by simpa [State.leave, hd, State.goto] using hp)
  | @finish _ _ d' | @fetch _ _ d' | @runPostLeave _ _ d' =>
    have hd : d ≠ d' := by
      rintro rfl
      simp at hp
    exact .inl (by simpa [hd, State.goto] using hp)
  | _ => exact .inl hp

/-- A completion wakes the thread that is registered, and no other one. -/
theorem Completed.cvReady {v : Value Unit} {pre : List Frame} (h : Completed s t f v l pre s') (u : Nat) :
    s'.cvReady u = if (s.fut f).continuationPtr = .task (.cv u) then true else s.cvReady u := by
  cases h with
  | alone hp => simp [hp, State.goto]
  | runner hp => simp [hp, State.goto]
  | @cv u' hp =>
    by_cases hu : u = u'
    · subst hu
      simp [hp]
    · simp [hp, hu, Ne.symm hu]

/-- A blocked thread stays where it is until it is woken. -/
theorem Watched.stays (hi : Watched s) (hst : step s a = some s') (hp : (s.fut f).continuationPtr = .task (.cv u)) :
    ∃ l, s.stack u = .wait f true :: l ∧ s'.stack u = .wait f true :: l := by
  obtain ⟨hcv, l, hs⟩ := hi.blocked f u hp
  refine ⟨l, hs, ?_⟩
  by_contra hne
  rw [wait_left hst hs (by rwa [hs])] at hcv
  cases hcv

theorem step_blocked (hi : Watched s) (hst : step s a = some s') (h : Step s t top top' rest s') :
    ∀ f u, (s'.fut f).continuationPtr = .task (.cv u) →
      s'.cvReady u = false ∧ ∃ l, s'.stack u = .wait f true :: l := by
  intro f u hp
  have hkept : (s.fut f).continuationPtr = .task (.cv u) → s'.cvReady u = s.cvReady u →
      s'.cvReady u = false ∧ ∃ l, s'.stack u = .wait f true :: l := by
    intro hp hcv
    obtain ⟨l, -, hs⟩ := hi.stays hst hp
    exact ⟨hcv.trans (hi.blocked f u hp).1, l, hs⟩
  rcases h.futures hi.toInv with ⟨hf, hcv, -⟩ | ⟨hc, -⟩ | ⟨-, hf, hcv, -⟩ | ⟨hs, -, hs', hf, hcv⟩
  · exact hkept (by rwa [hf] at hp) (by rw [hcv])
  · rename_i f' v l pre
    have hne : f ≠ f' := by
      rintro rfl
      simp [hc.fut] at hp
    have hold : (s.fut f).continuationPtr = .task (.cv u) := by simpa [hc.fut, hne] using hp
    refine hkept hold ?_
    rw [hc.cvReady, if_neg]
    intro hp'
    -- `u` is blocked on one future only
    obtain ⟨_, hs, -⟩ := hi.stays hst hold
    obtain ⟨_, hs', -⟩ := hi.stays hst hp'
    rw [hs] at hs'
    cases hs'
    exact hne rfl
  · rename_i f' k
    have hne : f ≠ f' := by
      rintro rfl
      simp [hf] at hp
    exact hkept (by simpa [hf, hne] using hp) (by rw [hcv])
  · rename_i f'
    by_cases hne : f = f'
    · subst hne
      obtain rfl : t = u := by simpa [hf] using hp
      exact ⟨by simp [hcv], rest, by simp [hs']⟩
    · have hold : (s.fut f).continuationPtr = .task (.cv u) := by simpa [hf, hne] using hp
      have hut : u ≠ t := by
        rintro rfl
        obtain ⟨_, hs'', -⟩ := hi.stays hst hold
        rw [hs] at hs''
        cases hs''
      exact hkept hold (by simp [hcv, hut])

theorem step_waits (hi : Watched s) (h : Step s t top top' rest s') : ∀ u f l, s'.stack u = .wait f true :: l →
    if s'.cvReady u then (s'.fut f).isReady = true else (s'.fut f).continuationPtr = .task (.cv u) := by
  intro u f l hs
  have hkept : s.stack u = .wait f true :: l → (s'.fut f).continuationPtr = (s.fut f).continuationPtr →
      s'.cvReady u = s.cvReady u →
      if s'.cvReady u then (s'.fut f).isReady = true else (s'.fut f).continuationPtr = .task (.cv u) := by
    intro hs hf hcv
    have hw := hi.waits u f l hs
    rwa [LightFutureData.isReady_iff, ← hf, ← hcv, ← LightFutureData.isReady_iff] at hw
  rcases h.futures hi.toInv with ⟨hf, hcv, hold⟩ | ⟨hc, hold⟩ | ⟨hempty, hf, hcv, hold⟩ | ⟨hs₀, hempty, hs', hf, hcv⟩
  · exact hkept (hold u f l hs) (by rw [hf]) (by rw [hcv])
  · rename_i f' v l' pre
    have hw := hi.waits u f l (hold u f l hs)
    by_cases hne : f = f'
    · subst hne
      have hready : (s'.fut f).isReady = true := by simp [hc.fut]
      cases hcvu : s.cvReady u with
      | true => simp [hc.cvReady, hcvu, hready]
      | false =>
        rw [hcvu, if_neg (by simp)] at hw
        simp [hc.cvReady, hw, hready]
    · refine hkept (hold u f l hs) (by simp [hc.fut, hne]) ?_
      rw [hc.cvReady, if_neg]
      intro hp'
      obtain ⟨-, _, hs'⟩ := hi.blocked f' u hp'
      rw [hold u f l hs] at hs'
      cases hs'
      exact hne rfl
  · rename_i f' k
    have hne : f ≠ f' := by
      rintro rfl
      have hw := hi.waits u f l (hold u f l hs)
      rw [LightFutureData.isReady_iff, hempty] at hw
      split at hw <;> cases hw
    exact hkept (hold u f l hs) (by simp [hf, hne]) (by rw [hcv])
  · rename_i f'
    by_cases hu : u = t
    · subst hu
      rw [hs', Function.update_self] at hs
      cases hs
      simp [hf, hcv]
    · rw [hs', Function.update_of_ne hu] at hs
      have hne : f ≠ f' := by
        rintro rfl
        have hw := hi.waits u f l hs
        rw [LightFutureData.isReady_iff, hempty] at hw
        split at hw <;> cases hw
      exact hkept hs (by simp [hf, hne]) (by simp [hcv, hu])

theorem step_watched (hi : Watched s) (hst : step s a = some s') (h : Step s t top top' rest s') : Watched s' where
  toScope := step_scope hi.toScope h
  innermost := step_innermost hi h
  waits := step_waits hi h
  blocked := step_blocked hi hst h
  parked := step_parked hi h

theorem watched_reachable {ok : State → Act → Prop} (h : Reachable step ok init s) : Watched s :=
  h.invariant watched_init fun _ _ _ hi _ hst =>
    let ⟨_, _, _, _, hstep⟩ := step_cases hst
    step_watched hi hst hstep

/-! ## Nothing left to do -/

/-- The body of `d` has not ended. -/
def State.active (s : State) (d : Nat) : Prop := d < s.born ∧ s.mPull d = true

/-- The Runner of the await that `d` has left by lies in `f`. -/
def State.parkedOn (s : State) (d : Nat) (f : Future) : Prop :=
  ∃ j, s.awaits d = j + 1 ∧ (s.fut f).continuationPtr = .task (.runner (d, j))

/-- An activation of the library that does not block can go on, or lets another thread go on. -/
theorem Watched.enabled (hi : Watched s) {g : Frame} (hs : s.stack t = g :: l) (hidle : g.idle = false)
    (hwait : ∀ f, g ≠ .wait f true) : ¬ s.stuck := by
  intro hstuck
  have hnone := hstuck t
  have hin := hi.innermost t g l hs
  have hst := hi.stacked t
  have hsound := hi.frames t g (by simp [hs])
  rw [hs] at hst
  cases g with
  | main => cases hidle
  | body d leaving =>
    cases leaving with
    | none => cases hidle
    | some aw =>
      cases l with
      | nil => cases hst
      | cons g' l =>
        obtain ⟨via, rfl⟩ := hst.1
        simp [step, threadStep, hs] at hnone
  | runner k c =>
    refine runner_enabled hs ?_ hnone
    rintro rfl
    cases hin
  | wait f registered =>
    cases registered with
    | true => exact hwait f rfl
    | false =>
      simp only [step, threadStep, hs, waitStep] at hnone
      split at hnone <;> cases hnone
  | run d via pc =>
    -- on the way back to the constructor or to the Runner loop
    have hback : via = .resume → ∃ k l', l = .runner k .running :: l' := by
      rintro rfl
      cases l with
      | nil => cases hst
      | cons g' l =>
        obtain ⟨k, rfl⟩ := hst.1
        exact ⟨k, l, rfl⟩
    rw [step_run hs] at hnone
    cases pc with
    | pull => cases hin
    | enter => simp [runStep] at hnone
    | left =>
      obtain ⟨-, -, j, aw, hp, -⟩ := hsound
      simp [runStep, hp] at hnone
    | suspend j aw =>
      cases aw with
      | future n =>
        simp only [runStep] at hnone
        split at hnone <;> cases hnone
      | context | routine => simp [runStep] at hnone
    | awaitSuspend | awaitContinuation | awaitSpin => exact hi.await_enabled hs rfl hstuck
    | ended | runPostLeave | setContinuation | setResult =>
      refine hi.finishes_enabled hs rfl ?_
      rw [step_run hs]
      exact hnone
    | suspended | ret =>
      by_cases hv : via = .resume
      · obtain ⟨k, l', rfl⟩ := hback hv
        simp [runStep, hv] at hnone
      · cases via with
        | resume => exact hv rfl
        | ctor | ctorResume => simp [runStep] at hnone

/-- Where all are stuck, the innermost activations are user code and blocked threads. -/
theorem Watched.head (hi : Watched s) (hstuck : s.stuck) (t : Nat) :
    ∃ f l, s.stack t = f :: l ∧ (f.idle = true ∨ ∃ g, f = .wait g true) := by
  have hst := hi.stacked t
  cases hs : s.stack t with
  | nil =>
    rw [hs] at hst
    cases hst
  | cons f l =>
    refine ⟨f, l, rfl, ?_⟩
    by_contra hno
    rw [not_or, Bool.not_eq_true, not_exists] at hno
    exact hi.enabled hs hno.1 hno.2 hstuck

/-- A Runner that is called, or goes on, is innermost or beneath its `resume()`. -/
theorem Stacked.runner_head {c : RunnerPc} (hc : c ≠ .running) : ∀ {l : List Frame}, Stacked l →
    .runner k c ∈ l → ∃ l', l = .runner k c :: l'
  | [], h, _ => absurd h id
  | [f], h, hf => by
    obtain rfl : f = .main := h
    simp at hf
  | f :: g :: l, h, hf => by
    rcases List.mem_cons.1 hf with rfl | hf
    · exact ⟨g :: l, rfl⟩
    · obtain ⟨l', hl⟩ := Stacked.runner_head hc h.2 hf
      cases hl
      exact absurd (Frame.on_runner h.1) hc

theorem Scope.parkedOn (hi : Scope s) (hp : (s.fut f).continuationPtr = .task (.runner (d, j))) :
    ∃! f, s.parkedOn d f := by
  have hmem : ∀ {f j}, (s.fut f).continuationPtr = .task (.runner (d, j)) →
      (d, j) ∈ spread Frame.calls s.stack s.refs (.inr (.fut f)) := by
    intro f j hp
    simp [spread, State.refs, hp]
  have hleft : ∀ {f j}, (s.fut f).continuationPtr = .task (.runner (d, j)) → s.awaits d = j + 1 :=
    fun hp => (hi.live (hi.refs.living _ _ (hmem hp))).left
  refine ⟨f, ⟨j, hleft hp, hp⟩, ?_⟩
  rintro f' ⟨j', haw, hp'⟩
  obtain rfl : j' = j := by
    have := hleft hp
    omega
  have hsame := hi.refs.unique (hmem hp') (hmem hp)
  cases hsame
  rfl

/-- The right to a coroutine whose body has not ended and is not on a stack lies in a future. -/
theorem Watched.executing_or_parked (hi : Watched s) (hstuck : s.stuck) (hqueue : ∀ c, s.queue c = [])
    (hd : s.active d) : (∃ t l, .body d l ∈ s.stack t) ∨ ∃! f, s.parkedOn d f := by
  obtain ⟨p, hp, -⟩ := hi.sole_place hd.1 hd.2
  have hmem : d ∈ s.at p := List.count_pos_iff.1 (by omega)
  have hrun : ∀ {t e via pc}, .run e via pc ∈ s.stack t → pc ≠ .pull → (∀ res, pc ≠ .ret res) → False := by
    intro t e via pc hf hpull hret
    obtain ⟨l, hs⟩ := (hi.stacked t).innermost hf hpull hret
    exact hi.enabled hs rfl (by simp) hstuck
  have hrunner : ∀ {t k c}, .runner k c ∈ s.stack t → c ≠ .running → False := by
    intro t k c hf hc
    obtain ⟨l, hs⟩ := (hi.stacked t).runner_head hc hf
    exact hi.enabled hs rfl (by simp) hstuck
  cases p with
  | executing t =>
    obtain ⟨f, hf, hdf⟩ := List.mem_flatMap.1 hmem
    cases f with
    | body d' l =>
      obtain rfl : d = d' := by simpa using hdf
      exact .inl ⟨t, l, hf⟩
    | _ => simp at hdf
  | evaluating t =>
    obtain ⟨f, hf, hdf⟩ := List.mem_flatMap.1 hmem
    cases f with
    | run e via pc =>
      refine (hrun hf ?_ ?_).elim
      · rintro rfl
        simp at hdf
      · rintro res rfl
        simp at hdf
    | _ => simp at hdf
  | resuming t =>
    obtain ⟨f, hf, hdf⟩ := List.mem_flatMap.1 hmem
    cases f with
    | run e via pc =>
      by_cases hret : ∃ res, pc = .ret res
      · obtain ⟨res, rfl⟩ := hret
        have hdata : res = .data d := by cases res <;> simp_all [Ptr.toList]
        obtain rfl := hi.via_resume (State.Resumable.constructed (hi.frames t _ hf) d hdata) hf
        obtain ⟨k, l₁, l₂, hl⟩ := (hi.stacked t).below hf
        exact absurd (hstuck t) (hi.ret_enabled hl)
      · refine (hrun hf ?_ (not_exists.1 hret)).elim
        rintro rfl
        simp at hdf
    | runner k c =>
      refine (hrunner hf ?_).elim
      rintro rfl
      simp at hdf
    | _ => simp at hdf
  | runner k =>
    have hlive : s.live k = true := by
      by_contra hl
      rw [State.at, rights_dead (by simpa using hl)] at hmem
      cases hmem
    have hcaller : s.mCaller k = .data d := by
      cases hc : s.mCaller k <;> simp_all [State.at, State.rights, Ptr.toList]
    obtain ⟨rfl, -⟩ := hi.runners k d hlive hcaller
    obtain ⟨q, hq, -⟩ := hi.refs.one k hlive
    have hkq := List.count_pos_iff.1 (by rw [hq]; exact Nat.one_pos)
    rcases q with t | f | c
    · obtain ⟨g, hg, hkg⟩ := List.mem_flatMap.1 hkq
      cases g with
      | runner k' c =>
        refine (hrunner hg ?_).elim
        rintro rfl
        simp at hkg
      | _ => simp at hkg
    · refine .inr (hi.parkedOn (f := f) (j := k.2) ?_)
      simp only [spread, State.refs] at hkq
      split at hkq
      · rename_i k' hp
        obtain rfl := List.mem_singleton.1 hkq
        exact hp
      · cases hkq
    · simp [spread, State.refs, hqueue c] at hkq
  | continuation e =>
    have hm : s.mContinuation e = .data d := by
      cases hc : s.mContinuation e <;> simp_all [State.at, State.rights, Ptr.toList]
    obtain ⟨j, hw, -⟩ := hi.hands e d hm
    rcases hi.parked e _ hw with hp | hr
    · exact .inr (hi.parkedOn hp)
    · rw [hi.ready e hr] at hm
      cases hm

/-- Who has ended has published its result. -/
theorem Watched.published_or_active (hi : Watched s) (hstuck : s.stuck) (e : Nat) :
    (s.fut (.result e)).isReady = true ∨ s.mPull e = true := by
  by_cases hp : s.mPull e = true
  · exact .inr hp
  · rcases hi.finisher e (by simpa using hp) with hr | ⟨t, via, pc, hf, hfin⟩
    · exact .inl hr
    · obtain ⟨l, hs⟩ := (hi.stacked t).innermost hf (by rintro rfl; cases hfin) (by rintro res rfl; cases hfin)
      exact absurd (hstuck t) (hi.finishes_enabled hs hfin)

/-- A Routine that is awaited has been constructed, and has not ended. -/
theorem Watched.awaited_active (hi : Watched s) (hstuck : s.stuck) (hp : s.parkedOn d (.result e)) : s.active e := by
  obtain ⟨j, -, hp⟩ := hp
  constructor
  · by_contra hborn
    have hc := (hi.waiter e _ (hi.registered e _ hp)).2
    rw [(hi.blank e (by omega)).constructed] at hc
    cases hc
  · rcases hi.published_or_active hstuck e with hr | hp'
    · rw [LightFutureData.isReady_iff, hp] at hr
      cases hr
    · exact hp'

/-- A thread that stays blocked is registered in the future it blocks on. -/
theorem Watched.blocked_on (hi : Watched s) (hstuck : s.stuck) (hs : s.stack t = .wait f true :: l) :
    (s.fut f).continuationPtr = .task (.cv t) := by
  have hw := hi.waits t f l hs
  have hnone := hstuck t
  simp only [step, threadStep, hs, waitStep] at hnone
  split at hnone
  case isTrue => cases hnone
  case isFalse hcv => rwa [if_neg hcv] at hw

/-! ## Results -/

/-- Where no thread can make a step of the library and no handler is queued, every thread executes user code or
blocks on a future in which it is registered, every coroutine whose body has not ended is on a stack or has its
Runner in exactly one future, and every other one has published its result. -/
theorem no_lost_wakeup {ok : State → Act → Prop} (h : Reachable step ok init s) (hstuck : s.stuck)
    (hqueue : ∀ c, s.queue c = []) :
    (∀ t, ∃ f l, s.stack t = f :: l ∧
      (f.idle = true ∨ ∃ g, f = .wait g true ∧ (s.fut g).continuationPtr = .task (.cv t))) ∧
    (∀ d, s.active d → (∃ t l, .body d l ∈ s.stack t) ∨ ∃! f, s.parkedOn d f) ∧
    ∀ e, (s.fut (.result e)).isReady = true ∨ s.mPull e = true := by
  have hi := watched_reachable h
  refine ⟨fun t => ?_, fun d hd => hi.executing_or_parked hstuck hqueue hd, hi.published_or_active hstuck⟩
  obtain ⟨f, l, hs, hidle | ⟨g, rfl⟩⟩ := hi.head hstuck t
  · exact ⟨f, l, hs, .inl hidle⟩
  · exact ⟨_, l, hs, .inr ⟨g, rfl, hi.blocked_on hstuck hs⟩⟩

/-- Coroutine 0 awaits future 0 and its constructor has returned. -/
def parkedSchedule : List Act :=
  [.construct 0 0, .step 0, .await 0 (.future 0), .step 0, .step 0, .step 0, .step 0]

theorem no_lost_wakeup_parked : ∃ s : State, Run step anyStep init parkedSchedule s ∧ s.active 0 ∧
    (∀ t, s.stack t = [.main]) ∧ ∃! f, s.parkedOn 0 f := by
  have hrun := exec_get_run step anyStep init parkedSchedule (by decide)
  have hidle : ∀ t, ((exec step anyStep init parkedSchedule).get (by decide)).stack t = [.main] := fun t => by
    cases t <;> rfl
  refine ⟨_, hrun, ⟨by decide, by decide⟩, hidle, ?_⟩
  have hlost := no_lost_wakeup ⟨_, hrun⟩ (fun t => by simp [step, threadStep, hidle t]) (fun c => by cases c <;> rfl)
  rcases hlost.2.1 0 ⟨by decide, by decide⟩ with ⟨t, l, hf⟩ | hparked
  · simp [hidle t] at hf
  · exact hparked

/-- Following from a coroutine whose body has not ended who awaits whose result, one comes to a coroutine that is on
a stack, to one whose Runner lies in a future that user code has to complete, or to a cycle. -/
theorem unfinished_waits {ok : State → Act → Prop} (h : Reachable step ok init s) (hstuck : s.stuck)
    (hqueue : ∀ c, s.queue c = []) (hd : s.active d) :
    ∃ e, s.active e ∧ ReflTransGen (fun d e => s.parkedOn d (.result e)) d e ∧
      (((∃ t l, .body e l ∈ s.stack t) ∨ ∃ n, s.parkedOn e (.plain n)) ∨
        TransGen (fun d e => s.parkedOn d (.result e)) e e) := by
  have hi := watched_reachable h
  have hfinite : Finite { d // s.active d } :=
    Finite.of_injective (fun d => (⟨d.1, d.2.1⟩ : Fin s.born)) fun d e h => Subtype.ext (by simpa using h)
  refine end_or_cycle (S := s.active) (fun d hd => ?_) hd
  rcases hi.executing_or_parked hstuck hqueue hd with hf | ⟨f, hp, -⟩
  · exact .inl (.inl hf)
  · cases f with
    | plain n => exact .inl (.inr ⟨n, hp⟩)
    | result e => exact .inr ⟨e, hi.awaited_active hstuck hp, hp⟩

/-- Coroutine 1 awaits coroutine 0, which awaits future 0. -/
def chainSchedule : List Act :=
  parkedSchedule ++
    [.construct 0 0, .step 0, .await 0 (.routine 0), .step 0, .step 0, .step 0, .step 0, .step 0, .step 0]

theorem unfinished_waits_chain : ∃ s : State, Run step anyStep init chainSchedule s ∧ s.parkedOn 1 (.result 0) ∧
    ∃ e, s.active e ∧ ReflTransGen (fun d e => s.parkedOn d (.result e)) 1 e ∧
      (((∃ t l, .body e l ∈ s.stack t) ∨ ∃ n, s.parkedOn e (.plain n)) ∨
        TransGen (fun d e => s.parkedOn d (.result e)) e e) := by
  have hrun := exec_get_run step anyStep init chainSchedule (by decide)
  have hidle : ∀ t, ((exec step anyStep init chainSchedule).get (by decide)).stack t = [.main] := fun t => by
    cases t <;> rfl
  exact ⟨_, hrun, ⟨0, by decide, by decide⟩, unfinished_waits ⟨_, hrun⟩ (fun t => by simp [step, threadStep, hidle t])
    (fun c => by cases c <;> rfl) ⟨by decide, by decide⟩⟩

end CoAwait.Routine
