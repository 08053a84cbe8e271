import CoAwait.Routine

/-!
# Coroutines on threads: what a step can do

* `Moves`: the steps that change the stack of a thread and nothing else.
* `Completed`: what a `set_value` can find.
* `Step`, `step_cases`: all of them, once for all invariants.
-/

namespace CoAwait.Routine

open Runs

/-- The innermost activations `top` of a thread become `top'`. -/
inductive Moves (s : State) : List Frame → List Frame → Prop where
  | await {d : Nat} {aw : Awaitable} : s.known aw = true → Moves s [.body d none] [.body d (some aw)]
  | wait {f : Future} {g : Frame} : g.idle = true → s.known f.awaitable = true → Moves s [g] [.wait f false, g]
  | nothingLeft {d : Nat} {via : Via} : s.mPostLeave d = none →
      Moves s [.run d via .left] [.run d via .suspended]
  | suspendReady {d j n : Nat} {via : Via} : (s.fut (.plain n)).continuationPtr ≠ .empty →
      Moves s [.run d via (.suspend j (.future n))] [.run d via.again .enter]
  | spin {d j e : Nat} {via : Via} {c : Ptr} : s.mContinuation e ≠ .null →
      Moves s [.run d via (.awaitContinuation j e c)] [.run d via (.awaitSpin j e)]
  | resumed {d : Nat} {k : RunnerId} :
      Moves s [.run d .resume .suspended, .runner k .running] [.runner k (.loop .null)]
  | loop {d : Nat} {k : RunnerId} :
      Moves s [.runner k (.loop (.data d))] [.run d .resume .enter, .runner k .running]
  | loopEnd {k : RunnerId} {c : Ptr} : (∀ d, c ≠ .data d) → Moves s [.runner k (.loop c)] []
  | waitReady {f : Future} : Moves s [.wait f false] []
  | waitDone {f : Future} : Moves s [.wait f true] []

/-- `set_value` on `f` by `t`, which calls what is registered on top of `l`. -/
inductive Completed (s : State) (t : Nat) (f : Future) (v : Value Unit) (l : List Frame) :
    List Frame → State → Prop where
  | alone : (s.fut f).continuationPtr = .empty →
      Completed s t f v l [] { s.goto t l with fut := Function.update s.fut f ⟨.invalid, v⟩ }
  | runner {k : RunnerId} : (s.fut f).continuationPtr = .task (.runner k) →
      Completed s t f v l [.runner k .enter]
        { s.goto t (.runner k .enter :: l) with fut := Function.update s.fut f ⟨.invalid, v⟩ }
  | cv {u : Nat} : (s.fut f).continuationPtr = .task (.cv u) →
      Completed s t f v l [] { s.goto t l with
        fut := Function.update s.fut f ⟨.invalid, v⟩
        cvReady := Function.update s.cvReady u true }

/-- `Step s t top top' rest s'`: a step of `t`, whose innermost activations `top` become `top'`. -/
inductive Step (s : State) : Nat → List Frame → List Frame → List Frame → State → Prop where
  | stay : Step s 0 [] [] (s.stack 0) s
  | move {t : Nat} {top top' rest : List Frame} : s.stack t = top ++ rest → Moves s top top' →
      Step s t top top' rest (s.goto t (top' ++ rest))
  | construct {t ctx : Nat} {rest : List Frame} {f : Frame} : s.stack t = f :: rest → f.idle = true →
      Step s t [f] [.run s.born .ctor .enter, f] rest
        { s.goto t (.run s.born .ctor .enter :: f :: rest) with
          born := s.born + 1
          mContext := Function.update s.mContext s.born ctx }
  | enter {t : Nat} {rest : List Frame} {d : Nat} {via : Via} : s.stack t = .run d via .enter :: rest →
      Step s t [.run d via .enter] [.body d none, .run d via .pull] rest
        (s.enter t d via (.body d none :: .run d via .pull :: rest))
  | leave {t : Nat} {rest : List Frame} {d d' : Nat} {via : Via} {aw : Awaitable} :
      s.stack t = .body d (some aw) :: .run d' via .pull :: rest →
      Step s t [.body d (some aw), .run d' via .pull] [.run d' via .left] rest
        (s.leave t d aw (.run d' via .left :: rest))
  | finish {t : Nat} {rest : List Frame} {d d' : Nat} {via : Via} {v : Value Unit} {pc : RunPc} :
      s.stack t = .body d none :: .run d' via .pull :: rest →
      (pc = if via = .ctor then .runPostLeave .null else .ended) →
      Step s t [.body d none, .run d' via .pull] [.run d' via pc] rest
        { s.goto t (.run d' via pc :: rest) with
          mPull := Function.update s.mPull d false
          mSetResult := Function.update s.mSetResult d v
          mPostLeave := Function.update s.mPostLeave d (some .setResult)
          current := Function.update s.current t (s.mOuter d) }
  | setValue {t : Nat} {rest : List Frame} {n : Nat} {v : Value Unit} {f : Frame} {pre : List Frame} {s' : State} :
      s.stack t = f :: rest → f.idle = true → Completed s t (.plain n) v (f :: rest) pre s' →
      Step s t [f] (pre ++ [f]) rest s'
  | handler {t : Nat} {rest : List Frame} {c i : Nat} {k : RunnerId} {f : Frame} :
      s.stack t = f :: rest → f.idle = true → (s.queue c)[i]? = some k →
      Step s t [f] [.runner k .enter, f] rest
        { s.goto t (.runner k .enter :: f :: rest) with
          queue := Function.update s.queue c ((s.queue c).eraseIdx i) }
  | fetch {t : Nat} {rest : List Frame} {d j : Nat} {via : Via} {aw : Awaitable} :
      s.stack t = .run d via .left :: rest → s.mPostLeave d = some (.await j aw) →
      Step s t [.run d via .left] [.run d via (.suspend j aw)] rest
        { s.goto t (.run d via (.suspend j aw) :: rest) with
          mPostLeave := Function.update s.mPostLeave d none }
  | registerFuture {t : Nat} {rest : List Frame} {d j n : Nat} {via : Via} :
      s.stack t = .run d via (.suspend j (.future n)) :: rest → (s.fut (.plain n)).continuationPtr = .empty →
      Step s t [.run d via (.suspend j (.future n))] [.run d via .suspended] rest
        (s.register t (.plain n) (d, j) { s.fut (.plain n) with continuationPtr := .task (.runner (d, j)) }
          (.run d via .suspended :: rest))
  | registerContext {t : Nat} {rest : List Frame} {d j c : Nat} {via : Via} :
      s.stack t = .run d via (.suspend j (.context c)) :: rest →
      Step s t [.run d via (.suspend j (.context c))] [.run d via .suspended] rest
        { s.goto t (.run d via .suspended :: rest) with
          queue := Function.update s.queue c (s.queue c ++ [(d, j)])
          live := Function.update s.live (d, j) true }
  | awaitExchange {t : Nat} {rest : List Frame} {d j e : Nat} {via : Via} :
      s.stack t = .run d via (.suspend j (.routine e)) :: rest →
      Step s t [.run d via (.suspend j (.routine e))] [.run d via (.awaitSuspend j e (s.mCaller (d, j)))] rest
        { s.goto t (.run d via (.awaitSuspend j e (s.mCaller (d, j))) :: rest) with
          mCaller := Function.update s.mCaller (d, j) .null
          started := Function.update s.started (d, j) (some e)
          opened := Function.update s.opened d (some (j, e)) }
  | awaitRegister {t : Nat} {rest : List Frame} {d j e : Nat} {via : Via} {c : Ptr} :
      s.stack t = .run d via (.awaitSuspend j e c) :: rest → (s.fut (.result e)).continuationPtr = .empty →
      Step s t [.run d via (.awaitSuspend j e c)] [.run d via (.awaitContinuation j e c)] rest
        { s.register t (.result e) (d, j) { s.fut (.result e) with continuationPtr := .task (.runner (d, j)) }
            (.run d via (.awaitContinuation j e c) :: rest) with
          waiter := Function.update s.waiter e (some (d, j)) }
  | awaitRefused {t : Nat} {rest : List Frame} {d j e : Nat} {via : Via} {c : Ptr} :
      s.stack t = .run d via (.awaitSuspend j e c) :: rest → (s.fut (.result e)).continuationPtr ≠ .empty →
      Step s t [.run d via (.awaitSuspend j e c)] [.run d via.again .enter] rest
        (s.goOn t (d, j) (.run d via.again .enter :: rest))
  | awaitParked {t : Nat} {rest : List Frame} {d j e : Nat} {via : Via} {c : Ptr} :
      s.stack t = .run d via (.awaitContinuation j e c) :: rest → s.mContinuation e = .null →
      Step s t [.run d via (.awaitContinuation j e c)] [.run d via .suspended] rest
        { s.goto t (.run d via .suspended :: rest) with
          mContinuation := Function.update s.mContinuation e c }
  | awaitSpun {t : Nat} {rest : List Frame} {d j e : Nat} {via : Via} :
      s.stack t = .run d via (.awaitSpin j e) :: rest → s.mCaller (d, j) = .one →
      Step s t [.run d via (.awaitSpin j e)] [.run d via.again .enter] rest
        (s.goOn t (d, j) (.run d via.again .enter :: rest))
  | constructed {t : Nat} {rest : List Frame} {d : Nat} {via : Via} {pc : RunPc} :
      s.stack t = .run d via pc :: rest → via ≠ .resume → (pc = .suspended ∨ ∃ res, pc = .ret res) →
      Step s t [.run d via pc] [] rest (s.construct t d rest)
  | ended {t : Nat} {rest : List Frame} {d : Nat} {via : Via} : s.stack t = .run d via .ended :: rest →
      Step s t [.run d via .ended] [.run d via (.runPostLeave (s.mContinuation d))] rest
        { s.goto t (.run d via (.runPostLeave (s.mContinuation d)) :: rest) with
          mContinuation := Function.update s.mContinuation d .one }
  | runPostLeave {t : Nat} {rest : List Frame} {d : Nat} {via : Via} {res : Ptr} :
      s.stack t = .run d via (.runPostLeave res) :: rest → s.mPostLeave d = some .setResult →
      Step s t [.run d via (.runPostLeave res)] [.run d via (.setContinuation res)] rest
        { s.goto t (.run d via (.setContinuation res) :: rest) with
          mPostLeave := Function.update s.mPostLeave d none }
  | setContinuation {t : Nat} {rest : List Frame} {d : Nat} {via : Via} {res c : Ptr} :
      s.stack t = .run d via (.setContinuation res) :: rest →
      (c = if s.mContinuation d = .null then .one else s.mContinuation d) →
      Step s t [.run d via (.setContinuation res)] [.run d via (.setResult res)] rest
        { s.goto t (.run d via (.setResult res) :: rest) with
          mContinuation := Function.update s.mContinuation d c }
  | setResult {t : Nat} {rest : List Frame} {d : Nat} {via : Via} {res : Ptr} {pre : List Frame} {s' : State} :
      s.stack t = .run d via (.setResult res) :: rest →
      Completed s t (.result d) (s.mSetResult d) (.run d via (.ret res) :: rest) pre s' →
      Step s t [.run d via (.setResult res)] (pre ++ [.run d via (.ret res)]) rest s'
  | ret {t : Nat} {rest : List Frame} {d : Nat} {k : RunnerId} {res : Ptr} :
      s.stack t = .run d .resume (.ret res) :: .runner k .running :: rest →
      Step s t [.run d .resume (.ret res), .runner k .running] [.runner k (.loop res)] rest
        (s.returnRes t d res (.runner k (.loop res) :: rest))
  | repost {t : Nat} {rest : List Frame} {x : Nat} {k : RunnerId} :
      s.stack t = .runner k .enter :: rest → s.current t = some x →
      Step s t [.runner k .enter] [] rest
        { s.goto t rest with
          queue := Function.update s.queue (s.mContext x) (s.queue (s.mContext x) ++ [k]) }
  | exchange {t : Nat} {rest : List Frame} {k : RunnerId} :
      s.stack t = .runner k .enter :: rest → s.current t = none →
      Step s t [.runner k .enter] [.runner k (.loop (s.mCaller k))] rest
        { s.goto t (.runner k (.loop (s.mCaller k)) :: rest) with
          mCaller := Function.update s.mCaller k .one
          live := Function.update s.live k false }
  | waitRegister {t : Nat} {rest : List Frame} {f : Future} :
      s.stack t = .wait f false :: rest → (s.fut f).continuationPtr = .empty →
      Step s t [.wait f false] [.wait f true] rest
        { s.goto t (.wait f true :: rest) with
          fut := Function.update s.fut f { s.fut f with continuationPtr := .task (.cv t) }
          cvReady := Function.update s.cvReady t false }

/-- Some thread makes a step. -/
def Steps (s s' : State) : Prop := ∃ t top top' rest, Step s t top top' rest s'

theorem Step.steps {s s' : State} {t : Nat} {top top' rest : List Frame} (h : Step s t top top' rest s') : Steps s s' :=
  ⟨t, top, top', rest, h⟩

variable {s s' : State} {t : Nat} {rest : List Frame}

theorem complete_cases {f : Future} {v : Value Unit} {l : List Frame} (h : s.complete t f v l = some s') :
    ∃ pre, Completed s t f v l pre s' := by
  simp only [State.complete, LightFutureData.exchange, LightFutureData.store] at h
  split at h
  case h_1 g hx =>
    obtain ⟨hp, rfl⟩ := Prod.mk.inj hx
    obtain rfl := Option.some.inj h
    exact ⟨_, .alone hp⟩
  case h_2 k g hx =>
    obtain ⟨hp, rfl⟩ := Prod.mk.inj hx
    obtain rfl := Option.some.inj h
    exact ⟨_, .runner hp⟩
  case h_3 u g hx =>
    obtain ⟨hp, rfl⟩ := Prod.mk.inj hx
    obtain rfl := Option.some.inj h
    exact ⟨_, .cv hp⟩
  case h_4 => cases h

/-- `suspend` registers on a fresh future and refuses otherwise. -/
theorem suspend_cases {K T : Type} (f : LightFutureData K T) (k : K) :
    f.continuationPtr = .empty ∧ f.suspend k = (true, { f with continuationPtr := .task k }) ∨
      f.continuationPtr ≠ .empty ∧ f.suspend k = (false, f) := by
  unfold LightFutureData.suspend
  split <;> simp_all

theorem Steps.of_move (top top' : List Frame) (hs : s.stack t = top ++ rest) (hm : Moves s top top')
    (h : some (s.goto t (top' ++ rest)) = some s') : Steps s s' := by
  obtain rfl := Option.some.inj h
  exact (Step.move hs hm).steps

theorem runStep_cases {d : Nat} {via : Via} {pc : RunPc} (hs : s.stack t = .run d via pc :: rest)
    (h : runStep s t d via rest pc = some s') : Steps s s' := by
  unfold runStep at h
  split at h
  case h_1 =>
    obtain rfl := Option.some.inj h
    exact (Step.enter hs).steps
  case h_2 => cases h
  case h_3 =>
    dsimp only at h
    split at h
    case h_1 hp =>
      rw [show Function.update s.mPostLeave d none = s.mPostLeave by rw [← hp, Function.update_eq_self]] at h
      exact Steps.of_move [_] [_] hs (.nothingLeft hp) h
    case h_2 j aw hp =>
      obtain rfl := Option.some.inj h
      exact (Step.fetch hs hp).steps
    case h_3 => cases h
  case h_4 j n =>
    rcases suspend_cases (s.fut (.plain n)) (.runner (d, j)) with ⟨he, hsus⟩ | ⟨he, hsus⟩
    · rw [hsus] at h
      obtain rfl := Option.some.inj h
      exact (Step.registerFuture hs he).steps
    · rw [hsus] at h
      exact Steps.of_move [_] [_] hs (.suspendReady he) h
  case h_5 j c =>
    obtain rfl := Option.some.inj h
    exact (Step.registerContext hs).steps
  case h_6 j e =>
    obtain rfl := Option.some.inj h
    exact (Step.awaitExchange hs).steps
  case h_7 j e c =>
    rcases suspend_cases (s.fut (.result e)) (.runner (d, j)) with ⟨he, hsus⟩ | ⟨he, hsus⟩
    · rw [hsus] at h
      obtain rfl := Option.some.inj h
      exact (Step.awaitRegister hs he).steps
    · rw [hsus] at h
      obtain rfl := Option.some.inj h
      exact (Step.awaitRefused hs he).steps
  case h_8 j e c =>
    split at h
    case isTrue hm =>
      obtain rfl := Option.some.inj h
      exact (Step.awaitParked hs hm).steps
    case isFalse hm => exact Steps.of_move [_] [_] hs (.spin hm) h
  case h_9 j e =>
    split at h
    case isTrue hc =>
      obtain rfl := Option.some.inj h
      exact (Step.awaitSpun hs hc).steps
    case isFalse => cases h
  case h_10 =>
    split at h
    case h_1 k rest => exact Steps.of_move [_, _] [_] hs .resumed h
    case h_2 => cases h
    case h_3 hv _ =>
      obtain rfl := Option.some.inj h
      exact (Step.constructed hs hv (.inl rfl)).steps
  case h_11 =>
    obtain rfl := Option.some.inj h
    exact (Step.ended hs).steps
  case h_12 res =>
    split at h
    case h_1 hp =>
      obtain rfl := Option.some.inj h
      exact (Step.runPostLeave hs hp).steps
    case h_2 => cases h
  case h_13 res =>
    obtain rfl := Option.some.inj h
    exact (Step.setContinuation hs rfl).steps
  case h_14 res =>
    obtain ⟨pre, hc⟩ := complete_cases h
    exact (Step.setResult hs hc).steps
  case h_15 res =>
    split at h
    case h_1 k rest =>
      obtain rfl := Option.some.inj h
      exact (Step.ret hs).steps
    case h_2 => cases h
    case h_3 hv _ =>
      obtain rfl := Option.some.inj h
      exact (Step.constructed hs hv (.inr ⟨res, rfl⟩)).steps

theorem runnerStep_cases {k : RunnerId} {pc : RunnerPc} (hs : s.stack t = .runner k pc :: rest)
    (h : runnerStep s t k rest pc = some s') : Steps s s' := by
  unfold runnerStep at h
  split at h
  case h_1 =>
    split at h
    case h_1 x hx =>
      obtain rfl := Option.some.inj h
      exact (Step.repost hs hx).steps
    case h_2 hx =>
      obtain rfl := Option.some.inj h
      exact (Step.exchange hs hx).steps
  case h_2 d => exact Steps.of_move [_] [_, _] hs .loop h
  case h_3 c hc => exact Steps.of_move [_] [] hs (.loopEnd hc) h
  case h_4 => cases h

theorem waitStep_cases {f : Future} {registered : Bool} (hs : s.stack t = .wait f registered :: rest)
    (h : waitStep s t f rest registered = some s') : Steps s s' := by
  cases registered with
  | false =>
    rcases suspend_cases (s.fut f) (.cv t) with ⟨he, hsus⟩ | ⟨he, hsus⟩
    · simp only [waitStep, hsus] at h
      obtain rfl := Option.some.inj h
      exact (Step.waitRegister hs he).steps
    · simp only [waitStep, hsus] at h
      exact Steps.of_move [_] [] hs .waitReady h
  | true =>
    simp only [waitStep] at h
    split at h
    case isTrue => exact Steps.of_move [_] [] hs .waitDone h
    case isFalse => cases h

theorem step_cases {a : Act} (h : step s a = some s') : Steps s s' := by
  unfold step at h
  split at h
  case h_1 t ctx =>
    split at h
    case h_1 f rest hs =>
      split at h
      case isTrue hf =>
        obtain rfl := Option.some.inj h
        exact (Step.construct hs hf).steps
      case isFalse => cases h
    case h_2 => cases h
  case h_2 t aw =>
    split at h
    case h_1 d rest hs =>
      split at h
      case isFalse => cases h
      case isTrue hk =>
        split at h
        case isTrue =>
          obtain rfl := Option.some.inj h
          exact (Step.stay).steps
        case isFalse => exact Steps.of_move [_] [_] hs (.await hk) h
    case h_2 => cases h
  case h_3 t v =>
    split at h
    case h_1 d d' via rest hs =>
      obtain rfl := Option.some.inj h
      exact (Step.finish hs rfl).steps
    case h_2 => cases h
  case h_4 t n v =>
    split at h
    case h_1 f rest hs =>
      split at h
      case isTrue hf =>
        obtain ⟨pre, hc⟩ := complete_cases h
        exact (Step.setValue hs hf hc).steps
      case isFalse => cases h
    case h_2 => cases h
  case h_5 t c i =>
    split at h
    case h_1 f rest k hs hk =>
      split at h
      case isTrue hf =>
        obtain rfl := Option.some.inj h
        exact (Step.handler hs hf hk).steps
      case isFalse => cases h
    case h_2 => cases h
  case h_6 t f =>
    split at h
    case h_1 g rest hs =>
      split at h
      case isTrue hg =>
        rw [Bool.and_eq_true] at hg
        exact Steps.of_move [_] [_, _] hs (.wait hg.1 hg.2) h
      case isFalse => cases h
    case h_2 => cases h
  case h_7 t =>
    unfold threadStep at h
    split at h
    case h_1 d aw d' via rest hs =>
      obtain rfl := Option.some.inj h
      exact (Step.leave hs).steps
    case h_2 d via pc rest hs => exact runStep_cases hs h
    case h_3 k pc rest hs => exact runnerStep_cases hs h
    case h_4 f registered rest hs => exact waitStep_cases hs h
    case h_5 => cases h

/-! ## The stacks -/

variable {top top' : List Frame}

theorem Step.before (h : Step s t top top' rest s') : s.stack t = top ++ rest := by
  cases h <;> first | assumption | rfl

theorem Completed.after {f : Future} {v : Value Unit} {l pre : List Frame} (h : Completed s t f v l pre s') :
    s'.stack = Function.update s.stack t (pre ++ l) := by
  cases h <;> rfl

theorem State.returnRes_cases (s : State) (t d : Nat) (res : Ptr) (l : List Frame) :
    (∃ x k, res = .data x ∧ s.waiter d = some k ∧ s.returnRes t d res l =
      { s.goto t l with
        viaResume := Function.update s.viaResume k (s.viaResume k + 1)
        opened := Function.update s.opened x none }) ∨
    (∀ x k, res = .data x → s.waiter d ≠ some k) ∧ s.returnRes t d res l = s.goto t l := by
  cases res with
  | null | one => exact .inr ⟨fun _ _ h => (by cases h), rfl⟩
  | data x =>
    cases hw : s.waiter d with
    | none => exact .inr ⟨fun _ _ _ => by simp, by simp [State.returnRes, hw]⟩
    | some k => exact .inl ⟨x, k, rfl, rfl, by simp [State.returnRes, hw]⟩

/-- On its way back `resume()` touches only what the observer knows about the await. -/
theorem State.returnRes_frame (s : State) (t d : Nat) (res : Ptr) (l : List Frame) :
    ∃ opened viaResume, s.returnRes t d res l = { s.goto t l with opened := opened, viaResume := viaResume } := by
  rcases s.returnRes_cases t d res l with ⟨x, k, -, -, h⟩ | ⟨-, h⟩
  · exact ⟨_, _, h⟩
  · exact ⟨s.opened, s.viaResume, h⟩

theorem State.returnRes_stack (s : State) (t d : Nat) (res : Ptr) (l : List Frame) :
    (s.returnRes t d res l).stack = Function.update s.stack t l := by
  obtain ⟨_, _, h⟩ := s.returnRes_frame t d res l
  rw [h]
  rfl

theorem Step.after (h : Step s t top top' rest s') : s'.stack = Function.update s.stack t (top' ++ rest) := by
  cases h with
  | stay => simp
  | setValue hs hf hc => simpa using hc.after
  | setResult hs hc => simpa using hc.after
  | ret hs => exact s.returnRes_stack ..
  | _ => rfl

/-- What an activation can stand on. -/
def Frame.on : Frame → Frame → Prop
  | .main, _ => False
  | .body d _, g => ∃ via, g = .run d via .pull
  | .run _ via _, g => if via = .resume then ∃ k, g = .runner k .running else g.idle = true
  | .runner .., g => g.idle = true ∨ ∃ d via res, g = .run d via (.ret res)
  | .wait .., g => g.idle = true

/-- `main` at the bottom, every other activation on one that called it. -/
def Stacked : List Frame → Prop
  | [] => False
  | [f] => f = .main
  | f :: g :: rest => f.on g ∧ Stacked (g :: rest)

theorem Stacked.tail {f : Frame} (h : Stacked (f :: rest)) (hf : f ≠ .main) : Stacked rest := by
  cases rest with
  | nil => exact absurd h hf
  | cons g rest => exact h.2

/-- The innermost activation goes on with something that may stand where it stood. -/
theorem Stacked.replace {f f' : Frame} (h : Stacked (f :: rest)) (hf : f ≠ .main)
    (hon : ∀ g, f.on g → f'.on g) : Stacked (f' :: rest) := by
  cases rest with
  | nil => exact absurd h hf
  | cons g rest => exact ⟨hon g h.1, h.2⟩

theorem Frame.on_again {d d' : Nat} {via : Via} {pc pc' : RunPc} {g : Frame} (h : (Frame.run d via pc).on g) :
    (Frame.run d' via.again pc').on g := by
  cases via <;> exact h

theorem Completed.stacked {f : Future} {v : Value Unit} {g : Frame} {pre : List Frame}
    (h : Completed s t f v (g :: rest) pre s') (hg : Stacked (g :: rest))
    (hon : ∀ k, (Frame.runner k .enter).on g) : Stacked (pre ++ g :: rest) := by
  cases h with
  | alone | cv => exact hg
  | runner => exact ⟨hon _, hg⟩

theorem Moves.stacked (h : Moves s top top') (hst : Stacked (top ++ rest)) : Stacked (top' ++ rest) := by
  cases h with
  | await => exact hst.replace (by simp) fun _ hg => hg
  | wait hg => exact ⟨hg, hst⟩
  | nothingLeft | spin => exact hst.replace (by simp) fun _ hg => hg
  | suspendReady => exact hst.replace (by simp) fun _ hg => Frame.on_again hg
  | resumed => exact hst.2.replace (by simp) fun _ hg => hg
  | loop => exact ⟨⟨_, rfl⟩, hst.replace (by simp) fun _ hg => hg⟩
  | loopEnd | waitReady | waitDone => exact hst.tail (by simp)

theorem Step.stacked (h : Step s t top top' rest s') (hst : Stacked (s.stack t)) : Stacked (s'.stack t) := by
  rw [h.after, Function.update_self]
  rw [h.before] at hst
  cases h with
  | stay => exact hst
  | move hs hm => exact hm.stacked hst
  | construct hs hf => exact ⟨hf, hst⟩
  | enter => exact ⟨⟨_, rfl⟩, hst.replace (by simp) fun _ hg => hg⟩
  | leave => exact hst.2.replace (by simp) fun _ hg => hg
  | finish => exact hst.2.replace (by simp) fun _ hg => hg
  | setValue hs hf hc => simpa using hc.stacked hst fun _ => .inl hf
  | handler hs hf => exact ⟨.inl hf, hst⟩
  | awaitRefused | awaitSpun => exact hst.replace (by simp) fun _ hg => Frame.on_again hg
  | constructed => exact hst.tail (by simp)
  | setResult hs hc =>
    simpa using hc.stacked (hst.replace (by simp) fun _ hg => hg) fun _ => .inr ⟨_, _, _, rfl⟩
  | ret => exact hst.2.replace (by simp) fun _ hg => hg
  | repost => exact hst.tail (by simp)
  | fetch | registerFuture | registerContext | awaitExchange | awaitRegister | awaitParked | ended | runPostLeave
    | setContinuation | exchange | waitRegister => exact hst.replace (by simp) fun _ hg => hg

end CoAwait.Routine
