import CoAwait.RoutineCurrent
import CoAwait.RoutineIdle

/-!
# A coroutine is a thread that blocks

What a user of the library may think of: each body and the function of each thread is a process of its own, and a
process that awaits blocks until what it awaits is complete. What the activations say about the processes is
`Matches`; that it is kept is in `RoutineProcesses`.

| here | there |
| --- | --- |
| `Process`                              | the function of a thread, a body |
| `Act.pass`, `Act.block`, `Act.go`      | `co::await` returns at once, suspends or blocks, returns (`await.hpp:200`, `:226`, `future.hpp:217-222`) |
| `Act.complete`, `Act.finish`           | `set_value`, the end of a body |
| `suspendedOnce`                        | the assertion of `suspend` (`future.hpp:236`) |
-/

namespace CoAwait.Processes

open Routine (Awaitable Future)

inductive Process where
  | main (t : Nat)
  | coroutine (d : Nat)
deriving DecidableEq, Repr

inductive Status where
  | unborn
  | running
  | blocked (aw : Awaitable)
  | ended
deriving DecidableEq, Repr

structure State where
  status : Process → Status
  value : Future → Option (Value Unit) := fun _ => none

def init : State where
  status
    | .main _ => .running
    | .coroutine _ => .unborn

inductive Act where
  | create (p : Process) (d : Nat)
  | pass (p : Process) (aw : Awaitable)
  | block (p : Process) (aw : Awaitable)
  | go (p : Process)
  | complete (p : Process) (n : Nat) (v : Value Unit)
  | finish (d : Nat) (v : Value Unit)
deriving DecidableEq, Repr

/-- An io_context runs the handler some time. -/
def State.ready (s : State) : Awaitable → Bool
  | .future n => (s.value (.plain n)).isSome
  | .context _ => true
  | .routine e => (s.value (.result e)).isSome

def State.set (s : State) (p : Process) (st : Status) : State := { s with status := Function.update s.status p st }

def step (s : State) : Act → Option State
  | .create p d =>
    if s.status p = .running ∧ s.status (.coroutine d) = .unborn then some (s.set (.coroutine d) .running) else none
  | .pass p aw => if s.status p = .running ∧ s.ready aw = true then some s else none
  | .block p aw => if s.status p = .running then some (s.set p (.blocked aw)) else none
  | .go p =>
    match s.status p with
    | .blocked aw => if s.ready aw then some (s.set p .running) else none
    | _ => none
  | .complete p n v =>
    if s.status p = .running ∧ s.value (.plain n) = none then
      some { s with value := Function.update s.value (.plain n) (some v) }
    else none
  | .finish d v =>
    if s.status (.coroutine d) = .running then
      some { s.set (.coroutine d) .ended with value := Function.update s.value (.result d) (some v) }
    else none

end CoAwait.Processes

namespace CoAwait.Routine

open Runs Tokens
open Processes (Process Status)

/-! ## The process of an activation -/

/-- The process that user code on the innermost activation is. -/
def Frame.process (t : Nat) : Frame → Option Process
  | .main => some (.main t)
  | .body d none => some (.coroutine d)
  | _ => none

def State.process (s : State) (t : Nat) : Option Process :=
  match s.stack t with
  | f :: _ => f.process t
  | [] => none

def event (s : State) : Act → Option Processes.Act
  | .construct t _ => (s.process t).map fun p => .create p s.born
  | .await t aw => (s.process t).map fun p => if s.awaitReady aw then .pass p aw else .block p aw
  | .finish t v =>
    match s.process t with
    | some (.coroutine d) => some (.finish d v)
    | _ => none
  | .setValue t n v => (s.process t).map fun p => .complete p n v
  | .handler .. => none
  | .wait t f => (s.process t).map fun p => .block p f.awaitable
  | .step t =>
    match s.stack t with
    | .run d via .enter :: _ => if via = .ctor then none else some (.go (.coroutine d))
    | .wait f registered :: g :: _ => if registered || (s.fut f).isReady then (g.process t).map .go else none
    | _ => none

/-- The future on which `t` is about to call `suspend`. -/
def State.suspends (s : State) (t : Nat) : Option Future :=
  match s.stack t with
  | .run _ _ (.suspend _ (.future n)) :: _ => some (.plain n)
  | .run _ _ (.awaitSuspend _ e _) :: _ => some (.result e)
  | .wait f false :: _ => some f
  | _ => none

def suspendedOnce (s : State) : Act → Prop
  | .step t => ∀ f ∈ s.suspends t, (s.fut f).continuationPtr = .empty ∨ (s.fut f).isReady = true
  | _ => True

instance (s : State) : (a : Act) → Decidable (suspendedOnce s a)
  | .step t => inferInstanceAs (Decidable (∀ f ∈ s.suspends t, _))
  | .construct .. | .await .. | .finish .. | .setValue .. | .handler .. | .wait .. => .isTrue trivial

/-! ## What the activations say about the processes -/

/-- What `d` awaits is complete. -/
def Woken (s' : Processes.State) (d : Nat) : Prop :=
  ∃ aw, s'.status (.coroutine d) = .blocked aw ∧ s'.ready aw = true

def RunPc.Told (s' : Processes.State) (d : Nat) (via : Via) : RunPc → Prop
  | .enter => if via = .ctor then s'.status (.coroutine d) = .running else Woken s' d
  | .suspend _ aw => s'.status (.coroutine d) = .blocked aw
  | .awaitSuspend _ e _ | .awaitContinuation _ e _ | .awaitSpin _ e =>
    s'.status (.coroutine d) = .blocked (.routine e)
  | .runPostLeave res | .setContinuation res | .setResult res | .ret res => ∀ x, res = .data x → Woken s' x
  | .pull | .left | .suspended | .ended => True

/-- `st` is what the activation above makes of user code. -/
def Frame.Told (s' : Processes.State) (t : Nat) (st : Status) : Frame → Prop
  | .main => s'.status (.main t) = st
  | .body d none => s'.status (.coroutine d) = st
  | .body d (some aw) => s'.status (.coroutine d) = .blocked aw
  | .run d via pc => pc.Told s' d via
  | .runner k .enter => Woken s' k.1
  | .runner _ (.loop c) => ∀ x, c = .data x → Woken s' x
  | .runner _ .running | .wait .. => True

def Frame.above : Frame → Status
  | .wait f _ => .blocked f.awaitable
  | _ => .running

def Told (s' : Processes.State) (t : Nat) : Status → List Frame → Prop
  | _, [] => True
  | st, f :: l => f.Told s' t st ∧ Told s' t f.above l

structure Matches (s : State) (s' : Processes.State) : Prop where
  frames : ∀ t, Told s' t .running (s.stack t)
  left : ∀ d j aw, s.mPostLeave d = some (.await j aw) → s'.status (.coroutine d) = .blocked aw
  parked : ∀ f d j, (s.fut f).continuationPtr = .task (.runner (d, j)) →
    s'.status (.coroutine d) = .blocked f.awaitable
  queued : ∀ c, ∀ k ∈ s.queue c, Woken s' k.1
  continued : ∀ e d, s.mContinuation e = .data d → s'.status (.coroutine d) = .blocked (.routine e)
  unborn : ∀ d, s.born ≤ d → s'.status (.coroutine d) = .unborn
  active : ∀ d, s.mPull d = true → s'.value (.result d) = none
  ended : ∀ d, s.mPull d = false →
    s'.status (.coroutine d) = .ended ∧ s'.value (.result d) = some (s.mSetResult d)
  pending : ∀ n, (s.fut (.plain n)).isReady = false → s'.value (.plain n) = none
  values : ∀ f, (s.fut f).isReady = true → s'.value f = some (s.fut f).value

variable {s u : State} {s' u' : Processes.State} {p : Process} {st : Status} {d e n j t : Nat} {aw : Awaitable}
  {a : Act} {f g : Frame} {top top' rest l : List Frame}

theorem matches_init : Matches init Processes.init where
  frames := fun _ => ⟨rfl, trivial⟩
  left := fun d j aw h => by simp [init] at h
  parked := fun f d j h => by simp [init] at h
  queued := fun c k h => by simp [init] at h
  continued := fun e d h => by simp [init] at h
  unborn := fun _ _ => rfl
  active := fun _ _ => rfl
  ended := fun d h => by simp [init] at h
  pending := fun _ _ => rfl
  values := fun f h => by simp [init] at h

/-! ## A process acts -/

/-- The status of `p` is what the activation is about. -/
def Frame.Mentions (t : Nat) (p : Process) (f : Frame) : Prop :=
  (f = .main ∧ p = .main t) ∨ ∃ d, p = .coroutine d ∧ (d ∈ f.holds ∨ ∃ j, (d, j) ∈ f.calls)

/-- Only `p` has another status now, and no value is gone. -/
structure Acts (s' : Processes.State) (p : Process) (u' : Processes.State) : Prop where
  status : ∀ q, q ≠ p → u'.status q = s'.status q
  value : ∀ f v, s'.value f = some v → u'.value f = some v

theorem Acts.set (s' : Processes.State) (p : Process) (st : Status) : Acts s' p (s'.set p st) :=
  ⟨fun _ hq => Function.update_of_ne hq .., fun _ _ h => h⟩

theorem Acts.ready (h : Acts s' p u') (hr : s'.ready aw = true) : u'.ready aw = true := by
  cases aw with
  | future n | routine e =>
    obtain ⟨v, hv⟩ := Option.isSome_iff_exists.1 hr
    exact Option.isSome_iff_exists.2 ⟨v, h.value _ v hv⟩
  | context c => rfl

theorem Acts.woken (h : Acts s' p u') (hw : Woken s' d) (hp : p ≠ .coroutine d) : Woken u' d := by
  obtain ⟨aw, hst, hr⟩ := hw
  exact ⟨aw, (h.status _ (Ne.symm hp)).trans hst, h.ready hr⟩

theorem Acts.told_frame (h : Acts s' p u') (hno : ¬ f.Mentions t p) (hf : f.Told s' t st) : f.Told u' t st := by
  have hne : ∀ d, d ∈ f.holds ∨ (∃ j, (d, j) ∈ f.calls) → p ≠ .coroutine d := by
    rintro d hd rfl
    exact hno (.inr ⟨d, rfl, hd⟩)
  have hkeep : ∀ {d st}, d ∈ f.holds → s'.status (.coroutine d) = st → u'.status (.coroutine d) = st :=
    fun hd hst => (h.status _ (Ne.symm (hne _ (.inl hd)))).trans hst
  have hwoken : ∀ {d}, d ∈ f.holds → Woken s' d → Woken u' d := fun hd hw => h.woken hw (hne _ (.inl hd))
  cases f with
  | main =>
    have hp : Process.main t ≠ p := by
      rintro rfl
      exact hno (.inl ⟨rfl, rfl⟩)
    exact (h.status _ hp).trans hf
  | body d leaving => cases leaving <;> exact hkeep (by simp) hf
  | run d via pc =>
    cases pc with
    | enter =>
      simp only [Frame.Told, RunPc.Told] at hf ⊢
      split at hf
      case isTrue hv =>
        rw [if_pos hv]
        exact hkeep (by simp) hf
      case isFalse hv =>
        rw [if_neg hv]
        exact hwoken (by simp) hf
    | suspend | awaitSuspend | awaitContinuation | awaitSpin => exact hkeep (by simp) hf
    | runPostLeave | setContinuation | setResult | ret =>
      exact fun x hx => hwoken (by simp [hx, Ptr.toList]) (hf x hx)
    | pull | left | suspended | ended => trivial
  | runner k pc =>
    cases pc with
    | enter => exact h.woken hf (hne _ (.inr ⟨k.2, by simp⟩))
    | loop c => exact fun x hx => hwoken (by simp [hx, Ptr.toList]) (hf x hx)
    | running => trivial
  | wait => trivial

theorem Acts.told (h : Acts s' p u') (hno : ∀ f ∈ l, ¬ f.Mentions t p) (hl : Told s' t st l) : Told u' t st l := by
  induction l generalizing st with
  | nil => trivial
  | cons f l ih =>
    exact ⟨h.told_frame (hno f List.mem_cons_self) hl.1, ih (fun g hg => hno g (List.mem_cons_of_mem _ hg)) hl.2⟩

/-- The activation `f` of `t` is that of `p`, and no Runner of `p` is in use. -/
def Owns (s : State) (t : Nat) (f : Frame) (p : Process) : Prop :=
  f = .main ∧ p = .main t ∨
    ∃ d, p = .coroutine d ∧ d ∈ f.holds ∧ (∀ j, s.live (d, j) = false) ∧ s.Idle d

/-- Who holds the right to `d` has no live Runner, but in an await of a Routine the one it is to register. -/
theorem Scope.no_runner (hi : Scope s) (hf : f ∈ s.stack t) (hd : d ∈ f.holds)
    (ho : ∀ j e, s.opened d = some (j, e) → s.live (d, j) = false) (j : Nat) : s.live (d, j) = false := by
  by_contra hl
  rw [Bool.not_eq_false] at hl
  cases hc : s.mCaller (d, j) with
  | one =>
    rw [hi.exchanged _ hc] at hl
    cases hl
  | data x =>
    obtain ⟨hx, -⟩ := hi.runners _ x hl hc
    have hr : d ∈ spread Frame.holds s.stack s.rights (.inr (.runner (d, j))) := by
      simp [spread, State.rights, hl, hc, hx, Ptr.toList]
    have ht : d ∈ spread Frame.holds s.stack s.rights (.inl t) := List.mem_flatMap.2 ⟨f, hf, hd⟩
    cases hi.rights.unique hr ht
  | null =>
    obtain ⟨e, he⟩ := hi.given _ hl hc
    rw [ho j e he] at hl
    cases hl

theorem Scope.owns_run (hi : Scope s) {via : Via} {pc : RunPc} (hf : .run d via pc ∈ s.stack t)
    (hd : d ∈ pc.holds d) (ho : s.opened d = none) (hp : s.Idle d) : Owns s t (.run d via pc) (.coroutine d) :=
  .inr ⟨d, rfl, hd, hi.no_runner hf hd (by simp [ho]), hp⟩

/-- `main` is at the bottom. -/
theorem Stacked.main_last : ∀ {l : List Frame}, Stacked (.main :: l) → l = []
  | [], _ => rfl
  | _ :: _, h => absurd h.1 id

theorem Stacked.main_mem : ∀ {l : List Frame}, Stacked l → .main ∈ l
  | [_], h => List.mem_singleton.2 h.symm
  | _ :: _ :: _, h => List.mem_cons_of_mem _ (Stacked.main_mem h.2)

theorem Stacked.main_rest (h : Stacked (top ++ rest)) (hf : .main ∈ top) : rest = [] := by
  induction top with
  | nil => cases hf
  | cons g top ih =>
    rcases List.mem_cons.1 hf with rfl | hf'
    · exact (List.append_eq_nil_iff.1 (Stacked.main_last h)).2
    · refine ih (h.tail ?_) hf'
      rintro rfl
      rw [(List.append_eq_nil_iff.1 (Stacked.main_last h)).1] at hf'
      cases hf'

/-- Nothing but the innermost activations of `t`, with `rest` beneath, is about `p`. -/
structure Alone (s : State) (t : Nat) (rest : List Frame) (p : Process) : Prop where
  frames : ∀ v g, (v ≠ t ∧ g ∈ s.stack v) ∨ g ∈ rest → ¬ g.Mentions v p
  runners : ∀ d j, s.live (d, j) = true → p ≠ .coroutine d
  postLeave : ∀ d, p = .coroutine d → s.mPostLeave d = none
  continuation : ∀ e d, s.mContinuation e = .data d → p ≠ .coroutine d

theorem Scope.alone (hi : Scope s) (top : List Frame) (hb : s.stack t = top ++ rest) (hf : f ∈ top)
    (ho : Owns s t f p) : Alone s t rest p := by
  have hft : f ∈ s.stack t := by simp [hb, hf]
  rcases ho with ⟨rfl, rfl⟩ | ⟨d, rfl, hd, hdead, hidle⟩
  · refine ⟨?_, by simp, by simp, by simp⟩
    rintro v g hg (⟨rfl, heq⟩ | ⟨_, heq, -⟩)
    · obtain rfl : t = v := by simpa using heq
      rcases hg with ⟨hne, -⟩ | hg
      · exact hne rfl
      · have hst := hi.stacked t
        rw [hb] at hst
        rw [hst.main_rest hf] at hg
        cases hg
    · cases heq
  · refine ⟨?_, ?_, ?_, ?_⟩
    · rintro v g hg (⟨-, heq⟩ | ⟨d', heq, hd' | ⟨j, hd'⟩⟩)
      · cases heq
      · obtain rfl : d = d' := by simpa using heq
        exact hi.rights.elsewhere hb hg hd' (List.mem_flatMap.2 ⟨f, hf, hd⟩)
      · obtain rfl : d = d' := by simpa using heq
        obtain ⟨w, hw⟩ : ∃ w, g ∈ s.stack w := by
          rcases hg with ⟨-, hg⟩ | hg
          · exact ⟨v, hg⟩
          · exact ⟨t, by simp [hb, hg]⟩
        have hlive : s.live (d, j) = true := hi.refs.living (.inl w) _ (List.mem_flatMap.2 ⟨g, hw, hd'⟩)
        rw [hdead j] at hlive
        cases hlive
    · rintro d' j hl heq
      cases heq
      rw [hdead j] at hl
      cases hl
    · rintro d' heq
      cases heq
      exact hidle.postLeave
    · rintro e d' hc heq
      cases heq
      have hr : d ∈ s.rights (.continuation e) := by simp [State.rights, hc, Ptr.toList]
      exact hi.rights.elsewhere_other hb hr (List.mem_flatMap.2 ⟨f, hf, hd⟩)

/-- Nothing is about a coroutine that is not yet there. -/
theorem Scope.alone_born (hi : Scope s) (hd : s.born ≤ d) (t : Nat) : Alone s t (s.stack t) (.coroutine d) := by
  have hblank := hi.blank d hd
  have hlive : ∀ j, s.live (d, j) = true → False := by
    intro j hl
    have hsus : s.Suspended d j := hi.live hl
    have := hblank.awaits
    have := hsus.left
    have := hsus.notResumed
    omega
  refine ⟨?_, ?_, ?_, ?_⟩
  · intro v g hg hm
    obtain ⟨w, hw⟩ : ∃ w, g ∈ s.stack w := hg.elim (fun h => ⟨v, h.2⟩) fun h => ⟨t, h⟩
    rcases hm with ⟨-, heq⟩ | ⟨d', heq, hd' | ⟨j, hd'⟩⟩
    · cases heq
    · cases heq
      have := (hi.unfinished_of_mem hw hd').1
      omega
    · cases heq
      exact hlive j (hi.refs.living (.inl w) _ (List.mem_flatMap.2 ⟨g, hw, hd'⟩))
  · rintro d' j hl heq
    cases heq
    exact hlive j hl
  · rintro d' heq
    cases heq
    exact hblank.postLeave
  · rintro e d' hc heq
    cases heq
    have hr : d ∈ s.rights (.continuation e) := by simp [State.rights, hc, Ptr.toList]
    have := (hi.rights.living (.inr (.continuation e)) d hr).1
    omega

/-- What remains true of everything else where `p` acts. -/
structure Others (s : State) (s' : Processes.State) (t : Nat) (rest : List Frame) : Prop where
  frames : ∀ v, v ≠ t → Told s' v .running (s.stack v)
  rest : Told s' t .running rest
  left : ∀ d j aw, s.mPostLeave d = some (.await j aw) → s'.status (.coroutine d) = .blocked aw
  parked : ∀ f d j, (s.fut f).continuationPtr = .task (.runner (d, j)) →
    s'.status (.coroutine d) = .blocked f.awaitable
  queued : ∀ c, ∀ k ∈ s.queue c, Woken s' k.1
  continued : ∀ e d, s.mContinuation e = .data d → s'.status (.coroutine d) = .blocked (.routine e)

theorem Matches.others (hm : Matches s s') (hi : Scope s) (ho : Alone s t rest p) (ha : Acts s' p u')
    (hrest : Told s' t .running rest) : Others s u' t rest where
  frames := fun v hv => ha.told (fun g hg => ho.frames v g (.inl ⟨hv, hg⟩)) (hm.frames v)
  rest := ha.told (fun g hg => ho.frames t g (.inr hg)) hrest
  left := by
    intro d j aw hp
    refine (ha.status _ ?_).trans (hm.left d j aw hp)
    rintro rfl
    rw [ho.postLeave d rfl] at hp
    cases hp
  parked := fun f d j hp =>
    (ha.status _ (Ne.symm (ho.runners d j (hi.refs.living (.inr (.fut f)) _ (by simp [spread, State.refs, hp]))))).trans
      (hm.parked f d j hp)
  queued := fun c k hk =>
    ha.woken (hm.queued c k hk) (ho.runners k.1 k.2 (hi.refs.living (.inr (.queue c)) _ hk))
  continued := fun e d hc => (ha.status _ (Ne.symm (ho.continuation e d hc))).trans (hm.continued e d hc)

end CoAwait.Routine
