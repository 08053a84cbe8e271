import CoAwait.Networking
import CoAwait.RendezvousPrice
import CoAwait.Simulation
import CoAwait.Table

/-!
# `yieldTo` and `runOutsideOfCoroutine` (`yieldto.hpp:19-57`, `async.hpp:44-85`)

An asynchronous operation gets a handler that refers to a `LightFutureData` and to variables on the stack of its
caller. Anybody may call the handler once, at any time after it was handed out, also before the caller awaits the
future. The caller goes through any sequence of such operations and of assignments of its own.

| here | there |
| --- | --- |
| `Frame`                   | the `YieldTo` object with `p`, or `f` in `runOutsideOfCoroutine`; the operation whose object it is |
| `Handler.args`            | `std::tuple<Args...> args`: a variable, or `none` for `ignoreParam` |
| `HandlerPc`, `handlerStep` | `Ref::operator()` (`yieldto.hpp:31-35`); the posted lambda (`async.hpp:53-63`, `:70-79`) |
| `HandlerPc.call`, `.notify` | the call in `on_ready` (`future.hpp:302`): of a Runner, which is one step here; of a thread's `ConditionVariableTask` (`:141-148`), its section under `mMut` and its `notify_one` |
| `ownerStep`               | `co::await(p)` in `~YieldTo` (`:47`), `await(f)` (`async.hpp:64`, `:80`) |
| `Act.run`                 | `runOutsideOfCoroutine` on a plain thread: `return func();` (`async.hpp:84`) |

`Outcome` is what the handler is called with: the assigned values, and the value or exception of the future. The
assignments of `func` to what it captures are assignments of its handler. The exception of a future is `.error`.

Once `mDataReady` is set, a caller on a thread goes on when it is notified or by itself (spuriously, or because it has
not slept yet). Steps of the library are each load, the `suspend` and the read of the result in `co::await`, each
assignment to the tuple, the store and the exchange of `set_value`, and the call. What a Runner does to resume its
coroutine is in `Routine`.

* `Plain`: the same program with blocking calls.
* `yieldTo_refines`: the program with handlers is that program, and no handler uses an object that is gone, but for
  the `notify_one` on a thread (`notified_late`).
* `yieldTo_returns`: an operation hangs only while its handler was not called.
-/

namespace CoAwait.YieldTo

open Runs Table UnbufferedChannel

variable {V R : Type}

/-- The results of an asynchronous operation. -/
structure Outcome (V R : Type) where
  args : List V
  res : Except Nat R

inductive OwnerPc where
  | idle
  | await (a : Await)
deriving DecidableEq, Repr

inductive HandlerPc (V R : Type) where
  /-- Handed out and not called. -/
  | pending
  | assign (rest : List (Option Nat × V)) (res : Except Nat R)
  | exchange
  | call
  /-- `mDataReady` is set, `notify_one` is left. -/
  | notify
  | done

structure Handler (V R : Type) where
  args : List (Option Nat)
  pc : HandlerPc V R := .pending

abbrev Frame (R : Type) := Nat × Cell (Except Nat R)

structure State (V R : Type) where
  vars : List V
  frame : Option (Frame R) := none
  opc : OwnerPc := .idle
  handlers : List (Handler V R) := []
  results : List (Except Nat R) := []

def init (vars : List V) : State V R := { vars }

inductive Act (V R : Type) where
  | assign (x : Nat) (v : V)
  /-- `asyncOp(…, yieldTo(args…))`, or `mContext.post(…)`. -/
  | start (args : List (Option Nat))
  | run (args : List (Option Nat)) (out : Outcome V R)
  | invoke (k : Nat) (out : Outcome V R)
  | handler (k : Nat)
  | owner

/-- One assignment to the tuple; that to `ignoreParam` does nothing. -/
def store (vars : List V) : Option Nat × V → List V
  | (some x, v) => vars.set x v
  | (none, _) => vars

def storeAll (vars : List V) (l : List (Option Nat × V)) : List V := l.foldl store vars

/-- The object of operation `k` as long as it exists. -/
def State.object (s : State V R) (k : Nat) : Option (Cell (Except Nat R)) :=
  match s.frame with
  | some (j, c) => if j = k then some c else none
  | none => none

def State.setHandler (s : State V R) (k : Nat) (args : List (Option Nat)) (pc : HandlerPc V R) : State V R :=
  { s with handlers := s.handlers.set k ⟨args, pc⟩ }

def HandlerPc.afterCall : Mode → HandlerPc V R
  | .routine => .done
  | .thread => .notify

/-- `none` also where the handler would use an object that is gone. -/
def handlerStep (mode : Mode) (s : State V R) (k : Nat) : Option (State V R) :=
  match s.handlers[k]? with
  | none | some ⟨_, .pending⟩ | some ⟨_, .done⟩ => none
  | some ⟨args, .assign (x :: rest) res⟩ =>
    match s.object k with
    | some _ => some { s.setHandler k args (.assign rest res) with vars := store s.vars x }
    | none => none
  | some ⟨args, .assign [] res⟩ =>
    match s.object k with
    | some c => some { s.setHandler k args .exchange with frame := some (k, c.store res) }
    | none => none
  | some ⟨args, .exchange⟩ =>
    match (s.object k).bind Cell.exchange with
    | some (false, c) => some { s.setHandler k args .done with frame := some (k, c) }
    | some (true, c) => some { s.setHandler k args .call with frame := some (k, c) }
    | none => none
  | some ⟨args, .call⟩ =>
    match s.opc with
    | .await .parked => some { s.setHandler k args (.afterCall mode) with opc := .await .get }
    | _ => none
  | some ⟨args, .notify⟩ =>
    match s.object k with
    | some _ => some (s.setHandler k args .done)
    | none => none

def ownerStep (mode : Mode) (s : State V R) : Option (State V R) :=
  match s.opc, s.frame with
  | .await .get, some (_, c) =>
    match c.get with
    | some res => some { s with opc := .idle, frame := none, results := s.results ++ [res] }
    | none => none
  | .await a, some (k, c) =>
    match c.awaitStep mode a with
    | some (c, a) => some { s with opc := .await a, frame := some (k, c) }
    | none => none
  | _, _ => none

/-- `mode` says where the caller runs. -/
def step (mode : Mode) (s : State V R) : Act V R → Option (State V R)
  | .assign x v =>
    match s.opc with
    | .idle => some { s with vars := s.vars.set x v }
    | _ => none
  | .start args =>
    match s.opc with
    | .idle => some { s with
        frame := some (s.handlers.length, {}), opc := .await (.poll 0), handlers := s.handlers ++ [{ args }] }
    | _ => none
  | .run args out =>
    match s.opc, mode with
    | .idle, .thread =>
      if args.length = out.args.length then
        some { s with vars := storeAll s.vars (args.zip out.args), results := s.results ++ [out.res] }
      else none
    | _, _ => none
  | .invoke k out =>
    match s.handlers[k]? with
    | some ⟨args, .pending⟩ =>
      if args.length = out.args.length then some (s.setHandler k args (.assign (args.zip out.args) out.res)) else none
    | _ => none
  | .handler k => handlerStep mode s k
  | .owner => ownerStep mode s

/-! ## The program with blocking calls -/

structure Plain (V R : Type) where
  vars : List V
  results : List (Except Nat R) := []

inductive PlainAct (V R : Type) where
  | assign (x : Nat) (v : V)
  | call (args : List (Option Nat)) (out : Outcome V R)

def plainStep (p : Plain V R) : PlainAct V R → Option (Plain V R)
  | .assign x v => some { p with vars := p.vars.set x v }
  | .call args out =>
    if args.length = out.args.length then
      some { vars := storeAll p.vars (args.zip out.args), results := p.results ++ [out.res] }
    else none

/-- A blocking call takes place where the handler is called. -/
def event (s : State V R) : Act V R → Option (PlainAct V R)
  | .assign x v => some (.assign x v)
  | .run args out => some (.call args out)
  | .invoke k out => (s.handlers[k]?).map fun h => .call h.args out
  | .start _ | .handler _ | .owner => none

/-! ## The relation -/

/-- Nothing is left of the handler but `notify_one` on a thread. -/
def HandlerPc.settled (mode : Mode) : HandlerPc V R → Prop
  | .done => True
  | .notify => mode = .thread
  | _ => False

theorem HandlerPc.settled_afterCall (mode : Mode) : (HandlerPc.afterCall mode : HandlerPc V R).settled mode := by
  cases mode
  · trivial
  · rfl

theorem HandlerPc.settled_cases {mode : Mode} {pc : HandlerPc V R} (h : pc.settled mode) :
    pc = .done ∨ pc = .notify ∧ mode = .thread := by
  cases pc with
  | done => exact .inl rfl
  | notify => exact .inr ⟨rfl, h⟩
  | _ => cases h

/-- The current operation: `vars` and `results` are the caller's, `c` is the future it awaits. -/
inductive Stage (mode : Mode) (vars : List V) (results : List (Except Nat R)) (p : Plain V R)
    (c : Cell (Except Nat R)) (a : Await) : HandlerPc V R → Prop
  | pending : c.Ok none (some a) → p = ⟨vars, results⟩ → Stage mode vars results p c a .pending
  | assign {rest : List (Option Nat × V)} {res : Except Nat R} : c.Ok none (some a) →
      p = ⟨storeAll vars rest, results ++ [res]⟩ → Stage mode vars results p c a (.assign rest res)
  | exchange {res : Except Nat R} : c.Ok none (some a) → c.fut.value = .val res → p = ⟨vars, results ++ [res]⟩ →
      Stage mode vars results p c a .exchange
  | call {res : Except Nat R} : c.Ok (some res) (some a) → a = .parked → p = ⟨vars, results ++ [res]⟩ →
      Stage mode vars results p c a .call
  | settled {res : Except Nat R} {pc : HandlerPc V R} : c.Ok (some res) (some a) → a ≠ .parked →
      p = ⟨vars, results ++ [res]⟩ → pc.settled mode → Stage mode vars results p c a pc

section
variable {mode : Mode} {vars : List V} {results : List (Except Nat R)} {p : Plain V R} {c : Cell (Except Nat R)}
  {a : Await} {pc : HandlerPc V R}

/-- The caller reads the result of a handler that is settled. -/
theorem Stage.get (h : Stage mode vars results p c .get pc) :
    pc.settled mode ∧ ∃ res, c.get = some res ∧ p = ⟨vars, results ++ [res]⟩ := by
  have hunset : ¬ c.Ok none (some .get) := fun hok => by
    obtain ⟨v, hv, -⟩ := hok.get
    cases hv
  cases h with
  | pending hok => exact absurd hok hunset
  | assign hok => exact absurd hok hunset
  | exchange hok => exact absurd hok hunset
  | call _ ha => cases ha
  | settled hok _ hp hsettled =>
    obtain ⟨res, hv, hget⟩ := hok.get
    obtain rfl := Option.some.inj hv
    exact ⟨hsettled, _, hget, hp⟩

/-- One step of `co::await`. -/
theorem Stage.awaits (h : Stage mode vars results p c a pc) (ha : a ≠ .parked) (hg : a ≠ .get) :
    ∃ c' a', c.awaitStep mode a = some (c', a') ∧ Stage mode vars results p c' a' pc := by
  cases h with
  | pending hok hp =>
    obtain ⟨c', a', hst, hok', -, -⟩ := hok.awaitStep mode ha hg
    exact ⟨c', a', hst, .pending hok' hp⟩
  | assign hok hp =>
    obtain ⟨c', a', hst, hok', -, -⟩ := hok.awaitStep mode ha hg
    exact ⟨c', a', hst, .assign hok' hp⟩
  | exchange hok hv hp =>
    obtain ⟨c', a', hst, hok', -, hkeep⟩ := hok.awaitStep mode ha hg
    exact ⟨c', a', hst, .exchange hok' (hkeep.trans hv) hp⟩
  | call _ hpark => exact absurd hpark ha
  | settled hok _ hp hsettled =>
    obtain ⟨c', a', hst, hok', hpark, -⟩ := hok.awaitStep mode ha hg
    exact ⟨c', a', hst, .settled hok' (fun hc => by cases hpark hc) hp hsettled⟩

/-- A handler that is settled may go on to its end. -/
theorem Stage.done (h : Stage mode vars results p c a pc) (hsettled : pc.settled mode) :
    Stage mode vars results p c a .done := by
  cases h with
  | pending | assign | exchange | call => cases hsettled
  | settled hok ha hp => exact .settled hok ha hp trivial

end

inductive Match (mode : Mode) (s : State V R) (p : Plain V R) : Prop
  | idle : s.opc = .idle → s.frame = none → (∀ h ∈ s.handlers, h.pc.settled mode) → p = ⟨s.vars, s.results⟩ →
      Match mode s p
  | await (old : List (Handler V R)) (args : List (Option Nat)) (pc : HandlerPc V R) (c : Cell (Except Nat R))
      (a : Await) : s.opc = .await a → s.frame = some (old.length, c) → s.handlers = old ++ [⟨args, pc⟩] →
      (∀ h ∈ old, h.pc.settled mode) → Stage mode s.vars s.results p c a pc → Match mode s p

variable {s s' : State V R} {p : Plain V R} {mode : Mode} {k : Nat} {args : List (Option Nat)} {pc : HandlerPc V R}

theorem match_init (mode : Mode) (vars : List V) : Match (R := R) mode (init vars) ⟨vars, []⟩ :=
  .idle rfl rfl (fun _ h => by cases h) rfl

/-- A handler that is not settled is that of the current operation. -/
theorem Match.current (h : Match mode s p) (hk : s.handlers[k]? = some ⟨args, pc⟩) (hpc : ¬ pc.settled mode) :
    ∃ old c a, k = old.length ∧ s.opc = .await a ∧ s.object k = some c ∧ s.frame = some (k, c) ∧
      s.handlers = old ++ [⟨args, pc⟩] ∧ (∀ h ∈ old, h.pc.settled mode) ∧ Stage mode s.vars s.results p c a pc := by
  cases h with
  | idle ho hf hall hp => exact absurd (hall _ (List.mem_of_getElem? hk)) hpc
  | await old args' pc' c a ho hf hh hold hst =>
    rw [hh] at hk
    rcases get_concat_iff.1 hk with hk | ⟨rfl, hrow⟩
    · exact absurd (hold _ (List.mem_of_getElem? hk)) hpc
    · cases hrow
      exact ⟨old, c, a, rfl, ho, by simp [State.object, hf], hf, hh, hold, hst⟩

/-- The handler of the current operation moves. -/
theorem Match.moved {old : List (Handler V R)} {c : Cell (Except Nat R)} {a : Await} {pc' : HandlerPc V R}
    (hh : s.handlers = old ++ [⟨args, pc⟩]) (hold : ∀ h ∈ old, h.pc.settled mode) (ho : s'.opc = .await a)
    (hf : s'.frame = some (old.length, c)) (hh' : s'.handlers = (s.setHandler old.length args pc').handlers)
    (hst : Stage mode s'.vars s'.results p c a pc') : Match mode s' p :=
  .await old args pc' c a ho hf (by rw [hh']; simp [State.setHandler, hh]) hold hst

/-- A handler that was called can go on. -/
theorem Match.handler (h : Match mode s p) (hk : s.handlers[k]? = some ⟨args, pc⟩) (hpending : pc ≠ .pending)
    (hsettled : ¬ pc.settled mode) : ∃ s', handlerStep mode s k = some s' ∧ Match mode s' p := by
  obtain ⟨old, c, a, rfl, ho, hobj, hf, hh, hold, hst⟩ := h.current hk hsettled
  unfold handlerStep
  rw [hk]
  cases hst with
  | pending hok hp => exact absurd rfl hpending
  | @assign rest res hok hp =>
    rw [hobj]
    cases rest with
    | nil => exact ⟨_, rfl, .moved hh hold ho rfl rfl (.exchange (hok.store res) rfl hp)⟩
    | cons x rest => exact ⟨_, rfl, .moved hh hold ho hf rfl (.assign hok hp)⟩
  | @exchange res hok hv hp =>
    obtain ⟨c', hc, hok'⟩ := hok.exchange hv
    rw [hobj, Option.bind_some, hc]
    by_cases ha : a = .parked
    · subst ha
      exact ⟨_, rfl, .moved hh hold ho rfl rfl (.call hok' rfl hp)⟩
    · rw [decide_eq_false (by simpa using ha)]
      exact ⟨_, rfl, .moved hh hold ho rfl rfl (.settled hok' ha hp trivial)⟩
  | call hok ha hp =>
    subst ha
    rw [ho]
    exact ⟨_, rfl, .moved hh hold rfl hf rfl (.settled hok.wake (by simp) hp (HandlerPc.settled_afterCall mode))⟩
  | settled hok ha hp hsettled' => exact absurd hsettled' hsettled

/-- `notify_one` of a handler, of this operation or of an earlier one. -/
theorem Match.notified (h : Match mode s p) (hk : s.handlers[k]? = some ⟨args, pc⟩) (hsettled : pc.settled mode) :
    Match mode (s.setHandler k args .done) p := by
  cases h with
  | idle ho hf hall hp =>
    refine .idle ho hf (fun x hx => ?_) hp
    rcases List.mem_or_eq_of_mem_set hx with hx | rfl
    · exact hall x hx
    · trivial
  | await old args' pc' c a ho hf hh hold hst =>
    rw [hh] at hk
    rcases get_concat_iff.1 hk with hk | ⟨rfl, hrow⟩
    · have hlt : k < old.length := (List.getElem?_eq_some_iff.1 hk).1
      refine .await (old.set k ⟨args, .done⟩) args' pc' c a ho (by simpa [State.setHandler] using hf)
        (by simp [State.setHandler, hh, List.set_append_left _ _ hlt]) (fun x hx => ?_) hst
      rcases List.mem_or_eq_of_mem_set hx with hx | rfl
      · exact hold x hx
      · trivial
    · cases hrow
      exact .moved hh hold ho hf rfl (hst.done hsettled)

/-- The caller can go on unless it is parked. -/
theorem Match.owner (h : Match mode s p) {a : Await} (ho : s.opc = .await a) (ha : a ≠ .parked) :
    ∃ s', ownerStep mode s = some s' ∧ Match mode s' p := by
  cases h with
  | idle hidle =>
    rw [ho] at hidle
    cases hidle
  | await old args pc c b hb hf hh hold hst =>
    obtain rfl : a = b := OwnerPc.await.inj (ho.symm.trans hb)
    by_cases hg : a = .get
    · subst hg
      obtain ⟨hsettled, res, hget, hp⟩ := hst.get
      refine ⟨{ s with opc := .idle, frame := none, results := s.results ++ [res] }, by simp [ownerStep, ho, hf, hget],
        .idle rfl rfl (fun x hx => ?_) hp⟩
      rcases List.mem_append.1 (hh ▸ hx) with hx | hx
      · exact hold x hx
      · rwa [List.mem_singleton.1 hx]
    · obtain ⟨c', a', hc, hst'⟩ := hst.awaits ha hg
      exact ⟨{ s with opc := .await a', frame := some (old.length, c') }, by simp [ownerStep, ho, hf, hc],
        .await old args pc c' a' rfl rfl hh hold hst'⟩

/-- The handler that a parked caller waits for is not settled. -/
theorem Match.parked (h : Match mode s p) (ho : s.opc = .await .parked) :
    ∃ args pc, s.handlers[s.handlers.length - 1]? = some ⟨args, pc⟩ ∧ ¬ pc.settled mode := by
  cases h with
  | idle hidle =>
    rw [ho] at hidle
    cases hidle
  | await old args pc c a ha hf hh hold hst =>
    obtain rfl : .parked = a := OwnerPc.await.inj (ho.symm.trans ha)
    refine ⟨args, pc, by simp [hh], fun hsettled => ?_⟩
    cases hst with
    | settled _ hpark => exact hpark rfl
    | pending | assign | exchange | call => cases hsettled

/-! ## The steps -/

theorem handlerStep_called (hst : handlerStep mode s k = some s') :
    ∃ args pc, s.handlers[k]? = some ⟨args, pc⟩ ∧ pc ≠ .pending ∧ pc ≠ .done := by
  cases hk : s.handlers[k]? with
  | none =>
    rw [handlerStep, hk] at hst
    cases hst
  | some h =>
    obtain ⟨args, pc⟩ := h
    refine ⟨args, pc, rfl, ?_, ?_⟩
    all_goals
      rintro rfl
      rw [handlerStep, hk] at hst
      cases hst

theorem ownerStep_awaits (hst : ownerStep mode s = some s') : ∃ a, s.opc = .await a ∧ a ≠ .parked := by
  cases ho : s.opc with
  | idle =>
    simp only [ownerStep, ho] at hst
    cases hst
  | await a =>
    refine ⟨a, rfl, ?_⟩
    rintro rfl
    cases hf : s.frame with
    | none =>
      simp only [ownerStep, ho, hf] at hst
      cases hst
    | some f =>
      simp only [ownerStep, ho, hf, Cell.awaitStep] at hst
      cases hst

theorem simulation (mode : Mode) :
    Simulation (step mode) anyStep plainStep anyStep event (Match (V := V) (R := R) mode) where
  stutter := by
    intro s p a s' h _ hst hev
    cases a with
    | assign x v => cases hev
    | run args out => cases hev
    | start args =>
      simp only [step] at hst
      split at hst <;> cases hst
      case h_1 ho =>
        cases h with
        | idle _ hf hall hp =>
          have hfresh : Cell.Ok (α := Except Nat R) none (some (.poll 0)) {} := Cell.Ok.emplace.turn (by simp) trivial
          exact .await s.handlers args .pending {} (.poll 0) rfl rfl rfl hall (.pending hfresh hp)
        | await old args' pc c a ha =>
          rw [ho] at ha
          cases ha
    | invoke k out =>
      simp only [step] at hst
      split at hst
      case h_1 args hk =>
        rw [event, hk] at hev
        cases hev
      case h_2 => cases hst
    | handler k =>
      obtain ⟨args, pc, hk, hpending, hdone⟩ := handlerStep_called hst
      by_cases hsettled : pc.settled mode
      · obtain ⟨rfl, -⟩ := (HandlerPc.settled_cases hsettled).resolve_left hdone
        simp only [step, handlerStep, hk] at hst
        split at hst <;> cases hst
        exact h.notified hk hsettled
      · obtain ⟨u, hu, hmatch⟩ := h.handler hk hpending hsettled
        obtain rfl := Option.some.inj (hu.symm.trans hst)
        exact hmatch
    | owner =>
      obtain ⟨a, ho, ha⟩ := ownerStep_awaits hst
      obtain ⟨u, hu, hmatch⟩ := h.owner ho ha
      obtain rfl := Option.some.inj (hu.symm.trans hst)
      exact hmatch
  follow := by
    intro s p a s' b h _ hst hev
    refine ⟨trivial, ?_⟩
    cases a with
    | assign x v =>
      cases hev
      simp only [step] at hst
      split at hst <;> cases hst
      case h_1 ho =>
        cases h with
        | idle _ hf hall hp =>
          subst hp
          exact ⟨_, rfl, .idle ho hf hall rfl⟩
        | await old args' pc c a ha =>
          rw [ho] at ha
          cases ha
    | run args out =>
      cases hev
      simp only [step] at hst
      split at hst
      case h_1 ho =>
        split at hst <;> cases hst
        case isTrue hlen =>
          cases h with
          | idle _ hf hall hp =>
            subst hp
            exact ⟨_, if_pos hlen, .idle ho hf hall rfl⟩
          | await old args' pc c a ha =>
            rw [ho] at ha
            cases ha
      case h_2 => cases hst
    | start args => cases hev
    | invoke k out =>
      simp only [step] at hst
      split at hst
      case h_1 args hk =>
        simp only [event, hk, Option.map_some, Option.some.injEq] at hev
        subst hev
        split at hst <;> cases hst
        case isTrue hlen =>
          obtain ⟨old, c, a, rfl, ho, hobj, hf, hh, hold, hstage⟩ := h.current hk id
          cases hstage with
          | pending hok hp =>
            subst hp
            exact ⟨_, if_pos hlen, .moved hh hold ho hf rfl (.assign hok rfl)⟩
          | settled _ _ _ hsettled => cases hsettled
      case h_2 => cases hst
    | handler k => cases hev
    | owner => cases hev

/-! ## Prices -/

/-- The steps that the library makes, not the caller's program and not whoever calls the handler. -/
def Act.library : Act V R → Bool
  | .handler _ | .owner => true
  | .assign _ _ | .start _ | .run _ _ | .invoke _ _ => false

def OwnerPc.price : OwnerPc → Nat
  | .idle => 0
  | .await a => a.price

def Handler.price : Handler V R → Nat
  | ⟨args, .pending⟩ => args.length + 4
  | ⟨_, .assign rest _⟩ => rest.length + 4
  | ⟨_, .exchange⟩ => 3
  | ⟨_, .call⟩ => 2
  | ⟨_, .notify⟩ => 1
  | ⟨_, .done⟩ => 0

def State.price (s : State V R) : Nat := s.opc.price + (s.handlers.map Handler.price).sum

/-- What the operations cost that were started. -/
def State.budget (s : State V R) : Nat := (s.handlers.map fun h => h.args.length + 13).sum

/-- The handler of operation `k` moves on to `pc'`. -/
theorem price_set (hk : s.handlers[k]? = some ⟨args, pc⟩) (pc' : HandlerPc V R) :
    ((s.setHandler k args pc').handlers.map Handler.price).sum + Handler.price ⟨args, pc⟩ =
      (s.handlers.map Handler.price).sum + Handler.price ⟨args, pc'⟩ ∧
    (s.setHandler k args pc').budget = s.budget :=
  ⟨sum_map_set hk, congrArg List.sum (map_set_same hk rfl)⟩

theorem handlerStep_price (hst : handlerStep mode s k = some s') : s'.price < s.price ∧ s'.budget = s.budget := by
  unfold handlerStep at hst
  split at hst
  case h_1 => cases hst
  case h_2 => cases hst
  case h_3 => cases hst
  case h_4 args x rest res hk =>
    split at hst <;> cases hst
    have hset := price_set hk (.assign rest res)
    refine ⟨?_, hset.2⟩
    simp only [State.price, Handler.price, List.length_cons, State.setHandler] at hset ⊢
    omega
  case h_5 args res hk =>
    split at hst <;> cases hst
    case h_1 c _ =>
      have hset := price_set hk .exchange
      refine ⟨?_, hset.2⟩
      simp only [State.price, Handler.price, List.length_nil, State.setHandler] at hset ⊢
      omega
  case h_6 args hk =>
    split at hst <;> cases hst
    case h_1 c _ =>
      have hset := price_set hk .done
      refine ⟨?_, hset.2⟩
      simp only [State.price, Handler.price, State.setHandler] at hset ⊢
      omega
    case h_2 c _ =>
      have hset := price_set hk .call
      refine ⟨?_, hset.2⟩
      simp only [State.price, Handler.price, State.setHandler] at hset ⊢
      omega
  case h_7 args hk =>
    split at hst <;> cases hst
    case h_1 ho =>
      have hset := price_set hk (.afterCall mode)
      refine ⟨?_, hset.2⟩
      have hcall : Handler.price ⟨args, HandlerPc.afterCall (V := V) (R := R) mode⟩ ≤ 1 := by
        cases mode <;> simp [HandlerPc.afterCall, Handler.price]
      have hcalling : Handler.price ⟨args, HandlerPc.call (V := V) (R := R)⟩ = 2 := rfl
      rw [hcalling] at hset
      simp only [State.price, State.setHandler, ho, OwnerPc.price, Await.price] at hset ⊢
      omega
  case h_8 args hk =>
    split at hst <;> cases hst
    have hset := price_set hk .done
    refine ⟨?_, hset.2⟩
    simp only [State.price, Handler.price, State.setHandler] at hset ⊢
    omega

theorem ownerStep_price (hst : ownerStep mode s = some s') : s'.price < s.price ∧ s'.budget = s.budget := by
  unfold ownerStep at hst
  split at hst
  case h_1 k c ho hf =>
    split at hst <;> cases hst
    refine ⟨?_, rfl⟩
    simp only [State.price, ho, OwnerPc.price, Await.price]
    omega
  case h_2 a k c _ ho hf =>
    split at hst <;> cases hst
    case h_1 c' b hc =>
      have := awaitStep_price hc
      refine ⟨?_, rfl⟩
      simp only [State.price, ho, OwnerPc.price]
      omega
  case h_3 => cases hst

theorem step_price {a : Act V R} (hst : step mode s a = some s') :
    s'.price + s.budget + (if a.library then 1 else 0) ≤ s.price + s'.budget := by
  cases a with
  | assign x v =>
    simp only [step] at hst
    split at hst <;> cases hst
    exact Nat.le_refl _
  | start args =>
    simp only [step] at hst
    split at hst <;> cases hst
    case h_1 ho =>
      simp only [State.price, State.budget, ho, OwnerPc.price, Await.price, Handler.price, Act.library, List.map_append,
        List.map_cons, List.map_nil, List.sum_append, List.sum_cons, List.sum_nil, Bool.false_eq_true, if_false]
      omega
  | run args out =>
    simp only [step] at hst
    split at hst
    case h_1 =>
      split at hst <;> cases hst
      exact Nat.le_refl _
    case h_2 => cases hst
  | invoke k out =>
    simp only [step] at hst
    split at hst
    case h_1 args hk =>
      split at hst <;> cases hst
      case isTrue hlen =>
        have hset := price_set hk (.assign (args.zip out.args) out.res)
        simp only [State.price, Handler.price, State.setHandler, List.length_zip, Act.library, Bool.false_eq_true,
          if_false] at hset ⊢
        omega
    case h_2 => cases hst
  | handler k =>
    have := handlerStep_price hst
    simp only [Act.library, if_true]
    omega
  | owner =>
    have := ownerStep_price hst
    simp only [Act.library, if_true]
    omega

/-! ## Results -/

variable {as : List (Act V R)} {vars : List V}

theorem match_run (hrun : Run (step mode) anyStep (init vars : State V R) as s) :
    ∃ p, Run plainStep anyStep ⟨vars, []⟩ (shadow (step mode) event (init vars) as) p ∧ Match mode s p :=
  (simulation mode).run (match_init mode vars) hrun

/-- Where the object of a handler exists, its caller is inside the operation. -/
theorem Match.inside (h : Match mode s p) {c : Cell (Except Nat R)} (hobj : s.object k = some c) :
    ∃ a, s.opc = .await a := by
  cases h with
  | idle _ hf => simp [State.object, hf] at hobj
  | await old args pc c a ho => exact ⟨a, ho⟩

/-- **The program with handlers is the program with blocking calls.** Whoever calls the handlers and when, also before
the caller awaits: between two operations its variables and the results of its operations are those of the program
whose operations block, in the order of its calls; and a handler that was called can go on to its end: neither the
variables nor the future it refers to are gone. But on a thread the caller may have left when only `notify_one` is
left of its handler. -/
theorem yieldTo_refines (hrun : Run (step mode) anyStep (init vars : State V R) as s) :
    ∃ p, Run plainStep anyStep ⟨vars, []⟩ (shadow (step mode) event (init vars) as) p ∧
      (s.opc = .idle → s.vars = p.vars ∧ s.results = p.results) ∧
      ∀ k args pc, s.handlers[k]? = some ⟨args, pc⟩ → pc ≠ .pending → pc ≠ .done →
        ((∃ a, s.opc = .await a) ∧ (step mode s (.handler k)).isSome) ∨
          (mode = .thread ∧ pc = .notify ∧ s.object k = none) := by
  obtain ⟨p, hplain, hmatch⟩ := match_run hrun
  refine ⟨p, hplain, fun ho => ?_, fun k args pc hk hpending hdone => ?_⟩
  · cases hmatch with
    | idle _ _ _ hp =>
      subst hp
      exact ⟨rfl, rfl⟩
    | await old args pc c a ha =>
      rw [ho] at ha
      cases ha
  · by_cases hsettled : pc.settled mode
    · obtain ⟨rfl, hthread⟩ := (HandlerPc.settled_cases hsettled).resolve_left hdone
      cases hobj : s.object k with
      | none => exact .inr ⟨hthread, rfl, rfl⟩
      | some c => exact .inl ⟨hmatch.inside hobj, by simp [step, handlerStep, hk, hobj]⟩
    · obtain ⟨old, c, a, -, ho, -⟩ := hmatch.current hk hsettled
      obtain ⟨t, ht, -⟩ := hmatch.handler hk hpending hsettled
      exact .inl ⟨⟨a, ho⟩, Option.isSome_iff_exists.2 ⟨t, ht⟩⟩

/-- A handler that is called before the caller awaits. -/
def earlySchedule : List (Act Nat Unit) :=
  [.start [some 0, none], .invoke 0 ⟨[42, 7], .ok ()⟩, .handler 0, .handler 0, .handler 0, .handler 0, .owner, .owner]

theorem yieldTo_refines_early : ∃ (s : State Nat Unit) (p : Plain Nat Unit),
    Run (step .routine) anyStep (init [0, 0]) earlySchedule s ∧
    Run plainStep anyStep ⟨[0, 0], []⟩ [.call [some 0, none] ⟨[42, 7], .ok ()⟩] p ∧
    s.vars = [42, 0] ∧ s.vars = p.vars ∧ s.results = p.results := by
  have hrun := exec_get_run (step .routine) anyStep (init [0, 0] : State Nat Unit) earlySchedule (by decide)
  obtain ⟨p, hplain, hidle, -⟩ := yieldTo_refines hrun
  exact ⟨_, p, hrun, hplain, by decide, hidle (by decide)⟩

/-- The caller, on a thread, finds `mDataReady` set and leaves before `notify_one`. -/
def lateSchedule : List (Act Nat Unit) :=
  [.start [some 0], .owner, .owner, .owner, .owner, .owner, .owner, .owner, .owner, .invoke 0 ⟨[42], .ok ()⟩,
    .handler 0, .handler 0, .handler 0, .handler 0, .owner]

theorem notified_late : ∃ s : State Nat Unit, Run (step .thread) anyStep (init [0]) lateSchedule s ∧
    s.opc = .idle ∧ s.vars = [42] ∧ s.handlers[0]? = some ⟨[some 0], .notify⟩ ∧
    (step .thread s (.handler 0)).isNone := by
  have hrun := exec_get_run (step .thread) anyStep (init [0] : State Nat Unit) lateSchedule (by decide)
  exact ⟨_, hrun, by decide, by decide, rfl, by decide⟩

/-- **An operation hangs only while its handler was not called.** A caller inside an operation can go on, or the
handler of that operation can, or nobody has called it; and the library's steps are bounded by the operations and their
arguments. -/
theorem yieldTo_returns (hrun : Run (step mode) anyStep (init vars : State V R) as s) :
    (∀ a, s.opc = .await a → (step mode s .owner).isSome ∨
      ∃ args pc, s.handlers[s.handlers.length - 1]? = some ⟨args, pc⟩ ∧
        (pc = .pending ∨ (step mode s (.handler (s.handlers.length - 1))).isSome)) ∧
    as.countP Act.library ≤ (s.handlers.map fun h => h.args.length + 13).sum := by
  refine ⟨fun a ho => ?_, ?_⟩
  · obtain ⟨p, -, hmatch⟩ := match_run hrun
    by_cases ha : a = .parked
    · subst ha
      obtain ⟨args, pc, hk, hsettled⟩ := hmatch.parked ho
      refine .inr ⟨args, pc, hk, ?_⟩
      by_cases hpending : pc = .pending
      · exact .inl hpending
      · obtain ⟨t, ht, -⟩ := hmatch.handler hk hpending hsettled
        exact .inr (Option.isSome_iff_exists.2 ⟨t, ht⟩)
    · obtain ⟨t, ht, -⟩ := hmatch.owner ho ha
      exact .inl (Option.isSome_iff_exists.2 ⟨t, ht⟩)
  · have hpaid : as.countP Act.library + s.price ≤ s.budget := by
      generalize hinit : (init vars : State V R) = s₀ at hrun
      induction hrun with
      | nil =>
        subst hinit
        exact Nat.le_refl 0
      | snoc _ _ hst hle =>
        have := step_price hst
        rw [List.countP_append, List.countP_singleton]
        omega
    exact Nat.le_trans (Nat.le_add_right _ _) hpaid

/-- A caller that is parked, and a handler that nobody has called. -/
def pendingSchedule : List (Act Nat Unit) := [.start [some 0], .owner, .owner]

theorem yieldTo_returns_parked : ∃ s : State Nat Unit, Run (step .routine) anyStep (init [0]) pendingSchedule s ∧
    s.opc = .await .parked ∧ (step .routine s .owner).isNone ∧
    ∃ args pc, s.handlers[s.handlers.length - 1]? = some ⟨args, pc⟩ ∧
      (pc = .pending ∨ (step .routine s (.handler (s.handlers.length - 1))).isSome) := by
  have hrun := exec_get_run (step .routine) anyStep (init [0] : State Nat Unit) pendingSchedule (by decide)
  have hwaits := (yieldTo_returns hrun).1 .parked (by decide)
  exact ⟨_, hrun, by decide, by decide, hwaits.resolve_left (by decide)⟩

/-! ## The socket operations -/

theorem storeAll_variables (vars : List V) : ∀ (done results : List V), results.length = vars.length →
    storeAll (done ++ vars) (((List.range' done.length vars.length).map some).zip results) =
      done ++ BasicSocket.yieldTo vars results := by
  induction vars with
  | nil =>
    intro done results hlen
    simp [List.eq_nil_of_length_eq_zero hlen, storeAll]
  | cons v vars ih =>
    intro done results hlen
    cases results with
    | nil => cases hlen
    | cons x results =>
      have hrest := ih (done ++ [x]) results (by simpa using hlen)
      rw [List.length_append, List.length_singleton, List.append_assoc, List.append_assoc] at hrest
      rw [List.length_cons, List.range'_succ, List.map_cons, List.zip_cons_cons, storeAll, List.foldl_cons, store,
        List.set_append_right _ _ (Nat.le_refl _), Nat.sub_self, List.set_cons_zero]
      exact hrest

/-- An asynchronous operation on all the variables is the blocking operation of a socket. -/
theorem plainStep_socket (out : Outcome V R) (results : List (Except Nat R)) (hlen : out.args.length = vars.length) :
    plainStep ⟨vars, results⟩ (.call ((List.range vars.length).map some) out) =
      some ⟨BasicSocket.yieldTo vars out.args, results ++ [out.res]⟩ := by
  have hall := storeAll_variables vars [] out.args hlen
  simp only [List.nil_append, List.length_nil, ← List.range_eq_range'] at hall
  simp [plainStep, hlen, hall]

end CoAwait.YieldTo
