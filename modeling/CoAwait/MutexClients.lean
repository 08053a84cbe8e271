import Mathlib.Algebra.BigOperators.Group.Finset.Basic
import CoAwait.MutexInv
import CoAwait.Simulation

/-!
# What `BaseMutex` is for

User code that touches what it shares only between `lock` and `unlock` (`CoMutexTests.cpp:166-178`) may be thought of
as executing each critical section at once.

| here | there |
| --- | --- |
| `Guarded.data`, `Guarded.locals` | what the clients share, what each has for itself |
| `Guarded.done`                   | the accesses of a client since it has the mutex |
| `GuardedAct.access`              | one access in a critical section, `callCnt++` in the test |
| `Serial`                         | the program whose critical sections are one step each |

* `sections_serial`: the first refines the second.
* `lock_settles`: only so many steps for a call; where none is left, whoever waits does so for a client that holds
  the mutex.
-/

namespace CoAwait.Mutex

open Runs Counting

variable {ι : Type} [DecidableEq ι]

/-! ## What a client has before it -/

/-- At most how many steps are left of a call. -/
def Pc.price : Pc ι → Nat
  | .idle | .holding => 0
  | .lockCas i => 7 - i + 4
  | .lockFetchAdd => 3
  | .lockAddToWaiter _ => 2
  | .lockAwait _ => 1
  | .tryLock => 1
  | .unlockFetchSub => 3
  | .unlockSearch => 2
  | .unlockSetValue _ => 1

section
variable {policy : Policy} {s s' : State ι} {c d : ι} {spurious : Bool} {a : Act ι}

/-- A step moves its own client on, or is a search of an empty queue. -/
theorem runStep_moves (h : runStep policy s c spurious = some s') :
    (s.pc c = .unlockSearch ∧ s.mWaiter = [] ∧ s' = s) ∨
      ∃ x, s'.pc = Function.update s.pc c x ∧ x.price < (s.pc c).price := by
  unfold runStep at h
  split at h
  case h_1 | h_2 => cases h
  case h_3 i hp =>
    rw [hp]
    split at h
    case h_1 =>
      cases h
      exact .inr ⟨.holding, rfl, by simp [Pc.price]⟩
    case h_2 =>
      split at h <;> cases h
      · exact .inr ⟨.lockFetchAdd, rfl, by simp [Pc.price]⟩
      · exact .inr ⟨.lockCas (i + 1), rfl, by simp [Pc.price]; omega⟩
  case h_4 hp =>
    rw [hp]
    cases h
    unfold lockFetchAdd
    dsimp only
    split
    · exact .inr ⟨.holding, rfl, by simp [Pc.price]⟩
    · exact .inr ⟨_, rfl, by simp [Pc.price]⟩
  case h_5 hp =>
    rw [hp]
    cases h
    exact .inr ⟨_, rfl, by simp [Pc.price]⟩
  case h_6 n hp =>
    rw [hp]
    split at h <;> cases h
    exact .inr ⟨.holding, rfl, by simp [Pc.price]⟩
  case h_7 hp =>
    rw [hp]
    split at h <;> cases h <;> exact .inr ⟨_, rfl, by simp [Pc.price]⟩
  case h_8 hp =>
    rw [hp]
    cases h
    unfold unlockFetchSub
    dsimp only
    split <;> exact .inr ⟨_, rfl, by simp [Pc.price]⟩
  case h_9 hp =>
    split at h
    case h_1 hnone =>
      cases h
      exact .inl ⟨hp, getNextWaiter_none hnone, rfl⟩
    case h_2 =>
      rw [hp]
      cases h
      exact .inr ⟨_, rfl, by simp [Pc.price]⟩
  case h_10 next hp =>
    rw [hp]
    cases h
    exact .inr ⟨.idle, rfl, by simp [Pc.price]⟩

/-- Only `unlock` takes the mutex from a client that is in its critical section. -/
theorem step_keeps (h : step policy s a = some s') (hd : s.pc d = .holding) (hu : a ≠ .unlock d) :
    s'.pc d = .holding := by
  have hset : ∀ {x : Pc ι} {c : ι}, c ≠ d → (s.setPc c x).pc d = .holding := fun hne =>
    (setPc_pc_ne (Ne.symm hne)).trans hd
  cases a with
  | lock c | tryLock c =>
    simp only [step] at h
    split at h <;> cases h
    rename_i hp
    refine hset ?_
    rintro rfl
    rw [hp] at hd
    cases hd
  | unlock c =>
    simp only [step] at h
    split at h <;> cases h
    refine hset ?_
    rintro rfl
    exact hu rfl
  | run c spurious =>
    rcases runStep_moves h with ⟨-, -, rfl⟩ | ⟨x, hpc, hlt⟩
    · exact hd
    · have hne : d ≠ c := by
        rintro rfl
        rw [hd] at hlt
        exact Nat.not_lt_zero _ hlt
      rw [hpc, Function.update_of_ne hne, hd]

end

/-! ## Critical sections -/

/-- What an access does to the data and to what the client has for itself. -/
abbrev Access (D L : Type) := D × L → D × L

def applied {D L : Type} (l : List (Access D L)) (x : D × L) : D × L := l.foldl (fun x f => f x) x

omit [DecidableEq ι] in
theorem applied_concat {D L : Type} (l : List (Access D L)) (f : Access D L) (x : D × L) :
    applied (l ++ [f]) x = f (applied l x) := by
  simp [applied]

structure Guarded (ι D L : Type) where
  mutex : State ι := {}
  data : D
  locals : ι → L
  done : ι → List (Access D L) := fun _ => []

inductive GuardedAct (ι D L : Type) where
  | mutex (a : Act ι)
  | access (c : ι) (f : Access D L)
  /-- What a client does on its own, outside of a critical section. -/
  | compute (c : ι) (f : L → L)

structure Serial (ι D L : Type) where
  data : D
  locals : ι → L

inductive SerialAct (ι D L : Type) where
  | critical (c : ι) (l : List (Access D L))
  | compute (c : ι) (f : L → L)

variable {D L : Type}

def Guarded.start (x : D) (l : ι → L) : Guarded ι D L := { data := x, locals := l }

def guardedStep (policy : Policy) (s : Guarded ι D L) : GuardedAct ι D L → Option (Guarded ι D L)
  | .mutex a =>
    (step policy s.mutex a).map fun m =>
      match a with
      | .unlock c => { s with mutex := m, done := Function.update s.done c [] }
      | _ => { s with mutex := m }
  | .access c f =>
    if s.mutex.pc c = .holding then
      some { s with
        data := (f (s.data, s.locals c)).1
        locals := Function.update s.locals c (f (s.data, s.locals c)).2
        done := Function.update s.done c (s.done c ++ [f]) }
    else none
  | .compute c f =>
    if s.mutex.pc c = .idle then some { s with locals := Function.update s.locals c (f (s.locals c)) } else none

def serialStep (s : Serial ι D L) : SerialAct ι D L → Option (Serial ι D L)
  | .critical c l =>
    some {
      data := (applied l (s.data, s.locals c)).1
      locals := Function.update s.locals c (applied l (s.data, s.locals c)).2 }
  | .compute c f => some { s with locals := Function.update s.locals c (f (s.locals c)) }

/-- A critical section takes effect when it ends. -/
def critical (s : Guarded ι D L) : GuardedAct ι D L → Option (SerialAct ι D L)
  | .mutex (.unlock c) => some (.critical c (s.done c))
  | .compute c f => some (.compute c f)
  | _ => none

section
variable [Fintype ι]

def fewGuarded (s : Guarded ι D L) : GuardedAct ι D L → Prop
  | .mutex a => fewClients s.mutex a
  | _ => True

instance (s : Guarded ι D L) : (a : GuardedAct ι D L) → Decidable (fewGuarded s a)
  | .mutex a => inferInstanceAs (Decidable (fewClients s.mutex a))
  | .access .. | .compute .. => .isTrue trivial

/-- What the client in its critical section has done is missing in the serial program, and nothing else is. -/
structure Sections (s : Guarded ι D L) (s' : Serial ι D L) : Prop where
  mutex : Inv s.mutex
  outside : ∀ c, s.mutex.pc c ≠ .holding → s.done c = [] ∧ s.locals c = s'.locals c
  inside : ∀ c, s.mutex.pc c = .holding → (s.data, s.locals c) = applied (s.done c) (s'.data, s'.locals c)
  free : (∀ c, s.mutex.pc c ≠ .holding) → s.data = s'.data

variable {policy : Policy} {s u : Guarded ι D L} {s' : Serial ι D L} {m : State ι} {c d : ι}

omit [DecidableEq ι] in
theorem Inv.one_holding {m : State ι} (h : Inv m) (hc : m.pc c = .holding) (hd : m.pc d = .holding) : c = d := by
  have hex := h.balance.exclusive
  have hc' : m.role c = .holder := by simp [State.role, hc]
  have hd' : m.role d = .holder := by simp [State.role, hd]
  exact eq_of_num_le_one (by omega) hc' hd'

omit [DecidableEq ι] in
theorem sections_start (x : D) (l : ι → L) : Sections (Guarded.start x l) ⟨x, l⟩ where
  mutex := inv_init
  outside := fun _ _ => ⟨rfl, rfl⟩
  inside := fun c hc => by cases hc
  free := fun _ => rfl

/-- A client that has got the mutex finds the data as the last critical section has left them. -/
theorem Sections.moved (h : Sections s s') {a : Act ι} (hok : fewClients s.mutex a)
    (hst : step policy s.mutex a = some m) (hu : ∀ c, a ≠ .unlock c) : Sections { s with mutex := m } s' where
  mutex := inv_step h.mutex hok hst
  outside := fun c hc => h.outside c fun hold => hc (step_keeps hst hold (hu c))
  inside := by
    intro c hc
    by_cases hold : s.mutex.pc c = .holding
    · exact h.inside c hold
    · obtain ⟨hdone, hlocal⟩ := h.outside c hold
      have hfree : ∀ d, s.mutex.pc d ≠ .holding := by
        intro d hd
        have hkept := step_keeps hst hd (hu d)
        obtain rfl := (inv_step h.mutex hok hst).one_holding hc hkept
        exact hold hd
      simp only [hdone, applied, List.foldl_nil, hlocal, h.free hfree]
  free := fun hfree => h.free fun c hold => hfree c (step_keeps hst hold (hu c))

theorem Sections.unlocked (h : Sections s s') (hst : step policy s.mutex (.unlock c) = some m)
    (hok : fewClients s.mutex (.unlock c)) :
    Sections { s with mutex := m, done := Function.update s.done c [] }
      { data := (applied (s.done c) (s'.data, s'.locals c)).1
        locals := Function.update s'.locals c (applied (s.done c) (s'.data, s'.locals c)).2 } := by
  have hinv := inv_step h.mutex hok hst
  simp only [step] at hst
  split at hst
  case isFalse => cases hst
  case isTrue hc =>
    cases hst
    have hin := h.inside c hc
    rw [← hin]
    have hfree : ∀ d, (s.mutex.setPc c .unlockFetchSub).pc d ≠ .holding := by
      intro d hd
      by_cases hdc : d = c
      · subst hdc
        simp [State.setPc] at hd
      · rw [setPc_pc_ne hdc] at hd
        exact hdc (h.mutex.one_holding hd hc)
    refine ⟨hinv, fun d _ => ?_, fun d hd => absurd hd (hfree d), fun _ => rfl⟩
    by_cases hdc : d = c
    · subst hdc
      simp
    · have hd : s.mutex.pc d ≠ .holding := fun hd => hdc (h.mutex.one_holding hd hc)
      simpa [hdc] using h.outside d hd

theorem Sections.accessed (h : Sections s s') (hc : s.mutex.pc c = .holding) (f : Access D L) :
    Sections
      { s with
        data := (f (s.data, s.locals c)).1
        locals := Function.update s.locals c (f (s.data, s.locals c)).2
        done := Function.update s.done c (s.done c ++ [f]) } s' where
  mutex := h.mutex
  outside := by
    intro d hd
    have hdc : d ≠ c := by
      rintro rfl
      exact hd hc
    simpa [hdc] using h.outside d hd
  inside := by
    intro d hd
    obtain rfl := h.mutex.one_holding hd hc
    simp only [Function.update_self]
    rw [applied_concat, ← h.inside d hc]
  free := fun hfree => absurd hc (hfree c)

theorem Sections.computed (h : Sections s s') (hc : s.mutex.pc c = .idle) (f : L → L) :
    Sections { s with locals := Function.update s.locals c (f (s.locals c)) }
      { s' with locals := Function.update s'.locals c (f (s'.locals c)) } where
  mutex := h.mutex
  outside := by
    intro d hd
    by_cases hdc : d = c
    · subst hdc
      have hout := h.outside d hd
      simpa [hout.2] using hout.1
    · simpa [hdc] using h.outside d hd
  inside := by
    intro d hd
    have hdc : d ≠ c := by
      rintro rfl
      rw [hc] at hd
      cases hd
    simpa [hdc] using h.inside d hd
  free := h.free

theorem sections_simulation :
    Simulation (guardedStep policy) (fewGuarded : Guarded ι D L → GuardedAct ι D L → Prop) serialStep anyStep critical
      Sections where
  stutter := by
    intro s s' a u h hok hst hev
    cases a with
    | mutex a =>
      obtain ⟨m, hm, rfl⟩ := Option.map_eq_some_iff.1 hst
      have hfew : fewClients s.mutex a := hok
      cases a with
      | unlock c => cases hev
      | lock | tryLock | run => exact h.moved hfew hm (by simp)
    | access c f =>
      simp only [guardedStep] at hst
      split at hst <;> cases hst
      rename_i hc
      exact h.accessed hc f
    | compute => cases hev
  follow := by
    intro s s' a u b h hok hst hev
    cases a with
    | mutex a =>
      obtain ⟨m, hm, rfl⟩ := Option.map_eq_some_iff.1 hst
      cases a with
      | unlock c =>
        cases hev
        exact ⟨trivial, _, rfl, h.unlocked hm hok⟩
      | lock | tryLock | run => cases hev
    | access => cases hev
    | compute c f =>
      cases hev
      simp only [guardedStep] at hst
      split at hst <;> cases hst
      rename_i hc
      exact ⟨trivial, _, rfl, h.computed hc f⟩

/-- **Critical sections are atomic**: every run is one of the program that executes each of them at once, in the
order of their `unlock`. A client that is in none has its own part from there, the one that is in one has done its
part of it since, and where nobody is in one the data is the same. -/
theorem sections_serial {x : D} {l : ι → L} {as : List (GuardedAct ι D L)}
    (h : Run (guardedStep policy) fewGuarded (.start x l) as s) :
    ∃ s', Run serialStep anyStep ⟨x, l⟩ (shadow (guardedStep policy) critical (.start x l) as) s' ∧
      (∀ c, s.mutex.pc c ≠ .holding → s.locals c = s'.locals c) ∧
      (∀ c, s.mutex.pc c = .holding → (s.data, s.locals c) = applied (s.done c) (s'.data, s'.locals c)) ∧
      ((∀ c, s.mutex.pc c ≠ .holding) → s.data = s'.data) := by
  obtain ⟨s', hrun, h'⟩ := sections_simulation.run (sections_start x l) h
  exact ⟨s', hrun, fun c hc => (h'.outside c hc).2, h'.inside, h'.free⟩

/-- `callCnt++`, as a read and a write, in two of the five coroutines of the test. -/
def incrementSchedule : List (GuardedAct (Fin 5) Nat Nat) :=
  [.mutex (.lock 0), .mutex (.run 0 false), .mutex (.lock 1), .access 0 fun x => (x.1, x.1), .mutex (.run 1 false),
    .access 0 fun x => (x.2 + 1, x.2), .mutex (.unlock 0), .mutex (.run 0 false), .mutex (.run 1 false),
    .access 1 fun x => (x.1, x.1), .access 1 fun x => (x.2 + 1, x.2), .mutex (.unlock 1), .mutex (.run 1 false)]

theorem sections_serial_increments : ∃ s' : Serial (Fin 5) Nat Nat,
    Run serialStep anyStep ⟨0, fun _ => 0⟩
      [.critical 0 [fun x => (x.1, x.1), fun x => (x.2 + 1, x.2)],
        .critical 1 [fun x => (x.1, x.1), fun x => (x.2 + 1, x.2)]] s' ∧ s'.data = 2 := by
  have hrun := exec_get_run (guardedStep .fair) fewGuarded (Guarded.start 0 fun _ => 0) incrementSchedule (by decide)
  obtain ⟨s', hserial, -, -, hdata⟩ := sections_serial hrun
  exact ⟨s', hserial, (hdata (by decide)).symm.trans (by decide)⟩

end

/-! ## No client is held up -/

section
variable [Fintype ι] {policy : Policy} {s s' : State ι} {c : ι} {a : Act ι}

/-- What the clients have before them. -/
def State.price (s : State ι) : Nat := ∑ c, (s.pc c).price

def Act.library : Act ι → Bool
  | .run .. => true
  | _ => false

/-- No search of an empty queue: it changes nothing, and leaves the turn to the client that is about to enqueue. -/
def searches (s : State ι) : Act ι → Prop
  | .run c _ => s.pc c = .unlockSearch → s.mWaiter ≠ []
  | _ => True

instance (s : State ι) : (a : Act ι) → Decidable (searches s a)
  | .run c _ => inferInstanceAs (Decidable (s.pc c = .unlockSearch → s.mWaiter ≠ []))
  | .lock _ | .tryLock _ | .unlock _ => .isTrue trivial

theorem price_moved {x : Pc ι} (h : s'.pc = Function.update s.pc c x) :
    s'.price + (s.pc c).price = s.price + x.price := by
  have hmem := Finset.mem_univ c
  have hrest : ∑ d ∈ Finset.univ.erase c, (s'.pc d).price = ∑ d ∈ Finset.univ.erase c, (s.pc d).price :=
    Finset.sum_congr rfl fun d hd => by rw [h, Function.update_of_ne (Finset.ne_of_mem_erase hd)]
  rw [State.price, State.price, ← Finset.add_sum_erase _ _ hmem, ← Finset.add_sum_erase _ _ hmem, h,
    Function.update_self, ← h, hrest]
  omega

/-- A step pays with what its client has before it; a call puts at most eleven steps in. -/
theorem step_price (hst : step policy s a = some s') (hok : searches s a) :
    if a.library then s'.price < s.price else s'.price ≤ s.price + 11 := by
  have hcall : ∀ {c : ι} {x : Pc ι}, (s.pc c).price = 0 → x.price ≤ 11 → (s.setPc c x).price ≤ s.price + 11 := by
    intro c x hzero hx
    have hmoved : (s.setPc c x).price + (s.pc c).price = s.price + x.price := price_moved rfl
    omega
  cases a with
  | lock c | tryLock c | unlock c =>
    simp only [step] at hst
    split at hst <;> cases hst
    rename_i hp
    exact hcall (by rw [hp]; rfl) (by simp [Pc.price])
  | run c spurious =>
    rcases runStep_moves hst with ⟨hp, hempty, -⟩ | ⟨x, hpc, hlt⟩
    · exact absurd hempty (hok hp)
    · have := price_moved hpc
      simp only [Act.library, if_true]
      omega

omit [Fintype ι] in
/-- A client without a next step is in user code or waits. -/
theorem runStep_none (h : runStep policy s c false = none) :
    s.pc c = .idle ∨ s.pc c = .holding ∨ ∃ n, s.pc c = .lockAwait n ∧ s.p (c, n) = false := by
  by_cases hrole : s.role c = .holder
  · have hsome : ∀ x, s.pc c = x → (runStep policy s c false).isSome = true → False := by
      rintro x - hsome
      rw [h] at hsome
      cases hsome
    cases hp : s.pc c with
    | holding => exact .inr (.inl rfl)
    | unlockFetchSub => exact (hsome _ hp (by simp [runStep, hp])).elim
    | lockAddToWaiter n => exact (hsome _ hp (by simp [runStep, hp])).elim
    | lockAwait n =>
      cases hd : s.p (c, n) with
      | true => exact (hsome _ hp (by simp [runStep, hp, hd])).elim
      | false => simp [State.role, hp, hd] at hrole
    | _ => simp [State.role, hp] at hrole
  · rcases pending_of_run h hrole with hidle | hwait
    · exact .inl hidle
    · exact .inr (.inr hwait)

/-- Where nothing is left to do but to search an empty queue, nobody does that either. -/
theorem Inv.settled (h : Inv s) (hstop : ∀ c s', step policy s (.run c false) = some s' → s' = s) (c : ι) :
    s.pc c = .idle ∨ s.pc c = .holding ∨ ∃ n, s.pc c = .lockAwait n ∧ s.p (c, n) = false := by
  have hsearch : ∀ {d s'}, runStep policy s d false = some s' → s.pc d = .unlockSearch ∧ s.mWaiter = [] := by
    intro d s' hst
    rcases runStep_moves hst with ⟨hp, hempty, -⟩ | ⟨x, hpc, hlt⟩
    · exact ⟨hp, hempty⟩
    · rw [hstop d s' hst] at hpc
      have hx : s.pc d = x := by rw [hpc, Function.update_self]
      rw [hx] at hlt
      exact absurd hlt (Nat.lt_irrefl _)
  cases hst : runStep policy s c false with
  | none => exact runStep_none hst
  | some s' =>
    obtain ⟨hp, hempty⟩ := hsearch hst
    obtain ⟨d, n, hd⟩ := h.announced hp hempty
    obtain ⟨u, hu⟩ : ∃ u, runStep policy s d false = some u := ⟨_, by simp only [runStep, hd]; rfl⟩
    have hadd := (hsearch hu).1
    rw [hd] at hadd
    cases hadd

/-- **No client is held up.** Leaving out the searches of an empty queue, the clients make at most eleven steps for a
call. Where nothing else is left to do, every client is in user code or has its waiter in `mWaiter`, and if one has,
exactly one client has locked the mutex and not yet called `unlock`. -/
theorem lock_settles {as : List (Act ι)}
    (h : Run (step policy) (fun s a => fewClients s a ∧ searches s a) init as s) :
    as.countP Act.library ≤ 11 * as.countP (fun a => !a.library) ∧
      ((∀ c s', step policy s (.run c false) = some s' → s' = s) →
        (∀ c, s.pc c = .idle ∨ s.pc c = .holding ∨ ∃ n, s.pc c = .lockAwait n ∧ (c, n) ∈ s.mWaiter) ∧
        ((∃ c n, s.pc c = .lockAwait n) → ∃! d, s.pc d = .holding)) := by
  have hinv : Inv s := inv_reachable (Reachable.mono (fun _ _ hok => hok.1) ⟨as, h⟩)
  refine ⟨?_, fun hstop => ⟨fun c => ?_, ?_⟩⟩
  · have hpaid := h.amortized (p := Act.library) (m := State.price) (c := 11) fun a _ u v hok hst =>
      step_price hst hok.2
    have hzero : (init : State ι).price = 0 := Finset.sum_eq_zero fun _ _ => rfl
    omega
  · have hset := hinv.settled hstop
    rcases hset c with hidle | hold | ⟨n, hp, hdone⟩
    · exact .inl hidle
    · exact .inr (.inl hold)
    · rcases hinv.queue.found c n hp hdone with hw | ⟨d, hd⟩
      · exact .inr (.inr ⟨n, hp, hw⟩)
      · rcases hset d with hd' | hd' | ⟨_, hd', -⟩ <;> rw [hd] at hd' <;> cases hd'
  · rintro ⟨c, n, hc⟩
    have hset := hinv.settled hstop
    obtain ⟨d, hd⟩ : ∃ d, s.pc d = .holding := by
      by_contra hno
      rw [not_exists] at hno
      have hrole : ∀ d, s.role d ≠ .holder ∧ s.role d ≠ .handing := by
        intro d
        rcases hset d with hp | hp | ⟨m, hp, hdone⟩
        · simp [State.role, hp]
        · exact absurd hp (hno d)
        · simp [State.role, hp, hdone]
      have hnobody := (hinv.nobody_waits (fun d => (hrole d).1) fun d => (hrole d).2).2 c
      rcases hset c with hp | hp | ⟨m, hp, hdone⟩
      · rw [hc] at hp
        cases hp
      · exact hno c hp
      · exact hnobody (by simp [State.role, hp, hdone])
    exact ⟨d, hd, fun e he => hinv.one_holding he hd⟩

/-- Client 1 waits for client 0. -/
theorem lock_settles_waiting : ∃ s : State (Fin 2), Run (step .fair) (fun s a => fewClients s a ∧ searches s a) init
    ([.lock 0, .run 0 false, .lock 1] ++ List.replicate 10 (.run 1 false)) s ∧ (∃ n, s.pc 1 = .lockAwait n) ∧
    ∃! d, s.pc d = .holding := by
  have hrun := exec_get_run (step .fair) (fun s a => fewClients s a ∧ searches s a) (init : State (Fin 2))
    ([.lock 0, .run 0 false, .lock 1] ++ List.replicate 10 (.run 1 false)) (by decide)
  have hnone : ∀ c : Fin 2, step .fair ((exec (step .fair) (fun s a => fewClients s a ∧ searches s a)
      (init : State (Fin 2)) ([.lock 0, .run 0 false, .lock 1] ++ List.replicate 10 (.run 1 false))).get (by decide))
      (.run c false) = none :=
    Fin.forall_fin_two.2 ⟨rfl, rfl⟩
  have hsettled := (lock_settles hrun).2 fun c s' hst => by
    rw [hnone] at hst
    cases hst
  exact ⟨_, hrun, ⟨0, by decide⟩, hsettled.2 ⟨1, 0, by decide⟩⟩

end

end CoAwait.Mutex
