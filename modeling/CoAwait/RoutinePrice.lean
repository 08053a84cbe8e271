import Mathlib.Algebra.BigOperators.Group.Finset.Basic
import CoAwait.RoutineContinued

/-!
# Coroutines on threads: how much the library does for a call

Every operation of the library lowers the price of the thread that makes it, and user code raises it by at most a
constant. A thread that spins or blocks makes no step here: that its turn comes is `HandOver.willCall` and
`no_lost_wakeup`.

* `Frame.price`: what an activation has before it, with what it calls on the way.
* `step_restacked`: a step changes one stack, and its price.
* `library_steps_bounded`: no two threads can keep each other busy.
-/

namespace CoAwait.Routine

open Runs

variable {s s' : State} {d : Nat} {via : Via} {pc : RunPc} {t : Nat} {f : Future} {a : Act} {rest l : List Frame}

@[simp] def Act.thread : Act → Nat
  | .construct t _ | .await t _ | .finish t _ | .setValue t _ _ | .handler t _ _ | .wait t _ | .step t => t

/-! ## What a thread has before it -/

/-- At least how many operations an activation has before it, with those it calls on the way. -/
@[simp] def RunPc.price : RunPc → Nat
  | .pull => 0
  | .enter => 1
  | .awaitSpin .. => 2
  | .suspended | .ret _ => 3
  | .awaitContinuation .. => 4
  | .awaitSuspend .. => 5
  | .suspend .. => 6
  | .left => 7
  | .setResult _ => 8
  | .setContinuation _ => 9
  | .runPostLeave _ => 10
  | .ended => 11

@[simp] def RunnerPc.price : RunnerPc → Nat
  | .enter => 4
  | .loop _ => 3
  | .running => 1

@[simp] def Frame.price : Frame → Nat
  | .main | .body _ none => 0
  | .body _ (some _) => 8
  | .run _ _ pc => pc.price
  | .runner _ pc => pc.price
  | .wait _ registered => if registered then 1 else 2

def price (l : List Frame) : Nat := (l.map Frame.price).sum

@[simp] theorem price_nil : price [] = 0 := rfl

@[simp] theorem price_cons (f : Frame) (l : List Frame) : price (f :: l) = f.price + price l := by simp [price]

@[simp] theorem price_append (l l' : List Frame) : price (l ++ l') = price l + price l' := by simp [price]

/-- `s'` is `s` with another stack of `t`, whose price is below `n`. -/
def Restacked (s s' : State) (t n : Nat) : Prop := ∃ l, s'.stack = Function.update s.stack t l ∧ price l < n

/-- What a completion calls costs less than the completion. -/
theorem Completed.restacked {v : Value Unit} {pre : List Frame} {n : Nat} (h : Completed s t f v l pre s')
    (hn : price l + 4 < n) : Restacked s s' t n := by
  refine ⟨_, h.after, ?_⟩
  rw [price_append]
  cases h <;> simp <;> omega

theorem runStep_restacked (h : runStep s t d via rest pc = some s') :
    Restacked s s' t (price (.run d via pc :: rest)) := by
  unfold runStep at h
  split at h
  case h_2 => cases h
  case h_3 =>
    dsimp only at h
    split at h
    case h_3 => cases h
    all_goals
      obtain rfl := Option.some.inj h
      exact ⟨_, rfl, by simp⟩
  case h_9 =>
    split at h
    case isFalse => cases h
    case isTrue =>
      obtain rfl := Option.some.inj h
      exact ⟨_, rfl, by simp⟩
  case h_10 | h_12 =>
    split at h
    case h_2 => cases h
    all_goals
      obtain rfl := Option.some.inj h
      exact ⟨_, rfl, by simp; try omega⟩
  case h_14 =>
    obtain ⟨_, hc⟩ := complete_cases h
    exact hc.restacked (by simp; omega)
  case h_15 =>
    split at h
    case h_2 => cases h
    case h_1 =>
      obtain rfl := Option.some.inj h
      exact ⟨_, s.returnRes_stack .., by simp⟩
    case h_3 =>
      obtain rfl := Option.some.inj h
      exact ⟨_, rfl, by simp⟩
  all_goals
    try split at h
    all_goals
      obtain rfl := Option.some.inj h
      exact ⟨_, rfl, by simp⟩

/-- An operation of the library lowers the price of its thread. -/
theorem threadStep_restacked (h : threadStep s t = some s') : Restacked s s' t (price (s.stack t)) := by
  unfold threadStep at h
  split at h
  case h_1 hs =>
    obtain rfl := Option.some.inj h
    exact ⟨_, rfl, by simp [hs]⟩
  case h_2 hs =>
    rw [hs]
    exact runStep_restacked h
  case h_3 k pc rest hs =>
    rw [hs]
    cases pc with
    | enter =>
      simp only [runnerStep] at h
      split at h <;>
      · obtain rfl := Option.some.inj h
        exact ⟨_, rfl, by simp⟩
    | loop c =>
      cases c <;>
      · obtain rfl := Option.some.inj h
        exact ⟨_, rfl, by simp; try omega⟩
    | running => cases h
  case h_4 f registered rest hs =>
    rw [hs]
    cases registered with
    | false =>
      simp only [waitStep] at h
      split at h <;>
      · obtain rfl := Option.some.inj h
        exact ⟨_, rfl, by simp⟩
    | true =>
      simp only [waitStep] at h
      split at h
      case isTrue =>
        obtain rfl := Option.some.inj h
        exact ⟨_, rfl, by simp⟩
      case isFalse => cases h
  case h_5 => cases h

def Act.library : Act → Bool
  | .step _ => true
  | _ => false

/-- User code that calls the library raises the price of its thread by a constant at most. -/
theorem step_restacked (h : step s a = some s') :
    Restacked s s' a.thread (price (s.stack a.thread) + if a.library then 0 else 12) := by
  unfold step at h
  split at h
  case h_1 | h_6 =>
    split at h
    case h_2 => cases h
    case h_1 hs =>
      split at h
      case isFalse => cases h
      case isTrue =>
        obtain rfl := Option.some.inj h
        exact ⟨_, rfl, by simp [hs, Act.library]; omega⟩
  case h_2 t aw =>
    split at h
    case h_2 => cases h
    case h_1 hs =>
      split at h
      case isFalse => cases h
      case isTrue =>
        split at h
        case isTrue =>
          obtain rfl := Option.some.inj h
          exact ⟨s.stack t, by simp, by simp [Act.library]⟩
        case isFalse =>
          obtain rfl := Option.some.inj h
          exact ⟨_, rfl, by simp [hs, Act.library]; omega⟩
  case h_3 =>
    split at h
    case h_2 => cases h
    case h_1 hs =>
      obtain rfl := Option.some.inj h
      refine ⟨_, rfl, ?_⟩
      split <;> simp [hs, Act.library] <;> omega
  case h_4 =>
    split at h
    case h_2 => cases h
    case h_1 hs =>
      split at h
      case isFalse => cases h
      case isTrue =>
        obtain ⟨_, hc⟩ := complete_cases h
        exact hc.restacked (by simp [hs, Act.library])
  case h_5 =>
    split at h
    case h_2 => cases h
    case h_1 hs hk =>
      split at h
      case isFalse => cases h
      case isTrue =>
        obtain rfl := Option.some.inj h
        exact ⟨_, rfl, by simp [hs, Act.library]; omega⟩
  case h_7 => exact threadStep_restacked h

/-- The price of the first `n` threads. -/
def State.price (s : State) (n : Nat) : Nat := ∑ t ∈ Finset.range n, Routine.price (s.stack t)

theorem Restacked.price {n m c : Nat} (h : Restacked s s' t (price (s.stack t) + c)) (ht : t < n) (hm : m = s.price n) :
    s'.price n < m + c := by
  obtain ⟨l, hl, hlt⟩ := h
  have hmem : t ∈ Finset.range n := Finset.mem_range.2 ht
  rw [hm, State.price, State.price, ← Finset.add_sum_erase _ _ hmem, ← Finset.add_sum_erase _ _ hmem, hl,
    Function.update_self]
  have hrest : ∑ u ∈ (Finset.range n).erase t, Routine.price (Function.update s.stack t l u) =
      ∑ u ∈ (Finset.range n).erase t, Routine.price (s.stack u) :=
    Finset.sum_congr rfl fun u hu => by rw [Function.update_of_ne (Finset.ne_of_mem_erase hu)]
  omega

/-! ## Results -/

/-- However the threads are interleaved, the library makes only so many operations for what user code asks of it. -/
theorem library_steps_bounded {ok : State → Act → Prop} {as : List Act} (h : Run step ok init as s) :
    as.countP Act.library ≤ 11 * as.countP fun a => !a.library := by
  obtain ⟨n, hn⟩ := (as.map Act.thread).toFinset.exists_nat_subset_range
  have hlt : ∀ a ∈ as, a.thread < n := fun a ha =>
    Finset.mem_range.1 (hn (List.mem_toFinset.2 (List.mem_map_of_mem ha)))
  have hzero : init.price n = 0 := Finset.sum_eq_zero fun t _ => rfl
  have hpaid := h.amortized (p := Act.library) (m := fun s => s.price n) (c := 11) fun a ha u v _ hst => by
    have hprice := (step_restacked hst).price (hlt a ha) rfl
    cases hl : a.library <;> simp only [hl, if_true, if_false, Bool.false_eq_true] at hprice ⊢ <;> omega
  omega

theorem library_steps_bounded_spin : ∃ s, Run step anyStep init spinSchedule s ∧
    spinSchedule.countP Act.library = 20 ∧
    spinSchedule.countP Act.library ≤ 11 * spinSchedule.countP fun a => !a.library := by
  have hrun := exec_get_run step anyStep init spinSchedule (by decide)
  exact ⟨_, hrun, by decide, library_steps_bounded hrun⟩

end CoAwait.Routine
