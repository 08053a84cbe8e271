import Mathlib.Algebra.GroupWithZero.Nat
import CoAwait.TimedRecord

/-!
# The life of a `TimedMutexWaiter`

A waiter is a local variable of `lock` or `try_lock_for`. Three places refer to it: `mWaiter`, the local `next` of an
`unlock`, and the handler of its timer. Two exits leave a reference behind: a timed out `try_lock_for` does not take
its pointer out of `mWaiter` (`timed_mutex.hpp:164-168`), and `cancel()` does not stop a handler that is already
queued (`:206-208`).

* `undisturbed`: the runs without these exits, and without an `unlock` that looks into an empty `mWaiter` (`finds`).
* `Scoped`: in these runs every reference is to a call in progress.
* `waiter_used_in_scope`: with it, what `Record` says about the results.
-/

namespace CoAwait.TimedMutex

open Runs
open CoAwait.Mutex (Waiter)

variable {ι : Type}

/-- The waiter is not yet in `mWaiter`. -/
def Pc.adding : Pc ι → Option Nat
  | .lockAddToWaiter n | .tryLockForAddToWaiter n => some n
  | _ => none

/-- Suspended in `await(p.result)`. -/
def Pc.parked : Pc ι → Option Nat
  | .lockAwait n | .tryLockForAwait n => some n
  | _ => none

def Pc.synchronizes : Pc ι → Bool
  | .unlockSynchronize _ => true
  | _ => false

def Pc.timedAwait : Pc ι → Option Nat
  | .tryLockForAwait n => some n
  | _ => none

/-- The waiter of a `lock` call. -/
def Pc.untimed : Pc ι → Option Nat
  | .lockAddToWaiter n | .lockAwait n => some n
  | _ => none

/-- Reached only after a timeout. -/
def Pc.afterTimeout : Pc ι → Bool
  | .tryLockForFetchSub _ | .unlockCount _ => true
  | _ => false

/-- The waiter that the next step of `unlock` refers to. -/
def Pc.refers : Pc ι → Option (Waiter ι)
  | .unlockCheck next => next
  | .unlockCancel next | .unlockSetValue next => some next
  | _ => none

/-- The call that constructed `w` has not returned. -/
def State.pending (s : State ι) (w : Waiter ι) : Prop := (s.pc w.1).waiter = some w.2

instance (s : State ι) (w : Waiter ι) : Decidable (s.pending w) := inferInstanceAs (Decidable (_ = _))

/-- An `unlock` that looks into `mWaiter` finds a pointer there. -/
def finds (s : State ι) : Act ι → Prop
  | .run c _ => (s.pc c).synchronizes = true → s.mWaiter ≠ []
  | _ => True

/-- No handler finalizes a waiter, and no `try_lock_for` returns before its handler that was queued too early for
`cancel()` has run. -/
def undisturbed (s : State ι) (a : Act ι) : Prop :=
  finds s a ∧
    match a with
    | .handler w => (s.p w).timer = .queued → (s.p w).alreadyFinalized = true
    | .run c _ => ∀ n ∈ (s.pc c).timedAwait, (s.p (c, n)).timer ≠ .queued
    | _ => True

instance [DecidableEq ι] (s : State ι) : (a : Act ι) → Decidable (finds s a)
  | .run _ _ => inferInstanceAs (Decidable (_ → _))
  | .lock _ | .tryLock _ | .tryLockFor _ _ | .unlock _ | .expire _ | .handler _ => .isTrue trivial

instance [DecidableEq ι] (s : State ι) : (a : Act ι) → Decidable (undisturbed s a)
  | .handler _ => inferInstanceAs (Decidable (_ ∧ (_ → _)))
  | .run c _ => inferInstanceAs (Decidable (_ ∧ ∀ n ∈ (s.pc c).timedAwait, _))
  | .lock _ | .tryLock _ | .tryLockFor _ _ | .unlock _ | .expire _ => .isTrue ⟨trivial, trivial⟩

/-- A step that refers to a waiter is taken inside the call that constructed it. -/
def inScope (s : State ι) : Act ι → Prop
  | .run c _ => ∀ w, (s.pc c).refers = some w → s.pending w
  | .handler w => s.pending w
  | _ => True

structure Scoped (s : State ι) : Prop where
  adding : ∀ c n, (s.pc c).adding = some n → (s.p (c, n)).alreadyFinalized = false
  untimed : ∀ c n, (s.pc c).untimed = some n → (s.p (c, n)).timer = .none
  noTimeout : ∀ w, (s.p w).timer ≠ .setting ∧ (s.p w).result ≠ some .timedOut
  disarmed : ∀ w, (s.p w).result ≠ none → (s.p w).timer ≠ .armed
  ended : ∀ c n, n < s.calls c → (s.pc c).waiter ≠ some n → (s.p (c, n)).result ≠ none ∧ (s.p (c, n)).timer ≠ .queued
  nodup : s.mWaiter.Nodup
  queued : ∀ w ∈ s.mWaiter, (s.pc w.1).parked = some w.2 ∧ (s.p w).alreadyFinalized = false
  first : ∀ c w, s.pc c ≠ .unlockSynchronize (some w)
  check : ∀ c x, s.pc c = .unlockCheck x → ∃ w, x = some w ∧ w ∉ s.mWaiter ∧ (s.pc w.1).parked = some w.2 ∧
    (s.p w).alreadyFinalized = false ∧ ∀ d, s.pc d = .unlockCheck (some w) → d = c
  noRetry : ∀ c, (s.pc c).afterTimeout = false
  hands : ∀ c w, (s.pc c).hands = some w → (s.pc w.1).parked = some w.2
  cancelled : ∀ c w, s.pc c = .unlockSetValue w → (s.p w).timer ≠ .armed

theorem scoped_init : Scoped (init : State ι) := by
  constructor <;> simp [init, Pc.adding, Pc.untimed, Pc.waiter, Pc.hands, Pc.afterTimeout]

/-- Outside of the calls' waiters and of the loop of `unlock`. -/
def Pc.plain : Pc ι → Bool
  | .idle | .lockCas _ | .lockFetchAdd | .tryLock | .holding | .unlockFetchSub | .unlockSynchronize none => true
  | _ => false

theorem Pc.waiter_of_parked {x : Pc ι} {n : Nat} (h : x.parked = some n) : x.waiter = some n := by
  cases x <;> simp_all [Pc.parked, Pc.waiter]

theorem Pc.waiter_of_adding {x : Pc ι} {n : Nat} (h : x.adding = some n) : x.waiter = some n := by
  cases x <;> simp_all [Pc.adding, Pc.waiter]

theorem Pc.parked_of_adding {x : Pc ι} {n : Nat} (h : x.adding = some n) : x.parked = none := by
  cases x <;> simp_all [Pc.adding, Pc.parked]

namespace Scoped

variable {s : State ι} {c : ι} {w : Waiter ι} {x : Pc ι}

/-- A timer that can still fire belongs to a call in progress. -/
theorem pending_of_timer (h : Scoped s) (hr : Record s) (ht : (s.p w).timer = .armed ∨ (s.p w).timer = .queued) :
    s.pending w := by
  by_contra hp
  have hlt : w.2 < s.calls w.1 := hr.numbered_of_ne fun he => by simp [he] at ht
  obtain ⟨hres, hnq⟩ := h.ended w.1 w.2 hlt hp
  rcases ht with ht | ht
  · exact h.disarmed w hres ht
  · exact hnq ht

/-- Nobody refers to a waiter that is not parked. -/
theorem unreferenced (h : Scoped s) (hw : (s.pc w.1).parked ≠ some w.2) :
    w ∉ s.mWaiter ∧ ∀ c, s.pc c ≠ .unlockCheck (some w) ∧ (s.pc c).hands ≠ some w := by
  refine ⟨fun hq => hw (h.queued w hq).1, fun c => ⟨fun hc => ?_, fun hc => hw (h.hands c w hc)⟩⟩
  obtain ⟨v, hv, -, hpark, -⟩ := h.check c _ hc
  cases hv
  exact hw hpark

theorem dequeue (h : Scoped s) {l : List (Waiter ι)} (hl : l.Sublist s.mWaiter) : Scoped { s with mWaiter := l } :=
  { h with
    nodup := h.nodup.sublist hl
    queued := fun w hw => h.queued w (hl.subset hw)
    check := by
      intro c x hc
      obtain ⟨w, hx, hnot, hrest⟩ := h.check c x hc
      exact ⟨w, hx, fun hw => hnot (hl.subset hw), hrest⟩ }

theorem enqueue (h : Scoped s) (hnew : w ∉ s.mWaiter) (hpark : (s.pc w.1).parked = some w.2)
    (hopen : (s.p w).alreadyFinalized = false) (hcheck : ∀ c, s.pc c ≠ .unlockCheck (some w)) :
    Scoped { s with mWaiter := addToWaiter s.mWaiter w } :=
  { h with
    nodup := List.nodup_append.2 ⟨h.nodup, List.nodup_singleton _, fun a ha b hb => by
      obtain rfl : b = w := by simpa using hb
      rintro rfl
      exact hnew ha⟩
    queued := by
      intro v hv
      rcases List.mem_append.1 hv with hv | hv
      · exact h.queued v hv
      · obtain rfl : v = w := by simpa using hv
        exact ⟨hpark, hopen⟩
    check := by
      intro c x hc
      obtain ⟨v, rfl, hnot, hrest⟩ := h.check c x hc
      refine ⟨v, rfl, fun hv => ?_, hrest⟩
      rcases List.mem_append.1 hv with hv | hv
      · exact hnot hv
      · obtain rfl : v = w := by simpa using hv
        exact hcheck c hc }

theorem count (h : Scoped s) (k : Int) : Scoped { s with mCountOfWaiter := k } := { h with }

variable [DecidableEq ι]

/-- A client moves. Where it leaves `await`, the result is there and nobody refers to its waiter any more. -/
theorem setPc (h : Scoped s) (hr : Record s)
    (hpark : ∀ n, (s.pc c).parked = some n → x.parked = some n ∨ (s.p (c, n)).result ≠ none)
    (hadd : ∀ n, x.adding = some n → (s.p (c, n)).alreadyFinalized = false)
    (huntimed : ∀ n, x.untimed = some n → (s.p (c, n)).timer = .none)
    (hover : ∀ n, n < s.calls c → x.waiter ≠ some n → (s.p (c, n)).result ≠ none ∧ (s.p (c, n)).timer ≠ .queued)
    (hfirst : ∀ w, x ≠ .unlockSynchronize (some w))
    (hcheck : ∀ y, x = .unlockCheck y → ∃ w, y = some w ∧ w ∉ s.mWaiter ∧ (s.pc w.1).parked = some w.2 ∧
      (s.p w).alreadyFinalized = false ∧ ∀ d, s.pc d = .unlockCheck (some w) → d = c)
    (hretry : x.afterTimeout = false)
    (hhands : ∀ w, x.hands = some w → (s.pc w.1).parked = some w.2 ∧ (s.p w).result = none)
    (hcancelled : ∀ w, x = .unlockSetValue w → (s.p w).timer ≠ .armed) : Scoped (s.setPc c x) := by
  have hstay : ∀ w, (s.pc w.1).parked = some w.2 → (s.p w).result = none →
      ((s.setPc c x).pc w.1).parked = some w.2 := by
    intro w hw hres
    by_cases hc : w.1 = c
    · rw [hc, setPc_pc_self]
      rw [hc] at hw
      rcases hpark w.2 hw with h' | h'
      · exact h'
      · rw [← hc] at h'
        exact absurd hres h'
    · rwa [setPc_pc_ne hc]
  refine { h with adding := ?_, untimed := ?_, ended := ?_, queued := ?_, first := ?_, check := ?_, noRetry := ?_,
                  hands := ?_, cancelled := ?_ }
  · intro d n hd
    by_cases hdc : d = c
    · subst hdc
      rw [setPc_pc_self] at hd
      exact hadd n hd
    · rw [setPc_pc_ne hdc] at hd
      exact h.adding d n hd
  · intro d n hd
    by_cases hdc : d = c
    · subst hdc
      rw [setPc_pc_self] at hd
      exact huntimed n hd
    · rw [setPc_pc_ne hdc] at hd
      exact h.untimed d n hd
  · intro d n hn hd
    by_cases hdc : d = c
    · subst hdc
      rw [setPc_pc_self] at hd
      exact hover n hn hd
    · rw [setPc_pc_ne hdc] at hd
      exact h.ended d n hn hd
  · intro w hw
    obtain ⟨hp, hopen⟩ := h.queued w hw
    exact ⟨hstay w hp (hr.unset hopen), hopen⟩
  · intro d w hd
    by_cases hdc : d = c
    · subst hdc
      rw [setPc_pc_self] at hd
      exact hfirst w hd
    · rw [setPc_pc_ne hdc] at hd
      exact h.first d w hd
  · intro d y hd
    have hfound : ∃ w, y = some w ∧ w ∉ s.mWaiter ∧ (s.pc w.1).parked = some w.2 ∧
        (s.p w).alreadyFinalized = false ∧ ∀ e, s.pc e = .unlockCheck (some w) → e = d := by
      by_cases hdc : d = c
      · subst hdc
        rw [setPc_pc_self] at hd
        exact hcheck y hd
      · rw [setPc_pc_ne hdc] at hd
        exact h.check d y hd
    obtain ⟨w, rfl, hnot, hp, hopen, honce⟩ := hfound
    refine ⟨w, rfl, hnot, hstay w hp (hr.unset hopen), hopen, fun e he => ?_⟩
    by_cases hec : e = c
    · subst hec
      rw [setPc_pc_self] at he
      obtain ⟨v, hv, -, -, -, hother⟩ := hcheck _ he
      cases hv
      by_contra hed
      rw [setPc_pc_ne (Ne.symm hed)] at hd
      exact hed (hother d hd).symm
    · rw [setPc_pc_ne hec] at he
      exact honce e he
  · intro d
    by_cases hdc : d = c
    · rw [hdc, setPc_pc_self]
      exact hretry
    · rw [setPc_pc_ne hdc]
      exact h.noRetry d
  · intro d w hd
    by_cases hdc : d = c
    · subst hdc
      rw [setPc_pc_self] at hd
      exact hstay w (hhands w hd).1 (hhands w hd).2
    · rw [setPc_pc_ne hdc] at hd
      exact hstay w (h.hands d w hd) (hr.hands d w hd).2
  · intro d w hd
    by_cases hdc : d = c
    · subst hdc
      rw [setPc_pc_self] at hd
      exact hcancelled w hd
    · rw [setPc_pc_ne hdc] at hd
      exact h.cancelled d w hd

/-- A client without a waiter moves to where it has none either. -/
theorem goto (h : Scoped s) (hr : Record s) (hold : (s.pc c).waiter = none) (hx : x.plain = true) :
    Scoped (s.setPc c x) := by
  have hparked : (s.pc c).parked = none := by
    cases hp : (s.pc c).parked with
    | none => rfl
    | some n =>
      rw [Pc.waiter_of_parked hp] at hold
      cases hold
  refine h.setPc hr (by simp [hparked]) ?_ ?_ (fun n hn _ => h.ended c n hn (by simp [hold]))
    (fun w hw => by subst hw; cases hx) ?_ ?_ ?_ ?_
  all_goals cases x <;> simp_all [Pc.plain, Pc.adding, Pc.untimed, Pc.hands, Pc.afterTimeout]

theorem setTimer (h : Scoped s) {t : Timer} (hset : t ≠ .setting)
    (huntimed : (s.pc w.1).untimed = some w.2 → t = .none) (harmed : t ≠ .armed)
    (hqueued : t = .queued → s.pending w) : Scoped (s.setTimer w t) := by
  have hp : ∀ v, ((s.setTimer w t).p v).alreadyFinalized = (s.p v).alreadyFinalized ∧
      ((s.setTimer w t).p v).result = (s.p v).result ∧
      (v = w ∧ ((s.setTimer w t).p v).timer = t ∨ v ≠ w ∧ ((s.setTimer w t).p v).timer = (s.p v).timer) := by
    intro v
    by_cases hv : v = w
    · subst hv
      simp [State.setTimer]
    · simp [State.setTimer, setP_p_ne hv, hv]
  refine { h with adding := ?_, untimed := ?_, noTimeout := ?_, disarmed := ?_, ended := ?_, queued := ?_, check := ?_,
                  cancelled := ?_ }
  · intro c n hc
    rw [(hp _).1]
    exact h.adding c n hc
  · intro c n hc
    rcases (hp (c, n)).2.2 with ⟨rfl, ht⟩ | ⟨-, ht⟩
    · exact ht.trans (huntimed hc)
    · exact ht.trans (h.untimed c n hc)
  · intro v
    rw [(hp v).2.1]
    rcases (hp v).2.2 with ⟨rfl, ht⟩ | ⟨-, ht⟩
    · exact ⟨by rwa [ht], (h.noTimeout v).2⟩
    · exact ⟨by rw [ht]; exact (h.noTimeout v).1, (h.noTimeout v).2⟩
  · intro v hv
    rw [(hp v).2.1] at hv
    rcases (hp v).2.2 with ⟨rfl, ht⟩ | ⟨-, ht⟩
    · rwa [ht]
    · rw [ht]
      exact h.disarmed v hv
  · intro c n hn hc
    obtain ⟨hres, hq⟩ := h.ended c n hn hc
    rw [(hp _).2.1]
    refine ⟨hres, ?_⟩
    rcases (hp (c, n)).2.2 with ⟨rfl, ht⟩ | ⟨-, ht⟩
    · rw [ht]
      exact fun hq' => hc (hqueued hq')
    · rwa [ht]
  · intro v hv
    rw [(hp v).1]
    exact h.queued v hv
  · intro c y hc
    obtain ⟨v, rfl, hnot, hpark, hopen, honce⟩ := h.check c y hc
    exact ⟨v, rfl, hnot, hpark, by rwa [(hp v).1], honce⟩
  · intro c v hc
    rcases (hp v).2.2 with ⟨rfl, ht⟩ | ⟨-, ht⟩
    · rwa [ht]
    · rw [ht]
      exact h.cancelled c v hc

/-- `timer->cancel()`. -/
theorem cancel (h : Scoped s) (hr : Record s) : Scoped (s.setTimer w (s.p w).timer.cancel) := by
  have hset := (h.noTimeout w).1
  refine h.setTimer (fun hc => hset (Timer.cancel_setting.1 hc)) (fun hc => ?_) ?_ fun hq => ?_
  · rw [h.untimed w.1 w.2 hc]
    rfl
  · cases (s.p w).timer <;> simp [Timer.cancel]
  · refine h.pending_of_timer hr (.inr ?_)
    revert hq
    cases (s.p w).timer <;> simp [Timer.cancel]

/-- The constructor of `p`, seen by a client that is about to add it. -/
theorem newWaiter (h : Scoped s) {t : Timer} (hc : (s.pc c).adding = some (s.calls c)) (hset : t ≠ .setting)
    (huntimed : (s.pc c).untimed = some (s.calls c) → t = .none) : Scoped (s.newWaiter c t) := by
  have hnone : (s.pc c).parked = none := Pc.parked_of_adding hc
  have hold : ∀ {w : Waiter ι}, (s.pc w.1).parked = some w.2 → (s.newWaiter c t).p w = s.p w := by
    intro w hw
    refine Function.update_of_ne ?_ _ _
    rintro rfl
    rw [hnone] at hw
    cases hw
  have hp : ∀ w, (s.newWaiter c t).p w = s.p w ∨ (s.newWaiter c t).p w = { timer := t } := by
    intro w
    by_cases hw : w = (c, s.calls c)
    · subst hw
      exact .inr (Function.update_self _ _ _)
    · exact .inl (Function.update_of_ne hw _ _)
  refine { h with adding := ?_, untimed := ?_, noTimeout := ?_, disarmed := ?_, ended := ?_, queued := ?_, check := ?_,
                  cancelled := ?_ }
  · intro d n hd
    rcases hp (d, n) with hw | hw
    · rw [hw]
      exact h.adding d n hd
    · rw [hw]
  · intro d n hd
    by_cases hw : (d, n) = (c, s.calls c)
    · cases hw
      simpa [State.newWaiter] using huntimed hd
    · exact (congrArg _ (Function.update_of_ne hw _ _)).trans (h.untimed d n hd)
  · intro w
    rcases hp w with hw | hw
    · rw [hw]
      exact h.noTimeout w
    · rw [hw]
      exact ⟨hset, by simp⟩
  · intro w hres
    rcases hp w with hw | hw
    · rw [hw] at hres ⊢
      exact h.disarmed w hres
    · rw [hw] at hres
      exact absurd rfl hres
  · intro d n hn hd
    have hw : (d, n) ≠ (c, s.calls c) := by
      rintro hw
      cases hw
      exact hd (Pc.waiter_of_adding hc)
    have hn' : n < s.calls d := by
      by_cases hdc : d = c
      · subst hdc
        have hle : n < s.calls d + 1 := by simpa [State.newWaiter] using hn
        have hne : n ≠ s.calls d := fun he => hw (by rw [he])
        omega
      · simpa [State.newWaiter, hdc] using hn
    have hsame : (s.newWaiter c t).p (d, n) = s.p (d, n) := Function.update_of_ne hw _ _
    rw [hsame]
    exact h.ended d n hn' hd
  · intro w hw
    obtain ⟨hpark, hopen⟩ := h.queued w hw
    exact ⟨hpark, by rwa [hold hpark]⟩
  · intro d y hd
    obtain ⟨w, rfl, hnot, hpark, hopen, honce⟩ := h.check d y hd
    exact ⟨w, rfl, hnot, hpark, by rwa [hold hpark], honce⟩
  · intro d w hd
    have hd' : s.pc d = .unlockSetValue w := hd
    rw [hold (h.hands d w (by rw [hd']; rfl))]
    exact h.cancelled d w hd

/-- The compare-exchange of `alreadyFinalized`, on a waiter that nobody refers to any more. -/
theorem finalize (h : Scoped s) {f : Finalizer} (hpark : (s.pc w.1).parked = some w.2) (hnot : w ∉ s.mWaiter)
    (hcheck : ∀ c, s.pc c ≠ .unlockCheck (some w)) : Scoped (s.finalize w f) := by
  have hp : ∀ v, ((s.finalize w f).p v).timer = (s.p v).timer ∧ ((s.finalize w f).p v).result = (s.p v).result ∧
      (v ≠ w → ((s.finalize w f).p v).alreadyFinalized = (s.p v).alreadyFinalized) := by
    intro v
    by_cases hv : v = w
    · subst hv
      simp [State.finalize]
    · simp [State.finalize, setP_p_ne hv]
  refine { h with adding := ?_, untimed := ?_, noTimeout := ?_, disarmed := ?_, ended := ?_, queued := ?_, check := ?_,
                  cancelled := ?_ }
  · intro c n hc
    have hne : (c, n) ≠ w := by
      rintro rfl
      have hnone : (s.pc c).parked = none := Pc.parked_of_adding hc
      exact absurd (hnone.symm.trans hpark) (by simp)
    rw [(hp _).2.2 hne]
    exact h.adding c n hc
  · intro c n hc
    rw [(hp _).1]
    exact h.untimed c n hc
  · intro v
    rw [(hp v).1, (hp v).2.1]
    exact h.noTimeout v
  · intro v hv
    rw [(hp v).2.1] at hv
    rw [(hp v).1]
    exact h.disarmed v hv
  · intro c n hn hc
    rw [(hp _).1, (hp _).2.1]
    exact h.ended c n hn hc
  · intro v hv
    have hne : v ≠ w := by rintro rfl; exact hnot hv
    rw [(hp v).2.2 hne]
    exact h.queued v hv
  · intro c y hc
    obtain ⟨v, rfl, hv, hpk, hopen, honce⟩ := h.check c y hc
    have hne : v ≠ w := by rintro rfl; exact hcheck c hc
    exact ⟨v, rfl, hv, hpk, by rwa [(hp v).2.2 hne], honce⟩
  · intro c v hc
    rw [(hp v).1]
    exact h.cancelled c v hc

/-- `set_value(Succeeded)`. -/
theorem setValue (h : Scoped s) (harmed : (s.p w).timer ≠ .armed) : Scoped (s.setValue w .succeeded) := by
  have hp : ∀ v, ((s.setValue w .succeeded).p v).timer = (s.p v).timer ∧
      ((s.setValue w .succeeded).p v).alreadyFinalized = (s.p v).alreadyFinalized ∧
      (((s.setValue w .succeeded).p v).result = (s.p v).result ∨
        v = w ∧ ((s.setValue w .succeeded).p v).result = some .succeeded) := by
    intro v
    by_cases hv : v = w
    · subst hv
      simp [State.setValue]
    · simp [State.setValue, setP_p_ne hv]
  refine { h with adding := ?_, untimed := ?_, noTimeout := ?_, disarmed := ?_, ended := ?_, queued := ?_, check := ?_,
                  cancelled := ?_ }
  · intro c n hc
    rw [(hp _).2.1]
    exact h.adding c n hc
  · intro c n hc
    rw [(hp _).1]
    exact h.untimed c n hc
  · intro v
    rw [(hp v).1]
    rcases (hp v).2.2 with hres | ⟨-, hres⟩
    · rw [hres]
      exact h.noTimeout v
    · rw [hres]
      exact ⟨(h.noTimeout v).1, by simp⟩
  · intro v hv
    rw [(hp v).1]
    rcases (hp v).2.2 with hres | ⟨rfl, -⟩
    · rw [hres] at hv
      exact h.disarmed v hv
    · exact harmed
  · intro c n hn hc
    obtain ⟨hres, hq⟩ := h.ended c n hn hc
    rw [(hp _).1]
    refine ⟨?_, hq⟩
    rcases (hp (c, n)).2.2 with hres' | ⟨-, hres'⟩
    · rwa [hres']
    · rw [hres']
      simp
  · intro v hv
    rw [(hp v).2.1]
    exact h.queued v hv
  · intro c y hc
    obtain ⟨v, rfl, hv, hpk, hopen, honce⟩ := h.check c y hc
    exact ⟨v, rfl, hv, hpk, by rwa [(hp v).2.1], honce⟩
  · intro c v hc
    rw [(hp v).1]
    exact h.cancelled c v hc

/-- The construction of `p` in a call. -/
theorem construct (h : Scoped s) (hr : Record s) {t : Timer} (hold : (s.pc c).waiter = none) (hset : t ≠ .setting)
    (hx : x = .lockAddToWaiter (s.calls c) ∧ t = .none ∨ x = .tryLockForAddToWaiter (s.calls c)) :
    Scoped ((s.newWaiter c t).setPc c x) := by
  have hparked : (s.pc c).parked = none := by
    cases hp : (s.pc c).parked with
    | none => rfl
    | some n =>
      rw [Pc.waiter_of_parked hp] at hold
      cases hold
  have hfresh := hr.fresh c (s.calls c) le_rfl
  have hmoved : Scoped (s.setPc c x) := by
    refine h.setPc hr (by simp [hparked]) ?_ ?_ (fun n hn _ => h.ended c n hn (by simp [hold])) ?_ ?_ ?_ ?_ ?_
    all_goals rcases hx with ⟨rfl, -⟩ | rfl <;> simp [Pc.adding, Pc.untimed, Pc.hands, Pc.afterTimeout, hfresh]
  refine hmoved.newWaiter (c := c) (t := t) ?_ hset ?_
  · rw [setPc_pc_self]
    rcases hx with ⟨rfl, -⟩ | rfl <;> rfl
  · rw [setPc_pc_self]
    rcases hx with ⟨rfl, ht⟩ | rfl
    · exact fun _ => ht
    · simp [Pc.untimed]

/-- `addToWaiter`: the client parks. -/
theorem park (h : Scoped s) (hr : Record s) {n : Nat} (hc : (s.pc c).adding = some n) (hx : x.parked = some n)
    (huntimed : ∀ m, x.untimed = some m → (s.pc c).untimed = some m) :
    Scoped { s.setPc c x with mWaiter := addToWaiter s.mWaiter (c, n) } := by
  have hnone := Pc.parked_of_adding hc
  obtain ⟨hq, hfree⟩ := h.unreferenced (w := (c, n)) (by simp [hnone])
  have hmoved : Scoped (s.setPc c x) := by
    refine h.setPc hr (by simp [hnone]) ?_ (fun m hm => h.untimed c m (huntimed m hm)) ?_ ?_ ?_ ?_ ?_ ?_
    · cases x <;> simp_all [Pc.parked, Pc.adding]
    · intro m hm hne
      rw [Pc.waiter_of_parked hx, ← Pc.waiter_of_adding hc] at hne
      exact h.ended c m hm hne
    all_goals cases x <;> simp_all [Pc.parked, Pc.hands, Pc.afterTimeout]
  refine hmoved.enqueue hq ?_ (h.adding c n hc) fun d hd => ?_
  · rw [setPc_pc_self]
    exact hx
  · by_cases hdc : d = c
    · subst hdc
      rw [setPc_pc_self] at hd
      rw [hd] at hx
      cases hx
    · rw [setPc_pc_ne hdc] at hd
      exact (hfree d).1 hd

/-- The call returns with the mutex. -/
theorem wake (h : Scoped s) (hr : Record s) {n : Nat} (hc : (s.pc c).parked = some n)
    (hres : (s.p (c, n)).result ≠ none) (hq : (s.p (c, n)).timer ≠ .queued) :
    Scoped ((s.destroy (c, n)).setPc c .holding) := by
  have hn : n < s.calls c := hr.waiters c n (Pc.waiter_of_parked hc)
  have h1 : Scoped (s.destroy (c, n)) := h.cancel hr
  have hres' : ((s.destroy (c, n)).p (c, n)).result ≠ none := by simpa [State.destroy, State.setTimer] using hres
  refine h1.setPc (hr.destroy hn) ?_ (by simp [Pc.adding]) (by simp [Pc.untimed]) ?_ (by simp) (by simp) rfl
    (by simp [Pc.hands]) (by simp)
  · intro m hm
    have hm' : (s.pc c).parked = some m := hm
    rw [hc] at hm'
    cases hm'
    exact .inr hres'
  · intro m hm _
    by_cases hmn : m = n
    · subst hmn
      refine ⟨hres', ?_⟩
      have hcancel : ((s.destroy (c, m)).p (c, m)).timer = (s.p (c, m)).timer.cancel := by
        simp [State.destroy, State.setTimer]
      rw [hcancel]
      revert hq
      cases (s.p (c, m)).timer <;> simp [Timer.cancel]
    · refine h1.ended c m hm fun hw => ?_
      have hw' : (s.pc c).waiter = some m := hw
      rw [Pc.waiter_of_parked hc] at hw'
      cases hw'
      exact hmn rfl

/-- `unlock` takes the first pointer out of `mWaiter`. -/
theorem take (h : Scoped s) (hr : Record s) {next : Waiter ι} {rest : List (Waiter ι)} (hold : (s.pc c).waiter = none)
    (hq : s.mWaiter = next :: rest) : Scoped { s.setPc c (.unlockCheck (some next)) with mWaiter := rest } := by
  have hmem : next ∈ s.mWaiter := by rw [hq]; exact List.mem_cons_self
  have hnot : next ∉ rest := (List.nodup_cons.1 (hq ▸ h.nodup)).1
  obtain ⟨hpark, hopen⟩ := h.queued next hmem
  have h1 : Scoped { s with mWaiter := rest } := h.dequeue (by rw [hq]; exact List.sublist_cons_self _ _)
  have hr1 : Record { s with mWaiter := rest } :=
    hr.requeue fun w hw => hr.queue w (by rw [hq]; exact List.mem_cons_of_mem _ hw)
  refine h1.setPc (c := c) hr1 ?_ (by simp [Pc.adding]) (by simp [Pc.untimed])
    (fun n hn _ => h.ended c n hn (by simp [hold])) (by simp) ?_ rfl (by simp [Pc.hands]) (by simp)
  · intro n hn
    rw [Pc.waiter_of_parked hn] at hold
    cases hold
  · rintro y hy
    obtain rfl : some next = y := by simpa using hy
    refine ⟨next, rfl, hnot, hpark, hopen, fun d hd => ?_⟩
    obtain ⟨w, hw, hnq, -⟩ := h.check d _ hd
    cases hw
    exact absurd hmem hnq

/-- `unlock` wins the compare-exchange. -/
theorem handOver (h : Scoped s) (hr : Record s) {next : Waiter ι} (hc : s.pc c = .unlockCheck (some next)) :
    Scoped ((s.finalize next .handOver).setPc c (.unlockCancel next)) := by
  obtain ⟨w, hw, hnot, hpark, hopen, honce⟩ := h.check c _ hc
  cases hw
  have hnone : (s.pc c).waiter = none := by rw [hc]; rfl
  have hr0 : Record (s.setPc c .idle) := hr.goto rfl rfl rfl
  have h0 : Scoped (s.setPc c .idle) := h.goto hr hnone rfl
  have hne : next.1 ≠ c := by
    rintro he
    rw [he, hc] at hpark
    cases hpark
  have hpark0 : ((s.setPc c .idle).pc next.1).parked = some next.2 := by rwa [setPc_pc_ne hne]
  have hfree : ∀ d, (s.setPc c .idle).pc d ≠ .unlockCheck (some next) := by
    intro d hd
    by_cases hdc : d = c
    · subst hdc
      rw [setPc_pc_self] at hd
      cases hd
    · rw [setPc_pc_ne hdc] at hd
      exact hdc (honce d hd)
  have hn : next.2 < (s.setPc c .idle).calls next.1 := hr0.waiters _ _ (Pc.waiter_of_parked hpark0)
  have h1 : Scoped ((s.setPc c .idle).finalize next .handOver) := h0.finalize hpark0 hnot hfree
  have hr1 : Record ((s.setPc c .idle).finalize next .handOver) := hr0.finalize hn hopen
  have h2 := h1.setPc (c := c) (x := .unlockCancel next) hr1 ?_ (by simp [Pc.adding]) (by simp [Pc.untimed])
    (fun n hn _ => h1.ended c n hn ?_) (by simp) (by simp) rfl ?_ (by simp)
  · simpa [State.setPc, State.finalize, State.setP] using h2
  · intro n hn'
    have hidle : ((s.setPc c .idle).pc c).parked = some n := hn'
    rw [setPc_pc_self] at hidle
    cases hidle
  · show ((s.setPc c .idle).pc c).waiter ≠ some n
    simp [Pc.waiter]
  · intro v hv
    obtain rfl : next = v := by simpa [Pc.hands] using hv
    exact ⟨hpark0, by simpa [State.finalize] using hr0.unset hopen⟩

end Scoped

section
variable [DecidableEq ι] {s s' : State ι} {c : ι} {w : Waiter ι}

theorem runStep_scoped (h : Scoped s) (hr : Record s) {spurious : Bool} (hok : undisturbed s (.run c spurious))
    (hst : runStep s c spurious = some s') : Scoped s' := by
  unfold runStep at hst
  split at hst
  case h_1 => cases hst
  case h_2 => cases hst
  case h_3 i hp =>
    have hold : (s.pc c).waiter = none := by rw [hp]; rfl
    split at hst
    · cases hst
      exact (h.count _).goto (hr.count _) hold rfl
    · split at hst <;> cases hst <;> exact h.goto hr hold rfl
  case h_4 hp =>
    cases hst
    have hold : (s.pc c).waiter = none := by rw [hp]; rfl
    unfold lockFetchAdd
    dsimp only
    split
    · exact (h.count _).goto (hr.count _) hold rfl
    · exact (h.count _).construct (hr.count _) hold (by simp) (.inl ⟨rfl, rfl⟩)
  case h_5 n hp =>
    cases hst
    exact h.park hr (by rw [hp]; rfl) rfl (by simp [hp, Pc.untimed])
  case h_6 n hp =>
    split at hst <;> cases hst
    rename_i r hres
    refine h.wake hr (by rw [hp]; rfl) (by simp [hres]) ?_
    rw [h.untimed c n (by rw [hp]; rfl)]
    simp
  case h_7 hp =>
    have hold : (s.pc c).waiter = none := by rw [hp]; rfl
    split at hst <;> cases hst
    · exact (h.count _).goto (hr.count _) hold rfl
    · exact h.goto hr hold rfl
  case h_8 n hp =>
    cases hst
    exact h.park hr (by rw [hp]; rfl) rfl (by simp [Pc.untimed])
  case h_9 n hp =>
    split at hst <;> cases hst
    case h_2 hres => exact absurd hres (h.noTimeout _).2
    case h_3 hres =>
      have hq : (s.p (c, n)).timer ≠ .queued := hok.2 n (by rw [hp]; rfl)
      exact h.wake hr (by rw [hp]; rfl) (by simp [hres]) hq
  case h_10 n hp =>
    have := h.noRetry c
    rw [hp] at this
    cases this
  case h_11 hp =>
    cases hst
    have hold : (s.pc c).waiter = none := by rw [hp]; rfl
    unfold unlockFetchSub
    dsimp only
    split <;> exact (h.count _).goto (hr.count _) hold rfl
  case h_12 next hp =>
    split at hst <;> cases hst
    case h_1 hq =>
      have hne : s.mWaiter ≠ [] := hok.1 (by rw [hp]; rfl)
      cases hl : s.mWaiter with
      | nil => exact absurd hl hne
      | cons => rw [hl] at hq; cases hq
    case h_2 next rest hnext => exact h.take hr (by rw [hp]; rfl) (getNextWaiter_some hnext)
  case h_13 => cases hst
  case h_14 next hp =>
    obtain ⟨w, hw, -, -, hopen, -⟩ := h.check c _ hp
    cases hw
    rw [if_neg (by simp [hopen])] at hst
    cases hst
    exact h.handOver hr hp
  case h_15 next hp =>
    have := h.noRetry c
    rw [hp] at this
    cases this
  case h_16 next hp =>
    cases hst
    have hhands : (s.pc c).hands = some next := by rw [hp]; rfl
    have hn : next.2 < s.calls next.1 := hr.nexts c next (by rw [hp]; rfl)
    refine (h.cancel hr).setPc (hr.cancel hn) ?_ (by simp [Pc.adding]) (by simp [Pc.untimed])
      (fun n hn _ => (h.cancel hr).ended c n hn ?_) (by simp) (by simp) rfl ?_ ?_
    · intro n hn'
      have hpark : (s.pc c).parked = some n := hn'
      rw [hp] at hpark
      cases hpark
    · show (s.pc c).waiter ≠ some n
      simp [hp, Pc.waiter]
    · intro v hv
      obtain rfl : next = v := by simpa [Pc.hands] using hv
      exact ⟨h.hands c next hhands, by simpa [State.setTimer] using (hr.hands c next hhands).2⟩
    · intro v hv
      obtain rfl : next = v := by simpa using hv
      have hcancel : ((s.setTimer next (s.p next).timer.cancel).p next).timer = (s.p next).timer.cancel := by
        simp [State.setTimer]
      rw [hcancel]
      cases (s.p next).timer <;> simp [Timer.cancel]
  case h_17 next hp =>
    cases hst
    have h0 : Scoped (s.setPc c .idle) := h.goto hr (by rw [hp]; rfl) rfl
    exact h0.setValue (h.cancelled c next hp)

theorem scoped_step {a : Act ι} (h : Scoped s) (hr : Record s) (hok : undisturbed s a) (hst : step s a = some s') :
    Scoped s' := by
  cases a with
  | lock c =>
    simp only [step] at hst
    split at hst <;> cases hst
    rename_i hp
    exact h.goto hr (by rw [hp]; rfl) rfl
  | tryLock c =>
    simp only [step] at hst
    split at hst <;> cases hst
    rename_i hp
    exact h.goto hr (by rw [hp]; rfl) rfl
  | tryLockFor c positive =>
    simp only [step] at hst
    split at hst
    case isFalse => cases hst
    case isTrue hp =>
      split at hst <;> cases hst
      · exact h.construct hr (by rw [hp]; rfl) (by simp) (.inr rfl)
      · exact h.goto hr (by rw [hp]; rfl) rfl
  | unlock c =>
    simp only [step] at hst
    split at hst <;> cases hst
    rename_i hp
    exact h.goto hr (by rw [hp]; rfl) rfl
  | run c spurious => exact runStep_scoped h hr hok hst
  | expire w =>
    simp only [step] at hst
    split at hst <;> cases hst
    rename_i harmed
    refine h.setTimer (by simp) (fun hu => ?_) (by simp) fun _ => h.pending_of_timer hr (.inl harmed)
    rw [h.untimed w.1 w.2 hu] at harmed
    cases harmed
  | handler w =>
    simp only [step, handlerStep] at hst
    split at hst
    case h_1 hq =>
      rw [if_pos (hok.2 hq)] at hst
      cases hst
      refine h.setTimer (by simp) (fun hu => ?_) (by simp) (by simp)
      rw [h.untimed w.1 w.2 hu] at hq
      cases hq
    case h_2 hset => exact absurd hset (h.noTimeout w).1
    all_goals cases hst

theorem scoped_reachable (h : Reachable step undisturbed init s) : Record s ∧ Scoped s := by
  refine h.invariant (I := fun s => Record s ∧ Scoped s) ⟨record_init, scoped_init⟩ ?_
  intro s a s' hI hok hst
  exact ⟨record_step hI.1 hst, scoped_step hI.2 hI.1 hok hst⟩

/-- Every step that refers to a waiter is taken while its call is in progress. -/
theorem inScope_of_scoped {a : Act ι} (h : Scoped s) (hr : Record s) (hst : step s a = some s') : inScope s a := by
  cases a with
  | run c spurious =>
    intro w hw
    cases hp : s.pc c with
    | unlockCheck x =>
      obtain ⟨v, rfl, -, hpark, -⟩ := h.check c x hp
      obtain rfl : v = w := by simpa [hp, Pc.refers] using hw
      exact Pc.waiter_of_parked hpark
    | unlockCancel v =>
      obtain rfl : v = w := by simpa [hp, Pc.refers] using hw
      exact Pc.waiter_of_parked (h.hands c v (by rw [hp]; rfl))
    | unlockSetValue v =>
      obtain rfl : v = w := by simpa [hp, Pc.refers] using hw
      exact Pc.waiter_of_parked (h.hands c v (by rw [hp]; rfl))
    | _ => simp [hp, Pc.refers] at hw
  | handler w =>
    simp only [step, handlerStep] at hst
    split at hst
    case h_1 hq => exact h.pending_of_timer hr (.inr hq)
    case h_2 hset => exact absurd hset (h.noTimeout w).1
    all_goals cases hst
  | lock | tryLock | tryLockFor | unlock | expire => trivial

/-- **A waiter is referred to only while its call is pending**, in every run in which no timeout finalizes a waiter
and no call returns before its queued handler has run. Its pointer in `mWaiter` is that of a suspended call; each
waiter is finalized once and its result set once, both before the call returns. -/
theorem waiter_used_in_scope {as : List (Act ι)} (h : Run step undisturbed init as s) :
    (∀ w ∈ s.mWaiter, s.pending w) ∧
    ((s.finalized.map Prod.fst).Nodup ∧ (s.results.map Prod.fst).Nodup ∧
      (∀ w r, (w, r) ∈ s.results → (w, r.finalizer) ∈ s.finalized) ∧
      ∀ c n, n < s.calls c → ¬ s.pending (c, n) → ∃ r, ((c, n), r) ∈ s.results) ∧
    Run step inScope init as s := by
  obtain ⟨hr, hs⟩ := scoped_reachable ⟨as, h⟩
  refine ⟨fun w hw => Pc.waiter_of_parked (hs.queued w hw).1,
    ⟨hr.wonOnce, hr.storedOnce, hr.winner, fun c n hn hp => ?_⟩, ?_⟩
  · obtain ⟨r, hres⟩ := Option.ne_none_iff_exists'.1 (hs.ended c n hn hp).1
    exact ⟨r, (hr.stored _ r).1 hres⟩
  · clear hr hs
    induction h with
    | nil => exact .nil _
    | @snoc t u as a hrun hok hst ih =>
      obtain ⟨hr, hs⟩ := scoped_reachable ⟨as, hrun⟩
      exact ih.snoc (inScope_of_scoped hs hr hst) hst

end

/-! ## The two exits -/

-- the clients of the schedules are numerals of `Fin 2` and `Fin 3`
local instance twoClients : NeZero 2 := ⟨by decide⟩

local instance threeClients : NeZero 3 := ⟨by decide⟩

/-- Client 0 holds the mutex, a `try_lock_for` of client 1 times out, returns and leaves its pointer in `mWaiter`. -/
def timedOutSchedule : List (Act (Fin 2)) :=
  [.lock 0, .run 0 false, .tryLockFor 1 true, .run 1 false, .expire (1, 0), .handler (1, 0), .handler (1, 0),
    .run 1 false, .run 1 false]

/-- The timer has expired before `unlock` cancels it; client 1 returns with the mutex before the handler runs. (Client 2
is the counted waiter that makes `unlock` look into `mWaiter`.) -/
def queuedHandlerSchedule : List (Act (Fin 3)) :=
  List.flatten [[.lock 0, .run 0 false, .tryLockFor 1 true, .run 1 false, .lock 2], List.replicate 9 (.run 2 false),
    [.expire (1, 0), .unlock 0], List.replicate 5 (.run 0 false), [.run 1 false]]

/-- The same with the timer still armed at `cancel()`. -/
def cancelledSchedule : List (Act (Fin 3)) :=
  List.flatten [[.lock 0, .run 0 false, .tryLockFor 1 true, .run 1 false, .lock 2], List.replicate 9 (.run 2 false),
    [.unlock 0], List.replicate 5 (.run 0 false), [.run 1 false]]

theorem waiter_used_in_scope_cancelled : ∃ s : State (Fin 3), s.pc 1 = .holding ∧
    (∃ r, ((1, 0), r) ∈ s.results) ∧ Run step inScope init cancelledSchedule s := by
  have hrun := exec_get_run step undisturbed (init : State (Fin 3)) cancelledSchedule (by decide)
  have h := waiter_used_in_scope hrun
  exact ⟨_, by decide, h.2.1.2.2.2 1 0 (by decide) (by decide), h.2.2⟩

/-- A pointer in `mWaiter` to a waiter whose call has returned, and a handler that runs on one. -/
theorem waiter_outlived :
    (∃ s : State (Fin 2), Reachable step anyStep init s ∧ (1, 0) ∈ s.mWaiter ∧ ¬ s.pending (1, 0)) ∧
    ∃ s s' : State (Fin 3), Reachable step anyStep init s ∧ step s (.handler (1, 0)) = some s' ∧
      ¬ s.pending (1, 0) := by
  constructor
  · have hrun := exec_get_run step anyStep (init : State (Fin 2)) timedOutSchedule (by decide)
    exact ⟨_, ⟨_, hrun⟩, by decide, by decide⟩
  · have hrun := exec_get_run step anyStep (init : State (Fin 3)) queuedHandlerSchedule (by decide)
    exact ⟨_, _, ⟨_, hrun⟩, (Option.some_get (by decide)).symm, by decide⟩

end CoAwait.TimedMutex
