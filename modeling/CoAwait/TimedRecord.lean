import CoAwait.TimedMutex

/-!
# `TimedMutexWaiter`: finalized once

Both `unlock` and the handler of the timer may finalize a waiter; the compare-exchange of `alreadyFinalized` decides.

* `Pc.waiter`, `Pc.next`, `Pc.hands`: the waiters that a program counter speaks about.
* `Record`: what the records say about the waiters; it holds in every run, whatever the timers do.
-/

namespace CoAwait.TimedMutex

open Runs
open CoAwait.Mutex (Waiter casWeak wrapInt)

variable {ι : Type}

/-- The waiter of the call in progress. -/
def Pc.waiter : Pc ι → Option Nat
  | .lockAddToWaiter n | .lockAwait n | .tryLockForAddToWaiter n | .tryLockForAwait n | .tryLockForFetchSub n => some n
  | _ => none

/-- The local `next` of `unlock`. -/
def Pc.next : Pc ι → Option (Waiter ι)
  | .unlockSynchronize next | .unlockCheck next | .unlockCount next => next
  | .unlockCancel next | .unlockSetValue next => some next
  | _ => none

/-- The waiter that this `unlock` has finalized and not yet completed. -/
def Pc.hands : Pc ι → Option (Waiter ι)
  | .unlockCancel next | .unlockSetValue next => some next
  | _ => none

def Result.finalizer : Result → Finalizer
  | .succeeded => .handOver
  | .timedOut => .timeout

section
variable [DecidableEq ι] {s s' : State ι} {c d : ι} {w v : Waiter ι} {x : Pc ι}

@[simp] theorem setPc_pc_self : (s.setPc c x).pc c = x := by simp [State.setPc]

theorem setPc_pc_ne (h : d ≠ c) : (s.setPc c x).pc d = s.pc d := by simp [State.setPc, h]

@[simp] theorem setP_p_self {y : TimedMutexWaiter} : (s.setP w y).p w = y := by simp [State.setP]

theorem setP_p_ne {y : TimedMutexWaiter} (h : v ≠ w) : (s.setP w y).p v = s.p v := by simp [State.setP, h]

end

theorem Timer.cancel_setting {t : Timer} : t.cancel = .setting ↔ t = .setting := by
  cases t <;> simp [Timer.cancel]

theorem getNextWaiter_some {l rest : List (Waiter ι)} {w : Waiter ι} (h : getNextWaiter l = some (w, rest)) :
    l = w :: rest := by
  cases l with
  | nil => cases h
  | cons => cases h; rfl

/-- What `finalized` and `results` say about the waiters. -/
structure Record (s : State ι) : Prop where
  fresh : ∀ c n, s.calls c ≤ n → s.p (c, n) = {}
  waiters : ∀ c n, (s.pc c).waiter = some n → n < s.calls c
  queue : ∀ w ∈ s.mWaiter, w.2 < s.calls w.1
  nexts : ∀ c w, (s.pc c).next = some w → w.2 < s.calls w.1
  won : ∀ w, (s.p w).alreadyFinalized = true ↔ ∃ f, (w, f) ∈ s.finalized
  wonOnce : (s.finalized.map Prod.fst).Nodup
  hands : ∀ c w, (s.pc c).hands = some w → (w, .handOver) ∈ s.finalized ∧ (s.p w).result = none
  handsOnce : ∀ c d w, (s.pc c).hands = some w → (s.pc d).hands = some w → c = d
  setting : ∀ w, (s.p w).timer = .setting → (w, .timeout) ∈ s.finalized ∧ (s.p w).result = none
  stored : ∀ w r, (s.p w).result = some r ↔ (w, r) ∈ s.results
  storedOnce : (s.results.map Prod.fst).Nodup
  winner : ∀ w r, (w, r) ∈ s.results → (w, r.finalizer) ∈ s.finalized

theorem record_init : Record (init : State ι) := by
  constructor <;> simp [init, Pc.waiter, Pc.next, Pc.hands]

namespace Record

section
variable {s s' : State ι} {c d : ι} {w v : Waiter ι} {x : Pc ι}

theorem unset (h : Record s) (hw : (s.p w).alreadyFinalized = false) : (s.p w).result = none := by
  cases hr : (s.p w).result with
  | none => rfl
  | some r =>
    have := (h.won w).2 ⟨_, h.winner w r ((h.stored w r).1 hr)⟩
    rw [hw] at this
    cases this

/-- The two winners exclude each other. -/
theorem not_setting (h : Record s) (hc : (s.pc c).hands = some w) : (s.p w).timer ≠ .setting := by
  intro hs
  have := List.inj_on_of_nodup_map h.wonOnce (h.hands c w hc).1 (h.setting w hs).1 rfl
  cases this

theorem numbered_of_ne (h : Record s) (hw : s.p w ≠ {}) : w.2 < s.calls w.1 := by
  by_contra hge
  exact hw (h.fresh w.1 w.2 (by omega))

/-- Only the counter changes. -/
theorem count (h : Record s) (k : Int) : Record { s with mCountOfWaiter := k } := { h with }

/-- A pointer is added to or taken out of `mWaiter`. -/
theorem requeue (h : Record s) {l : List (Waiter ι)} (hl : ∀ w ∈ l, w.2 < s.calls w.1) :
    Record { s with mWaiter := l } :=
  { h with queue := hl }

variable [DecidableEq ι]

/-- A waiter is only written to once its call has started. -/
theorem fresh_setP (h : Record s) (hw : w.2 < s.calls w.1) (y : TimedMutexWaiter) :
    ∀ c n, s.calls c ≤ n → (s.setP w y).p (c, n) = {} := by
  intro c n hn
  have hne : (c, n) ≠ w := by
    rintro rfl
    exact absurd hw (Nat.not_lt.2 hn)
  rw [setP_p_ne hne]
  exact h.fresh c n hn

/-- A client moves on; if it is then to complete a waiter, it is the one that has finalized it. -/
theorem setPc (h : Record s) (hwaiter : ∀ n, x.waiter = some n → n < s.calls c)
    (hnext : ∀ w, x.next = some w → w.2 < s.calls w.1)
    (hhands : ∀ w, x.hands = some w →
      ((w, .handOver) ∈ s.finalized ∧ (s.p w).result = none) ∧ ∀ d, (s.pc d).hands = some w → d = c) :
    Record (s.setPc c x) := by
  refine { h with waiters := ?_, nexts := ?_, hands := ?_, handsOnce := ?_ }
  · intro d n hd
    by_cases hdc : d = c
    · subst hdc
      rw [setPc_pc_self] at hd
      exact hwaiter n hd
    · rw [setPc_pc_ne hdc] at hd
      exact h.waiters d n hd
  · intro d w hd
    by_cases hdc : d = c
    · subst hdc
      rw [setPc_pc_self] at hd
      exact hnext w hd
    · rw [setPc_pc_ne hdc] at hd
      exact h.nexts d w hd
  · intro d w hd
    by_cases hdc : d = c
    · subst hdc
      rw [setPc_pc_self] at hd
      exact (hhands w hd).1
    · rw [setPc_pc_ne hdc] at hd
      exact h.hands d w hd
  · intro d e w hd he
    by_cases hdc : d = c <;> by_cases hec : e = c
    · rw [hdc, hec]
    · subst hdc
      rw [setPc_pc_self] at hd
      rw [setPc_pc_ne hec] at he
      exact absurd ((hhands w hd).2 e he) hec
    · subst hec
      rw [setPc_pc_self] at he
      rw [setPc_pc_ne hdc] at hd
      exact absurd ((hhands w he).2 d hd) hdc
    · rw [setPc_pc_ne hdc] at hd
      rw [setPc_pc_ne hec] at he
      exact h.handsOnce d e w hd he

theorem setTimer (h : Record s) {t : Timer} (hw : w.2 < s.calls w.1)
    (ht : t = .setting → (w, .timeout) ∈ s.finalized ∧ (s.p w).result = none) : Record (s.setTimer w t) := by
  have hp : ∀ v, ((s.setTimer w t).p v).alreadyFinalized = (s.p v).alreadyFinalized ∧
      ((s.setTimer w t).p v).result = (s.p v).result := by
    intro v
    by_cases hv : v = w
    · subst hv
      simp [State.setTimer]
    · simp [State.setTimer, setP_p_ne hv]
  refine { h with fresh := ?_, won := ?_, hands := ?_, setting := ?_, stored := ?_ }
  · exact h.fresh_setP hw _
  · intro v
    rw [(hp v).1]
    exact h.won v
  · intro c v hc
    rw [(hp v).2]
    exact h.hands c v hc
  · intro v hv
    by_cases hvw : v = w
    · subst hvw
      rw [(hp v).2]
      exact ht (by simpa [State.setTimer] using hv)
    · rw [(hp v).2]
      exact h.setting v (by simpa [State.setTimer, setP_p_ne hvw] using hv)
  · intro v r
    rw [(hp v).2]
    exact h.stored v r

theorem newWaiter (h : Record s) {t : Timer} (ht : t ≠ .setting) : Record (s.newWaiter c t) := by
  have hcalls : ∀ d, s.calls d ≤ (s.newWaiter c t).calls d := by
    intro d
    by_cases hd : d = c
    · subst hd
      simp [State.newWaiter]
    · simp [State.newWaiter, hd]
  have hold := h.fresh c (s.calls c) le_rfl
  have hp : ∀ v, ((s.newWaiter c t).p v).alreadyFinalized = (s.p v).alreadyFinalized ∧
      ((s.newWaiter c t).p v).result = (s.p v).result := by
    intro v
    by_cases hv : v = (c, s.calls c)
    · subst hv
      simp [State.newWaiter, hold]
    · simp [State.newWaiter, hv]
  refine { h with
    fresh := ?_, waiters := ?_, queue := ?_, nexts := ?_, won := ?_, hands := ?_, setting := ?_, stored := ?_ }
  · intro d n hn
    by_cases hd : d = c
    · subst hd
      have hlt : s.calls d + 1 ≤ n := by simpa [State.newWaiter] using hn
      have hne : (d, n) ≠ (d, s.calls d) := by simp; omega
      exact (Function.update_of_ne hne _ _).trans (h.fresh d n (by omega))
    · have hne : (d, n) ≠ (c, s.calls c) := by simp [hd]
      exact (Function.update_of_ne hne _ _).trans (h.fresh d n (by simpa [State.newWaiter, hd] using hn))
  · exact fun d n hd => (h.waiters d n hd).trans_le (hcalls d)
  · exact fun v hv => (h.queue v hv).trans_le (hcalls v.1)
  · exact fun d v hd => (h.nexts d v hd).trans_le (hcalls v.1)
  · intro v
    rw [(hp v).1]
    exact h.won v
  · intro d v hd
    rw [(hp v).2]
    exact h.hands d v hd
  · intro v hv
    rw [(hp v).2]
    by_cases hvc : v = (c, s.calls c)
    · subst hvc
      exact absurd (by simpa [State.newWaiter] using hv) ht
    · exact h.setting v (by simpa [State.newWaiter, hvc] using hv)
  · intro v r
    rw [(hp v).2]
    exact h.stored v r

/-- The compare-exchange of `alreadyFinalized` succeeds. -/
theorem finalize (h : Record s) {f : Finalizer} (hw : w.2 < s.calls w.1) (hopen : (s.p w).alreadyFinalized = false) :
    Record (s.finalize w f) := by
  have hp : ∀ v, ((s.finalize w f).p v).result = (s.p v).result ∧ ((s.finalize w f).p v).timer = (s.p v).timer := by
    intro v
    by_cases hv : v = w
    · subst hv
      simp [State.finalize]
    · simp [State.finalize, setP_p_ne hv]
  have hnew : ∀ g, (w, g) ∉ s.finalized := by
    intro g hg
    have := (h.won w).2 ⟨g, hg⟩
    rw [hopen] at this
    cases this
  refine { h with fresh := ?_, won := ?_, wonOnce := ?_, hands := ?_, setting := ?_, stored := ?_, winner := ?_ }
  · exact h.fresh_setP hw _
  · intro v
    by_cases hv : v = w
    · subst hv
      simp [State.finalize]
    · simp [State.finalize, setP_p_ne hv, hv, h.won v]
  · simp only [State.finalize, List.map_append, List.map_cons, List.map_nil]
    refine List.nodup_append.2 ⟨h.wonOnce, List.nodup_singleton _, ?_⟩
    intro a ha b hb
    obtain rfl : b = w := by simpa using hb
    rintro rfl
    obtain ⟨⟨u, g⟩, hg, rfl⟩ := List.mem_map.1 ha
    exact hnew g hg
  · intro c v hc
    rw [(hp v).1]
    exact ⟨List.mem_append_left _ (h.hands c v hc).1, (h.hands c v hc).2⟩
  · intro v hv
    rw [(hp v).2] at hv
    rw [(hp v).1]
    exact ⟨List.mem_append_left _ (h.setting v hv).1, (h.setting v hv).2⟩
  · intro v r
    rw [(hp v).1]
    exact h.stored v r
  · exact fun v r hv => List.mem_append_left _ (h.winner v r hv)

/-- `set_value` by the winner, which is done with the waiter. -/
theorem store (h : Record s) {r : Result} {y : TimedMutexWaiter} (hwon : (w, r.finalizer) ∈ s.finalized)
    (hopen : (s.p w).result = none) (hfree : ∀ c, (s.pc c).hands ≠ some w) (hy : y.alreadyFinalized = true)
    (hr : y.result = some r) (ht : y.timer ≠ .setting) (hw : w.2 < s.calls w.1) :
    Record { s.setP w y with results := s.results ++ [(w, r)] } := by
  have hnew : ∀ r', (w, r') ∉ s.results := by
    intro r' hr'
    have := (h.stored w r').2 hr'
    rw [hopen] at this
    cases this
  refine { h with fresh := ?_, won := ?_, hands := ?_, setting := ?_, stored := ?_, storedOnce := ?_, winner := ?_ }
  · exact h.fresh_setP hw _
  · intro v
    by_cases hv : v = w
    · subst hv
      simpa [State.setP, hy] using ⟨_, hwon⟩
    · simpa [State.setP, hv] using h.won v
  · intro c v hc
    have hv : v ≠ w := by rintro rfl; exact hfree c hc
    simpa [State.setP, hv] using h.hands c v hc
  · intro v hv
    by_cases hvw : v = w
    · subst hvw
      exact absurd (by simpa [State.setP] using hv) ht
    · simpa [State.setP, hvw] using h.setting v (by simpa [State.setP, hvw] using hv)
  · intro v r'
    by_cases hv : v = w
    · subst hv
      simp [State.setP, hr, hnew, eq_comm]
    · simp [State.setP, hv, h.stored v r']
  · simp only [List.map_append, List.map_cons, List.map_nil]
    refine List.nodup_append.2 ⟨h.storedOnce, List.nodup_singleton _, ?_⟩
    intro a ha b hb
    obtain rfl : b = w := by simpa using hb
    rintro rfl
    obtain ⟨⟨u, r'⟩, hr', rfl⟩ := List.mem_map.1 ha
    exact hnew r' hr'
  · intro v r' hv
    rcases List.mem_append.1 hv with hv | hv
    · exact h.winner v r' hv
    · obtain ⟨rfl, rfl⟩ : v = w ∧ r' = r := by simpa using hv
      exact hwon

/-- `timer->cancel()`. -/
theorem cancel (h : Record s) (hw : w.2 < s.calls w.1) : Record (s.setTimer w (s.p w).timer.cancel) :=
  h.setTimer hw fun ht => h.setting w (Timer.cancel_setting.1 ht)

/-- The destructor of `p`. -/
theorem destroy (h : Record s) {n : Nat} (hn : n < s.calls c) : Record (s.destroy (c, n)) :=
  h.cancel hn

/-- The constructor of `p` in a call. -/
theorem construct (h : Record s) {t : Timer} (ht : t ≠ .setting) (hx : ∀ n, x.waiter = some n → n = s.calls c)
    (hnext : x.next = none) (hhands : x.hands = none) : Record ((s.newWaiter c t).setPc c x) := by
  refine (h.newWaiter ht).setPc ?_ (by simp [hnext]) (by simp [hhands])
  intro n hn
  obtain rfl := hx n hn
  simp [State.newWaiter]

/-- `addToWaiter`. -/
theorem enqueue (h : Record s) {n : Nat} (hn : n < s.calls c) (hx : x.waiter = some n) (hnext : x.next = none)
    (hhands : x.hands = none) : Record { s.setPc c x with mWaiter := addToWaiter s.mWaiter (c, n) } := by
  refine (h.setPc (x := x) ?_ (by simp [hnext]) (by simp [hhands])).requeue ?_
  · intro m hm
    obtain rfl : n = m := by simpa [hx] using hm
    exact hn
  · intro w hw
    rcases List.mem_append.1 hw with hw | hw
    · exact h.queue w hw
    · obtain rfl : w = (c, n) := by simpa using hw
      exact hn

/-- The compare-exchange of an `unlock` succeeds. -/
theorem handOver (h : Record s) (hw : w.2 < s.calls w.1) (hopen : (s.p w).alreadyFinalized = false) :
    Record ((s.finalize w .handOver).setPc c (.unlockCancel w)) := by
  refine (h.finalize hw hopen).setPc (by simp [Pc.waiter]) ?_ ?_
  · intro v hv
    obtain rfl : w = v := by simpa [Pc.next] using hv
    exact hw
  · intro v hv
    obtain rfl : w = v := by simpa [Pc.hands] using hv
    refine ⟨⟨by simp [State.finalize], by simpa [State.finalize] using h.unset hopen⟩, fun d hd => ?_⟩
    have hwon := (h.won w).2 ⟨_, (h.hands d w hd).1⟩
    rw [hopen] at hwon
    cases hwon

/-- The compare-exchange of a handler succeeds. -/
theorem timeOut (h : Record s) (hw : w.2 < s.calls w.1) (hopen : (s.p w).alreadyFinalized = false) :
    Record ((s.finalize w .timeout).setTimer w .setting) := by
  refine (h.finalize hw hopen).setTimer hw fun _ => ⟨by simp [State.finalize], ?_⟩
  simpa [State.finalize] using h.unset hopen

/-- Out of a call, or at the start of one. -/
theorem goto (h : Record s) (hwaiter : x.waiter = none) (hnext : x.next = none) (hhands : x.hands = none) :
    Record (s.setPc c x) :=
  h.setPc (by simp [hwaiter]) (by simp [hnext]) (by simp [hhands])

end

end Record

section
variable [DecidableEq ι] {s s' : State ι} {c : ι}

theorem lockFetchAdd_record (h : Record s) : Record (lockFetchAdd s c) := by
  unfold lockFetchAdd
  dsimp only
  split
  · exact (h.count _).goto rfl rfl rfl
  · exact (h.count _).construct (by simp) (by simp [Pc.waiter]) rfl rfl

theorem runStep_record (h : Record s) {spurious : Bool} (hst : runStep s c spurious = some s') : Record s' := by
  unfold runStep at hst
  split at hst
  case h_1 => cases hst
  case h_2 => cases hst
  case h_3 i hp =>
    split at hst
    · cases hst
      exact (h.count _).goto rfl rfl rfl
    · split at hst <;> cases hst <;> exact h.goto rfl rfl rfl
  case h_4 =>
    cases hst
    exact lockFetchAdd_record h
  case h_5 n hp =>
    cases hst
    exact h.enqueue (h.waiters c n (by rw [hp]; rfl)) rfl rfl rfl
  case h_6 n hp =>
    split at hst <;> cases hst
    exact (h.destroy (h.waiters c n (by rw [hp]; rfl))).goto rfl rfl rfl
  case h_7 =>
    split at hst <;> cases hst
    · exact (h.count _).goto rfl rfl rfl
    · exact h.goto rfl rfl rfl
  case h_8 n hp =>
    cases hst
    exact h.enqueue (h.waiters c n (by rw [hp]; rfl)) rfl rfl rfl
  case h_9 n hp =>
    have hn := h.waiters c n (by rw [hp]; rfl)
    split at hst <;> cases hst
    · exact h.setPc (by simpa [Pc.waiter] using hn) (by simp [Pc.next]) (by simp [Pc.hands])
    · exact (h.destroy hn).goto rfl rfl rfl
  case h_10 n hp =>
    cases hst
    exact ((h.count (wrapInt (s.mCountOfWaiter - 1))).destroy (h.waiters c n (by rw [hp]; rfl))).goto rfl rfl rfl
  case h_11 =>
    cases hst
    unfold unlockFetchSub
    dsimp only
    split <;> exact (h.count _).goto rfl rfl rfl
  case h_12 next hp =>
    split at hst <;> cases hst
    case h_1 =>
      exact h.setPc (by simp [Pc.waiter]) (fun w hw => h.nexts c w (by rw [hp]; exact hw)) (by simp [Pc.hands])
    case h_2 next rest hnext =>
      have hq := getNextWaiter_some hnext
      refine (h.setPc (x := .unlockCheck (some next)) (by simp [Pc.waiter]) ?_ (by simp [Pc.hands])).requeue ?_
      · intro w hw
        obtain rfl : next = w := by simpa [Pc.next] using hw
        exact h.queue next (by rw [hq]; exact List.mem_cons_self)
      · exact fun w hw => h.queue w (by rw [hq]; exact List.mem_cons_of_mem _ hw)
  case h_13 => cases hst
  case h_14 next hp =>
    have hn : next.2 < s.calls next.1 := h.nexts c next (by rw [hp]; rfl)
    split at hst <;> cases hst
    case isTrue =>
      exact h.setPc (by simp [Pc.waiter]) (fun w hw => h.nexts c w (by rw [hp]; exact hw)) (by simp [Pc.hands])
    case isFalse hopen => exact h.handOver hn (by simpa using hopen)
  case h_15 next hp =>
    split at hst <;> cases hst
    · exact h.goto rfl rfl rfl
    · exact h.setPc (by simp [Pc.waiter]) (fun w hw => h.nexts c w (by rw [hp]; exact hw)) (by simp [Pc.hands])
  case h_16 next hp =>
    cases hst
    have hn : next.2 < s.calls next.1 := h.nexts c next (by rw [hp]; rfl)
    have hhands : (s.pc c).hands = some next := by rw [hp]; rfl
    refine (h.cancel hn).setPc (by simp [Pc.waiter]) ?_ ?_
    · intro w hw
      exact h.nexts c w (by rw [hp]; exact hw)
    · intro w hw
      obtain rfl : next = w := by simpa [Pc.hands] using hw
      obtain ⟨hwon, hopen⟩ := h.hands c next hhands
      exact ⟨⟨hwon, by simpa [State.setTimer] using hopen⟩, fun d hd => h.handsOnce d c next hd hhands⟩
  case h_17 next hp =>
    cases hst
    have hhands : (s.pc c).hands = some next := by rw [hp]; rfl
    obtain ⟨hwon, hopen⟩ := h.hands c next hhands
    have hgone : ∀ d, ((s.setPc c .idle).pc d).hands ≠ some next := by
      intro d hd
      by_cases hdc : d = c
      · subst hdc
        rw [setPc_pc_self] at hd
        cases hd
      · rw [setPc_pc_ne hdc] at hd
        exact hdc (h.handsOnce d c next hd hhands)
    exact (h.goto (c := c) (x := .idle) rfl rfl rfl).store hwon hopen hgone ((h.won next).2 ⟨_, hwon⟩) rfl
      (h.not_setting hhands) (h.nexts c next (by rw [hp]; rfl))

theorem handlerStep_record (h : Record s) (hst : handlerStep s w = some s') : Record s' := by
  unfold handlerStep at hst
  split at hst
  case h_1 hq =>
    have hn : w.2 < s.calls w.1 := h.numbered_of_ne fun he => by rw [he] at hq; cases hq
    split at hst <;> cases hst
    case isTrue => exact h.setTimer hn (by simp)
    case isFalse hopen => exact h.timeOut hn (by simpa using hopen)
  case h_2 hset =>
    cases hst
    obtain ⟨hwon, hopen⟩ := h.setting w hset
    have hn : w.2 < s.calls w.1 := h.numbered_of_ne fun he => by rw [he] at hset; cases hset
    have hfree : ∀ c, (s.pc c).hands ≠ some w := fun c hc => h.not_setting hc hset
    have hstore :=
      h.store (r := .timedOut) (y := { s.p w with result := some .timedOut, timer := .ran }) hwon hopen hfree
      ((h.won w).2 ⟨_, hwon⟩) rfl (by simp) hn
    simpa [State.setTimer, State.setValue, State.setP] using hstore
  all_goals cases hst

theorem record_step {a : Act ι} (h : Record s) (hst : step s a = some s') : Record s' := by
  cases a with
  | lock c =>
    simp only [step] at hst
    split at hst <;> cases hst
    exact h.goto rfl rfl rfl
  | tryLock c =>
    simp only [step] at hst
    split at hst <;> cases hst
    exact h.goto rfl rfl rfl
  | tryLockFor c positive =>
    simp only [step] at hst
    split at hst
    case isFalse => cases hst
    case isTrue hp =>
      split at hst <;> cases hst
      · exact h.construct (by simp) (by simp [Pc.waiter]) rfl rfl
      · exact h.goto rfl rfl rfl
  | unlock c =>
    simp only [step] at hst
    split at hst <;> cases hst
    exact h.goto rfl rfl rfl
  | run c spurious => exact runStep_record h hst
  | expire w =>
    simp only [step] at hst
    split at hst <;> cases hst
    rename_i harmed
    exact h.setTimer (h.numbered_of_ne fun he => by rw [he] at harmed; cases harmed) (by simp)
  | handler w => exact handlerStep_record h hst

/-- **Every waiter is finalized at most once, and its result set at most once, by the winner**, in every run. -/
theorem record_reachable {ok : State ι → Act ι → Prop} (h : Reachable step ok init s) : Record s :=
  h.invariant record_init fun _ _ _ hI _ hst => record_step hI hst

end

end CoAwait.TimedMutex
