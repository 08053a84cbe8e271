import CoAwait.ForEachChunks
import CoAwait.ForEachProgress

/-!
# `forEach`: the range throws

The exception leaves `forEach` without a look at the workers: `chan` is destroyed, if there is one, then `coros`, and
`~Data` terminates when a coroutine is still active (`routine.hpp:314-318`).

* `settled`: the range throws only where that does no harm. Outside of a coroutine the workers parked in `pop` are
  finished by `closeSender`, on the stack of the caller.
* `Teardown`: what `settled` makes of the coroutines on the way out.
* `forEach_survives`: the result for both branches.
-/

namespace CoAwait.ForEach

open Runs Table Tokens

variable {T E : Type} {c : Config T} {s s' : State T E} {w : Nat} {p : Worker T E}

/-- The worker has finished, or it is parked in `pop` and the destructor of `chan` runs it to its end. -/
def Worker.settles (plain : Bool) (chan : BufferedChannel.State T) : Worker T E → Bool
  | finished => true
  | parked k => plain && (chan.got k).isNone
  | _ => false

/-- The range throws only while no worker is on its way. -/
def settled (c : Config T) (s : State T E) : Act E → Prop
  | .caller (.rangeThrow _) => ∀ p ∈ s.workers, p.settles c.plain s.chan = true
  | _ => True

instance (c : Config T) (s : State T E) : (a : Act E) → Decidable (settled c s a)
  | .caller (.rangeThrow _) => inferInstanceAs (Decidable (∀ p ∈ s.workers, _))
  | .caller .create | .caller .dropReceiver | .caller .push | .caller .handOver | .caller .pushReturn
  | .caller .breakLoop | .caller .rangeEnd | .caller .closeSender | .caller .notifyReceiver | .caller .scopeLeft
  | .caller .tail | .worker _ _ => .isTrue trivial

/-- A worker that has seen the end of the channel. -/
def Worker.ending (chan : BufferedChannel.State T) : Worker T E → Prop
  | parked k | resumed k => chan.got k = some none
  | leaving | closing | notifying | released => True
  | _ => False

structure Teardown (c : Config T) (s : State T E) : Prop where
  past : s.rangeError ≠ none → s.caller.past = true
  /-- Only the worker that the caller waits for is between its last `pop` and its end. -/
  place : s.rangeError ≠ none → ∀ (w : Nat) p, s.workers[w]? = some p →
    p = .finished ∨ (c.plain = true ∧ ∃ k, p = .parked k ∧ s.chan.got k = none) ∨
      s.inlined = some w ∧ p.ending s.chan
  tail : ∀ t, s.caller = .tail t → t.Sound (s.workers.map Worker.isFinished) fun _ => True

theorem teardown_init (c : Config T) : Teardown c (c.init : State T E) where
  past := fun hne => absurd rfl hne
  place := fun hne => absurd rfl hne
  tail := nofun

/-- A worker on its last way keeps to it. -/
theorem WorkerStep.ending_step {a : WorkerAct E} (hending : p.ending s.chan) (hw : s.workers[w]? = some p)
    (hst : WorkerStep s w p a s') :
    s'.chan.got = s.chan.got ∧ ∃ p', s'.workers = s.workers.set w p' ∧
      (p' = .finished ∧ s'.inlined = (if s.inlined = some w then none else s.inlined) ∨
        s'.inlined = s.inlined ∧ p'.ending s'.chan) := by
  cases hst with
  | resume => exact ⟨rfl, _, rfl, .inr ⟨rfl, hending⟩⟩
  | @popValue _ k x chan hp hgot =>
    rcases hp with rfl | rfl
    · cases hending
    · rw [show s.chan.got k = some none from hending] at hgot
      cases hgot
  | popEnd hp hgot hch => exact ⟨BufferedChannel.got_kept hch rfl, _, rfl, .inr ⟨rfl, trivial⟩⟩
  | release | releaseLast => exact ⟨rfl, _, rfl, .inr ⟨rfl, trivial⟩⟩
  | closeReceiver hch => exact ⟨BufferedChannel.got_kept hch rfl, _, rfl, .inr ⟨rfl, trivial⟩⟩
  | notifySender hch => exact ⟨BufferedChannel.got_kept hch rfl, _, (set_same hw).symm, .inr ⟨rfl, trivial⟩⟩
  | finishLast | finish => exact ⟨rfl, _, rfl, .inl ⟨rfl, rfl⟩⟩
  | _ => cases hending

/-- On the way out a step of a worker is one of the worker that the caller waits for. -/
theorem Teardown.worker_step {a : WorkerAct E} (h : Teardown c s) (hne : s.rangeError ≠ none)
    (hw : s.workers[w]? = some p) (hst : WorkerStep s w p a s') :
    s.inlined = some w ∧ s'.chan.got = s.chan.got ∧ ∃ p', s'.workers = s.workers.set w p' ∧
      (p' = .finished ∨ s'.inlined = some w ∧ p'.ending s'.chan) := by
  rcases h.place hne w p hw with rfl | ⟨-, k, rfl, hgot⟩ | ⟨hin, hending⟩
  · have hnot := hst.not_finished
    cases hnot
  · cases hst with
    | resume hsome => exact absurd hgot hsome
    | popValue hp | popEnd hp => rcases hp with hp | hp <;> cases hp
  · obtain ⟨hgot, p', hset, hp'⟩ := hst.ending_step hending hw
    refine ⟨hin, hgot, p', hset, hp'.imp And.left fun hh => ⟨hh.1.trans hin, hh.2⟩⟩

theorem WorkerStep.teardown {a : WorkerAct E} (h : Teardown c s) (hw : s.workers[w]? = some p)
    (hst : WorkerStep s w p a s') : Teardown c s' := by
  have hframe := hst.frame
  refine ⟨fun hne => ?_, fun hne w' q hq => ?_, fun t ht => ?_⟩
  · rw [hframe.rangeError] at hne
    rw [hframe.caller]
    exact h.past hne
  · rw [hframe.rangeError] at hne
    obtain ⟨hin, hgot, p', hset, hp'⟩ := h.worker_step hne hw hst
    rw [hset] at hq
    rcases (get_set_iff hw).1 hq with ⟨rfl, rfl⟩ | ⟨hww, hq⟩
    · exact hp'.imp id .inr
    · rcases h.place hne w' q hq with hfin | ⟨hplain, k, hk, hnone⟩ | ⟨hin', -⟩
      · exact .inl hfin
      · exact .inr (.inl ⟨hplain, k, hk, by rw [hgot]; exact hnone⟩)
      · rw [hin] at hin'
        exact absurd (Option.some.inj hin').symm hww
  · rw [hframe.caller] at ht
    exact hst.sound hw (h.tail t ht)

/-- Outside of a coroutine `set_value` resumes the parked worker on the spot. -/
theorem wake_parked {k : Nat} (hplain : c.plain = true) (hw : s.workers[w]? = some (.parked k)) :
    ∃ w', s.wake c.plain k = some w' := by
  rw [State.wake, if_pos hplain]
  refine Option.isSome_iff_exists.1 ?_
  rw [List.findIdx?_isSome]
  exact List.any_eq_true.2 ⟨_, List.mem_of_getElem? hw, by simp [Worker.parkedIn]⟩

/-- Two workers are not in the same pop call. -/
theorem Crew.parked_unique (h : Crew s) {w' k : Nat} (hw : s.workers[w]? = some (.parked k))
    (hw' : s.workers[w']? = some (.parked k)) : w = w' :=
  h.owners.unique (x := k) (by simp [State.owned, look_of_get hw, Worker.call])
    (by simp [State.owned, look_of_get hw', Worker.call])

/-- After `closeSender` and its notifications nobody is parked. -/
theorem Inv.not_parked (h : Inv c s) (hc : s.caller = .notifying) (hdone : s.chan.senderClosing = []) {k : Nat}
    (hw : s.workers[w]? = some (.parked k)) : s.chan.got k ≠ none := by
  intro hgot
  rcases h.stranded hw hgot with hwait | ⟨i, -, hci⟩ | ⟨hin, -⟩
  · obtain ⟨hopen, -⟩ := h.clients.open_ (List.ne_nil_of_mem hwait)
    rw [h.feed.closed, hc] at hopen
    cases hopen
  · rw [hc] at hci
    cases hci
  · rw [hdone] at hin
    cases hin

theorem CallerStep.teardown {a : CallerAct E} (h : Teardown c s) (hinv : Inv c s) (hfree : s.inlined = none)
    (hok : settled c s (.caller a)) (hst : CallerStep c s a s') : Teardown c s' := by
  have hidle : s.caller.past = false → s.rangeError = none := by
    intro hp
    by_contra hne
    rw [h.past hne] at hp
    cases hp
  cases hst with
  | create hc | dropReceiver hc | dropLast hc | push hc | rangeEnd hc | breakLoop hc =>
    have hno := hidle (by rw [hc]; rfl)
    exact ⟨fun hne => absurd hno hne, fun hne => absurd hno hne, fun t ht => by simp [hc] at ht⟩
  | handOver hc =>
    have hno := hidle (by rw [hc]; rfl)
    exact ⟨fun hne => absurd hno hne, fun hne => absurd hno hne, h.tail⟩
  | pushReturn hc =>
    have hno := hidle (by rw [hc]; rfl)
    refine ⟨fun hne => absurd hno hne, fun hne => absurd hno hne, fun t ht => ?_⟩
    dsimp only at ht
    split at ht <;> cases ht
  | rangeThrow hc =>
    refine ⟨fun _ => rfl, fun _ w p hw => ?_, nofun⟩
    have hp := hok p (List.mem_of_getElem? hw)
    cases p with
    | finished => exact .inl rfl
    | parked k =>
      have hpk : c.plain = true ∧ s.chan.got k = none := by simpa [Worker.settles] using hp
      exact .inr (.inl ⟨hpk.1, k, rfl, hpk.2⟩)
    | _ => cases hp
  | closeSender hc hch =>
    have hgot := BufferedChannel.got_kept hch rfl
    refine ⟨fun _ => rfl, fun hne w p hw => ?_, nofun⟩
    rcases h.place hne w p hw with hfin | ⟨hplain, k, hk, hnone⟩ | ⟨hin, -⟩
    · exact .inl hfin
    · exact .inr (.inl ⟨hplain, k, hk, by rw [hgot]; exact hnone⟩)
    · rw [hfree] at hin
      cases hin
  | @notifyReceiver k rest chan hc hk hch =>
    have hgot := (BufferedChannel.notifyReceiver_got hch hk).1
    refine ⟨h.past, fun hne w p hw => ?_, h.tail⟩
    rcases h.place hne w p hw with hfin | ⟨hplain, j, rfl, hnone⟩ | ⟨hin, -⟩
    · exact .inl hfin
    · by_cases hjk : j = k
      · -- the caller waits for this worker now
        subst hjk
        obtain ⟨w', hw'⟩ := wake_parked hplain hw
        have hsame := hinv.crew.parked_unique hw (wake_get hw')
        refine .inr (.inr ⟨by rw [hsame]; exact hw', ?_⟩)
        show chan.got j = some none
        rw [hgot, Function.update_self]
      · refine .inr (.inl ⟨hplain, j, rfl, ?_⟩)
        rw [hgot, Function.update_of_ne hjk]
        exact hnone
    · rw [hfree] at hin
      cases hin
  | scopeLeft hc hdone hno =>
    refine ⟨fun hne => absurd hno hne, fun hne => absurd hno hne, fun t ht => ?_⟩
    cases ht
    exact fun i hi => absurd hi (Nat.not_lt_zero i)
  | unwind hc hdone herr =>
    have hne : s.rangeError ≠ none := by simp [herr]
    refine ⟨fun _ => rfl, fun _ => h.place hne, fun t ht => ?_⟩
    cases ht
    refine ⟨fun b hb => ?_, trivial⟩
    obtain ⟨p, hp, rfl⟩ := List.mem_map.1 hb
    obtain ⟨w, hw⟩ := List.mem_iff_getElem?.1 hp
    rcases h.place hne w p hw with rfl | ⟨-, k, rfl, hnone⟩ | ⟨hin, -⟩
    · rfl
    · exact absurd hnone (hinv.not_parked hc hdone hw)
    · rw [hfree] at hin
      cases hin
  | tail hc ht =>
    refine ⟨fun _ => rfl, h.place, fun u hu => ?_⟩
    cases hu
    exact (h.tail _ hc).next trivial ht

theorem teardown_reachable (h : Reachable (step c) (settled c) c.init s) : Teardown c s := by
  refine (h.invariant (I := fun s => Inv c s ∧ Teardown c s) ⟨inv_init c, teardown_init c⟩ ?_).2
  intro s a s' hI hok hst
  refine ⟨step_inv hI.1 hst, ?_⟩
  cases step_cases hst with
  | caller hfree hc => exact hc.teardown hI.2 hI.1 hfree hok
  | worker hw hws => exact hws.teardown hI.2 hw

/-! ## The range throws elsewhere -/

/-- The steps at the end of `forEach`, on their own. -/
def Tail.step (ended : List Bool) (firstError : Option E) (t : Tail E) (_ : Unit) : Option (Tail E) :=
  t.next ended firstError

/-- The destructor of `coros` runs into the first coroutine that has not finished. -/
theorem Tail.terminates {ended : List Bool} {w : Nat} (hw : ended[w]? = some false) (firstError error : Option E) :
    ∀ n j, w - j = n → j ≤ w →
      Reachable (Tail.step ended firstError) anyStep (.destroying j error) (.terminated : Tail E) := by
  intro n
  induction n with
  | zero =>
    intro j hn hj
    obtain rfl : j = w := by omega
    exact Reachable.tail (a := ()) (.refl _) trivial (by simp [Tail.step, Tail.next, hw])
  | succ n ih =>
    intro j hn hj
    have hlt : j < ended.length := by
      have := (List.getElem?_eq_some_iff.1 hw).1
      omega
    cases hb : ended[j] with
    | false =>
      exact Reachable.tail (a := ()) (.refl _) trivial (by simp [Tail.step, Tail.next, hlt, hb])
    | true =>
      have hone : Reachable (Tail.step ended firstError) anyStep (.destroying j error) (.destroying (j + 1) error) :=
        Reachable.tail (a := ()) (.refl _) trivial (by simp [Tail.step, Tail.next, hlt, hb])
      exact hone.trans (ih (j + 1) (by omega) (by omega))

theorem tail_reachable {t t' : Tail E} (hfree : s.inlined = none) (hc : s.caller = .tail t)
    (h : Reachable (Tail.step (s.workers.map Worker.isFinished) s.firstError) anyStep t t') :
    Reachable (step c) anyStep s { s with caller := .tail t' } := by
  have hput : ∀ u (b : Unit) u', Tail.step (s.workers.map Worker.isFinished) s.firstError u b = some u' →
      step c { s with caller := .tail u } (.caller .tail) = some { s with caller := .tail u' } := by
    intro u b u' hst
    have hnext : u.next (s.workers.map Worker.isFinished) s.firstError = some u' := hst
    simp [step, callerStep, hfree, hnext]
  have hall := h.embed (fun u => { s with caller := .tail u }) (fun _ => Act.caller .tail) hput
  rwa [← hc] at hall

/-- The worker on the stack of the caller runs to its end. -/
theorem Inv.runs_out : ∀ (n : Nat) {s : State T E} {p : Worker T E}, measure c s = n → Inv c s →
    s.workers[w]? = some p → s.inlined = some w → p.ending s.chan →
    ∃ t, Reachable (step c) anyStep s t ∧ Inv c t ∧ t.inlined = none ∧ t.caller = s.caller ∧
      t.rangeError = s.rangeError ∧ t.chan.senderClosing = s.chan.senderClosing ∧
      ∀ w', w' ≠ w → t.workers[w']? = s.workers[w']? := by
  intro n
  induction n using Nat.strongRecOn with
  | ind n ih =>
    intro s p hn h hw hin hending
    rcases h.worker_goes hw with ⟨a, ha, hsome⟩ | hfunc | ⟨k, rfl, hnone⟩ | rfl
    · obtain ⟨u, hu⟩ := Option.isSome_iff_exists.1 hsome
      have hst : step c s (.worker w a) = some u := by simpa [step, hw] using hu
      have hws := workerStep_cases hu
      have hframe := hws.frame
      have hinv := step_inv h hst
      obtain ⟨hgot, p', hset, hp'⟩ := hws.ending_step hending hw
      have hother : ∀ w', w' ≠ w → u.workers[w']? = s.workers[w']? := by
        intro w' hne
        rw [hset, List.getElem?_set_ne (Ne.symm hne)]
      have hone : Reachable (step c) anyStep s u := Reachable.tail (.refl s) trivial hst
      rcases hp' with ⟨-, hin'⟩ | ⟨hin', hending'⟩
      · rw [if_pos hin] at hin'
        exact ⟨u, hone, hinv, hin', hframe.caller, hframe.rangeError, hframe.senderClosing, hother⟩
      · have hdrop := step_measure h hst
        have hcounts : (Act.worker w a).counts = true := by cases a <;> first | rfl | cases ha
        rw [hcounts, if_pos rfl] at hdrop
        have hw' : u.workers[w]? = some p' := by
          rw [hset]
          exact (get_set_iff hw).2 (.inl ⟨rfl, rfl⟩)
        obtain ⟨t, hreach, hinvt, hint, hcaller, hrange, hclosing, hkeep⟩ :=
          ih (measure c u) (by omega) rfl hinv hw' (hin'.trans hin) hending'
        exact ⟨t, hone.trans hreach, hinvt, hint, hcaller.trans hframe.caller, hrange.trans hframe.rangeError,
          hclosing.trans hframe.senderClosing, fun w' hne => (hkeep w' hne).trans (hother w' hne)⟩
    · exfalso
      cases p <;> first | exact hending | exact Bool.noConfusion hfunc
    · rw [show s.chan.got k = some none from hending] at hnone
      cases hnone
    · cases hending

theorem Worker.settles_grows {plain : Bool} {chan chan' : BufferedChannel.State T}
    (hg : BufferedChannel.Grows chan chan') (h : p.settles plain chan = false) : p.settles plain chan' = false := by
  cases p with
  | parked k =>
    simp only [Worker.settles, Bool.and_eq_false_iff, Option.isNone_eq_false_iff] at h ⊢
    refine h.imp id fun hsome => ?_
    obtain ⟨r, hr⟩ := Option.isSome_iff_exists.1 hsome
    rw [hg.got k r hr]
    rfl
  | _ => exact h

/-- The notifications of `closeSender` do not reach a worker that does not settle. -/
theorem Inv.notifies {p : Worker T E} : ∀ (n : Nat) {s : State T E}, s.chan.senderClosing.length = n → Inv c s →
    s.inlined = none → s.caller = .notifying → s.workers[w]? = some p → p.settles c.plain s.chan = false →
    ∃ t, Reachable (step c) anyStep s t ∧ t.inlined = none ∧ t.caller = .notifying ∧ t.rangeError = s.rangeError ∧
      t.chan.senderClosing = [] ∧ t.workers[w]? = some p := by
  intro n
  induction n with
  | zero =>
    intro s hn _ hfree hc hw _
    exact ⟨s, .refl s, hfree, hc, rfl, List.length_eq_zero_iff.1 hn, hw⟩
  | succ n ih =>
    intro s hn h hfree hc hw hsettles
    cases hk : s.chan.senderClosing with
    | nil => simp [hk] at hn
    | cons k rest =>
      have hdue : s.chan.due .notifyReceiver := by
        show s.chan.senderClosing ≠ []
        simp [hk]
      obtain ⟨chan, hch⟩ := h.chan_step hdue
      have hst : step c s (.caller .notifyReceiver) = some { s with chan := chan, inlined := s.wake c.plain k } := by
        simp [step, callerStep, hfree, hc, hk, hch]
      obtain ⟨hgot, hrest⟩ := BufferedChannel.notifyReceiver_got hch hk
      have hg := BufferedChannel.step_grows hch
      have hinv := step_inv h hst
      have hone : Reachable (step c) anyStep s { s with chan := chan, inlined := s.wake c.plain k } :=
        Reachable.tail (.refl s) trivial hst
      have hlen : rest.length = n := by simpa [hk] using hn
      cases hwake : s.wake c.plain k with
      | none =>
        obtain ⟨t, hreach, hrun⟩ := ih (by rw [hrest]; exact hlen) hinv hwake hc hw (Worker.settles_grows hg hsettles)
        exact ⟨t, hone.trans hreach, hrun⟩
      | some w' =>
        -- the worker that is resumed was parked
        have hw' := wake_get hwake
        have hplain : c.plain = true := by
          unfold State.wake at hwake
          split at hwake
          · assumption
          · cases hwake
        have hnone : s.chan.got k = none :=
          (h.clients.receivers.living .closing k (by simp [BufferedChannel.State.receivers, hk])).2
        have hne : w ≠ w' := by
          rintro rfl
          rw [hw] at hw'
          cases hw'
          simp [Worker.settles, hplain, hnone] at hsettles
        obtain ⟨u, hreach, hinvu, hfreeu, hcu, hrange, hclosing, hkeep⟩ :=
          Inv.runs_out (w := w') _ rfl hinv hw' hwake (by
            show chan.got k = some none
            rw [hgot, Function.update_self])
        have hgu : BufferedChannel.Grows chan u.chan := reachable_grows hreach
        obtain ⟨t, hreacht, hint, hct, hranget, hrun⟩ := ih (by rw [hclosing, hrest]; exact hlen) hinvu hfreeu
          (hcu.trans hc) ((hkeep w hne).trans hw) (Worker.settles_grows (hg.trans hgu) hsettles)
        exact ⟨t, hone.trans (hreach.trans hreacht), hint, hct, hranget.trans hrange, hrun⟩

/-- **Where a worker is on its way, the exception of the range may terminate the program.** -/
theorem Inv.terminates (h : Inv c s) {e : E} (hst : step c s (.caller (.rangeThrow e)) = some s')
    (hno : ¬ settled c s (.caller (.rangeThrow e))) :
    ∃ t, Reachable (step c) anyStep s' t ∧ t.caller = .tail .terminated := by
  obtain ⟨p, hp, hsettles⟩ : ∃ p ∈ s.workers, p.settles c.plain s.chan = false := by
    by_contra hall
    refine hno fun p hp => ?_
    by_contra hne
    exact hall ⟨p, hp, by simpa using hne⟩
  obtain ⟨w, hw⟩ := List.mem_iff_getElem?.1 hp
  have h' := step_inv h hst
  cases step_cases hst with
  | caller hfree hcs =>
    cases hcs with
    | rangeThrow hc =>
      have hopen : s.chan.chan.mSenderClosed = false := by
        rw [h.feed.closed, hc]
        rfl
      obtain ⟨chan, hch⟩ := h.chan_step (b := .closeSender) ⟨hopen, h.pushes_returned (by simp [hc])⟩
      have hclose : step c { s with rangeError := some e, caller := .leaving } (.caller .closeSender) =
          some { s with rangeError := some e, chan := chan, caller := .notifying } := by
        simp [step, callerStep, hfree, hch]
      obtain ⟨t, hreach, hfreet, hct, hrange, hdone, hwt⟩ := Inv.notifies _ rfl (step_inv h' hclose) hfree rfl hw
        (Worker.settles_grows (BufferedChannel.step_grows hch) hsettles)
      have hunwind : step c t (.caller .scopeLeft) = some { t with caller := .tail (.destroying 0 (some e)) } := by
        simp [step, callerStep, hfreet, hct, hdone, hrange]
      have hended : (t.workers.map Worker.isFinished)[w]? = some false := by
        rw [List.getElem?_map, hwt]
        cases p <;> first | rfl | cases hsettles
      have hend := tail_reachable (c := c) (s := { t with caller := .tail (.destroying 0 (some e)) }) hfreet rfl
        (Tail.terminates hended t.firstError (some e) w 0 rfl (Nat.zero_le _))
      exact ⟨_, (Reachable.tail (.refl _) trivial hclose).trans ((hreach.tail trivial hunwind).trans hend), rfl⟩

end CoAwait.ForEach

/-! ## The random-access branch -/

namespace CoAwait.ForEach.Chunks

open Runs Table

variable {T E : Type} {c : Config T} {s s' : State T E} {w : Nat} {p : Worker E}

/-- The range throws only after all workers have finished. -/
def settled (s : State T E) : Act T E → Prop
  | .caller (.rangeThrow _) => ∀ p ∈ s.workers, p.isFinished = true
  | _ => True

/-- The coroutines are destroyed after all of them have finished. -/
def Teardown (s : State T E) : Prop :=
  ∀ t, s.caller = .tail t → t.Sound (s.workers.map Worker.isFinished) fun _ => True

theorem WorkerStep.not_finished {a : WorkerAct T E} (h : WorkerStep s w p a s') : p.isFinished = false := by
  cases h <;> rfl

theorem WorkerStep.set {a : WorkerAct T E} (h : WorkerStep s w p a s') :
    s'.caller = s.caller ∧ ∃ p', s'.workers = s.workers.set w p' := by
  cases h <;> exact ⟨rfl, _, rfl⟩

theorem step_teardown {a : Act T E} (h : Teardown s) (hok : settled s a) (hst : step c s a = some s') :
    Teardown s' := by
  intro t ht
  cases step_cases hst with
  | worker hw hws =>
    obtain ⟨hcaller, p', hset⟩ := hws.set
    rw [hcaller] at ht
    rw [hset]
    exact (h t ht).set hw hws.not_finished
  | caller hfree hcs =>
    cases hcs with
    | split => cases ht
    | create hc => simp [hc] at ht
    | created =>
      cases ht
      exact fun i hi => absurd hi (Nat.not_lt_zero i)
    | rangeThrow =>
      cases ht
      refine ⟨fun b hb => ?_, trivial⟩
      obtain ⟨p, hp, rfl⟩ := List.mem_map.1 hb
      exact hok p hp
    | tail hc hnext =>
      cases ht
      exact (h _ hc).next trivial hnext

theorem teardown_reachable (h : Reachable (step c) settled (init c) s) : Teardown s :=
  h.invariant (I := Teardown) (fun t ht => by cases ht) fun _ _ _ hI hok hst => step_teardown hI hok hst

theorem tail_reachable {t t' : Tail E} (hfree : s.inlined = none) (hc : s.caller = .tail t)
    (h : Reachable (Tail.step (s.workers.map Worker.isFinished) s.firstError) anyStep t t') :
    Reachable (step c) anyStep s { s with caller := .tail t' } := by
  have hput : ∀ u (b : Unit) u', Tail.step (s.workers.map Worker.isFinished) s.firstError u b = some u' →
      step c { s with caller := .tail u } (.caller .tail) = some { s with caller := .tail u' } := by
    intro u b u' hst
    have hnext : u.next (s.workers.map Worker.isFinished) s.firstError = some u' := hst
    simp [step, callerStep, hfree, hnext]
  have hall := h.embed (fun u => { s with caller := .tail u }) (fun _ => Act.caller .tail) hput
  rwa [← hc] at hall

theorem terminates {e : E} (hst : step c s (.caller (.rangeThrow e)) = some s')
    (hno : ¬ settled s (.caller (.rangeThrow e))) :
    ∃ t, Reachable (step c) anyStep s' t ∧ t.caller = .tail .terminated := by
  obtain ⟨p, hp, hfin⟩ : ∃ p ∈ s.workers, p.isFinished = false := by
    by_contra hall
    refine hno fun p hp => ?_
    by_contra hne
    exact hall ⟨p, hp, by simpa using hne⟩
  obtain ⟨w, hw⟩ := List.mem_iff_getElem?.1 hp
  have hended : (s.workers.map Worker.isFinished)[w]? = some false := by
    rw [List.getElem?_map, hw, Option.map_some, hfin]
  cases step_cases hst with
  | caller hfree hcs =>
    cases hcs with
    | rangeThrow =>
      have hend := tail_reachable (c := c) (s := { s with caller := .tail (.destroying 0 (some e)) }) hfree rfl
        (Tail.terminates hended s.firstError (some e) w 0 rfl (Nat.zero_le _))
      exact ⟨_, hend, rfl⟩

end CoAwait.ForEach.Chunks

/-! ## Results -/

namespace CoAwait.ForEach

open Runs

variable {T E : Type}

theorem Tail.Sound.all {ρ : Type} {f : ρ → Bool} {ws : List ρ} {ok : Option E → Prop} {t : Tail E}
    (h : t.Sound (ws.map f) ok) {j : Nat} {error : Option E} (ht : t = .destroying j error ∨ t = .returned error) :
    ∀ p ∈ ws, f p = true := by
  intro p hp
  rcases ht with rfl | rfl <;> exact h.1 _ (List.mem_map_of_mem hp)

/-- **`forEach` survives a failing range exactly where the workers are settled.** In the runs in which the range throws
only in such states, no coroutine is destroyed before all of them have finished, whichever branch is taken; from any
other state in which the range throws, some run terminates the program. -/
theorem forEach_survives (c : Config T) :
    (∀ s : State T E, Reachable (step c) (settled c) c.init s → s.caller ≠ .tail .terminated ∧
      ∀ j error, s.caller = .tail (.destroying j error) ∨ s.caller = .tail (.returned error) →
        ∀ p ∈ s.workers, p.isFinished = true) ∧
    (∀ s : Chunks.State T E, Reachable (Chunks.step c) Chunks.settled (Chunks.init c) s →
      s.caller ≠ .tail .terminated ∧
      ∀ j error, s.caller = .tail (.destroying j error) ∨ s.caller = .tail (.returned error) →
        ∀ p ∈ s.workers, p.isFinished = true) ∧
    (∀ (s s' : State T E) (e : E), Reachable (step c) anyStep c.init s →
      step c s (.caller (.rangeThrow e)) = some s' → ¬ settled c s (.caller (.rangeThrow e)) →
      ∃ t, Reachable (step c) anyStep s' t ∧ t.caller = .tail .terminated) ∧
    (∀ (s s' : Chunks.State T E) (e : E), Chunks.step c s (.caller (.rangeThrow e)) = some s' →
      ¬ Chunks.settled s (.caller (.rangeThrow e)) →
      ∃ t, Reachable (Chunks.step c) anyStep s' t ∧ t.caller = .tail .terminated) := by
  refine ⟨fun s h => ⟨fun hc => ?_, fun j error hc => ?_⟩, fun s h => ⟨fun hc => ?_, fun j error hc => ?_⟩,
    fun s s' e h hst hno => (inv_reachable h).terminates hst hno, fun s s' e hst hno => Chunks.terminates hst hno⟩
  · exact (teardown_reachable h).tail _ hc
  · rcases hc with hc | hc
    · exact ((teardown_reachable h).tail _ hc).all (.inl rfl)
    · exact ((teardown_reachable h).tail _ hc).all (j := j) (.inr rfl)
  · exact Chunks.teardown_reachable h _ hc
  · rcases hc with hc | hc
    · exact (Chunks.teardown_reachable h _ hc).all (.inl rfl)
    · exact (Chunks.teardown_reachable h _ hc).all (j := j) (.inr rfl)

def oneWorker (plain : Bool) : Config Nat := ⟨1, by decide, [5, 6], plain⟩

/-- Outside of a coroutine; the worker is back in `pop` when the second element throws. -/
def parkedSchedule : List (Act Nat) :=
  List.flatten [
    [.caller .create, .worker 0 .pop, .worker 0 .suspend, .caller .dropReceiver, .caller .push, .caller .handOver],
    [.worker 0 .resume, .worker 0 .popReturn, .worker 0 .funcReturn, .worker 0 .pop, .worker 0 .suspend],
    [.caller .pushReturn, .caller (.rangeThrow 7), .caller .closeSender, .caller .notifyReceiver, .worker 0 .resume],
    [.worker 0 .popReturn, .worker 0 .release, .worker 0 .closeReceiver, .worker 0 .finish, .caller .scopeLeft],
    [.caller .tail, .caller .tail]]

theorem forEach_survives_parked :
    ∃ s : State Nat Nat, Run (step (oneWorker true)) (settled (oneWorker true)) (oneWorker true).init parkedSchedule s ∧
      s.caller = .tail (.returned (some 7)) ∧ ∀ p ∈ s.workers, p.isFinished = true := by
  have hrun := exec_get_run (step (oneWorker true)) (settled (oneWorker true)) ((oneWorker true).init : State Nat Nat)
    parkedSchedule (by decide)
  exact ⟨_, hrun, by decide, ((forEach_survives (oneWorker true)).1 _ ⟨_, hrun⟩).2 0 (some 7) (.inr (by decide))⟩

/-- The worker is suspended in `func` when the second element throws. -/
def suspendedSchedule : List (Act Nat) :=
  List.flatten [
    [.caller .create, .worker 0 .pop, .worker 0 .suspend, .caller .dropReceiver, .caller .push, .caller .handOver],
    [.worker 0 .resume, .worker 0 .popReturn, .worker 0 .funcSuspend, .caller .pushReturn, .caller (.rangeThrow 7)],
    [.caller .closeSender, .caller .scopeLeft, .caller .tail]]

/-- Inside of a coroutine; the worker is parked in `pop` when the first element throws. -/
def postedSchedule : List (Act Nat) :=
  [.caller .create, .worker 0 .pop, .worker 0 .suspend, .caller .dropReceiver, .caller (.rangeThrow 7),
    .caller .closeSender, .caller .notifyReceiver, .caller .scopeLeft, .caller .tail]

def twoChunks : Config Nat := ⟨2, Nat.two_pos, [5, 6], true⟩

/-- The first worker is suspended in `func` when the iterator of the second one throws. -/
def chunksSchedule : List (Chunks.Act Nat Nat) :=
  [.caller .split, .caller .create, .worker 0 .call, .worker 0 .funcSuspend, .caller (.rangeThrow 7), .caller .tail]

theorem range_terminates :
    (∃ s : State Nat Nat, Reachable (step (oneWorker true)) anyStep (oneWorker true).init s ∧
      s.caller = .tail .terminated) ∧
    (∃ s : State Nat Nat, Reachable (step (oneWorker false)) anyStep (oneWorker false).init s ∧
      s.caller = .tail .terminated) ∧
    ∃ s : Chunks.State Nat Nat, Reachable (Chunks.step twoChunks) anyStep (Chunks.init twoChunks) s ∧
      s.caller = .tail .terminated := by
  refine ⟨?_, ?_, ?_⟩
  · exact ⟨_, ⟨_, exec_get_run (step (oneWorker true)) anyStep (oneWorker true).init suspendedSchedule (by decide)⟩,
      by decide⟩
  · exact ⟨_, ⟨_, exec_get_run (step (oneWorker false)) anyStep (oneWorker false).init postedSchedule (by decide)⟩,
      by decide⟩
  · exact ⟨_, ⟨_, exec_get_run (Chunks.step twoChunks) anyStep (Chunks.init twoChunks) chunksSchedule (by decide)⟩,
      by decide⟩

end CoAwait.ForEach
