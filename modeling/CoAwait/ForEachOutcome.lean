import CoAwait.ForEachCrew

/-!
# `forEach` on an input range: what it has done when it returns

* `Inv`: the invariants of the caller and of the workers together, in every reachable state.
* `Outcome`: a `push` that returns `false` has found `firstError` set (`foreach.hpp:121`), and the coroutines are
  destroyed only after all of them have finished, in the runs in which the range does not throw.
* `Inv.called_range`, `Inv.range_called`: the elements `func` was called with.
-/

namespace CoAwait.ForEach

open Runs Table Tokens
open BufferedChannel (noRelease)

variable {T E : Type} {c : Config T} {s s' : State T E} {w : Nat} {p : Worker T E}

structure Inv (c : Config T) (s : State T E) : Prop where
  chan : Reachable BufferedChannel.step noRelease BufferedChannel.init s.chan
  feed : Feed c s
  crew : Crew s
  errors : Errors s
  handles : Handles s

theorem Inv.fifo (h : Inv c s) : BufferedChannel.Fifo s.chan.flow := BufferedChannel.fifo_reachable h.chan

theorem Inv.clients (h : Inv c s) : BufferedChannel.Clients s.chan := BufferedChannel.clients_reachable h.chan

theorem Inv.truthful (h : Inv c s) : BufferedChannel.Truthful s.chan := BufferedChannel.truthful_reachable h.chan

theorem step_inv {a : Act E} (h : Inv c s) (hst : step c s a = some s') : Inv c s' := by
  have hg := step_grows hst
  have hchan : Reachable BufferedChannel.step noRelease BufferedChannel.init s'.chan := by
    rcases step_chan hst with heq | ⟨b, hch, hok⟩
    · rw [heq]
      exact h.chan
    · exact h.chan.tail hok hch
  cases step_cases hst with
  | caller hfree hc =>
    exact ⟨hchan, hc.feed h.feed, hc.crew h.crew h.clients hg hfree, hc.frame.errors h.errors hg,
      hc.handles h.handles h.feed h.clients⟩
  | worker hw hws =>
    exact ⟨hchan, hws.frame.feed h.feed, hws.crew h.crew h.fifo h.clients hw, hws.errors h.errors hg hw,
      hws.handles h.handles hw⟩

theorem inv_init (c : Config T) : Inv c (c.init : State T E) := by
  have hreach : Reachable (step c) anyStep (c.init : State T E) c.init := .refl _
  exact ⟨chan_reachable hreach, feed_init c, crew_init c, errors_init c, handles_init c⟩

theorem inv_reachable {ok : State T E → Act E → Prop} (h : Reachable (step c) ok c.init s) : Inv c s :=
  h.invariant (inv_init c) fun _ _ _ hI _ hst => step_inv hI hst

/-! ## The loop -/

/-- The loop over the range is left. -/
def Caller.past : Caller E → Bool
  | leaving | notifying | tail _ => true
  | _ => false

/-- The coroutines are destroyed after all of them have finished, with an `error` as in `ok`. -/
def Tail.Sound (ended : List Bool) (ok : Option E → Prop) : Tail E → Prop
  | awaiting j => ∀ i, i < j → ended[i]? = some true
  | destroying _ error | returned error => (∀ b ∈ ended, b = true) ∧ ok error
  | terminated => False

structure Outcome (s : State T E) : Prop where
  kept : s.rangeError = none
  sent : ∀ i, s.chan.sent i = some false → s.firstError ≠ none
  refused : s.caller = .refused → s.firstError ≠ none
  loop : s.caller.past = true → s.todo = [] ∨ s.firstError ≠ none
  tail : ∀ t, s.caller = .tail t → t.Sound (s.workers.map Worker.isFinished) (· = s.firstError)

/-- All workers are gone while the sender is open. -/
theorem Inv.error_of_closed (h : Inv c s) (hr : s.chan.chan.mReceiverClosed = true)
    (ho : s.chan.chan.mSenderClosed = false) : s.firstError ≠ none := by
  have hclosed : ¬ (s.receiver = true ∨ ∃ p ∈ s.workers, p.keeps = true) := by
    intro hh
    rw [h.handles.opened.2 hh] at hr
    cases hr
  rw [not_or] at hclosed
  have hlen : s.workers.length = c.maxParallelity := h.feed.full fun hc => hclosed.1 (h.feed.receiver.2 hc)
  have hpos : 0 < s.workers.length := hlen ▸ c.positive
  have hmem : s.workers[0] ∈ s.workers := List.getElem_mem hpos
  have hexit : (s.workers[0]).exited = true := by
    have hno : ¬ (s.workers[0]).keeps = true := fun hk => hclosed.2 ⟨_, hmem, hk⟩
    generalize s.workers[0] = q at hno
    cases q <;> first | rfl | exact absurd rfl hno
  rcases h.errors.exited _ hmem hexit with herr | ⟨k, hk⟩
  · exact herr
  · have := (h.fifo.empty k hk).2.1
    rw [show s.chan.flow.senderClosed = false from ho] at this
    cases this

theorem step_firstError {a : Act E} (hst : step c s a = some s') (h : s.firstError ≠ none) : s'.firstError ≠ none := by
  cases step_cases hst with
  | caller hfree hc =>
    rw [hc.frame.firstError]
    exact h
  | worker hw hws =>
    cases hws with
    | handleError =>
      dsimp only
      rw [if_pos (Option.isSome_iff_ne_none.2 h)]
      exact h
    | _ => exact h

theorem WorkerStep.not_finished {a : WorkerAct E} (h : WorkerStep s w p a s') : p.isFinished = false := by
  cases h with
  | popValue hp | popEnd hp => rcases hp with rfl | rfl <;> rfl
  | _ => rfl

theorem WorkerStep.set {a : WorkerAct E} (h : WorkerStep s w p a s') (hw : s.workers[w]? = some p) :
    ∃ p', s'.workers = s.workers.set w p' := by
  cases h with
  | wakeSender | notifySender => exact ⟨_, (set_same hw).symm⟩
  | _ => exact ⟨_, rfl⟩

/-- Who has finished stays finished. -/
theorem Tail.Sound.set {ρ : Type} {f : ρ → Bool} {ws : List ρ} {r r' : ρ} {ok ok' : Option E → Prop} {t : Tail E}
    (h : t.Sound (ws.map f) ok) (hw : ws[w]? = some r) (hr : f r = false) : t.Sound ((ws.set w r').map f) ok' := by
  have hnot : ¬ ∀ b ∈ ws.map f, b = true := by
    intro hall
    have := hall _ (List.mem_map_of_mem (List.mem_of_getElem? hw))
    rw [hr] at this
    cases this
  cases t with
  | awaiting j =>
    intro i hi
    have hold := h i hi
    have hiw : i ≠ w := by
      rintro rfl
      rw [List.getElem?_map, hw, Option.map_some, hr] at hold
      cases hold
    rwa [List.getElem?_map, List.getElem?_set_ne (Ne.symm hiw), ← List.getElem?_map]
  | destroying j error => exact absurd h.1 hnot
  | returned error => exact absurd h.1 hnot
  | terminated => exact h

theorem WorkerStep.sound {a : WorkerAct E} {ok ok' : Option E → Prop} (h : WorkerStep s w p a s')
    (hw : s.workers[w]? = some p) {t : Tail E} (ht : t.Sound (s.workers.map Worker.isFinished) ok) :
    t.Sound (s'.workers.map Worker.isFinished) ok' := by
  obtain ⟨p', hset⟩ := h.set hw
  rw [hset]
  exact ht.set hw h.not_finished

theorem Tail.Sound.next {ended : List Bool} {firstError : Option E} {ok : Option E → Prop} {t t' : Tail E}
    (h : t.Sound ended ok) (hok : ok firstError) (ht : t.next ended firstError = some t') : t'.Sound ended ok := by
  cases t with
  | awaiting j =>
    simp only [Tail.next] at ht
    split at ht
    case h_1 hj =>
      obtain rfl := Option.some.inj ht
      intro i hi
      rcases Nat.lt_succ_iff_lt_or_eq.1 hi with hi | rfl
      · exact h i hi
      · exact hj
    case h_2 => cases ht
    case h_3 hj =>
      obtain rfl := Option.some.inj ht
      refine ⟨fun b hb => ?_, hok⟩
      obtain ⟨i, hi⟩ := List.mem_iff_getElem?.1 hb
      have hlt : i < j := Nat.lt_of_lt_of_le (List.getElem?_eq_some_iff.1 hi).1 (List.getElem?_eq_none_iff.1 hj)
      rw [h i hlt] at hi
      exact (Option.some.inj hi).symm
  | destroying j error =>
    simp only [Tail.next] at ht
    split at ht
    case h_1 =>
      obtain rfl := Option.some.inj ht
      exact h
    case h_2 hj =>
      have := h.1 _ (List.mem_of_getElem? hj)
      cases this
    case h_3 =>
      obtain rfl := Option.some.inj ht
      exact h
  | returned error => cases ht
  | terminated => cases ht

theorem outcome_init (c : Config T) : Outcome (c.init : State T E) where
  kept := rfl
  sent := fun i hi => by simp [BufferedChannel.State.sent, (init_fresh c).pushes, look] at hi
  refused := nofun
  loop := nofun
  tail := nofun

/-- While the caller is in the loop only the last owner of the `Receiver` refuses a `push`; afterwards nobody does. -/
theorem Outcome.sent_step (h : Outcome s) (hinv : Inv c s) (hinv' : Inv c s') {a : Act E}
    (hst : step c s a = some s') (i : Nat) (hi : s'.chan.sent i = some false) : s'.firstError ≠ none := by
  by_cases ho : s'.chan.chan.mSenderClosed = true
  · refine step_firstError hst (h.sent i ?_)
    have hidle : ∀ j, ¬ s.chan.pushOpen j := by
      intro j hj
      have hc := (hinv.feed.current j).1 hj
      rw [hinv'.feed.closed] at ho
      cases step_cases hst with
      | caller hfree hcs =>
        cases hcs with
        | pushReturn hc' hch =>
          dsimp only at ho
          split at ho <;> cases ho
        | handOver hc' hk hch =>
          dsimp only at ho
          rw [hc] at ho
          cases ho
        | _ hc' => simp [hc] at hc'
      | worker hw hws =>
        rw [hws.frame.caller, hc] at ho
        cases ho
    rcases step_chan hst with heq | ⟨b, hch, -⟩
    · rwa [← heq]
    · rw [← BufferedChannel.sent_kept hinv.clients hidle hch]
      · exact hi
      · rintro val rfl
        rw [BufferedChannel.senderClosed_kept hch (by simp)] at ho
        simp [BufferedChannel.push_needs_open hch] at ho
  · exact hinv'.error_of_closed (hinv'.truthful.refused i hi).1 (by simpa using ho)

theorem step_outcome {a : Act E} (h : Outcome s) (hinv : Inv c s) (hinv' : Inv c s') (hok : rangeKeeps s a)
    (hst : step c s a = some s') : Outcome s' := by
  have hsent := h.sent_step hinv hinv' hst
  cases step_cases hst with
  | worker hw hws =>
    have hframe := hws.frame
    have herr := fun hne => step_firstError (c := c) hst hne
    exact {
      kept := hframe.rangeError.trans h.kept
      sent := hsent
      refused := fun hc => herr (h.refused (hframe.caller ▸ hc))
      loop := by
        intro hc
        rw [State.todo, hframe.elements, hframe.itr]
        exact (h.loop (hframe.caller ▸ hc)).imp id herr
      tail := fun t ht => hws.sound hw (h.tail t (hframe.caller ▸ ht)) }
  | caller hfree hcs =>
    cases hcs with
    | create hc | dropReceiver hc | dropLast hc =>
      exact {
        kept := h.kept
        sent := hsent
        refused := fun he => by simp [hc] at he
        loop := fun he => by simp [hc, Caller.past] at he
        tail := fun t he => by simp [hc] at he }
    | push hc =>
      exact {
        kept := h.kept
        sent := hsent
        refused := fun he => by cases he
        loop := fun he => by cases he
        tail := fun t he => by cases he }
    | rangeEnd hc hend =>
      exact {
        kept := h.kept
        sent := hsent
        refused := fun he => by cases he
        loop := fun _ => .inl (by simp [State.todo, hend])
        tail := fun t he => by cases he }
    | rangeThrow => exact absurd hok id
    | handOver hc | notifyReceiver hc =>
      exact {
        kept := h.kept
        sent := hsent
        refused := h.refused
        loop := h.loop
        tail := h.tail }
    | @pushReturn i chan hc hch =>
      refine { kept := h.kept, sent := hsent, refused := fun he => ?_, loop := fun he => ?_, tail := fun t he => ?_ }
      · dsimp only at he
        split at he
        case isTrue => cases he
        case isFalse hne =>
          obtain ⟨b, hb⟩ := (BufferedChannel.pushReturn_open (j := 0) hch).2.2.2.2
          cases b with
          | true => exact absurd hb hne
          | false => exact h.sent i hb
      · dsimp only at he
        split at he <;> cases he
      · dsimp only at he
        split at he <;> cases he
    | breakLoop hc herr =>
      exact {
        kept := h.kept
        sent := hsent
        refused := fun he => by cases he
        loop := fun _ => .inr herr
        tail := fun t he => by cases he }
    | closeSender hc =>
      exact {
        kept := h.kept
        sent := hsent
        refused := fun he => by cases he
        loop := fun _ => h.loop (by rw [hc]; rfl)
        tail := fun t he => by cases he }
    | scopeLeft hc =>
      exact {
        kept := h.kept
        sent := hsent
        refused := fun he => by cases he
        loop := fun _ => h.loop (by rw [hc]; rfl)
        tail := by
          intro t ht
          cases ht
          exact fun i hi => absurd hi (Nat.not_lt_zero i) }
    | unwind hc hdone herr =>
      rw [h.kept] at herr
      cases herr
    | @tail t t' hc ht =>
      exact {
        kept := h.kept
        sent := hsent
        refused := fun he => by cases he
        loop := fun _ => h.loop (by rw [hc]; rfl)
        tail := by
          intro u hu
          cases hu
          exact (h.tail t hc).next rfl ht }

theorem outcome_reachable (h : Reachable (step c) rangeKeeps c.init s) : Outcome s := by
  refine (h.invariant (I := fun s => Inv c s ∧ Outcome s) ⟨inv_init c, outcome_init c⟩ ?_).2
  intro s a s' hI hok hst
  have hinv' := step_inv hI.1 hst
  exact ⟨hinv', step_outcome hI.2 hI.1 hinv' hok hst⟩

/-! ## The elements -/

/-- What `func` was called with comes from the range. -/
theorem Inv.called_range (h : Inv c s) {x : Nat × T} (hx : x ∈ s.calls) : c.range[x.1]? = some x.2 := by
  obtain ⟨k, hk, -⟩ := (h.crew.taken x).1 hx
  have hass : x ∈ s.chan.assigned := List.mem_of_getElem? (h.fifo.got k x hk)
  have hval : s.chan.val x.1 = some x.2 := h.fifo.genuine x (h.fifo.assigned_sub hass)
  obtain ⟨q, hq, hqv⟩ := exists_of_look hval
  have hv : s.chan.vals[x.1]? = some x.2 := by
    rw [BufferedChannel.State.vals, List.getElem?_map, hq]
    simpa using hqv
  rw [h.feed.range, List.getElem?_append_left (List.getElem?_eq_some_iff.1 hv).1]
  exact hv

/-- Without an error every element is taken when the workers have finished. -/
theorem Inv.range_called (h : Inv c s) (ho : Outcome s) (hpast : s.caller.past = true) (herr : s.firstError = none)
    (hdone : ∀ p ∈ s.workers, p = .finished) {i : Nat} {x : T} (hx : c.range[i]? = some x) : (i, x) ∈ s.calls := by
  have htodo : s.todo = [] := (ho.loop hpast).resolve_right fun hne => hne herr
  have hval : s.chan.val i = some x := by
    rw [h.feed.range, htodo, List.append_nil, BufferedChannel.State.vals, List.getElem?_map] at hx
    obtain ⟨q, hq, hqx⟩ := Option.map_eq_some_iff.1 hx
    rw [BufferedChannel.State.val, look_of_get hq, hqx]
  have hacc : (i, x) ∈ s.chan.accepted :=
    (BufferedChannel.accepted_or_refused h.chan hval).resolve_right fun hr => ho.sent i hr.1 herr
  -- a worker has seen the end of the channel
  have hlen : s.workers.length = c.maxParallelity := h.feed.full fun hc => by
    rw [hc] at hpast
    cases hpast
  have hpos : 0 < s.workers.length := hlen ▸ c.positive
  have hmem : s.workers[0] ∈ s.workers := List.getElem_mem hpos
  obtain ⟨k, hk⟩ := (h.errors.exited _ hmem (by rw [hdone _ hmem]; rfl)).resolve_left fun hne => hne herr
  have hready : s.chan.flow.ready = [] := (h.fifo.empty k hk).2.2
  have hass : (i, x) ∈ s.chan.assigned := by
    have hsplit := h.fifo.split
    rw [hready, List.append_nil] at hsplit
    have heq : s.chan.accepted = s.chan.assigned := hsplit
    rwa [← heq]
  obtain ⟨j, hj⟩ := List.mem_iff_getElem?.1 hass
  refine (h.crew.taken _).2 ⟨j, ?_, fun hopen => ?_⟩
  · refine (h.fifo.served j _ hj).resolve_right fun hh => ?_
    have hc := h.feed.handing i (by
      rw [show s.chan.handing i = some j from hh.2]
      simp)
    rw [hc] at hpast
    cases hpast
  · obtain ⟨w, hw, -⟩ := h.crew.owners.one j hopen
    have hjw : j ∈ s.owned w := List.count_pos_iff.1 (by omega)
    obtain ⟨q, hq, hcall⟩ := exists_of_look (Option.mem_toList.1 hjw)
    rw [hdone q (List.mem_of_getElem? hq)] at hcall
    cases hcall

end CoAwait.ForEach
