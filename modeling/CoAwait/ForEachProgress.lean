import CoAwait.ForEachOutcome

/-!
# `forEach` on an input range: it returns

* `Inv.goesOn`: unless `forEach` has returned, one of its own steps is enabled, or a call of `func` is in progress.
* `measure`: lowered by every step but the suspensions and resumptions of `func`.
* `forEach_exactly_once`: the main result.
-/

namespace CoAwait.ForEach

open Runs Table Tokens

variable {T E : Type} {c : Config T} {s s' : State T E} {w : Nat} {p : Worker T E}

/-! ## No deadlock -/

/-- A step of `func`, not of `forEach`. -/
def Act.ofFunc : Act E → Bool
  | .worker _ .funcSuspend | .worker _ .funcResume | .worker _ .funcReturn | .worker _ (.funcThrow _) => true
  | _ => false

/-- A call of `func` is in progress. -/
def Worker.inFunc : Worker T E → Bool
  | running _ | suspended _ => true
  | _ => false

/-- `forEach` can take a step, or `func` is running somewhere. -/
inductive State.GoesOn (c : Config T) (s : State T E) : Prop
  | own {a : Act E} (ha : a.ofFunc = false) (hok : rangeKeeps s a) (h : (step c s a).isSome) : s.GoesOn c
  | func {p : Worker T E} (hp : p ∈ s.workers) (hfunc : p.inFunc = true) : s.GoesOn c

theorem State.GoesOn.caller {a : CallerAct E} (hfree : s.inlined = none) (hok : ∀ e, a ≠ .rangeThrow e)
    (h : (callerStep c s a).isSome) : s.GoesOn c := by
  refine .own (a := .caller a) rfl ?_ (by simpa [step, hfree] using h)
  cases a <;> first | trivial | exact absurd rfl (hok _)

/-- A step of `forEach` that worker `w` can take. -/
def State.WorkerGoes (s : State T E) (w : Nat) (p : Worker T E) : Prop :=
  ∃ a : WorkerAct E, (Act.worker w a).ofFunc = false ∧ (workerStep s w p a).isSome

theorem State.GoesOn.worker (hw : s.workers[w]? = some p) (h : s.WorkerGoes w p) : s.GoesOn c := by
  obtain ⟨a, ha, hstep⟩ := h
  exact .own ha trivial (by simpa [step, hw] using hstep)

/-- A step of the channel that is due can be taken. -/
theorem Inv.chan_step (h : Inv c s) {b : BufferedChannel.Act T} (hdue : s.chan.due b) :
    ∃ chan, BufferedChannel.step s.chan b = some chan :=
  Option.isSome_iff_exists.1 (BufferedChannel.due_isSome h.fifo h.clients hdue)

theorem Inv.pushes_returned (h : Inv c s) (hc : ∀ i, s.caller ≠ .pushing i) :
    ∀ q ∈ s.chan.pushes, q.returned = true := by
  intro q hq
  by_contra hne
  obtain ⟨i, hi⟩ := List.mem_iff_getElem?.1 hq
  exact hc i ((h.feed.current i).1 (blank_iff.2 ⟨q, hi, by simp [hne]⟩))

/-- Only the workers pop. -/
theorem Inv.pops_returned (h : Inv c s) (hnone : ∀ p ∈ s.workers, p.call = none) :
    ∀ q ∈ s.chan.pops, q.returned = true := by
  intro q hq
  by_contra hne
  obtain ⟨k, hk⟩ := List.mem_iff_getElem?.1 hq
  obtain ⟨w, hw, -⟩ := h.crew.owners.one k (blank_iff.2 ⟨q, hk, by simp [hne]⟩)
  have hin : k ∈ s.owned w := List.count_pos_iff.1 (by omega)
  obtain ⟨p, hp, hcall⟩ := exists_of_look (Option.mem_toList.1 hin)
  rw [hnone p (List.mem_of_getElem? hp)] at hcall
  cases hcall

/-- The row of the pop call that a worker is in. -/
theorem Inv.call_row (h : Inv c s) {k : Nat} (hw : s.workers[w]? = some p) (hp : p.call = some k) :
    s.chan.popOpen k ∧ ∃ q, s.chan.pops[k]? = some q ∧ q.returned = false := by
  have hopen := h.crew.owners.living w k (by
    rw [State.owned, look_of_get hw, hp]
    exact List.mem_singleton_self k)
  obtain ⟨q, hq, hret⟩ := blank_iff.1 hopen
  refine ⟨hopen, q, hq, ?_⟩
  by_contra hne
  simp [hne] at hret

theorem Inv.popReturn_isSome (h : Inv c s) {k : Nat} (hw : s.workers[w]? = some p) (hp : p.call = some k)
    (hgot : s.chan.got k ≠ none) (hwake : s.chan.waking k = none) : (popReturn s w k).isSome := by
  obtain ⟨-, q, hq, hret⟩ := h.call_row hw hp
  obtain ⟨r, hr⟩ := Option.ne_none_iff_exists'.1 hgot
  rw [BufferedChannel.State.got, look_of_get hq] at hr
  rw [BufferedChannel.State.waking, look_of_get hq] at hwake
  have hdue : s.chan.due (.popReturn k) := ⟨q, r, hq, hr, hwake, hret⟩
  obtain ⟨chan, hch⟩ := h.chan_step hdue
  simp only [popReturn, BufferedChannel.State.got, look_of_get hq, hr, hch]
  cases r <;> rfl

/-- A worker goes on, unless it waits for the caller or has finished. -/
theorem Inv.worker_goes (h : Inv c s) (hw : s.workers[w]? = some p) :
    s.WorkerGoes w p ∨ p.inFunc = true ∨ (∃ k, p = .parked k ∧ s.chan.got k = none) ∨ p = .finished := by
  have hopen : p.keeps = true → s.chan.chan.mReceiverClosed = false := fun hk =>
    h.handles.opened.2 (.inr ⟨p, List.mem_of_getElem? hw, hk⟩)
  cases p with
  | iterating =>
    obtain ⟨chan, hch⟩ := h.chan_step (b := .pop) (hopen rfl)
    exact .inl ⟨.pop, rfl, (by simp [workerStep, hch])⟩
  | popping k =>
    by_cases hwake : s.chan.waking k = none
    · by_cases hgot : s.chan.got k = none
      · exact .inl ⟨.suspend, rfl, (by simp [workerStep, hgot, hwake])⟩
      · exact .inl ⟨.popReturn, rfl, (h.popReturn_isSome hw rfl hgot hwake)⟩
    · obtain ⟨chan, hch⟩ := h.chan_step (b := .wakeSender k) hwake
      exact .inl ⟨.wakeSender, rfl, (by simp [workerStep, hch])⟩
  | parked k =>
    by_cases hgot : s.chan.got k = none
    · exact .inr (.inr (.inl ⟨k, rfl, hgot⟩))
    · exact .inl ⟨.resume, rfl, by simp [workerStep, Option.isSome_iff_ne_none.2 hgot]⟩
  | resumed k =>
    have hwake : s.chan.waking k = none := by
      by_contra hne
      obtain ⟨w', hw'⟩ := h.crew.waking k hne
      have hin : k ∈ s.owned w := by simp [State.owned, look_of_get hw, Worker.call]
      have hin' : k ∈ s.owned w' := by simp [State.owned, look_of_get hw', Worker.call]
      obtain rfl := h.crew.owners.unique hin hin'
      rw [hw] at hw'
      cases hw'
    exact .inl ⟨.popReturn, rfl, (h.popReturn_isSome hw rfl (h.crew.resumed w k hw) hwake)⟩
  | running x => exact .inr (.inl rfl)
  | suspended x => exact .inr (.inl rfl)
  | failed e => exact .inl ⟨.handleError, rfl, rfl⟩
  | leaving =>
    refine .inl ⟨.release, rfl, ?_⟩
    simp only [workerStep]
    split <;> rfl
  | closing =>
    have hnone : ∀ p ∈ s.workers, p.call = none := by
      intro p hp
      by_contra hne
      obtain ⟨k, hk⟩ := Option.ne_none_iff_exists'.1 hne
      obtain ⟨w', hw'⟩ := List.mem_iff_getElem?.1 hp
      obtain rfl := (h.handles.last w hw).2 w' p hw' (Worker.keeps_of_holds (Worker.holds_of_call hk))
      rw [hw] at hw'
      cases hw'
      cases hk
    obtain ⟨chan, hch⟩ := h.chan_step (b := .closeReceiver) ⟨hopen rfl, h.pops_returned hnone⟩
    exact .inl ⟨.closeReceiver, rfl, (by simp [workerStep, hch])⟩
  | notifying =>
    by_cases hdone : s.chan.receiverClosing = []
    · exact .inl ⟨.finish, rfl, (by simp [workerStep, hdone])⟩
    · obtain ⟨chan, hch⟩ := h.chan_step (b := .notifySender) hdone
      exact .inl ⟨.notifySender, rfl, (by simp [workerStep, hch])⟩
  | released => exact .inl ⟨.finish, rfl, rfl⟩
  | finished => exact .inr (.inr (.inr rfl))

theorem Inv.goes (h : Inv c s) (hw : s.workers[w]? = some p) :
    s.GoesOn c ∨ (∃ k, p = .parked k ∧ s.chan.got k = none) ∨ p = .finished := by
  rcases h.worker_goes hw with hgo | hfunc | hwait
  · exact .inl (.worker hw hgo)
  · exact .inl (.func (List.mem_of_getElem? hw) hfunc)
  · exact .inr hwait

/-- Whom a suspended worker waits for. -/
theorem Inv.stranded (h : Inv c s) {k : Nat} (hw : s.workers[w]? = some (.parked k)) (hgot : s.chan.got k = none) :
    k ∈ s.chan.chan.mWaitingReceiver ∨ (∃ i, s.chan.handing i = some k ∧ s.caller = .pushing i) ∨
      k ∈ s.chan.senderClosing ∧ s.caller = .notifying := by
  obtain ⟨hopen, -⟩ := h.call_row hw rfl
  obtain ⟨place, hplace, -⟩ := h.clients.receivers.one k ⟨hopen.1, hgot⟩
  have hin := List.count_pos_iff.1 (show 0 < (s.chan.receivers place).count k by omega)
  cases place with
  | waiting => exact .inl hin
  | handing i =>
    have hk : s.chan.handing i = some k := Option.mem_toList.1 hin
    exact .inr (.inl ⟨i, hk, h.feed.handing i (by simp [hk])⟩)
  | closing => exact .inr (.inr ⟨hin, h.feed.notify (List.ne_nil_of_mem hin)⟩)

/-- The caller waits in `push` for a worker that goes on. -/
theorem Inv.pushing_goes (h : Inv c s) (hfree : s.inlined = none) {i : Nat} (hc : s.caller = .pushing i) :
    s.GoesOn c := by
  obtain ⟨q, hq, hret⟩ := blank_iff.1 ((h.feed.current i).2 hc)
  have hret : q.returned = false := by
    by_contra hne
    simp [hne] at hret
  by_cases hhand : s.chan.handing i = none
  · by_cases hsent : s.chan.sent i = none
    · obtain ⟨place, hplace, -⟩ := h.clients.senders.one i ⟨(List.getElem?_eq_some_iff.1 hq).1, hsent⟩
      have hin := List.count_pos_iff.1 (show 0 < (s.chan.senders place).count i by omega)
      cases place with
      | waking k =>
        obtain ⟨w, hw⟩ := h.crew.waking k
          (List.ne_nil_of_mem hin ∘ fun hn => by simp [BufferedChannel.State.senders, hn])
        exact (h.goes hw).resolve_right (by simp)
      | resized r =>
        cases hr : s.chan.resized[r]? with
        | none => simp [BufferedChannel.State.senders, hr] at hin
        | some notify =>
          have hnil := h.truthful.quiet notify (List.mem_of_getElem? hr)
          simp [BufferedChannel.State.senders, hr, hnil] at hin
      | closing =>
        obtain ⟨w, hw⟩ := h.handles.notifier (List.ne_nil_of_mem hin)
        exact (h.goes hw).resolve_right (by simp)
      | waiting =>
        have hopen := h.clients.accepting (List.ne_nil_of_mem hin)
        obtain ⟨p, hp, hk⟩ := (h.handles.opened.1 hopen).resolve_left fun hr => by
          rw [h.feed.receiver, hc] at hr
          cases hr
        obtain ⟨w, hw⟩ := List.mem_iff_getElem?.1 hp
        rcases h.goes hw with hgo | ⟨k, rfl, hgot⟩ | rfl
        · exact hgo
        · -- the elements of parked senders are in the queue, so that no receiver is parked
          exfalso
          rcases h.stranded hw hgot with hwait | ⟨j, hj, hcj⟩ | ⟨-, hcn⟩
          · obtain ⟨ho, -⟩ := h.clients.open_ (List.ne_nil_of_mem hwait)
            obtain ⟨k', rest, hk'⟩ := List.exists_cons_of_ne_nil (List.ne_nil_of_mem hwait)
            have hready : s.chan.chan.mReadyData = [] := (h.fifo.waiting_head ho hk').2.2.1
            have hpark := h.clients.parked
            rw [hready, List.map_nil, List.sublist_nil] at hpark
            have hi : i ∈ s.chan.chan.mWaitingSender := hin
            rw [hpark] at hi
            cases hi
          · rw [hc] at hcj
            cases hcj
            rw [hhand] at hj
            cases hj
          · rw [hc] at hcn
            cases hcn
        · cases hk
    · obtain ⟨b, hb⟩ := Option.ne_none_iff_exists'.1 hsent
      rw [BufferedChannel.State.sent, look_of_get hq] at hb
      rw [BufferedChannel.State.handing, look_of_get hq] at hhand
      obtain ⟨chan, hch⟩ := h.chan_step (b := .pushReturn i) ⟨q, b, hq, hb, hhand, hret⟩
      exact .caller (a := .pushReturn) hfree (by simp) (by simp [callerStep, hc, hch])
  · obtain ⟨k, hk⟩ := Option.ne_none_iff_exists'.1 hhand
    obtain ⟨chan, hch⟩ := h.chan_step (b := .handOver i) hhand
    exact .caller (a := .handOver) hfree (by simp) (by simp [callerStep, hc, hk, hch])

/-- **No deadlock.** -/
theorem Inv.goesOn (h : Inv c s) (ho : Outcome s) (hne : ∀ error, s.caller ≠ .tail (.returned error)) : s.GoesOn c := by
  cases hin : s.inlined with
  | some w =>
    obtain ⟨p, hw, hawake⟩ := h.crew.onTop w hin
    rcases h.goes hw with hgo | ⟨k, rfl, hgot⟩ | rfl
    · exact hgo
    · exact absurd hgot hawake
    · cases hawake
  | none =>
    cases hc : s.caller with
    | creating =>
      rcases Nat.lt_or_eq_of_le h.feed.size with hlt | heq
      · exact .caller (a := .create) hin (by simp) (by simp [callerStep, hc, hlt])
      · refine .caller (a := .dropReceiver) hin (by simp) ?_
        simp only [callerStep, hc, heq, if_true]
        split
        case isTrue => rfl
        case isFalse hnone =>
          have hcall : ∀ p ∈ s.workers, p.call = none := by
            intro p hp
            by_contra hne
            obtain ⟨k, hk⟩ := Option.ne_none_iff_exists'.1 hne
            exact hnone (List.any_eq_true.2 ⟨p, hp, Worker.holds_of_call hk⟩)
          have hopen := h.handles.opened.2 (.inl (h.feed.receiver.2 hc))
          obtain ⟨chan, hch⟩ := h.chan_step (b := .closeReceiver) ⟨hopen, h.pops_returned hcall⟩
          simp [hch]
    | iterating =>
      cases hitm : s.elements[s.itr]? with
      | none =>
        have hle := List.getElem?_eq_none_iff.1 hitm
        have hend : s.itr = s.elements.length := Nat.le_antisymm h.feed.itr hle
        exact .caller (a := .rangeEnd) hin (by simp) (by simp [callerStep, hc, hend])
      | some itm =>
        have hopen : s.chan.chan.mSenderClosed = false := by rw [h.feed.closed, hc]; rfl
        obtain ⟨chan, hch⟩ := h.chan_step (b := .push itm) hopen
        exact .caller (a := .push) hin (by simp) (by simp [callerStep, hc, hitm, hch])
    | pushing i => exact h.pushing_goes hin hc
    | refused =>
      have herr := Option.isSome_iff_ne_none.2 (ho.refused hc)
      exact .caller (a := .breakLoop) hin (by simp) (by simp [callerStep, hc, herr])
    | leaving =>
      have hopen : s.chan.chan.mSenderClosed = false := by rw [h.feed.closed, hc]; rfl
      obtain ⟨chan, hch⟩ := h.chan_step (b := .closeSender) ⟨hopen, h.pushes_returned (by simp [hc])⟩
      exact .caller (a := .closeSender) hin (by simp) (by simp [callerStep, hc, hch])
    | notifying =>
      cases hk : s.chan.senderClosing with
      | nil => exact .caller (a := .scopeLeft) hin (by simp) (by simp [callerStep, hc, hk, ho.kept])
      | cons k rest =>
        have hdue : s.chan.due .notifyReceiver := by
          show s.chan.senderClosing ≠ []
          simp [hk]
        obtain ⟨chan, hch⟩ := h.chan_step hdue
        exact .caller (a := .notifyReceiver) hin (by simp) (by simp [callerStep, hc, hk, hch])
    | tail t =>
      cases t with
      | awaiting j =>
        cases hj : (s.workers.map Worker.isFinished)[j]? with
        | none => exact .caller (a := .tail) hin (by simp) (by simp [callerStep, hc, Tail.next, hj])
        | some b =>
          cases b with
          | true => exact .caller (a := .tail) hin (by simp) (by simp [callerStep, hc, Tail.next, hj])
          | false =>
            rw [List.getElem?_map] at hj
            obtain ⟨p, hp, hfin⟩ := Option.map_eq_some_iff.1 hj
            rcases h.goes hp with hgo | ⟨k, rfl, hgot⟩ | rfl
            · exact hgo
            · -- nobody is parked after `closeSender`
              exfalso
              rcases h.stranded hp hgot with hwait | ⟨i, -, hci⟩ | ⟨-, hcn⟩
              · obtain ⟨hopen, -⟩ := h.clients.open_ (List.ne_nil_of_mem hwait)
                rw [h.feed.closed, hc] at hopen
                cases hopen
              · rw [hc] at hci
                cases hci
              · rw [hc] at hcn
                cases hcn
            · cases hfin
      | destroying j error =>
        refine .caller (a := .tail) hin (by simp) ?_
        simp only [callerStep, hc, Tail.next]
        split <;> rfl
      | returned error => exact absurd hc (hne error)
      | terminated => exact absurd (ho.tail _ hc) id

/-! ## Termination -/

/-- Every step but the suspensions and resumptions of `func`. -/
def Act.counts : Act E → Bool
  | .worker _ .funcSuspend | .worker _ .funcResume => false
  | _ => true

def Worker.rank : Worker T E → Nat
  | running _ | suspended _ => 11
  | iterating | failed _ => 10
  | popping _ => 8
  | parked _ => 7
  | resumed _ => 6
  | leaving => 5
  | closing => 4
  | notifying => 3
  | released => 1
  | finished => 0

def Tail.rank (m : Nat) : Tail E → Nat
  | awaiting j => (m - j) + m + 2
  | destroying j _ => (m - j) + 1
  | returned _ | terminated => 0

def Caller.rank (m : Nat) : Caller E → Nat
  | creating => 2 * m + 8
  | pushing _ => 2 * m + 7
  | iterating => 2 * m + 6
  | refused => 2 * m + 5
  | leaving => 2 * m + 4
  | notifying => 2 * m + 3
  | tail t => t.rank m

/-- A call of `func` pays for the way of its worker back to `func`, an element for the `push`, a worker for its
start. -/
def measure (c : Config T) (s : State T E) : Nat :=
  16 * (c.range.length - s.calls.length) + 3 * (s.elements.length - s.itr) +
    11 * (c.maxParallelity - s.workers.length) +
    (s.workers.map Worker.rank).sum + s.caller.rank c.maxParallelity +
    s.chan.pending

theorem Tail.rank_next {ended : List Bool} {firstError : Option E} {t t' : Tail E} {m : Nat} (hm : ended.length ≤ m)
    (ht : t.next ended firstError = some t') : t'.rank m < t.rank m := by
  cases t with
  | awaiting j =>
    simp only [Tail.next] at ht
    split at ht
    case h_1 hj =>
      obtain rfl := Option.some.inj ht
      have hlt := (List.getElem?_eq_some_iff.1 hj).1
      simp only [Tail.rank]
      omega
    case h_2 => cases ht
    case h_3 =>
      obtain rfl := Option.some.inj ht
      simp only [Tail.rank]
      omega
  | destroying j error =>
    simp only [Tail.next] at ht
    split at ht
    case h_1 hj =>
      obtain rfl := Option.some.inj ht
      have hlt := (List.getElem?_eq_some_iff.1 hj).1
      simp only [Tail.rank]
      omega
    case h_2 | h_3 =>
      obtain rfl := Option.some.inj ht
      simp only [Tail.rank]
      omega
  | returned error => cases ht
  | terminated => cases ht

theorem CallerStep.measure {a : CallerAct E} (h : Inv c s) (hst : CallerStep c s a s') :
    measure c s' + 1 ≤ measure c s := by
  unfold ForEach.measure
  cases hst with
  | create hc hlen =>
    simp only [List.length_append, List.map_append, List.sum_append, List.map_cons, List.map_nil, List.sum_cons,
      List.sum_nil, List.length_cons, List.length_nil, Worker.rank]
    omega
  | dropReceiver hc hlen hany =>
    simp only [hc, Caller.rank]
    omega
  | dropLast hc hlen hnone hch =>
    have hp := BufferedChannel.step_pending hch
    simp only [hc, Caller.rank, BufferedChannel.Act.enters, BufferedChannel.Act.completes] at hp ⊢
    omega
  | push hc hitm hch =>
    have hp := BufferedChannel.step_pending hch
    have hlt := (List.getElem?_eq_some_iff.1 hitm).1
    simp only [hc, Caller.rank, BufferedChannel.Act.enters, BufferedChannel.Act.completes] at hp ⊢
    omega
  | rangeEnd hc | rangeThrow hc | breakLoop hc =>
    simp only [hc, Caller.rank]
    omega
  | handOver hc hk hch | notifyReceiver hc hk hch =>
    have hp := BufferedChannel.step_pending hch
    simp only [BufferedChannel.Act.enters, BufferedChannel.Act.completes] at hp ⊢
    omega
  | @pushReturn i chan hc hch =>
    have hp := BufferedChannel.step_pending hch
    have hrank : (if s.chan.sent i = some true then .iterating else .refused : Caller E).rank c.maxParallelity + 1 ≤
        s.caller.rank c.maxParallelity := by
      rw [hc]
      split <;>
      · simp only [Caller.rank]
        omega
    simp only [BufferedChannel.Act.enters, BufferedChannel.Act.completes] at hp ⊢
    omega
  | closeSender hc hch =>
    have hp := BufferedChannel.step_pending hch
    simp only [hc, Caller.rank, BufferedChannel.Act.enters, BufferedChannel.Act.completes] at hp ⊢
    omega
  | scopeLeft hc | unwind hc =>
    simp only [hc, Caller.rank, Tail.rank]
    omega
  | tail hc ht =>
    have hrank := Tail.rank_next (m := c.maxParallelity) (by simpa using h.feed.size) ht
    simp only [hc, Caller.rank]
    omega

/-- `func` is called at most once for each position of the range. -/
theorem Inv.calls_length (h : Inv c s) : s.calls.length ≤ c.range.length := by
  have hsub : s.calls.map Prod.fst ⊆ List.range c.range.length := by
    intro i hi
    obtain ⟨x, hx, rfl⟩ := List.mem_map.1 hi
    exact List.mem_range.2 (List.getElem?_eq_some_iff.1 (h.called_range hx)).1
  simpa using h.crew.once.length_le_of_subset hsub

/-- The measure when a worker moves from `p` to `p'`. -/
theorem measure_move {p' : Worker T E} {d : Nat} (hw : s.workers[w]? = some p)
    (hworkers : s'.workers = s.workers.set w p') (helements : s'.elements = s.elements) (hitr : s'.itr = s.itr)
    (hcaller : s'.caller = s.caller)
    (h : 16 * (c.range.length - s'.calls.length) + p'.rank + s'.chan.pending + d ≤
      16 * (c.range.length - s.calls.length) + p.rank + s.chan.pending) : measure c s' + d ≤ measure c s := by
  have hsum : ((s.workers.set w p').map Worker.rank).sum + p.rank = (s.workers.map Worker.rank).sum + p'.rank :=
    sum_map_set hw
  simp only [measure, hworkers, helements, hitr, hcaller, List.length_set]
  omega

theorem WorkerStep.measure {a : WorkerAct E} (h' : Inv c s') (hw : s.workers[w]? = some p)
    (hst : WorkerStep s w p a s') : measure c s' + (if (Act.worker w a).counts then 1 else 0) ≤ measure c s := by
  cases hst with
  | pop hch | closeReceiver hch =>
    refine measure_move hw rfl rfl rfl rfl ?_
    have hp := BufferedChannel.step_pending hch
    simp only [State.place, BufferedChannel.Act.enters, BufferedChannel.Act.completes, Act.counts, if_true,
      Worker.rank] at hp ⊢
    omega
  | wakeSender hch | notifySender hch =>
    refine measure_move hw (set_same hw).symm rfl rfl rfl ?_
    have hp := BufferedChannel.step_pending hch
    simp only [BufferedChannel.Act.enters, BufferedChannel.Act.completes, Act.counts, if_true] at hp ⊢
    omega
  | @popValue _ k x chan hp hgot hch =>
    refine measure_move hw rfl rfl rfl rfl ?_
    have hpend := BufferedChannel.step_pending hch
    have hrank : 6 ≤ p.rank := by rcases hp with rfl | rfl <;> simp [Worker.rank]
    have hrunning : (Worker.running x : Worker T E).rank = 11 := rfl
    have hlen : (s.calls ++ [x]).length ≤ c.range.length := h'.calls_length
    simp only [BufferedChannel.Act.enters, BufferedChannel.Act.completes, Act.counts, if_true, List.length_append,
      List.length_singleton] at hpend hlen ⊢
    omega
  | @popEnd _ k chan hp hgot hch =>
    refine measure_move hw rfl rfl rfl rfl ?_
    have hpend := BufferedChannel.step_pending hch
    have hrank : 6 ≤ p.rank := by rcases hp with rfl | rfl <;> simp [Worker.rank]
    have hleaving : (Worker.leaving : Worker T E).rank = 5 := rfl
    simp only [State.place, BufferedChannel.Act.enters, BufferedChannel.Act.completes, Act.counts, if_true] at hpend ⊢
    omega
  | _ =>
    refine measure_move hw rfl rfl rfl rfl ?_
    simp only [State.place, State.yield, Act.counts, Worker.rank, if_true, Bool.false_eq_true, if_false]
    omega

theorem step_measure {a : Act E} (h : Inv c s) (hst : step c s a = some s') :
    measure c s' + (if a.counts then 1 else 0) ≤ measure c s := by
  have h' := step_inv h hst
  cases step_cases hst with
  | caller hfree hc => exact hc.measure h
  | worker hw hws => exact hws.measure h' hw

theorem measure_init (c : Config T) :
    measure c (c.init : State T E) = 19 * c.range.length + 13 * c.maxParallelity + 8 := by
  have hpending : (c.init : State T E).chan.pending = 0 := by
    have hch := BufferedChannel.step_cases (init_chan (E := E) c)
    generalize (c.init : State T E).chan = chan at hch
    cases hch with
    | resize => simp [BufferedChannel.State.pending, BufferedChannel.init]
  simp only [measure, hpending]
  simp only [Config.init, Caller.rank, List.length_nil, List.map_nil, List.sum_nil]
  omega

theorem run_bounded {as : List (Act E)} (h : Run (step c) rangeKeeps c.init as s) :
    occurrences (step c) (fun _ a => a.counts) c.init as ≤ 19 * c.range.length + 13 * c.maxParallelity + 8 := by
  rw [← measure_init (E := E) c]
  exact occurrences_le_measure (I := Inv c) (fun _ _ _ hI _ hst => step_inv hI hst)
    (fun _ _ _ hI _ hst => step_measure hI hst) as _ (inv_init c) h

/-! ## What is done at the end -/

theorem Outcome.finished (ho : Outcome s) {error : Option E} (hc : s.caller = .tail (.returned error)) :
    ∀ p ∈ s.workers, p = .finished := by
  intro p hp
  have hfin := (ho.tail _ hc).1 _ (List.mem_map_of_mem hp)
  cases p <;> first | rfl | cases hfin

theorem Inv.returned_quiet (h : Inv c s) (ho : Outcome s) {error : Option E} (hc : s.caller = .tail (.returned error))
    (hnone : s.thrown = []) : error = none ∧ (s.calls.map Prod.snd).Perm c.range := by
  have hfirst : s.firstError = none := by
    by_contra hne
    obtain ⟨e, he⟩ := Option.ne_none_iff_exists'.1 hne
    have hmem := h.errors.first e he
    rw [hnone] at hmem
    cases hmem
  refine ⟨(ho.tail _ hc).2.trans hfirst,
    perm_of_numbered h.crew.once fun i x => ⟨fun hx => h.called_range hx, fun hx => ?_⟩⟩
  exact h.range_called ho (by rw [hc]; rfl) hfirst (ho.finished hc) hx

theorem Inv.returned_thrown (h : Inv c s) (ho : Outcome s) {error : Option E} (hc : s.caller = .tail (.returned error))
    (hthrown : s.thrown ≠ []) : ∃ e ∈ s.thrown, error = some e := by
  rcases h.errors.kept hthrown with hne | ⟨e, he⟩
  · obtain ⟨e, he⟩ := Option.ne_none_iff_exists'.1 hne
    exact ⟨e, h.errors.first e he, (ho.tail _ hc).2.trans he⟩
  · have hf := ho.finished hc _ he
    cases hf

/-! ## Results -/

/-- **`forEach` over an input range is exactly-once and reports errors faithfully.** A run has at most
`19 * n + 13 * maxParallelity + 8` steps besides the suspensions and resumptions of `func`, and it does not get stuck
before `forEach` returns. Then all workers have finished; without an exception `func` was called once for each
element, otherwise the one rethrown is one of `func`. No element is given to `func` twice, and when `push` has returned
`false`, `firstError` is set. -/
theorem forEach_exactly_once {as : List (Act E)} (h : Run (step c) rangeKeeps c.init as s) :
    occurrences (step c) (fun _ a => a.counts) c.init as ≤ 19 * c.range.length + 13 * c.maxParallelity + 8 ∧
    ((∀ error, s.caller ≠ .tail (.returned error)) → s.GoesOn c) ∧
    (∀ error, s.caller = .tail (.returned error) →
      s.workers.length = c.maxParallelity ∧ (∀ p ∈ s.workers, p = .finished) ∧
      (s.thrown = [] → error = none ∧ (s.calls.map Prod.snd).Perm c.range) ∧
      (s.thrown ≠ [] → ∃ e ∈ s.thrown, error = some e)) ∧
    ((s.calls.map Prod.fst).Nodup ∧ ∀ x ∈ s.calls, c.range[x.1]? = some x.2) ∧
    (s.caller = .refused → s.firstError ≠ none) := by
  have hreach : Reachable (step c) rangeKeeps c.init s := ⟨as, h⟩
  have hinv := inv_reachable hreach
  have ho := outcome_reachable hreach
  refine ⟨run_bounded h, hinv.goesOn ho, fun error hc => ?_, ⟨hinv.crew.once, fun x hx => hinv.called_range hx⟩,
    ho.refused⟩
  exact ⟨hinv.feed.full (by simp [hc]), ho.finished hc, hinv.returned_quiet ho hc, hinv.returned_thrown ho hc⟩

def twoWorkers : Config Nat := ⟨2, by decide, [5, 6], false⟩

/-- Both workers are parked when the elements arrive, the first call of `func` throws. -/
def throwingSchedule : List (Act Nat) :=
  List.flatten [
    [.caller .create, .worker 0 .pop, .worker 0 .suspend, .caller .create, .worker 1 .pop, .worker 1 .suspend],
    [.caller .dropReceiver, .caller .push, .caller .handOver, .caller .pushReturn, .caller .push, .caller .handOver],
    [.caller .pushReturn, .caller .rangeEnd, .caller .closeSender, .caller .scopeLeft, .worker 0 .resume],
    [.worker 0 .popReturn, .worker 0 (.funcThrow 7), .worker 0 .handleError, .worker 0 .release, .worker 0 .finish],
    [.worker 1 .resume, .worker 1 .popReturn, .worker 1 .funcReturn, .worker 1 .pop, .worker 1 .popReturn],
    [.worker 1 .release, .worker 1 .closeReceiver, .worker 1 .finish],
    List.replicate 6 (.caller .tail)]

theorem forEach_exactly_once_throwing : ∃ s : State Nat Nat,
    Run (step twoWorkers) rangeKeeps twoWorkers.init throwingSchedule s ∧ s.calls = [(0, 5), (1, 6)] ∧
    s.caller = .tail (.returned (some 7)) ∧ (∀ p ∈ s.workers, p = .finished) ∧ s.thrown = [7] := by
  have hrun := exec_get_run (step twoWorkers) rangeKeeps (twoWorkers.init : State Nat Nat) throwingSchedule (by decide)
  have hret := (forEach_exactly_once hrun).2.2.1 (some 7) (by decide)
  exact ⟨_, hrun, by decide, by decide, hret.2.1, by decide⟩

end CoAwait.ForEach
