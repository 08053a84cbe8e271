import CoAwait.ForEachInv
import CoAwait.Tokens

/-!
# `forEach` on an input range: the workers

* `Crew`: the workers and their `pop` calls, and the elements they took from the channel.
* `Errors`: the exceptions of `func` on their way to `firstError`.
* `Handles`: who still owns the `Receiver`.
-/

namespace CoAwait.ForEach

open Runs Table Tokens

variable {T E : Type} {c : Config T} {s s' : State T E} {w : Nat} {p : Worker T E}

/-! ## The `pop` calls -/

/-- The pop call of a worker that is not returned. -/
def State.owned (s : State T E) (w : Nat) : List Nat := (look Worker.call s.workers w).toList

/-- Nobody has to wake the worker for it to go on. -/
def Worker.awake (chan : BufferedChannel.State T) : Worker T E → Prop
  | parked k => chan.got k ≠ none
  | suspended _ | finished => False
  | _ => True

structure Crew (s : State T E) : Prop where
  owners : Sole s.owned s.chan.popOpen
  waking : ∀ k, s.chan.waking k ≠ none → ∃ w : Nat, s.workers[w]? = some (.popping k)
  resumed : ∀ w k : Nat, s.workers[w]? = some (.resumed k) → s.chan.got k ≠ none
  once : (s.calls.map Prod.fst).Nodup
  taken : ∀ x, x ∈ s.calls ↔ ∃ k, s.chan.got k = some (some x) ∧ ¬ s.chan.popOpen k
  /-- Who runs on the stack of the caller can leave it. -/
  onTop : ∀ w : Nat, s.inlined = some w → ∃ p, s.workers[w]? = some p ∧ p.awake s.chan

theorem crew_init (c : Config T) : Crew (c.init : State T E) := by
  have hfresh := init_fresh (E := E) c
  have hgot : ∀ k, (c.init : State T E).chan.got k = none := by
    intro k
    simp [BufferedChannel.State.got, hfresh.pops, look]
  exact {
    owners := by
      refine ⟨fun k hk => ?_, fun w k hk => ?_⟩
      · rw [BufferedChannel.State.popOpen, hfresh.pops] at hk
        exact absurd hk.1 (Nat.not_lt_zero k)
      · simp [State.owned, look, Config.init] at hk
    waking := fun k hk => by simp [BufferedChannel.State.waking, hfresh.pops, look] at hk
    resumed := fun w k hw => by simp [Config.init] at hw
    once := List.nodup_nil
    taken := by
      intro x
      simp only [hgot]
      simp [Config.init]
    onTop := fun w hw => by simp [Config.init] at hw }

/-- The elements of the returned calls, when no call returns. -/
theorem Crew.taken_kept (h : Crew s) (hclients : BufferedChannel.Clients s.chan)
    (hg : BufferedChannel.Grows s.chan s'.chan)
    (hopen : ∀ k, k < s'.chan.pops.length → ¬ s'.chan.popOpen k → k < s.chan.pops.length ∧ ¬ s.chan.popOpen k)
    (hopen' : ∀ k, k < s.chan.pops.length → ¬ s.chan.popOpen k → ¬ s'.chan.popOpen k) (x : Nat × T) :
    x ∈ s.calls ↔ ∃ k, s'.chan.got k = some (some x) ∧ ¬ s'.chan.popOpen k := by
  rw [h.taken]
  constructor
  · rintro ⟨k, hgot, hk⟩
    exact ⟨k, hg.got k _ hgot, hopen' k (lt_of_look hgot) hk⟩
  · rintro ⟨k, hgot, hk⟩
    obtain ⟨hlt, hk'⟩ := hopen k (lt_of_look hgot) hk
    obtain ⟨r, hr⟩ := Option.ne_none_iff_exists'.1 (hclients.got_of_returned hlt hk')
    have hr' := hg.got k r hr
    rw [hgot] at hr'
    exact ⟨k, hr.trans hr'.symm, hk'⟩

theorem Worker.awake.grows {chan chan' : BufferedChannel.State T} (h : p.awake chan)
    (hg : BufferedChannel.Grows chan chan') : p.awake chan' := by
  cases p with
  | parked k =>
    obtain ⟨r, hr⟩ := Option.ne_none_iff_exists'.1 h
    exact fun hn => by simp [hg.got k r hr] at hn
  | _ => exact h

/-- One worker moves and no call returns. -/
theorem Crew.move (h : Crew s) {p' : Worker T E} (hw : s.workers[w]? = some p)
    (hclients : BufferedChannel.Clients s.chan) (hg : BufferedChannel.Grows s.chan s'.chan)
    (hworkers : s'.workers = s.workers.set w p') (hcall : p'.call = p.call) (hcalls : s'.calls = s.calls)
    (hopen : ∀ k, s'.chan.popOpen k ↔ s.chan.popOpen k) (hlen : s'.chan.pops.length = s.chan.pops.length)
    (hwaking : ∀ k, s'.chan.waking k ≠ none → s.chan.waking k ≠ none ∧ (p = .popping k → p' = .popping k))
    (hresumed : ∀ k, p' = .resumed k → s'.chan.got k ≠ none)
    (htop : s'.inlined = s.inlined ∧ p'.awake s'.chan ∨
      s'.inlined = if s.inlined = some w then none else s.inlined) : Crew s' where
  owners := by
    have howned : s'.owned = s.owned := by
      funext w'
      rw [State.owned, hworkers, look_set_same hw hcall]
      rfl
    rw [howned]
    exact h.owners.congr (fun _ _ => rfl) hopen
  waking := by
    intro k hk
    obtain ⟨hk, hp⟩ := hwaking k hk
    obtain ⟨w', hw'⟩ := h.waking k hk
    refine ⟨w', ?_⟩
    rw [hworkers, get_set_iff hw]
    by_cases hww : w' = w
    · subst hww
      rw [hw] at hw'
      exact .inl ⟨rfl, (hp (Option.some.inj hw')).symm⟩
    · exact .inr ⟨hww, hw'⟩
  resumed := by
    intro w' k hw'
    rw [hworkers, get_set_iff hw] at hw'
    rcases hw' with ⟨-, hp'⟩ | ⟨-, hw'⟩
    · exact hresumed k hp'.symm
    · obtain ⟨r, hr⟩ := Option.ne_none_iff_exists'.1 (h.resumed w' k hw')
      simp [hg.got k r hr]
  once := by
    rw [hcalls]
    exact h.once
  taken := by
    rw [hcalls]
    refine h.taken_kept hclients hg (fun k hlt hk => ⟨hlen ▸ hlt, ?_⟩) (fun k _ hk => ?_)
    · rwa [← hopen]
    · rwa [hopen]
  onTop := by
    rw [hworkers]
    exact marked_set h.onTop hw (fun _ ha => ha.grows hg) htop

/-- A worker that is in no pop call enters one. -/
theorem Crew.enter {chan : BufferedChannel.State T} (h : Crew s) (hw : s.workers[w]? = some .iterating)
    (hclients : BufferedChannel.Clients s.chan) (hch : BufferedChannel.step s.chan .pop = some chan) :
    Crew { s.place w (.popping s.chan.pops.length) with chan := chan } := by
  have hg := BufferedChannel.step_grows hch
  have hnew : ¬ s.chan.popOpen s.chan.pops.length := fun ho => absurd ho.1 (Nat.lt_irrefl _)
  exact {
    owners := by
      refine h.owners.add hnew (p := w) (fun k => ?_) (fun w' hne => ?_) (fun k => (BufferedChannel.pop_open hch).1)
      · simp [State.owned, State.place, look_set hw, look_of_get hw, Worker.call, List.count_singleton]
      · simp [State.owned, State.place, look_set hw, Function.update_of_ne hne]
    waking := by
      intro k hk
      rcases (BufferedChannel.pop_open hch).2.1 hk with rfl | hk
      · exact ⟨w, (get_set_iff hw).2 (.inl ⟨rfl, rfl⟩)⟩
      · obtain ⟨w', hw'⟩ := h.waking k hk
        refine ⟨w', (get_set_iff hw).2 (.inr ⟨?_, hw'⟩)⟩
        rintro rfl
        rw [hw] at hw'
        cases hw'
    resumed := by
      intro w' k hw'
      rcases (get_set_iff hw).1 hw' with ⟨-, hp⟩ | ⟨-, hw'⟩
      · cases hp
      · obtain ⟨r, hr⟩ := Option.ne_none_iff_exists'.1 (h.resumed w' k hw')
        simp [hg.got k r hr]
    once := h.once
    taken := h.taken_kept hclients hg
      (fun k hlt hk => by
        rw [(BufferedChannel.pop_open hch).1, not_or] at hk
        rw [(BufferedChannel.pop_open (j := 0) hch).2.2] at hlt
        exact ⟨by omega, hk.2⟩)
      (fun k hlt hk ho => by
        rcases (BufferedChannel.pop_open hch).1.1 ho with rfl | ho
        · exact absurd hlt (Nat.lt_irrefl _)
        · exact hk ho)
    onTop := marked_set h.onTop hw (fun _ ha => ha.grows hg) (.inl ⟨rfl, trivial⟩) }

/-- The pop call of a worker returns. -/
theorem Crew.leave {k : Nat} {p' : Worker T E} {chan : BufferedChannel.State T} {calls : List (Nat × T)} (h : Crew s)
    (hw : s.workers[w]? = some p) (hp : p = .popping k ∨ p = .resumed k) (hnone : p'.call = none)
    (hawake : p'.awake chan) (hclients : BufferedChannel.Clients s.chan)
    (hch : BufferedChannel.step s.chan (.popReturn k) = some chan) (honce : (calls.map Prod.fst).Nodup)
    (hcalls : ∀ x, x ∈ calls ↔ x ∈ s.calls ∨ s.chan.got k = some (some x)) :
    Crew { s.place w p' with
      chan := chan
      calls := calls } := by
  have hg := BufferedChannel.step_grows hch
  obtain ⟨-, hwaking, hwake, -, hlen, hdone⟩ := BufferedChannel.popReturn_open (j := 0) hch
  have hopen : ∀ j, chan.popOpen j ↔ s.chan.popOpen j ∧ j ≠ k := fun j => (BufferedChannel.popReturn_open hch).1
  have hpcall : p.call = some k := by rcases hp with rfl | rfl <;> rfl
  have hother : ∀ {w' q}, s.workers[w']? = some q → w' ≠ w → (s.workers.set w p')[w']? = some q :=
    fun hq hne => (get_set_iff hw).2 (.inr ⟨hne, hq⟩)
  exact {
    owners := by
      refine h.owners.drop (p := w) (x := k) (fun j => ?_) (fun w' hne => ?_) hopen
      · simp [State.owned, State.place, look_set hw, look_of_get hw, hpcall, hnone, List.count_singleton]
      · simp [State.owned, State.place, look_set hw, Function.update_of_ne hne]
    waking := by
      intro j hj
      have hj' : s.chan.waking j ≠ none := by rwa [hwaking] at hj
      obtain ⟨w', hw'⟩ := h.waking j hj'
      refine ⟨w', hother hw' ?_⟩
      rintro rfl
      rw [hw] at hw'
      rcases hp with rfl | rfl
      · cases hw'
        exact hj' hwake
      · cases hw'
    resumed := by
      intro w' j hw'
      rcases (get_set_iff hw).1 hw' with ⟨-, hp'⟩ | ⟨-, hw'⟩
      · rw [← hp'] at hnone
        cases hnone
      · obtain ⟨r, hr⟩ := Option.ne_none_iff_exists'.1 (h.resumed w' j hw')
        simp [hg.got j r hr]
    once := honce
    taken := by
      intro x
      rw [hcalls, h.taken]
      constructor
      · rintro (⟨j, hj, ho⟩ | hx)
        · exact ⟨j, hg.got j _ hj, fun ho' => ho ((hopen j).1 ho').1⟩
        · exact ⟨k, hg.got k _ hx, fun ho => absurd rfl ((hopen k).1 ho).2⟩
      · rintro ⟨j, hj, ho⟩
        rw [hopen, not_and, not_not] at ho
        have hlt : j < s.chan.pops.length := hlen ▸ lt_of_look hj
        have hgot : s.chan.got j ≠ none → s.chan.got j = some (some x) := by
          intro hne
          obtain ⟨r, hr⟩ := Option.ne_none_iff_exists'.1 hne
          have hr' := hg.got j r hr
          rw [hj] at hr'
          exact hr.trans hr'.symm
        by_cases hjk : s.chan.popOpen j
        · obtain rfl := ho hjk
          exact .inr (hgot hdone)
        · exact .inl ⟨j, hgot (hclients.got_of_returned hlt hjk), hjk⟩
    onTop := marked_set h.onTop hw (fun _ ha => ha.grows hg) (.inl ⟨rfl, hawake⟩) }

theorem WorkerStep.crew {a : WorkerAct E} (h : Crew s) (hf : BufferedChannel.Fifo s.chan.flow)
    (hclients : BufferedChannel.Clients s.chan) (hw : s.workers[w]? = some p) (hst : WorkerStep s w p a s') :
    Crew s' := by
  have hrefl := BufferedChannel.Grows.refl s.chan
  -- the moves that leave the channel alone
  have hplace : ∀ {p' : Worker T E}, p'.call = p.call → (∀ k, p ≠ .popping k) → (∀ k, p' ≠ .resumed k) →
      p'.awake s.chan → Crew (s.place w p') := fun hcall hpop hres hawake =>
    h.move hw hclients hrefl rfl hcall rfl (fun _ => Iff.rfl) rfl (fun k hk => ⟨hk, fun hp => absurd hp (hpop k)⟩)
      (fun k hp => absurd hp (hres k)) (.inl ⟨rfl, hawake⟩)
  have hyield : ∀ {p' : Worker T E}, p'.call = p.call → (∀ k, p ≠ .popping k) → (∀ k, p' ≠ .resumed k) →
      Crew (s.yield w p') := fun hcall hpop hres =>
    h.move hw hclients hrefl rfl hcall rfl (fun _ => Iff.rfl) rfl (fun k hk => ⟨hk, fun hp => absurd hp (hpop k)⟩)
      (fun k hp => absurd hp (hres k)) (.inr rfl)
  -- the steps of the channel that change no pop call
  have hchan : ∀ {b : BufferedChannel.Act T} {chan : BufferedChannel.State T} {p' : Worker T E},
      BufferedChannel.step s.chan b = some chan → b.popSide = false → p'.call = p.call → (∀ k, p ≠ .popping k) →
      (∀ k, p' ≠ .resumed k) → p'.awake chan → Crew { s.place w p' with chan := chan } :=
    fun hch hb hcall hpop hres hawake => by
      have hk := BufferedChannel.step_popsKept hch hb
      exact h.move hw hclients (BufferedChannel.step_grows hch) rfl hcall rfl hk.open_ hk.length
        (fun k hne => ⟨by rwa [hk.waking] at hne, fun hp => absurd hp (hpop k)⟩) (fun k hp => absurd hp (hres k))
        (.inl ⟨rfl, hawake⟩)
  cases hst with
  | pop hch => exact h.enter hw hclients hch
  | @wakeSender k chan hch =>
    obtain ⟨-, hwaking, hlen⟩ := BufferedChannel.wakeSender_open (j := 0) hch
    refine h.move hw hclients (BufferedChannel.step_grows hch) (set_same hw).symm rfl rfl
      (fun j => (BufferedChannel.wakeSender_open hch).1) hlen (fun j hj => ?_) (fun j hp => by cases hp)
      (.inl ⟨rfl, trivial⟩)
    refine ⟨fun hn => hj ?_, id⟩
    rw [hwaking]
    by_cases hjk : j = k
    · simp [hjk]
    · rwa [Function.update_of_ne hjk]
  | @suspend k hgot hwake =>
    refine h.move hw hclients hrefl rfl rfl rfl (fun _ => Iff.rfl) rfl (fun j hj => ⟨hj, fun hp => ?_⟩)
      (fun j hp => by cases hp) (.inr rfl)
    cases hp
    exact absurd hwake hj
  | @resume k hgot =>
    refine h.move hw hclients hrefl rfl rfl rfl (fun _ => Iff.rfl) rfl (fun j hj => ⟨hj, fun hp => by cases hp⟩)
      (fun j hp => ?_) (.inl ⟨rfl, trivial⟩)
    cases hp
    exact hgot
  | @popValue _ k x chan hp hgot hch =>
    have hopen := (BufferedChannel.popReturn_open (j := 0) hch).2.2.2.1
    refine h.leave hw hp rfl trivial hclients hch ?_ (fun y => ?_)
    · rw [List.map_append, List.nodup_append]
      refine ⟨h.once, by simp, fun i hi j hj hij => ?_⟩
      obtain ⟨y, hy, rfl⟩ := List.mem_map.1 hi
      obtain rfl : j = x.1 := by simpa using hj
      obtain ⟨k', hk', hclosed⟩ := (h.taken y).1 hy
      obtain rfl := BufferedChannel.got_injective hf hk' hgot hij
      exact hclosed hopen
    · rw [List.mem_append, hgot]
      simp [eq_comm]
  | popEnd hp hgot hch =>
    refine h.leave hw hp rfl trivial hclients hch h.once (fun y => ?_)
    simp [hgot, State.place]
  | funcSuspend => exact hyield rfl (by simp) (by simp)
  | funcResume => exact hplace rfl (by simp) (by simp) trivial
  | funcReturn => exact hplace rfl (by simp) (by simp) trivial
  | @funcThrow x e =>
    have hmove : Crew (s.place w (.failed e)) := hplace rfl (by simp) (by simp) trivial
    exact { hmove with }
  | @handleError e =>
    have hmove : Crew (s.place w .leaving) := hplace rfl (by simp) (by simp) trivial
    exact { hmove with }
  | release => exact hplace rfl (by simp) (by simp) trivial
  | releaseLast => exact hplace rfl (by simp) (by simp) trivial
  | closeReceiver hch => exact hchan hch rfl rfl (by simp) (by simp) trivial
  | @notifySender chan hch =>
    have hmove : Crew { s.place w .notifying with chan := chan } := hchan hch rfl rfl (by simp) (by simp) trivial
    rw [State.place, set_same hw] at hmove
    exact hmove
  | finishLast => exact hyield rfl (by simp) (by simp)
  | finish => exact hyield rfl (by simp) (by simp)

/-- The worker that `set_value` resumes on the spot. -/
theorem wake_get {plain : Bool} {k : Nat} (h : s.wake plain k = some w) : s.workers[w]? = some (.parked k) := by
  unfold State.wake at h
  split at h
  case isTrue =>
    obtain ⟨hlt, hp, -⟩ := List.findIdx?_eq_some_iff_getElem.1 h
    rw [List.getElem?_eq_getElem hlt]
    cases hq : s.workers[w] with
    | parked k' =>
      rw [hq] at hp
      rw [show k' = k by simpa [Worker.parkedIn] using hp]
    | _ =>
      rw [hq] at hp
      cases hp
  case isFalse => cases h

theorem CallerStep.crew {a : CallerAct E} (h : Crew s) (hclients : BufferedChannel.Clients s.chan)
    (hg : BufferedChannel.Grows s.chan s'.chan) (hfree : s.inlined = none) (hst : CallerStep c s a s') : Crew s' := by
  have hframe := hst.frame
  have hold : ∀ {w : Nat} {p : Worker T E}, s.workers[w]? = some p → s'.workers[w]? = some p := fun {w p} hp => by
    rcases hframe.workers with heq | ⟨heq, -⟩
    · rwa [heq]
    · rw [heq, List.getElem?_append_left (List.getElem?_eq_some_iff.1 hp).1]
      exact hp
  exact {
    owners := by
      have howned : s'.owned = s.owned := by
        funext w
        rcases hframe.workers with heq | ⟨heq, -⟩
        · rw [State.owned, heq]
          rfl
        · rw [State.owned, heq, look_append_none (by rfl)]
          rfl
      rw [howned]
      exact h.owners.congr (fun _ _ => rfl) hframe.pops.open_
    waking := by
      intro k hk
      rw [hframe.pops.waking] at hk
      obtain ⟨w, hw⟩ := h.waking k hk
      exact ⟨w, hold hw⟩
    resumed := by
      intro w k hw
      have hw' : s.workers[w]? = some (.resumed k) := by
        rcases hframe.workers with heq | ⟨heq, -⟩
        · rwa [heq] at hw
        · rw [heq, get_concat_iff] at hw
          exact hw.resolve_right fun hne => by cases hne.2
      obtain ⟨r, hr⟩ := Option.ne_none_iff_exists'.1 (h.resumed w k hw')
      simp [hg.got k r hr]
    once := by
      rw [hframe.calls]
      exact h.once
    taken := by
      rw [hframe.calls]
      refine h.taken_kept hclients hg (fun k hlt hk => ⟨hframe.pops.length ▸ hlt, ?_⟩) (fun k _ hk => ?_)
      · rwa [← hframe.pops.open_]
      · rwa [hframe.pops.open_]
    onTop := by
      intro w hin
      cases hst with
      | create hc hlen =>
        obtain rfl : s.workers.length = w := by simpa using hin
        exact ⟨.iterating, by simp, trivial⟩
      | handOver hc hk hch =>
        refine ⟨_, wake_get hin, fun hn => ?_⟩
        obtain ⟨r, hr⟩ := BufferedChannel.handOver_got hch hk
        rw [hr] at hn
        cases hn
      | notifyReceiver hc hk hch =>
        refine ⟨_, wake_get hin, fun hn => ?_⟩
        have hr := (BufferedChannel.notifyReceiver_got hch hk).1
        rw [hr, Function.update_self] at hn
        cases hn
      | _ =>
        rw [show s.inlined = some w from hin] at hfree
        cases hfree }

/-! ## The exceptions of `func` -/

/-- The body has returned. -/
def Worker.exited : Worker T E → Bool
  | leaving | closing | notifying | released | finished => true
  | _ => false

structure Errors (s : State T E) : Prop where
  failed : ∀ e, .failed e ∈ s.workers → e ∈ s.thrown
  first : ∀ e, s.firstError = some e → e ∈ s.thrown
  kept : s.thrown ≠ [] → s.firstError ≠ none ∨ ∃ e, .failed e ∈ s.workers
  exited : ∀ p ∈ s.workers, p.exited = true → s.firstError ≠ none ∨ ∃ k, s.chan.got k = some none

theorem errors_init (c : Config T) : Errors (c.init : State T E) where
  failed := fun e he => by simp [Config.init] at he
  first := fun e he => by simp [Config.init] at he
  kept := fun hne => absurd rfl hne
  exited := fun p hp => by simp [Config.init] at hp

theorem mem_of_set {ws : List (Worker T E)} {p' q : Worker T E} (hq : q ∈ ws.set w p') : q ∈ ws ∨ q = p' :=
  List.mem_or_eq_of_mem_set hq

/-- Another worker stays where it is. -/
theorem mem_set_of_ne {ws : List (Worker T E)} {p' q : Worker T E} (hw : ws[w]? = some p) (hq : q ∈ ws) (hne : q ≠ p) :
    q ∈ ws.set w p' := by
  obtain ⟨w', hw'⟩ := List.mem_iff_getElem?.1 hq
  refine List.mem_of_getElem? ((get_set_iff hw).2 (.inr ⟨?_, hw'⟩))
  rintro rfl
  rw [hw] at hw'
  exact hne (Option.some.inj hw').symm

/-- One worker moves, no exception is thrown or handled. -/
theorem Errors.move (h : Errors s) {p' : Worker T E} (hw : s.workers[w]? = some p)
    (hg : BufferedChannel.Grows s.chan s'.chan) (hworkers : s'.workers = s.workers.set w p')
    (hthrown : s'.thrown = s.thrown) (hfirst : s'.firstError = s.firstError) (hp : ∀ e, p ≠ .failed e)
    (hp' : ∀ e, p' ≠ .failed e)
    (hexit : p'.exited = true → p.exited = true ∨ ∃ k, s'.chan.got k = some none) : Errors s' where
  failed := by
    intro e he
    rw [hworkers] at he
    rw [hthrown]
    exact h.failed e ((mem_of_set he).resolve_right fun heq => hp' e heq.symm)
  first := by
    intro e he
    rw [hfirst] at he
    rw [hthrown]
    exact h.first e he
  kept := by
    intro hne
    rw [hthrown] at hne
    rw [hfirst, hworkers]
    rcases h.kept hne with herr | ⟨e, he⟩
    · exact .inl herr
    · exact .inr ⟨e, mem_set_of_ne hw he fun heq => hp e heq.symm⟩
  exited := by
    intro q hq hx
    rw [hworkers] at hq
    rw [hfirst]
    have hold : q ∈ s.workers → q.exited = true → s.firstError ≠ none ∨ ∃ k, s'.chan.got k = some none :=
      fun hq hx => (h.exited q hq hx).imp id fun ⟨k, hk⟩ => ⟨k, hg.got k _ hk⟩
    rcases mem_of_set hq with hq | rfl
    · exact hold hq hx
    · rcases hexit hx with hx' | hk
      · exact (h.exited p (List.mem_of_getElem? hw) hx').imp id fun ⟨k, hk⟩ => ⟨k, hg.got k _ hk⟩
      · exact .inr hk

theorem WorkerStep.errors {a : WorkerAct E} (h : Errors s) (hg : BufferedChannel.Grows s.chan s'.chan)
    (hw : s.workers[w]? = some p) (hst : WorkerStep s w p a s') : Errors s' := by
  cases hst with
  | wakeSender hch => exact h.move hw hg (set_same hw).symm rfl rfl (by simp) (by simp) .inl
  | notifySender hch => exact h.move hw hg (set_same hw).symm rfl rfl (by simp) (by simp) .inl
  | @popValue _ k x chan hp hgot hch =>
    refine h.move hw hg rfl rfl rfl (fun e => ?_) (by simp) (fun hx => by cases hx)
    rcases hp with rfl | rfl <;> simp
  | @popEnd _ k chan hp hgot hch =>
    refine h.move hw hg rfl rfl rfl (fun e => ?_) (by simp) (fun _ => .inr ⟨k, hg.got k _ hgot⟩)
    rcases hp with rfl | rfl <;> simp
  | @funcThrow x e =>
    exact {
      failed := by
        intro e' he
        rcases mem_of_set he with he | he
        · exact List.mem_append_left _ (h.failed e' he)
        · cases he
          exact List.mem_append_right _ (List.mem_singleton_self e)
      first := fun e' he => List.mem_append_left _ (h.first e' he)
      kept := fun _ => .inr ⟨e, List.mem_of_getElem? ((get_set_iff hw).2 (.inl ⟨rfl, rfl⟩))⟩
      exited := by
        intro q hq hx
        rcases mem_of_set hq with hq | rfl
        · exact h.exited q hq hx
        · cases hx }
  | @handleError e =>
    have herr : (if s.firstError.isSome then s.firstError else some e) ≠ none := by
      split
      case isTrue hsome => exact Option.isSome_iff_ne_none.1 hsome
      case isFalse => simp
    exact {
      failed := fun e' he => h.failed e' ((mem_of_set he).resolve_right (by simp))
      first := by
        intro e' he
        dsimp only at he
        split at he
        case isTrue => exact h.first e' he
        case isFalse =>
          cases he
          exact h.failed e (List.mem_of_getElem? hw)
      kept := fun _ => .inl herr
      exited := fun _ _ _ => .inl herr }
  | pop | suspend | resume | funcSuspend | funcResume | funcReturn =>
    exact h.move hw hg rfl rfl rfl (by simp) (by simp) (fun hx => by cases hx)
  | release | releaseLast | closeReceiver | finishLast | finish =>
    exact h.move hw hg rfl rfl rfl (by simp) (by simp) (fun _ => .inl rfl)

theorem CallerFrame.errors (h : Errors s) (hg : BufferedChannel.Grows s.chan s'.chan) (hf : CallerFrame s s') :
    Errors s' := by
  have hmem : ∀ q, q ∈ s'.workers → q ∈ s.workers ∨ q = .iterating := by
    intro q hq
    rcases hf.workers with heq | ⟨heq, -⟩
    · exact .inl (heq ▸ hq)
    · simpa [heq] using hq
  have hold : ∀ q, q ∈ s.workers → q ∈ s'.workers := by
    intro q hq
    rcases hf.workers with heq | ⟨heq, -⟩
    · rwa [heq]
    · rw [heq]
      exact List.mem_append_left _ hq
  exact {
    failed := by
      intro e he
      rw [hf.thrown]
      exact h.failed e ((hmem _ he).resolve_right (by simp))
    first := by
      intro e he
      rw [hf.firstError] at he
      rw [hf.thrown]
      exact h.first e he
    kept := by
      intro hne
      rw [hf.thrown] at hne
      rw [hf.firstError]
      exact (h.kept hne).imp id fun ⟨e, he⟩ => ⟨e, hold _ he⟩
    exited := by
      intro q hq hx
      rw [hf.firstError]
      rcases hmem q hq with hq | rfl
      · exact (h.exited q hq hx).imp id fun ⟨k, hk⟩ => ⟨k, hg.got k _ hk⟩
      · cases hx }

/-! ## The owners of the `Receiver` -/

/-- `closeReceiver` has not run for this worker's handle. -/
def Worker.keeps : Worker T E → Bool
  | notifying | released | finished => false
  | _ => true

theorem Worker.holds_of_call {k : Nat} (h : p.call = some k) : p.holds = true := by
  cases p <;> first | rfl | cases h

theorem Worker.keeps_of_holds (h : p.holds = true) : p.keeps = true := by
  cases p <;> first | rfl | cases h

theorem Worker.holds_of_keeps (h : p.keeps = true) (hne : p ≠ .closing) : p.holds = true := by
  cases p <;> first | rfl | exact absurd rfl hne | cases h

structure Handles (s : State T E) : Prop where
  opened : s.chan.chan.mReceiverClosed = false ↔ s.receiver = true ∨ ∃ p ∈ s.workers, p.keeps = true
  last : ∀ w : Nat, s.workers[w]? = some .closing →
    s.receiver = false ∧ ∀ (w' : Nat) p, s.workers[w']? = some p → p.keeps = true → w' = w
  notifier : s.chan.receiverClosing ≠ [] → ∃ w : Nat, s.workers[w]? = some .notifying

theorem handles_init (c : Config T) : Handles (c.init : State T E) where
  opened := iff_of_true (init_fresh c).receiverOpen (.inl rfl)
  last := fun w hw => by simp [Config.init] at hw
  notifier := fun hne => absurd (init_fresh c).receiverClosing hne

/-- One worker moves and keeps its handle or has none. -/
theorem Handles.move (h : Handles s) {p' : Worker T E} (hw : s.workers[w]? = some p)
    (hworkers : s'.workers = s.workers.set w p') (hreceiver : s'.receiver = s.receiver)
    (hclosed : s'.chan.chan.mReceiverClosed = s.chan.chan.mReceiverClosed) (hkeeps : p'.keeps = p.keeps)
    (hclosing : p' = .closing → p = .closing)
    (hnotify : s'.chan.receiverClosing ≠ [] → s.chan.receiverClosing ≠ [] ∧ (p = .notifying → p' = .notifying)) :
    Handles s' where
  opened := by
    rw [hclosed, hreceiver, h.opened, hworkers]
    refine or_congr_right ⟨?_, ?_⟩
    · rintro ⟨q, hq, hk⟩
      obtain ⟨w', hw'⟩ := List.mem_iff_getElem?.1 hq
      by_cases hww : w' = w
      · subst hww
        rw [hw] at hw'
        cases hw'
        exact ⟨p', List.mem_of_getElem? ((get_set_iff hw).2 (.inl ⟨rfl, rfl⟩)), hkeeps.trans hk⟩
      · exact ⟨q, List.mem_of_getElem? ((get_set_iff hw).2 (.inr ⟨hww, hw'⟩)), hk⟩
    · rintro ⟨q, hq, hk⟩
      rcases mem_of_set hq with hq | rfl
      · exact ⟨q, hq, hk⟩
      · exact ⟨p, List.mem_of_getElem? hw, hkeeps.symm.trans hk⟩
  last := by
    intro w' hw'
    rw [hworkers] at hw'
    have hold : s.workers[w']? = some .closing := by
      rcases (get_set_iff hw).1 hw' with ⟨rfl, hp⟩ | ⟨-, hw'⟩
      · rw [hw, hclosing hp.symm]
      · exact hw'
    obtain ⟨hr, hall⟩ := h.last w' hold
    refine ⟨hreceiver.trans hr, fun j q hj hk => ?_⟩
    rw [hworkers] at hj
    rcases (get_set_iff hw).1 hj with ⟨rfl, rfl⟩ | ⟨-, hj⟩
    · exact hall j p hw (hkeeps.symm.trans hk)
    · exact hall j q hj hk
  notifier := by
    intro hne
    obtain ⟨hne, hp⟩ := hnotify hne
    obtain ⟨w', hw'⟩ := h.notifier hne
    refine ⟨w', ?_⟩
    rw [hworkers, get_set_iff hw]
    by_cases hww : w' = w
    · subst hww
      rw [hw] at hw'
      exact .inl ⟨rfl, (hp (Option.some.inj hw')).symm⟩
    · exact .inr ⟨hww, hw'⟩

/-- While a worker keeps its handle nobody else is the last owner. -/
theorem Handles.not_closing (h : Handles s) (hw : s.workers[w]? = some p) (hk : p.keeps = true) (hne : p ≠ .closing)
    (w' : Nat) : s.workers[w']? ≠ some .closing := by
  intro hw'
  obtain rfl := (h.last w' hw').2 w p hw hk
  rw [hw] at hw'
  exact hne (Option.some.inj hw')

theorem WorkerStep.handles {a : WorkerAct E} (h : Handles s) (hw : s.workers[w]? = some p)
    (hst : WorkerStep s w p a s') : Handles s' := by
  -- the moves that leave the channel alone
  have hplain : ∀ {p' : Worker T E}, s'.workers = s.workers.set w p' → s'.receiver = s.receiver → s'.chan = s.chan →
      p'.keeps = p.keeps → p' ≠ .closing → p ≠ .notifying → Handles s' :=
    fun hws hr hchan hk hc hn =>
      h.move hw hws hr (by rw [hchan]) hk (fun he => absurd he hc) (by
        rw [hchan]
        exact fun hne => ⟨hne, fun he => absurd he hn⟩)
  -- the steps of the channel that close nothing
  have hchan : ∀ {b : BufferedChannel.Act T} {p' : Worker T E}, BufferedChannel.step s.chan b = some s'.chan →
      b ≠ .closeReceiver → b ≠ .notifySender → s'.workers = s.workers.set w p' → s'.receiver = s.receiver →
      p'.keeps = p.keeps → p' ≠ .closing → p ≠ .notifying → Handles s' :=
    fun hch hb hb' hws hr hk hc hn =>
      h.move hw hws hr (BufferedChannel.receiverClosed_kept hch hb) hk (fun he => absurd he hc) (by
        rw [BufferedChannel.receiverClosing_kept hch hb hb']
        exact fun hne => ⟨hne, fun he => absurd he hn⟩)
  cases hst with
  | pop hch => exact hchan hch (by simp) (by simp) rfl rfl rfl (by simp) (by simp)
  | wakeSender hch => exact hchan hch (by simp) (by simp) (set_same hw).symm rfl rfl (by simp) (by simp)
  | popValue hp hgot hch | popEnd hp hgot hch =>
    rcases hp with rfl | rfl <;> exact hchan hch (by simp) (by simp) rfl rfl rfl (by simp) (by simp)
  | suspend | resume | funcSuspend | funcResume | funcReturn | funcThrow | handleError =>
    exact hplain rfl rfl rfl rfl (by simp) (by simp)
  | release hother =>
    have hnone := h.not_closing hw rfl (by simp)
    have hopen : s.chan.chan.mReceiverClosed = false := h.opened.2 (.inr ⟨_, List.mem_of_getElem? hw, rfl⟩)
    exact {
      opened := iff_of_true hopen
        (hother.imp id fun ⟨q, hq, hk⟩ => ⟨q, hq, Worker.keeps_of_holds hk⟩)
      last := by
        intro w' hw'
        rcases (get_set_iff hw).1 hw' with ⟨-, he⟩ | ⟨-, hw'⟩
        · cases he
        · exact absurd hw' (hnone w')
      notifier := by
        intro hne
        obtain ⟨w', hw'⟩ := h.notifier hne
        refine ⟨w', (get_set_iff hw).2 (.inr ⟨?_, hw'⟩)⟩
        rintro rfl
        rw [hw] at hw'
        cases hw' }
  | releaseLast hr hnone =>
    have hother := h.not_closing hw rfl (by simp)
    have hopen : s.chan.chan.mReceiverClosed = false := h.opened.2 (.inr ⟨_, List.mem_of_getElem? hw, rfl⟩)
    exact {
      opened := iff_of_true hopen (.inr ⟨.closing, List.mem_of_getElem? ((get_set_iff hw).2 (.inl ⟨rfl, rfl⟩)), rfl⟩)
      last := by
        intro w' hw'
        rcases (get_set_iff hw).1 hw' with ⟨rfl, -⟩ | ⟨-, hw'⟩
        · refine ⟨hr, fun j q hj hk => ?_⟩
          rcases (get_set_iff hw).1 hj with ⟨rfl, -⟩ | ⟨hjw, hj⟩
          · rfl
          · have hne : q ≠ .closing := fun he => hother j (he ▸ hj)
            have hno := hnone q (List.mem_of_getElem? ((get_set_iff hw).2 (.inr ⟨hjw, hj⟩)))
            rw [Worker.holds_of_keeps hk hne] at hno
            cases hno
        · exact absurd hw' (hother w')
      notifier := by
        intro hne
        obtain ⟨w', hw'⟩ := h.notifier hne
        refine ⟨w', (get_set_iff hw).2 (.inr ⟨?_, hw'⟩)⟩
        rintro rfl
        rw [hw] at hw'
        cases hw' }
  | closeReceiver hch =>
    obtain ⟨hr, hall⟩ := h.last w hw
    have hgone : ∀ q ∈ s.workers.set w .notifying, q.keeps = false := by
      intro q hq
      obtain ⟨w', hw'⟩ := List.mem_iff_getElem?.1 hq
      rcases (get_set_iff hw).1 hw' with ⟨-, rfl⟩ | ⟨hne, hw'⟩
      · rfl
      · by_contra hk
        exact hne (hall w' q hw' (by simpa using hk))
    exact {
      opened := by
        rw [BufferedChannel.closeReceiver_closed hch]
        refine iff_of_false (by simp) ?_
        rintro (hr' | ⟨q, hq, hk⟩)
        · have : s.receiver = true := hr'
          rw [hr] at this
          cases this
        · have := hgone q hq
          rw [hk] at this
          cases this
      last := by
        intro w' hw'
        have := hgone _ (List.mem_of_getElem? hw')
        cases this
      notifier := fun _ => ⟨w, (get_set_iff hw).2 (.inl ⟨rfl, rfl⟩)⟩ }
  | notifySender hch =>
    exact { h with
      opened := by
        rw [BufferedChannel.receiverClosed_kept hch (by simp)]
        exact h.opened
      notifier := fun _ => ⟨w, hw⟩ }
  | finishLast hdone => exact h.move hw rfl rfl rfl rfl (by simp) (fun hne => absurd hdone hne)
  | finish => exact hplain rfl rfl rfl rfl (by simp) (by simp)

theorem CallerStep.handles {a : CallerAct E} (h : Handles s) (hfeed : Feed c s)
    (hclients : BufferedChannel.Clients s.chan) (hst : CallerStep c s a s') : Handles s' := by
  have hidle : s.receiver = true → ∀ w : Nat, s.workers[w]? ≠ some .closing := by
    intro hr w hw
    have := (h.last w hw).1
    rw [hr] at this
    cases this
  have hchan : ∀ {b : BufferedChannel.Act T}, BufferedChannel.step s.chan b = some s'.chan → b ≠ .closeReceiver →
      b ≠ .notifySender → s'.workers = s.workers → s'.receiver = s.receiver → Handles s' :=
    fun hch hb hb' hws hr => {
      opened := by
        rw [BufferedChannel.receiverClosed_kept hch hb, hr, hws]
        exact h.opened
      last := by
        rw [hws, hr]
        exact h.last
      notifier := by
        rw [BufferedChannel.receiverClosing_kept hch hb hb', hws]
        exact h.notifier }
  cases hst with
  | create hc hlen =>
    have hr := hfeed.receiver.2 hc
    exact {
      opened := iff_of_true (h.opened.2 (.inl hr)) (.inl hr)
      last := by
        intro w hw
        rw [get_concat_iff] at hw
        rcases hw with hw | ⟨-, hw⟩
        · exact absurd hw (hidle hr w)
        · cases hw
      notifier := by
        intro hne
        obtain ⟨w, hw⟩ := h.notifier hne
        exact ⟨w, get_concat_iff.2 (.inl hw)⟩ }
  | dropReceiver hc hlen hany =>
    have hr := hfeed.receiver.2 hc
    obtain ⟨q, hq, hk⟩ := hany
    exact {
      opened := iff_of_true (h.opened.2 (.inl hr)) (.inr ⟨q, hq, Worker.keeps_of_holds hk⟩)
      last := fun w hw => absurd hw (hidle hr w)
      notifier := h.notifier }
  | dropLast hc hlen hnone hch =>
    have hr := hfeed.receiver.2 hc
    have hgone : ∀ q ∈ s.workers, q.keeps = false := by
      intro q hq
      by_contra hk
      obtain ⟨w, hw⟩ := List.mem_iff_getElem?.1 hq
      have hh := Worker.holds_of_keeps (by simpa using hk) fun he => hidle hr w (he ▸ hw)
      rw [hnone q hq] at hh
      cases hh
    have hempty : s.chan.chan.mWaitingSender = [] := by
      refine List.eq_nil_iff_forall_not_mem.2 fun i hi => ?_
      obtain ⟨q, hq, -, hret⟩ := hclients.sender_waits (p := .waiting) hi
      have hopen : s.chan.pushOpen i := blank_iff.2 ⟨q, hq, by simp [hret]⟩
      rw [(hfeed.current i).1 hopen] at hc
      cases hc
    exact {
      opened := by
        rw [BufferedChannel.closeReceiver_closed hch]
        refine iff_of_false (by simp) ?_
        rintro (hr' | ⟨q, hq, hk⟩)
        · cases hr'
        · have := hgone q hq
          rw [hk] at this
          cases this
      last := fun w hw => absurd hw (hidle hr w)
      notifier := by
        intro hne
        rw [BufferedChannel.closeReceiver_closing hch, hempty] at hne
        exact absurd rfl hne }
  | push hc hitm hch => exact hchan hch (by simp) (by simp) rfl rfl
  | handOver hc hk hch => exact hchan hch (by simp) (by simp) rfl rfl
  | pushReturn hc hch => exact hchan hch (by simp) (by simp) rfl rfl
  | closeSender hc hch => exact hchan hch (by simp) (by simp) rfl rfl
  | notifyReceiver hc hk hch => exact hchan hch (by simp) (by simp) rfl rfl
  | rangeEnd | rangeThrow | breakLoop | scopeLeft | unwind | tail => exact { h with }

end CoAwait.ForEach
