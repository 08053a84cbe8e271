import CoAwait.SharedChannel
import CoAwait.ChannelCalls
import CoAwait.ChannelTruth

/-!
# `SharedChannel`: the owners keep the contract of the channel

* `Served`: what a disciplined run of the channel knows about the pops it has served with nothing.
* `Owned`: the calls of the owners are the open calls of the channel, and nobody but the last owner closes.
* `owned_reachable`: so the runs of the channel are disciplined ones, and none of them releases a parked sender by
  `setMaxQueueSize`.
-/

namespace CoAwait.BufferedChannel

open Runs Table

variable {T : Type} {s s' : State T} {a : Act T}

/-- What the owners of the two handles keep to. -/
def proper (s : State T) (a : Act T) : Prop := disciplined s a ∧ noRelease s a

theorem proper_of_quiet (ha : a ≠ .closeSender ∧ a ≠ .closeReceiver ∧ ∀ cnt, a ≠ .setMaxQueueSize cnt) :
    proper s a := by
  obtain ⟨hs, hr, hm⟩ := ha
  cases a with
  | closeSender => exact absurd rfl hs
  | closeReceiver => exact absurd rfl hr
  | setMaxQueueSize cnt => exact absurd rfl (hm cnt)
  | _ => exact ⟨trivial, trivial⟩

theorem pushes_returned (h : ∀ i, ¬ s.pushOpen i) : ∀ q ∈ s.pushes, q.returned = true := by
  intro q hq
  obtain ⟨i, hi⟩ := List.mem_iff_getElem?.1 hq
  by_contra hr
  exact h i (blank_iff.2 ⟨q, hi, by simp [hr]⟩)

theorem pops_returned (h : ∀ k, ¬ s.popOpen k) : ∀ p ∈ s.pops, p.returned = true := by
  intro p hp
  obtain ⟨k, hk⟩ := List.mem_iff_getElem?.1 hp
  by_contra hr
  exact h k (blank_iff.2 ⟨p, hk, by simp [hr]⟩)

theorem not_popOpen_of_returned (h : ∀ p ∈ s.pops, p.returned = true) (k : Nat) : ¬ s.popOpen k := by
  intro hk
  obtain ⟨p, hp, hn⟩ := blank_iff.1 hk
  simp [h p (List.mem_of_getElem? hp)] at hn

/-- Nobody pops after the receivers have closed, and a pop gets nothing only when every push has been accepted. -/
structure Served (s : State T) : Prop where
  open_ : ∀ k, s.popOpen k → s.chan.mReceiverClosed = false
  handing : ∀ i, s.handing i ≠ none → s.pushOpen i
  waking : ∀ k, s.waking k ≠ none → s.popOpen k
  accepted : s.chan.mReceiverClosed = false ∨ (∃ k, s.got k = some none) →
    ∀ i < s.pushes.length, ∃ x, (i, x) ∈ s.accepted

theorem served_init : Served (init : State T) where
  open_ := fun _ _ => rfl
  handing := fun i hi => absurd (look_out (Nat.zero_le i)) hi
  waking := fun k hk => absurd (look_out (Nat.zero_le k)) hk
  accepted := fun _ i hi => absurd hi (Nat.not_lt_zero i)

/-- Who still has to complete a call of the other side has not returned. -/
theorem step_handing (h : ∀ i, s.handing i ≠ none → s.pushOpen i) (hst : step s a = some s') (i : Nat)
    (hi : s'.handing i ≠ none) : s'.pushOpen i := by
  by_cases ha : a.pushSide = true
  · cases a with
    | push =>
      obtain ⟨hopen, -, hhanding⟩ := push_open (j := i) hst
      exact hopen.2 ((hhanding hi).imp id (h i))
    | handOver j =>
      obtain ⟨hopen, -, hhanding⟩ := handOver_open (j := i) hst
      refine hopen.2 (h i fun hnone => hi ?_)
      by_cases hij : i = j <;> simp [hhanding, hij, hnone]
    | pushReturn j =>
      obtain ⟨hopen, -, hhanding, hnone, -⟩ := pushReturn_open (j := i) hst
      rw [hhanding] at hi
      exact hopen.2 ⟨h i hi, fun hij => hi (hij ▸ hnone)⟩
    | _ => cases ha
  · have hkept := step_pushesKept hst (by simpa using ha)
    rw [hkept.handing] at hi
    exact (hkept.open_ i).2 (h i hi)

theorem step_waking (h : ∀ k, s.waking k ≠ none → s.popOpen k) (hst : step s a = some s') (k : Nat)
    (hk : s'.waking k ≠ none) : s'.popOpen k := by
  by_cases ha : a.popSide = true
  · cases a with
    | pop =>
      obtain ⟨hopen, hwaking, -⟩ := pop_open (j := k) hst
      exact hopen.2 ((hwaking hk).imp id (h k))
    | wakeSender j =>
      obtain ⟨hopen, hwaking, -⟩ := wakeSender_open (j := k) hst
      refine hopen.2 (h k fun hnone => hk ?_)
      by_cases hkj : k = j <;> simp [hwaking, hkj, hnone]
    | popReturn j =>
      obtain ⟨hopen, hwaking, hnone, -⟩ := popReturn_open (j := k) hst
      rw [hwaking] at hk
      exact hopen.2 ⟨h k hk, fun hkj => hk (hkj ▸ hnone)⟩
    | _ => cases ha
  · have hkept := step_popsKept hst (by simpa using ha)
    rw [hkept.waking] at hk
    exact (hkept.open_ k).2 (h k hk)

theorem step_accepted (hf : Fifo s.flow) (hcl : Clients s) (h : Served s) (hok : disciplined s a)
    (hst : step s a = some s') : (∀ k, s'.popOpen k → s'.chan.mReceiverClosed = false) ∧
      (s'.chan.mReceiverClosed = false ∨ (∃ k, s'.got k = some none) →
        ∀ i < s'.pushes.length, ∃ x, (i, x) ∈ s'.accepted) := by
  have hnone : ∀ k, s.got k = some none → s.chan.mSenderClosed = true := fun k hk => (hf.empty k hk).2.1
  have hpops : s'.chan.mReceiverClosed = s.chan.mReceiverClosed → a.popSide = false →
      ∀ k, s'.popOpen k → s'.chan.mReceiverClosed = false := by
    intro hclosed ha k hk
    rw [hclosed]
    exact h.open_ k (((step_popsKept hst ha).open_ k).1 hk)
  -- a step that completes no pop and closes nothing
  have hkept : s'.chan.mReceiverClosed = s.chan.mReceiverClosed → s'.got = s.got →
      s'.pushes.length = s.pushes.length → s'.accepted = s.accepted →
      (s'.chan.mReceiverClosed = false ∨ (∃ k, s'.got k = some none) →
        ∀ i < s'.pushes.length, ∃ x, (i, x) ∈ s'.accepted) := by
    intro hclosed hgot hlen hacc
    rw [hclosed, hgot, hlen, hacc]
    exact h.accepted
  have hstep := hst
  cases step_cases hst with
  | @direct val k rest hopen hr hw | @buffer val parked hopen hr hw hp =>
    refine ⟨hpops rfl rfl, fun _ i hi => ?_⟩
    by_cases hlast : i = s.pushes.length
    · exact ⟨val, by simp [hlast]⟩
    · obtain ⟨x, hx⟩ := h.accepted (.inl hr) i (by simp only [List.length_append, List.length_singleton] at hi; omega)
      exact ⟨x, List.mem_append_left _ hx⟩
  | refuse hopen hr hw =>
    refine ⟨hpops rfl rfl, fun hc => ?_⟩
    rcases hc with hc | ⟨k, hk⟩
    · rw [hr] at hc
      cases hc
    · rw [hnone k hk] at hopen
      cases hopen
  | handOver hq hp hself =>
    refine ⟨hpops rfl rfl, fun hc i hi => ?_⟩
    refine h.accepted ?_ i (by simpa using hi)
    rcases hc with hc | ⟨k, hk⟩
    · exact .inl hc
    · rcases of_look_set hp hk with ⟨-, hk⟩ | hk
      · cases hk
      · exact .inr ⟨k, hk⟩
  | pushReturn hq => exact ⟨hpops rfl rfl, hkept rfl rfl (by simp) rfl⟩
  | popValue hopen | popEmpty hopen | popWait hopen =>
    exact ⟨fun _ _ => hopen, fun _ => h.accepted (.inl hopen)⟩
  | wakeSender hp hq hself =>
    exact ⟨fun k hk => h.open_ k ((wakeSender_open hstep).1.1 hk), hkept rfl (look_set_same hp rfl) (by simp) rfl⟩
  | popReturn hp =>
    exact ⟨fun k hk => h.open_ k ((popReturn_open hstep).1.1 hk).1, hkept rfl (look_set_same hp rfl) rfl rfl⟩
  | resize => exact ⟨hpops rfl rfl, hkept rfl rfl rfl rfl⟩
  | notifyResized hr hq hself => exact ⟨hpops rfl rfl, hkept rfl rfl (by simp) rfl⟩
  | closeSender => exact ⟨hpops rfl rfl, hkept rfl rfl rfl rfl⟩
  | @notifyReceiver k rest p hc hp hself =>
    refine ⟨hpops rfl rfl, fun _ => h.accepted (.inl (h.open_ k ?_))⟩
    refine blank_iff.2 ⟨p, hp, ?_⟩
    by_contra hret
    exact hcl.pops p (List.mem_of_getElem? hp) (by simpa using hret) hself
  | closeReceiver =>
    refine ⟨fun k hk => absurd hk (not_popOpen_of_returned hok k), fun hc => ?_⟩
    rcases hc with hc | hk
    · cases hc
    · exact h.accepted (.inr hk)
  | notifySender hc hq hself => exact ⟨hpops rfl rfl, hkept rfl rfl (by simp) rfl⟩

theorem step_served (hf : Fifo s.flow) (hcl : Clients s) (h : Served s) (hok : disciplined s a)
    (hst : step s a = some s') : Served s' where
  open_ := (step_accepted hf hcl h hok hst).1
  handing := step_handing h.handing hst
  waking := step_waking h.waking hst
  accepted := (step_accepted hf hcl h hok hst).2

theorem served_reachable (h : Reachable step proper (init : State T) s) : Served s := by
  refine (h.invariant (I := fun s => Fifo s.flow ∧ Clients s ∧ Served s) ⟨fifo_init, clients_init, served_init⟩ ?_).2.2
  intro s a s' hI hok hst
  exact ⟨step_fifo hI.1 hst, step_clients hI.2.1 hst, step_served hI.1 hI.2.1 hI.2.2 hok.1 hst⟩

end CoAwait.BufferedChannel

namespace CoAwait.SharedChannel

open Runs Table Handles
open BufferedChannel (proper proper_of_quiet)

variable {T : Type} {s s' : State T} {a : Act T} {c : BufferedChannel.State T} {b : BufferedChannel.Act T} {p : Nat}

structure Owned (s : State T) : Prop where
  reach : Reachable BufferedChannel.step proper BufferedChannel.init s.chan
  senders : Held s.senders s.chan.chan.mSenderClosed s.chan.pushOpen
  receivers : Held s.receivers s.chan.chan.mReceiverClosed s.chan.popOpen
  /-- Who is to be told of the closing is told by the owner that has closed. -/
  closingSender : s.chan.senderClosing ≠ [] → ∃ p : Nat, s.senders[p]? = some .notifying
  closingReceiver : s.chan.receiverClosing ≠ [] → ∃ c : Nat, s.receivers[c]? = some .notifying

theorem Owned.clients (h : Owned s) : BufferedChannel.Clients s.chan := BufferedChannel.clients_reachable h.reach

theorem Owned.fifo (h : Owned s) : BufferedChannel.Fifo s.chan.flow := BufferedChannel.fifo_reachable h.reach

theorem Owned.served (h : Owned s) : BufferedChannel.Served s.chan := BufferedChannel.served_reachable h.reach

theorem Owned.truthful (h : Owned s) : BufferedChannel.Truthful s.chan :=
  BufferedChannel.truthful_reachable (h.reach.mono fun _ _ hok => hok.2)

theorem owned_init {n : Nat} {s : State T} (h : makeBufferedChannel n = some s) : Owned s := by
  obtain ⟨c, hc, rfl⟩ := Option.map_eq_some_iff.1 h
  have hproper : proper (BufferedChannel.init : BufferedChannel.State T) (.setMaxQueueSize n) :=
    ⟨trivial, by simp [BufferedChannel.noRelease, BufferedChannel.Channel.releases, BufferedChannel.init]⟩
  have hreach : Reachable BufferedChannel.step proper BufferedChannel.init c := (Reachable.refl _).tail hproper hc
  have hpush := BufferedChannel.step_pushesKept hc rfl
  have hpop := BufferedChannel.step_popsKept hc rfl
  have hfirst : ∀ {closed : Bool} {open_ : Nat → Prop}, closed = false → (∀ i, ¬ open_ i) → Held [.idle] closed open_ :=
    fun hclosed halive => hclosed ▸ held_first halive
  refine ⟨hreach, hfirst ?_ ?_, hfirst ?_ ?_, fun hne => absurd ?_ hne, fun hne => absurd ?_ hne⟩
  · exact BufferedChannel.senderClosed_kept hc (by simp)
  · exact fun i hi => absurd ((hpush.open_ i).1 hi).1 (Nat.not_lt_zero i)
  · exact BufferedChannel.receiverClosed_kept hc (by simp)
  · exact fun k hk => absurd ((hpop.open_ k).1 hk).1 (Nat.not_lt_zero k)
  · exact BufferedChannel.senderClosing_kept hc (by simp) (by simp)
  · exact BufferedChannel.receiverClosing_kept hc (by simp) (by simp)

/-! ## Steps -/

/-- What the other side does leaves the senders alone. -/
theorem Owned.senders_kept (h : Owned s) (hc : BufferedChannel.step s.chan b = some c) (hb : b.pushSide = false)
    (hclose : b ≠ .closeSender) : Held s.senders c.chan.mSenderClosed c.pushOpen := by
  rw [BufferedChannel.senderClosed_kept hc hclose]
  exact h.senders.congr fun i => (BufferedChannel.step_pushesKept hc hb).open_ i

theorem Owned.receivers_kept (h : Owned s) (hc : BufferedChannel.step s.chan b = some c) (hb : b.popSide = false)
    (hclose : b ≠ .closeReceiver) : Held s.receivers c.chan.mReceiverClosed c.popOpen := by
  rw [BufferedChannel.receiverClosed_kept hc hclose]
  exact h.receivers.congr fun k => (BufferedChannel.step_popsKept hc hb).open_ k

theorem Owned.closingSender_kept (h : Owned s) (hc : BufferedChannel.step s.chan b = some c) (hclose : b ≠ .closeSender)
    (hnotify : b ≠ .notifyReceiver) (hne : c.senderClosing ≠ []) : ∃ p : Nat, s.senders[p]? = some .notifying := by
  rw [BufferedChannel.senderClosing_kept hc hclose hnotify] at hne
  exact h.closingSender hne

theorem Owned.closingReceiver_kept (h : Owned s) (hc : BufferedChannel.step s.chan b = some c)
    (hclose : b ≠ .closeReceiver) (hnotify : b ≠ .notifySender) (hne : c.receiverClosing ≠ []) :
    ∃ p : Nat, s.receivers[p]? = some .notifying := by
  rw [BufferedChannel.receiverClosing_kept hc hclose hnotify] at hne
  exact h.closingReceiver hne

/-- As long as the senders are open nobody is told that they have closed. -/
theorem Owned.not_closingSender (h : Owned s) {f : Phase} (hp : s.senders[p]? = some f)
    (hf : ¬ (f = .notifying ∨ f = .left)) {P : Prop} (hne : s.chan.senderClosing ≠ []) : P :=
  absurd (h.clients.closingSender (h.senders.open_ hp hf)) hne

theorem Owned.not_closingReceiver (h : Owned s) {f : Phase} (hp : s.receivers[p]? = some f)
    (hf : ¬ (f = .notifying ∨ f = .left)) {P : Prop} (hne : s.chan.receiverClosing ≠ []) : P :=
  absurd (h.clients.closingReceiver (h.receivers.open_ hp hf)) hne

theorem step_owned (h : Owned s) (hst : Step s a s') : Owned s' := by
  have htail : ∀ {c b}, BufferedChannel.step s.chan b = some c →
      (b ≠ .closeSender ∧ b ≠ .closeReceiver ∧ ∀ cnt, b ≠ .setMaxQueueSize cnt) →
      Reachable BufferedChannel.step proper BufferedChannel.init c :=
    fun hc hb => h.reach.tail (proper_of_quiet hb) hc
  cases hst with
  | copySender hp => exact { h with senders := h.senders.copy hp, closingSender := h.not_closingSender hp (by simp) }
  | dropSender hp => exact { h with senders := h.senders.release hp, closingSender := h.not_closingSender hp (by simp) }
  | @push p val c hp hc =>
    refine ⟨htail hc (by simp), ?_, h.receivers_kept hc rfl nofun, fun hne => ?_,
      h.closingReceiver_kept hc nofun nofun⟩
    · rw [BufferedChannel.senderClosed_kept hc nofun]
      exact h.senders.enter hp (fun hi => Nat.lt_irrefl _ hi.1) fun y => (BufferedChannel.push_open hc).1
    · rw [BufferedChannel.senderClosing_kept hc nofun nofun] at hne
      exact h.not_closingSender hp (by simp) hne
  | @handOver p i c hp hc =>
    refine ⟨htail hc (by simp), ?_, h.receivers_kept hc rfl nofun, h.closingSender_kept hc nofun nofun,
      h.closingReceiver_kept hc nofun nofun⟩
    rw [BufferedChannel.senderClosed_kept hc nofun]
    exact h.senders.congr fun y => (BufferedChannel.handOver_open hc).1
  | @pushReturn p i c hp hc =>
    refine ⟨htail hc (by simp), ?_, h.receivers_kept hc rfl nofun, fun hne => ?_,
      h.closingReceiver_kept hc nofun nofun⟩
    · rw [BufferedChannel.senderClosed_kept hc nofun]
      exact h.senders.return hp fun y => (BufferedChannel.pushReturn_open hc).1
    · rw [BufferedChannel.senderClosing_kept hc nofun nofun] at hne
      exact h.not_closingSender hp (by simp) hne
  | @closeSender p c hp hc =>
    have hproper : proper s.chan .closeSender :=
      ⟨BufferedChannel.pushes_returned (h.senders.quiet hp (.inl rfl)), trivial⟩
    refine ⟨h.reach.tail hproper hc, ?_, h.receivers_kept hc rfl nofun, fun _ => ⟨p, get_set hp⟩,
      h.closingReceiver_kept hc nofun nofun⟩
    rw [BufferedChannel.closeSender_closed hc]
    exact (h.senders.close hp).congr fun y => (BufferedChannel.step_pushesKept hc rfl).open_ y
  | @notifyReceiver p c hp hc =>
    exact ⟨htail hc (by simp), h.senders_kept hc rfl nofun, h.receivers_kept hc rfl nofun, fun _ => ⟨p, hp⟩,
      h.closingReceiver_kept hc nofun nofun⟩
  | senderLeaves hp hnone =>
    exact { h with senders := h.senders.leave hp, closingSender := fun hne => absurd hnone hne }
  | copyReceiver hp =>
    exact { h with receivers := h.receivers.copy hp, closingReceiver := h.not_closingReceiver hp (by simp) }
  | dropReceiver hp =>
    exact { h with receivers := h.receivers.release hp, closingReceiver := h.not_closingReceiver hp (by simp) }
  | @pop p c hp hc =>
    refine ⟨htail hc (by simp), h.senders_kept hc rfl nofun, ?_, h.closingSender_kept hc nofun nofun, fun hne => ?_⟩
    · rw [BufferedChannel.receiverClosed_kept hc nofun]
      exact h.receivers.enter hp (fun hi => Nat.lt_irrefl _ hi.1) fun y => (BufferedChannel.pop_open hc).1
    · rw [BufferedChannel.receiverClosing_kept hc nofun nofun] at hne
      exact h.not_closingReceiver hp (by simp) hne
  | @wakeSender p k c hp hc =>
    refine ⟨htail hc (by simp), h.senders_kept hc rfl nofun, ?_, h.closingSender_kept hc nofun nofun,
      h.closingReceiver_kept hc nofun nofun⟩
    rw [BufferedChannel.receiverClosed_kept hc nofun]
    exact h.receivers.congr fun y => (BufferedChannel.wakeSender_open hc).1
  | @popReturn p k c hp hc =>
    refine ⟨htail hc (by simp), h.senders_kept hc rfl nofun, ?_, h.closingSender_kept hc nofun nofun, fun hne => ?_⟩
    · rw [BufferedChannel.receiverClosed_kept hc nofun]
      exact h.receivers.return hp fun y => (BufferedChannel.popReturn_open hc).1
    · rw [BufferedChannel.receiverClosing_kept hc nofun nofun] at hne
      exact h.not_closingReceiver hp (by simp) hne
  | @closeReceiver p c hp hc =>
    have hproper : proper s.chan .closeReceiver :=
      ⟨BufferedChannel.pops_returned (h.receivers.quiet hp (.inl rfl)), trivial⟩
    refine ⟨h.reach.tail hproper hc, h.senders_kept hc rfl nofun, ?_, h.closingSender_kept hc nofun nofun,
      fun _ => ⟨p, get_set hp⟩⟩
    rw [BufferedChannel.closeReceiver_closed hc]
    exact (h.receivers.close hp).congr fun y => (BufferedChannel.step_popsKept hc rfl).open_ y
  | @notifySender p c hp hc =>
    exact ⟨htail hc (by simp), h.senders_kept hc rfl nofun, h.receivers_kept hc rfl nofun,
      h.closingSender_kept hc nofun nofun, fun _ => ⟨p, hp⟩⟩
  | receiverLeaves hp hnone =>
    exact { h with receivers := h.receivers.leave hp, closingReceiver := fun hne => absurd hnone hne }

/-- However the handles are copied and given back, the owners keep the contract of the channel. -/
theorem owned_reachable {n : Nat} {s₀ : State T} (h0 : makeBufferedChannel n = some s₀)
    (h : Reachable step anyStep s₀ s) : Owned s :=
  h.invariant (owned_init h0) fun _ _ _ hI _ hst => step_owned hI (step_cases hst)

end CoAwait.SharedChannel
