import Mathlib.Combinatorics.Enumerative.DoubleCounting
import CoAwait.ChannelPressure
import CoAwait.SharedChannelDelivery

/-!
# `generateForMultiConsumer` and the loops over its receiver (`generate.hpp:27-41`)

`func` runs in a coroutine of its own, with a copy of the sender; the function gives its own one back. Whoever has
a copy of the receiver loops over it and leaves the loop when it likes, as in `CoChannelTests.cpp:245-275`.

| here | there |
| --- | --- |
| `func i`                       | the argument of the `i`-th call of the sender inside `func`; `none` where `func` returns instead; it also returns where a call has returned `false` (`CoChannelTests.cpp:249-252`) |
| sender 0, sender 1             | `chan.sender` (`:29`), the copy in the Routine (`:31`) |
| `generateForMultiConsumer`     | when who copies and drops, when `func` pushes, and no `operator++` after the end of a loop |
| `State.refused`, `State.ended` | `push` has returned `false`; a loop has come to the end |
| `values`                       | what a loop over `func` without a channel would see |

* `generateForMultiConsumer_exact`: the loops together get the first values of `func`, each once, and all come to
  their ends.
-/

namespace CoAwait.BufferedChannel

variable {T : Type} {s s' : State T} {a : Act T}

/-- Only `push` adds to what has been pushed and to the queue. -/
structure Draws (s s' : State T) : Prop where
  val : s'.val = s.val
  length : s'.pushes.length = s.pushes.length
  ready : s'.chan.mReadyData.length ≤ s.chan.mReadyData.length

theorem step_draws (hst : step s a = some s') (ha : ∀ val, a ≠ .push val) : Draws s s' := by
  cases step_cases hst with
  | direct | refuse | buffer => exact absurd rfl (ha _)
  | handOver hq => exact ⟨Table.look_set_same hq rfl, by simp, Nat.le_refl _⟩
  | pushReturn hq => exact ⟨Table.look_set_same hq rfl, by simp, Nat.le_refl _⟩
  | popValue hopen hr => exact ⟨rfl, rfl, by simp [hr]⟩
  | wakeSender hp hq => exact ⟨Table.look_set_same hq rfl, by simp, Nat.le_refl _⟩
  | notifyResized hr hq => exact ⟨Table.look_set_same hq rfl, by simp, Nat.le_refl _⟩
  | notifySender hc hq => exact ⟨Table.look_set_same hq rfl, by simp, Nat.le_refl _⟩
  | _ => exact ⟨rfl, rfl, Nat.le_refl _⟩

theorem push_adds {val : T} (hst : step s (.push val) = some s') :
    s'.val = Function.update s.val s.pushes.length (some val) ∧ s'.pushes.length = s.pushes.length + 1 ∧
      (s'.chan.mReadyData.length ≤ s.chan.mReadyData.length ∨
        s.chan.mReceiverClosed = false ∧ s'.chan.mReadyData.length = s.chan.mReadyData.length + 1) := by
  cases step_cases hst with
  | direct | refuse => exact ⟨Table.look_append, by simp, .inl (Nat.le_refl _)⟩
  | buffer hopen hr => exact ⟨Table.look_append, by simp, .inr ⟨hr, by simp⟩⟩

theorem step_lengths (hst : step s a = some s') :
    s.pushes.length ≤ s'.pushes.length ∧ s.pops.length ≤ s'.pops.length := by
  cases step_cases hst <;> simp

/-- Where no `push` is open, `push` finds room. -/
theorem Pressure.room {M : Nat} (hM : 0 < M) (h : Pressure M s) (hcl : Clients s) (hidle : ∀ i, ¬ s.pushOpen i)
    (hopen : s.chan.mReceiverClosed = false) : s.chan.mReadyData.length < M := by
  have hnobody : s.chan.mWaitingSender = [] := by
    refine List.eq_nil_iff_forall_not_mem.2 fun i hi => ?_
    have hunsent : s.unsent i := hcl.senders.living .waiting i hi
    obtain ⟨q, hq, hself⟩ := hunsent.row
    refine hidle i (Table.blank_iff.2 ⟨q, hq, ?_⟩)
    by_contra hret
    exact hcl.pushes q (List.mem_of_getElem? hq) (by simpa using hret) hself
  have hdrop := h.parked hopen
  rw [hnobody, eq_comm, List.map_eq_nil_iff, List.drop_eq_nil_iff] at hdrop
  omega

end CoAwait.BufferedChannel

namespace CoAwait.SharedChannel

open Runs Table Handles

variable {T : Type} {s s' s₀ : State T} {a : Act T} {p i k c n : Nat} {f : Phase}

/-! ## Who calls what -/

def values (func : Nat → Option T) (m : Nat) : List (Nat × T) :=
  (List.range m).filterMap fun i => (func i).map fun x => (i, x)

def State.refused (s : State T) : Prop := ∃ q ∈ s.chan.pushes, q.self = some false

def State.ended (s : State T) (c : Nat) : Prop := ∃ x ∈ s.taken, x.1 = c ∧ s.chan.got x.2 = some none

instance (s : State T) : Decidable s.refused := inferInstanceAs (Decidable (∃ q ∈ s.chan.pushes, _))

instance [DecidableEq T] (s : State T) (c : Nat) : Decidable (s.ended c) :=
  inferInstanceAs (Decidable (∃ x ∈ s.taken, _))

def generateForMultiConsumer (func : Nat → Option T) (s : State T) : Act T → Prop
  | .copySender p => p = 0 ∧ s.senders.length = 1
  | .push p val => p = 1 ∧ ¬ s.refused ∧ func s.chan.pushes.length = some val
  | .dropSender p => p = 0 ∧ s.senders.length = 2 ∨ p = 1 ∧ (s.refused ∨ func s.chan.pushes.length = none)
  | .pop c => ¬ s.ended c
  | .sender _ | .copyReceiver _ | .dropReceiver _ | .receiver _ => True

instance [DecidableEq T] (func : Nat → Option T) (s : State T) :
    (a : Act T) → Decidable (generateForMultiConsumer func s a)
  | .copySender p => inferInstanceAs (Decidable (p = 0 ∧ _))
  | .push p val => inferInstanceAs (Decidable (p = 1 ∧ ¬ s.refused ∧ func s.chan.pushes.length = some val))
  | .dropSender p =>
    inferInstanceAs (Decidable (p = 0 ∧ _ ∨ p = 1 ∧ (s.refused ∨ func s.chan.pushes.length = none)))
  | .pop c => inferInstanceAs (Decidable (¬ s.ended c))
  | .sender _ | .copyReceiver _ | .dropReceiver _ | .receiver _ => .isTrue trivial

theorem refused_iff : s.refused ↔ ∃ i, s.chan.sent i = some false := by
  constructor
  · rintro ⟨q, hq, hself⟩
    obtain ⟨i, hi⟩ := List.mem_iff_getElem?.1 hq
    exact ⟨i, by rw [BufferedChannel.State.sent, look_of_get hi, hself]⟩
  · rintro ⟨i, hi⟩
    obtain ⟨q, hq, hself⟩ := exists_of_look hi
    exact ⟨q, List.mem_of_getElem? hq, hself⟩

/-! ## What a step can do -/

/-- A step makes at most one operation of the channel, and `push` only where user code pushes. -/
theorem Step.chan (h : Step s a s') :
    s'.chan = s.chan ∨ ∃ b, BufferedChannel.step s.chan b = some s'.chan ∧ BufferedChannel.fixedSize s.chan b ∧
      ((∀ p val, a ≠ .push p val) → ∀ val, b ≠ .push val) := by
  cases h with
  | copySender | dropSender | senderLeaves | copyReceiver | dropReceiver | receiverLeaves => exact .inl rfl
  | push hp hc => exact .inr ⟨_, hc, trivial, fun hno => absurd rfl (hno _ _)⟩
  | handOver hp hc | pushReturn hp hc | closeSender hp hc | notifyReceiver hp hc | pop hp hc | wakeSender hp hc
  | popReturn hp hc | closeReceiver hp hc | notifySender hp hc => exact .inr ⟨_, hc, trivial, by simp⟩

theorem Step.grows (h : Step s a s') : BufferedChannel.Grows s.chan s'.chan := by
  rcases h.chan with heq | ⟨b, hb, -, -⟩
  · exact heq ▸ .refl _
  · exact BufferedChannel.step_grows hb

theorem Step.draws (h : Step s a s') (ha : ∀ p val, a ≠ .push p val) : BufferedChannel.Draws s.chan s'.chan := by
  rcases h.chan with heq | ⟨b, hb, -, hno⟩
  · exact heq ▸ ⟨rfl, rfl, Nat.le_refl _⟩
  · exact BufferedChannel.step_draws hb (hno ha)

theorem Step.pressure (h : Step s a s') (hn : 0 < n) (hp : BufferedChannel.Pressure n s.chan) :
    BufferedChannel.Pressure n s'.chan := by
  rcases h.chan with heq | ⟨b, hb, hsize, -⟩
  · rwa [heq]
  · exact BufferedChannel.step_pressure hn hp hsize hb

/-- Where the phase of a sender comes from. -/
theorem Step.sender_from (h : Step s a s') (hp : s'.senders[p]? = some f) :
    s.senders[p]? = some f ∨ f = .idle ∨ (∃ g, s.senders[p]? = some g ∧ g.leaving ∧ f.leaving) ∨
      (∃ val i, a = .push p val ∧ f = .calling i) ∨ (a = .dropSender p ∧ f.leaving) := by
  cases h with
  | copySender =>
    rcases get_concat_iff.1 hp with hp | ⟨-, rfl⟩
    · exact .inl hp
    · exact .inr (.inl rfl)
  | push hq hc =>
    rcases (get_set_iff hq).1 hp with ⟨rfl, rfl⟩ | ⟨-, hp⟩
    · exact .inr (.inr (.inr (.inl ⟨_, _, rfl, rfl⟩)))
    · exact .inl hp
  | dropSender hq =>
    rcases (get_set_iff hq).1 hp with ⟨rfl, rfl⟩ | ⟨-, hp⟩
    · exact .inr (.inr (.inr (.inr ⟨rfl, released_leaving _⟩)))
    · exact .inl hp
  | pushReturn hq hc =>
    rcases (get_set_iff hq).1 hp with ⟨rfl, rfl⟩ | ⟨-, hp⟩
    · exact .inr (.inl rfl)
    · exact .inl hp
  | closeSender hq | senderLeaves hq =>
    rcases (get_set_iff hq).1 hp with ⟨rfl, rfl⟩ | ⟨-, hp⟩
    · exact .inr (.inr (.inl ⟨_, hq, trivial, trivial⟩))
    · exact .inl hp
  | _ => exact .inl hp

theorem Step.senders_length (h : Step s a s') :
    s'.senders.length = s.senders.length ∨ ∃ p, a = .copySender p ∧ s'.senders.length = s.senders.length + 1 := by
  cases h with
  | copySender => exact .inr ⟨_, rfl, by simp⟩
  | push | dropSender | pushReturn | closeSender | senderLeaves => exact .inl (by simp)
  | _ => exact .inl rfl

/-- What a step does to the receivers and to what they have taken. -/
theorem Step.receivers_from (h : Step s a s') :
    s.receivers.length ≤ s'.receivers.length ∧
      (∀ c k : Nat, s'.receivers[c]? = some (.calling k) → s.receivers[c]? = some (.calling k) ∨ a = .pop c) ∧
      (s'.taken = s.taken ∨ ∃ c k : Nat, s.receivers[c]? = some (.calling k) ∧ s'.receivers[c]? = some .idle ∧
        s'.taken = s.taken ++ [(c, k)]) := by
  cases h with
  | copyReceiver =>
    refine ⟨by simp, fun c k hc => ?_, .inl rfl⟩
    rcases get_concat_iff.1 hc with hc | ⟨-, hc⟩
    · exact .inl hc
    · cases hc
  | @pop q ch hq hc =>
    refine ⟨by simp, fun c k hk => ?_, .inl rfl⟩
    rcases (get_set_iff hq).1 hk with ⟨rfl, -⟩ | ⟨-, hk⟩
    · exact .inr rfl
    · exact .inl hk
  | dropReceiver hq =>
    refine ⟨by simp, fun c k hk => .inl (calling_of_set hq (fun j hj => ?_) hk), .inl rfl⟩
    have := released_leaving s.receivers
    rw [hj] at this
    exact this
  | popReturn hq hc =>
    exact ⟨by simp, fun c k hk => .inl (calling_of_set hq (by simp) hk), .inr ⟨_, _, hq, get_set hq, rfl⟩⟩
  | closeReceiver hq hc => exact ⟨by simp, fun c k hk => .inl (calling_of_set hq (by simp) hk), .inl rfl⟩
  | receiverLeaves hq => exact ⟨by simp, fun c k hk => .inl (calling_of_set hq (by simp) hk), .inl rfl⟩
  | _ => exact ⟨Nat.le_refl _, fun _ _ hk => .inl hk, .inl rfl⟩

/-! ## What the loops keep -/

structure Consumers (func : Nat → Option T) (n : Nat) (s : State T) : Prop extends Tally s where
  two : s.senders = [.idle] ∨ s.senders.length = 2
  pusher : ∀ p i : Nat, s.senders[p]? = some (.calling i) → p = 1
  offered : ∀ i x, s.chan.val i = some x → func i = some x
  answered : ∀ i, i + 1 < s.chan.pushes.length → s.chan.sent i = some true
  stopped : ∀ f, s.senders[1]? = some f → f.leaving → s.refused ∨ func s.chan.pushes.length = none
  pressure : BufferedChannel.Pressure n s.chan
  room : s.chan.chan.mReadyData.length ≤ n
  takers : ∀ x ∈ s.taken, x.1 < s.receivers.length
  /-- The pop that has got nothing is the last one of its owner. -/
  ends : ∀ x ∈ s.taken, s.chan.got x.2 = some none →
    (∀ y ∈ s.taken, y.1 = x.1 → y.2 ≤ x.2) ∧ ∀ k, s.receivers[x.1]? ≠ some (.calling k)

namespace Consumers

variable {func : Nat → Option T}

/-- While the coroutine is in user code, every `push` has returned. -/
theorem quiet (h : Consumers func n s) (hp : s.senders[1]? = some .idle) (i : Nat) : ¬ s.chan.pushOpen i := by
  intro hi
  obtain ⟨q, hq⟩ := h.senders.caller hi
  obtain rfl := h.pusher q i hq
  rw [hp] at hq
  cases hq

theorem all_true (h : Consumers func n s) (hp : s.senders[1]? = some .idle) (hno : ¬ s.refused) (i : Nat)
    (hi : i < s.chan.pushes.length) : s.chan.sent i = some true := by
  have hq : s.chan.pushes[i]? = some s.chan.pushes[i] := List.getElem?_eq_getElem hi
  have hmem := List.mem_of_getElem? hq
  have hdone := h.clients.pushes _ hmem (BufferedChannel.pushes_returned (h.quiet hp) _ hmem)
  rw [BufferedChannel.State.sent, look_of_get hq]
  cases hself : s.chan.pushes[i].self with
  | none => exact absurd hself hdone
  | some b =>
    cases b with
    | true => rfl
    | false => exact absurd ⟨_, hmem, hself⟩ hno

theorem first (func : Nat → Option T) (h0 : makeBufferedChannel n = some s) : 0 < n ∧ Consumers func n s := by
  have htally := tally_init h0
  obtain ⟨c, hc, rfl⟩ := Option.map_eq_some_iff.1 h0
  obtain ⟨hpos, hpressure, -⟩ := BufferedChannel.fresh_size hc
  have hdraws := BufferedChannel.step_draws hc (by simp)
  have hlen : c.pushes.length = 0 := hdraws.length
  have hready : c.chan.mReadyData.length ≤ 0 := hdraws.ready
  refine ⟨hpos, { htally with
    two := .inl rfl
    pusher := fun p i hp => ?_
    offered := fun i x hx => ?_
    answered := fun i hi => ?_
    stopped := fun f hf => ?_
    pressure := hpressure
    room := hready.trans (Nat.zero_le _)
    takers := fun x hx => ?_
    ends := fun x hx => ?_ }⟩
  · cases p <;> simp at hp
  · have hlt : i < c.pushes.length := lt_of_look hx
    omega
  · have hlt : i + 1 < c.pushes.length := hi
    omega
  · simp at hf
  · cases hx
  · cases hx

section
variable (h : Consumers func n s) (hok : generateForMultiConsumer func s a) (hst : Step s a s')
include h hok hst

theorem step_two : s'.senders = [.idle] ∨ s'.senders.length = 2 := by
  rcases hst.senders_length with hlen | ⟨p, rfl, hlen⟩
  · rcases h.two with hone | htwo
    · rw [hone] at hlen
      obtain ⟨f, hf⟩ := List.length_eq_one_iff.1 hlen
      have hfirst : s'.senders[0]? = some f := by rw [hf]; rfl
      have hidle : ∀ {g}, s.senders[0]? = some g → g = .idle := by
        intro g hg
        rw [hone] at hg
        exact (Option.some.inj hg).symm
      rcases hst.sender_from hfirst with hp | rfl | ⟨g, hg, hleaving, -⟩ | ⟨val, i, rfl, -⟩ | ⟨rfl, -⟩
      · exact .inl (by rw [hf, hidle hp])
      · exact .inl hf
      · rw [hidle hg] at hleaving
        exact hleaving.elim
      · cases hok.1
      · simp [generateForMultiConsumer, hone] at hok
    · exact .inr (hlen.trans htwo)
  · exact .inr (by rw [hlen, hok.2])

theorem step_pusher (p i : Nat) (hp : s'.senders[p]? = some (.calling i)) : p = 1 := by
  rcases hst.sender_from hp with hp | hf | ⟨g, -, -, hf⟩ | ⟨val, j, rfl, -⟩ | ⟨-, hf⟩
  · exact h.pusher p i hp
  · cases hf
  · exact hf.elim
  · exact hok.1
  · exact hf.elim

theorem step_offered (i : Nat) (x : T) (hx : s'.chan.val i = some x) : func i = some x := by
  by_cases ha : ∃ p val, a = .push p val
  · obtain ⟨p, val, rfl⟩ := ha
    cases hst with
    | push hp hc =>
      rw [(BufferedChannel.push_adds hc).1] at hx
      by_cases hi : i = s.chan.pushes.length
      · rw [hi, Function.update_self] at hx
        rw [hi, hok.2.2, hx]
      · rw [Function.update_of_ne hi] at hx
        exact h.offered i x hx
  · have hdraws := hst.draws fun p val he => ha ⟨p, val, he⟩
    exact h.offered i x (hdraws.val ▸ hx)

theorem step_answered (i : Nat) (hi : i + 1 < s'.chan.pushes.length) : s'.chan.sent i = some true := by
  refine hst.grows.sent i true ?_
  by_cases ha : ∃ p val, a = .push p val
  · obtain ⟨p, val, rfl⟩ := ha
    obtain ⟨rfl, hno, -⟩ := hok
    cases hst with
    | push hp hc =>
      have hlen := (BufferedChannel.push_adds hc).2.1
      exact h.all_true hp hno i (by simp only at hi; omega)
  · have hdraws := hst.draws fun p val he => ha ⟨p, val, he⟩
    exact h.answered i (hdraws.length ▸ hi)

theorem step_stopped (f : Phase) (hf : s'.senders[1]? = some f) (hleaving : f.leaving) :
    s'.refused ∨ func s'.chan.pushes.length = none := by
  -- whoever leaves does not push
  have hkept : (∀ p val, a ≠ .push p val) → s.refused ∨ func s.chan.pushes.length = none →
      s'.refused ∨ func s'.chan.pushes.length = none := by
    rintro ha (hrefused | hnone)
    · obtain ⟨i, hi⟩ := refused_iff.1 hrefused
      exact .inl (refused_iff.2 ⟨i, hst.grows.sent i false hi⟩)
    · exact .inr ((hst.draws ha).length ▸ hnone)
  have hnopush : ∀ {g : Phase}, s.senders[1]? = some g → g.leaving → ∀ p val, a ≠ .push p val := by
    rintro g hg hl p val rfl
    obtain ⟨rfl, -⟩ := hok
    cases hst with
    | push hp hc =>
      rw [hp] at hg
      cases hg
      exact hl
  rcases hst.sender_from hf with hf | rfl | ⟨g, hg, hl, -⟩ | ⟨val, i, -, rfl⟩ | ⟨rfl, -⟩
  · exact hkept (hnopush hf hleaving) (h.stopped f hf hleaving)
  · exact hleaving.elim
  · exact hkept (hnopush hg hl) (h.stopped g hg hl)
  · exact hleaving.elim
  · refine hkept (by simp) ?_
    rcases hok with ⟨hp, -⟩ | ⟨-, hend⟩
    · cases hp
    · exact hend

theorem step_room (hn : 0 < n) : s'.chan.chan.mReadyData.length ≤ n := by
  have hroom := h.room
  by_cases ha : ∃ p val, a = .push p val
  · obtain ⟨p, val, rfl⟩ := ha
    obtain ⟨rfl, -⟩ := hok
    cases hst with
    | push hp hc =>
      rcases (BufferedChannel.push_adds hc).2.2 with hle | ⟨hopen, hlen⟩
      · exact hle.trans hroom
      · have := h.pressure.room hn h.clients (h.quiet hp) hopen
        simp only [hlen]
        omega
  · exact (hst.draws fun p val he => ha ⟨p, val, he⟩).ready.trans hroom

theorem step_ends (x : Nat × Nat) (hx : x ∈ s'.taken) (hnone : s'.chan.got x.2 = some none) :
    (∀ y ∈ s'.taken, y.1 = x.1 → y.2 ≤ x.2) ∧ ∀ k, s'.receivers[x.1]? ≠ some (.calling k) := by
  obtain ⟨-, hcalls, htaken⟩ := hst.receivers_from
  -- an owner that had come to the end still has, and does not pop
  have hended : x ∈ s.taken → (∀ y ∈ s.taken, y.1 = x.1 → y.2 ≤ x.2) ∧
      (∀ k, s.receivers[x.1]? ≠ some (.calling k)) ∧ ∀ k, s'.receivers[x.1]? ≠ some (.calling k) := by
    intro hx
    obtain ⟨hlt, hreturned⟩ := (h.returned x.2).1 (List.mem_map_of_mem hx)
    obtain ⟨r, hr⟩ := Option.ne_none_iff_exists'.1 (h.clients.got_of_returned hlt hreturned)
    have hgot : s.chan.got x.2 = some none := by
      rw [hst.grows.got x.2 r hr] at hnone
      rw [hr, hnone]
    obtain ⟨hle, hno⟩ := h.ends x hx hgot
    refine ⟨hle, hno, fun k hk => ?_⟩
    rcases hcalls _ k hk with hk | rfl
    · exact hno k hk
    · exact hok ⟨x, hx, rfl, hgot⟩
  rcases htaken with heq | ⟨c, k, hc, hidle, heq⟩
  · rw [heq] at hx ⊢
    obtain ⟨hle, -, hno⟩ := hended hx
    exact ⟨hle, hno⟩
  · rw [heq] at hx ⊢
    rcases List.mem_append.1 hx with hx | hx
    · obtain ⟨hle, hwas, hno⟩ := hended hx
      refine ⟨fun y hy hyx => ?_, hno⟩
      rcases List.mem_append.1 hy with hy | hy
      · exact hle y hy hyx
      · obtain rfl := List.mem_singleton.1 hy
        exact absurd (hyx ▸ hc) (hwas k)
    · obtain rfl := List.mem_singleton.1 hx
      refine ⟨fun y hy hyx => ?_, fun j hj => ?_⟩
      · rcases List.mem_append.1 hy with hy | hy
        · exact (h.ahead c k hc y hy hyx).le
        · exact (List.mem_singleton.1 hy) ▸ Nat.le_refl _
      · rw [hidle] at hj
        cases hj

end

theorem step (hn : 0 < n) (h : Consumers func n s) (hok : generateForMultiConsumer func s a)
    (hst : SharedChannel.step s a = some s') : Consumers func n s' := by
  have hstep := step_cases hst
  obtain ⟨hlen, -, htaken⟩ := hstep.receivers_from
  exact { step_tally h.toTally hst with
    two := h.step_two hok hstep
    pusher := h.step_pusher hok hstep
    offered := h.step_offered hok hstep
    answered := h.step_answered hok hstep
    stopped := h.step_stopped hok hstep
    pressure := hstep.pressure hn h.pressure
    room := h.step_room hok hstep hn
    takers := by
      rcases htaken with heq | ⟨c, k, hc, -, heq⟩
      · rw [heq]
        exact fun x hx => (h.takers x hx).trans_le hlen
      · rw [heq]
        intro x hx
        rcases List.mem_append.1 hx with hx | hx
        · exact (h.takers x hx).trans_le hlen
        · obtain rfl := List.mem_singleton.1 hx
          exact (List.getElem?_eq_some_iff.1 hc).1.trans_le hlen
    ends := h.step_ends hok hstep }

theorem reachable (h0 : makeBufferedChannel n = some s₀)
    (h : Reachable SharedChannel.step (generateForMultiConsumer func) s₀ s) : Consumers func n s := by
  obtain ⟨hn, hfirst⟩ := first func h0
  exact h.invariant hfirst fun _ _ _ hI hok hst => hI.step hn hok hst

/-! ## What has been received -/

theorem accepted_offered (h : Consumers func n s) {x : Nat × T} (hx : x ∈ s.chan.accepted) : func x.1 = some x.2 :=
  h.offered x.1 x.2 (h.fifo.genuine x hx)

/-- Only the last `push` may have been refused. -/
theorem accepted_before (h : Consumers func n s) (hi : i + 1 < s.chan.pushes.length) :
    i ∈ s.chan.accepted.map Prod.fst := by
  have hq : s.chan.pushes[i]? = some s.chan.pushes[i] := List.getElem?_eq_getElem (by omega)
  rcases BufferedChannel.accepted_or_refused h.reach (look_of_get hq) with hmem | ⟨hfalse, -⟩
  · exact List.mem_map_of_mem hmem
  · rw [h.answered i hi] at hfalse
    cases hfalse

theorem accepted_range (h : Consumers func n s) :
    s.chan.accepted.map Prod.fst = List.range s.chan.accepted.length := by
  have hrange := eq_range_of_ordered (l := s.chan.accepted.map Prod.fst) h.fifo.ordered fun i hi j hj => by
    obtain ⟨x, hx, rfl⟩ := List.mem_map.1 hi
    have hlt : x.1 < s.chan.pushes.length := h.fifo.numbered x hx
    exact h.accepted_before (by omega)
  rwa [List.length_map] at hrange

theorem accepted_take (h : Consumers func n s) {m : Nat} (hm : m ≤ s.chan.accepted.length) :
    s.chan.accepted.take m = values func m := by
  have hrange : (s.chan.accepted.take m).map Prod.fst = List.range m := by
    rw [List.map_take, h.accepted_range, List.take_range, Nat.min_eq_left hm]
  rw [values, ← hrange, List.filterMap_map]
  have hself : ∀ x ∈ s.chan.accepted.take m, ((fun i => (func i).map fun y => (i, y)) ∘ Prod.fst) x = some x := by
    intro x hx
    simp [h.accepted_offered (List.mem_of_mem_take hx)]
  rw [List.filterMap_congr hself, List.filterMap_some]

theorem received_offered (h : Consumers func n s) {x : Nat × T} (hx : x ∈ s.received) : func x.1 = some x.2 := by
  obtain ⟨t, -, hgot⟩ := List.mem_filterMap.1 hx
  exact h.accepted_offered (h.fifo.assigned_sub (List.mem_of_getElem? (h.assigned_of_got hgot)))

theorem received_nodup (h : Consumers func n s) : (s.received.map Prod.fst).Nodup := by
  have honce := h.once
  rw [List.nodup_iff_pairwise_ne, List.pairwise_map] at honce ⊢
  rw [State.received, List.pairwise_filterMap]
  refine honce.imp fun {x y} hne v hv w hw htag => hne ?_
  obtain ⟨r, hr, rfl⟩ : ∃ r, s.chan.got x.2 = some r ∧ r = some v := by simpa [Option.join_eq_some_iff] using hv
  obtain ⟨r', hr', rfl⟩ : ∃ r, s.chan.got y.2 = some r ∧ r = some w := by simpa [Option.join_eq_some_iff] using hw
  exact BufferedChannel.got_injective h.fifo hr hr' htag

/-! ## How far the sides are apart -/

/-- `func` is not ahead of the loops by more than the queue and a refused value. -/
theorem pushes_le (h : Consumers func n s) : s.chan.pushes.length ≤ s.chan.pops.length + n + 1 := by
  have hsplit : s.chan.accepted = s.chan.assigned ++ s.chan.chan.mReadyData := h.fifo.split
  have hlen := congrArg List.length hsplit
  rw [List.length_append] at hlen
  have hbound : s.chan.assigned.length ≤ s.chan.pops.length := h.fifo.bound
  have hroom := h.room
  by_contra hlt
  have hmem := h.accepted_before (i := s.chan.accepted.length) (by omega)
  rw [h.accepted_range, List.mem_range] at hmem
  exact Nat.lt_irrefl _ hmem

/-- Each owner has at most one pop that has not returned a value. -/
theorem pops_le (h : Consumers func n s) : s.chan.pops.length ≤ s.received.length + s.receivers.length := by
  set A := (s.taken.filter fun x => ((s.chan.got x.2).join).isSome).map Prod.snd with hA
  have hlen : A.length = s.received.length := by
    rw [hA, List.length_map, State.received, List.length_filterMap_eq_countP, List.countP_eq_length_filter]
  have hcard : (Finset.range s.chan.pops.length \ A.toFinset).card ≤ (Finset.range s.receivers.length).card := by
    refine Finset.card_le_card_of_forall_subsingleton
      (fun k c => s.receivers[c]? = some (.calling k) ∨ (c, k) ∈ s.taken ∧ s.chan.got k = some none) ?_ ?_
    · intro k hk
      obtain ⟨hlt, hnot⟩ := Finset.mem_sdiff.1 hk
      rw [Finset.mem_range] at hlt
      by_cases hopen : s.chan.popOpen k
      · obtain ⟨c, hc⟩ := h.receivers.caller hopen
        exact ⟨c, Finset.mem_range.2 (List.getElem?_eq_some_iff.1 hc).1, .inl hc⟩
      · obtain ⟨⟨c, k'⟩, hx, rfl⟩ := List.mem_map.1 ((h.returned k).2 ⟨hlt, hopen⟩)
        refine ⟨c, Finset.mem_range.2 (h.takers _ hx), .inr ⟨hx, ?_⟩⟩
        obtain ⟨r, hr⟩ := Option.ne_none_iff_exists'.1 (h.clients.got_of_returned hlt hopen)
        cases r with
        | none => exact hr
        | some v =>
          refine absurd (List.mem_toFinset.2 ?_) hnot
          exact List.mem_map.2 ⟨(c, k'), List.mem_filter.2 ⟨hx, by simp [hr]⟩, rfl⟩
    · rintro c - k ⟨-, hk⟩ k' ⟨-, hk'⟩
      rcases hk with hk | ⟨hk, hnone⟩ <;> rcases hk' with hk' | ⟨hk', hnone'⟩
      · rw [hk] at hk'
        cases hk'
        rfl
      · exact absurd hk ((h.ends _ hk' hnone').2 k)
      · exact absurd hk' ((h.ends _ hk hnone).2 k')
      · exact Nat.le_antisymm ((h.ends _ hk' hnone').1 _ hk rfl) ((h.ends _ hk hnone).1 _ hk' rfl)
  have hsdiff := Finset.le_card_sdiff A.toFinset (Finset.range s.chan.pops.length)
  have hle := List.toFinset_card_le A
  rw [Finset.card_range] at hcard hsdiff
  omega

end Consumers

/-! ## What user code has asked for -/

def State.asked (s : State T) : Nat :=
  s.chan.pushes.length + s.chan.pops.length + s.senders.length + s.receivers.length + gone s.senders + gone s.receivers

theorem step_asked (hst : SharedChannel.step s a = some s') : s.asked + (if !a.library then 1 else 0) ≤ s'.asked := by
  cases step_cases hst with
  | copySender hp | copyReceiver hp =>
    simp only [State.asked, Act.library, gone_concat, List.length_append, List.length_singleton, Bool.not_false,
      if_true]
    omega
  | push hp hc =>
    have hset := gone_set (g := .calling s.chan.pushes.length) hp
    have hlen := (BufferedChannel.push_adds hc).2.1
    have hlens := BufferedChannel.step_lengths hc
    simp only [Phase.gone] at hset
    simp only [State.asked, Act.library, List.length_set, Bool.not_false, if_true]
    omega
  | pop hp hc =>
    have hset := gone_set (g := .calling s.chan.pops.length) hp
    have hlen := (BufferedChannel.pop_open (j := 0) hc).2.2
    have hlens := BufferedChannel.step_lengths hc
    simp only [Phase.gone] at hset
    simp only [State.asked, Act.library, List.length_set, Bool.not_false, if_true]
    omega
  | dropSender hp =>
    have hset := gone_set (g := released s.senders) hp
    rw [gone_released] at hset
    simp only [Phase.gone] at hset
    simp only [State.asked, Act.library, List.length_set, Bool.not_false, if_true]
    omega
  | dropReceiver hp =>
    have hset := gone_set (g := released s.receivers) hp
    rw [gone_released] at hset
    simp only [Phase.gone] at hset
    simp only [State.asked, Act.library, List.length_set, Bool.not_false, if_true]
    omega
  | handOver hp hc | notifyReceiver hp hc | wakeSender hp hc | notifySender hp hc =>
    have hlens := BufferedChannel.step_lengths hc
    simp only [State.asked, Act.library, Bool.not_true, Bool.false_eq_true, if_false]
    omega
  | pushReturn hp hc | popReturn hp hc =>
    have hset := gone_set (g := .idle) hp
    have hlens := BufferedChannel.step_lengths hc
    simp only [Phase.gone] at hset
    simp only [State.asked, Act.library, List.length_set, Bool.not_true, Bool.false_eq_true, if_false]
    omega
  | closeSender hp hc | closeReceiver hp hc =>
    have hset := gone_set (g := .notifying) hp
    have hlens := BufferedChannel.step_lengths hc
    simp only [Phase.gone] at hset
    simp only [State.asked, Act.library, List.length_set, Bool.not_true, Bool.false_eq_true, if_false]
    omega
  | senderLeaves hp | receiverLeaves hp =>
    have hset := gone_set (g := .left) hp
    simp only [Phase.gone] at hset
    simp only [State.asked, Act.library, List.length_set, Bool.not_true, Bool.false_eq_true, if_false]
    omega

theorem asked_le (s : State T) :
    s.asked ≤ s.chan.pushes.length + s.chan.pops.length + 2 * s.senders.length + 2 * s.receivers.length := by
  have hs := gone_le_length s.senders
  have hr := gone_le_length s.receivers
  rw [State.asked]
  omega

theorem run_length_le (h0 : makeBufferedChannel n = some s₀) {ok : State T → Act T → Prop} {as : List (Act T)}
    (h : Run step ok s₀ as s) : as.length ≤ 3 * s.asked := by
  have hpaid := library_paid h0 h
  have hasked := h.counted (p := fun a => !a.library) (m := State.asked) fun _ _ _ hst => step_asked hst
  have hlen := List.length_eq_countP_add_countP Act.library (l := as)
  simp only [Bool.not_eq_true, Bool.decide_eq_false] at hlen
  omega

/-! ## The end -/

namespace Consumers

variable {func : Nat → Option T}

/-- Nobody is in user code who has nothing to do there. -/
theorem no_idle (h : Consumers func n s)
    (hstuck : ∀ a, generateForMultiConsumer func s a → SharedChannel.step s a = none) :
    (∀ p : Nat, s.senders[p]? ≠ some .idle) ∧ ∀ c : Nat, s.receivers[c]? ≠ some .idle := by
  have hno : ∀ a, generateForMultiConsumer func s a → ¬ (SharedChannel.step s a).isSome := fun a ha => by
    simp [hstuck a ha]
  refine ⟨fun p hp => ?_, fun c hc => hno (.dropReceiver c) trivial (by simp [SharedChannel.step, hc])⟩
  have hlt := (List.getElem?_eq_some_iff.1 hp).1
  have hdrop : (SharedChannel.step s (.dropSender p)).isSome := by simp [SharedChannel.step, hp]
  rcases h.two with hone | htwo
  · obtain rfl : p = 0 := by simpa [hone] using hlt
    exact hno (.copySender 0) ⟨rfl, by simp [hone]⟩ (by simp [SharedChannel.step, hp])
  · obtain rfl | rfl : p = 0 ∨ p = 1 := by omega
    · exact hno (.dropSender 0) (.inl ⟨rfl, htwo⟩) hdrop
    · by_cases hend : s.refused ∨ func s.chan.pushes.length = none
      · exact hno (.dropSender 1) (.inr ⟨rfl, hend⟩) hdrop
      · obtain ⟨hrefused, hmore⟩ := not_or.1 hend
        obtain ⟨val, hval⟩ := Option.ne_none_iff_exists'.1 hmore
        exact hno (.push 1 val) ⟨rfl, hrefused, hval⟩ (h.push_enabled hp val)

theorem all_left (h : Consumers func n s)
    (hstuck : ∀ a, generateForMultiConsumer func s a → SharedChannel.step s a = none) :
    (∀ f ∈ s.senders, f = .left) ∧ ∀ f ∈ s.receivers, f = .left := by
  obtain ⟨hsender, hreceiver⟩ := h.no_idle hstuck
  have hstop : s.stuck := fun p => ⟨hstuck (.sender p) trivial, hstuck (.receiver p) trivial⟩
  refine ⟨fun f hf => ?_, fun f hf => ?_⟩
  · obtain ⟨p, hp⟩ := List.mem_iff_getElem?.1 hf
    cases f with
    | left => rfl
    | idle => exact absurd hp (hsender p)
    | closing | notifying => exact absurd (h.sender_closes hp (by simp)) (hstop.sender p)
    | calling i =>
      obtain ⟨c, hc⟩ := h.receiver_awaited hstop (List.ne_nil_of_mem (h.parked_sender hstop hp))
      exact absurd hc (hreceiver c)
  · obtain ⟨c, hc⟩ := List.mem_iff_getElem?.1 hf
    cases f with
    | left => rfl
    | idle => exact absurd hc (hreceiver c)
    | closing | notifying => exact absurd (h.receiver_closes hc (by simp)) (hstop.receiver c)
    | calling k =>
      obtain ⟨p, hp⟩ := h.sender_awaited hstop (List.ne_nil_of_mem (h.parked_receiver hstop hc))
      exact absurd hp (hsender p)

/-- A loop that has come to the end leaves nothing behind. -/
theorem ended_last (h : Consumers func n s) (hs : ∀ f ∈ s.senders, f = .left) (hr : ∀ f ∈ s.receivers, f = .left)
    (hend : s.ended c) : func s.received.length = none := by
  obtain ⟨x, -, -, hnone⟩ := hend
  have hperm := h.received_perm (h.receivers.all_left hr).2
  have hlen : s.received.length = s.chan.pushes.length := by
    have := ((hperm.map Prod.snd).trans (h.all_assigned hnone)).length_eq
    simpa [BufferedChannel.State.vals] using this
  have htwo : s.senders.length = 2 := by
    refine h.two.resolve_left fun hone => ?_
    cases hs .idle (by simp [hone])
  have hleft : s.senders[1]? = some .left := by
    have hget := List.getElem?_eq_getElem (l := s.senders) (i := 1) (by omega)
    rw [hget, hs _ (List.getElem_mem _)]
  rcases h.stopped _ hleft trivial with hrefused | hlast
  · obtain ⟨i, hi⟩ := refused_iff.1 hrefused
    exact absurd hi (h.none_refused hnone (lt_of_look hi))
  · rw [hlen, hlast]

end Consumers

/-- **Many loops over one generator.** In any interleaving the loops get values of `func`, each of them once and each
loop in order; `func` is ahead of them by no more than the queue, a pop of each owner and a value that is refused; and
so many steps are all there are. When the sides can take no more, all have left, the loops together have got the first
values of `func`, and all of them if one loop has come to the end. -/
theorem generateForMultiConsumer_exact {func : Nat → Option T} (h0 : makeBufferedChannel n = some s₀)
    {as : List (Act T)} (h : Run step (generateForMultiConsumer func) s₀ as s) :
    (∀ x ∈ s.received, func x.1 = some x.2) ∧
    (s.received.map Prod.fst).Nodup ∧
    (∀ c, ((s.receivedBy c).map Prod.fst).Pairwise (· < ·)) ∧
    s.chan.pushes.length ≤ s.received.length + s.receivers.length + n + 1 ∧
    as.length ≤ 6 * s.received.length + 12 * s.receivers.length + 3 * n + 15 ∧
    ((∀ a, generateForMultiConsumer func s a → step s a = none) →
      (∀ f ∈ s.senders, f = .left) ∧ (∀ f ∈ s.receivers, f = .left) ∧
      s.received.Perm (values func s.received.length) ∧
      ∀ c, s.ended c → func s.received.length = none) := by
  have hi := Consumers.reachable h0 ⟨as, h⟩
  have hpushes := hi.pushes_le
  have hpops := hi.pops_le
  have htwo : s.senders.length ≤ 2 := by
    rcases hi.two with hone | htwo
    · simp [hone]
    · exact htwo.le
  have hasked := asked_le s
  have hlen := run_length_le h0 h
  refine ⟨fun x => hi.received_offered, hi.received_nodup, hi.receivedBy_ordered, by omega, by omega, fun hstuck => ?_⟩
  obtain ⟨hs, hr⟩ := hi.all_left hstuck
  have htake := hi.received_take (hi.receivers.all_left hr).2
  have hle := htake.length_eq
  rw [List.length_take] at hle
  refine ⟨hs, hr, ?_, fun c => hi.ended_last hs hr⟩
  rw [← hi.accepted_take (by omega)]
  exact htake

theorem step_none_of_left (hs : ∀ f ∈ s.senders, f = .left) (hr : ∀ f ∈ s.receivers, f = .left) (a : Act T) :
    step s a = none := by
  cases hst : step s a with
  | none => rfl
  | some s' =>
    cases step_cases hst with
    | copySender hp | push hp | dropSender hp | handOver hp | pushReturn hp | closeSender hp | notifyReceiver hp
    | senderLeaves hp => cases hs _ (List.mem_of_getElem? hp)
    | copyReceiver hp | pop hp | dropReceiver hp | wakeSender hp | popReturn hp | closeReceiver hp | notifySender hp
    | receiverLeaves hp => cases hr _ (List.mem_of_getElem? hp)

/-- Two loops share two values; both come to the end. -/
def twoLoopsSchedule : List (Act Nat) :=
  [.copySender 0, .dropSender 0, .copyReceiver 0, .pop 1, .push 1 5, .sender 1, .sender 1, .push 1 6, .sender 1, .pop 0,
    .receiver 0, .receiver 1, .dropSender 1, .pop 0, .sender 1, .sender 1, .sender 1, .receiver 0, .dropReceiver 0,
    .pop 1, .receiver 1, .dropReceiver 1, .receiver 1, .receiver 1]

theorem generateForMultiConsumer_exact_two : ∃ s₀ s : State Nat, makeBufferedChannel 2 = some s₀ ∧
    Run step (generateForMultiConsumer fun i => if i < 2 then some (5 + i) else none) s₀ twoLoopsSchedule s ∧
    s.ended 0 ∧ s.ended 1 ∧ s.received = [(1, 6), (0, 5)] ∧
    s.received.Perm [(0, 5), (1, 6)] := by
  have h0 : makeBufferedChannel 2 = some ((makeBufferedChannel (T := Nat) 2).get rfl) := rfl
  have hrun := exec_get_run step (generateForMultiConsumer fun i => if i < 2 then some (5 + i) else none)
    ((makeBufferedChannel (T := Nat) 2).get rfl) twoLoopsSchedule (by decide)
  have hend := (generateForMultiConsumer_exact h0 hrun).2.2.2.2.2 fun a _ =>
    step_none_of_left (by decide) (by decide) a
  exact ⟨_, _, h0, hrun, by decide, by decide, by decide, hend.2.2.1⟩

end CoAwait.SharedChannel
