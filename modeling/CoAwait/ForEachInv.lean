import CoAwait.ChannelCalls
import CoAwait.ForEachSteps

/-!
# `forEach` on an input range: the caller

* `WorkerFrame`, `CallerFrame`: what the steps of one side leave alone on the other.
* `chan_reachable`: the channel runs as a `BufferedChannel`.
* `Feed`: the caller and its `push` calls.
-/

namespace CoAwait.ForEach

open Runs Table
open BufferedChannel (noRelease)

variable {T E : Type}

/-! ## Frames -/

/-- What a step of a worker leaves alone. -/
structure WorkerFrame (s s' : State T E) : Prop where
  pushes : BufferedChannel.PushesKept s.chan s'.chan
  senderClosed : s'.chan.chan.mSenderClosed = s.chan.chan.mSenderClosed
  senderClosing : s'.chan.senderClosing = s.chan.senderClosing
  elements : s'.elements = s.elements
  itr : s'.itr = s.itr
  receiver : s'.receiver = s.receiver
  caller : s'.caller = s.caller
  rangeError : s'.rangeError = s.rangeError
  length : s'.workers.length = s.workers.length

/-- What a step of the caller leaves alone. -/
structure CallerFrame (s s' : State T E) : Prop where
  pops : BufferedChannel.PopsKept s.chan s'.chan
  workers : s'.workers = s.workers ∨ s'.workers = s.workers ++ [.iterating] ∧ s'.chan = s.chan
  firstError : s'.firstError = s.firstError
  calls : s'.calls = s.calls
  thrown : s'.thrown = s.thrown

variable {c : Config T} {s s' : State T E} {w : Nat} {p : Worker T E}

/-- A step of the channel by a worker. -/
theorem WorkerFrame.channel {b : BufferedChannel.Act T} (hch : BufferedChannel.step s.chan b = some s'.chan)
    (hb : b.pushSide = false) (hclose : b ≠ .closeSender) (hnotify : b ≠ .notifyReceiver)
    (helements : s'.elements = s.elements) (hitr : s'.itr = s.itr)
    (hreceiver : s'.receiver = s.receiver) (hcaller : s'.caller = s.caller) (hrange : s'.rangeError = s.rangeError)
    (hlen : s'.workers.length = s.workers.length) : WorkerFrame s s' where
  pushes := BufferedChannel.step_pushesKept hch hb
  senderClosed := BufferedChannel.senderClosed_kept hch hclose
  senderClosing := BufferedChannel.senderClosing_kept hch hclose hnotify
  elements := helements
  itr := hitr
  receiver := hreceiver
  caller := hcaller
  rangeError := hrange
  length := hlen

theorem WorkerStep.frame {a : WorkerAct E} (h : WorkerStep s w p a s') : WorkerFrame s s' := by
  cases h with
  | pop hch | wakeSender hch | popValue hp hgot hch | popEnd hp hgot hch | closeReceiver hch | notifySender hch =>
    refine .channel hch rfl (by simp) (by simp) rfl rfl rfl rfl rfl ?_
    simp [State.place]
  | _ =>
    refine ⟨.refl _, rfl, rfl, rfl, rfl, rfl, rfl, rfl, ?_⟩
    simp [State.place, State.yield]

theorem CallerStep.frame {a : CallerAct E} (h : CallerStep c s a s') : CallerFrame s s' := by
  cases h with
  | create hc hlen => exact ⟨.refl _, .inr ⟨rfl, rfl⟩, rfl, rfl, rfl⟩
  | dropLast hc hlen hnone hch => exact ⟨BufferedChannel.step_popsKept hch rfl, .inl rfl, rfl, rfl, rfl⟩
  | push hc hitm hch => exact ⟨BufferedChannel.step_popsKept hch rfl, .inl rfl, rfl, rfl, rfl⟩
  | handOver hc hk hch => exact ⟨BufferedChannel.step_popsKept hch rfl, .inl rfl, rfl, rfl, rfl⟩
  | pushReturn hc hch => exact ⟨BufferedChannel.step_popsKept hch rfl, .inl rfl, rfl, rfl, rfl⟩
  | closeSender hc hch => exact ⟨BufferedChannel.step_popsKept hch rfl, .inl rfl, rfl, rfl, rfl⟩
  | notifyReceiver hc hk hch => exact ⟨BufferedChannel.step_popsKept hch rfl, .inl rfl, rfl, rfl, rfl⟩
  | _ => exact ⟨.refl _, .inl rfl, rfl, rfl, rfl⟩

/-! ## The channel -/

/-- A step is a step of the channel or leaves it alone. -/
theorem step_chan {a : Act E} (hst : step c s a = some s') :
    s'.chan = s.chan ∨ ∃ b, BufferedChannel.step s.chan b = some s'.chan ∧ noRelease s.chan b := by
  cases step_cases hst with
  | caller hfree h =>
    cases h with
    | dropLast hc hlen hnone hch => exact .inr ⟨_, hch, trivial⟩
    | push hc hitm hch => exact .inr ⟨_, hch, trivial⟩
    | handOver hc hk hch => exact .inr ⟨_, hch, trivial⟩
    | pushReturn hc hch => exact .inr ⟨_, hch, trivial⟩
    | closeSender hc hch => exact .inr ⟨_, hch, trivial⟩
    | notifyReceiver hc hk hch => exact .inr ⟨_, hch, trivial⟩
    | _ => exact .inl rfl
  | worker hw h =>
    cases h with
    | pop hch => exact .inr ⟨_, hch, trivial⟩
    | wakeSender hch => exact .inr ⟨_, hch, trivial⟩
    | popValue hp hgot hch => exact .inr ⟨_, hch, trivial⟩
    | popEnd hp hgot hch => exact .inr ⟨_, hch, trivial⟩
    | closeReceiver hch => exact .inr ⟨_, hch, trivial⟩
    | notifySender hch => exact .inr ⟨_, hch, trivial⟩
    | _ => exact .inl rfl

theorem init_chan (c : Config T) :
    BufferedChannel.step BufferedChannel.init (.setMaxQueueSize c.maxParallelity) = some (c.init : State T E).chan :=
  (Option.some_get _).symm

/-- The channel that `makeBufferedChannel` returns. -/
structure Fresh (chan : BufferedChannel.State T) : Prop where
  pushes : chan.pushes = []
  pops : chan.pops = []
  senderOpen : chan.chan.mSenderClosed = false
  receiverOpen : chan.chan.mReceiverClosed = false
  senderClosing : chan.senderClosing = []
  receiverClosing : chan.receiverClosing = []

theorem init_fresh (c : Config T) : Fresh (c.init : State T E).chan := by
  have hch := BufferedChannel.step_cases (init_chan (E := E) c)
  generalize (c.init : State T E).chan = chan at hch
  cases hch with
  | resize => exact ⟨rfl, rfl, rfl, rfl, rfl, rfl⟩

theorem step_grows {a : Act E} (hst : step c s a = some s') : BufferedChannel.Grows s.chan s'.chan := by
  rcases step_chan hst with heq | ⟨b, hch, -⟩
  · rw [heq]
    exact .refl _
  · exact BufferedChannel.step_grows hch

theorem reachable_grows {ok : State T E → Act E → Prop} (h : Reachable (step c) ok s s') :
    BufferedChannel.Grows s.chan s'.chan :=
  h.invariant (I := fun t => BufferedChannel.Grows s.chan t.chan) (.refl _) fun _ _ _ hI _ hst =>
    hI.trans (step_grows hst)

/-- The channel runs as a `BufferedChannel`. -/
theorem chan_reachable {ok : State T E → Act E → Prop} (h : Reachable (step c) ok c.init s) :
    Reachable BufferedChannel.step noRelease BufferedChannel.init s.chan := by
  refine h.invariant (I := fun s => Reachable BufferedChannel.step noRelease BufferedChannel.init s.chan) ?_ ?_
  · refine Reachable.tail (.refl _) ?_ (init_chan c)
    simp [noRelease, BufferedChannel.Channel.releases, BufferedChannel.init]
  · intro s a s' hI _ hst
    rcases step_chan hst with heq | ⟨b, hch, hok⟩
    · rw [heq]
      exact hI
    · exact hI.tail hok hch

/-! ## The caller -/

/-- The `Sender` is gone. -/
def Caller.closed : Caller E → Bool
  | notifying | tail _ => true
  | _ => false

structure Feed (c : Config T) (s : State T E) : Prop where
  elements : s.elements = c.range
  itr : s.itr ≤ s.elements.length
  range : c.range = s.chan.vals ++ s.todo
  current : ∀ i, s.chan.pushOpen i ↔ s.caller = .pushing i
  handing : ∀ i, s.chan.handing i ≠ none → s.caller = .pushing i
  closed : s.chan.chan.mSenderClosed = s.caller.closed
  notify : s.chan.senderClosing ≠ [] → s.caller = .notifying
  receiver : s.receiver = true ↔ s.caller = .creating
  size : s.workers.length ≤ c.maxParallelity
  full : s.caller ≠ .creating → s.workers.length = c.maxParallelity

theorem feed_init (c : Config T) : Feed c (c.init : State T E) := by
  have hfresh := init_fresh (E := E) c
  exact {
    elements := rfl
    itr := Nat.zero_le _
    range := by rw [BufferedChannel.State.vals, hfresh.pushes]; rfl
    current := by
      intro i
      constructor
      · intro h
        rw [BufferedChannel.State.pushOpen, hfresh.pushes] at h
        exact absurd h.1 (Nat.not_lt_zero i)
      · intro h
        cases h
    handing := fun i h => by simp [BufferedChannel.State.handing, hfresh.pushes, look] at h
    closed := hfresh.senderOpen
    notify := fun h => absurd hfresh.senderClosing h
    receiver := by simp [Config.init]
    size := Nat.zero_le _
    full := fun h => absurd rfl h }

theorem WorkerFrame.feed (h : Feed c s) (hf : WorkerFrame s s') : Feed c s' where
  elements := hf.elements.trans h.elements
  itr := by rw [hf.itr, hf.elements]; exact h.itr
  range := by rw [hf.pushes.vals, State.todo, hf.elements, hf.itr, h.range]; rfl
  current := fun i => by rw [hf.pushes.open_, hf.caller, h.current]
  handing := by
    intro i hi
    rw [hf.pushes.handing] at hi
    rw [hf.caller, h.handing i hi]
  closed := by rw [hf.senderClosed, hf.caller, h.closed]
  notify := by rw [hf.senderClosing, hf.caller]; exact h.notify
  receiver := by rw [hf.receiver, hf.caller, h.receiver]
  size := by rw [hf.length]; exact h.size
  full := by rw [hf.caller, hf.length]; exact h.full

/-- The caller moves on outside of `push`. -/
theorem Feed.move (h : Feed c s) {caller : Caller E} (hold : ∀ i, s.caller ≠ .pushing i)
    (hnew : ∀ i, caller ≠ .pushing i) (hcreate : s.caller ≠ .creating) (hnext : caller ≠ .creating)
    (hclosed : caller.closed = s.caller.closed) (hnotify : s.chan.senderClosing = [] ∨ caller = .notifying) :
    Feed c { s with caller := caller } where
  elements := h.elements
  itr := h.itr
  range := h.range
  current := fun i => ⟨fun hi => absurd ((h.current i).1 hi) (hold i), fun hi => absurd hi (hnew i)⟩
  handing := fun i hi => absurd (h.handing i hi) (hold i)
  closed := h.closed.trans hclosed.symm
  notify := fun hn => hnotify.resolve_left hn
  receiver := ⟨fun hr => absurd (h.receiver.1 hr) hcreate, fun hr => absurd hr hnext⟩
  size := h.size
  full := fun _ => h.full hcreate

theorem Feed.quiet (h : Feed c s) (hc : s.caller ≠ .notifying) : s.chan.senderClosing = [] := by
  by_contra hn
  exact hc (h.notify hn)

/-- The channel moves, and no push call does. -/
theorem Feed.chan (h : Feed c s) {chan : BufferedChannel.State T} (hk : BufferedChannel.PushesKept s.chan chan)
    (hclosed : chan.chan.mSenderClosed = s.chan.chan.mSenderClosed)
    (hnotify : chan.senderClosing ≠ [] → s.caller = .notifying) : Feed c { s with chan := chan } where
  elements := h.elements
  itr := h.itr
  range := by
    rw [hk.vals]
    exact h.range
  current := by
    intro i
    rw [hk.open_]
    exact h.current i
  handing := by
    intro i hi
    rw [hk.handing] at hi
    exact h.handing i hi
  closed := hclosed.trans h.closed
  notify := hnotify
  receiver := h.receiver
  size := h.size
  full := h.full

/-- All workers have been created. -/
theorem Feed.dropReceiver (h : Feed c s) (hc : s.caller = .creating) (hlen : s.workers.length = c.maxParallelity) :
    Feed c { s with
      receiver := false
      caller := .iterating } where
  elements := h.elements
  itr := h.itr
  range := h.range
  current := fun i => ⟨fun hi => by simp [(h.current i).1 hi] at hc, fun hi => by cases hi⟩
  handing := fun i hi => by simp [h.handing i hi] at hc
  closed := by simp [h.closed, hc, Caller.closed]
  notify := fun hn => by simp [h.notify hn] at hc
  receiver := by simp
  size := h.size
  full := fun _ => hlen

theorem Feed.push (h : Feed c s) {itm : T} {chan : BufferedChannel.State T} (hc : s.caller = .iterating)
    (hitm : s.elements[s.itr]? = some itm) (hch : BufferedChannel.step s.chan (.push itm) = some chan) :
    Feed c { s with
      chan := chan
      itr := s.itr + 1
      caller := .pushing s.chan.pushes.length } where
  elements := h.elements
  itr := (List.getElem?_eq_some_iff.1 hitm).1
  range := by
    rw [(BufferedChannel.push_open (j := 0) hch).2.1, h.range, State.todo_cons hitm, List.append_assoc]
    rfl
  current := by
    intro i
    have hopen : ¬ s.chan.pushOpen i := fun hi => by simp [(h.current i).1 hi] at hc
    rw [(BufferedChannel.push_open hch).1]
    simp [hopen, eq_comm]
  handing := by
    intro i hi
    rcases (BufferedChannel.push_open hch).2.2 hi with rfl | hi
    · rfl
    · simp [h.handing i hi] at hc
  closed := by
    rw [BufferedChannel.senderClosed_kept hch (by simp), h.closed, hc]
    rfl
  notify := by
    intro hn
    rw [BufferedChannel.senderClosing_kept hch (by simp) (by simp)] at hn
    simp [h.notify hn] at hc
  receiver := by simp [h.receiver, hc]
  size := h.size
  full := fun _ => h.full (by simp [hc])

theorem Feed.handOver (h : Feed c s) {i : Nat} {chan : BufferedChannel.State T} (hc : s.caller = .pushing i)
    (hch : BufferedChannel.step s.chan (.handOver i) = some chan) : Feed c { s with chan := chan } where
  elements := h.elements
  itr := h.itr
  range := by
    rw [(BufferedChannel.handOver_open (j := 0) hch).2.1]
    exact h.range
  current := by
    intro j
    rw [(BufferedChannel.handOver_open hch).1]
    exact h.current j
  handing := by
    intro j hj
    rw [(BufferedChannel.handOver_open (j := 0) hch).2.2] at hj
    by_cases hji : j = i
    · rw [hji]
      exact hc
    · rw [Function.update_of_ne hji] at hj
      exact h.handing j hj
  closed := (BufferedChannel.senderClosed_kept hch (by simp)).trans h.closed
  notify := by
    rw [BufferedChannel.senderClosing_kept hch (by simp) (by simp)]
    exact h.notify
  receiver := h.receiver
  size := h.size
  full := h.full

theorem Feed.pushReturn (h : Feed c s) {i : Nat} {chan : BufferedChannel.State T} {caller : Caller E}
    (hc : s.caller = .pushing i) (hch : BufferedChannel.step s.chan (.pushReturn i) = some chan)
    (hnext : caller = .iterating ∨ caller = .refused) :
    Feed c { s with
      chan := chan
      caller := caller } where
  elements := h.elements
  itr := h.itr
  range := by
    rw [(BufferedChannel.pushReturn_open (j := 0) hch).2.1]
    exact h.range
  current := by
    intro j
    rw [(BufferedChannel.pushReturn_open hch).1, h.current, hc]
    constructor
    · rintro ⟨hj, hne⟩
      cases hj
      exact absurd rfl hne
    · intro hj
      rcases hnext with rfl | rfl <;> cases hj
  handing := by
    intro j hj
    obtain ⟨-, -, hhand, hnone, -⟩ := BufferedChannel.pushReturn_open (j := 0) hch
    rw [hhand] at hj
    have hji := h.handing j hj
    rw [hc] at hji
    cases hji
    exact absurd hnone hj
  closed := by
    rw [BufferedChannel.senderClosed_kept hch (by simp), h.closed, hc]
    rcases hnext with rfl | rfl <;> rfl
  notify := by
    intro hn
    rw [BufferedChannel.senderClosing_kept hch (by simp) (by simp)] at hn
    simp [h.notify hn] at hc
  receiver := by
    rcases hnext with rfl | rfl <;> simp [h.receiver, hc]
  size := h.size
  full := fun _ => h.full (by simp [hc])

theorem Feed.closeSender (h : Feed c s) {chan : BufferedChannel.State T} (hc : s.caller = .leaving)
    (hch : BufferedChannel.step s.chan .closeSender = some chan) :
    Feed c { s with
      chan := chan
      caller := .notifying } := by
  have hk := BufferedChannel.step_pushesKept hch rfl
  exact {
    elements := h.elements
    itr := h.itr
    range := by
      rw [hk.vals]
      exact h.range
    current := by
      intro i
      rw [hk.open_]
      exact ⟨fun hi => by simp [(h.current i).1 hi] at hc, fun hi => by cases hi⟩
    handing := by
      intro i hi
      rw [hk.handing] at hi
      simp [h.handing i hi] at hc
    closed := by
      rw [BufferedChannel.closeSender_closed hch]
      rfl
    notify := fun _ => rfl
    receiver := by simp [h.receiver, hc]
    size := h.size
    full := fun _ => h.full (by simp [hc]) }

theorem CallerStep.feed {a : CallerAct E} (h : Feed c s) (hst : CallerStep c s a s') : Feed c s' := by
  cases hst with
  | create hc hlen =>
    exact { h with
      size := by
        rw [List.length_append]
        exact hlen
      full := fun hne => absurd hc hne }
  | dropReceiver hc hlen hany => exact h.dropReceiver hc hlen
  | dropLast hc hlen hnone hch =>
    have hclosing := BufferedChannel.senderClosing_kept hch (by simp) (by simp)
    have hchan := h.chan (BufferedChannel.step_pushesKept hch rfl) (BufferedChannel.senderClosed_kept hch (by simp))
      (by rw [hclosing]; exact h.notify)
    exact hchan.dropReceiver hc hlen
  | push hc hitm hch => exact h.push hc hitm hch
  | rangeEnd hc hend =>
    exact h.move (by simp [hc]) (by simp) (by simp [hc]) (by simp) (by rw [hc]; rfl) (.inl (h.quiet (by simp [hc])))
  | rangeThrow hc =>
    have hmove : Feed c { s with caller := .leaving } :=
      h.move (by simp [hc]) (by simp) (by simp [hc]) (by simp) (by rw [hc]; rfl) (.inl (h.quiet (by simp [hc])))
    exact { hmove with }
  | handOver hc hk hch => exact { h.handOver hc hch with }
  | pushReturn hc hch =>
    refine h.pushReturn hc hch ?_
    split
    · exact .inl rfl
    · exact .inr rfl
  | breakLoop hc herr =>
    exact h.move (by simp [hc]) (by simp) (by simp [hc]) (by simp) (by rw [hc]; rfl) (.inl (h.quiet (by simp [hc])))
  | closeSender hc hch => exact h.closeSender hc hch
  | notifyReceiver hc hk hch =>
    have hchan := h.chan (BufferedChannel.step_pushesKept hch rfl) (BufferedChannel.senderClosed_kept hch (by simp))
      fun _ => hc
    exact { hchan with }
  | scopeLeft hc hdone hok =>
    exact h.move (by simp [hc]) (by simp) (by simp [hc]) (by simp) (by rw [hc]; rfl) (.inl hdone)
  | unwind hc hdone herr =>
    exact h.move (by simp [hc]) (by simp) (by simp [hc]) (by simp) (by rw [hc]; rfl) (.inl hdone)
  | tail hc ht =>
    exact h.move (by simp [hc]) (by simp) (by simp [hc]) (by simp) (by rw [hc]; rfl) (.inl (h.quiet (by simp [hc])))

end CoAwait.ForEach
