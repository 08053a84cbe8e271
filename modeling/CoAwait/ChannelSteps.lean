import CoAwait.BufferedChannel
import CoAwait.Table

/-!
# `BufferedChannel`: what a step can do

* `Channel.push_cases` … `Channel.setMaxQueueSize_cases`: the branches of the sections, with their guards.
* `Step`, `step_cases`: the branches of `step`, once for all invariants.
* `Grows`: what is done stays done.
-/

namespace CoAwait.BufferedChannel

open Runs Table

variable {T : Type}

/-! ## What a section does -/

namespace Channel

variable {α : Type} {c c' : Channel α}

theorem releaseSenders_eq (n : Nat) (notify ws : List Nat) :
    releaseSenders n notify ws = (notify ++ ws.take n, ws.drop n) := by
  fun_induction releaseSenders n notify ws with
  | case1 => simp
  | case2 => simp
  | case3 n notify w ws ih => simp [ih]

theorem setMaxQueueSize_cases {cnt : Nat} {notify : List Nat} (h : c.setMaxQueueSize cnt = some (c', notify)) :
    0 < cnt ∧ ∃ n, notify = c.mWaitingSender.take n ∧
      c' = { c with mWaitingSender := c.mWaitingSender.drop n, mMaxQueueSize := cnt } ∧
      (c.releases cnt = false → notify = []) := by
  unfold setMaxQueueSize at h
  split at h
  · cases h
  case isFalse hpos =>
    refine ⟨by omega, ?_⟩
    split at h
    case isTrue hlt =>
      simp only [releaseSenders_eq, List.nil_append, Option.some.injEq, Prod.mk.injEq] at h
      obtain ⟨rfl, rfl⟩ := h
      refine ⟨cnt - c.mMaxQueueSize, rfl, rfl, fun hr => ?_⟩
      simp only [releases, hlt, decide_true, Bool.true_and, Bool.and_eq_false_iff, decide_eq_false_iff_not,
        Bool.not_eq_false', List.isEmpty_iff] at hr
      rcases hr with hr | hr
      · rw [Nat.sub_eq_zero_of_le (by omega)]; rfl
      · simp [hr]
    case isFalse =>
      simp only [Option.some.injEq, Prod.mk.injEq] at h
      obtain ⟨rfl, rfl⟩ := h
      exact ⟨0, rfl, by simp, fun _ => rfl⟩

theorem closeSender_cases {notify : List Nat} (h : c.closeSender = some (c', notify)) :
    c.mSenderClosed = false ∧ c.mWaitingSender = [] ∧ notify = c.mWaitingReceiver ∧
      (c.mWaitingReceiver ≠ [] → c.mReadyData = []) ∧
      c' = { c with mSenderClosed := true, mWaitingReceiver := [] } := by
  unfold closeSender at h
  split at h
  · cases h
  case isFalse hopen =>
    simp only [Bool.or_eq_true, Bool.not_eq_true', not_or, Bool.not_eq_true, Bool.not_eq_false,
      List.isEmpty_iff] at hopen
    refine ⟨hopen.1, hopen.2, ?_⟩
    split at h
    case isTrue hw =>
      rw [List.isEmpty_iff] at hw
      simp only [Option.some.injEq, Prod.mk.injEq] at h
      obtain ⟨rfl, rfl⟩ := h
      exact ⟨hw.symm, fun hne => absurd hw hne, by simp [hw]⟩
    case isFalse =>
      split at h
      · cases h
      case isFalse hr =>
        simp only [Option.some.injEq, Prod.mk.injEq] at h
        obtain ⟨rfl, rfl⟩ := h
        exact ⟨rfl, fun _ => by simpa using hr, rfl⟩

theorem push_cases {self : Nat} {val : α} {receiver : Option Nat} {done : Option Bool}
    (h : c.push self val = some (c', receiver, done)) :
    c.mSenderClosed = false ∧
    ((∃ k rest, c.mWaitingReceiver = k :: rest ∧ c.mReceiverClosed = false ∧ receiver = some k ∧
        done = some true ∧ c' = { c with mWaitingReceiver := rest }) ∨
     (c.mWaitingReceiver = [] ∧ c.mReceiverClosed = true ∧ receiver = none ∧ done = some false ∧ c' = c) ∨
     (c.mWaitingReceiver = [] ∧ c.mReceiverClosed = false ∧ receiver = none ∧
        ∃ parked : Bool, parked = decide (c.mMaxQueueSize ≤ c.mReadyData.length + 1) ∧
          done = (if parked then none else some true) ∧
          c' = { c with mReadyData := c.mReadyData ++ [val]
                        mWaitingSender := c.mWaitingSender ++ if parked then [self] else [] })) := by
  unfold push at h
  split at h
  · cases h
  case isFalse hopen =>
    refine ⟨by simpa using hopen, ?_⟩
    split at h
    case h_1 k rest hw =>
      split at h
      · cases h
      case isFalse hr =>
        simp only [Option.some.injEq, Prod.mk.injEq] at h
        obtain ⟨rfl, rfl, rfl⟩ := h
        exact .inl ⟨k, rest, hw, by simpa using hr, rfl, rfl, rfl⟩
    case h_2 hw =>
      split at h
      case isTrue hr =>
        simp only [Option.some.injEq, Prod.mk.injEq] at h
        obtain ⟨rfl, rfl, rfl⟩ := h
        exact .inr (.inl ⟨hw, hr, rfl, rfl, rfl⟩)
      case isFalse hr =>
        refine .inr (.inr ⟨hw, by simpa using hr, ?_⟩)
        simp only [List.length_append, List.length_cons, List.length_nil] at h
        split at h
        case isTrue hfull =>
          simp only [Option.some.injEq, Prod.mk.injEq] at h
          obtain ⟨rfl, rfl, rfl⟩ := h
          exact ⟨rfl, true, by simpa using hfull, rfl, rfl⟩
        case isFalse hfull =>
          simp only [Option.some.injEq, Prod.mk.injEq] at h
          obtain ⟨rfl, rfl, rfl⟩ := h
          exact ⟨rfl, false, by simpa using hfull, rfl, by simp⟩

theorem closeReceiver_cases {notify : List Nat} (h : c.closeReceiver = some (c', notify)) :
    c.mReceiverClosed = false ∧ c.mWaitingReceiver = [] ∧ notify = c.mWaitingSender ∧
      c' = { c with mReceiverClosed := true, mWaitingSender := [] } := by
  unfold closeReceiver at h
  split at h
  · cases h
  case isFalse hopen =>
    simp only [Bool.or_eq_true, Bool.not_eq_true', not_or, Bool.not_eq_true, Bool.not_eq_false,
      List.isEmpty_iff] at hopen
    simp only [Option.some.injEq, Prod.mk.injEq] at h
    obtain ⟨rfl, rfl⟩ := h
    exact ⟨hopen.1, hopen.2, rfl, rfl⟩

theorem pop_cases {self : Nat} {sender : Option Nat} {done : Option (Option α)}
    (h : c.pop self = some (c', sender, done)) :
    c.mReceiverClosed = false ∧
    ((∃ val rest, c.mReadyData = val :: rest ∧ done = some (some val) ∧ sender = c.mWaitingSender.head? ∧
        c' = { c with mReadyData := rest, mWaitingSender := c.mWaitingSender.tail }) ∨
     (c.mReadyData = [] ∧ c.mSenderClosed = true ∧ c.mWaitingSender = [] ∧ done = some none ∧ sender = none ∧
        c' = c) ∨
     (c.mReadyData = [] ∧ c.mSenderClosed = false ∧ done = none ∧ sender = none ∧
        c' = { c with mWaitingReceiver := c.mWaitingReceiver ++ [self] })) := by
  unfold pop at h
  split at h
  · cases h
  case isFalse hopen =>
    refine ⟨by simpa using hopen, ?_⟩
    split at h
    case h_1 val rest hr =>
      refine .inl ⟨val, rest, hr, ?_⟩
      split at h
      case h_1 hw =>
        simp only [Option.some.injEq, Prod.mk.injEq] at h
        obtain ⟨rfl, rfl, rfl⟩ := h
        exact ⟨rfl, by simp [hw], by simp [hw]⟩
      case h_2 sender ws hw =>
        simp only [Option.some.injEq, Prod.mk.injEq] at h
        obtain ⟨rfl, rfl, rfl⟩ := h
        exact ⟨rfl, by simp [hw], by simp [hw]⟩
    case h_2 hr =>
      split at h
      case isTrue hc =>
        split at h
        case isTrue hw =>
          simp only [Option.some.injEq, Prod.mk.injEq] at h
          obtain ⟨rfl, rfl, rfl⟩ := h
          exact .inr (.inl ⟨hr, hc, by simpa using hw, rfl, rfl, rfl⟩)
        case isFalse => cases h
      case isFalse hc =>
        simp only [Option.some.injEq, Prod.mk.injEq] at h
        obtain ⟨rfl, rfl, rfl⟩ := h
        exact .inr (.inr ⟨hr, by simpa using hc, rfl, rfl, rfl⟩)

end Channel

theorem completePush_eq {s s' : State T} {i : Nat} {b : Bool} (h : s.completePush i b = some s') :
    ∃ q, s.pushes[i]? = some q ∧ q.self = none ∧
      s' = { s with pushes := s.pushes.set i { q with self := some b } } := by
  unfold State.completePush at h
  split at h
  case h_1 q hq =>
    split at h
    case isTrue hn =>
      exact ⟨q, hq, by simpa using hn, (Option.some.inj h).symm⟩
    case isFalse => cases h
  case h_2 => cases h

theorem completePop_eq {s s' : State T} {k : Nat} {r : Option (Nat × T)} (h : s.completePop k r = some s') :
    ∃ p, s.pops[k]? = some p ∧ p.self = none ∧
      s' = { s with pops := s.pops.set k { p with self := some r } } := by
  unfold State.completePop at h
  split at h
  case h_1 p hp =>
    split at h
    case isTrue hn =>
      exact ⟨p, hp, by simpa using hn, (Option.some.inj h).symm⟩
    case isFalse => cases h
  case h_2 => cases h
/-! ## The branches of `step` -/

inductive Step (s : State T) : Act T → State T → Prop
  | direct {val : T} {k : Nat} {rest : List Nat} (hopen : s.chan.mSenderClosed = false)
      (hr : s.chan.mReceiverClosed = false) (hw : s.chan.mWaitingReceiver = k :: rest) :
      Step s (.push val) { s with
        chan := { s.chan with mWaitingReceiver := rest }
        pushes := s.pushes ++ [⟨val, some true, some k, false⟩]
        accepted := s.accepted ++ [(s.pushes.length, val)]
        assigned := s.assigned ++ [(s.pushes.length, val)] }
  | refuse {val : T} (hopen : s.chan.mSenderClosed = false) (hr : s.chan.mReceiverClosed = true)
      (hw : s.chan.mWaitingReceiver = []) :
      Step s (.push val) { s with pushes := s.pushes ++ [⟨val, some false, none, false⟩] }
  | buffer {val : T} {parked : Bool} (hopen : s.chan.mSenderClosed = false)
      (hr : s.chan.mReceiverClosed = false) (hw : s.chan.mWaitingReceiver = [])
      (hp : parked = decide (s.chan.mMaxQueueSize ≤ s.chan.mReadyData.length + 1)) :
      Step s (.push val) { s with
        chan := { s.chan with
          mReadyData := s.chan.mReadyData ++ [(s.pushes.length, val)]
          mWaitingSender := s.chan.mWaitingSender ++ if parked then [s.pushes.length] else [] }
        pushes := s.pushes ++ [⟨val, if parked then none else some true, none, false⟩]
        accepted := s.accepted ++ [(s.pushes.length, val)] }
  | handOver {i k : Nat} {val : T} {done : Option Bool} {returned : Bool} {p : PopCall T}
      (hq : s.pushes[i]? = some ⟨val, done, some k, returned⟩) (hp : s.pops[k]? = some p) (hnone : p.self = none) :
      Step s (.handOver i) { s with
        pushes := s.pushes.set i ⟨val, done, none, returned⟩
        pops := s.pops.set k { p with self := some (some (i, val)) } }
  | pushReturn {i : Nat} {val : T} {b : Bool} (hq : s.pushes[i]? = some ⟨val, some b, none, false⟩) :
      Step s (.pushReturn i) { s with pushes := s.pushes.set i ⟨val, some b, none, true⟩ }
  | popValue {x : Nat × T} {rest : List (Nat × T)} (hopen : s.chan.mReceiverClosed = false)
      (hr : s.chan.mReadyData = x :: rest) :
      Step s .pop { s with
        chan := { s.chan with mReadyData := rest, mWaitingSender := s.chan.mWaitingSender.tail }
        pops := s.pops ++ [⟨some (some x), s.chan.mWaitingSender.head?, false⟩]
        assigned := s.assigned ++ [x] }
  | popEmpty (hopen : s.chan.mReceiverClosed = false) (hr : s.chan.mReadyData = [])
      (hc : s.chan.mSenderClosed = true) (hw : s.chan.mWaitingSender = []) :
      Step s .pop { s with pops := s.pops ++ [⟨some none, none, false⟩] }
  | popWait (hopen : s.chan.mReceiverClosed = false) (hr : s.chan.mReadyData = [])
      (ho : s.chan.mSenderClosed = false) :
      Step s .pop { s with
        chan := { s.chan with mWaitingReceiver := s.chan.mWaitingReceiver ++ [s.pops.length] }
        pops := s.pops ++ [⟨none, none, false⟩] }
  | wakeSender {k w : Nat} {r : Option (Option (Nat × T))} {returned : Bool} {q : PushCall T}
      (hp : s.pops[k]? = some ⟨r, some w, returned⟩) (hq : s.pushes[w]? = some q) (hnone : q.self = none) :
      Step s (.wakeSender k) { s with
        pops := s.pops.set k ⟨r, none, returned⟩
        pushes := s.pushes.set w { q with self := some true } }
  | popReturn {k : Nat} {r : Option (Nat × T)} (hp : s.pops[k]? = some ⟨some r, none, false⟩) :
      Step s (.popReturn k) { s with pops := s.pops.set k ⟨some r, none, true⟩ }
  | resize {cnt n : Nat} {notify : List Nat} (hpos : 0 < cnt) (hn : notify = s.chan.mWaitingSender.take n)
      (hquiet : s.chan.releases cnt = false → notify = []) :
      Step s (.setMaxQueueSize cnt) { s with
        chan := { s.chan with mWaitingSender := s.chan.mWaitingSender.drop n, mMaxQueueSize := cnt }
        resized := s.resized ++ [notify] }
  | notifyResized {r w : Nat} {rest : List Nat} {q : PushCall T} (hr : s.resized[r]? = some (w :: rest))
      (hq : s.pushes[w]? = some q) (hnone : q.self = none) :
      Step s (.notifyResized r) { s with
        resized := s.resized.set r rest
        pushes := s.pushes.set w { q with self := some false } }
  | closeSender (hopen : s.chan.mSenderClosed = false) (hw : s.chan.mWaitingSender = [])
      (hr : s.chan.mWaitingReceiver ≠ [] → s.chan.mReadyData = []) :
      Step s .closeSender { s with
        chan := { s.chan with mSenderClosed := true, mWaitingReceiver := [] }
        senderClosing := s.chan.mWaitingReceiver }
  | notifyReceiver {k : Nat} {rest : List Nat} {p : PopCall T} (hc : s.senderClosing = k :: rest)
      (hp : s.pops[k]? = some p) (hnone : p.self = none) :
      Step s .notifyReceiver { s with
        senderClosing := rest
        pops := s.pops.set k { p with self := some none } }
  | closeReceiver (hopen : s.chan.mReceiverClosed = false) (hw : s.chan.mWaitingReceiver = []) :
      Step s .closeReceiver { s with
        chan := { s.chan with mReceiverClosed := true, mWaitingSender := [] }
        receiverClosing := s.chan.mWaitingSender }
  | notifySender {w : Nat} {rest : List Nat} {q : PushCall T} (hc : s.receiverClosing = w :: rest)
      (hq : s.pushes[w]? = some q) (hnone : q.self = none) :
      Step s .notifySender { s with
        receiverClosing := rest
        pushes := s.pushes.set w { q with self := some false } }

theorem pushStep_cases {s s' : State T} {val : T} (hst : pushStep s val = some s') : Step s (.push val) s' := by
  simp only [pushStep] at hst
  split at hst
  · cases hst
  case h_2 chan receiver done hp =>
    obtain ⟨ho, ⟨k, rest, hw, hr, rfl, rfl, rfl⟩ | ⟨hw, hr, rfl, rfl, rfl⟩ | ⟨hw, hr, rfl, parked, hfull, rfl, rfl⟩⟩ :=
      Channel.push_cases hp
    · obtain rfl := Option.some.inj hst
      exact .direct ho hr hw
    · obtain rfl := Option.some.inj hst
      exact .refuse ho hr hw
    · have hbuffer := @Step.buffer _ s val parked ho hr hw hfull
      cases parked <;>
      · obtain rfl := Option.some.inj hst
        exact hbuffer

theorem popStep_cases {s s' : State T} (hst : popStep s = some s') : Step s .pop s' := by
  simp only [popStep] at hst
  split at hst
  · cases hst
  case h_2 chan sender done hp =>
    obtain ⟨hopen, ⟨x, rest, hr, rfl, rfl, rfl⟩ | ⟨hr, hc, hw, rfl, rfl, rfl⟩ | ⟨hr, ho, rfl, rfl, rfl⟩⟩ :=
      Channel.pop_cases hp
    · obtain rfl := Option.some.inj hst
      exact .popValue hopen hr
    · obtain rfl := Option.some.inj hst
      exact .popEmpty hopen hr hc hw
    · obtain rfl := Option.some.inj hst
      exact .popWait hopen hr ho

theorem step_cases {s s' : State T} {a : Act T} (hst : step s a = some s') : Step s a s' := by
  cases a with
  | push val => exact pushStep_cases hst
  | handOver i =>
    simp only [step] at hst
    split at hst
    case h_1 val done k returned hq =>
      obtain ⟨p, hp, hnone, rfl⟩ := completePop_eq hst
      exact .handOver hq hp hnone
    case h_2 => cases hst
  | pushReturn i =>
    simp only [step] at hst
    split at hst
    case h_1 val b hq =>
      obtain rfl := Option.some.inj hst
      exact .pushReturn hq
    case h_2 => cases hst
  | pop => exact popStep_cases hst
  | wakeSender k =>
    simp only [step] at hst
    split at hst
    case h_1 r w returned hp =>
      obtain ⟨q, hq, hnone, rfl⟩ := completePush_eq hst
      exact .wakeSender hp hq hnone
    case h_2 => cases hst
  | popReturn k =>
    simp only [step] at hst
    split at hst
    case h_1 r hp =>
      obtain rfl := Option.some.inj hst
      exact .popReturn hp
    case h_2 => cases hst
  | setMaxQueueSize cnt =>
    simp only [step] at hst
    split at hst
    · cases hst
    case h_2 chan notify hc =>
      obtain ⟨hpos, n, hn, rfl, hquiet⟩ := Channel.setMaxQueueSize_cases hc
      obtain rfl := Option.some.inj hst
      exact .resize hpos hn hquiet
  | notifyResized r =>
    simp only [step] at hst
    split at hst
    case h_1 w rest hr =>
      obtain ⟨q, hq, hnone, rfl⟩ := completePush_eq hst
      exact .notifyResized hr hq hnone
    case h_2 => cases hst
  | closeSender =>
    simp only [step] at hst
    split at hst
    · cases hst
    case h_2 chan notify hc =>
      obtain ⟨hopen, hw, rfl, hr, rfl⟩ := Channel.closeSender_cases hc
      obtain rfl := Option.some.inj hst
      exact .closeSender hopen hw hr
  | notifyReceiver =>
    simp only [step] at hst
    split at hst
    case h_1 k rest hc =>
      obtain ⟨p, hp, hnone, rfl⟩ := completePop_eq hst
      exact .notifyReceiver hc hp hnone
    case h_2 => cases hst
  | closeReceiver =>
    simp only [step] at hst
    split at hst
    · cases hst
    case h_2 chan notify hc =>
      obtain ⟨hopen, hw, rfl, rfl⟩ := Channel.closeReceiver_cases hc
      obtain rfl := Option.some.inj hst
      exact .closeReceiver hopen hw
  | notifySender =>
    simp only [step] at hst
    split at hst
    case h_1 w rest hc =>
      obtain ⟨q, hq, hnone, rfl⟩ := completePush_eq hst
      exact .notifySender hc hq hnone
    case h_2 => cases hst

/-! ## What is done stays done -/

/-- What the futures of the push calls are completed with. -/
def State.sent (s : State T) : Nat → Option Bool := look PushCall.self s.pushes

/-- What the futures of the pop calls are completed with. -/
def State.got (s : State T) : Nat → Option (Option (Nat × T)) := look PopCall.self s.pops

/-- The values of the push calls. -/
def State.val (s : State T) : Nat → Option T := look (fun q => some q.val) s.pushes

/-- One step from `s` to `s'`: completions, closings and the recorded elements are never taken back, and a new
push call is accepted or sees the receiver closed. -/
structure Grows (s s' : State T) : Prop where
  sent : ∀ i b, s.sent i = some b → s'.sent i = some b
  got : ∀ k r, s.got k = some r → s'.got k = some r
  accepted : s.accepted <+: s'.accepted
  assigned : s.assigned <+: s'.assigned
  senderClosed : s.chan.mSenderClosed = true → s'.chan.mSenderClosed = true
  receiverClosed : s.chan.mReceiverClosed = true → s'.chan.mReceiverClosed = true
  fate : ∀ i x, s'.val i = some x → s.val i = some x ∨ (i, x) ∈ s'.accepted ∨
    s'.sent i = some false ∧ s'.chan.mReceiverClosed = true

theorem Grows.refl (s : State T) : Grows s s :=
  ⟨fun _ _ h => h, fun _ _ h => h, List.prefix_rfl, List.prefix_rfl, id, id, fun _ _ h => .inl h⟩

theorem Grows.trans {s t u : State T} (h : Grows s t) (h' : Grows t u) : Grows s u where
  sent := fun i b hi => h'.sent i b (h.sent i b hi)
  got := fun k r hk => h'.got k r (h.got k r hk)
  accepted := h.accepted.trans h'.accepted
  assigned := h.assigned.trans h'.assigned
  senderClosed := fun hc => h'.senderClosed (h.senderClosed hc)
  receiverClosed := fun hc => h'.receiverClosed (h.receiverClosed hc)
  fate := by
    intro i x hx
    rcases h'.fate i x hx with hx | hx
    · rcases h.fate i x hx with hx | hx | ⟨hx, hc⟩
      · exact .inl hx
      · exact .inr (.inl (h'.accepted.subset hx))
      · exact .inr (.inr ⟨h'.sent i false hx, h'.receiverClosed hc⟩)
    · exact .inr hx

section
variable {s : State T}

/-- A step completes only what is not completed. -/
theorem sent_complete {w i : Nat} {b b' : Bool} {q : PushCall T} (hq : s.pushes[w]? = some q) (hnone : q.self = none)
    (hi : s.sent i = some b) : look PushCall.self (s.pushes.set w { q with self := some b' }) i = some b := by
  have hiw : i ≠ w := by
    rintro rfl
    rw [State.sent, look_of_get hq, hnone] at hi
    cases hi
  rw [look_set hq, Function.update_of_ne hiw]
  exact hi

theorem got_complete {k j : Nat} {r r' : Option (Nat × T)} {p : PopCall T} (hp : s.pops[k]? = some p)
    (hnone : p.self = none) (hj : s.got j = some r) :
    look PopCall.self (s.pops.set k { p with self := some r' }) j = some r := by
  have hjk : j ≠ k := by
    rintro rfl
    rw [State.got, look_of_get hp, hnone] at hj
    cases hj
  rw [look_set hp, Function.update_of_ne hjk]
  exact hj

theorem look_append_stable {ρ β : Type} {f : ρ → Option β} {rows : List ρ} {r : ρ} {i : Nat} {b : β}
    (hi : look f rows i = some b) : look f (rows ++ [r]) i = some b := by
  rw [look_append, Function.update_of_ne (Nat.ne_of_lt (lt_of_look hi))]
  exact hi

/-- The value of a call is that of an earlier one, or of the call just appended. -/
theorem val_append {q : PushCall T} {i : Nat} {x : T} (hi : look (fun q => some q.val) (s.pushes ++ [q]) i = some x) :
    s.val i = some x ∨ i = s.pushes.length ∧ q.val = x := by
  rcases of_look_append hi with ⟨hin, hq⟩ | hi
  · exact .inr ⟨hin, Option.some.inj hq⟩
  · exact .inl hi

end

theorem step_grows {s s' : State T} {a : Act T} (hst : step s a = some s') : Grows s s' := by
  have hrefl := Grows.refl s
  cases step_cases hst with
  | direct hopen hr hw =>
    refine ⟨fun _ _ => look_append_stable, fun _ _ h => h, by simp, by simp, id, id, fun i x hi => ?_⟩
    rcases val_append hi with hi | ⟨rfl, rfl⟩
    · exact .inl hi
    · exact .inr (.inl (by simp))
  | refuse hopen hr hw =>
    refine ⟨fun _ _ => look_append_stable, fun _ _ h => h, by simp, by simp, id, id, fun i x hi => ?_⟩
    rcases val_append hi with hi | ⟨rfl, rfl⟩
    · exact .inl hi
    · exact .inr (.inr ⟨by simp [State.sent, look_append], hr⟩)
  | buffer hopen hr hw hp =>
    refine ⟨fun _ _ => look_append_stable, fun _ _ h => h, by simp, by simp, id, id, fun i x hi => ?_⟩
    rcases val_append hi with hi | ⟨rfl, rfl⟩
    · exact .inl hi
    · exact .inr (.inl (by simp))
  | handOver hq hp hnone =>
    exact { hrefl with
      sent := fun i b hi => by simpa [State.sent, look_set_same hq] using hi
      got := fun j r hj => got_complete hp hnone hj
      fate := fun i x hi => .inl (by simpa [State.val, look_set_same hq] using hi) }
  | pushReturn hq =>
    exact { hrefl with
      sent := fun i b hi => by simpa [State.sent, look_set_same hq] using hi
      fate := fun i x hi => .inl (by simpa [State.val, look_set_same hq] using hi) }
  | popValue hopen hr => exact { hrefl with got := fun _ _ => look_append_stable, assigned := by simp }
  | popEmpty hopen hr hc hw => exact { hrefl with got := fun _ _ => look_append_stable }
  | popWait hopen hr ho => exact { hrefl with got := fun _ _ => look_append_stable }
  | wakeSender hp hq hnone =>
    exact { hrefl with
      sent := fun i b hi => sent_complete hq hnone hi
      got := fun j r hj => by simpa [State.got, look_set_same hp] using hj
      fate := fun i x hi => .inl (by simpa [State.val, look_set_same hq] using hi) }
  | popReturn hp => exact { hrefl with got := fun j r hj => by simpa [State.got, look_set_same hp] using hj }
  | resize hpos hn hquiet => exact { hrefl with }
  | notifyResized hr hq hnone =>
    exact { hrefl with
      sent := fun i b hi => sent_complete hq hnone hi
      fate := fun i x hi => .inl (by simpa [State.val, look_set_same hq] using hi) }
  | closeSender hopen hw hr => exact { hrefl with senderClosed := fun _ => rfl }
  | notifyReceiver hc hp hnone => exact { hrefl with got := fun j r hj => got_complete hp hnone hj }
  | closeReceiver hopen hw =>
    exact { hrefl with
      receiverClosed := fun _ => rfl
      fate := fun _ _ h => .inl h }
  | notifySender hc hq hnone =>
    exact { hrefl with
      sent := fun i b hi => sent_complete hq hnone hi
      fate := fun i x hi => .inl (by simpa [State.val, look_set_same hq] using hi) }

theorem sent_stable {ok : State T → Act T → Prop} {s t : State T} (h : Reachable step ok s t) {i : Nat} {b : Bool}
    (hi : s.sent i = some b) : t.sent i = some b :=
  h.invariant (I := fun t => t.sent i = some b) hi (fun _ _ _ hI _ hst => (step_grows hst).sent i b hI)

end CoAwait.BufferedChannel
