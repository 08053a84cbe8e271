import CoAwait.ChannelTruth
import CoAwait.ForEach

/-!
# `forEach` on an input range: the steps

* `Step`: the branches of `step`, each with what it reads and the state it leads to.
* `callerStep_cases` … `step_cases`: `step` takes one of them.
-/

namespace CoAwait.ForEach

open Runs Table

variable {T E : Type}

/-! ## The branches of `step` -/

inductive CallerStep (c : Config T) (s : State T E) : CallerAct E → State T E → Prop
  | create (hc : s.caller = .creating) (hlen : s.workers.length < c.maxParallelity) :
      CallerStep c s .create { s with
        workers := s.workers ++ [.iterating]
        inlined := some s.workers.length }
  | dropReceiver (hc : s.caller = .creating) (hlen : s.workers.length = c.maxParallelity)
      (hany : ∃ p ∈ s.workers, p.holds = true) :
      CallerStep c s .dropReceiver { s with
        receiver := false
        caller := .iterating }
  | dropLast {chan : BufferedChannel.State T} (hc : s.caller = .creating) (hlen : s.workers.length = c.maxParallelity)
      (hnone : ∀ p ∈ s.workers, p.holds = false) (hch : BufferedChannel.step s.chan .closeReceiver = some chan) :
      CallerStep c s .dropReceiver { s with
        chan := chan
        receiver := false
        caller := .iterating }
  | push {itm : T} {chan : BufferedChannel.State T} (hc : s.caller = .iterating)
      (hitm : s.elements[s.itr]? = some itm) (hch : BufferedChannel.step s.chan (.push itm) = some chan) :
      CallerStep c s .push { s with
        chan := chan
        itr := s.itr + 1
        caller := .pushing s.chan.pushes.length }
  | rangeEnd (hc : s.caller = .iterating) (hend : s.itr = s.elements.length) :
      CallerStep c s .rangeEnd { s with caller := .leaving }
  | rangeThrow {e : E} (hc : s.caller = .iterating) :
      CallerStep c s (.rangeThrow e) { s with
        rangeError := some e
        caller := .leaving }
  | handOver {i k : Nat} {chan : BufferedChannel.State T} (hc : s.caller = .pushing i) (hk : s.chan.handing i = some k)
      (hch : BufferedChannel.step s.chan (.handOver i) = some chan) :
      CallerStep c s .handOver { s with
        chan := chan
        inlined := s.wake c.plain k }
  | pushReturn {i : Nat} {chan : BufferedChannel.State T} (hc : s.caller = .pushing i)
      (hch : BufferedChannel.step s.chan (.pushReturn i) = some chan) :
      CallerStep c s .pushReturn { s with
        chan := chan
        caller := if s.chan.sent i = some true then .iterating else .refused }
  | breakLoop (hc : s.caller = .refused) (herr : s.firstError ≠ none) :
      CallerStep c s .breakLoop { s with caller := .leaving }
  | closeSender {chan : BufferedChannel.State T} (hc : s.caller = .leaving)
      (hch : BufferedChannel.step s.chan .closeSender = some chan) :
      CallerStep c s .closeSender { s with
        chan := chan
        caller := .notifying }
  | notifyReceiver {k : Nat} {rest : List Nat} {chan : BufferedChannel.State T} (hc : s.caller = .notifying)
      (hk : s.chan.senderClosing = k :: rest) (hch : BufferedChannel.step s.chan .notifyReceiver = some chan) :
      CallerStep c s .notifyReceiver { s with
        chan := chan
        inlined := s.wake c.plain k }
  | scopeLeft (hc : s.caller = .notifying) (hdone : s.chan.senderClosing = []) (hok : s.rangeError = none) :
      CallerStep c s .scopeLeft { s with caller := .tail (.awaiting 0) }
  | unwind {e : E} (hc : s.caller = .notifying) (hdone : s.chan.senderClosing = []) (herr : s.rangeError = some e) :
      CallerStep c s .scopeLeft { s with caller := .tail (.destroying 0 (some e)) }
  | tail {t t' : Tail E} (hc : s.caller = .tail t)
      (ht : t.next (s.workers.map Worker.isFinished) s.firstError = some t') :
      CallerStep c s .tail { s with caller := .tail t' }

inductive WorkerStep (s : State T E) (w : Nat) : Worker T E → WorkerAct E → State T E → Prop
  | pop {chan : BufferedChannel.State T} (hch : BufferedChannel.step s.chan .pop = some chan) :
      WorkerStep s w .iterating .pop { s.place w (.popping s.chan.pops.length) with chan := chan }
  | wakeSender {k : Nat} {chan : BufferedChannel.State T}
      (hch : BufferedChannel.step s.chan (.wakeSender k) = some chan) :
      WorkerStep s w (.popping k) .wakeSender { s with chan := chan }
  | suspend {k : Nat} (hgot : s.chan.got k = none) (hwake : s.chan.waking k = none) :
      WorkerStep s w (.popping k) .suspend (s.yield w (.parked k))
  | resume {k : Nat} (hgot : s.chan.got k ≠ none) : WorkerStep s w (.parked k) .resume (s.place w (.resumed k))
  | popValue {p : Worker T E} {k : Nat} {x : Nat × T} {chan : BufferedChannel.State T}
      (hp : p = .popping k ∨ p = .resumed k) (hgot : s.chan.got k = some (some x))
      (hch : BufferedChannel.step s.chan (.popReturn k) = some chan) :
      WorkerStep s w p .popReturn { s.place w (.running x) with
        chan := chan
        calls := s.calls ++ [x] }
  | popEnd {p : Worker T E} {k : Nat} {chan : BufferedChannel.State T} (hp : p = .popping k ∨ p = .resumed k)
      (hgot : s.chan.got k = some none) (hch : BufferedChannel.step s.chan (.popReturn k) = some chan) :
      WorkerStep s w p .popReturn { s.place w .leaving with chan := chan }
  | funcSuspend {x : Nat × T} : WorkerStep s w (.running x) .funcSuspend (s.yield w (.suspended x))
  | funcResume {x : Nat × T} : WorkerStep s w (.suspended x) .funcResume (s.place w (.running x))
  | funcReturn {x : Nat × T} : WorkerStep s w (.running x) .funcReturn (s.place w .iterating)
  | funcThrow {x : Nat × T} {e : E} :
      WorkerStep s w (.running x) (.funcThrow e) { s.place w (.failed e) with thrown := s.thrown ++ [e] }
  | handleError {e : E} :
      WorkerStep s w (.failed e) .handleError { s.place w .leaving with
        firstError := if s.firstError.isSome then s.firstError else some e }
  | release (hother : s.receiver = true ∨ ∃ p ∈ s.workers.set w .released, p.holds = true) :
      WorkerStep s w .leaving .release (s.place w .released)
  | releaseLast (hr : s.receiver = false) (hnone : ∀ p ∈ s.workers.set w .released, p.holds = false) :
      WorkerStep s w .leaving .release (s.place w .closing)
  | closeReceiver {chan : BufferedChannel.State T} (hch : BufferedChannel.step s.chan .closeReceiver = some chan) :
      WorkerStep s w .closing .closeReceiver { s.place w .notifying with chan := chan }
  | notifySender {chan : BufferedChannel.State T} (hch : BufferedChannel.step s.chan .notifySender = some chan) :
      WorkerStep s w .notifying .notifySender { s with chan := chan }
  | finishLast (hdone : s.chan.receiverClosing = []) : WorkerStep s w .notifying .finish (s.yield w .finished)
  | finish : WorkerStep s w .released .finish (s.yield w .finished)

inductive Step (c : Config T) (s : State T E) : Act E → State T E → Prop
  | caller {a : CallerAct E} {s' : State T E} (hfree : s.inlined = none) (hst : CallerStep c s a s') :
      Step c s (.caller a) s'
  | worker {w : Nat} {p : Worker T E} {a : WorkerAct E} {s' : State T E} (hw : s.workers[w]? = some p)
      (hst : WorkerStep s w p a s') : Step c s (.worker w a) s'

variable {c : Config T} {s s' : State T E}

theorem callerStep_cases {a : CallerAct E} (h : callerStep c s a = some s') : CallerStep c s a s' := by
  unfold callerStep at h
  split at h
  case h_1 hc =>
    split at h
    · obtain rfl := Option.some.inj h
      exact .create hc ‹_›
    · cases h
  case h_2 hc =>
    split at h
    case isTrue hlen =>
      split at h
      case isTrue hany =>
        obtain rfl := Option.some.inj h
        exact .dropReceiver hc hlen (List.any_eq_true.1 hany)
      case isFalse hany =>
        obtain ⟨chan, hch, rfl⟩ := Option.map_eq_some_iff.1 h
        exact .dropLast hc hlen (fun p hp => by simpa using fun hh => hany (List.any_eq_true.2 ⟨p, hp, hh⟩)) hch
    case isFalse => cases h
  case h_3 hc =>
    split at h
    case h_1 itm hitm =>
      obtain ⟨chan, hch, rfl⟩ := Option.map_eq_some_iff.1 h
      exact .push hc hitm hch
    case h_2 => cases h
  case h_4 hc =>
    split at h
    case isTrue hend =>
      obtain rfl := Option.some.inj h
      exact .rangeEnd hc hend
    case isFalse => cases h
  case h_5 e hc =>
    obtain rfl := Option.some.inj h
    exact .rangeThrow hc
  case h_6 i hc =>
    split at h
    case h_1 k hk =>
      obtain ⟨chan, hch, rfl⟩ := Option.map_eq_some_iff.1 h
      exact .handOver hc hk hch
    case h_2 => cases h
  case h_7 i hc =>
    obtain ⟨chan, hch, rfl⟩ := Option.map_eq_some_iff.1 h
    exact .pushReturn hc hch
  case h_8 hc =>
    split at h
    case isTrue herr =>
      obtain rfl := Option.some.inj h
      exact .breakLoop hc (Option.isSome_iff_ne_none.1 herr)
    case isFalse => cases h
  case h_9 hc =>
    obtain ⟨chan, hch, rfl⟩ := Option.map_eq_some_iff.1 h
    exact .closeSender hc hch
  case h_10 hc =>
    split at h
    case h_1 k rest hk =>
      obtain ⟨chan, hch, rfl⟩ := Option.map_eq_some_iff.1 h
      exact .notifyReceiver hc hk hch
    case h_2 => cases h
  case h_11 hc =>
    split at h
    case isTrue hdone =>
      split at h
      case h_1 e herr =>
        obtain rfl := Option.some.inj h
        exact .unwind hc (List.isEmpty_iff.1 hdone) herr
      case h_2 hok =>
        obtain rfl := Option.some.inj h
        exact .scopeLeft hc (List.isEmpty_iff.1 hdone) hok
    case isFalse => cases h
  case h_12 t hc =>
    obtain ⟨t', ht, rfl⟩ := Option.map_eq_some_iff.1 h
    exact .tail hc ht
  case h_13 => cases h

theorem popReturn_cases {w k : Nat} {p : Worker T E} (hp : p = .popping k ∨ p = .resumed k)
    (h : popReturn s w k = some s') : WorkerStep s w p .popReturn s' := by
  unfold popReturn at h
  split at h
  case h_1 x chan hgot hch =>
    obtain rfl := Option.some.inj h
    exact .popValue hp hgot hch
  case h_2 chan hgot hch =>
    obtain rfl := Option.some.inj h
    exact .popEnd hp hgot hch
  case h_3 => cases h

theorem workerStep_cases {w : Nat} {p : Worker T E} {a : WorkerAct E} (h : workerStep s w p a = some s') :
    WorkerStep s w p a s' := by
  unfold workerStep at h
  split at h
  case h_1 =>
    obtain ⟨chan, hch, rfl⟩ := Option.map_eq_some_iff.1 h
    exact .pop hch
  case h_2 =>
    obtain ⟨chan, hch, rfl⟩ := Option.map_eq_some_iff.1 h
    exact .wakeSender hch
  case h_3 =>
    split at h
    case isTrue hg =>
      obtain rfl := Option.some.inj h
      simp only [Bool.and_eq_true, Option.isNone_iff_eq_none] at hg
      exact .suspend hg.1 hg.2
    case isFalse => cases h
  case h_4 =>
    split at h
    case isTrue hg =>
      obtain rfl := Option.some.inj h
      exact .resume (Option.isSome_iff_ne_none.1 hg)
    case isFalse => cases h
  case h_5 => exact popReturn_cases (.inl rfl) h
  case h_6 => exact popReturn_cases (.inr rfl) h
  case h_7 =>
    obtain rfl := Option.some.inj h
    exact .funcSuspend
  case h_8 =>
    obtain rfl := Option.some.inj h
    exact .funcResume
  case h_9 =>
    obtain rfl := Option.some.inj h
    exact .funcReturn
  case h_10 =>
    obtain rfl := Option.some.inj h
    exact .funcThrow
  case h_11 =>
    obtain rfl := Option.some.inj h
    exact .handleError
  case h_12 =>
    split at h
    case isTrue hg =>
      obtain rfl := Option.some.inj h
      exact .release (by simpa [List.any_eq_true] using hg)
    case isFalse hg =>
      obtain rfl := Option.some.inj h
      simp only [Bool.or_eq_true, List.any_eq_true, not_or, not_exists, not_and, Bool.not_eq_true] at hg
      exact .releaseLast hg.1 hg.2
  case h_13 =>
    obtain ⟨chan, hch, rfl⟩ := Option.map_eq_some_iff.1 h
    exact .closeReceiver hch
  case h_14 =>
    obtain ⟨chan, hch, rfl⟩ := Option.map_eq_some_iff.1 h
    exact .notifySender hch
  case h_15 =>
    split at h
    case isTrue hdone =>
      obtain rfl := Option.some.inj h
      exact .finishLast (List.isEmpty_iff.1 hdone)
    case isFalse => cases h
  case h_16 =>
    obtain rfl := Option.some.inj h
    exact .finish
  case h_17 => cases h

theorem step_cases {a : Act E} (h : step c s a = some s') : Step c s a s' := by
  cases a with
  | caller a =>
    simp only [step] at h
    split at h
    case isTrue => cases h
    case isFalse hfree => exact .caller (by simpa using hfree) (callerStep_cases h)
  | worker w a =>
    obtain ⟨p, hw, hp⟩ := Option.bind_eq_some_iff.1 h
    exact .worker hw (workerStep_cases hp)

end CoAwait.ForEach
