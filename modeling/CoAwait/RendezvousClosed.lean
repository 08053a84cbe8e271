import CoAwait.Rendezvous

/-!
# A closed receiver of an `UnbufferedChannel` (`channel.hpp:37-50`)

`BufferedChannel::push` finds the closing of the receiver in a flag (`:186`). Here `closeReceiver` answers the offer
of one `push` with `false`, and that `push` recreates `valueRead` when it returns. The sender of these runs goes on
pushing whatever `push` has returned.

* `heedlessStep`: the steps, with a `push` after a refused one as well.
* `Lost`: a `push` that is called after `closeReceiver` has done its last operation, to the end of the run.
* `late_push_returns_nothing`, `late_push_hangs`: it does not return, and its side parks for good.
-/

namespace CoAwait.UnbufferedChannel

open Runs

variable {T : Type}

/-- A refusal does not stop the sender. -/
def State.heedless (s : State T) : State T :=
  match s.spc with
  | .refused => { s with spc := .idle }
  | _ => s

/-- The steps of a sender that pushes without regard to earlier results. -/
def heedlessStep (senderMode receiverMode : Mode) (s : State T) : Act T → Option (State T)
  | .push val => step senderMode receiverMode s.heedless (.push val)
  | .closeSender => step senderMode receiverMode s .closeSender
  | .sender => step senderMode receiverMode s .sender
  | .pop => step senderMode receiverMode s .pop
  | .closeReceiver => step senderMode receiverMode s .closeReceiver
  | .receiver => step senderMode receiverMode s .receiver

/-- No `push` is called once `closeReceiver` has completed. -/
def inTime (s : State T) : Act T → Prop
  | .push _ => s.rpc ≠ .done
  | _ => True

instance [DecidableEq T] (s : State T) : (a : Act T) → Decidable (inTime s a)
  | .push _ => inferInstanceAs (Decidable (s.rpc ≠ .done))
  | .closeSender | .sender | .pop | .closeReceiver | .receiver => .isTrue trivial

/-- Every `push` called after `closeReceiver` has completed returns `false` after steps of the sender alone, and its
value is not moved out. -/
def LateRefused (senderMode receiverMode : Mode) (as : List (Act T)) : Prop :=
  ∀ pre val post, as = pre ++ .push val :: post → ∀ s t,
    Run (heedlessStep senderMode receiverMode) anyStep init pre s → s.rpc = .done →
    heedlessStep senderMode receiverMode s (.push val) = some t →
    ∃ n u, Run (heedlessStep senderMode receiverMode) anyStep t (List.replicate n .sender) u ∧
      u.results = s.results ++ [false] ∧ u.got = s.got

/-! ## The fate of a late `push` -/

/-- Inside a `push` whose answer nobody gives any more. `v` is `value` and `r` is `valueRead`. -/
def Adrift (v : Cell (Option Nat)) (r : Cell Bool) : SenderPc → Prop
  | .store (some _) => v.Ok none none ∧ r.Ok none none
  | .exchange (some i) => v.Ok none none ∧ v.fut.value = .val (some i) ∧ r.Ok none none
  | .await _ a => r.Ok none (some a)
  | _ => False

/-- The results and the values moved out stay as they are. -/
structure Lost (results : List Bool) (got : List T) (s : State T) : Prop where
  adrift : Adrift s.value s.valueRead s.spc
  receiver : s.rpc = .done
  results : s.results = results
  got : s.got = got

/-- How far the sender is from being parked. -/
def SenderPc.rank (mode : Mode) : SenderPc → Nat
  | .store _ => mode.loads + 4
  | .exchange _ => mode.loads + 3
  | .await _ (.poll n) => mode.loads - n + 2
  | .await _ .suspend => 1
  | _ => 0

section

variable {senderMode receiverMode : Mode} {s s' t u w : State T} {results : List Bool} {got : List T} {x : Act T}
  {as : List (Act T)} {ph : Phase}

/-- A load, or the registration, on a future that nobody has completed. -/
theorem awaitStep_rank {α : Type} {mode : Mode} {c c' : Cell α} {a b : Await} {i : Nat} (hr : c.Ok none (some a))
    (hst : c.awaitStep mode a = some (c', b)) : (SenderPc.await i b).rank mode < (SenderPc.await i a).rank mode := by
  obtain ⟨hptr, -⟩ := hr.unset rfl
  cases a with
  | poll n =>
    have hnot : c.fut.isReady = false := by simp [hptr]
    by_cases hn : n + 1 < mode.loads
    · simp only [Cell.awaitStep, hnot, hn] at hst
      obtain ⟨-, rfl⟩ : c = c' ∧ Await.poll (n + 1) = b := by simpa using hst
      simp only [SenderPc.rank]
      omega
    · simp only [Cell.awaitStep, hnot, hn] at hst
      obtain ⟨-, rfl⟩ : c = c' ∧ Await.suspend = b := by simpa using hst
      simp only [SenderPc.rank]
      omega
  | suspend =>
    obtain rfl : b = .parked := by
      simp only [reduceCtorEq, if_false, Option.some.injEq] at hptr
      simp only [Cell.awaitStep, LightFutureData.suspend, hptr, Option.some.injEq, Prod.mk.injEq] at hst
      exact hst.2.symm
    simp [SenderPc.rank]
  | parked => cases hst
  | get => cases hst

/-- Adrift and not parked, the sender has a step, which brings it closer to being parked. -/
theorem Lost.sender (senderMode : Mode) (h : Lost results got s) (hpark : ∀ i, s.spc ≠ .await i .parked) :
    ∃ t, senderStep senderMode s = some t ∧ Lost results got t ∧ t.spc.rank senderMode < s.spc.rank senderMode := by
  have hadrift := h.adrift
  cases hs : s.spc with
  | store p =>
    cases p with
    | none => simp [hs, Adrift] at hadrift
    | some i =>
      obtain ⟨hv, hr⟩ : s.value.Ok none none ∧ s.valueRead.Ok none none := by simpa [hs, Adrift] using hadrift
      exact ⟨{ s with value := s.value.store (some i), spc := .exchange (some i) }, by simp only [senderStep, hs],
        ⟨⟨hv.store _, rfl, hr⟩, h.receiver, h.results, h.got⟩, by simp [SenderPc.rank]⟩
  | exchange p =>
    cases p with
    | none => simp [hs, Adrift] at hadrift
    | some i =>
      obtain ⟨hv, hstored, hr⟩ : s.value.Ok none none ∧ s.value.fut.value = .val (some i) ∧
        s.valueRead.Ok none none := by simpa [hs, Adrift] using hadrift
      obtain ⟨c, hc, -⟩ := hv.exchange hstored
      refine ⟨{ s with value := c, spc := .await i (.poll 0) }, ?_,
        ⟨hr.turn (by simp) trivial, h.receiver, h.results, h.got⟩, by simp [SenderPc.rank]⟩
      simp only [senderStep, hs, hc]
      rfl
  | await i a =>
    have hr : s.valueRead.Ok none (some a) := by simpa [hs, Adrift] using hadrift
    have hparked : a ≠ .parked := fun he => hpark i (by rw [hs, he])
    have hget : a ≠ .get := fun he => (hr.unset rfl).2.2.2 (by rw [he])
    obtain ⟨c, b, hc, hok, -, -⟩ := hr.awaitStep senderMode hparked hget
    refine ⟨{ s with valueRead := c, spc := .await i b }, ?_, ⟨hok, h.receiver, h.results, h.got⟩,
      awaitStep_rank hr hc⟩
    cases a with
    | get => exact absurd rfl hget
    | poll n => simp only [senderStep, hs, hc]
    | suspend => simp only [senderStep, hs, hc]
    | parked => exact absurd rfl hparked
  | idle => simp [hs, Adrift] at hadrift
  | call p => simp [hs, Adrift] at hadrift
  | emplace i b => simp [hs, Adrift] at hadrift
  | refused => simp [hs, Adrift] at hadrift
  | done => simp [hs, Adrift] at hadrift

/-- Parked, nothing can happen any more. -/
theorem Lost.stuck (h : Lost results got s) {i : Nat} (hs : s.spc = .await i .parked) :
    heedlessStep senderMode receiverMode s x = none := by
  cases x <;> simp [heedlessStep, step, State.heedless, senderStep, receiverStep, Cell.awaitStep, hs, h.receiver]

/-- A `push` is called between two calls. -/
theorem push_called {val : T} (hst : heedlessStep senderMode receiverMode s (.push val) = some t) :
    (s.spc = .idle ∨ s.spc = .refused) ∧
      t = { s with spc := .store (some s.pushed.length), pushed := s.pushed ++ [val] } := by
  cases hs : s.spc <;> simp [heedlessStep, State.heedless, step, hs] at hst ⊢ <;> exact hst.symm

theorem closeSender_called (hst : heedlessStep senderMode receiverMode s .closeSender = some t) :
    s.spc = .idle ∨ s.spc = .refused := by
  cases hs : s.spc <;> simp [heedlessStep, step, hs] at hst ⊢

theorem Lost.busy (h : Lost results got s) : ¬(s.spc = .idle ∨ s.spc = .refused) := by
  have hadrift := h.adrift
  rintro (hs | hs) <;> rw [hs] at hadrift <;> exact hadrift

/-- A late `push` stays adrift. -/
theorem Lost.step (h : Lost results got s) (hst : heedlessStep senderMode receiverMode s x = some t) :
    Lost results got t := by
  cases x with
  | sender =>
    by_cases hpark : ∃ i, s.spc = .await i .parked
    · obtain ⟨i, hi⟩ := hpark
      rw [h.stuck hi] at hst
      cases hst
    · obtain ⟨t', ht', hlost, -⟩ := h.sender senderMode fun i hi => hpark ⟨i, hi⟩
      obtain rfl : t' = t := Option.some.inj (ht'.symm.trans hst)
      exact hlost
  | push val => exact absurd (push_called hst).1 h.busy
  | closeSender => exact absurd (closeSender_called hst) h.busy
  | receiver => simp [heedlessStep, UnbufferedChannel.step, receiverStep, h.receiver] at hst
  | pop => simp [heedlessStep, UnbufferedChannel.step, h.receiver] at hst
  | closeReceiver => simp [heedlessStep, UnbufferedChannel.step, h.receiver] at hst

theorem Lost.run (h : Lost results got s) {ok : State T → Act T → Prop}
    (hrun : Run (heedlessStep senderMode receiverMode) ok s as t) : Lost results got t := by
  induction hrun with
  | nil => exact h
  | snoc _ _ hst ih => exact ih.step hst

/-- Steps of the sender alone bring it to where it waits for good. -/
theorem Lost.parks (senderMode receiverMode : Mode) (h : Lost results got s) :
    ∃ n u i, Run (heedlessStep senderMode receiverMode) anyStep s (List.replicate n .sender) u ∧
      u.spc = .await i .parked ∧ Lost results got u := by
  induction hk : s.spc.rank senderMode using Nat.strongRecOn generalizing s with
  | ind k ih =>
    by_cases hpark : ∃ i, s.spc = .await i .parked
    · obtain ⟨i, hi⟩ := hpark
      exact ⟨0, s, i, .nil s, hi, h⟩
    · obtain ⟨t, ht, hlost, hlt⟩ := h.sender senderMode fun i hi => hpark ⟨i, hi⟩
      obtain ⟨n, u, i, hrun, hu⟩ := ih _ (hk ▸ hlt) hlost rfl
      exact ⟨n + 1, u, i, hrun.cons trivial ht, hu⟩

/-! ## Up to the first late `push` -/

/-- When `closeReceiver` has completed, the sender is not between two pushes unless one was refused. -/
theorem Sync.refused_of_done {spc : SenderPc} {v : Cell (Option Nat)} {r : Cell Bool}
    (h : Sync ph spc (.done : ReceiverPc T) v r) (hs : spc = .idle ∨ spc = .refused) :
    spc = .refused ∧ v.Ok none none ∧ r.Ok none none := by
  rcases hs with rfl | rfl
  · obtain ⟨rfl, hsync⟩ := h.push none
    cases h.joint with
    | free _ hr => cases hr
    | leaving hs => cases hs
  · obtain ⟨rfl, -⟩ := h.refused
    exact ⟨rfl, h.value, h.read⟩

theorem Sync.done_of_refused {rpc : ReceiverPc T} {v : Cell (Option Nat)} {r : Cell Bool}
    (h : Sync ph .refused rpc v r) : rpc = .done := by
  cases h.joint with
  | free hs => cases hs
  | leaving => rfl

/-- A late `push` is adrift from its first step on. -/
theorem lost_of_late {val : T} (h : Inv ph s) (hdone : s.rpc = .done)
    (hst : heedlessStep senderMode receiverMode s (.push val) = some t) : Lost s.results s.got t := by
  obtain ⟨hs, rfl⟩ := push_called hst
  have hsync := h.sync
  rw [hdone] at hsync
  obtain ⟨-, hv, hr⟩ := hsync.refused_of_done hs
  exact ⟨⟨hv, hr⟩, hdone, rfl, rfl⟩

/-- In time, the sender does nothing that one who stops at a refusal does not do. -/
theorem step_of_inTime (h : Inv ph s) (hok : inTime s x) (hst : heedlessStep senderMode receiverMode s x = some t) :
    step senderMode receiverMode s x = some t := by
  cases x with
  | push val =>
    have hne : s.spc ≠ .refused := by
      intro hs
      have hsync := h.sync
      rw [hs] at hsync
      exact hok hsync.done_of_refused
    have hsame : s.heedless = s := by
      cases hs : s.spc <;> simp_all [State.heedless]
    rwa [heedlessStep, hsame] at hst
  | closeSender => exact hst
  | sender => exact hst
  | pop => exact hst
  | closeReceiver => exact hst
  | receiver => exact hst

theorem inv_inTime (hrun : Run (heedlessStep senderMode receiverMode) inTime (init : State T) as s) :
    ∃ ph, Inv ph s := by
  induction hrun with
  | nil => exact ⟨.free, inv_init⟩
  | snoc _ hok hst ih =>
    obtain ⟨ph, h⟩ := ih
    exact inv_step h (step_of_inTime h hok hst)

/-- A `push` that is called after `closeReceiver` has completed returns in no continuation of the run, and its value is
not moved out. -/
theorem late_push_returns_nothing (hrun : Run (heedlessStep senderMode receiverMode) inTime (init : State T) as s)
    (hdone : s.rpc = .done) {val : T} (hst : heedlessStep senderMode receiverMode s (.push val) = some t)
    {bs : List (Act T)} (hrest : Run (heedlessStep senderMode receiverMode) anyStep t bs u) :
    u.results = s.results ∧ u.got = s.got := by
  obtain ⟨ph, h⟩ := inv_inTime hrun
  have hlost := (lost_of_late h hdone hst).run hrest
  exact ⟨hlost.results, hlost.got⟩

/-- The sender of a late `push` parks, and then no side has a step. -/
theorem late_push_hangs (hrun : Run (heedlessStep senderMode receiverMode) inTime (init : State T) as s)
    (hdone : s.rpc = .done) {val : T} (hst : heedlessStep senderMode receiverMode s (.push val) = some t) :
    ∃ n u, Run (heedlessStep senderMode receiverMode) anyStep t (List.replicate n .sender) u ∧
      ∀ x, heedlessStep senderMode receiverMode u x = none := by
  obtain ⟨ph, h⟩ := inv_inTime hrun
  obtain ⟨n, u, i, hsteps, hu, hlost⟩ := (lost_of_late h hdone hst).parks senderMode receiverMode
  exact ⟨n, u, hsteps, fun x => hlost.stuck hu⟩

theorem not_lateRefused (hrun : Run (heedlessStep senderMode receiverMode) inTime (init : State T) as s)
    (hdone : s.rpc = .done) {val : T} (hst : heedlessStep senderMode receiverMode s (.push val) = some t)
    (post : List (Act T)) : ¬LateRefused senderMode receiverMode (as ++ .push val :: post) := by
  intro h
  obtain ⟨n, u, hrest, hres, -⟩ := h as val post rfl s t (hrun.mono fun _ _ _ => trivial) hdone hst
  rw [(late_push_returns_nothing hrun hdone hst hrest).1] at hres
  simp at hres

/-- **A closed receiver stays closed only to a sender that stops.** The pushes called after `closeReceiver` has
completed are refused exactly in the runs without such a `push`. -/
theorem late_refused_iff (hrun : Run (heedlessStep senderMode receiverMode) anyStep (init : State T) as w) :
    LateRefused senderMode receiverMode as ↔ Run (heedlessStep senderMode receiverMode) inTime init as w := by
  constructor
  · intro h
    -- by induction on the run, of which the first late `push` is the last step
    induction hrun with
    | nil => exact .nil _
    | @snoc s w as x hpre _ hst ih =>
      have hin := ih fun pre val post hsplit => h pre val (post ++ [x]) (by simp [hsplit])
      refine hin.snoc ?_ hst
      cases x with
      | push val =>
        intro hdone
        exact not_lateRefused hin hdone hst [] h
      | _ => trivial
  · intro hin pre val post hsplit s t hpre hdone _
    rw [hsplit] at hin
    obtain ⟨s', hpre', hpost⟩ := hin.split
    obtain ⟨_, hok, -⟩ := hpost.first
    obtain rfl := hpre'.det hpre
    exact absurd hdone hok

end

/-- A `pop`, and a second `push` that `closeReceiver` refuses. -/
def refusedSchedule : List (Act Nat) :=
  List.flatten [[.pop, .push 5], List.replicate 3 .sender, List.replicate 6 .receiver, List.replicate 3 .sender,
    [.push 6, .sender, .sender, .closeReceiver], List.replicate 5 .receiver, List.replicate 3 .sender]

theorem refused_run : ∃ s, Run (heedlessStep .routine .routine) inTime init refusedSchedule s ∧ s.rpc = .done ∧
    s.spc = .refused := by
  have hrun := exec_get_run (heedlessStep .routine .routine) inTime (init : State Nat) refusedSchedule (by decide)
  exact ⟨_, hrun, by decide, by decide⟩

theorem late_refused_in_time : LateRefused .routine .routine refusedSchedule := by
  obtain ⟨s, hrun, -⟩ := refused_run
  exact (late_refused_iff (hrun.mono fun _ _ _ => trivial)).2 hrun

/-- The `push` that comes after the refused one never returns. -/
theorem late_push_not_refused : ∃ w,
    Run (heedlessStep .routine .routine) anyStep init (refusedSchedule ++ [.push 7]) w ∧
    ¬LateRefused .routine .routine (refusedSchedule ++ [.push 7]) := by
  obtain ⟨s, hin, hdone, hs⟩ := refused_run
  have hrun : Run (heedlessStep .routine .routine) anyStep init refusedSchedule s := hin.mono fun _ _ _ => trivial
  obtain ⟨t, ht⟩ : ∃ t, heedlessStep .routine .routine s (.push 7) = some t := by
    simp [heedlessStep, State.heedless, step, hs]
  exact ⟨t, hrun.snoc trivial ht, not_lateRefused hin hdone ht []⟩

end CoAwait.UnbufferedChannel
