import CoAwait.RendezvousPrice

/-!
# `generate` and the loop over its receiver (`generate.hpp:9-19`, `channel.hpp:256-391`)

`generate` runs `func` in a coroutine of its own, which owns the `Sender` of a new `UnbufferedChannel`; the
caller loops over the `Receiver`.

| here | there |
| --- | --- |
| `func i`        | the argument of the `i`-th call of the sender inside `func`; `none` where `func` returns instead; it also returns where a call has returned `false` |
| `leaves xs`     | whether the loop body breaks after the values `xs`; `leaves []` where there is no loop |
| `generate`, `push`, `closeSender`    | `func(*sender)` up to the first `false`, `~Sender` (`channel.hpp:279-290`) |
| `generate`, `pop`, `closeReceiver`   | the iterators (`:322-364`), `~Receiver` (`:316`, `:366-373`) |

* `Loops`: the same loop without a channel, and `Ended`: where it stops.
* `generate_exact`: in any interleaving the channel shows the loop body what `Loops` does, and it ends.
-/

namespace CoAwait.UnbufferedChannel

open Runs

variable {T : Type}

/-! ## The loop without a channel -/

section
variable (func : Nat → Option T) (leaves : List T → Bool)

/-- `xs` is what the loop body has seen after some of its iterations. -/
inductive Loops : List T → Prop
  | start : Loops []
  | next {xs : List T} {x : T} : Loops xs → leaves xs = false → func xs.length = some x → Loops (xs ++ [x])

structure Ended (xs : List T) : Prop where
  loops : Loops func leaves xs
  last : leaves xs = true ∨ func xs.length = none

end

section
variable {func : Nat → Option T} {leaves : List T → Bool} {xs ys : List T}

theorem Loops.get (h : Loops func leaves xs) : ∀ {i : Nat} {x : T}, xs[i]? = some x → func i = some x := by
  induction h with
  | start =>
    intro i x hx
    simp at hx
  | @next xs y _ _ hy ih =>
    intro i x hx
    rcases Nat.lt_trichotomy i xs.length with hlt | rfl | hgt
    · rw [List.getElem?_append_left hlt] at hx
      exact ih hx
    · rw [List.getElem?_concat_length] at hx
      exact hy.trans hx
    · rw [List.getElem?_eq_none (by simp; omega)] at hx
      cases hx

/-- The loop does not go past its end. -/
theorem Loops.prefix_ended (h : Loops func leaves ys) (hend : Ended func leaves xs) : ys <+: xs := by
  induction h with
  | start => exact List.nil_prefix
  | @next ys y _ hin hy ih =>
    obtain ⟨rest, rfl⟩ := ih
    cases rest with
    | nil =>
      rw [List.append_nil] at hend
      rcases hend.last with hl | hl
      · rw [hin] at hl
        cases hl
      · rw [hy] at hl
        cases hl
    | cons z zs =>
      have hz : func ys.length = some z := hend.loops.get (by simp)
      obtain rfl : y = z := Option.some.inj (hy.symm.trans hz)
      exact ⟨zs, by simp⟩

theorem Ended.unique (hx : Ended func leaves xs) (hy : Ended func leaves ys) : xs = ys := by
  obtain ⟨rest, rfl⟩ := hx.loops.prefix_ended hy
  have hle := (hy.loops.prefix_ended hx).length_le
  rw [List.length_append] at hle
  simp [List.eq_nil_of_length_eq_zero (show rest.length = 0 by omega)]

end

/-! ## The two sides -/

/-- Which calls the coroutine of `generate` and the loop make: the sender of `func` until `push` returns `false`, then
`closeSender`; `pop` until it is empty or the body leaves, then `closeReceiver`. -/
def generate (func : Nat → Option T) (leaves : List T → Bool) (s : State T) : Act T → Prop
  | .push val => func s.pushed.length = some val
  | .closeSender => s.spc = .refused ∨ func s.pushed.length = none
  | .pop => none ∉ s.popped ∧ leaves s.popped.reduceOption = false
  | .closeReceiver => none ∈ s.popped ∨ leaves s.popped.reduceOption = true
  | .sender | .receiver => True

instance [DecidableEq T] (func : Nat → Option T) (leaves : List T → Bool) (s : State T) :
    (a : Act T) → Decidable (generate func leaves s a)
  | .push val => inferInstanceAs (Decidable (func s.pushed.length = some val))
  | .closeSender => inferInstanceAs (Decidable (s.spc = .refused ∨ func s.pushed.length = none))
  | .pop => inferInstanceAs (Decidable (none ∉ s.popped ∧ leaves s.popped.reduceOption = false))
  | .closeReceiver => inferInstanceAs (Decidable (none ∈ s.popped ∨ leaves s.popped.reduceOption = true))
  | .sender | .receiver => .isTrue trivial

/-- `func` has returned. -/
def SenderPc.ending : SenderPc → Prop
  | .refused | .store none | .exchange none | .call none | .done => True
  | _ => False

def ReceiverPc.popping : ReceiverPc T → Prop
  | .await .pop _ | .deref _ | .emplace (.pop _) | .store (.pop _) | .exchange (.pop _) | .call (.pop _) => True
  | _ => False

/-- The loop has been left. -/
def ReceiverPc.ending : ReceiverPc T → Prop
  | .await .close _ | .emplace .close | .store .close | .exchange .close | .call .close | .done => True
  | _ => False

/-- The two sides follow `func` and the loop. -/
structure Generated (func : Nat → Option T) (leaves : List T → Bool) (s : State T) : Prop where
  offered : ∀ i x, s.pushed[i]? = some x → func i = some x
  refused : false ∈ s.results → s.spc.ending
  returned : s.spc.ending → false ∈ s.results ∨ func s.pushed.length = none
  loops : Loops func leaves s.popped.reduceOption
  popping : s.rpc.popping → none ∉ s.popped ∧ leaves s.popped.reduceOption = false
  left : s.rpc.ending → none ∈ s.popped ∨ leaves s.popped.reduceOption = true
  shape : s.popped = s.popped.reduceOption.map some ∨
    s.popped = s.popped.reduceOption.map some ++ [none] ∧ leaves s.popped.reduceOption = false

theorem eq_map_reduceOption : ∀ {xs : List (Option T)}, none ∉ xs → xs = xs.reduceOption.map some
  | [], _ => rfl
  | none :: _, h => absurd List.mem_cons_self h
  | some x :: xs, h => by
    rw [List.reduceOption_cons_of_some, List.map_cons, ← eq_map_reduceOption fun hn => h (List.mem_cons_of_mem _ hn)]

namespace Generated

variable {func : Nat → Option T} {leaves : List T → Bool} {s s' : State T} {ph : Phase} {mode : Mode}
variable {spc : SenderPc} {rpc : ReceiverPc T} {v : Cell (Option Nat)} {r : Cell Bool} {got : List T}
variable {took : Option Nat} {x : T} {b : Bool} {senderMode receiverMode : Mode}

theorem start : Generated func leaves (init : State T) where
  offered := fun i x hx => by simp [init] at hx
  refused := fun h => by cases h
  returned := fun h => by cases h
  loops := .start
  popping := fun h => by cases h
  left := fun h => by cases h
  shape := .inl rfl

/-- A step that records no argument and no result. -/
theorem move (h : Generated func leaves s) (hs : spc.ending ↔ s.spc.ending) (hp : rpc.popping → s.rpc.popping)
    (he : rpc.ending → s.rpc.ending) : Generated func leaves { s with
      spc := spc, rpc := rpc, value := v, valueRead := r, got := got, closeTook := took } where
  offered := h.offered
  refused := fun hf => hs.2 (h.refused hf)
  returned := fun hr => h.returned (hs.1 hr)
  loops := h.loops
  popping := fun hr => h.popping (hp hr)
  left := fun hr => h.left (he hr)
  shape := h.shape

theorem push (h : Generated func leaves s) (hs : s.spc = .idle) (hx : func s.pushed.length = some x) :
    Generated func leaves { s with spc := .store (some s.pushed.length), pushed := s.pushed ++ [x] } where
  offered := by
    intro i y hy
    rcases Nat.lt_trichotomy i s.pushed.length with hlt | rfl | hgt
    · rw [List.getElem?_append_left hlt] at hy
      exact h.offered i y hy
    · rw [List.getElem?_concat_length] at hy
      exact hx.trans hy
    · rw [List.getElem?_eq_none (by simp; omega)] at hy
      cases hy
  refused := by
    intro hf
    have := h.refused hf
    rw [hs] at this
    cases this
  returned := fun hr => by cases hr
  loops := h.loops
  popping := h.popping
  left := h.left
  shape := h.shape

/-- `func` has returned, and the `Sender` is destroyed. -/
theorem closeSender (h : Generated func leaves s) (hok : s.spc = .refused ∨ func s.pushed.length = none) :
    Generated func leaves { s with spc := .store none } where
  offered := h.offered
  refused := fun _ => trivial
  returned := by
    intro _
    rcases hok with hr | hn
    · exact h.returned (by rw [hr]; trivial)
    · exact .inr hn
  loops := h.loops
  popping := h.popping
  left := h.left
  shape := h.shape

/-- `push` returns `b`. -/
theorem pushReturn {i : Nat} (h : Generated func leaves s) (hs : s.spc = .emplace i b) : Generated func leaves { s with
    valueRead := {}, results := s.results ++ [b], spc := if b then .idle else .refused } where
  offered := h.offered
  refused := by
    intro hf
    cases b with
    | false => trivial
    | true =>
      have := h.refused (by simpa using hf)
      rw [hs] at this
      cases this
  returned := by
    intro hr
    cases b with
    | false => exact .inl (by simp)
    | true => cases hr
  loops := h.loops
  popping := h.popping
  left := h.left
  shape := h.shape

/-- `pop` finds the sender closed. -/
theorem popEmpty (h : Generated func leaves s) (hr : s.rpc.popping) :
    Generated func leaves { s with rpc := .idle, popped := s.popped ++ [none] } := by
  obtain ⟨hn, hin⟩ := h.popping hr
  have hred : (s.popped ++ [none]).reduceOption = s.popped.reduceOption := by simp [List.reduceOption_append]
  exact {
    offered := h.offered
    refused := h.refused
    returned := h.returned
    loops := by
      rw [hred]
      exact h.loops
    popping := fun hp => by cases hp
    left := fun hp => by cases hp
    shape := by
      rw [hred]
      exact .inr ⟨by rw [← eq_map_reduceOption hn], hin⟩ }

/-- `pop` returns the value it has moved out, the next one of `func`. -/
theorem popReturn (h : Generated func leaves s) (hi : Inv ph s) (hr : s.rpc.popping) (hheld : s.rpc.held = [x])
    (hs : spc.ending ↔ s.spc.ending) : Generated func leaves { s with
      spc := spc, rpc := .idle, value := v, valueRead := r, popped := s.popped ++ [some x] } := by
  obtain ⟨hn, hin⟩ := h.popping hr
  have hgot : s.popped.reduceOption ++ [x] = s.got := hheld ▸ hi.history.popped
  have hx : func s.popped.reduceOption.length = some x := by
    obtain ⟨rest, hrest⟩ := hi.history.got
    exact h.offered _ x (by rw [← hrest, ← hgot]; simp)
  exact {
    offered := h.offered
    refused := fun hf => hs.2 (h.refused hf)
    returned := fun hr => h.returned (hs.1 hr)
    loops := by
      rw [show (s.popped ++ [some x]).reduceOption = s.popped.reduceOption ++ [x] by simp [List.reduceOption_append]]
      exact h.loops.next hin hx
    popping := fun hp => by cases hp
    left := fun hp => by cases hp
    shape := .inl (eq_map_reduceOption (by simpa using hn)) }

/-- `pop` and `closeReceiver` return from `valueRead->set_value`. -/
theorem answered (h : Generated func leaves s) (hi : Inv ph s) {q : Taking T}
    (hr : s.rpc = .exchange q ∨ s.rpc = .call q) (hs : spc.ending ↔ s.spc.ending) :
    Generated func leaves ({ s with spc := spc, valueRead := r }.answered q) := by
  cases q with
  | pop x =>
    refine h.popReturn hi ?_ ?_ hs
    · rcases hr with hr | hr <;> rw [hr] <;> trivial
    · rcases hr with hr | hr <;> rw [hr] <;> rfl
  | close =>
    refine h.move hs (fun hp => (by cases hp)) fun _ => ?_
    rcases hr with hr | hr <;> rw [hr] <;> trivial

theorem senderStep (h : Generated func leaves s) (hst : SenderStep mode s s') : Generated func leaves s' := by
  cases hst with
  | store p hs => exact h.move (by rw [hs]; cases p <;> exact Iff.rfl) id id
  | exchange p c hs hc => exact h.move (by rw [hs]; cases p <;> exact Iff.rfl) id id
  | announce p c hs hc => exact h.move (by rw [hs]; cases p <;> exact Iff.rfl) id id
  | call p op hs hr =>
    refine h.move (by rw [hs]; cases p <;> exact Iff.rfl) ?_ ?_ <;> rw [hr] <;> cases op <;> exact id
  | get i res hs hg => exact h.move (by rw [hs]; exact Iff.rfl) id id
  | await i a b c hs hc => exact h.move (by rw [hs]; exact Iff.rfl) id id
  | emplace i res hs => exact h.pushReturn hs

theorem receiverStep (h : Generated func leaves s) (hi : Inv ph s) (hst : ReceiverStep mode s s') :
    Generated func leaves s' := by
  cases hst with
  | await op a b c hr hc => refine h.move Iff.rfl ?_ ?_ <;> rw [hr] <;> cases op <;> exact id
  | offer i hr hg => refine h.move Iff.rfl ?_ ?_ <;> rw [hr] <;> exact id
  | empty hr hg => exact h.popEmpty (by rw [hr]; trivial)
  | take p hr hg => refine h.move Iff.rfl ?_ ?_ <;> rw [hr] <;> exact id
  | deref i x hr hx => refine h.move Iff.rfl ?_ ?_ <;> rw [hr] <;> exact id
  | emplace q hr => refine h.move Iff.rfl ?_ ?_ <;> rw [hr] <;> cases q <;> exact id
  | store q hr => refine h.move Iff.rfl ?_ ?_ <;> rw [hr] <;> cases q <;> exact id
  | exchange q c hr hc => exact h.answered hi (.inl hr) Iff.rfl
  | announce q c hr hc => refine h.move Iff.rfl ?_ ?_ <;> rw [hr] <;> cases q <;> exact id
  | call q i hr hs => exact h.answered hi (.inr hr) (by rw [hs]; exact Iff.rfl)

theorem step {a : Act T} (h : Generated func leaves s) (hi : Inv ph s) (hok : generate func leaves s a)
    (hst : step senderMode receiverMode s a = some s') : Generated func leaves s' := by
  cases a with
  | push val =>
    simp only [UnbufferedChannel.step] at hst
    split at hst <;> cases hst
    case h_1 hs => exact h.push hs hok
  | closeSender =>
    simp only [UnbufferedChannel.step] at hst
    split at hst <;> cases hst
    case h_1 hs => exact h.closeSender hok
    case h_2 hs => exact h.closeSender hok
  | sender => exact h.senderStep (senderStep_cases hst)
  | pop =>
    simp only [UnbufferedChannel.step] at hst
    split at hst <;> cases hst
    case h_1 hr =>
      exact { h with
        popping := fun _ => hok
        left := fun hp => by cases hp }
  | closeReceiver =>
    simp only [UnbufferedChannel.step] at hst
    split at hst <;> cases hst
    case h_1 hr =>
      exact { h with
        popping := fun hp => by cases hp
        left := fun _ => hok }
  | receiver => exact h.receiverStep hi (receiverStep_cases hst)

end Generated

variable {func : Nat → Option T} {leaves : List T → Bool} {s : State T} {ph : Phase} {xs : List T}
variable {senderMode receiverMode : Mode} {as : List (Act T)}

theorem generated_run (hrun : Run (step senderMode receiverMode) (generate func leaves) init as s) :
    (∃ ph, Inv ph s) ∧ Generated func leaves s :=
  Reachable.invariant (I := fun s => (∃ ph, Inv ph s) ∧ Generated func leaves s) ⟨⟨.free, inv_init⟩, .start⟩
    (fun _ _ _ ⟨⟨_, hi⟩, hg⟩ hok hst => ⟨inv_step hi hst, hg.step hi hok hst⟩) ⟨as, hrun⟩

/-! ## The sender is at most one value ahead -/

/-- The receiver has read an offer and not returned since. -/
def ReceiverPc.busy : ReceiverPc T → Prop
  | .idle | .await _ _ | .deref _ => False
  | _ => True

/-- An offer that the receiver has taken, while its `push` is pending, has its answer. -/
theorem Sync.decided {spc : SenderPc} {rpc : ReceiverPc T} {v : Cell (Option Nat)} {r : Cell Bool} {i : Nat}
    (h : Sync ph spc rpc v r) (hs : spc.pending = some i) (hr : rpc.held ≠ [] ∨ rpc.closed) :
    (ph.decided rpc).isSome := by
  have hbusy : rpc.busy := by
    cases rpc with
    | idle | await | deref => simp [ReceiverPc.held, ReceiverPc.closed] at hr
    | _ => trivial
  cases h.joint with
  | free hq hw => cases rpc <;> first | exact absurd hbusy id | exact absurd hw id
  | leaving hq =>
    have hnone : spc.pending = none := by
      cases spc with
      | store p | exchange p => cases p <;> first | rfl | cases hq
      | _ => first | rfl | cases hq
    rw [hs] at hnone
    cases hnone
  | offerCall => cases hbusy
  | offered hd => cases rpc <;> first | rfl | exact absurd hbusy id | exact absurd hd id
  | takenStore | takenExchange | answerCall | answered | answeredEmplace => rfl
  | closedCall | closed | closedStore | closedExchange | closedAnswered => cases hs

theorem Inv.one_ahead (h : Inv ph s) : s.pushed.length ≤ s.popped.reduceOption.length + 1 := by
  obtain ⟨hsync, hhist⟩ := h
  have hgot := congrArg List.length hhist.popped
  have hans := congrArg List.length hhist.answers
  simp only [List.length_append, State.answers, List.length_replicate] at hgot hans
  have hheld : s.rpc.held.length ≤ 1 := by
    cases s.rpc with
    | emplace q | store q | exchange q | call q => cases q <;> simp [ReceiverPc.held]
    | _ => simp [ReceiverPc.held]
  have hopen : s.rpc.closed → s.rpc.held.length = 0 := by
    cases s.rpc with
    | emplace q | store q | exchange q | call q => cases q <;> simp [ReceiverPc.held, ReceiverPc.closed]
    | _ => simp [ReceiverPc.held]
  have htook : (if s.closeTook.isSome then [false] else []).length ≤ 1 - s.rpc.held.length ∧
      (¬s.rpc.closed → (if s.closeTook.isSome then [false] else []).length = 0) := by
    cases hc : s.closeTook with
    | none => simp
    | some k =>
      have hclosed := (hhist.took k hc).2
      simp [hclosed, hopen hclosed]
  cases hp : s.spc.pending with
  | none =>
    have := hhist.settled hp
    omega
  | some i =>
    obtain ⟨h1, h2⟩ := hhist.pending i hp
    by_cases hbusy : s.rpc.held ≠ [] ∨ s.rpc.closed
    · have hone : (ph.decided s.rpc).toList.length = 1 := by
        rw [Option.length_toList, if_pos (hsync.decided hp hbusy)]
      omega
    · have h3 : s.rpc.held.length = 0 := by simpa using (not_or.1 hbusy).1
      have h4 := htook.2 (not_or.1 hbusy).2
      omega

/-! ## The end -/

/-- Where neither side makes a call and none has a step, both sides have finished. -/
theorem Inv.finished (h : Inv ph s)
    (hstuck : ∀ a, generate func leaves s a → step senderMode receiverMode s a = none) :
    s.spc = .done ∧ s.rpc = .done := by
  have hs : s.spc.blocked := by
    by_contra hs
    by_cases hidle : s.spc = .idle
    · cases hx : func s.pushed.length with
      | none => simpa [step, hidle] using hstuck .closeSender (.inr hx)
      | some x => simpa [step, hidle] using hstuck (.push x) hx
    · by_cases hrefused : s.spc = .refused
      · simpa [step, hrefused] using hstuck .closeSender (.inl hrefused)
      · have hmove : (step senderMode receiverMode s .sender).isSome := sender_moves h hs hidle hrefused
        rw [hstuck .sender trivial] at hmove
        cases hmove
  have hr : s.rpc.blocked := by
    by_contra hr
    by_cases hidle : s.rpc = .idle
    · by_cases hleave : none ∈ s.popped ∨ leaves s.popped.reduceOption = true
      · simpa [step, hidle] using hstuck .closeReceiver hleave
      · obtain ⟨h1, h2⟩ := not_or.1 hleave
        simpa [step, hidle] using hstuck .pop ⟨h1, by simpa using h2⟩
    · have hmove : (step senderMode receiverMode s .receiver).isSome := receiver_moves h hr hidle
      rw [hstuck .receiver trivial] at hmove
      cases hmove
  exact h.sync.both_done hs hr

/-- The calls the two sides make. -/
theorem Generated.calls_le (h : Generated func leaves s) (hi : Inv ph s) (hend : Ended func leaves xs) :
    s.calls ≤ 2 * xs.length + 4 := by
  have hle := (h.loops.prefix_ended hend).length_le
  have hahead := hi.one_ahead
  have hcloses : s.spc.closes ≤ 1 := by
    cases s.spc with
    | store p | exchange p | call p => cases p <;> simp [SenderPc.closes]
    | _ => simp [SenderPc.closes]
  have hcalls : s.rpc.calls ≤ 1 := by cases s.rpc <;> simp [ReceiverPc.calls]
  have hshape : s.popped.length ≤ s.popped.reduceOption.length + 1 := by
    rcases h.shape with hs | ⟨hs, -⟩
    · have := congrArg List.length hs
      rw [List.length_map] at this
      omega
    · have := congrArg List.length hs
      rw [List.length_append, List.length_map, List.length_singleton] at this
      omega
  simp only [State.calls]
  omega

/-- After both sides have finished the loop body has seen all of the loop. -/
theorem Generated.outcome (h : Generated func leaves s) (hi : Inv ph s) (hs : s.spc = .done) (hr : s.rpc = .done)
    (hend : Ended func leaves xs) :
    s.popped = xs.map some ++ (if leaves xs then [] else [none]) ∧
    s.results = List.replicate xs.length true ++ (if (func xs.length).isSome then [false] else []) := by
  obtain ⟨hsync, hhist⟩ := hi
  have hgot : s.popped.reduceOption = s.got := by simpa [hr, ReceiverPc.held] using hhist.popped
  have hlen : s.results.length = s.pushed.length := hhist.settled (by rw [hs]; rfl)
  have hans : s.answers = s.results := by
    have hdecided : ph.decided s.rpc = none := by
      have hjoint := hsync.joint
      rw [hs, hr] at hjoint
      cases hjoint with
      | free hq => cases hq
      | leaving hq => cases hq
      | closed => rfl
      | closedAnswered => rfl
    simpa [hdecided] using hhist.answers
  have hpopped : s.popped = s.got.map some ++ (if leaves s.got then [] else [none]) := by
    have hleft := h.left (by rw [hr]; trivial)
    have hshape := h.shape
    rw [hgot] at hleft hshape
    rcases hshape with hs | ⟨hs, hin⟩
    · have hn : none ∉ s.popped := by rw [hs]; simp
      rw [if_pos (hleft.resolve_left hn), List.append_nil]
      exact hs
    · rw [hin, if_neg (by simp)]
      exact hs
  have hcount : s.results = List.replicate s.got.length true ++ (if (func s.got.length).isSome then [false] else []) ∧
      (leaves s.got = true ∨ func s.got.length = none) := by
    cases hc : s.closeTook with
    | none =>
      have hall : s.results = List.replicate s.got.length true := by
        rw [← hans]
        simp [State.answers, hc]
      have hlast : func s.pushed.length = none := (h.returned (by rw [hs]; trivial)).resolve_left (by simp [hall])
      rw [← hlen, hall, List.length_replicate] at hlast
      rw [hlast]
      exact ⟨by simpa using hall, .inr rfl⟩
    | some k =>
      have hall : s.results = List.replicate s.got.length true ++ [false] := by
        rw [← hans]
        simp [State.answers, hc]
      have hmore : s.pushed.length = s.got.length + 1 := by
        rw [← hlen, hall]
        simp
      have hn : none ∉ s.popped := fun hn => by
        rw [(hhist.empty hn).2] at hmore
        omega
      have hx : func s.got.length = some s.pushed[s.got.length] :=
        h.offered _ _ (List.getElem?_eq_getElem (by omega))
      have hleft := (h.left (by rw [hr]; trivial)).resolve_left hn
      rw [hgot] at hleft
      rw [hx]
      exact ⟨by simpa using hall, .inl hleft⟩
  obtain rfl : s.got = xs := Ended.unique ⟨hgot ▸ h.loops, hcount.2⟩ hend
  exact ⟨hpopped, hcount.1⟩

/-- **The loop over a generator is the loop without a channel.** In any interleaving the body sees the values of
`func` in order, and `func` is at most one value ahead of it. Where the plain loop ends with `xs`, the two sides take a
bounded number of steps, and when they can take no more, both have finished, the body has seen `xs`, and every `push`
was answered with `true` but the one that the loop did not wait for. -/
theorem generate_exact (hrun : Run (step senderMode receiverMode) (generate func leaves) init as s) :
    Loops func leaves s.popped.reduceOption ∧
    (∀ i x, s.pushed[i]? = some x → func i = some x) ∧
    s.pushed.length ≤ s.popped.reduceOption.length + 1 ∧
    ∀ xs, Ended func leaves xs →
      as.length ≤ 32 * (xs.length + 2) ∧
      ((∀ a, generate func leaves s a → step senderMode receiverMode s a = none) →
        s.spc = .done ∧ s.rpc = .done ∧
        s.popped = xs.map some ++ (if leaves xs then [] else [none]) ∧
        s.results = List.replicate xs.length true ++ (if (func xs.length).isSome then [false] else [])) := by
  obtain ⟨⟨ph, hi⟩, hg⟩ := generated_run hrun
  refine ⟨hg.loops, hg.offered, hi.one_ahead, fun xs hend => ⟨?_, fun hstuck => ?_⟩⟩
  · have hsteps := steps_le_calls hrun
    have hcalls := hg.calls_le hi hend
    omega
  · obtain ⟨hs, hr⟩ := hi.finished hstuck
    exact ⟨hs, hr, hg.outcome hi hs hr hend⟩

/-- The loop leaves an endless generator after its first value. -/
theorem generate_exact_leaves : ∃ s : State Nat,
    Run (step .routine .routine) (generate (fun i => some (5 + i)) fun xs => xs.length == 1) init refuseSchedule s ∧
    s.spc = .done ∧ s.rpc = .done ∧ s.popped = [some 5] ∧ s.results = [true, false] := by
  have hrun := exec_get_run (step .routine .routine) (generate (fun i => some (5 + i)) fun xs => xs.length == 1)
    (init : State Nat) refuseSchedule (by decide)
  have hend : Ended (fun i => some (5 + i)) (fun xs => xs.length == 1) [5] := ⟨Loops.start.next rfl rfl, .inl rfl⟩
  refine ⟨_, hrun, ((generate_exact hrun).2.2.2 [5] hend).2 fun a _ => ?_⟩
  cases a <;> rfl

end CoAwait.UnbufferedChannel
