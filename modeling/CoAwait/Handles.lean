import CoAwait.Table
import CoAwait.Tokens

/-!
# A handle with several owners

Every owner makes calls through the handle, one at a time, copies the handle, and gives it back. The last one to give
it back closes what the handle refers to, and then works off whatever the closing has left to do.

* `Held`: each open call is made by one owner, and nobody but the last owner closes.
* `Held.copy` … `Held.leave`: what an owner does keeps it.
* `Held.quiet`: at the closing no call is open.
-/

namespace Handles

open Table Tokens

inductive Phase where
  | idle
  | calling (i : Nat)
  | closing
  | notifying
  | left
deriving DecidableEq, Repr

def Phase.call : Phase → Option Nat
  | .calling i => some i
  | _ => none

/-- The owner has given the handle back. -/
def Phase.leaving : Phase → Prop
  | .closing | .notifying | .left => True
  | .idle | .calling _ => False

/-- What an owner adds to the number of those who have given the handle back. -/
def Phase.gone : Phase → Nat
  | .closing | .notifying | .left => 1
  | .idle | .calling _ => 0

/-- What an owner adds to the use count. -/
def Phase.uses : Phase → Nat
  | .left => 0
  | _ => 1

/-- At least how many operations are left of what an owner has begun. -/
def Phase.price : Phase → Nat
  | .idle | .left => 0
  | .calling _ | .notifying => 1
  | .closing => 2

def useCount (owners : List Phase) : Nat := (owners.map Phase.uses).sum

def price (owners : List Phase) : Nat := (owners.map Phase.price).sum

def gone (owners : List Phase) : Nat := (owners.map Phase.gone).sum

/-- Where an owner goes that gives the handle back. -/
def released (owners : List Phase) : Phase := if useCount owners = 1 then .closing else .left

def calls (owners : List Phase) (p : Nat) : List Nat := (look Phase.call owners p).toList

variable {owners : List Phase} {p q i : Nat} {f g : Phase}

theorem mem_calls : i ∈ calls owners p ↔ owners[p]? = some (.calling i) := by
  rw [calls, Option.mem_toList]
  constructor
  · intro h
    obtain ⟨f, hf, hc⟩ := exists_of_look h
    cases f <;> cases hc
    exact hf
  · intro h
    rw [look_of_get h]
    rfl

theorem useCount_set (hp : owners[p]? = some f) :
    useCount (owners.set p g) + f.uses = useCount owners + g.uses := sum_map_set hp

theorem price_set (hp : owners[p]? = some f) : price (owners.set p g) + f.price = price owners + g.price :=
  sum_map_set hp

theorem released_leaving (owners : List Phase) : (released owners).leaving := by
  rw [released]
  split <;> trivial

theorem gone_set (hp : owners[p]? = some f) : gone (owners.set p g) + f.gone = gone owners + g.gone :=
  sum_map_set hp

theorem gone_released (owners : List Phase) : (released owners).gone = 1 := by
  rw [released]
  split <;> rfl

theorem gone_concat (owners : List Phase) : gone (owners ++ [.idle]) = gone owners := by
  simp [gone, Phase.gone]

theorem gone_le_length (owners : List Phase) : gone owners ≤ owners.length := by
  induction owners with
  | nil => exact Nat.le_refl 0
  | cons f owners ih =>
    have hone : f.gone ≤ 1 := by cases f <;> simp [Phase.gone]
    simp only [gone, List.map_cons, List.sum_cons, List.length_cons] at ih ⊢
    omega

theorem price_released (owners : List Phase) : (released owners).price ≤ 2 := by
  rw [released]
  split <;> simp [Phase.price]

theorem uses_le_useCount (hp : owners[p]? = some f) : f.uses ≤ useCount owners := by
  have := useCount_set (g := .left) hp
  simp only [Phase.uses] at this ⊢
  omega

/-- With a use count of one everybody else has left. -/
theorem others_left (hone : useCount owners = 1) (hp : owners[p]? = some f) (hf : f ≠ .left) (hq : owners[q]? = some g)
    (hne : q ≠ p) : g = .left := by
  have huses : f.uses = 1 := by cases f <;> first | rfl | exact absurd rfl hf
  have hset := useCount_set (g := .left) hp
  have hq' : (owners.set p .left)[q]? = some g := by rw [List.getElem?_set_ne hne.symm, hq]
  have hle := uses_le_useCount hq'
  by_contra hg
  have : g.uses = 1 := by cases g <;> first | rfl | exact absurd rfl hg
  simp only [Phase.uses] at hset hle this
  omega

/-- The handle refers to something that is `closed` or not, on which the calls `alive` are open. -/
structure Held (owners : List Phase) (closed : Bool) (alive : Nat → Prop) : Prop where
  sole : Sole (calls owners) alive
  last : ∀ (p : Nat) (f : Phase), owners[p]? = some f → f = .closing ∨ f = .notifying → useCount owners = 1
  shut : closed = true ↔ ∀ (p : Nat) (f : Phase), owners[p]? = some f → f = .notifying ∨ f = .left

variable {closed : Bool} {alive alive' : Nat → Prop}

theorem held_first (halive : ∀ i, ¬ alive i) : Held [.idle] false alive where
  sole := ⟨fun i hi => absurd hi (halive i), fun p i hi => by
    rw [mem_calls] at hi
    cases p <;> simp at hi⟩
  last := by
    intro p f hf hclosing
    cases p with
    | zero =>
      obtain rfl : .idle = f := by simpa using hf
      rcases hclosing with hf | hf <;> cases hf
    | succ => simp at hf
  shut := ⟨nofun, fun h => by simpa using h 0 .idle rfl⟩

theorem Held.congr (h : Held owners closed alive) (halive : ∀ i, alive' i ↔ alive i) : Held owners closed alive' :=
  ⟨h.sole.congr (fun _ _ => rfl) halive, h.last, h.shut⟩

/-- Who makes calls finds the handle open. -/
theorem Held.open_ (h : Held owners closed alive) (hp : owners[p]? = some f) (hf : ¬ (f = .notifying ∨ f = .left)) :
    closed = false := by
  by_contra hc
  exact hf (h.shut.1 (by simpa using hc) p f hp)

theorem Held.called (h : Held owners closed alive) (hp : owners[p]? = some (.calling i)) : alive i :=
  h.sole.living p i (mem_calls.2 hp)

theorem Held.caller (h : Held owners closed alive) (hi : alive i) : ∃ p : Nat, owners[p]? = some (.calling i) := by
  obtain ⟨p, hp, -⟩ := h.sole.one i hi
  exact ⟨p, mem_calls.1 (List.count_pos_iff.1 (by omega))⟩

/-- When the last owner closes, and afterwards, no call is open. -/
theorem Held.quiet (h : Held owners closed alive) (hp : owners[p]? = some f) (hf : f = .closing ∨ f = .notifying)
    (i : Nat) : ¬ alive i := by
  intro hi
  obtain ⟨q, hq⟩ := h.caller hi
  have hne : q ≠ p := by
    rintro rfl
    rw [hp] at hq
    rcases hf with rfl | rfl <;> cases hq
  have := others_left (h.last p f hp hf) hp (by rcases hf with rfl | rfl <;> simp) hq hne
  cases this

/-- As long as somebody makes calls nobody closes. -/
theorem Held.not_last (h : Held owners closed alive) (hp : owners[p]? = some f) (hf : f = .idle ∨ ∃ i, f = .calling i)
    (hq : owners[q]? = some g) : ¬ (g = .closing ∨ g = .notifying) := by
  intro hg
  have hne : p ≠ q := by
    rintro rfl
    rw [hp] at hq
    rcases hf with rfl | ⟨i, rfl⟩ <;> rcases hg with rfl | rfl <;> cases hq
  have := others_left (h.last q g hq hg) hq (by rcases hg with rfl | rfl <;> simp) hp hne
  rcases hf with rfl | ⟨i, rfl⟩ <;> cases this

/-- When all have left, it is closed and no call is open. -/
theorem Held.all_left (h : Held owners closed alive) (hleft : ∀ f ∈ owners, f = .left) :
    closed = true ∧ ∀ i, ¬ alive i := by
  refine ⟨h.shut.2 fun p f hp => .inr (hleft f (List.mem_of_getElem? hp)), fun i hi => ?_⟩
  obtain ⟨p, hp⟩ := h.caller hi
  cases hleft _ (List.mem_of_getElem? hp)

/-- Where no owner closes, an open side has an owner that makes calls. -/
theorem Held.exists_owner (h : Held owners closed alive) (hopen : closed = false)
    (hnot : ∀ (p : Nat) (f : Phase), owners[p]? = some f → ¬ (f = .closing ∨ f = .notifying)) :
    ∃ p : Nat, owners[p]? = some .idle ∨ ∃ i, owners[p]? = some (.calling i) := by
  by_contra hno
  rw [not_exists] at hno
  have hall := h.shut.2 fun p f hp => by
    have hp' := hno p
    have hf := hnot p f hp
    rw [hp] at hp'
    cases f <;> simp_all
  rw [hopen] at hall
  cases hall

/-! ## What an owner does -/

theorem calls_set_other (hq : q ≠ p) : calls (owners.set p f) q = calls owners q := by
  simp [calls, look, List.getElem?_set_ne hq.symm]

theorem calls_set (hp : owners[p]? = some f) : calls (owners.set p g) p = g.call.toList := by
  rw [calls, look_set hp, Function.update_self]

theorem get_set (hp : owners[p]? = some f) : (owners.set p g)[p]? = some g := by
  rw [get_set_iff hp]
  exact .inl ⟨rfl, rfl⟩

/-- The tokens stay where they are if the owner makes the same call before and after. -/
theorem calls_same (hp : owners[p]? = some f) (hcall : g.call = f.call) (q : Nat) :
    calls (owners.set p g) q = calls owners q := by
  by_cases hq : q = p
  · subst hq
    rw [calls_set hp, hcall, calls, look_of_get hp]
  · exact calls_set_other hq

theorem Held.last_set (h : Held owners closed alive) (hp : owners[p]? = some f)
    (hf : f = .idle ∨ ∃ i, f = .calling i) (hg : ¬ (g = .closing ∨ g = .notifying)) (q : Nat) (e : Phase)
    (hq : (owners.set p g)[q]? = some e) (he : e = .closing ∨ e = .notifying) : useCount (owners.set p g) = 1 := by
  rcases (get_set_iff hp).1 hq with ⟨-, rfl⟩ | ⟨-, hq⟩
  · exact absurd he hg
  · exact absurd he (h.not_last hp hf hq)

theorem shut_open (hopen : closed = false) (hp : owners[p]? = some f) (hf : ¬ (f = .notifying ∨ f = .left)) :
    closed = true ↔ ∀ (p : Nat) (f : Phase), owners[p]? = some f → f = .notifying ∨ f = .left := by
  simp only [hopen, Bool.false_eq_true, false_iff]
  exact fun hall => hf (hall p f hp)

theorem Held.copy (h : Held owners closed alive) (hp : owners[p]? = some .idle) :
    Held (owners ++ [.idle]) closed alive where
  sole := h.sole.congr (fun q y => by rw [calls, calls, look_append_none rfl]) fun _ => Iff.rfl
  last := by
    intro q f hq hf
    rcases get_concat_iff.1 hq with hq | ⟨-, rfl⟩
    · exact absurd hf (h.not_last hp (.inl rfl) hq)
    · rcases hf with hf | hf <;> cases hf
  shut := shut_open (h.open_ hp (by simp)) (get_concat_iff.2 (.inl hp)) (by simp)

theorem Held.enter (h : Held owners closed alive) (hp : owners[p]? = some .idle) (hnew : ¬ alive i)
    (halive : ∀ y, alive' y ↔ y = i ∨ alive y) : Held (owners.set p (.calling i)) closed alive' where
  sole := by
    refine h.sole.add (p := p) hnew (fun y => ?_) (fun q hq => calls_set_other hq) halive
    rw [calls_set hp, calls, look_of_get hp]
    simp [Phase.call, List.count_singleton]
  last := h.last_set hp (.inl rfl) (by simp)
  shut := shut_open (h.open_ hp (by simp)) (get_set hp) (by simp)

theorem Held.return (h : Held owners closed alive) (hp : owners[p]? = some (.calling i))
    (halive : ∀ y, alive' y ↔ alive y ∧ y ≠ i) : Held (owners.set p .idle) closed alive' where
  sole := by
    refine h.sole.drop (p := p) (x := i) (fun y => ?_) (fun q hq => calls_set_other hq) halive
    rw [calls_set hp, calls, look_of_get hp]
    simp [Phase.call, List.count_singleton]
  last := h.last_set hp (.inr ⟨i, rfl⟩) (by simp)
  shut := shut_open (h.open_ hp (by simp)) (get_set hp) (by simp)

/-- Giving the handle back closes nothing by itself. -/
theorem Held.release (h : Held owners closed alive) (hp : owners[p]? = some .idle) :
    Held (owners.set p (released owners)) closed alive where
  sole := by
    refine h.sole.congr (fun q y => ?_) fun _ => Iff.rfl
    rw [calls_same hp]
    rw [released]
    split <;> rfl
  last := by
    intro q f hq hf
    rcases (get_set_iff hp).1 hq with ⟨rfl, rfl⟩ | ⟨-, hq⟩
    · rw [released] at hf ⊢
      split at hf
      case isTrue hone =>
        have := useCount_set (g := .closing) hp
        rw [if_pos hone]
        simp only [Phase.uses] at this
        omega
      case isFalse => rcases hf with hf | hf <;> cases hf
    · exact absurd hf (h.not_last hp (.inl rfl) hq)
  shut := by
    have hopen := h.open_ hp (by simp)
    rw [released]
    split
    case isTrue => exact shut_open hopen (get_set hp) (by simp)
    case isFalse hmany =>
      simp only [hopen, Bool.false_eq_true, false_iff]
      -- somebody else still has the handle, and does not close
      refine fun hall => hmany ?_
      have hset := useCount_set (g := .left) hp
      have hzero : useCount (owners.set p .left) = 0 := by
        refine List.sum_eq_zero_iff_forall_eq_nat.2 fun n hn => ?_
        obtain ⟨f, hf, rfl⟩ := List.mem_map.1 hn
        obtain ⟨q, hq⟩ := List.mem_iff_getElem?.1 hf
        rcases (get_set_iff hp).1 hq with ⟨rfl, rfl⟩ | ⟨-, hq'⟩
        · rfl
        · rcases hall q f hq with rfl | rfl
          · exact absurd (.inr rfl) (h.not_last hp (.inl rfl) hq')
          · rfl
      simp only [Phase.uses] at hset
      omega

theorem Held.close (h : Held owners closed alive) (hp : owners[p]? = some .closing) :
    Held (owners.set p .notifying) true alive where
  sole := h.sole.congr (fun q y => by rw [calls_same (g := .notifying) hp rfl]) fun _ => Iff.rfl
  last := by
    intro q f _ _
    have := useCount_set (g := .notifying) hp
    have := h.last p _ hp (.inl rfl)
    simp only [Phase.uses] at *
    omega
  shut := by
    simp only [true_iff]
    intro q f hq
    rcases (get_set_iff hp).1 hq with ⟨-, rfl⟩ | ⟨hne, hq⟩
    · exact .inl rfl
    · exact .inr (others_left (h.last p _ hp (.inl rfl)) hp (by simp) hq hne)

theorem Held.leave (h : Held owners closed alive) (hp : owners[p]? = some .notifying) :
    Held (owners.set p .left) closed alive where
  sole := h.sole.congr (fun q y => by rw [calls_same (g := .left) hp rfl]) fun _ => Iff.rfl
  last := by
    intro q f hq hf
    rcases (get_set_iff hp).1 hq with ⟨-, rfl⟩ | ⟨hne, hq⟩
    · rcases hf with hf | hf <;> cases hf
    · have := others_left (h.last p _ hp (.inr rfl)) hp (by simp) hq hne
      rcases hf with rfl | rfl <;> cases this
  shut := by
    have hall : closed = true := h.shut.2 fun q f hq => by
      by_cases hne : q = p
      · subst hne
        rw [hp] at hq
        cases hq
        exact .inl rfl
      · exact .inr (others_left (h.last p _ hp (.inr rfl)) hp (by simp) hq hne)
    simp only [hall, true_iff]
    intro q f hq
    rcases (get_set_iff hp).1 hq with ⟨-, rfl⟩ | ⟨-, hq⟩
    · exact .inr rfl
    · exact h.shut.1 hall q f hq

end Handles
