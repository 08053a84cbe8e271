import CoAwait.RoutineHandOver

/-!
# `Routine::current()` (`routine.hpp:279-306`, `:333-365`)

* `Journal`: what an observer of the threads records: the coroutines that were entered or resumed on a thread and have
  neither left nor ended since, and what each call of the constructor of Data and of `resume()` that has not returned
  has found in `current()`.
* `Step.active`, `Step.saved`: a step does to the bodies on a stack what the observer records.
* `Clear`: no coroutine is beneath a call of its own constructor or `resume()`.
* `current_stack_discipline`: the main result.
-/

namespace CoAwait.Routine

open Runs Tokens

/-! ## The record -/

inductive Event where
  | entered (d : Nat)
  | left (d : Nat)
  | ended (d : Nat)
deriving DecidableEq, Repr

/-- What happens on a thread between two states of its stack. -/
def seen : List Frame → List Frame → Option Event
  | .run d _ .enter :: _, .body _ _ :: _ => some (.entered d)
  | .body d _ :: _, .run _ _ .left :: _ => some (.left d)
  -- a constructor is called
  | .body _ _ :: _, .run _ _ .enter :: _ => none
  | .body d _ :: _, .run _ _ _ :: _ => some (.ended d)
  | _, _ => none

/-- The calls an activation stands for; `resume()` in the constructor shares the one of the constructor. -/
def Via.calls : Via → Nat
  | .ctor | .resume => 1
  | .ctorResume => 2

def Frame.called : Frame → Nat
  | .run _ via _ => via.calls
  | _ => 0

/-- How many calls of the constructor of Data and of `resume()` have not returned. -/
def called (l : List Frame) : Nat := (l.map Frame.called).sum

structure Journal where
  /-- Entered or resumed on the thread, and neither left nor ended since. -/
  active : Nat → List Nat := fun _ => []
  /-- `current()` at each call that has not returned. -/
  found : Nat → List (Option Nat) := fun _ => []

def Journal.record (j : Journal) (s : State) (_ : Act) (s' : State) : Journal where
  active t :=
    match seen (s.stack t) (s'.stack t) with
    | some (.entered d) => d :: j.active t
    | some (.left d) | some (.ended d) => (j.active t).erase d
    | none => j.active t
  found t :=
    if called (s.stack t) < called (s'.stack t) then s.current t :: j.found t
    else (j.found t).drop (called (s.stack t) - called (s'.stack t))

/-- What is recorded of the run `as`. -/
def journal (as : List Act) : Journal := history step Journal.record {} init as

/-! ## The bodies -/

variable {s s' : State} {d e x : Nat} {k : RunnerId} {via : Via} {pc : RunPc} {t u : Nat} {top top' rest : List Frame}

@[simp] theorem bodies_body {leaving : Option Awaitable} : bodies (.body d leaving :: rest) = d :: bodies rest := rfl

theorem Frame.idle_cases {f : Frame} (h : f.idle = true) : f = .main ∨ ∃ d, f = .body d none := by
  cases f with
  | main => exact .inl rfl
  | body d leaving =>
    cases leaving with
    | none => exact .inr ⟨d, rfl⟩
    | some aw => cases h
  | _ => cases h

theorem seen_same (l : List Frame) : seen l l = none := by
  cases l with
  | nil => rfl
  | cons f l => cases f <;> simp [seen]

theorem seen_run {l l' : List Frame} (hpc : pc ≠ .enter) : seen (.run d via pc :: l) l' = none := by
  cases pc <;> first | rfl | exact absurd rfl hpc

/-- What user code calls is no event. -/
theorem seen_idle {f g : Frame} {l l' : List Frame} (hf : f.idle = true)
    (hg : ∀ d via pc, g = .run d via pc → pc = .enter) : seen (f :: l) (g :: l') = none := by
  rcases f.idle_cases hf with rfl | ⟨d, rfl⟩
  · rfl
  · cases g with
    | run d' via pc =>
      obtain rfl := hg d' via pc rfl
      rfl
    | _ => rfl

theorem Frame.idle_not_run {f : Frame} (hf : f.idle = true) (d : Nat) (via : Via) (pc : RunPc) :
    f = .run d via pc → pc = .enter := by
  rintro rfl
  cases hf

theorem Step.active (h : Step s t top top' rest s') : bodies (s'.stack t) =
    match seen (s.stack t) (s'.stack t) with
    | some (.entered d) => d :: bodies (s.stack t)
    | some (.left d) | some (.ended d) => (bodies (s.stack t)).erase d
    | none => bodies (s.stack t) := by
  have hb := h.before
  have ha : s'.stack t = top' ++ rest := by rw [h.after, Function.update_self]
  rw [hb, ha]
  have hquiet : seen (top ++ rest) (top' ++ rest) = none → bodies (top' ++ rest) = bodies (top ++ rest) →
      bodies (top' ++ rest) = match seen (top ++ rest) (top' ++ rest) with
        | some (.entered d) => d :: bodies (top ++ rest)
        | some (.left d) | some (.ended d) => (bodies (top ++ rest)).erase d
        | none => bodies (top ++ rest) := by
    intro hseen hbodies
    rw [hseen]
    exact hbodies
  cases h with
  | stay => exact hquiet (seen_same _) rfl
  | move _ hm =>
    refine hquiet ?_ (by rw [bodies_append, bodies_append, hm.bodies_eq])
    cases hm with
    | wait hidle => exact seen_idle hidle nofun
    | _ => rfl
  | construct _ hidle => exact hquiet (seen_idle hidle fun _ _ _ he => by cases he; rfl) rfl
  | handler _ hidle => exact hquiet (seen_idle hidle nofun) rfl
  | setValue _ hidle hc =>
    refine hquiet ?_ (by cases hc <;> rfl)
    cases hc with
    | alone | cv => exact seen_idle hidle (Frame.idle_not_run hidle)
    | runner => exact seen_idle hidle nofun
  | setResult _ hc => exact hquiet (seen_run nofun) (by cases hc <;> rfl)
  | constructed _ _ hpc =>
    refine hquiet (seen_run ?_) rfl
    rintro rfl
    rcases hpc with hpc | ⟨res, hpc⟩ <;> cases hpc
  | enter => rfl
  | leave => simp [seen]
  | @finish _ _ _ _ via v pc _ hpc =>
    subst hpc
    cases via <;> simp [seen]
  | repost | exchange | waitRegister => exact hquiet rfl rfl
  | _ => exact hquiet (seen_run nofun) rfl

/-! ## The calls -/

/-- `current()` at the calls on a stack, by the bodies beneath them. -/
def saved : List Frame → List (Option Nat)
  | [] => []
  | f :: l => List.replicate f.called (bodies l).head? ++ saved l

theorem called_cons {f : Frame} {l : List Frame} : called (f :: l) = f.called + called l := by
  simp [called]

/-- What the observer records of a call that is made, or of those that return. -/
def refound (cur : Option Nat) (l l' : List Frame) : List (Option Nat) :=
  if called l < called l' then cur :: saved l else (saved l).drop (called l - called l')

theorem refound_same {cur : Option Nat} {l l' : List Frame} (hcalled : called l' = called l)
    (hsaved : saved l' = saved l) :
    saved l' = refound cur l l' := by
  rw [refound, hcalled, if_neg (Nat.lt_irrefl _), Nat.sub_self, List.drop_zero, hsaved]

/-- A call is made. -/
theorem refound_call {cur : Option Nat} {l l' : List Frame} (hcalled : called l' = called l + 1)
    (hsaved : saved l' = cur :: saved l) : saved l' = refound cur l l' := by
  rw [refound, hcalled, if_pos (Nat.lt_succ_self _), hsaved]

/-- The calls of one activation return. -/
theorem refound_return {cur : Option Nat} {f : Frame} {l l' : List Frame} (hcalled : called l' = called l)
    (hsaved : saved l' = saved l) : saved l' = refound cur (f :: l) l' := by
  have hlen : called (f :: l) - called l' = (List.replicate f.called (bodies l).head?).length := by
    rw [called_cons, List.length_replicate]
    omega
  rw [refound, if_neg (by rw [called_cons]; omega), hlen, saved, List.drop_left, hsaved]

/-- The body goes on in `resume()`; in the constructor this is a call. -/
theorem refound_again {cur : Option Nat} {d d' : Nat} {pc pc' : RunPc} {l : List Frame}
    (hcur : cur = (bodies l).head?) :
    saved (.run d' via.again pc' :: l) = refound cur (.run d via pc :: l) (.run d' via.again pc' :: l) := by
  cases via with
  | ctor =>
    refine refound_call (by simp [called_cons, Frame.called, Via.again, Via.calls]; omega) ?_
    rw [hcur]
    rfl
  | ctorResume | resume => exact refound_same rfl rfl

theorem Completed.refound {f : Future} {v : Value Unit} {g g' : Frame} {cur : Option Nat} {l pre : List Frame}
    (h : Completed s t f v l pre s') (hg : g'.called = g.called) :
    saved (pre ++ g' :: rest) = refound cur (g :: rest) (pre ++ g' :: rest) := by
  have hpre : called (pre ++ g' :: rest) = called (g' :: rest) ∧ saved (pre ++ g' :: rest) = saved (g' :: rest) := by
    cases h with
    | alone | cv => exact ⟨rfl, rfl⟩
    | runner => exact ⟨by simp [called_cons, Frame.called], rfl⟩
  refine refound_same ?_ ?_
  · rw [hpre.1, called_cons, called_cons, hg]
  · rw [hpre.2, saved, saved, hg]

theorem Step.saved (h : Step s t top top' rest s') (hcur : s.current t = (bodies (s.stack t)).head?) :
    saved (s'.stack t) = refound (s.current t) (s.stack t) (s'.stack t) := by
  have hb := h.before
  have ha : s'.stack t = top' ++ rest := by rw [h.after, Function.update_self]
  rw [hb] at hcur
  rw [hb, ha]
  cases h with
  | stay => exact refound_same rfl rfl
  | move _ hm =>
    cases hm with
    | suspendReady => exact refound_again hcur
    | resumed => exact refound_return rfl rfl
    | loop =>
      refine refound_call (by simp [called_cons, Frame.called, Via.calls]; omega) ?_
      rw [hcur]
      rfl
    | wait | loopEnd | waitReady | waitDone => exact refound_same (by simp [called_cons, Frame.called]) rfl
    | await | nothingLeft | spin => exact refound_same rfl rfl
  | construct =>
    refine refound_call (by simp [called_cons, Frame.called, Via.calls]; omega) ?_
    rw [hcur]
    rfl
  | handler | enter | leave | finish | repost => exact refound_same (by simp [called_cons, Frame.called]) rfl
  | setValue _ _ hc => simpa using hc.refound (g := _) rfl
  | @setResult _ _ d via res pre _ _ hc =>
    have hret : saved (pre ++ .run d via (.ret res) :: rest) =
        refound (s.current t) (.run d via (.setResult res) :: rest) (pre ++ .run d via (.ret res) :: rest) :=
      hc.refound rfl
    simpa using hret
  | awaitRefused | awaitSpun => exact refound_again hcur
  | constructed | ret => exact refound_return rfl rfl
  | _ => exact refound_same rfl rfl

/-- A call returns where the constructor or `resume()` is the innermost activation, and leaves `current()` alone. -/
theorem Step.returns (h : Step s t top top' rest s') : called (s.stack t) ≤ called (s'.stack t) ∨
    ∃ d via pc l, s.stack t = .run d via pc :: l ∧ called (s'.stack t) = called l ∧ s'.current t = s.current t := by
  have hb := h.before
  have ha : s'.stack t = top' ++ rest := by rw [h.after, Function.update_self]
  rw [hb, ha]
  cases h with
  | move _ hm =>
    cases hm with
    | resumed => exact .inr ⟨_, _, _, _, rfl, rfl, rfl⟩
    | @suspendReady d j n via => cases via <;> exact .inl (by simp [called, Frame.called, Via.again, Via.calls])
    | _ => exact .inl (by simp [called, Frame.called])
  | constructed => exact .inr ⟨_, _, _, _, rfl, rfl, rfl⟩
  | @ret _ _ d k res =>
    refine .inr ⟨_, _, _, _, rfl, rfl, ?_⟩
    obtain ⟨_, _, hret⟩ := s.returnRes_frame t d res (.runner k (.loop res) :: rest)
    rw [hret]
    rfl
  | @awaitRefused _ _ _ _ _ via | @awaitSpun _ _ _ _ _ via =>
    cases via <;> exact .inl (by simp [called, Frame.called, Via.again, Via.calls])
  | _ => exact .inl (by simp [called, Frame.called])

/-! ## No coroutine is beneath its own call -/

/-- The body of `d` is not beneath the constructor or a `resume()` of `d`. -/
def Clear : List Frame → Prop
  | [] => True
  | .run d _ _ :: l => d ∉ bodies l ∧ Clear l
  | _ :: l => Clear l

theorem Clear.tail {f : Frame} {l : List Frame} (h : Clear (f :: l)) : Clear l := by
  cases f with
  | run d via pc => exact h.2
  | _ => exact h

theorem Clear.push {f : Frame} {l : List Frame} (h : Clear l) (hf : ∀ d via pc, f ≠ .run d via pc) :
    Clear (f :: l) := by
  cases f with
  | run d via pc => exact absurd rfl (hf d via pc)
  | _ => exact h

theorem Completed.clear {f : Future} {v : Value Unit} {l l' pre : List Frame} (h : Completed s t f v l pre s')
    (hl : Clear l') : Clear (pre ++ l') := by
  cases h <;> exact hl

theorem step_clear (hi : HandOver s) (h : Step s t top top' rest s') (hc : Clear (s.stack t)) : Clear (s'.stack t) := by
  have hb := h.before
  have habove := hi.above t
  rw [h.after, Function.update_self]
  rw [hb] at hc habove
  cases h with
  | stay => exact hc
  | move _ hm =>
    cases hm with
    | wait => exact hc.push nofun
    | resumed => exact hc.tail
    | loop =>
      -- a Runner loop has no body beneath it
      refine ⟨fun hmem => ?_, hc⟩
      have hnone : bodies rest = [] := habove.1.1
      have hmem' : _ ∈ bodies rest := hmem
      rw [hnone] at hmem'
      cases hmem'
    | loopEnd | waitReady | waitDone | await | nothingLeft | suspendReady | spin => exact hc
  | @construct _ ctx rest f _ hidle =>
    refine ⟨fun hmem => ?_, hc⟩
    obtain ⟨g, hg, hxg⟩ := List.mem_flatMap.1 (bodies_sub hmem)
    have hborn := (hi.unfinished_of_mem (t := t) (by rw [hb]; exact hg) hxg).1
    exact absurd hborn (Nat.lt_irrefl _)
  | handler => exact hc.push nofun
  | setValue _ _ hcm => simpa using hcm.clear hc
  | @setResult _ _ d via res pre _ _ hcm =>
    have hret : Clear (.run d via (.ret res) :: rest) := hc
    simpa using hcm.clear hret
  | constructed | ret | repost => exact hc.tail
  | _ => exact hc

/-! ## Results -/

structure Recorded (j : Journal) (s : State) : Prop where
  handOver : HandOver s
  active : ∀ t, j.active t = bodies (s.stack t)
  found : ∀ t, j.found t = saved (s.stack t)
  clear : ∀ t, Clear (s.stack t)

theorem Chained.head {mOuter : Nat → Option Nat} {cur : Option Nat} {l : List Nat} (h : Chained mOuter cur l) :
    cur = l.head? := by
  cases l with
  | nil => exact h
  | cons d l => exact h.1

theorem recorded_init : Recorded {} init where
  handOver := handOver_init
  active := fun _ => rfl
  found := fun _ => rfl
  clear := fun _ => trivial

theorem step_recorded {j : Journal} {a : Act} (h : Recorded j s) (hst : step s a = some s') :
    Recorded (j.record s a s') s' := by
  obtain ⟨t, top, top', rest, hstep⟩ := step_cases hst
  have hother : ∀ u, u ≠ t → s'.stack u = s.stack u := fun u hu => by rw [hstep.after, Function.update_of_ne hu]
  exact {
    handOver := step_handOver h.handOver hstep
    active := by
      intro u
      simp only [Journal.record, h.active]
      by_cases hu : u = t
      · subst hu
        exact hstep.active.symm
      · rw [hother u hu, seen_same]
    found := by
      intro u
      simp only [Journal.record, h.found]
      by_cases hu : u = t
      · subst hu
        exact (hstep.saved (h.handOver.chained u).head).symm
      · rw [hother u hu]
        exact (refound_same rfl rfl).symm
    clear := by
      intro u
      by_cases hu : u = t
      · subst hu
        exact step_clear h.handOver hstep (h.clear u)
      · rw [hother u hu]
        exact h.clear u }

theorem recorded_run {ok : State → Act → Prop} {as : List Act} (h : Run step ok init as s) : Recorded (journal as) s :=
  h.history_invariant recorded_init fun _ _ _ _ hI _ hst => step_recorded hI hst

theorem Chained.unique {mOuter : Nat → Option Nat} : ∀ {cur : Option Nat} {l l' : List Nat},
    Chained mOuter cur l → Chained mOuter cur l' → l = l' := by
  intro cur l
  induction l generalizing cur with
  | nil =>
    intro l' h h'
    obtain rfl : cur = none := h
    exact h'.eq_nil.symm
  | cons d l ih =>
    intro l' h h'
    cases l' with
    | nil =>
      obtain rfl : cur = none := h'
      cases h.1
    | cons d' l' =>
      obtain ⟨rfl, h⟩ := h
      obtain ⟨hd, h'⟩ := h'
      obtain rfl := Option.some.inj hd
      rw [ih h h']

theorem Chained.from_mem {mOuter : Nat → Option Nat} : ∀ {cur : Option Nat} {l : List Nat},
    Chained mOuter cur l → d ∈ l → ∃ l', Chained mOuter (mOuter d) l' ∧ l'.length < l.length := by
  intro cur l
  induction l generalizing cur with
  | nil =>
    intro _ hd
    cases hd
  | cons e l ih =>
    intro h hd
    rcases List.mem_cons.1 hd with rfl | hd
    · exact ⟨l, h.2, Nat.lt_succ_self _⟩
    · obtain ⟨l', hl', hlt⟩ := ih h.2 hd
      exact ⟨l', hl', Nat.lt_succ_of_lt hlt⟩

/-- A chain that ends has no Data twice. -/
theorem Chained.nodup {mOuter : Nat → Option Nat} {cur : Option Nat} {l : List Nat} (h : Chained mOuter cur l) :
    l.Nodup := by
  induction l generalizing cur with
  | nil => exact List.nodup_nil
  | cons d l ih =>
    refine List.nodup_cons.2 ⟨fun hd => ?_, ih h.2⟩
    obtain ⟨l', hl', hlt⟩ := h.2.from_mem hd
    rw [h.2.unique hl'] at hlt
    exact absurd hlt (Nat.lt_irrefl _)

/-- No Data is in the chains of two threads. -/
theorem Inv.bodies_disjoint (hi : Inv s) (ht : d ∈ bodies (s.stack t)) (hu : d ∈ bodies (s.stack u)) : t = u := by
  have hspot := hi.rights.unique (p := .inl t) (q := .inl u) (bodies_sub ht) (bodies_sub hu)
  exact Sum.inl.inj hspot

/-- **`current()` obeys stack discipline.** On every thread the chain `current()`, `current()->mOuter`, … is the list of
the coroutines that were entered or resumed on it and have neither left nor ended since, innermost first; no Data is in
it twice or in the chains of two threads. When calls of the constructor of Data or of `resume()` return, `current()` is
what they have found. The coroutine that leaves or ends is the current one
(`this == exitedCoro`), one that is entered or resumed is not (`this != mOuter`), nor is it when the constructor or
`resume()` returns (`current() != this`). -/
theorem current_stack_discipline {ok : State → Act → Prop} {as : List Act} (h : Run step ok init as s) :
    (∀ t, Chained s.mOuter (s.current t) ((journal as).active t)) ∧
    (∀ t, ((journal as).active t).Nodup) ∧
    (∀ t u d, d ∈ (journal as).active t → d ∈ (journal as).active u → t = u) ∧
    (∀ a s', step s a = some s' → ∀ t,
      ∀ x ∈ ((journal as).found t).take (called (s.stack t) - called (s'.stack t)), x = s'.current t) ∧
    (∀ t d leaving rest, s.stack t = .body d leaving :: rest → s.current t = some d) ∧
    (∀ t d via pc rest, s.stack t = .run d via pc :: rest → s.current t ≠ some d) := by
  have hr := recorded_run h
  have hchain := hr.handOver.chained
  refine ⟨fun t => ?_, fun t => ?_, fun t u d ht hu => ?_, fun a s' hst t x hx => ?_,
    fun t d leaving rest hs => ?_, fun t d via pc rest hs hcur => ?_⟩
  · rw [hr.active]
    exact hchain t
  · rw [hr.active]
    exact (hchain t).nodup
  · rw [hr.active] at ht hu
    exact hr.handOver.bodies_disjoint ht hu
  · obtain ⟨u, top, top', rest, hstep⟩ := step_cases hst
    have hmore : called (s.stack t) ≤ called (s'.stack t) → x = s'.current t := by
      intro hle
      rw [Nat.sub_eq_zero_of_le hle, List.take_zero] at hx
      cases hx
    by_cases hu : t = u
    · subst hu
      rcases hstep.returns with hle | ⟨d, via, pc, l, hs, hl, hcur⟩
      · exact hmore hle
      · rw [hr.found, hs, hl, called_cons, Nat.add_sub_cancel, saved] at hx
        have hlen :
            (List.replicate (Frame.run d via pc).called (bodies l).head?).length = (Frame.run d via pc).called :=
          List.length_replicate
        rw [List.take_append_of_le_length (Nat.le_of_eq hlen.symm), List.take_of_length_le (Nat.le_of_eq hlen)] at hx
        rw [List.eq_of_mem_replicate hx, hcur, (hchain t).head, hs]
        rfl
    · refine hmore (Nat.le_of_eq ?_)
      rw [hstep.after, Function.update_of_ne hu]
  · have hc := hchain t
    rw [hs] at hc
    exact hc.1
  · have hc := hchain t
    have hclear := hr.clear t
    rw [hs] at hc hclear
    rw [hcur] at hc
    have hhead := hc.head
    exact hclear.1 (List.mem_of_mem_head? hhead.symm)

/-- A coroutine is entered inside another one, leaves, and is resumed on a second thread. -/
def migratingSchedule : List Act :=
  [.construct 0 0, .step 0, .construct 0 0, .step 0, .await 0 (.future 0), .step 0, .step 0, .step 0, .step 0,
    .setValue 1 0 (.val ()), .step 1, .step 1, .step 1]

theorem current_stack_discipline_migrating : ∃ s : State, Run step anyStep init migratingSchedule s ∧
    s.current 0 = some 0 ∧ s.current 1 = some 1 ∧ Chained s.mOuter (s.current 0) [0] ∧
    Chained s.mOuter (s.current 1) [1] := by
  have hrun := exec_get_run step anyStep init migratingSchedule (by decide)
  have hchain := (current_stack_discipline hrun).1
  exact ⟨_, hrun, by decide, by decide, hchain 0, hchain 1⟩

end CoAwait.Routine
