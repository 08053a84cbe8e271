import CoAwait.RoutineOwnership

/-!
# The right to resume a coroutine is never duplicated

* `step_rights`, `step_refs`, `step_builds`: every step moves the tokens, none is copied or lost.
* `step_sound`, `step_runners`, `step_continuations`: what the holder of a right knows.
* `right_unique`: the right of an unfinished coroutine is in exactly one place.
-/

namespace CoAwait.Routine

open Runs Tokens

variable {s s' : State} {d e x : Nat} {k : RunnerId} {via : Via} {pc : RunPc} {res : Ptr} {t : Nat}
  {top top' rest : List Frame}

/-! ## The invariant -/

/-- Before its constructor has run, `d` is as the initializers leave it. -/
structure State.Blank (s : State) (d : Nat) : Prop extends State.Idle s d where
  awaits : s.awaits d = s.resumes d
  constructed : s.constructed d = false
  result : (s.fut (.result d)).isReady = false

structure Inv (s : State) : Prop where
  rights : Sole (spread Frame.holds s.stack s.rights) s.unfinished
  refs : Sole (spread Frame.calls s.stack s.refs) (fun k => s.live k = true)
  builds : Sole (spread Frame.builds s.stack (fun q : Empty => nomatch q)) s.underConstruction
  stacked : ∀ t, Stacked (s.stack t)
  frames : ∀ t, ∀ f ∈ s.stack t, f.Sound s
  runners : ∀ k x, s.live k = true → s.mCaller k = .data x → x = k.1 ∧ s.Waiting x
  continuations : ∀ e x, s.mContinuation e = .data x → s.Waiting x ∧ s.constructed e = true
  fresh : ∀ d j, s.awaits d ≤ j → s.live (d, j) = false
  counts : ∀ d, s.resumes d ≤ s.awaits d ∧ s.awaits d ≤ s.resumes d + 1
  waiter : ∀ e k, s.waiter e = some k → (s.fut (.result e)).continuationPtr ≠ .empty ∧ s.constructed e = true
  published : ∀ d, (s.fut (.result d)).isReady = true → s.mPull d = false
  blank : ∀ d, s.born ≤ d → s.Blank d

theorem inv_init : Inv init where
  rights := ⟨fun d hd => absurd hd.1 (Nat.not_lt_zero d), fun p x hx => by
    rcases p with t | q
    · simp [spread, init] at hx
    · cases q <;> simp [spread, init, State.rights, Ptr.toList] at hx⟩
  refs := ⟨fun k hk => by simp [init] at hk, fun p x hx => by
    rcases p with t | q
    · simp [spread, init] at hx
    · cases q <;> simp [spread, init, State.refs] at hx⟩
  builds := ⟨fun d hd => absurd hd.1 (Nat.not_lt_zero d), fun p x hx => by
    rcases p with t | q
    · simp [spread, init] at hx
    · cases q⟩
  stacked := fun _ => rfl
  frames := by
    intro t f hf
    obtain rfl : f = .main := by simpa [init] using hf
    trivial
  runners := fun _ _ h => by simp [init] at h
  continuations := fun _ _ h => by simp [init] at h
  fresh := fun _ _ _ => rfl
  counts := fun _ => by simp [init]
  waiter := fun _ _ h => by simp [init] at h
  published := fun _ h => by simp [init] at h
  blank := fun _ _ => ⟨⟨rfl, rfl⟩, rfl, rfl, rfl⟩

theorem Inv.unfinished_of_mem (hi : Inv s) {f : Frame} (hf : f ∈ s.stack t) (hx : x ∈ f.holds) : s.unfinished x :=
  hi.rights.living (.inl t) x (List.mem_flatMap.2 ⟨f, hf, hx⟩)

theorem Inv.live_of_mem (hi : Inv s) (hf : .runner k .enter ∈ s.stack t) : s.live k = true :=
  hi.refs.living (.inl t) k (List.mem_flatMap.2 ⟨_, hf, by simp⟩)

theorem Inv.underConstruction_of_mem (hi : Inv s) (hf : .run d via pc ∈ s.stack t) (hv : via ≠ .resume) :
    s.underConstruction d :=
  hi.builds.living (.inl t) d (List.mem_flatMap.2 ⟨_, hf, by simp [hv]⟩)

theorem Step.mem (h : Step s t top top' rest s') {f : Frame} (hf : f ∈ top) : f ∈ s.stack t := by
  rw [h.before]
  exact List.mem_append_left _ hf

theorem Inv.same (hi : Inv s) (h : Step s t top top' rest s') (hx : x ∉ top.flatMap Frame.holds) : Same s s' x :=
  h.same (fun _ hk => hi.live_of_mem (h.mem hk)) hx

theorem Inv.grows (hi : Inv s) (h : Step s t top top' rest s') : Grows s s' :=
  h.grows fun e k hk => (hi.waiter e k hk).1

/-! ## The rights -/

theorem rights_dead (h : s.live k = false) : s.rights (.runner k) = [] := by simp [State.rights, h]

theorem rights_eq (hlive : s'.live = s.live) (hc : ∀ k, s.live k = true → s'.mCaller k = s.mCaller k)
    (hm : s'.mContinuation = s.mContinuation) (q : Spot) : s'.rights q = s.rights q := by
  cases q with
  | continuation e => simp [State.rights, hm]
  | runner k =>
    cases hk : s.live k with
    | false => rw [rights_dead hk, rights_dead (by rw [hlive, hk])]
    | true => simp [State.rights, hlive, hk, hc k hk]

theorem unfinished_iff (hb : s'.born = s.born)
    (hf : ∀ d, (s'.fut (.result d)).isReady = (s.fut (.result d)).isReady) (y : Nat) :
    s'.unfinished y ↔ s.unfinished y := by
  rw [State.unfinished, State.unfinished, hb, hf]

theorem Moves.holds (h : Moves s top top') (hsound : ∀ f ∈ top, f.Sound s) (y : Nat) :
    (top'.flatMap Frame.holds).count y = (top.flatMap Frame.holds).count y := by
  cases h with
  | @nothingLeft d via hp =>
    obtain ⟨-, -, j, aw, hm, -⟩ := hsound _ List.mem_cons_self
    rw [hp] at hm
    cases hm
  | @loopEnd k c hc => cases c <;> simp_all [Ptr.toList]
  | _ => simp [Ptr.toList]

theorem Inv.sound (hi : Inv s) (h : Step s t top top' rest s') : ∀ f ∈ top, f.Sound s :=
  fun f hf => hi.frames t f (h.mem hf)

/-- `mPush()` and the end of the body return to the activation that pulled. -/
theorem Inv.pulled (hi : Inv s) {d d' : Nat} {leaving : Option Awaitable}
    (hs : s.stack t = .body d leaving :: .run d' via .pull :: rest) : d' = d := by
  have hst := hi.stacked t
  rw [hs] at hst
  obtain ⟨via', hr⟩ := hst.1
  cases hr
  rfl

/-- A Runner is given away: to the future or to the queue, it takes the right along. -/
theorem Inv.register_rights (hi : Inv s) {j : Nat} (hf : s.Fresh (d, j)) (hb : s.stack t = top ++ rest)
    (ha : s'.stack = Function.update s.stack t (top' ++ rest)) (hlive : s'.live = Function.update s.live (d, j) true)
    (hcaller : s'.mCaller = s.mCaller) (hcont : s'.mContinuation = s.mContinuation)
    (hun : ∀ y, s'.unfinished y ↔ s.unfinished y)
    (hsum : ∀ y, (top'.flatMap Frame.holds).count y + (s.mCaller (d, j)).toList.count y =
      (top.flatMap Frame.holds).count y) :
    Sole (spread Frame.holds s'.stack s'.rights) s'.unfinished := by
  refine hi.rights.exchange (q := .runner (d, j)) hb ha (fun y => ?_) (fun r hr => ?_) hun
  · have hnew : s'.rights (.runner (d, j)) = (s.mCaller (d, j)).toList := by
      simp [State.rights, hlive, hcaller]
    rw [hnew, rights_dead hf.live, hsum y]
    simp
  · cases r with
    | continuation e => simp [State.rights, hcont]
    | runner k =>
      have hk : k ≠ (d, j) := fun hk => hr (by rw [hk])
      simp [State.rights, hlive, hcaller, hk]

theorem Completed.rights_plain {n : Nat} {v : Value Unit} {l pre : List Frame} (hi : Inv s)
    (h : Completed s t (.plain n) v l pre s') (hb : s.stack t = top ++ rest)
    (ha : s'.stack = Function.update s.stack t ((pre ++ top) ++ rest)) :
    Sole (spread Frame.holds s'.stack s'.rights) s'.unfinished := by
  refine hi.rights.restack hb ha (fun y => ?_) ?_ ?_
  · cases h <;> simp
  · cases h <;> exact rights_eq rfl (fun _ _ => rfl) rfl
  · cases h <;> exact unfinished_iff rfl fun _ => by simp

/-- The completing thread publishes the result of `d` and is through with `d`. -/
theorem Completed.rights_result {v : Value Unit} {l pre : List Frame} (hi : Inv s)
    (h : Completed s t (.result d) v l pre s') (hd : s.unfinished d)
    (hb : s.stack t = .run d via (.setResult res) :: rest)
    (ha : s'.stack = Function.update s.stack t ((pre ++ [.run d via (.ret res)]) ++ rest)) :
    Sole (spread Frame.holds s'.stack s'.rights) s'.unfinished := by
  have hb' : s.stack t = [.run d via (.setResult res)] ++ rest := hb
  refine hi.rights.pop (x := d) hb' ha (fun y => ?_) ?_ (fun y => ?_)
  · cases h <;> simp [List.count_cons]
  · cases h <;> exact rights_eq rfl (fun _ _ => rfl) rfl
  · by_cases hy : y = d
    · subst hy
      cases h <;> simp [State.unfinished]
    · cases h <;> simp [State.unfinished, hy, State.goto]

theorem step_rights (hi : Inv s) (h : Step s t top top' rest s') :
    Sole (spread Frame.holds s'.stack s'.rights) s'.unfinished := by
  have hb := h.before
  have ha := h.after
  have hsound := hi.sound h
  cases h with
  | stay => exact hi.rights
  | move _ hm =>
    exact hi.rights.restack hb ha (hm.holds hsound) (rights_eq rfl (fun _ _ => rfl) rfl) (fun _ => Iff.rfl)
  | construct hs hf =>
    have hblank := hi.blank s.born (Nat.le_refl _)
    refine hi.rights.push (x := s.born) hb ha (fun hd => absurd hd.1 (Nat.lt_irrefl _)) (fun y => ?_)
      (rights_eq rfl (fun _ _ => rfl) rfl) (fun y => ?_)
    · simp [List.count_cons]
    · simp only [State.unfinished, State.goto]
      constructor
      · rintro ⟨hlt, hr⟩
        by_cases hy : y = s.born
        · exact .inl hy
        · exact .inr ⟨by omega, hr⟩
      · rintro (rfl | ⟨hlt, hr⟩)
        · exact ⟨by omega, hblank.result⟩
        · exact ⟨by omega, hr⟩
  | enter =>
    exact hi.rights.restack hb ha (fun y => by simp) (rights_eq rfl (fun _ _ => rfl) rfl) (fun _ => Iff.rfl)
  | @leave _ _ d d' =>
    have hd := hi.pulled hb
    have hdead := hi.fresh d _ (Nat.le_refl _)
    refine hi.rights.restack hb ha (fun y => by simp [hd]) (rights_eq rfl (fun k hk => ?_) rfl) (fun _ => Iff.rfl)
    have hne : k ≠ (d, s.awaits d) := by
      rintro rfl
      rw [hdead] at hk
      cases hk
    simp [State.leave, hne]
  | @finish _ _ d d' via v pc _ hpc =>
    have hd := hi.pulled hb
    refine hi.rights.restack hb ha (fun y => ?_) (rights_eq rfl (fun _ _ => rfl) rfl) (fun _ => Iff.rfl)
    rw [hpc]
    split <;> simp [hd, Ptr.toList]
  | setValue hs hf hc => exact hc.rights_plain hi hb ha
  | handler hs hf hk =>
    exact hi.rights.restack hb ha (fun y => by simp) (rights_eq rfl (fun _ _ => rfl) rfl) (fun _ => Iff.rfl)
  | fetch =>
    exact hi.rights.restack hb ha (fun y => by simp) (rights_eq rfl (fun _ _ => rfl) rfl) (fun _ => Iff.rfl)
  | @registerFuture _ _ d j n via hs hp =>
    obtain ⟨-, hf, hc, -⟩ := hsound _ List.mem_cons_self
    exact hi.register_rights hf hb ha rfl rfl rfl (unfinished_iff rfl fun _ => by simp [State.register])
      (fun y => by simp [hc, Ptr.toList])
  | @registerContext _ _ d j c via =>
    obtain ⟨-, hf, hc, -⟩ := hsound _ List.mem_cons_self
    exact hi.register_rights hf hb ha rfl rfl rfl (fun _ => Iff.rfl) (fun y => by simp [hc, Ptr.toList])
  | @awaitExchange _ _ d j e via =>
    obtain ⟨-, hf, hc, -⟩ := hsound _ List.mem_cons_self
    refine hi.rights.restack hb ha (fun y => by simp) (rights_eq rfl (fun k hk => ?_) rfl) (fun _ => Iff.rfl)
    have hne : k ≠ (d, j) := by
      rintro rfl
      rw [hf.live] at hk
      cases hk
    simp [hne]
  | @awaitRegister _ _ d j e via c hs hp =>
    obtain ⟨-, hf, hc, -⟩ := hsound _ List.mem_cons_self
    refine hi.register_rights hf hb ha rfl rfl rfl (unfinished_iff rfl fun y => ?_)
      (fun y => by simp [hc, Ptr.toList])
    by_cases hy : y = e
    · subst hy
      simp [State.register, LightFutureData.isReady, hp]
    · simp [State.register, hy, State.goto]
  | awaitRefused | awaitSpun =>
    exact hi.rights.restack hb ha (fun y => by simp) (rights_eq rfl (fun _ _ => rfl) rfl) (fun _ => Iff.rfl)
  | @awaitParked _ _ d j e via c hs hm =>
    obtain ⟨-, rfl, -⟩ := hsound _ List.mem_cons_self
    refine hi.rights.exchange (q := .continuation e) hb ha (fun y => ?_) (fun r hr => ?_) (fun _ => Iff.rfl)
    · simp [State.rights, hm, Ptr.toList]
    · cases r with
      | runner k => rfl
      | continuation e' =>
        have he : e' ≠ e := fun he => hr (by rw [he])
        simp [State.rights, he]
  | @constructed _ _ d via pc hs hv hpc =>
    have hund := hi.underConstruction_of_mem (t := t) (by rw [hb]; exact List.mem_cons_self) hv
    refine hi.rights.restack hb ha (fun y => ?_) (rights_eq rfl (fun _ _ => rfl) rfl) (fun _ => Iff.rfl)
    rcases hpc with rfl | ⟨res, rfl⟩
    · simp
    · -- nobody awaits before the constructor has returned: `res` is no Data
      have hres : s.Resumable d res := hsound _ List.mem_cons_self
      cases res with
      | null | one => simp [Ptr.toList]
      | data x =>
        have := hres.constructed x rfl
        rw [hund.2] at this
        cases this
  | @ended _ _ d =>
    refine hi.rights.exchange (q := .continuation d) hb ha (fun y => ?_) (fun r hr => ?_) (fun _ => Iff.rfl)
    · simp only [State.rights, List.flatMap_cons, List.flatMap_nil, Frame.holds, RunPc.holds, List.append_nil,
        Function.update_self, List.count_cons, Ptr.toList, List.count_nil]
      omega
    · cases r with
      | runner k => rfl
      | continuation e' =>
        have he : e' ≠ d := fun he => hr (by rw [he])
        simp [State.rights, he]
  | runPostLeave =>
    exact hi.rights.restack hb ha (fun y => by simp) (rights_eq rfl (fun _ _ => rfl) rfl) (fun _ => Iff.rfl)
  | @setContinuation _ _ d via res c hs hc =>
    refine hi.rights.restack hb ha (fun y => by simp) (fun q => ?_) (fun _ => Iff.rfl)
    cases q with
    | runner k => rfl
    | continuation e =>
      by_cases he : e = d
      · subst he
        cases hm : s.mContinuation e <;> simp [State.rights, hc, hm, Ptr.toList]
      · simp [State.rights, he]
  | setResult hs hc =>
    exact hc.rights_result hi (hi.unfinished_of_mem (by rw [hb]; exact List.mem_cons_self) (by simp)) hb ha
  | @ret _ _ d k res =>
    refine hi.rights.restack hb ha (fun y => by simp) ?_ ?_
    · obtain ⟨_, _, hret⟩ := s.returnRes_frame t d res (.runner k (.loop res) :: rest)
      rw [hret]
      exact rights_eq rfl (fun _ _ => rfl) rfl
    · obtain ⟨_, _, hret⟩ := s.returnRes_frame t d res (.runner k (.loop res) :: rest)
      rw [hret]
      exact fun _ => Iff.rfl
  | repost =>
    exact hi.rights.restack hb ha (fun y => by simp) (rights_eq rfl (fun _ _ => rfl) rfl) (fun _ => Iff.rfl)
  | @exchange _ _ k =>
    have hk := hi.live_of_mem (t := t) (by rw [hb]; exact List.mem_cons_self)
    refine hi.rights.exchange (q := .runner k) hb ha (fun y => ?_) (fun r hr => ?_) (fun _ => Iff.rfl)
    · simp [State.rights, hk]
    · cases r with
      | continuation e => rfl
      | runner k' =>
        have hne : k' ≠ k := fun he => hr (by rw [he])
        simp [State.rights, hne]
  | @waitRegister _ _ f hs hp =>
    refine hi.rights.restack hb ha (fun y => by simp) (rights_eq rfl (fun _ _ => rfl) rfl)
      (unfinished_iff rfl fun y => ?_)
    by_cases hy : Future.result y = f
    · subst hy
      simp [LightFutureData.isReady, hp]
    · simp [hy]

/-! ## The references to Runners -/

theorem refs_eq (hf : ∀ f, (s'.fut f).continuationPtr = (s.fut f).continuationPtr) (hq : s'.queue = s.queue)
    (q : RefSpot) : s'.refs q = s.refs q := by
  cases q with
  | fut f => simp [State.refs, hf]
  | queue c => simp [State.refs, hq]

theorem refs_fut (f : Future) : s.refs (.fut f) =
    match (s.fut f).continuationPtr with
    | .task (.runner k) => [k]
    | _ => [] := rfl

theorem Moves.calls (h : Moves s top top') (y : RunnerId) :
    (top'.flatMap Frame.calls).count y = (top.flatMap Frame.calls).count y := by
  cases h <;> simp

/-- The reference is handed over from the completed future to the thread. -/
theorem Completed.refs {f : Future} {v : Value Unit} {l pre below : List Frame} (hi : Inv s)
    (h : Completed s t f v l pre s') (hb : s.stack t = top ++ rest)
    (ha : s'.stack = Function.update s.stack t ((pre ++ below) ++ rest))
    (hbelow : below.flatMap Frame.calls = top.flatMap Frame.calls) :
    Sole (spread Frame.calls s'.stack s'.refs) (fun k => s'.live k = true) := by
  refine hi.refs.exchange (q := .fut f) hb ha (fun y => ?_) (fun r hr => ?_) (fun y => ?_)
  · cases h with
    | alone hp | cv hp => simp [refs_fut, hp, hbelow]
    | runner hp =>
      simp only [refs_fut, hp, Function.update_self, List.flatMap_append, hbelow, List.count_append,
        List.flatMap_cons, List.flatMap_nil, Frame.calls, List.append_nil, List.count_nil]
      omega
  · cases r with
    | queue c => cases h <;> rfl
    | fut f' =>
      have hne : f' ≠ f := fun he => hr (by rw [he])
      cases h <;> simp [refs_fut, hne, State.goto]
  · cases h <;> exact Iff.rfl

/-- A Runner is registered or queued for the first time. -/
theorem Inv.register_refs (hi : Inv s) {q : RefSpot} (hk : s.live k = false) (hb : s.stack t = top ++ rest)
    (ha : s'.stack = Function.update s.stack t (top' ++ rest)) (hlive : s'.live = Function.update s.live k true)
    (htop : ∀ y, (top'.flatMap Frame.calls).count y = (top.flatMap Frame.calls).count y)
    (hq : ∀ y, (s'.refs q).count y = (s.refs q).count y + if k == y then 1 else 0)
    (hother : ∀ r, r ≠ q → s'.refs r = s.refs r) :
    Sole (spread Frame.calls s'.stack s'.refs) (fun k => s'.live k = true) := by
  refine hi.refs.arrive (q := q) (x := k) hb ha (by simp [hk]) htop hq hother (fun y => ?_)
  by_cases hy : y = k <;> simp [hlive, hy]

theorem step_refs (hi : Inv s) (h : Step s t top top' rest s') :
    Sole (spread Frame.calls s'.stack s'.refs) (fun k => s'.live k = true) := by
  have hb := h.before
  have ha := h.after
  have hsound := hi.sound h
  cases h with
  | stay => exact hi.refs
  | move _ hm => exact hi.refs.restack hb ha hm.calls (refs_eq (fun _ => rfl) rfl) (fun _ => Iff.rfl)
  | setValue hs hf hc => exact hc.refs hi hb ha rfl
  | setResult hs hc => exact hc.refs hi hb ha rfl
  | @handler _ _ c i k f hs hf hk =>
    refine hi.refs.exchange (q := .queue c) hb ha (fun y => ?_) (fun r hr => ?_) (fun _ => Iff.rfl)
    · have hperm : (k :: (s.queue c).eraseIdx i).Perm (s.queue c) := by
        obtain ⟨hlt, rfl⟩ := List.getElem?_eq_some_iff.1 hk
        exact ((List.erase_getElem hlt).symm.cons _).trans (List.perm_cons_erase (List.getElem_mem hlt)).symm
      have hcount := hperm.count_eq y
      simp only [List.count_cons] at hcount
      simp only [State.refs, Function.update_self, List.flatMap_cons, List.flatMap_nil, Frame.calls,
        List.count_append, List.count_cons, List.count_nil]
      omega
    · cases r with
      | fut f => rfl
      | queue c' =>
        have hne : c' ≠ c := fun he => hr (by rw [he])
        simp [State.refs, hne]
  | @registerFuture _ _ d j n via hs hp =>
    obtain ⟨-, hf, -⟩ := hsound _ List.mem_cons_self
    refine hi.register_refs (q := .fut (.plain n)) hf.live hb ha rfl (fun y => by simp) (fun y => ?_) (fun r hr => ?_)
    · simp [refs_fut, State.register, hp, List.count_cons]
    · cases r with
      | queue c => rfl
      | fut f =>
        have hne : f ≠ .plain n := fun he => hr (by rw [he])
        simp [refs_fut, State.register, hne, State.goto]
  | @registerContext _ _ d j c via =>
    obtain ⟨-, hf, -⟩ := hsound _ List.mem_cons_self
    refine hi.register_refs (q := .queue c) hf.live hb ha rfl (fun y => by simp) (fun y => ?_) (fun r hr => ?_)
    · simp [State.refs, List.count_cons]
    · cases r with
      | fut f => rfl
      | queue c' =>
        have hne : c' ≠ c := fun he => hr (by rw [he])
        simp [State.refs, hne]
  | @awaitRegister _ _ d j e via c hs hp =>
    obtain ⟨-, hf, -⟩ := hsound _ List.mem_cons_self
    refine hi.register_refs (q := .fut (.result e)) hf.live hb ha rfl (fun y => by simp) (fun y => ?_)
      (fun r hr => ?_)
    · simp [refs_fut, State.register, hp, List.count_cons]
    · cases r with
      | queue c => rfl
      | fut f =>
        have hne : f ≠ .result e := fun he => hr (by rw [he])
        simp [refs_fut, State.register, hne, State.goto]
  | @ret _ _ d k res =>
    obtain ⟨_, _, hret⟩ := s.returnRes_frame t d res (.runner k (.loop res) :: rest)
    rw [hret] at ha ⊢
    exact hi.refs.restack hb ha (fun y => by simp) (refs_eq (fun _ => rfl) rfl) (fun _ => Iff.rfl)
  | @repost _ _ x k =>
    refine hi.refs.exchange (q := .queue (s.mContext x)) hb ha (fun y => ?_) (fun r hr => ?_) (fun _ => Iff.rfl)
    · simp [State.refs, Nat.add_comm]
    · cases r with
      | fut f => rfl
      | queue c' =>
        have hne : c' ≠ s.mContext x := fun he => hr (by rw [he])
        simp [State.refs, hne]
  | @exchange _ _ k =>
    refine hi.refs.pop (x := k) hb ha (fun y => by simp [List.count_cons]) (refs_eq (fun _ => rfl) rfl) (fun y => ?_)
    by_cases hy : y = k <;> simp [hy]
  | @waitRegister _ _ f hs hp =>
    refine hi.refs.restack hb ha (fun y => by simp) (fun q => ?_) (fun _ => Iff.rfl)
    cases q with
    | queue c => rfl
    | fut f' =>
      by_cases hf : f' = f
      · subst hf
        simp [refs_fut, hp]
      · simp [refs_fut, hf]
  | finish _ hpc =>
    exact hi.refs.restack hb ha (fun y => by simp) (refs_eq (fun _ => rfl) rfl) (fun _ => Iff.rfl)
  | _ => exact hi.refs.restack hb ha (fun y => by simp) (refs_eq (fun _ => rfl) rfl) (fun _ => Iff.rfl)

/-! ## The constructors -/

theorem underConstruction_iff (hb : s'.born = s.born) (hc : s'.constructed = s.constructed) (y : Nat) :
    s'.underConstruction y ↔ s.underConstruction y := by
  rw [State.underConstruction, State.underConstruction, hb, hc]

theorem Moves.builds (h : Moves s top top') (y : Nat) :
    (top'.flatMap Frame.builds).count y = (top.flatMap Frame.builds).count y := by
  cases h with
  | @suspendReady _ _ _ via => cases via <;> simp [Via.again]
  | _ => simp

theorem step_builds (hi : Inv s) (h : Step s t top top' rest s') :
    Sole (spread Frame.builds s'.stack (fun q : Empty => nomatch q)) s'.underConstruction := by
  have hb := h.before
  have ha := h.after
  cases h with
  | stay => exact hi.builds
  | move _ hm => exact hi.builds.restack hb ha hm.builds nofun (fun _ => Iff.rfl)
  | construct hs hf =>
    have hblank := hi.blank s.born (Nat.le_refl _)
    refine hi.builds.push (x := s.born) hb ha (fun hd => absurd hd.1 (Nat.lt_irrefl _)) (fun y => ?_) nofun
      (fun y => ?_)
    · simp [List.count_cons]
    · simp only [State.underConstruction, State.goto]
      constructor
      · rintro ⟨hlt, hc⟩
        by_cases hy : y = s.born
        · exact .inl hy
        · exact .inr ⟨by omega, hc⟩
      · rintro (rfl | ⟨hlt, hc⟩)
        · exact ⟨by omega, hblank.constructed⟩
        · exact ⟨by omega, hc⟩
  | setValue _ _ hc | setResult _ hc =>
    refine hi.builds.restack hb ha (fun y => ?_) nofun (underConstruction_iff ?_ ?_)
    · cases hc <;> simp
    · cases hc <;> rfl
    · cases hc <;> rfl
  | @awaitRefused _ _ _ _ _ via | @awaitSpun _ _ _ _ _ via =>
    exact hi.builds.restack hb ha (fun y => by cases via <;> simp [Via.again]) nofun (fun _ => Iff.rfl)
  | @constructed _ _ d via pc hs hv =>
    refine hi.builds.pop (x := d) hb ha (fun y => by simp [hv, List.count_cons]) nofun (fun y => ?_)
    by_cases hy : y = d
    · subst hy
      simp [State.underConstruction, State.construct]
    · simp [State.underConstruction, State.construct, hy, State.goto]
  | @ret _ _ d k res =>
    obtain ⟨_, _, hret⟩ := s.returnRes_frame t d res (.runner k (.loop res) :: rest)
    rw [hret] at ha ⊢
    exact hi.builds.restack hb ha (fun y => by simp) nofun (fun _ => Iff.rfl)
  | _ => exact hi.builds.restack hb ha (fun y => by simp) nofun (fun _ => Iff.rfl)

/-! ## What is known of the activations -/

theorem goto_same (s : State) (t : Nat) (l : List Frame) (x : Nat) : Same s (s.goto t l) x :=
  ⟨rfl, rfl, rfl, rfl, rfl, rfl, fun _ => rfl, fun _ h => ⟨h, rfl⟩⟩

theorem State.Waiting.enter_again (h : s.Waiting d) : RunPc.Sound s d via.again .enter :=
  ⟨h.toIdle, by cases via <;> simpa [Via.again] using h.left⟩

theorem Moves.sound (h : Moves s top top') (hsound : ∀ f ∈ top, f.Sound s) : ∀ f ∈ top', f.Sound s := by
  intro f hf
  cases h with
  | await hk =>
    obtain rfl := List.mem_singleton.1 hf
    obtain ⟨hi, ha, -⟩ := hsound _ List.mem_cons_self
    exact ⟨hi, ha, fun aw haw => by cases haw; exact hk⟩
  | wait hg hk =>
    rcases List.mem_cons.1 hf with rfl | hf
    · trivial
    · exact hsound f hf
  | nothingLeft =>
    obtain rfl := List.mem_singleton.1 hf
    trivial
  | suspendReady =>
    obtain rfl := List.mem_singleton.1 hf
    obtain ⟨hw, -⟩ := hsound _ List.mem_cons_self
    exact hw.enter_again
  | spin =>
    obtain rfl := List.mem_singleton.1 hf
    exact (hsound _ List.mem_cons_self).1
  | resumed =>
    obtain rfl := List.mem_singleton.1 hf
    exact nofun
  | @loop d k =>
    have hw : s.Waiting d := hsound _ List.mem_cons_self d rfl
    rcases List.mem_cons.1 hf with rfl | hf
    · have henter : RunPc.Sound s d (Via.again .resume) .enter := hw.enter_again
      exact henter
    · obtain rfl := List.mem_singleton.1 hf
      trivial
  | loopEnd | waitReady | waitDone => cases hf

theorem Completed.sound {f : Future} {v : Value Unit} {l pre : List Frame} (h : Completed s t f v l pre s') {g : Frame}
    (hg : g.Sound s) : ∀ f ∈ pre ++ [g], f.Sound s' := by
  intro f hf
  rcases List.mem_append.1 hf with hf | hf
  · cases h with
    | alone | cv => cases hf
    | runner =>
      obtain rfl := List.mem_singleton.1 hf
      trivial
  · obtain rfl := List.mem_singleton.1 hf
    exact hg.same (fun x _ => h.same x) h.grows

theorem step_sound (hi : Inv s) (h : Step s t top top' rest s') : ∀ f ∈ top', f.Sound s' := by
  have hb := h.before
  have hsound := hi.sound h
  have hg := hi.grows h
  intro f hf
  cases h with
  | stay => cases hf
  | move _ hm => exact (hm.sound hsound f hf).same (fun x _ => goto_same ..) hg
  | construct hs hidle =>
    have hblank := hi.blank s.born (Nat.le_refl _)
    rcases List.mem_cons.1 hf with rfl | hf
    · exact ⟨⟨hblank.active, hblank.postLeave⟩, hblank.awaits⟩
    · exact (hsound f hf).same (fun x _ => ⟨rfl, rfl, rfl, rfl, rfl, rfl, fun _ => rfl, fun _ h => ⟨h, rfl⟩⟩) hg
  | @enter _ _ d via =>
    obtain ⟨hidle, ha⟩ := hsound _ List.mem_cons_self
    rcases List.mem_cons.1 hf with rfl | hf
    · exact ⟨⟨hidle.active, hidle.postLeave⟩, by simpa [State.enter, State.goto] using ha, by simp⟩
    · obtain rfl := List.mem_singleton.1 hf
      trivial
  | @leave _ _ d d' via aw =>
    obtain rfl := hi.pulled hb
    obtain ⟨hidle, ha, hk⟩ := hsound _ List.mem_cons_self
    obtain rfl := List.mem_singleton.1 hf
    refine ⟨hidle.active, by simp [State.leave, State.goto, ha], s.awaits d', aw, by simp [State.leave], ⟨?_, ?_⟩, ?_,
      ?_⟩
    · simp [State.leave]
    · exact hi.fresh d' _ (Nat.le_refl _)
    · simp [State.leave]
    · exact State.known_grows hg (hk aw rfl)
  | @finish _ _ d d' via v pc _ hpc =>
    obtain rfl := hi.pulled hb
    obtain rfl := List.mem_singleton.1 hf
    rw [hpc]
    split
    · exact ⟨by simp, by simp, ⟨by simp, by simp⟩⟩
    · exact ⟨by simp, by simp⟩
  | setValue _ _ hc => exact hc.sound (hsound _ List.mem_cons_self) f hf
  | handler =>
    rcases List.mem_cons.1 hf with rfl | hf
    · trivial
    · exact (hsound f hf).same (fun x _ => ⟨rfl, rfl, rfl, rfl, rfl, rfl, fun _ => rfl, fun _ h => ⟨h, rfl⟩⟩) hg
  | @fetch _ _ d j via aw _ hp =>
    obtain rfl := List.mem_singleton.1 hf
    obtain ⟨hact, ha, j', aw', hm, hfr, hc, hk⟩ := hsound _ List.mem_cons_self
    rw [hp] at hm
    cases hm
    exact ⟨⟨⟨hact, by simp⟩, ha⟩, ⟨hfr.old, hfr.live⟩, hc, State.known_grows hg hk⟩
  | registerFuture | registerContext | awaitParked | waitRegister =>
    obtain rfl := List.mem_singleton.1 hf
    trivial
  | @awaitExchange _ _ d j e via =>
    obtain rfl := List.mem_singleton.1 hf
    obtain ⟨hw, hfr, hc, hk⟩ := hsound _ List.mem_cons_self
    exact ⟨⟨⟨hw.active, hw.postLeave⟩, hw.left⟩, ⟨hfr.old, hfr.live⟩, by simp, hc, hk⟩
  | awaitRegister =>
    obtain rfl := List.mem_singleton.1 hf
    obtain ⟨hw, -, -, hc, hk⟩ := hsound _ List.mem_cons_self
    exact ⟨⟨⟨hw.active, hw.postLeave⟩, hw.left⟩, hc, hk⟩
  | awaitRefused =>
    obtain rfl := List.mem_singleton.1 hf
    obtain ⟨hw, -⟩ := hsound _ List.mem_cons_self
    exact State.Waiting.enter_again ⟨⟨hw.active, hw.postLeave⟩, hw.left⟩
  | @awaitSpun _ _ d =>
    obtain rfl := List.mem_singleton.1 hf
    have hw : s.Waiting d := hsound _ List.mem_cons_self
    exact State.Waiting.enter_again ⟨⟨hw.active, hw.postLeave⟩, hw.left⟩
  | constructed | repost => cases hf
  | @ended _ _ d =>
    obtain rfl := List.mem_singleton.1 hf
    obtain ⟨hact, hp⟩ := hsound _ List.mem_cons_self
    refine ⟨hact, hp, ⟨fun x hx => ?_, fun x hx => (hi.continuations d x hx).2⟩⟩
    have hw := (hi.continuations d x hx).1
    exact ⟨⟨hw.active, hw.postLeave⟩, hw.left⟩
  | @runPostLeave _ _ d =>
    obtain rfl := List.mem_singleton.1 hf
    obtain ⟨hact, -, hres⟩ := hsound _ List.mem_cons_self
    refine ⟨hact, ⟨fun x hx => ?_, hres.constructed⟩⟩
    have hw := hres.waiting x hx
    have hxd : x ≠ d := by
      rintro rfl
      rw [hw.active] at hact
      cases hact
    exact ⟨⟨hw.active, by simpa [hxd] using hw.postLeave⟩, hw.left⟩
  | setContinuation =>
    obtain rfl := List.mem_singleton.1 hf
    obtain ⟨hact, hres⟩ := hsound _ List.mem_cons_self
    refine ⟨hact, ⟨fun x hx => ?_, hres.constructed⟩⟩
    have hw := hres.waiting x hx
    exact ⟨⟨hw.active, hw.postLeave⟩, hw.left⟩
  | setResult _ hc => exact hc.sound (g := .run _ _ (.ret _)) (hsound _ List.mem_cons_self).2 f hf
  | @ret _ _ d k res =>
    obtain rfl := List.mem_singleton.1 hf
    intro x hx
    have hw := State.Resumable.waiting (hsound _ List.mem_cons_self) x hx
    obtain ⟨_, _, hret⟩ := s.returnRes_frame t d res (.runner k (.loop res) :: rest)
    rw [hret]
    exact ⟨⟨hw.active, hw.postLeave⟩, hw.left⟩
  | @exchange _ _ k =>
    obtain rfl := List.mem_singleton.1 hf
    intro x hx
    have hk := hi.live_of_mem (t := t) (by rw [hb]; exact List.mem_cons_self)
    have hw := (hi.runners k x hk hx).2
    exact ⟨⟨hw.active, hw.postLeave⟩, hw.left⟩

/-! ## What is known of the other places -/

/-- A right in a Runner or in `mContinuation` is none of the innermost activation. -/
theorem Inv.waiting_runner (hi : Inv s) (h : Step s t top top' rest s') (hl : s.live k = true)
    (hc : s.mCaller k = .data x) : x = k.1 ∧ s'.Waiting x := by
  obtain ⟨hx, hw⟩ := hi.runners k x hl hc
  have hmem : x ∈ s.rights (.runner k) := by simp [State.rights, hl, hc, Ptr.toList]
  exact ⟨hx, hw.same (hi.same h (hi.rights.elsewhere_other h.before hmem))⟩

theorem Inv.waiting_continuation (hi : Inv s) (h : Step s t top top' rest s') (hm : s.mContinuation e = .data x) :
    s'.Waiting x ∧ s'.constructed e = true := by
  obtain ⟨hw, hc⟩ := hi.continuations e x hm
  have hmem : x ∈ s.rights (.continuation e) := by simp [State.rights, hm, Ptr.toList]
  exact ⟨hw.same (hi.same h (hi.rights.elsewhere_other h.before hmem)), (hi.grows h).constructed e hc⟩

theorem step_runners (hi : Inv s) (h : Step s t top top' rest s') :
    ∀ k x, s'.live k = true → s'.mCaller k = .data x → x = k.1 ∧ s'.Waiting x := by
  intro k x hl hc
  have hb := h.before
  have hsound := hi.sound h
  have hstep := h
  cases h with
  | @leave _ _ d d' =>
    by_cases hk : k = (d, s.awaits d)
    · have := hi.fresh d _ (Nat.le_refl _)
      subst hk
      exact absurd hl (by simp [State.leave, State.goto, this])
    · exact hi.waiting_runner hstep hl (by simpa [State.leave, hk, State.goto] using hc)
  | setValue _ _ hcm | setResult _ hcm =>
    cases hcm <;> exact hi.waiting_runner hstep hl hc
  | @registerFuture _ _ d j | @registerContext _ _ d j =>
    obtain ⟨hw, -, hcd, -⟩ := hsound _ List.mem_cons_self
    by_cases hk : k = (d, j)
    · subst hk
      obtain rfl : d = x := by
        have := hcd.symm.trans hc
        simpa using this
      exact ⟨rfl, ⟨⟨hw.active, hw.postLeave⟩, hw.left⟩⟩
    · exact hi.waiting_runner hstep (by simpa [State.register, hk] using hl) hc
  | @awaitExchange _ _ d j =>
    obtain ⟨-, hfr, -⟩ := hsound _ List.mem_cons_self
    by_cases hk : k = (d, j)
    · subst hk
      exact absurd hl (by simp [State.goto, hfr.live])
    · exact hi.waiting_runner hstep hl (by simpa [hk, State.goto] using hc)
  | @awaitRegister _ _ d j =>
    obtain ⟨-, -, hcd, -⟩ := hsound _ List.mem_cons_self
    by_cases hk : k = (d, j)
    · subst hk
      have := hcd.symm.trans hc
      cases this
    · exact hi.waiting_runner hstep (by simpa [State.register, hk] using hl) hc
  | @ret _ _ d k' res =>
    obtain ⟨_, _, hret⟩ := s.returnRes_frame t d res (.runner k' (.loop res) :: rest)
    rw [hret] at hl hc hstep ⊢
    exact hi.waiting_runner hstep hl hc
  | @exchange _ _ k' =>
    by_cases hk : k = k'
    · subst hk
      exact absurd hl (by simp)
    · exact hi.waiting_runner hstep (by simpa [hk] using hl) (by simpa [hk] using hc)
  | _ => exact hi.waiting_runner hstep hl hc

theorem step_continuations (hi : Inv s) (h : Step s t top top' rest s') :
    ∀ e x, s'.mContinuation e = .data x → s'.Waiting x ∧ s'.constructed e = true := by
  intro e x hm
  have hb := h.before
  have hsound := hi.sound h
  have hstep := h
  cases h with
  | setValue _ _ hcm | setResult _ hcm =>
    cases hcm <;> exact hi.waiting_continuation hstep hm
  | @awaitParked _ _ d j e' via c =>
    by_cases he : e = e'
    · subst he
      obtain ⟨hw, hcd, hcon⟩ := hsound _ List.mem_cons_self
      obtain rfl : d = x := by
        have : c = .data x := by simpa using hm
        simpa [this] using hcd.symm
      exact ⟨⟨⟨hw.active, hw.postLeave⟩, hw.left⟩, hcon⟩
    · exact hi.waiting_continuation hstep (by simpa [he, State.goto] using hm)
  | @ended _ _ d =>
    by_cases he : e = d
    · subst he
      exact absurd hm (by simp)
    · exact hi.waiting_continuation hstep (by simpa [he, State.goto] using hm)
  | @setContinuation _ _ d via res c _ hc =>
    refine hi.waiting_continuation hstep ?_
    by_cases he : e = d
    · subst he
      by_cases hnull : s.mContinuation e = .null <;> simp_all
    · simpa [he, State.goto] using hm
  | @ret _ _ d k' res =>
    obtain ⟨_, _, hret⟩ := s.returnRes_frame t d res (.runner k' (.loop res) :: rest)
    rw [hret] at hm hstep ⊢
    exact hi.waiting_continuation hstep hm
  | _ => exact hi.waiting_continuation hstep hm

theorem step_fresh (hi : Inv s) (h : Step s t top top' rest s') :
    ∀ d j, s'.awaits d ≤ j → s'.live (d, j) = false := by
  intro d j hj
  have hsound := hi.sound h
  cases h with
  | @leave _ _ d' =>
    refine hi.fresh d j ?_
    by_cases hd : d = d'
    · subst hd
      have : s.awaits d + 1 ≤ j := by simpa [State.leave] using hj
      omega
    · simpa [State.leave, hd, State.goto] using hj
  | setValue _ _ hc | setResult _ hc => cases hc <;> exact hi.fresh d j hj
  | @registerFuture _ _ d' j' | @registerContext _ _ d' j' | @awaitRegister _ _ d' j' =>
    obtain ⟨-, hfr, -⟩ := hsound _ List.mem_cons_self
    have hne : (d, j) ≠ (d', j') := by
      rintro heq
      cases heq
      exact absurd hfr.old (Nat.not_lt.2 hj)
    simpa [State.register, hne] using hi.fresh d j hj
  | @ret _ _ d' k res =>
    obtain ⟨_, _, hret⟩ := s.returnRes_frame t d' res (.runner k (.loop res) :: rest)
    rw [hret] at hj ⊢
    exact hi.fresh d j hj
  | @exchange _ _ k =>
    by_cases hk : (d, j) = k
    · simp [hk]
    · simpa [hk] using hi.fresh d j hj
  | _ => exact hi.fresh d j hj

theorem step_counts (hi : Inv s) (h : Step s t top top' rest s') :
    ∀ d, s'.resumes d ≤ s'.awaits d ∧ s'.awaits d ≤ s'.resumes d + 1 := by
  intro d
  have hc := hi.counts d
  have hsound := hi.sound h
  cases h with
  | @leave _ _ d' =>
    by_cases hd : d = d'
    · subst hd
      obtain ⟨-, ha, -⟩ := hsound _ List.mem_cons_self
      simp [State.leave, State.goto, ha]
    · simpa [State.leave, hd, State.goto] using hc
  | @enter _ _ d' via =>
    by_cases hd : d = d'
    · subst hd
      obtain ⟨-, ha⟩ := hsound _ List.mem_cons_self
      simp [State.enter, State.goto, ha]
    · simpa [State.enter, hd, State.goto] using hc
  | setValue _ _ hcm | setResult _ hcm => cases hcm <;> exact hc
  | @ret _ _ d' k res =>
    obtain ⟨_, _, hret⟩ := s.returnRes_frame t d' res (.runner k (.loop res) :: rest)
    rw [hret]
    exact hc
  | _ => exact hc

theorem Completed.fut_ne_empty {f f' : Future} {v : Value Unit} {l pre : List Frame} (h : Completed s t f v l pre s')
    (hf : (s.fut f').continuationPtr ≠ .empty) : (s'.fut f').continuationPtr ≠ .empty := by
  by_cases hn : f' = f
  · subst hn
    cases h <;> simp
  · cases h <;> simpa [hn, State.goto] using hf

/-- A future never becomes fresh again. -/
theorem Step.fut_ne_empty (h : Step s t top top' rest s') {f : Future} (hf : (s.fut f).continuationPtr ≠ .empty) :
    (s'.fut f).continuationPtr ≠ .empty := by
  cases h with
  | setValue _ _ hc => exact hc.fut_ne_empty hf
  | setResult _ hc => exact hc.fut_ne_empty hf
  | @registerFuture _ _ _ _ n =>
    by_cases hn : f = .plain n <;> simp [State.register, hn]
    simpa using hf
  | @awaitRegister _ _ _ _ e =>
    by_cases hn : f = .result e <;> simp [State.register, hn]
    simpa using hf
  | @waitRegister _ _ f' =>
    by_cases hn : f = f' <;> simp [hn]
    simpa using hf
  | @ret _ _ d' k res =>
    obtain ⟨_, _, hret⟩ := s.returnRes_frame t d' res (.runner k (.loop res) :: rest)
    rw [hret]
    exact hf
  | _ => exact hf

theorem step_waiter (hi : Inv s) (h : Step s t top top' rest s') :
    ∀ e k, s'.waiter e = some k → (s'.fut (.result e)).continuationPtr ≠ .empty ∧ s'.constructed e = true := by
  intro e k hk
  have hkeep : s.waiter e = some k →
      (s'.fut (.result e)).continuationPtr ≠ .empty ∧ s'.constructed e = true := fun hw =>
    ⟨h.fut_ne_empty (hi.waiter e k hw).1, (hi.grows h).constructed e (hi.waiter e k hw).2⟩
  have hsound := hi.sound h
  cases h with
  | setValue _ _ hc | setResult _ hc => cases hc <;> exact hkeep hk
  | @awaitRegister _ _ d j e' =>
    by_cases he : e = e'
    · subst he
      obtain ⟨-, -, -, -, hcon⟩ := hsound _ List.mem_cons_self
      exact ⟨by simp [State.register], hcon⟩
    · exact hkeep (by simpa [State.register, he, State.goto] using hk)
  | @ret _ _ d' k' res =>
    obtain ⟨_, _, hret⟩ := s.returnRes_frame t d' res (.runner k' (.loop res) :: rest)
    rw [hret] at hk hkeep ⊢
    exact hkeep hk
  | _ => exact hkeep hk

theorem Step.ended_stays (h : Step s t top top' rest s') (hd : s.mPull d = false) : s'.mPull d = false := by
  cases h with
  | @finish _ _ d' =>
    by_cases hdd : d = d'
    · simp [hdd]
    · simpa [hdd, State.goto] using hd
  | setValue _ _ hc | setResult _ hc => cases hc <;> exact hd
  | @ret _ _ d' k res =>
    obtain ⟨_, _, hret⟩ := s.returnRes_frame t d' res (.runner k (.loop res) :: rest)
    rw [hret]
    exact hd
  | _ => exact hd

theorem step_published (hi : Inv s) (h : Step s t top top' rest s') :
    ∀ d, (s'.fut (.result d)).isReady = true → s'.mPull d = false := by
  intro d hd
  have hkeep : (s.fut (.result d)).isReady = true → s'.mPull d = false := fun hr => h.ended_stays (hi.published d hr)
  have hsound := hi.sound h
  cases h with
  | setValue _ _ hc => cases hc <;> exact hkeep (by simpa [State.goto] using hd)
  | @setResult _ _ d' _ _ _ _ _ hc =>
    by_cases hdd : d = d'
    · subst hdd
      have hp : s.mPull d = false := (hsound _ List.mem_cons_self).1
      cases hc <;> exact hp
    · cases hc <;> exact hkeep (by simpa [hdd, State.goto] using hd)
  | registerFuture => exact hkeep (by simpa [State.register, State.goto] using hd)
  | @awaitRegister _ _ _ _ e _ _ _ hp =>
    by_cases he : d = e
    · subst he
      simp [State.register] at hd
    · exact hkeep (by simpa [State.register, he, State.goto] using hd)
  | @waitRegister _ _ f =>
    by_cases hf : Future.result d = f
    · subst hf
      simp at hd
    · exact hkeep (by simpa [hf] using hd)
  | @ret _ _ d' k res =>
    obtain ⟨_, _, hret⟩ := s.returnRes_frame t d' res (.runner k (.loop res) :: rest)
    rw [hret] at hd hkeep ⊢
    exact hkeep hd
  | _ => exact hkeep hd

theorem Step.born_le (h : Step s t top top' rest s') : s.born ≤ s'.born := by
  cases h with
  | construct => exact Nat.le_succ _
  | setValue _ _ hc | setResult _ hc => cases hc <;> exact Nat.le_refl _
  | @ret _ _ d k res =>
    obtain ⟨_, _, hret⟩ := s.returnRes_frame t d res (.runner k (.loop res) :: rest)
    rw [hret]
    exact Nat.le_refl _
  | _ => exact Nat.le_refl _

theorem step_blank (hi : Inv s) (h : Step s t top top' rest s') : ∀ d, s'.born ≤ d → s'.Blank d := by
  intro d hd
  have hblank := hi.blank d (Nat.le_trans h.born_le hd)
  have hdead : ∀ f ∈ top, d ∉ f.holds := by
    intro f hf hm
    have := (hi.unfinished_of_mem (h.mem hf) hm).1
    have := h.born_le
    omega
  have hsame : Same s s' d := hi.same h (by simpa [List.mem_flatMap] using hdead)
  have hbuild : ∀ f ∈ top, d ∉ f.builds := by
    intro f hf hm
    have := (hi.builds.living (.inl t) d (List.mem_flatMap.2 ⟨f, h.mem hf, hm⟩)).1
    have := h.born_le
    omega
  refine ⟨hblank.toIdle.same hsame, by rw [hsame.awaits, hsame.resumes, hblank.awaits], ?_, ?_⟩
  · cases h with
    | @constructed _ _ d' via pc _ hv =>
      have hne : d ≠ d' := by
        rintro rfl
        exact hbuild _ List.mem_cons_self (by simp [hv])
      simpa [State.construct, hne, State.goto] using hblank.constructed
    | setValue _ _ hc | setResult _ hc => cases hc <;> exact hblank.constructed
    | @ret _ _ d' k res =>
      obtain ⟨_, _, hret⟩ := s.returnRes_frame t d' res (.runner k (.loop res) :: rest)
      rw [hret]
      exact hblank.constructed
    | _ => exact hblank.constructed
  · cases h with
    | setValue _ _ hc => cases hc <;> simpa [State.goto] using hblank.result
    | @setResult _ _ d' _ _ _ _ _ hc =>
      have hne : d ≠ d' := by
        rintro rfl
        exact hdead _ List.mem_cons_self (by simp)
      cases hc <;> simpa [hne, State.goto] using hblank.result
    | registerFuture => simpa [State.register, State.goto] using hblank.result
    | @awaitRegister _ _ _ _ e =>
      by_cases he : d = e
      · subst he
        simp [State.register]
      · simpa [State.register, he, State.goto] using hblank.result
    | @waitRegister _ _ f =>
      by_cases hf : Future.result d = f
      · subst hf
        simp
      · simpa [hf] using hblank.result
    | @ret _ _ d' k res =>
      obtain ⟨_, _, hret⟩ := s.returnRes_frame t d' res (.runner k (.loop res) :: rest)
      rw [hret]
      exact hblank.result
    | _ => exact hblank.result

theorem step_inv (hi : Inv s) (h : Step s t top top' rest s') : Inv s' where
  rights := step_rights hi h
  refs := step_refs hi h
  builds := step_builds hi h
  stacked := by
    intro u
    by_cases hu : u = t
    · subst hu
      exact h.stacked (hi.stacked u)
    · rw [h.after, Function.update_of_ne hu]
      exact hi.stacked u
  frames := hi.rights.frames h.before h.after hi.frames (fun x hx => hi.same h hx)
    (fun f hf hx => hf.same hx (hi.grows h)) (step_sound hi h)
  runners := step_runners hi h
  continuations := step_continuations hi h
  fresh := step_fresh hi h
  counts := step_counts hi h
  waiter := step_waiter hi h
  published := step_published hi h
  blank := step_blank hi h

theorem inv_reachable {ok : State → Act → Prop} (h : Reachable step ok init s) : Inv s :=
  h.invariant inv_init fun _ _ _ hi _ hst =>
    let ⟨_, _, _, _, hstep⟩ := step_cases hst
    step_inv hi hstep

/-! ## Results -/

/-- Where the right to resume an unfinished coroutine can be. -/
inductive Place where
  /-- On the stack of `t`, innermost or beneath what it constructs and calls. -/
  | executing (t : Nat)
  /-- With `t`, which evaluates the post-leave function. -/
  | evaluating (t : Nat)
  /-- In `mCaller` of a live Runner. -/
  | runner (k : RunnerId)
  | continuation (e : Nat)
  /-- With a Runner loop of `t`, with the `resume()` that returns to it, or on entry of a pull. -/
  | resuming (t : Nat)
deriving DecidableEq, Repr

@[simp] def Frame.executes : Frame → List Nat
  | .body d _ => [d]
  | _ => []

@[simp] def Frame.evaluates : Frame → List Nat
  | .run d _ .left | .run d _ (.suspend ..) | .run d _ (.awaitSuspend ..) | .run d _ (.awaitContinuation ..)
  | .run d _ (.awaitSpin ..) => [d]
  | _ => []

@[simp] def Frame.resumes : Frame → List Nat
  | .run d _ .enter => [d]
  | .run _ _ (.runPostLeave res) | .run _ _ (.setContinuation res) | .run _ _ (.setResult res) | .run _ _ (.ret res) =>
    res.toList
  | .runner _ (.loop c) => c.toList
  | _ => []

def State.at (s : State) : Place → List Nat
  | .executing t => (s.stack t).flatMap Frame.executes
  | .evaluating t => (s.stack t).flatMap Frame.evaluates
  | .runner k => s.rights (.runner k)
  | .continuation e => s.rights (.continuation e)
  | .resuming t => (s.stack t).flatMap Frame.resumes

/-- Where a live Runner is referred to: registered, queued, or about to be called. -/
inductive RefPlace where
  | registered (f : Future)
  | queued (c : Nat)
  | called (t : Nat)
deriving DecidableEq, Repr

def State.refersTo (s : State) : RefPlace → List RunnerId
  | .registered f => s.refs (.fut f)
  | .queued c => s.refs (.queue c)
  | .called t => (s.stack t).flatMap Frame.calls

theorem Frame.holds_count {f : Frame} (hf : f.Sound s) (hd : s.mPull d = true) :
    f.holds.count d = f.executes.count d + f.evaluates.count d + f.resumes.count d := by
  cases f with
  | run d' via pc =>
    cases pc with
    | ended | runPostLeave | setContinuation | setResult =>
      have hne : d' ≠ d := by
        rintro rfl
        have hp : s.mPull d' = false := hf.1
        rw [hd] at hp
        cases hp
      simp [hne]
    | _ => simp
  | runner k pc => cases pc <;> simp
  | _ => simp

theorem stack_count {l : List Frame} (hl : ∀ f ∈ l, f.Sound s) (hd : s.mPull d = true) :
    (l.flatMap Frame.holds).count d = (l.flatMap Frame.executes).count d + (l.flatMap Frame.evaluates).count d +
      (l.flatMap Frame.resumes).count d := by
  induction l with
  | nil => simp
  | cons f l ih =>
    have hf := Frame.holds_count (hl f List.mem_cons_self) hd
    have hrest := ih fun g hg => hl g (List.mem_cons_of_mem _ hg)
    simp only [List.flatMap_cons, List.count_append] at hf hrest ⊢
    omega

/-- The places with `t` hold together what is on the stack of `t`. -/
theorem Inv.thread_count (hi : Inv s) (hd : s.mPull d = true) (t : Nat) :
    (spread Frame.holds s.stack s.rights (.inl t)).count d =
      (s.at (.executing t)).count d + (s.at (.evaluating t)).count d + (s.at (.resuming t)).count d :=
  stack_count (hi.frames t) hd

theorem Inv.sole_place (hi : Inv s) (hb : d < s.born) (hd : s.mPull d = true) :
    ∃ p, (s.at p).count d = 1 ∧ ∀ q, q ≠ p → d ∉ s.at q := by
  have hunf : s.unfinished d := ⟨hb, by
    by_contra hr
    rw [hi.published d (by simpa using hr)] at hd
    cases hd⟩
  obtain ⟨p, hp, hne⟩ := hi.rights.one d hunf
  have hthread : ∀ u, Sum.inl u ≠ p →
      d ∉ s.at (.executing u) ∧ d ∉ s.at (.evaluating u) ∧ d ∉ s.at (.resuming u) := fun u hu => by
    have h0 := List.count_eq_zero_of_not_mem (hne (.inl u) hu)
    rw [hi.thread_count hd u] at h0
    simp only [← List.count_eq_zero]
    omega
  rcases p with t | r
  · rw [hi.thread_count hd t] at hp
    have hspot : ∀ r, d ∉ s.rights r := fun r => hne (.inr r) (by simp)
    have hthere : ∃ p, (p = .executing t ∨ p = .evaluating t ∨ p = .resuming t) ∧ (s.at p).count d = 1 := by
      by_cases h1 : (s.at (.executing t)).count d = 1
      · exact ⟨_, .inl rfl, h1⟩
      · by_cases h2 : (s.at (.evaluating t)).count d = 1
        · exact ⟨_, .inr (.inl rfl), h2⟩
        · exact ⟨_, .inr (.inr rfl), by omega⟩
    obtain ⟨p, hpt, hp1⟩ := hthere
    refine ⟨p, hp1, fun q hq => ?_⟩
    cases q with
    | runner k => exact hspot (.runner k)
    | continuation e => exact hspot (.continuation e)
    | executing u | evaluating u | resuming u =>
      by_cases hu : u = t
      · subst hu
        rw [← List.count_eq_zero]
        rcases hpt with rfl | rfl | rfl <;> first | exact absurd rfl hq | omega
      · obtain ⟨h1, h2, h3⟩ := hthread u (by simp [hu])
        assumption
  · have hpr : ∃ p, s.at p = s.rights r ∧ ∀ q, q ≠ p → d ∉ s.at q := by
      refine ⟨match r with
        | .runner k => .runner k
        | .continuation e => .continuation e, ?_, fun q hq => ?_⟩
      · cases r <;> rfl
      · cases q with
        | runner k => exact hne (.inr (.runner k)) (by rintro ⟨⟩; exact hq rfl)
        | continuation e => exact hne (.inr (.continuation e)) (by rintro ⟨⟩; exact hq rfl)
        | executing u => exact (hthread u (by simp)).1
        | evaluating u => exact (hthread u (by simp)).2.1
        | resuming u => exact (hthread u (by simp)).2.2
    obtain ⟨p, hp', hq⟩ := hpr
    exact ⟨p, by rw [hp']; exact hp, hq⟩

/-- A live Runner is referred to exactly once. -/
theorem Inv.sole_ref (hi : Inv s) (hk : s.live k = true) :
    ∃ r, (s.refersTo r).count k = 1 ∧ ∀ q, q ≠ r → k ∉ s.refersTo q := by
  obtain ⟨p, hp, hne⟩ := hi.refs.one k hk
  refine ⟨match p with
    | .inl t => .called t
    | .inr (.fut f) => .registered f
    | .inr (.queue c) => .queued c, ?_, fun q hq => ?_⟩
  · rcases p with t | f | c <;> exact hp
  · cases q with
    | registered f => exact hne (.inr (.fut f)) (by rintro rfl; exact hq rfl)
    | queued c => exact hne (.inr (.queue c)) (by rintro rfl; exact hq rfl)
    | called t => exact hne (.inl t) (by rintro rfl; exact hq rfl)

/-- Whoever is about to pull `d` is alone: no thread executes it. -/
theorem Inv.not_executing (hi : Inv s) (hf : .run d via .enter ∈ s.stack t) (u : Nat) (l : Option Awaitable) :
    .body d l ∉ s.stack u := by
  intro hbody
  have hd : s.mPull d = true := (hi.frames u _ hbody).1.active
  have h1 : d ∈ s.at (.executing u) := List.mem_flatMap.2 ⟨_, hbody, by simp⟩
  have h2 : d ∈ s.at (.resuming t) := List.mem_flatMap.2 ⟨_, hf, by simp⟩
  have hborn := (hi.unfinished_of_mem hbody (x := d) (by simp)).1
  obtain ⟨p, -, hne⟩ := hi.sole_place hborn hd
  have hp1 : Place.executing u = p := by_contra fun h => hne _ h h1
  have hp2 : Place.resuming t = p := by_contra fun h => hne _ h h2
  cases hp1.trans hp2.symm

/-- **The right to resume a coroutine is never duplicated and never lost**: while its body has not ended, it is
in exactly one place; if that is the `mCaller` of a Runner, the Runner is one of the coroutine's own and is
registered with one awaitable, queued once or called once. Hence nobody enters a coroutine that is executing,
every `leave()` is followed by at most one `resume()`, and `mPostLeave` is null when the body leaves or ends. -/
theorem right_unique {ok : State → Act → Prop} (h : Reachable step ok init s) (d : Nat) :
    (d < s.born → s.mPull d = true →
      ∃ p, (s.at p).count d = 1 ∧ (∀ q, q ≠ p → d ∉ s.at q) ∧
        ∀ k, p = .runner k → k.1 = d ∧ ∃ r, (s.refersTo r).count k = 1 ∧ ∀ q, q ≠ r → k ∉ s.refersTo q) ∧
    (∀ t via, .run d via .enter ∈ s.stack t → ∀ u l, .body d l ∉ s.stack u) ∧
    (s.resumes d ≤ s.awaits d ∧ s.awaits d ≤ s.resumes d + 1) ∧
    (∀ t l, .body d l ∈ s.stack t → s.mPostLeave d = none) := by
  have hi := inv_reachable h
  refine ⟨fun hb hd => ?_, fun t via hf => hi.not_executing hf, hi.counts d, fun t l hf => ?_⟩
  · obtain ⟨p, hp, hne⟩ := hi.sole_place hb hd
    refine ⟨p, hp, hne, fun k hk => ?_⟩
    subst hk
    have hmem : d ∈ s.rights (.runner k) := List.count_pos_iff.1 (by rw [State.at] at hp; omega)
    have hlive : s.live k = true := by
      by_contra hl
      rw [rights_dead (by simpa using hl)] at hmem
      cases hmem
    have hcaller : s.mCaller k = .data d := by
      cases hc : s.mCaller k <;> simp_all [State.rights, Ptr.toList]
    exact ⟨((hi.runners k d hlive hcaller).1).symm, hi.sole_ref hlive⟩
  · exact (hi.frames t _ hf).1.postLeave

/-- The body awaits a future in the constructor; another thread completes it and resumes the body while the
first one is still in the constructor. -/
def earlySchedule : List Act :=
  [.construct 0 0, .step 0, .await 0 (.future 0), .step 0, .step 0, .step 0, .setValue 1 0 (.val ()), .step 1, .step 1]

theorem right_unique_early :
    ∃ s : State, Run step anyStep init earlySchedule s ∧ .run 0 .ctor .suspended ∈ s.stack 0 ∧
      .run 0 .resume .enter ∈ s.stack 1 ∧ ∃ p, (s.at p).count 0 = 1 ∧ ∀ q, q ≠ p → 0 ∉ s.at q := by
  have hrun := exec_get_run step anyStep init earlySchedule (by decide)
  obtain ⟨p, hp, hne, -⟩ := (right_unique ⟨_, hrun⟩ 0).1 (by decide) (by decide)
  exact ⟨_, hrun, by decide, by decide, p, hp, hne⟩

end CoAwait.Routine
