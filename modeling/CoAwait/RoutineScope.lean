import CoAwait.RoutineContinued

/-!
# A Runner is only used while its `co::await` has not returned

The Runner of an await is a local of `co::await` (`await.hpp:208-226`), and its address goes to futures, io_contexts
and other threads.

* `State.Suspended`: the frame of await `j` of `d` is there, and nothing runs on it.
* `Frame.Newest`: the await that a thread evaluates is the last one `d` has left by.
* `Scope`: the invariant; `runner_in_scope`: whoever can still use the Runner finds it alive.
-/

namespace CoAwait.Routine

open Runs Tokens

variable {s s' : State} {d e x j : Nat} {k : RunnerId} {via : Via} {pc : RunPc} {res : Ptr} {t : Nat}
  {top top' rest : List Frame}

/-- `d` has left by await `j` and has not gone on since. -/
structure State.Suspended (s : State) (d j : Nat) : Prop where
  left : s.awaits d = j + 1
  notResumed : s.resumes d = j
  active : s.mPull d = true
  notExecuting : ∀ t l, .body d l ∉ s.stack t

theorem State.Waiting.suspended (h : s.Waiting d) (hj : s.awaits d = j + 1) (hbody : ∀ t l, .body d l ∉ s.stack t) :
    s.Suspended d j :=
  ⟨hj, by have := h.left; omega, h.active, hbody⟩

/-! ## The await that is evaluated -/

/-- Past the publication there is nothing left to say but that it took place. -/
def RunPc.Newest (s : State) (d : Nat) : RunPc → Prop
  | .left => ∀ j aw, s.mPostLeave d = some (.await j aw) → s.awaits d = j + 1
  | .suspend j _ | .awaitSuspend j _ _ | .awaitContinuation j _ _ | .awaitSpin j _ => s.awaits d = j + 1
  | .ret _ => (s.fut (.result d)).isReady = true
  | _ => True

def Frame.Newest (s : State) : Frame → Prop
  | .run d _ pc => pc.Newest s d
  | _ => True

theorem Frame.Newest.same {f : Frame} (h : f.Newest s) (hs : ∀ x ∈ f.holds, Same s s' x)
    (hr : ∀ d, (s.fut (.result d)).isReady = true → (s'.fut (.result d)).isReady = true) : f.Newest s' := by
  cases f with
  | run d via pc =>
    cases pc with
    | left =>
      have hd := hs d (by simp)
      intro j aw hp
      rw [hd.awaits]
      exact h j aw (hd.mPostLeave ▸ hp)
    | suspend | awaitSuspend | awaitContinuation | awaitSpin => exact (hs d (by simp)).awaits.trans h
    | ret => exact hr d h
    | _ => trivial
  | _ => trivial

structure Scope (s : State) : Prop extends HandOver s where
  newest : ∀ t, ∀ f ∈ s.stack t, f.Newest s
  /-- A result is published once. -/
  publisher : ∀ t u d via via' res res', .run d via (.ret res) ∈ s.stack t → .run d via' (.ret res') ∈ s.stack u → t = u
  exchanged : ∀ k, s.mCaller k = .one → s.live k = false
  holding : ∀ k x, s.live k = true → s.mCaller k = .data x → s.awaits k.1 = k.2 + 1
  open_ : ∀ d j e, s.opened d = some (j, e) → s.awaits d = j + 1
  given : ∀ k, s.live k = true → s.mCaller k = .null → ∃ e, s.opened k.1 = some (k.2, e)

theorem scope_init : Scope init where
  toHandOver := handOver_init
  newest := by
    intro t f hf
    obtain rfl : f = .main := by simpa [init] using hf
    trivial
  publisher := fun t u d via via' res res' h => by simp [init] at h
  exchanged := fun k h => by simp [init] at h
  holding := fun k x h => by simp [init] at h
  open_ := fun d j e h => by simp [init] at h
  given := fun k h => by simp [init] at h

/-! ## Steps -/

theorem Scope.newest_top (hi : Scope s) (h : Step s t top top' rest s') : ∀ f ∈ top, f.Newest s :=
  fun f hf => hi.newest t f (h.mem hf)

theorem Moves.newest (h : Moves s top top') (hnew : ∀ f ∈ top, f.Newest s) : ∀ f ∈ top', f.Newest s := by
  intro f hf
  cases h with
  | await | nothingLeft | suspendReady | resumed =>
    obtain rfl := List.mem_singleton.1 hf
    trivial
  | @spin d j e via c =>
    obtain rfl := List.mem_singleton.1 hf
    exact hnew (.run d via (.awaitContinuation j e c)) List.mem_cons_self
  | wait =>
    rcases List.mem_cons.1 hf with rfl | hf
    · trivial
    · exact hnew f hf
  | loop =>
    rcases List.mem_cons.1 hf with rfl | hf
    · trivial
    · obtain rfl := List.mem_singleton.1 hf
      trivial
  | loopEnd | waitReady | waitDone => cases hf

theorem Completed.newest {f : Future} {v : Value Unit} {l pre : List Frame} (h : Completed s t f v l pre s') {g : Frame}
    (hg : g.Newest s') : ∀ f ∈ pre ++ [g], f.Newest s' := by
  intro f hf
  rcases List.mem_append.1 hf with hf | hf
  · cases h with
    | alone | cv => cases hf
    | runner =>
      obtain rfl := List.mem_singleton.1 hf
      trivial
  · obtain rfl := List.mem_singleton.1 hf
    exact hg

theorem step_newest (hi : Scope s) (h : Step s t top top' rest s') : ∀ f ∈ top', f.Newest s' := by
  have hnew := hi.newest_top h
  have hsound := hi.sound h
  have hb := h.before
  intro f hf
  cases h with
  | stay => cases hf
  | move _ hm => exact hm.newest hnew f hf
  | construct | handler =>
    rcases List.mem_cons.1 hf with rfl | hf
    · trivial
    · obtain rfl := List.mem_singleton.1 hf
      cases f <;> trivial
  | enter =>
    rcases List.mem_cons.1 hf with rfl | hf
    · trivial
    · obtain rfl := List.mem_singleton.1 hf
      trivial
  | @leave _ _ d d' via aw =>
    obtain rfl := hi.pulled hb
    obtain rfl := List.mem_singleton.1 hf
    intro j aw' hp
    obtain ⟨rfl, -⟩ : s.awaits d' = j ∧ aw = aw' := by simpa [State.leave] using hp
    simp [State.leave]
  | @finish _ _ d d' via v pc _ hpc =>
    obtain rfl := List.mem_singleton.1 hf
    rw [hpc]
    split <;> trivial
  | setValue _ _ hc =>
    refine hc.newest ?_ f hf
    exact (hnew _ List.mem_cons_self).same (fun x _ => hc.same x) fun d hr => hc.ready_kept (.inr hr)
  | @fetch _ _ d j via aw _ hp =>
    obtain rfl := List.mem_singleton.1 hf
    exact hnew (.run d via .left) List.mem_cons_self j aw hp
  | awaitExchange | awaitRegister =>
    obtain rfl := List.mem_singleton.1 hf
    exact hnew _ List.mem_cons_self
  | setResult _ hc =>
    refine hc.newest ?_ f hf
    exact hc.ready_kept (.inl rfl)
  | constructed | repost => cases hf
  | _ =>
    obtain rfl := List.mem_singleton.1 hf
    trivial

/-- Who is about to publish the result of `d` is the first one to do so. -/
theorem Scope.not_returned (hi : Scope s) (hf : .run d via (.setResult res) ∈ s.stack t) {u : Nat} {via' : Via}
    {res' : Ptr} : .run d via' (.ret res') ∉ s.stack u := by
  intro hret
  have hready : (s.fut (.result d)).isReady = true := hi.newest u _ hret
  rw [(hi.unfinished_of_mem hf (by simp)).2] at hready
  cases hready

/-- Only the publication leads to the return. -/
theorem Step.ret_new (h : Step s t top top' rest s') (hf : .run d via (.ret res) ∈ top') :
    .run d via (.ret res) ∈ top ∨ .run d via (.setResult res) ∈ top := by
  cases h with
  | stay => cases hf
  | move _ hm =>
    cases hm with
    | wait => exact .inl (by simpa using hf)
    | _ => simp at hf
  | construct | handler => exact .inl (by simpa using hf)
  | setValue _ _ hc => exact .inl (by cases hc <;> simpa using hf)
  | setResult _ hc => exact .inr (by cases hc <;> simpa using hf)
  | finish _ hpc =>
    rw [hpc] at hf
    split at hf <;> simp at hf
  | _ => simp at hf

theorem step_publisher (hi : Scope s) (h : Step s t top top' rest s') : ∀ u u' d via via' res res',
    .run d via (.ret res) ∈ s'.stack u → .run d via' (.ret res') ∈ s'.stack u' → u = u' := by
  have hwas : ∀ {u d via res}, .run d via (.ret res) ∈ s'.stack u → .run d via (.ret res) ∈ s.stack u ∨
      u = t ∧ .run d via (.setResult res) ∈ s.stack t := by
    intro u d via res hf
    by_cases hu : u = t
    · subst hu
      rw [h.after, Function.update_self, List.mem_append] at hf
      rcases hf with hf | hf
      · rcases h.ret_new hf with hf | hf
        · exact .inl (h.mem hf)
        · exact .inr ⟨rfl, h.mem hf⟩
      · refine .inl ?_
        rw [h.before]
        exact List.mem_append_right _ hf
    · rw [h.after, Function.update_of_ne hu] at hf
      exact .inl hf
  intro u u' d via via' res res' hf hf'
  rcases hwas hf with hf | ⟨rfl, hf⟩ <;> rcases hwas hf' with hf' | ⟨rfl, hf'⟩
  · exact hi.publisher u u' d via via' res res' hf hf'
  · exact absurd hf (hi.not_returned hf')
  · exact absurd hf' (hi.not_returned hf)
  · rfl

/-! ### Runners in use -/

theorem step_exchanged (hi : Scope s) (h : Step s t top top' rest s') :
    ∀ k, s'.mCaller k = .one → s'.live k = false := by
  intro k hk
  have hold := hi.exchanged k
  have hsound := hi.sound h
  cases h with
  | @leave _ _ d =>
    by_cases hkd : k = (d, s.awaits d)
    · subst hkd
      simp [State.leave] at hk
    · exact hold (by simpa [State.leave, hkd, State.goto] using hk)
  | setValue _ _ hc | setResult _ hc => cases hc <;> exact hold hk
  | @registerFuture _ _ d j | @registerContext _ _ d j | @awaitRegister _ _ d j =>
    obtain ⟨-, -, hcd, -⟩ := hsound _ List.mem_cons_self
    have hne : k ≠ (d, j) := by
      rintro rfl
      cases hcd.symm.trans hk
    simpa [State.register, hne] using hold hk
  | @awaitExchange _ _ d j =>
    by_cases hkd : k = (d, j)
    · subst hkd
      simp at hk
    · exact hold (by simpa [hkd] using hk)
  | @ret _ _ d' k' res =>
    obtain ⟨_, _, hret⟩ := s.returnRes_frame t d' res (.runner k' (.loop res) :: rest)
    rw [hret] at hk ⊢
    exact hold hk
  | @exchange _ _ k' =>
    by_cases hkk : k = k'
    · simp [hkk]
    · simpa [hkk] using hold (by simpa [hkk] using hk)
  | _ => exact hold hk

/-- Whoever holds the right to `d` in its Runner keeps `d` from leaving. -/
theorem Scope.awaits_kept (hi : Scope s) (h : Step s t top top' rest s') (hl : s.live k = true)
    (hc : s.mCaller k = .data x) : s'.awaits k.1 = k.2 + 1 := by
  obtain ⟨rfl, -⟩ := hi.runners k x hl hc
  have hmem : k.1 ∈ s.rights (.runner k) := by simp [State.rights, hl, hc, Ptr.toList]
  rw [(hi.same h (hi.rights.elsewhere_other h.before hmem)).awaits]
  exact hi.holding k _ hl hc

theorem step_holding (hi : Scope s) (h : Step s t top top' rest s') :
    ∀ k x, s'.live k = true → s'.mCaller k = .data x → s'.awaits k.1 = k.2 + 1 := by
  intro k x hl hc
  have hsound := hi.sound h
  have hnew := hi.newest_top h
  have hstep := h
  cases h with
  | @leave _ _ d d' =>
    by_cases hk : k = (d, s.awaits d)
    · subst hk
      exact absurd hl (by simp [State.leave, State.goto, hi.fresh d _ (Nat.le_refl _)])
    · exact hi.awaits_kept hstep hl (by simpa [State.leave, hk, State.goto] using hc)
  | setValue _ _ hcm | setResult _ hcm => cases hcm <;> exact hi.awaits_kept hstep hl hc
  | @registerFuture _ _ d j n via | @registerContext _ _ d j n via =>
    by_cases hk : k = (d, j)
    · subst hk
      exact hnew _ List.mem_cons_self
    · exact hi.awaits_kept hstep (by simpa [State.register, hk] using hl) hc
  | @awaitExchange _ _ d j =>
    obtain ⟨-, hfr, -⟩ := hsound _ List.mem_cons_self
    by_cases hk : k = (d, j)
    · subst hk
      exact absurd hl (by simp [State.goto, hfr.live])
    · exact hi.awaits_kept hstep hl (by simpa [hk, State.goto] using hc)
  | @awaitRegister _ _ d j =>
    by_cases hk : k = (d, j)
    · subst hk
      exact hnew (.run d _ (.awaitSuspend j _ _)) List.mem_cons_self
    · exact hi.awaits_kept hstep (by simpa [State.register, hk] using hl) hc
  | @ret _ _ d k' res =>
    obtain ⟨_, _, hret⟩ := s.returnRes_frame t d res (.runner k' (.loop res) :: rest)
    rw [hret] at hl hc hstep ⊢
    exact hi.awaits_kept hstep hl hc
  | @exchange _ _ k' =>
    by_cases hk : k = k'
    · subst hk
      exact absurd hl (by simp)
    · exact hi.awaits_kept hstep (by simpa [hk] using hl) (by simpa [hk] using hc)
  | _ => exact hi.awaits_kept hstep hl hc

theorem step_open (hi : Scope s) (h : Step s t top top' rest s') :
    ∀ d j e, s'.opened d = some (j, e) → s'.awaits d = j + 1 := by
  intro d j e ho
  have hold := hi.open_ d j e
  have hnew := hi.newest_top h
  have hopen := hi.opens_top h
  cases h with
  | @leave _ _ d' =>
    have hne : d ≠ d' := by
      rintro rfl
      have hnone : s.opened d = none := hopen (.body d _) List.mem_cons_self
      rw [show s.opened d = some (j, e) from ho] at hnone
      cases hnone
    simpa [State.leave, hne, State.goto] using hold ho
  | setValue _ _ hc | setResult _ hc => cases hc <;> exact hold ho
  | @awaitExchange _ _ d' j' e' =>
    by_cases hd : d = d'
    · subst hd
      obtain ⟨rfl, -⟩ : j' = j ∧ e' = e := by simpa using ho
      exact hnew (.run d _ (.suspend j' _)) List.mem_cons_self
    · exact hold (by simpa [hd] using ho)
  | @awaitRefused _ _ d' | @awaitSpun _ _ d' =>
    by_cases hd : d = d'
    · subst hd
      simp [State.goOn] at ho
    · exact hold (by simpa [State.goOn, hd, State.goto] using ho)
  | @ret _ _ d' k' res =>
    rcases s.returnRes_cases t d' res (.runner k' (.loop res) :: rest) with ⟨y, k', -, -, hret⟩ | ⟨-, hret⟩
    · rw [hret] at ho ⊢
      by_cases hd : d = y
      · subst hd
        simp at ho
      · exact hold (by simpa [hd, State.goto] using ho)
    · rw [hret] at ho ⊢
      exact hold ho
  | _ => exact hold ho

/-- The Runner of the await that is being continued has exchanged. -/
theorem Scope.returned_dead (hi : Scope s) (hs : s.stack t = .run d via (.ret res) :: rest)
    (hw : s.waiter d = some k) (hnull : s.mCaller k = .null) : False := by
  have hf : .run d via (.ret res) ∈ s.stack t := by
    rw [hs]
    exact List.mem_cons_self
  rcases (hi.called d k hw).called with hp | hone | ⟨u, res', l, hu⟩
  · have hready : (s.fut (.result d)).isReady = true := hi.newest t _ hf
    rw [LightFutureData.isReady_iff, hp] at hready
    cases hready
  · rw [hnull] at hone
    cases hone
  · obtain rfl := hi.publisher t u d via .resume res res' hf (by simp [hu])
    rw [hs] at hu
    cases hu

theorem step_given (hi : Scope s) (h : Step s t top top' rest s') :
    ∀ k, s'.live k = true → s'.mCaller k = .null → ∃ e, s'.opened k.1 = some (k.2, e) := by
  intro k hl hc
  have hold := hi.given k
  have hsound := hi.sound h
  have hopen := hi.opens_top h
  cases h with
  | @leave _ _ d =>
    by_cases hk : k = (d, s.awaits d)
    · subst hk
      simp [State.leave] at hc
    · exact hold hl (by simpa [State.leave, hk, State.goto] using hc)
  | setValue _ _ hcm | setResult _ hcm => cases hcm <;> exact hold hl hc
  | @registerFuture _ _ d j | @registerContext _ _ d j =>
    obtain ⟨-, -, hcd, -⟩ := hsound _ List.mem_cons_self
    by_cases hk : k = (d, j)
    · subst hk
      cases hcd.symm.trans hc
    · exact hold (by simpa [State.register, hk] using hl) hc
  | @awaitExchange _ _ d j e =>
    obtain ⟨-, hfr, -⟩ := hsound _ List.mem_cons_self
    by_cases hk : k = (d, j)
    · subst hk
      exact absurd hl (by simp [State.goto, hfr.live])
    · obtain ⟨e', he'⟩ := hold hl (by simpa [hk, State.goto] using hc)
      by_cases hd : k.1 = d
      · rw [hd, (hopen _ List.mem_cons_self).1] at he'
        cases he'
      · exact ⟨e', by simpa [hd, State.goto] using he'⟩
  | @awaitRegister _ _ d j e via c =>
    by_cases hk : k = (d, j)
    · subst hk
      exact ⟨e, hopen (.run d via (.awaitSuspend j e c)) List.mem_cons_self⟩
    · exact hold (by simpa [State.register, hk] using hl) hc
  | @awaitRefused _ _ d j e via c =>
    obtain ⟨-, hfr, -⟩ := hsound _ List.mem_cons_self
    obtain ⟨e', he'⟩ := hold hl hc
    by_cases hd : k.1 = d
    · have ho : s.opened d = some (j, e) := hopen (.run d via (.awaitSuspend j e c)) List.mem_cons_self
      rw [hd, ho] at he'
      cases he'
      have hkd : k = (d, k.2) := by rw [← hd]
      have hdead := hfr.live
      rw [← hkd, show s.live k = true from hl] at hdead
      cases hdead
    · exact ⟨e', by simpa [State.goOn, hd, State.goto] using he'⟩
  | @awaitSpun _ _ d j e via _ hone =>
    obtain ⟨e', he'⟩ := hold hl hc
    by_cases hd : k.1 = d
    · rw [hd, (hopen _ List.mem_cons_self).1] at he'
      cases he'
      have hkd : k = (d, k.2) := by rw [← hd]
      rw [← hkd, show s.mCaller k = .null from hc] at hone
      cases hone
    · exact ⟨e', by simpa [State.goOn, hd, State.goto] using he'⟩
  | @ret _ _ d k' res hs =>
    have hh : s.Hands d res := hopen _ List.mem_cons_self
    rcases s.returnRes_cases t d res (.runner k' (.loop res) :: rest) with ⟨y, k'', hy, hw, hret⟩ | ⟨-, hret⟩
    · rw [hret] at hl hc ⊢
      obtain ⟨e', he'⟩ := hold hl hc
      by_cases hd : k.1 = y
      · obtain ⟨j, hw', ho⟩ := hh y hy
        rw [hd, ho] at he'
        cases he'
        have hky : (y, k.2) = k := by rw [← hd]
        rw [hky] at hw'
        exact absurd hc fun hnull => hi.returned_dead hs hw' hnull
      · exact ⟨e', by simpa [hd, State.goto] using he'⟩
    · rw [hret] at hl hc ⊢
      exact hold hl hc
  | @exchange _ _ k' =>
    by_cases hk : k = k'
    · subst hk
      exact absurd hl (by simp)
    · exact hold (by simpa [hk] using hl) (by simpa [hk] using hc)
  | _ => exact hold hl hc

theorem step_scope (hi : Scope s) (h : Step s t top top' rest s') : Scope s' where
  toHandOver := step_handOver hi.toHandOver h
  newest := hi.rights.frames h.before h.after hi.newest (fun _ hx => hi.same h hx)
    (fun _ hf hx => hf.same hx fun _ hr => h.ready_kept hr) (step_newest hi h)
  publisher := step_publisher hi h
  exchanged := step_exchanged hi h
  holding := step_holding hi h
  open_ := step_open hi h
  given := step_given hi h

theorem scope_reachable {ok : State → Act → Prop} (h : Reachable step ok init s) : Scope s :=
  h.invariant scope_init fun _ _ _ hi _ hst =>
    let ⟨_, _, _, _, hstep⟩ := step_cases hst
    step_scope hi hstep

/-! ## Results -/

/-- The await whose Runner `await_suspend` works on. -/
def RunPc.evaluates : RunPc → Option Nat
  | .suspend j _ | .awaitSuspend j _ _ | .awaitContinuation j _ _ | .awaitSpin j _ => some j
  | _ => none

/-- Whoever holds the right to a coroutine elsewhere finds its body not executing. -/
theorem Inv.not_body (hi : Inv s) {f : Frame} (hf : f ∈ s.stack t) (hd : d ∈ f.holds) (hne : ∀ l, f ≠ .body d l)
    (u : Nat) (l : Option Awaitable) : .body d l ∉ s.stack u :=
  fun hb => hne l (hi.rights.holder hf hb hd (by simp))

theorem Scope.left (hi : Scope s) {aw : Awaitable} (hf : .run d via .left ∈ s.stack t)
    (hp : s.mPostLeave d = some (.await j aw)) : s.Suspended d j := by
  obtain ⟨hpull, haw, -⟩ := hi.frames t _ hf
  have hj : s.awaits d = j + 1 := hi.newest t _ hf j aw hp
  exact ⟨hj, by omega, hpull, hi.not_body hf (by simp) (by simp)⟩

theorem Scope.evaluated (hi : Scope s) (hf : .run d via pc ∈ s.stack t) (hp : pc.evaluates = some j) :
    s.Suspended d j := by
  have hnew := hi.newest t _ hf
  have hsound := hi.frames t _ hf
  cases pc with
  | suspend | awaitSuspend | awaitContinuation =>
    cases hp
    exact hsound.1.suspended hnew (hi.not_body hf (by simp) (by simp))
  | awaitSpin =>
    cases hp
    exact State.Waiting.suspended hsound hnew (hi.not_body hf (by simp) (by simp))
  | _ => cases hp

theorem HandOver.waiting_of_opened (hi : HandOver s) {e : Nat} (ho : s.opened d = some (j, e)) : s.Waiting d := by
  cases hi.pending_of_opened ho with
  | @evaluating t via pc hf ha =>
    have hsound := hi.frames t _ hf
    cases pc with
    | awaitSuspend | awaitContinuation => exact hsound.1
    | awaitSpin => exact hsound
    | _ => cases ha
  | waiting hm => exact (hi.continuations e d hm).1
  | @returning t pc k l₁ l₂ hs hr =>
    have hsound := hi.frames t (.run e .resume pc) (by simp [hs])
    cases pc with
    | runPostLeave => exact hsound.2.2.waiting d hr
    | setContinuation | setResult => exact hsound.2.waiting d hr
    | ret => exact State.Resumable.waiting hsound d hr
    | _ => cases hr

/-- A live Runner holds the right to its coroutine, or has given it to the Routine that is awaited. -/
theorem Scope.live (hi : Scope s) (hl : s.live k = true) : s.Suspended k.1 k.2 := by
  cases hc : s.mCaller k with
  | one =>
    rw [hi.exchanged k hc] at hl
    cases hl
  | data x =>
    obtain ⟨rfl, hw⟩ := hi.runners k x hl hc
    refine hw.suspended (hi.holding k _ hl hc) fun t l hb => ?_
    have hr : k.1 ∈ spread Frame.holds s.stack s.rights (.inr (.runner k)) := by
      simp [spread, State.rights, hl, hc, Ptr.toList]
    cases hi.rights.unique hr (q := .inl t) (List.mem_flatMap.2 ⟨_, hb, by simp⟩)
  | null =>
    obtain ⟨e, ho⟩ := hi.given k hl hc
    refine (hi.waiting_of_opened ho).suspended (hi.open_ _ _ _ ho) fun t l hb => ?_
    have hnone : s.opened k.1 = none := hi.opens t _ hb
    rw [ho] at hnone
    cases hnone

/-- Who may still use the locals of a `co::await`: its Runner and its post-leave function. -/
structure State.InScope (s : State) : Prop where
  registered : ∀ f k, (s.fut f).continuationPtr = .task (.runner k) → s.Suspended k.1 k.2
  posted : ∀ c, ∀ k ∈ s.queue c, s.Suspended k.1 k.2
  called : ∀ t k, .runner k .enter ∈ s.stack t → s.Suspended k.1 k.2
  postLeave : ∀ t d via j aw, .run d via .left ∈ s.stack t → s.mPostLeave d = some (.await j aw) → s.Suspended d j
  suspending : ∀ t d via pc j, .run d via pc ∈ s.stack t → pc.evaluates = some j → s.Suspended d j

/-- In every reachable state, whoever can still use a Runner or a post-leave function finds the `co::await` it is
a local of suspended. -/
theorem runner_in_scope {ok : State → Act → Prop} (h : Reachable step ok init s) : s.InScope where
  registered := by
    intro f k hp
    have hi := scope_reachable h
    exact hi.live (hi.refs.living (.inr (.fut f)) k (by simp [spread, State.refs, hp]))
  posted := by
    intro c k hk
    have hi := scope_reachable h
    exact hi.live (hi.refs.living (.inr (.queue c)) k hk)
  called := by
    intro t k hf
    have hi := scope_reachable h
    exact hi.live (hi.live_of_mem hf)
  postLeave := fun _ _ _ _ _ hf hp => (scope_reachable h).left hf hp
  suspending := fun _ _ _ _ _ hf hp => (scope_reachable h).evaluated hf hp

/-- The Runner of await 0 of coroutine 0 lies in a future; its constructor has not returned. -/
def registeredSchedule : List Act :=
  [.construct 0 0, .step 0, .await 0 (.future 0), .step 0, .step 0, .step 0]

theorem runner_in_scope_parked : ∃ s : State, Run step anyStep init registeredSchedule s ∧
    (s.fut (.plain 0)).continuationPtr = .task (.runner (0, 0)) ∧ s.Suspended 0 0 := by
  have hrun := exec_get_run step anyStep init registeredSchedule (by decide)
  exact ⟨_, hrun, by decide, (runner_in_scope ⟨_, hrun⟩).registered (.plain 0) (0, 0) (by decide)⟩

end CoAwait.Routine
