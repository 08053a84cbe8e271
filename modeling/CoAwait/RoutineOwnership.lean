import CoAwait.RoutineSteps
import CoAwait.Tokens

/-!
# Coroutines on threads: who holds what

A `Data*` on which `resume()` will be called some day is a token: it is held by the activation that executes
the body or evaluates its post-leave function, by the `mCaller` of a live Runner, by a `mContinuation`, by a
finishing `resume()` that is about to return it, or by a Runner loop. Likewise a reference to a live Runner is
held by the awaitable it is registered with, by the queue of an io_context or by the thread that calls it.

* `Frame.holds`, `Frame.calls`, `Frame.builds`: what an activation holds.
* `Frame.Sound`: what is known of the holder and its Data; `Frame.Sound.same`: as long as nobody else interferes.
* `Same`, `Grows`: what nobody else interferes with, and what everybody may rely on; `Step.same`, `Step.grows`.
-/

namespace CoAwait.Routine

open Runs Tokens

/-! ## What an activation holds -/

/-- The rights of `Data::Data` or `Data::resume` of `d`; past the body, that to finish `d`. -/
@[simp] def RunPc.holds (d : Nat) : RunPc → List Nat
  | .enter | .left | .suspend .. | .awaitSuspend .. | .awaitContinuation .. | .awaitSpin .. | .ended => [d]
  | .pull | .suspended => []
  | .runPostLeave res | .setContinuation res | .setResult res => d :: res.toList
  | .ret res => res.toList

@[simp] def Frame.holds : Frame → List Nat
  | .body d _ => [d]
  | .run d _ pc => pc.holds d
  | .runner _ (.loop c) => c.toList
  | _ => []

/-- The Runner that is about to exchange its `mCaller`. -/
@[simp] def Frame.calls : Frame → List RunnerId
  | .runner k .enter => [k]
  | _ => []

/-- The Data whose constructor this is. -/
@[simp] def Frame.builds : Frame → List Nat
  | .run d via _ => if via = .resume then [] else [d]
  | _ => []

/-- Where a right is, if not on a stack. -/
inductive Spot where
  | runner (k : RunnerId)
  | continuation (e : Nat)
deriving DecidableEq, Repr

def State.rights (s : State) : Spot → List Nat
  | .runner k => if s.live k then (s.mCaller k).toList else []
  | .continuation e => (s.mContinuation e).toList

/-- Where a Runner is referred to, if not on a stack. -/
inductive RefSpot where
  | fut (f : Future)
  | queue (c : Nat)
deriving DecidableEq, Repr

def State.refs (s : State) : RefSpot → List RunnerId
  | .fut f =>
    match (s.fut f).continuationPtr with
    | .task (.runner k) => [k]
    | _ => []
  | .queue c => s.queue c

/-- The completing thread has not yet published the result. -/
def State.unfinished (s : State) (d : Nat) : Prop := d < s.born ∧ (s.fut (.result d)).isReady = false

def State.underConstruction (s : State) (d : Nat) : Prop := d < s.born ∧ s.constructed d = false

/-! ## What is known because of it -/

/-- The body of `d` goes on some day and nothing lies in `mPostLeave`. -/
structure State.Idle (s : State) (d : Nat) : Prop where
  active : s.mPull d = true
  postLeave : s.mPostLeave d = none

/-- `d` has left by `leave()` and has not been resumed since. -/
structure State.Waiting (s : State) (d : Nat) : Prop extends State.Idle s d where
  left : s.awaits d = s.resumes d + 1

/-- The Runner `k` has been constructed and not yet been given away. -/
structure State.Fresh (s : State) (k : RunnerId) : Prop where
  old : k.2 < s.awaits k.1
  live : s.live k = false

structure State.Resumable (s : State) (d : Nat) (res : Ptr) : Prop where
  waiting : ∀ x, res = .data x → s.Waiting x
  constructed : ∀ x, res = .data x → s.constructed d = true

def RunPc.Sound (s : State) (d : Nat) (via : Via) : RunPc → Prop
  | .enter => s.Idle d ∧ s.awaits d = s.resumes d + if via = .ctor then 0 else 1
  | .left => s.mPull d = true ∧ s.awaits d = s.resumes d + 1 ∧ ∃ j aw, s.mPostLeave d = some (.await j aw) ∧
      s.Fresh (d, j) ∧ s.mCaller (d, j) = .data d ∧ s.known aw = true
  | .suspend j aw => s.Waiting d ∧ s.Fresh (d, j) ∧ s.mCaller (d, j) = .data d ∧ s.known aw = true
  | .awaitSuspend j e c => s.Waiting d ∧ s.Fresh (d, j) ∧ s.mCaller (d, j) = .null ∧ c = .data d ∧
      s.constructed e = true
  | .awaitContinuation _ e c => s.Waiting d ∧ c = .data d ∧ s.constructed e = true
  | .awaitSpin .. => s.Waiting d
  | .ended => s.mPull d = false ∧ s.mPostLeave d = some .setResult
  | .runPostLeave res => s.mPull d = false ∧ s.mPostLeave d = some .setResult ∧ s.Resumable d res
  | .setContinuation res | .setResult res => s.mPull d = false ∧ s.Resumable d res
  | .ret res => s.Resumable d res
  | .pull | .suspended => True

def Frame.Sound (s : State) : Frame → Prop
  | .body d leaving => s.Idle d ∧ s.awaits d = s.resumes d ∧ ∀ aw, leaving = some aw → s.known aw = true
  | .run d via pc => pc.Sound s d via
  | .runner _ (.loop c) => ∀ x, c = .data x → s.Waiting x
  | _ => True

/-- What only the holder of the right to `x` changes. -/
structure Same (s s' : State) (x : Nat) : Prop where
  mPull : s'.mPull x = s.mPull x
  mPostLeave : s'.mPostLeave x = s.mPostLeave x
  mOuter : s'.mOuter x = s.mOuter x
  awaits : s'.awaits x = s.awaits x
  resumes : s'.resumes x = s.resumes x
  opened : s'.opened x = s.opened x
  started : ∀ j, s'.started (x, j) = s.started (x, j)
  fresh : ∀ j, s.live (x, j) = false → s'.live (x, j) = false ∧ s'.mCaller (x, j) = s.mCaller (x, j)

/-- What no step takes back. -/
structure Grows (s s' : State) : Prop where
  constructed : ∀ e, s.constructed e = true → s'.constructed e = true
  waiter : ∀ e k, s.waiter e = some k → s'.waiter e = some k
  disabled : ∀ e, s.mContinuation e = .one → s'.mContinuation e = .one

variable {s s' : State} {d e x : Nat} {k : RunnerId} {via : Via} {pc : RunPc} {res : Ptr}

theorem State.Idle.same (h : s.Idle d) (hs : Same s s' d) : s'.Idle d :=
  ⟨hs.mPull.trans h.active, hs.mPostLeave.trans h.postLeave⟩

theorem State.Waiting.same (h : s.Waiting d) (hs : Same s s' d) : s'.Waiting d :=
  ⟨h.toIdle.same hs, by rw [hs.awaits, hs.resumes]; exact h.left⟩

theorem State.Fresh.same {j : Nat} (h : s.Fresh (d, j)) (hs : Same s s' d) : s'.Fresh (d, j) :=
  ⟨hs.awaits ▸ h.old, (hs.fresh j h.live).1⟩

theorem State.known_grows {aw : Awaitable} (hg : Grows s s') (h : s.known aw = true) : s'.known aw = true := by
  cases aw with
  | routine e => exact hg.constructed e h
  | future n | context c => rfl

theorem State.Resumable.same (h : s.Resumable d res) (hs : ∀ x ∈ res.toList, Same s s' x) (hg : Grows s s') :
    s'.Resumable d res :=
  ⟨fun x hx => (h.waiting x hx).same (hs x (by simp [hx, Ptr.toList])),
    fun x hx => hg.constructed d (h.constructed x hx)⟩

theorem RunPc.Sound.same (h : pc.Sound s d via) (hs : ∀ x ∈ pc.holds d, Same s s' x) (hg : Grows s s') :
    pc.Sound s' d via := by
  cases pc with
  | enter =>
    have hd := hs d (by simp)
    exact ⟨h.1.same hd, by rw [hd.awaits, hd.resumes]; exact h.2⟩
  | left =>
    have hd := hs d (by simp)
    obtain ⟨hp, ha, j, aw, hm, hf, hc, hk⟩ := h
    exact ⟨hd.mPull.trans hp, by rw [hd.awaits, hd.resumes]; exact ha, j, aw, hd.mPostLeave.trans hm, hf.same hd,
      (hd.fresh j hf.live).2.trans hc, State.known_grows hg hk⟩
  | suspend j aw =>
    have hd := hs d (by simp)
    obtain ⟨hw, hf, hc, hk⟩ := h
    exact ⟨hw.same hd, hf.same hd, (hd.fresh j hf.live).2.trans hc, State.known_grows hg hk⟩
  | awaitSuspend j e c =>
    have hd := hs d (by simp)
    obtain ⟨hw, hf, hc, hcd, hk⟩ := h
    exact ⟨hw.same hd, hf.same hd, (hd.fresh j hf.live).2.trans hc, hcd, hg.constructed e hk⟩
  | awaitContinuation j e c =>
    obtain ⟨hw, hcd, hk⟩ := h
    exact ⟨hw.same (hs d (by simp)), hcd, hg.constructed e hk⟩
  | awaitSpin j e => exact State.Waiting.same h (hs d (by simp))
  | ended =>
    have hd := hs d (by simp)
    exact ⟨hd.mPull.trans h.1, hd.mPostLeave.trans h.2⟩
  | runPostLeave res =>
    have hd := hs d (by simp)
    exact ⟨hd.mPull.trans h.1, hd.mPostLeave.trans h.2.1,
      h.2.2.same (fun x hx => hs x (List.mem_cons_of_mem _ hx)) hg⟩
  | setContinuation res | setResult res =>
    have hd := hs d (by simp)
    exact ⟨hd.mPull.trans h.1, h.2.same (fun x hx => hs x (List.mem_cons_of_mem _ hx)) hg⟩
  | ret res => exact State.Resumable.same h hs hg
  | pull | suspended => trivial

theorem Frame.Sound.same {f : Frame} (h : f.Sound s) (hs : ∀ x ∈ f.holds, Same s s' x) (hg : Grows s s') :
    f.Sound s' := by
  cases f with
  | body d leaving =>
    have hd := hs d (by simp)
    obtain ⟨hi, ha, hk⟩ := h
    exact ⟨hi.same hd, by rw [hd.awaits, hd.resumes]; exact ha, fun aw haw => State.known_grows hg (hk aw haw)⟩
  | run d via pc => exact RunPc.Sound.same h hs hg
  | runner k pc =>
    cases pc with
    | loop c => exact fun x hx => (h x hx).same (hs x (by simp [hx, Ptr.toList]))
    | enter | running => trivial
  | main | wait f registered => trivial

/-! ## What a step touches -/

variable {t : Nat} {top top' rest : List Frame}

theorem Same.refl (s : State) (x : Nat) : Same s s x :=
  ⟨rfl, rfl, rfl, rfl, rfl, rfl, fun _ => rfl, fun _ h => ⟨h, rfl⟩⟩

theorem Completed.same {f : Future} {v : Value Unit} {l pre : List Frame} (h : Completed s t f v l pre s') (x : Nat) :
    Same s s' x := by
  cases h <;> exact ⟨rfl, rfl, rfl, rfl, rfl, rfl, fun _ => rfl, fun _ h => ⟨h, rfl⟩⟩

/-- The members of `x` that count for its right are changed by the holder of the right alone. -/
theorem Step.same (h : Step s t top top' rest s') (hlive : ∀ k, .runner k .enter ∈ top → s.live k = true)
    (hx : x ∉ top.flatMap Frame.holds) : Same s s' x := by
  cases h with
  | stay | move | construct | handler | awaitParked | constructed | ended | setContinuation | repost | waitRegister =>
    exact ⟨rfl, rfl, rfl, rfl, rfl, rfl, fun _ => rfl, fun _ h => ⟨h, rfl⟩⟩
  | setValue _ _ hc | setResult _ hc => exact hc.same x
  | @ret _ _ d k res =>
    rcases s.returnRes_cases t d res (.runner k (.loop res) :: rest) with ⟨y, k', rfl, -, hret⟩ | ⟨-, hret⟩
    · have hxy : x ≠ y := by simpa [Ptr.toList] using hx
      rw [hret]
      exact ⟨rfl, rfl, rfl, rfl, rfl, Function.update_of_ne hxy .., fun _ => rfl, fun _ h => ⟨h, rfl⟩⟩
    · rw [hret]
      exact ⟨rfl, rfl, rfl, rfl, rfl, rfl, fun _ => rfl, fun _ h => ⟨h, rfl⟩⟩
  | @exchange _ _ k =>
    have hk := hlive k (by simp)
    refine ⟨rfl, rfl, rfl, rfl, rfl, rfl, fun _ => rfl, fun j hj => ?_⟩
    have hne : (x, j) ≠ k := by
      rintro rfl
      rw [hk] at hj
      cases hj
    exact ⟨by simp [hne, hj], by simp [hne]⟩
  | _ =>
    have hxd := hx
    simp only [List.flatMap_cons, List.flatMap_nil, Frame.holds, RunPc.holds, List.append_nil, List.mem_cons,
      List.not_mem_nil, or_false, not_or] at hxd
    constructor <;> intros <;> simp_all [State.enter, State.leave, State.register, State.goOn, State.goto]

theorem Completed.grows {f : Future} {v : Value Unit} {l pre : List Frame} (h : Completed s t f v l pre s') :
    Grows s s' := by
  cases h <;> exact ⟨fun _ h => h, fun _ _ h => h, fun _ h => h⟩

theorem Step.grows (h : Step s t top top' rest s')
    (hw : ∀ e k, s.waiter e = some k → (s.fut (.result e)).continuationPtr ≠ .empty) : Grows s s' := by
  cases h with
  | setValue _ _ hc | setResult _ hc => exact hc.grows
  | @ret _ _ d k res =>
    obtain ⟨_, _, hret⟩ := s.returnRes_frame t d res (.runner k (.loop res) :: rest)
    rw [hret]
    exact ⟨fun _ h => h, fun _ _ h => h, fun _ h => h⟩
  | @constructed _ _ d =>
    refine ⟨fun e he => ?_, fun _ _ h => h, fun _ h => h⟩
    by_cases hed : e = d <;> simp [State.construct, State.goto, hed, he]
  | @awaitRegister _ _ d j e _ _ hs hp =>
    refine ⟨fun _ h => h, fun e' k hk => ?_, fun _ h => h⟩
    have hne : e' ≠ e := by
      rintro rfl
      exact hw e' k hk hp
    simpa [State.register, State.goto, hne] using hk
  | @awaitParked _ _ d j e _ _ hs hm =>
    refine ⟨fun _ h => h, fun _ _ h => h, fun e' he => ?_⟩
    have hne : e' ≠ e := by
      rintro rfl
      rw [hm] at he
      cases he
    simpa [State.goto, hne] using he
  | @ended _ _ d | @setContinuation _ _ d =>
    refine ⟨fun _ h => h, fun _ _ h => h, fun e he => ?_⟩
    by_cases hed : e = d <;> simp_all
  | _ => exact ⟨fun _ h => h, fun _ _ h => h, fun _ h => h⟩

end CoAwait.Routine
