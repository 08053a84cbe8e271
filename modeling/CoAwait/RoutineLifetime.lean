import CoAwait.RoutineData

/-!
# The lifetime of `Routine::Data`

Whoever sets `mIsDetached` first leaves the destruction to the other side: an owner whose `detach()` comes
first to `ResultSetter`, a completing thread to the handle. The second half fails for one kind of owner:
`detach()` that comes second destroys at once, while `ResultSetter` has `mContinuation` and `mResult` still
to update. The other owners destroy after they have seen the result, and that is late enough.

* `inv_step`: the invariant of the runs in which no `detach()` comes at that time (`inTime`).
* `destroyed_once`: in these runs Data is destroyed exactly once and never too early.
* `detach_destroys_early`, `late_detach`: a run outside of them, and what every one of them leads to.
-/

namespace CoAwait.RoutineData

open Runs

/-- Inside the constructor of Data. -/
@[grind =] def Run.inCtor : Run → Bool
  | .running via | .left via | .ended via | .setDetached via _ | .setContinuation via _ _ | .setResult via _ _
  | .call via _ _ _ | .destroy via _ | .ret via _ => via != .resume
  | .suspended | .finished => false

/-- `mPull` is still active. -/
@[grind =] def Run.active : Run → Bool
  | .running _ | .left _ | .suspended => true
  | _ => false

/-- `mContinuation` has been set to `1`, by `resume` or else by `ResultSetter`. -/
@[grind =] def Run.disabled : Run → Bool
  | .setDetached via _ | .setContinuation via _ _ => via != .ctor
  | .setResult .. | .call .. | .destroy .. | .ret .. | .finished => true
  | _ => false

/-- `ResultSetter` has exchanged `mIsDetached`. -/
@[grind =] def Run.tookDetached : Run → Bool
  | .setContinuation .. | .setResult .. | .call .. | .destroy .. | .ret .. | .finished => true
  | _ => false

@[grind =] def Run.destruct : Run → Option Bool
  | .setContinuation _ _ d | .setResult _ _ d | .call _ _ d _ => some d
  | .destroy .. => some true
  | _ => none

/-- `ResultSetter::operator()` has returned. -/
@[grind =] def Run.returned : Run → Bool
  | .ret .. | .finished => true
  | _ => false

@[grind =] def Run.res : Run → Ptr
  | .setDetached _ res | .setContinuation _ res _ | .setResult _ res _ | .call _ res _ _ | .destroy _ res
  | .ret _ res => res
  | _ => .null

/-- The task that the completing thread is about to call. -/
@[grind =] def Run.calls : Run → Option Task
  | .call _ _ _ task => some task
  | _ => none

/-- What the invariants see of `run`. -/
def Run.view (r : Run) :=
  (r.inCtor, r.active, r.disabled, r.tookDetached, r.destruct, r.returned, r.published, r.res, r.calls)

/-- Past a blocking or awaiting `get`, up to the destruction by the handle. -/
@[grind =] def OwnerPc.pastGet : OwnerPc → Bool
  | .get | .reset | .done => true
  | _ => false

/-- Past `cb.mCaller.exchange(nullptr)`. -/
@[grind =] def OwnerPc.awaiting : OwnerPc → Bool
  | .awaitSuspend _ | .awaitContinuation _ | .awaitSpin | .awaitParked => true
  | _ => false

/-- Neither in a wait nor done with the handle. -/
@[grind =] def OwnerPc.free : OwnerPc → Bool
  | .returning | .idle | .detach | .poll _ | .suspend | .awaitReady | .awaitExchange | .get | .reset => true
  | _ => false

/-- What the owner has registered in `mResult`. -/
@[grind =] def OwnerPc.registered : OwnerPc → Option Task
  | .awaitContinuation _ | .awaitSpin | .awaitParked => some .runner
  | .parked => some .cv
  | _ => none

/-- The local `continuation` of `await_suspend`. -/
@[grind =] def OwnerPc.continuation : OwnerPc → Option Ptr
  | .awaitSuspend c | .awaitContinuation c => some c
  | _ => none

/-- Before the exchange of `mIsDetached`. -/
theorem Run.early_spec {r : Run} (h : r.tookDetached = false) :
    r.destruct = none ∧ r.returned = false ∧ r.published = false ∧ r.calls = none := by
  cases r <;> simp_all [Run.tookDetached, Run.destruct, Run.returned, Run.published, Run.calls]

theorem Run.published_spec {r : Run} (h : r.published = true) :
    r.active = false ∧ r.tookDetached = true ∧ r.disabled = true := by
  cases r <;> simp_all [Run.published, Run.active, Run.tookDetached, Run.disabled]

theorem OwnerPc.free_spec {pc : OwnerPc} (h : pc.free = true) :
    pc.registered = none ∧ pc.awaiting = false ∧ pc.continuation = none ∧
      pc ≠ .constructing ∧ pc ≠ .released ∧ pc ≠ .parked ∧ pc ≠ .awaitParked ∧ pc ≠ .done := by
  cases pc <;> simp_all [OwnerPc.free, OwnerPc.registered, OwnerPc.awaiting, OwnerPc.continuation]

theorem OwnerPc.awaiting_of_registered {pc : OwnerPc} (h : pc.registered = some .runner) :
    pc.awaiting = true := by
  cases pc <;> simp_all [OwnerPc.registered, OwnerPc.awaiting]

/-- Who may destroy, who has destroyed, and what the two sides know of each other. -/
structure Lifetime (size : Nat) (s : State) : Prop where
  pull : s.mPull = s.run.active
  ctor : s.run.inCtor = true ↔ s.owner = .constructing
  detached : s.mIsDetached = true ↔ s.owner = .released ∨ s.run.tookDetached = true
  destruct : ∀ b, s.run.destruct = some b → (b = true ↔ s.owner = .released)
  published : s.mResult.isReady = s.run.published
  got : s.owner.pastGet = true → s.run.published = true
  destroyed : s.destroyed = if s.owner = .done ∨ s.owner = .released ∧ s.run.returned = true then 1 else 0
  freed : s.freed = List.replicate s.destroyed size
  terminated : s.terminated = false

/-- How the owner's wait is linked to the completion. -/
structure Waiting (s : State) : Prop where
  task : ∀ k, s.mResult.continuationPtr = .task k → s.owner.registered = some k
  call : ∀ k, s.run.calls = some k → s.owner.registered = some k
  parked : s.owner = .parked → s.mResult.continuationPtr = .task .cv ∨ s.run.calls = some .cv
  held : s.mContinuation = .data ∨ s.run.res = .data ↔ s.owner = .awaitParked
  one : s.run.disabled = true → s.mContinuation = .one
  caller : s.owner.awaiting = false → s.owner.pastGet = false → s.mCaller = .data
  called : s.mCaller = .one → s.run.published = true ∧ s.run.calls = none
  continuation : ∀ c, s.owner.continuation = some c → c = .data
  exchanged : s.owner.awaiting = true → s.mCaller ≠ .data
  spin : s.owner.registered = some .runner → s.mCaller = .one ∨ s.mResult.continuationPtr = .task .runner ∨
    s.run.calls = some .runner

structure Inv (size : Nat) (s : State) : Prop extends Lifetime size s, Waiting s

variable {size : Nat} {s s' : State}

attribute [local grind =] LightFutureData.isReady_iff Run.published

theorem inv_init : Inv size init := by
  constructor <;> constructor <;> grind -ring -linarith [init]

/-! ## The body -/

/-- A step that none of the invariants sees. -/
theorem Inv.sameView (h : Inv size s) {r : Run} (hv : r.view = s.run.view) : Inv size { s with run := r } := by
  simp only [Run.view, Prod.mk.injEq] at hv
  obtain ⟨hctor, hactive, hdisabled, htook, hdestruct, hreturned, hpublished, hres, hcalls⟩ := hv
  rcases h with ⟨⟨⟩, ⟨⟩⟩
  constructor <;> constructor <;> simp only [hctor, hactive, hdisabled, htook, hdestruct, hreturned, hpublished, hres,
    hcalls] <;> assumption

theorem Inv.leave (h : Inv size s) {via : Via} (hr : s.run = .running via) : Inv size { s with run := .left via } :=
  h.sameView (by rw [hr]; rfl)

/-- In the first part of the constructor there is no `mContinuation.exchange(1)`. -/
theorem Inv.finishCtor (h : Inv size s) (v : Value Unit) (hr : s.run = .running .ctor) :
    Inv size { s with mPull := false, mSetResult := v, run := .setDetached .ctor .null } := by
  rcases h with ⟨⟨⟩, ⟨⟩⟩
  constructor <;> constructor <;> grind -ring -linarith

theorem Inv.finish (h : Inv size s) (v : Value Unit) {via : Via} (hr : s.run = .running via) :
    Inv size { s with mPull := false, mSetResult := v, run := .ended via } := by
  rcases h with ⟨⟨⟩, ⟨⟩⟩
  constructor <;> constructor <;> grind -ring -linarith

theorem Inv.suspended (h : Inv size s) (hr : s.run = .left .resume) : Inv size { s with run := .suspended } :=
  h.sameView (by rw [hr]; rfl)

/-- The constructor returns to the owner, the body has been suspended in it. -/
theorem Inv.constructed (h : Inv size s) {via : Via} (hv : via ≠ .resume) (hr : s.run = .left via) :
    Inv size { s with run := .suspended, owner := .returning } := by
  have hown : s.owner = .constructing := h.ctor.1 (by simp [hr, hv, Run.inCtor])
  rcases h with ⟨⟨⟩, ⟨⟩⟩
  constructor <;> constructor <;> grind -ring -linarith

/-- `await_suspend` returned `false`: the body goes on. -/
theorem Inv.again (h : Inv size s) {via via' : Via} (hr : s.run = .left via) (hv : via' = .resume ↔ via = .resume) :
    Inv size { s with run := .running via' } := by
  refine h.sameView ?_
  rw [hr]
  cases via <;> cases via' <;> first | rfl | simp at hv

theorem Inv.resume (h : Inv size s) (hr : s.run = .suspended) : Inv size { s with run := .running .resume } :=
  h.sameView (by rw [hr]; rfl)

/-! ## The completing thread -/

theorem Inv.ended (h : Inv size s) {via : Via} (hr : s.run = .ended via) :
    Inv size { s with mContinuation := .one, run := .setDetached via s.mContinuation } := by
  rcases h with ⟨⟨⟩, ⟨⟩⟩
  constructor <;> constructor <;> grind -ring -linarith

/-- The completing thread takes over the destruction if the owner was here before. -/
theorem Inv.setDetached (h : Inv size s) {via : Via} {res : Ptr} (hr : s.run = .setDetached via res) :
    Inv size { s with mIsDetached := true, run := .setContinuation via res s.mIsDetached } := by
  rcases h with ⟨⟨⟩, ⟨⟩⟩
  constructor <;> constructor <;> grind -ring -linarith

theorem Inv.setContinuation (h : Inv size s) {via : Via} {res : Ptr} {d : Bool}
    (hr : s.run = .setContinuation via res d) :
    Inv size { s with
      mContinuation := if s.mContinuation = .null then .one else s.mContinuation
      run := .setResult via res d } := by
  -- only in the first part of the constructor it is not `1` yet, and then nobody awaits
  have hc : (if s.mContinuation = .null then .one else s.mContinuation) = Ptr.one := by
    by_cases hv : via = .ctor
    · have hown : s.owner = .constructing := h.ctor.1 (by simp [hr, hv, Run.inCtor])
      have hdata : s.mContinuation ≠ .data := by
        intro hd
        rw [h.held.1 (.inl hd)] at hown
        cases hown
      cases hm : s.mContinuation <;> simp_all
    · rw [h.one (by simp [hr, hv, Run.disabled])]
      rfl
  rw [hc]
  rcases h with ⟨⟨⟩, ⟨⟩⟩
  constructor <;> constructor <;> grind -ring -linarith

/-- Nobody has registered: the owner does not wait. -/
theorem Inv.publish (h : Inv size s) {via : Via} {res : Ptr} {d : Bool} (hr : s.run = .setResult via res d)
    (he : s.mResult.continuationPtr = .empty) (v : Value Unit) :
    Inv size { s with
      mResult := ((s.mResult.store v).exchange .invalid).2
      run := if d then .destroy via res else .ret via res } := by
  have hd : d = true ↔ s.owner = .released := h.destruct d (by rw [hr]; rfl)
  rcases h with ⟨⟨⟩, ⟨⟩⟩
  cases d <;> constructor <;> constructor <;> grind -ring -linarith [LightFutureData.exchange_continuationPtr]

theorem Inv.publishCall (h : Inv size s) {via : Via} {res : Ptr} {d : Bool} {k : Task}
    (hr : s.run = .setResult via res d) (hk : s.mResult.continuationPtr = .task k) (v : Value Unit) :
    Inv size { s with
      mResult := ((s.mResult.store v).exchange .invalid).2
      run := .call via res d k } := by
  rcases h with ⟨⟨⟩, ⟨⟩⟩
  constructor <;> constructor <;> grind -ring -linarith [LightFutureData.exchange_continuationPtr]

/-- `Runner::operator()` or `ConditionVariableTask::operator()`: `c` is what is left in `mCaller`, and a
blocked owner goes on. -/
theorem Inv.taskCalled (h : Inv size s) {via : Via} {res : Ptr} {d : Bool} {k : Task} {c : Ptr} {o : OwnerPc}
    (hr : s.run = .call via res d k) (ho : o = if k = .cv then .get else s.owner)
    (hc : c = if k = .runner then .one else s.mCaller) :
    Inv size { s with mCaller := c, owner := o, run := if d then .destroy via res else .ret via res } := by
  have hreg : s.owner.registered = some k := h.call k (by rw [hr]; rfl)
  have hd : d = false := by
    have := h.destruct d (by rw [hr]; rfl)
    grind -ring -linarith
  have hawait : k = .runner → s.owner.awaiting = true := by
    rintro rfl
    exact OwnerPc.awaiting_of_registered hreg
  rcases h with ⟨⟨⟩, ⟨⟩⟩
  subst hd ho hc
  cases k <;> constructor <;> constructor <;> grind -ring -linarith

theorem Inv.destroyBySetter (h : Inv size s) {via : Via} {res : Ptr} (hr : s.run = .destroy via res) :
    Inv size { s.destroy size with run := .ret via res } := by
  have hown : s.owner = .released := (h.destruct true (by rw [hr]; rfl)).1 rfl
  have h0 : s.destroyed = 0 := by
    have := h.destroyed
    grind -ring -linarith
  rcases h with ⟨⟨⟩, ⟨⟩⟩
  constructor <;> constructor <;> grind -ring -linarith [State.destroy]

/-- Back in the Runner loop, which goes on with the owner if it was the continuation. -/
theorem Inv.ret (h : Inv size s) {res : Ptr} (hr : s.run = .ret .resume res) :
    Inv size { s with owner := if res = .data then .get else s.owner, run := .finished } := by
  rcases h with ⟨⟨⟩, ⟨⟩⟩
  constructor <;> constructor <;> grind -ring -linarith

/-- Back in the constructor, which returns. -/
theorem Inv.retCtor (h : Inv size s) {via : Via} {res : Ptr} (hv : via ≠ .resume) (hr : s.run = .ret via res) :
    Inv size { s with owner := .returning, run := .finished } := by
  have hown : s.owner = .constructing := h.ctor.1 (by simp [hr, hv, Run.inCtor])
  rcases h with ⟨⟨⟩, ⟨⟩⟩
  constructor <;> constructor <;> grind -ring -linarith

/-! ## The owner -/

theorem Inv.ownerMove (h : Inv size s) {pc : OwnerPc} (hf : s.owner.free = true) (hp : pc.free = true)
    (hs : s.owner.pastGet = true → pc.pastGet = true) (hg : pc.pastGet = true → s.run.published = true) :
    Inv size { s with owner := pc } := by
  obtain ⟨hreg, hawait, -, hctor, hrel, -, hparked, hdone⟩ := OwnerPc.free_spec hf
  obtain ⟨hreg', hawait', hcont', hctor', hrel', hpark', hparked', hdone'⟩ := OwnerPc.free_spec hp
  rcases h with ⟨⟨⟩, ⟨⟩⟩
  constructor <;> constructor <;> grind -ring -linarith

/-- A move between two places from which `get` has not been left. -/
theorem Inv.ownerEarly (h : Inv size s) {pc : OwnerPc} (hf : s.owner.free = true) (hp : pc.free = true)
    (hs : s.owner.pastGet = false) (hg : pc.pastGet = false) : Inv size { s with owner := pc } := by
  refine h.ownerMove hf hp (fun hpast => ?_) (fun hpast => ?_)
  · rw [hs] at hpast
    cases hpast
  · rw [hg] at hpast
    cases hpast

/-- `detach` comes first. -/
theorem Inv.release (h : Inv size s) (ho : s.owner = .detach) (hd : s.mIsDetached = false) :
    Inv size { s with mIsDetached := true, owner := .released } := by
  have htook : s.run.tookDetached = false := by
    have := h.detached
    grind -ring -linarith
  obtain ⟨hdes, hret, hpub, hcalls⟩ := Run.early_spec htook
  rcases h with ⟨⟨⟩, ⟨⟩⟩
  constructor <;> constructor <;> grind -ring -linarith

/-- The ConditionVariableTask of `wait` is registered. -/
theorem Inv.park (h : Inv size s) (ho : s.owner = .suspend) (he : s.mResult.continuationPtr = .empty) :
    Inv size { s with mResult := { s.mResult with continuationPtr := .task .cv }, owner := .parked } := by
  rcases h with ⟨⟨⟩, ⟨⟩⟩
  constructor <;> constructor <;> grind -ring -linarith

theorem Inv.exchange (h : Inv size s) (ho : s.owner = .awaitExchange) :
    Inv size { s with mCaller := .null, owner := .awaitSuspend s.mCaller } := by
  rcases h with ⟨⟨⟩, ⟨⟩⟩
  constructor <;> constructor <;> grind -ring -linarith

/-- The Runner is registered, `mContinuation` is still to be set. -/
theorem Inv.register (h : Inv size s) {c : Ptr} (ho : s.owner = .awaitSuspend c)
    (he : s.mResult.continuationPtr = .empty) :
    Inv size
      { s with mResult := { s.mResult with continuationPtr := .task .runner }, owner := .awaitContinuation c } := by
  have hc : c = .data := h.continuation c (by rw [ho]; rfl)
  rcases h with ⟨⟨⟩, ⟨⟩⟩
  constructor <;> constructor <;> grind -ring -linarith

/-- The coroutine of the owner waits in `mContinuation`. -/
theorem Inv.awaitParked (h : Inv size s) {c : Ptr} (ho : s.owner = .awaitContinuation c)
    (hm : s.mContinuation = .null) :
    Inv size { s with mContinuation := c, owner := .awaitParked } := by
  have hc : c = .data := h.continuation c (by rw [ho]; rfl)
  -- the body has not ended: the continuation will be found
  have hrun : s.run.disabled = false := by
    have := h.one
    grind -ring -linarith
  rcases h with ⟨⟨⟩, ⟨⟩⟩
  constructor <;> constructor <;> grind -ring -linarith

theorem Inv.awaitSpin (h : Inv size s) {c : Ptr} (ho : s.owner = .awaitContinuation c)
    (hm : s.mContinuation = .one) : Inv size { s with owner := .awaitSpin } := by
  rcases h with ⟨⟨⟩, ⟨⟩⟩
  constructor <;> constructor <;> grind -ring -linarith

/-- `await_suspend` returns `false`. -/
theorem Inv.awaitReturns (h : Inv size s) (ho : s.owner.awaiting = true) (hp : s.owner ≠ .awaitParked)
    (hpub : s.run.published = true) (hcalls : s.run.calls = none) : Inv size { s with owner := .get } := by
  rcases h with ⟨⟨⟩, ⟨⟩⟩
  constructor <;> constructor <;> grind -ring -linarith

theorem Inv.destroyByHandle (h : Inv size s) (ho : s.owner = .reset) :
    Inv size { s.destroy size with owner := .done } := by
  have hpub : s.run.published = true := h.got (by rw [ho]; rfl)
  have h0 : s.destroyed = 0 := by
    have := h.destroyed
    grind -ring -linarith
  have hact : s.run.active = false := (Run.published_spec hpub).1
  rcases h with ⟨⟨⟩, ⟨⟩⟩
  constructor <;> constructor <;> grind -ring -linarith [State.destroy]

/-! ## Steps -/

theorem inv_runStep (h : Inv size s) (hst : runStep size s = some s') : Inv size s' := by
  unfold runStep at hst
  split at hst
  case h_5 via hr =>
    obtain rfl := Option.some.inj hst
    exact h.ended hr
  case h_6 via res hr =>
    have hset := h.setDetached hr
    split at hst
    case isTrue hd =>
      obtain rfl := Option.some.inj hst
      simpa [hd] using hset
    case isFalse hd =>
      obtain rfl := Option.some.inj hst
      simpa [hd] using hset
  case h_7 via res d hr =>
    obtain rfl := Option.some.inj hst
    exact h.setContinuation hr
  case h_8 via res d hr =>
    cases hp : s.mResult.continuationPtr with
    | empty =>
      simp only [LightFutureData.exchange, LightFutureData.store, hp] at hst
      obtain rfl := Option.some.inj hst
      exact h.publish hr hp s.mSetResult
    | task k =>
      simp only [LightFutureData.exchange, LightFutureData.store, hp] at hst
      obtain rfl := Option.some.inj hst
      exact h.publishCall hr hp s.mSetResult
    | invalid =>
      simp only [LightFutureData.exchange, LightFutureData.store, hp] at hst
      cases hst
  case h_9 via res d k hr =>
    have hreg : s.owner.registered = some k := h.call k (by rw [hr]; rfl)
    have hcalled := h.taskCalled hr rfl rfl
    cases k with
    | cv =>
      have ho : s.owner = .parked := by
        cases howner : s.owner <;> simp_all [OwnerPc.registered]
      simp only [ho] at hst
      obtain rfl := Option.some.inj hst
      simpa using hcalled
    | runner =>
      have hc : s.mCaller ≠ .data := h.exchanged (OwnerPc.awaiting_of_registered hreg)
      cases hm : s.mCaller with
      | data => exact absurd hm hc
      | null | one =>
        simp only [hm] at hst
        obtain rfl := Option.some.inj hst
        simpa using hcalled
  case h_10 via res hr =>
    obtain rfl := Option.some.inj hst
    exact h.destroyBySetter hr
  case h_11 res hr =>
    have hret := h.ret hr
    cases res with
    | data =>
      have ho : s.owner = .awaitParked := h.held.1 (.inr (by rw [hr]; rfl))
      simp only [ho] at hst
      obtain rfl := Option.some.inj hst
      simpa using hret
    | null | one =>
      obtain rfl := Option.some.inj hst
      simpa using hret
  case h_12 via res hv hr =>
    obtain rfl := Option.some.inj hst
    exact h.retCtor hv hr
  all_goals cases hst

/-- `mResult` is published where a `suspend` fails. -/
theorem Inv.published_of_suspend (h : Inv size s) {k : Task} (hn : s.owner.registered = none)
    (hs : (s.mResult.suspend k).1 = false) : s.run.published = true ∧ s.run.calls = none := by
  have hcalls : s.run.calls = none := by
    cases hc : s.run.calls with
    | none => rfl
    | some k' => simp [h.call k' hc] at hn
  have hptr : s.mResult.continuationPtr ≠ .empty := by
    intro he
    simp [LightFutureData.suspend, he] at hs
  refine ⟨?_, hcalls⟩
  cases hp : s.mResult.continuationPtr with
  | empty => exact absurd hp hptr
  | task k' => simp [h.task k' hp] at hn
  | invalid => rw [← h.published]; simpa using hp

theorem inv_ownerStep (h : Inv size s) (hok : inTime s .owner) (hst : ownerStep size s = some s') : Inv size s' := by
  have hready : s.mResult.isReady = true → s.run.published = true := fun hr => h.published ▸ hr
  unfold ownerStep at hst
  split at hst
  case h_7 ho =>
    obtain rfl := Option.some.inj hst
    exact h.ownerEarly (by rw [ho]; rfl) rfl (by rw [ho]; rfl) rfl
  case h_8 ho =>
    split at hst
    case isTrue hd =>
      -- where the two sides may meet: `inTime` says that the result is there
      have hres : s.mResult.isReady = true := by simpa [inTime, lateDetach, ho, hd] using hok
      obtain rfl := Option.some.inj hst
      exact h.ownerMove (by rw [ho]; rfl) rfl (fun _ => rfl) (fun _ => hready hres)
    case isFalse hd =>
      obtain rfl := Option.some.inj hst
      exact h.release ho (by simpa using hd)
  case h_9 n ho =>
    split at hst
    case isTrue hr =>
      obtain rfl := Option.some.inj hst
      exact h.ownerMove (by rw [ho]; rfl) rfl (fun _ => rfl) (fun _ => hready hr)
    case isFalse =>
      obtain rfl := Option.some.inj hst
      exact h.ownerEarly (by rw [ho]; rfl) rfl (by rw [ho]; rfl) rfl
  case h_10 ho =>
    obtain rfl := Option.some.inj hst
    exact h.ownerEarly (by rw [ho]; rfl) rfl (by rw [ho]; rfl) rfl
  case h_11 ho =>
    have hn : s.owner.registered = none := by rw [ho]; rfl
    split at hst
    case h_1 f hs =>
      obtain rfl := Option.some.inj hst
      have he := LightFutureData.suspend_eq_true_iff.1 (congrArg Prod.fst hs)
      obtain rfl : f = { s.mResult with continuationPtr := .task .cv } := by
        simpa [LightFutureData.suspend, he] using (congrArg Prod.snd hs).symm
      exact h.park ho he
    case h_2 hs =>
      obtain rfl := Option.some.inj hst
      have hpub := h.published_of_suspend hn (congrArg Prod.fst hs)
      exact h.ownerMove (by rw [ho]; rfl) rfl (fun _ => rfl) (fun _ => hpub.1)
  case h_12 ho =>
    split at hst
    case isTrue hr =>
      obtain rfl := Option.some.inj hst
      exact h.ownerMove (by rw [ho]; rfl) rfl (fun _ => rfl) (fun _ => hready hr)
    case isFalse =>
      obtain rfl := Option.some.inj hst
      exact h.ownerEarly (by rw [ho]; rfl) rfl (by rw [ho]; rfl) rfl
  case h_13 ho =>
    obtain rfl := Option.some.inj hst
    exact h.exchange ho
  case h_14 c ho =>
    have hn : s.owner.registered = none := by rw [ho]; rfl
    split at hst
    case h_1 f hs =>
      obtain rfl := Option.some.inj hst
      have he := LightFutureData.suspend_eq_true_iff.1 (congrArg Prod.fst hs)
      obtain rfl : f = { s.mResult with continuationPtr := .task .runner } := by
        simpa [LightFutureData.suspend, he] using (congrArg Prod.snd hs).symm
      exact h.register ho he
    case h_2 hs =>
      obtain rfl := Option.some.inj hst
      obtain ⟨hpub, hcalls⟩ := h.published_of_suspend hn (congrArg Prod.fst hs)
      exact h.awaitReturns (by rw [ho]; rfl) (by simp [ho]) hpub hcalls
  case h_15 c ho =>
    split at hst
    case h_1 hm =>
      obtain rfl := Option.some.inj hst
      exact h.awaitParked ho hm
    case h_2 hm =>
      obtain rfl := Option.some.inj hst
      exact h.awaitSpin ho hm
    case h_3 => cases hst
  case h_16 ho =>
    split at hst
    case isTrue hc =>
      obtain rfl := Option.some.inj hst
      obtain ⟨hpub, hcalls⟩ := h.called hc
      exact h.awaitReturns (by rw [ho]; rfl) (by simp [ho]) hpub hcalls
    case isFalse => cases hst
  case h_17 ho =>
    split at hst
    case isTrue hr =>
      obtain rfl := Option.some.inj hst
      exact h.ownerMove (by rw [ho]; rfl) rfl (fun _ => rfl) (fun _ => hready hr)
    case isFalse => cases hst
  case h_18 ho =>
    obtain rfl := Option.some.inj hst
    exact h.destroyByHandle ho
  all_goals cases hst

theorem inv_step {a : Act} (h : Inv size s) (hok : inTime s a) (hst : step size s a = some s') : Inv size s' := by
  cases a with
  | leave =>
    simp only [step] at hst
    split at hst
    case h_1 via hr =>
      obtain rfl := Option.some.inj hst
      exact h.leave hr
    case h_2 => cases hst
  | finish exception =>
    simp only [step] at hst
    split at hst
    case h_1 hr =>
      obtain rfl := Option.some.inj hst
      exact h.finishCtor _ hr
    case h_2 via _ hr =>
      obtain rfl := Option.some.inj hst
      exact h.finish _ hr
    case h_3 => cases hst
  | postLeave b =>
    simp only [step] at hst
    split at hst
    case h_1 hr =>
      obtain rfl := Option.some.inj hst
      exact h.suspended hr
    case h_2 via hv hr =>
      obtain rfl := Option.some.inj hst
      exact h.constructed (by simpa using hv) hr
    case h_3 hr =>
      obtain rfl := Option.some.inj hst
      exact h.again hr Iff.rfl
    case h_4 via hv hr =>
      obtain rfl := Option.some.inj hst
      exact h.again hr (by simpa using hv)
    case h_5 => cases hst
  | resume =>
    simp only [step] at hst
    split at hst
    case h_1 hr =>
      obtain rfl := Option.some.inj hst
      exact h.resume hr
    case h_2 => cases hst
  | run => exact inv_runStep h hst
  | choose c =>
    have hidle : ∀ {pc : OwnerPc}, s.owner = .idle → pc.free = true → pc.pastGet = false →
        Inv size { s with owner := pc } := fun ho hp hg =>
      h.ownerEarly (by rw [ho]; rfl) hp (by rw [ho]; rfl) hg
    simp only [step] at hst
    split at hst
    case h_5 => cases hst
    all_goals
      rename_i ho
      obtain rfl := Option.some.inj hst
      exact hidle ho rfl rfl
  | owner => exact inv_ownerStep h hok hst

theorem inv_reachable (h : Reachable (step size) inTime init s) : Inv size s :=
  h.invariant inv_init fun _ _ _ hi hok hst => inv_step hi hok hst

/-! ## Results -/

theorem Inv.run_finished (h : Inv size s) (hst : ∀ a, step size s a = none) : s.run = .finished := by
  have hrun : runStep size s = none := hst .run
  cases hr : s.run with
  | running via => simpa [step, hr] using hst .leave
  | left via => cases via <;> simpa [step, hr] using hst (.postLeave true)
  | suspended => simpa [step, hr] using hst .resume
  | ended via | setContinuation via res d | destroy via res => simp [runStep, hr] at hrun
  | setDetached via res =>
    simp only [runStep, hr] at hrun
    split at hrun <;> cases hrun
  | setResult via res d =>
    cases hp : s.mResult.continuationPtr with
    | empty | task k => simp [runStep, hr, LightFutureData.exchange, LightFutureData.store, hp] at hrun
    | invalid =>
      have hpub := h.published
      rw [LightFutureData.isReady_iff.2 hp, hr] at hpub
      cases hpub
  | call via res d k =>
    have hreg : s.owner.registered = some k := h.call k (by rw [hr]; rfl)
    cases k with
    | cv => cases ho : s.owner <;> simp_all [OwnerPc.registered, runStep]
    | runner => cases hm : s.mCaller <;> simp [runStep, hr, hm] at hrun
  | ret via res =>
    cases via with
    | ctor | ctorResume => simp [runStep, hr] at hrun
    | resume =>
      cases res with
      | null | one => simp [runStep, hr] at hrun
      | data =>
        have ho : s.owner = .awaitParked := h.held.1 (.inr (by rw [hr]; rfl))
        simp [runStep, hr, ho] at hrun
  | finished => rfl

theorem Inv.owner_finished (h : Inv size s) (hr : s.run = .finished) (hst : ∀ a, step size s a = none) :
    s.owner = .done ∨ s.owner = .released := by
  have hown : ownerStep size s = none := hst .owner
  have hpub : s.mResult.isReady = true := by rw [h.published, hr]; rfl
  have hone : s.mContinuation = .one := h.one (by rw [hr]; rfl)
  have hptr := LightFutureData.isReady_iff.1 hpub
  cases ho : s.owner with
  | done => exact .inl rfl
  | released => exact .inr rfl
  | constructing =>
    have := h.ctor.2 ho
    rw [hr] at this
    cases this
  | idle => simpa [step, ho] using hst (.choose .join)
  | parked =>
    have := h.parked ho
    simp [hptr, hr, Run.calls] at this
  | awaitParked =>
    have := h.held.2 ho
    simp [hone, hr, Run.res] at this
  | awaitSpin =>
    have := h.spin (by rw [ho]; rfl)
    simp_all [ownerStep, Run.calls]
  | returning | suspend | awaitExchange | reset | get | awaitReady | awaitContinuation c =>
    simp_all [ownerStep, LightFutureData.suspend]
  | awaitSuspend c => simp_all [ownerStep, LightFutureData.suspend]
  | detach =>
    simp only [ownerStep, ho] at hown
    split at hown <;> cases hown
  | poll n => cases n <;> simp_all [ownerStep]

/-- **The destruction of Data**: at most one destruction, with the block returned once and whole, no call of
`terminate`, not before `ResultSetter` is through with the members, and none only as long as some party can
still make a step. -/
theorem destroyed_once (h : Reachable (step size) inTime init s) :
    s.destroyed ≤ 1 ∧ s.freed = List.replicate s.destroyed size ∧ s.terminated = false ∧
      (s.destroyed = 1 → s.run.published = true) ∧ ((∀ a, step size s a = none) → s.destroyed = 1) := by
  have hi := inv_reachable h
  have hd := hi.destroyed
  refine ⟨?_, hi.freed, hi.terminated, ?_, ?_⟩
  · rw [hd]
    split <;> omega
  · intro h1
    have hwho : s.owner = .done ∨ s.owner = .released ∧ s.run.returned = true := by
      by_contra hn
      rw [if_neg hn] at hd
      omega
    rcases hwho with ho | ⟨-, hret⟩
    · exact hi.got (by rw [ho]; rfl)
    · cases hr : s.run <;> simp_all [Run.returned, Run.published]
  · intro hst
    have hr := hi.run_finished hst
    rw [hd, if_pos]
    rcases hi.owner_finished hr hst with ho | ho
    · exact .inl ho
    · exact .inr ⟨ho, by rw [hr]; rfl⟩

/-- The body ends by an exception on another thread, between the two compare-exchanges of `await_suspend`. -/
def awaitSchedule : List Act :=
  [.leave, .postLeave true, .owner, .choose .await, .owner, .owner, .owner, .resume, .finish (some 7), .run, .owner,
    .run, .run, .run, .run, .owner, .run, .owner, .owner]

theorem destroyed_once_await :
    ∃ s : State, Runs.Run (step 4096) inTime init awaitSchedule s ∧ s.mResult.value = .exception 7 ∧ s.destroyed = 1 ∧
      s.freed = [4096] ∧ s.run.published = true := by
  have hrun := exec_get_run (step 4096) inTime init awaitSchedule (by decide)
  obtain ⟨-, hf, -, hp, -⟩ := destroyed_once ⟨_, hrun⟩
  exact ⟨_, hrun, by decide, by decide, hf, hp (by decide)⟩

/-- The body ends on another thread, and `detach()` runs right after that thread's exchange of `mIsDetached`. -/
def detachSchedule : List Act :=
  [.leave, .postLeave true, .owner, .resume, .finish none, .run, .run, .choose .detach, .owner, .owner]

theorem detach_destroys_early :
    ¬ ∀ (size : Nat) (s : State), Reachable (step size) anyStep init s → s.destroyed = 1 → s.run.published = true := by
  intro h
  have hrun := exec_get_run (step 4096) anyStep init detachSchedule (by decide)
  exact absurd (h 4096 _ ⟨_, hrun⟩ (by decide)) (by decide)

/-- Every `detach()` out of time is one: its next two steps destroy Data under the completing thread. -/
theorem late_detach (h : Reachable (step size) inTime init s) (hl : lateDetach s .owner = true) :
    ∃ t u, step size s .owner = some t ∧ step size t .owner = some u ∧ u.destroyed = 1 ∧ u.run.published = false := by
  have hi := inv_reachable h
  simp only [lateDetach, Bool.and_eq_true, Bool.not_eq_true', beq_iff_eq] at hl
  obtain ⟨⟨ho, hd⟩, hr⟩ := hl
  have h0 : s.destroyed = 0 := by
    have := hi.destroyed
    simpa [ho] using this
  refine ⟨{ s with owner := .reset }, _, by simp [step, ownerStep, ho, hd], rfl, ?_, ?_⟩
  · simp [State.destroy, h0]
  · simpa [State.destroy, hi.published] using hr

end CoAwait.RoutineData
