import CoAwait.SharedChannelRuns

/-!
# `SharedChannel`: who has got what

* `Tally`: `taken` is the account of the pops that have returned, with the owner each was made by.
* `delivered_exactly`: after the last owner of both handles has gone.
-/

namespace CoAwait.SharedChannel

open Runs Table Handles
open BufferedChannel (proper)

variable {T : Type} {s s' s₀ : State T} {a : Act T} {p i k n : Nat} {f : Phase}

structure Tally (s : State T) : Prop extends Owned s where
  once : (s.taken.map Prod.snd).Nodup
  returned : ∀ k, k ∈ s.taken.map Prod.snd ↔ k < s.chan.pops.length ∧ ¬ s.chan.popOpen k
  ordered : ∀ c, ((s.taken.filter fun x => x.1 == c).map Prod.snd).Pairwise (· < ·)
  /-- An owner pops again after its earlier pops have returned. -/
  ahead : ∀ c k : Nat, s.receivers[c]? = some (.calling k) → ∀ x ∈ s.taken, x.1 = c → x.2 < k

theorem tally_init (h : makeBufferedChannel n = some s) : Tally s where
  toOwned := owned_init h
  once := by
    obtain ⟨c, hc, rfl⟩ := Option.map_eq_some_iff.1 h
    exact List.nodup_nil
  returned := by
    obtain ⟨c, hc, rfl⟩ := Option.map_eq_some_iff.1 h
    have hlen : c.pops.length = 0 := (BufferedChannel.step_popsKept hc rfl).length
    simp [hlen]
  ordered := by
    obtain ⟨c, hc, rfl⟩ := Option.map_eq_some_iff.1 h
    exact fun _ => .nil
  ahead := by
    obtain ⟨c, hc, rfl⟩ := Option.map_eq_some_iff.1 h
    exact fun c k _ x hx => by cases hx

/-! ## Steps -/

/-- The account is not touched, and neither are the pops in progress. -/
theorem Tally.kept (h : Tally s) (hi : Owned s') (htaken : s'.taken = s.taken)
    (hopen : ∀ k, s'.chan.popOpen k ↔ s.chan.popOpen k) (hlen : s'.chan.pops.length = s.chan.pops.length)
    (hcalls : ∀ c k : Nat, s'.receivers[c]? = some (.calling k) → s.receivers[c]? = some (.calling k)) : Tally s' where
  toOwned := hi
  once := by
    rw [htaken]
    exact h.once
  returned := by
    intro k
    rw [htaken, h.returned, hopen, hlen]
  ordered := by
    rw [htaken]
    exact h.ordered
  ahead := by
    rw [htaken]
    exact fun c k hc => h.ahead c k (hcalls c k hc)

/-- No new call in an owner that does something else. -/
theorem calling_of_set (hp : s.receivers[p]? = some f) {g : Phase} (hg : ∀ k, g ≠ .calling k) {c k : Nat}
    (hc : (s.receivers.set p g)[c]? = some (.calling k)) : s.receivers[c]? = some (.calling k) := by
  rcases (get_set_iff hp).1 hc with ⟨-, he⟩ | ⟨-, hc⟩
  · exact absurd he.symm (hg k)
  · exact hc

theorem Tally.pop (h : Tally s) {c : BufferedChannel.State T} (hp : s.receivers[p]? = some .idle)
    (hc : BufferedChannel.step s.chan .pop = some c)
    (hi : Owned { s with chan := c, receivers := s.receivers.set p (.calling s.chan.pops.length) }) :
    Tally { s with chan := c, receivers := s.receivers.set p (.calling s.chan.pops.length) } where
  toOwned := hi
  once := h.once
  returned := by
    intro k
    obtain ⟨hopen, -, hlen⟩ := BufferedChannel.pop_open (j := k) hc
    simp only [h.returned, hopen, hlen, not_or]
    constructor
    · rintro ⟨hlt, hno⟩
      exact ⟨by omega, by omega, hno⟩
    · rintro ⟨hlt, hne, hno⟩
      exact ⟨by omega, hno⟩
  ordered := h.ordered
  ahead := by
    intro q k hq x hx hxq
    rcases (get_set_iff hp).1 hq with ⟨-, he⟩ | ⟨-, hq⟩
    · cases he
      exact ((h.returned x.2).1 (List.mem_map_of_mem hx)).1
    · exact h.ahead q k hq x hx hxq

theorem Tally.popReturn (h : Tally s) {c : BufferedChannel.State T} (hp : s.receivers[p]? = some (.calling k))
    (hc : BufferedChannel.step s.chan (.popReturn k) = some c)
    (hi : Owned { s with chan := c, receivers := s.receivers.set p .idle, taken := s.taken ++ [(p, k)] }) :
    Tally { s with chan := c, receivers := s.receivers.set p .idle, taken := s.taken ++ [(p, k)] } where
  toOwned := hi
  once := by
    obtain ⟨-, -, -, hk, -⟩ := BufferedChannel.popReturn_open (j := k) hc
    rw [List.map_append, List.nodup_append]
    refine ⟨h.once, by simp, fun x hx y hy => ?_⟩
    obtain rfl : y = k := by simpa using hy
    rintro rfl
    exact ((h.returned x).1 hx).2 hk
  returned := by
    intro j
    obtain ⟨hopen, -, -, hk, hlen, -⟩ := BufferedChannel.popReturn_open (j := j) hc
    rw [List.map_append, List.mem_append, h.returned, hopen, hlen]
    have hlt := hk.1
    simp only [List.map_cons, List.map_nil, List.mem_singleton]
    constructor
    · rintro (⟨hj, hno⟩ | rfl)
      · exact ⟨hj, fun hno' => hno hno'.1⟩
      · exact ⟨hlt, fun hno => hno.2 rfl⟩
    · rintro ⟨hj, hno⟩
      by_cases hjk : j = k
      · exact .inr hjk
      · exact .inl ⟨hj, fun hopen => hno ⟨hopen, hjk⟩⟩
  ordered := by
    intro q
    rw [List.filter_append, List.map_append, List.pairwise_append]
    refine ⟨h.ordered q, ?_, ?_⟩
    · by_cases hq : p = q <;> simp [hq]
    · intro x hx y hy
      obtain ⟨z, hz, rfl⟩ := List.mem_map.1 hx
      obtain ⟨hz, hzq⟩ := List.mem_filter.1 hz
      obtain ⟨w, hw, rfl⟩ := List.mem_map.1 hy
      obtain ⟨hw, hwq⟩ := List.mem_filter.1 hw
      obtain rfl := List.mem_singleton.1 hw
      exact h.ahead p k hp z hz (by simp_all)
  ahead := by
    intro q j hq x hx hxq
    rcases (get_set_iff hp).1 hq with ⟨-, he⟩ | ⟨hne, hq⟩
    · cases he
    · rcases List.mem_append.1 hx with hx | hx
      · exact h.ahead q j hq x hx hxq
      · obtain rfl := List.mem_singleton.1 hx
        exact absurd hxq.symm hne

theorem step_tally (h : Tally s) (hst : step s a = some s') : Tally s' := by
  have hi := step_owned h.toOwned (step_cases hst)
  -- the senders' side
  have hother : ∀ {c b}, BufferedChannel.step s.chan b = some c → b.popSide = false → s'.chan = c →
      s'.taken = s.taken → s'.receivers = s.receivers → Tally s' := by
    intro c b hc hb hchan htaken hrec
    have hkept := BufferedChannel.step_popsKept hc hb
    exact h.kept hi htaken (fun k => by rw [hchan]; exact hkept.open_ k) (by rw [hchan]; exact hkept.length)
      fun c k hck => by rwa [hrec] at hck
  cases step_cases hst with
  | copySender hp | dropSender hp | senderLeaves hp =>
    exact h.kept hi rfl (fun _ => Iff.rfl) rfl fun _ _ hck => hck
  | push hp hc | handOver hp hc | pushReturn hp hc | closeSender hp hc | notifyReceiver hp hc =>
    exact hother hc rfl rfl rfl rfl
  | copyReceiver hp =>
    refine h.kept hi rfl (fun _ => Iff.rfl) rfl fun c k hck => ?_
    rcases get_concat_iff.1 hck with hck | ⟨-, he⟩
    · exact hck
    · cases he
  | dropReceiver hp =>
    refine h.kept hi rfl (fun _ => Iff.rfl) rfl fun c k hck => calling_of_set hp (fun k => ?_) hck
    rw [released]
    split <;> simp
  | receiverLeaves hp => exact h.kept hi rfl (fun _ => Iff.rfl) rfl fun c k => calling_of_set hp (by simp)
  | pop hp hc => exact h.pop hp hc hi
  | wakeSender hp hc =>
    have hlen := (BufferedChannel.wakeSender_open (j := 0) hc).2.2
    exact h.kept hi rfl (fun _ => (BufferedChannel.wakeSender_open hc).1) hlen fun _ _ hck => hck
  | popReturn hp hc => exact h.popReturn hp hc hi
  | closeReceiver hp hc =>
    have hkept := BufferedChannel.step_popsKept hc rfl
    exact h.kept hi rfl hkept.open_ hkept.length fun c k => calling_of_set hp (by simp)
  | notifySender hp hc => exact hother hc rfl rfl rfl rfl

theorem tally_reachable (h0 : makeBufferedChannel n = some s₀) (h : Reachable step anyStep s₀ s) : Tally s :=
  h.invariant (tally_init h0) fun _ _ _ hI _ hst => step_tally hI hst

/-! ## What has been received -/

/-- The elements that the pops of all owners have returned, with the numbers of their pushes. -/
def State.received (s : State T) : List (Nat × T) := s.taken.filterMap fun x => (s.chan.got x.2).join

def State.receivedBy (s : State T) (c : Nat) : List (Nat × T) :=
  (s.taken.filter fun x => x.1 == c).filterMap fun x => (s.chan.got x.2).join

theorem Tally.assigned_of_got (h : Tally s) {x : Nat × T} (hx : (s.chan.got k).join = some x) :
    s.chan.assigned[k]? = some x := by
  obtain ⟨r, hr, rfl⟩ : ∃ r, s.chan.got k = some r ∧ r = some x := by simpa [Option.join_eq_some_iff] using hx
  exact h.fifo.got k x hr

theorem Tally.assigned_ordered (h : Tally s) : (s.chan.assigned.map Prod.fst).Pairwise (· < ·) := by
  have hord : (s.chan.accepted.map Prod.fst).Pairwise (· < ·) := h.fifo.ordered
  rw [show s.chan.accepted = s.chan.assigned ++ s.chan.chan.mReadyData from h.fifo.split, List.map_append,
    List.pairwise_append] at hord
  exact hord.1

/-- An owner gets elements in the order in which they have been pushed. -/
theorem Tally.receivedBy_ordered (h : Tally s) (c : Nat) : ((s.receivedBy c).map Prod.fst).Pairwise (· < ·) := by
  have hord := h.ordered c
  rw [List.pairwise_map] at hord
  rw [State.receivedBy, List.pairwise_map, List.pairwise_filterMap]
  refine hord.imp fun {x y} hlt v hv w hw => ?_
  obtain ⟨hx, hv⟩ := List.getElem?_eq_some_iff.1 (h.assigned_of_got hv)
  obtain ⟨hy, hw⟩ := List.getElem?_eq_some_iff.1 (h.assigned_of_got hw)
  have := List.pairwise_iff_getElem.1 h.assigned_ordered x.2 y.2 (by simpa using hx) (by simpa using hy) hlt
  simpa [hv, hw] using this

/-- Once no pop is open, what has been received is what has been assigned. -/
theorem Tally.received_perm (h : Tally s) (hquiet : ∀ k, ¬ s.chan.popOpen k) : s.received.Perm s.chan.assigned := by
  have hrange : (s.taken.map Prod.snd).Perm (List.range s.chan.pops.length) := by
    refine (List.perm_ext_iff_of_nodup h.once List.nodup_range).2 fun k => ?_
    rw [h.returned, List.mem_range]
    exact ⟨fun hk => hk.1, fun hk => ⟨hk, hquiet k⟩⟩
  have hlook : (fun k => (s.chan.got k).join) = look (fun p => p.self.join) s.chan.pops := by
    funext k
    cases hk : s.chan.pops[k]? <;> simp [BufferedChannel.State.got, look, hk]
  have hperm : s.received.Perm ((List.range s.chan.pops.length).filterMap fun k => (s.chan.got k).join) := by
    have hmap := hrange.filterMap fun k => (s.chan.got k).join
    rw [List.filterMap_map] at hmap
    exact hmap
  rw [hlook, filterMap_range_look] at hperm
  have hgot : ∀ k < s.chan.pops.length, k < s.chan.pops.length → s.chan.got k ≠ none := fun k hk _ =>
    h.clients.got_of_returned hk (hquiet k)
  have hobtained := BufferedChannel.obtained_eq h.fifo s.chan.pops.length hgot
  have hbound : s.chan.assigned.length ≤ s.chan.pops.length := h.fifo.bound
  rw [BufferedChannel.State.obtained, List.take_of_length_le (Nat.le_refl _),
    List.take_of_length_le hbound] at hobtained
  rw [← hobtained]
  exact hperm

/-- A pop that has got nothing says that every push has been received, or will be. -/
theorem Tally.all_assigned (h : Tally s) (hnone : s.chan.got k = some none) :
    (s.chan.assigned.map Prod.snd).Perm s.chan.vals := by
  have hready : s.chan.chan.mReadyData = [] := (h.fifo.empty k hnone).2.2
  have hacc : s.chan.accepted = s.chan.assigned := by
    have hsplit : s.chan.accepted = s.chan.assigned ++ s.chan.chan.mReadyData := h.fifo.split
    rw [hsplit, hready, List.append_nil]
  have hval : ∀ i x, s.chan.val i = some x ↔ s.chan.vals[i]? = some x := by
    intro i x
    cases hq : s.chan.pushes[i]? <;> simp [BufferedChannel.State.val, BufferedChannel.State.vals, look, hq]
  refine perm_of_numbered (h.assigned_ordered.imp Nat.ne_of_lt) fun i x => ?_
  rw [← hacc, ← hval]
  constructor
  · exact h.fifo.genuine (i, x)
  · intro hx
    obtain ⟨y, hy⟩ := h.served.accepted (.inr ⟨k, hnone⟩) i (lt_of_look hx)
    have hxy := h.fifo.genuine (i, y) hy
    rw [show s.chan.flow.val i = some x from hx] at hxy
    cases hxy
    exact hy

/-- Nobody is refused when somebody has come to the end. -/
theorem Tally.none_refused (h : Tally s) (hnone : s.chan.got k = some none) (hi : i < s.chan.pushes.length) :
    s.chan.sent i ≠ some false := by
  intro hfalse
  -- every push has been accepted, and all that was accepted has been assigned
  obtain ⟨x, hx⟩ := h.served.accepted (.inr ⟨k, hnone⟩) i hi
  have hready : s.chan.chan.mReadyData = [] := (h.fifo.empty k hnone).2.2
  rw [show s.chan.accepted = s.chan.assigned ++ s.chan.chan.mReadyData from h.fifo.split, hready,
    List.append_nil] at hx
  exact (h.truthful.refused i hfalse).2 x hx

/-- Once no pop is open, the oldest accepted elements have been received. -/
theorem Tally.received_take (h : Tally s) (hquiet : ∀ k, ¬ s.chan.popOpen k) :
    s.received.Perm (s.chan.accepted.take s.received.length) := by
  have hperm := h.received_perm hquiet
  rw [hperm.length_eq, show s.chan.accepted = s.chan.assigned ++ s.chan.chan.mReadyData from h.fifo.split,
    List.take_left]
  exact hperm

/-! ## Results -/

/-- At every time an owner has received elements in the order of their pushes. After the last owner of both handles
has gone, the channel is as its destructor asserts; what has been received are the oldest accepted elements, each
once; a push that has returned `false` has been received by nobody; and if some pop has got nothing, every push has
returned `true` and been received. -/
theorem delivered_exactly (h0 : makeBufferedChannel n = some s₀) (h : Reachable step anyStep s₀ s) :
    (∀ c, ((s.receivedBy c).map Prod.fst).Pairwise (· < ·)) ∧
    ((∀ f ∈ s.senders, f = .left) → (∀ f ∈ s.receivers, f = .left) →
      (s.chan.chan.mSenderClosed = true ∧ s.chan.chan.mReceiverClosed = true ∧ s.chan.chan.mWaitingSender = [] ∧
        s.chan.chan.mWaitingReceiver = []) ∧
      s.received.Perm (s.chan.accepted.take s.received.length) ∧
      (∀ i < s.chan.pushes.length, ∃ b, s.chan.sent i = some b ∧ (b = false → ∀ x ∈ s.received, x.1 ≠ i)) ∧
      ∀ k, s.chan.got k = some none →
        (s.received.map Prod.snd).Perm s.chan.vals ∧ ∀ i < s.chan.pushes.length, s.chan.sent i = some true) := by
  have hi := tally_reachable h0 h
  refine ⟨hi.receivedBy_ordered, fun hs hr => ?_⟩
  obtain ⟨hsclosed, hpush⟩ := hi.senders.all_left hs
  obtain ⟨hrclosed, hpop⟩ := hi.receivers.all_left hr
  have hperm := hi.received_perm hpop
  have hsent : ∀ i < s.chan.pushes.length, s.chan.sent i ≠ none := by
    intro i hlt
    have hq : s.chan.pushes[i]? = some s.chan.pushes[i] := List.getElem?_eq_getElem hlt
    rw [BufferedChannel.State.sent, look_of_get hq]
    have hmem := List.mem_of_getElem? hq
    exact hi.clients.pushes _ hmem (BufferedChannel.pushes_returned hpush _ hmem)
  have hfalse : ∀ i, s.chan.sent i = some false → ∀ x ∈ s.received, x.1 ≠ i := by
    rintro i hfalse x hx rfl
    exact (hi.truthful.refused x.1 hfalse).2 x.2 (hperm.mem_iff.1 hx)
  refine ⟨⟨hsclosed, hrclosed, ?_, ?_⟩, ?_, fun i hlt => ?_, fun k hnone => ?_⟩
  · by_contra hne
    have := hi.clients.accepting hne
    rw [hrclosed] at this
    cases this
  · by_contra hne
    have := (hi.clients.open_ hne).1
    rw [hsclosed] at this
    cases this
  · exact hi.received_take hpop
  · obtain ⟨b, hb⟩ := Option.ne_none_iff_exists'.1 (hsent i hlt)
    exact ⟨b, hb, fun hbf => hfalse i (hbf ▸ hb)⟩
  · have hall := (hperm.map Prod.snd).trans (hi.all_assigned hnone)
    refine ⟨hall, fun i hlt => ?_⟩
    obtain ⟨b, hb⟩ := Option.ne_none_iff_exists'.1 (hsent i hlt)
    cases b with
    | true => exact hb
    | false => exact absurd hb (hi.none_refused hnone hlt)

/-- A receiver that is handed an element, a parked sender that is woken, and the end. -/
def pipelineSchedule : List (Act Nat) :=
  [.pop 0, .copySender 0, .push 0 5, .sender 0, .sender 0, .receiver 0, .push 1 6, .pop 0, .receiver 0, .receiver 0,
    .sender 1, .dropSender 0, .dropSender 1, .pop 0, .sender 1, .sender 1, .sender 1, .receiver 0, .dropReceiver 0,
    .receiver 0, .receiver 0]

theorem delivered_exactly_pipeline : ∃ s₀ s : State Nat, makeBufferedChannel 1 = some s₀ ∧
    Run step anyStep s₀ pipelineSchedule s ∧ s.chan.got 2 = some none ∧ s.received = [(0, 5), (1, 6)] ∧
    (s.received.map Prod.snd).Perm s.chan.vals := by
  have h0 : makeBufferedChannel 1 = some ((makeBufferedChannel (T := Nat) 1).get rfl) := rfl
  have hrun := exec_get_run step anyStep ((makeBufferedChannel (T := Nat) 1).get rfl) pipelineSchedule (by decide)
  have h := (delivered_exactly h0 ⟨_, hrun⟩).2 (by decide) (by decide)
  exact ⟨_, _, h0, hrun, by decide, by decide, (h.2.2.2 2 (by decide)).1⟩

end CoAwait.SharedChannel
