import CoAwait.LightFuture

/-!
# Socket operations (`networking.hpp:52-193`, `yieldto.hpp`)

Most operations of `BasicSocket` have a form that takes `error_code&` and one that throws. The asio operation below
has an arbitrary outcome for its arguments, and `io_control` may throw.

| here | there |
| --- | --- |
| `ErrorCode`, `throwIfError` | `error_code`, where `none` is success; `throwError` (`await.hpp:113`) |
| `YieldTo`                  | `YieldTo` (`yieldto.hpp:19-57`) |
| `connect`, `connectEc`     | `connect` (`:69`, `:76`) |
| `readSome`, `readSomeEc`   | `read_some` (`:82`, `:91`) |
| `writeSome`, `writeSomeEc` | `write_some` (`:107`, `:116`) |
| `send`, `sendEc`           | `send` (`:130`, `:139`); `sendAll` is the form without flags (`:124`) |
| `receive`, `receiveEc`     | `receive` (`:163`, `:174`); `receiveAll` is the form without flags (`:151`) |
| `wait`, `waitEc`           | `wait` (`:185`, `:192`) |

The forms of `send` differ from the others, and differently from each other: see `send_agrees_iff`. The forms of
`read_some` agree unless `io_control` throws.
-/

namespace CoAwait.BasicSocket

/-- `boost::system::error_code` -/
abbrev ErrorCode (E : Type) : Type := Option E

/-- `boost::system::system_error` -/
structure SystemError (E : Type) where
  code : E
  what : String
deriving DecidableEq

/-- An asio operation with its arguments. -/
inductive Call (B Endpoint W : Type) where
  | asyncConnect (peerEndpoint : Endpoint)
  | ioControl
  | readSome (buffers : B)
  | asyncReadSome (buffers : B)
  | asyncWriteSome (buffers : B)
  | asyncSend (buffers : B) (flags : Int)
  | asyncReceiveAll (buffers : B)
  | asyncReceive (buffers : B) (flags : Int)
  | asyncWait (w : W)
deriving DecidableEq

/-- The error code and the byte count of every operation, and `bytes_readable` or the code that `io_control` throws. -/
structure Asio (B Endpoint W E : Type) where
  outcome : Call B Endpoint W → ErrorCode E × Nat
  bytesReadable : Except E Nat

variable {B Endpoint W E : Type}

/-- `throwError` (`await.hpp:113`) -/
def throwIfError (error : ErrorCode E) (msg : String) : Except (SystemError E) Unit :=
  match error with
  | some e => .error ⟨e, msg⟩
  | none => .ok ()

/-! ## `YieldTo` -/

structure YieldTo (Args : Type) where
  p : LightFutureData Unit Unit := {}
  args : Args

/-- `Ref::operator()`, called by asio with the results. -/
def YieldTo.call {Args : Type} (y : YieldTo Args) (args : Args) : YieldTo Args :=
  { p := ((y.p.store (.val ())).exchange .invalid).2, args := args }

/-- `~YieldTo`: `co::await(p)` returns once the handler was called. -/
def YieldTo.awaited {Args : Type} (y : YieldTo Args) : Option Args :=
  if y.p.isReady then some y.args else none

/-- `async_op(…, *yieldTo(args…))`: the referenced variables when the expression has been evaluated. -/
def yieldTo {Args : Type} (args results : Args) : Args := (({ args := args } : YieldTo Args).call results).args

/-- The variables are read after the handler has assigned them, and not before. -/
theorem awaited_yieldTo {Args : Type} (args results : Args) :
    ({ args := args } : YieldTo Args).awaited = none ∧
      (({ args := args } : YieldTo Args).call results).awaited = some (yieldTo args results) :=
  ⟨rfl, rfl⟩

@[simp] theorem yieldTo_eq {Args : Type} (args results : Args) : yieldTo args results = results := rfl

/-! ## The forms -/

/-- What a throwing form returns or throws, and the operations it has called. -/
structure Form (B Endpoint W E : Type) where
  result : Except (SystemError E) Nat
  calls : List (Call B Endpoint W)

/-- The same of a form that takes `error_code& ec`, with `ec` afterwards. A form without a result returns 0. -/
structure EcForm (B Endpoint W E : Type) extends Form B Endpoint W E where
  ec : ErrorCode E

/-- `async_op(…, *yieldTo(ec)); ` -/
def awaitCode (asio : Asio B Endpoint W E) (call : Call B Endpoint W) (ec : ErrorCode E) : EcForm B Endpoint W E :=
  { result := .ok 0, calls := [call], ec := yieldTo ec (asio.outcome call).1 }

/-- `async_op(…, *yieldTo(ec, bytesTransferred)); return bytesTransferred;` -/
def awaitCount (asio : Asio B Endpoint W E) (call : Call B Endpoint W) (ec : ErrorCode E) : EcForm B Endpoint W E :=
  let done := yieldTo (ec, 0) (asio.outcome call)
  { result := .ok done.2, calls := [call], ec := done.1 }

/-- `error_code error; auto res = f(…, error); throwError(error, msg); return res;` -/
def throwing (form : ErrorCode E → EcForm B Endpoint W E) (msg : String) : Form B Endpoint W E :=
  let done := form none
  { result := do
      let res ← done.result
      throwIfError done.ec msg
      return res
    calls := done.calls }

section Forms

variable (asio : Asio B Endpoint W E)

def connectEc (peerEndpoint : Endpoint) (ec : ErrorCode E) : EcForm B Endpoint W E :=
  awaitCode asio (.asyncConnect peerEndpoint) ec

def connect (peerEndpoint : Endpoint) : Form B Endpoint W E := throwing (connectEc asio peerEndpoint) "connect"

def readSomeEc (buffers : B) (ec : ErrorCode E) : EcForm B Endpoint W E :=
  match asio.bytesReadable with
  | .error e => { result := .error ⟨e, "io_control"⟩, calls := [.ioControl], ec := ec }
  | .ok bytesReadable =>
    if bytesReadable ≠ 0 then
      let done := asio.outcome (.readSome buffers)
      { result := .ok done.2, calls := [.ioControl, .readSome buffers], ec := done.1 }
    else
      let done := awaitCount asio (.asyncReadSome buffers) ec
      { done with calls := .ioControl :: done.calls }

def readSome (buffers : B) : Form B Endpoint W E := throwing (readSomeEc asio buffers) "read_some"

def writeSomeEc (buffers : B) (ec : ErrorCode E) : EcForm B Endpoint W E :=
  awaitCount asio (.asyncWriteSome buffers) ec

def writeSome (buffers : B) : Form B Endpoint W E := throwing (writeSomeEc asio buffers) "write_some"

/-- Unlike the other forms that take `ec`, this one throws the error it reports. -/
def sendEc (buffers : B) (flags : Int) (ec : ErrorCode E) : EcForm B Endpoint W E :=
  let done := awaitCount asio (.asyncSend buffers flags) ec
  { done with
    result := do
      throwIfError done.ec "send"
      done.result }

/-- The flags are not passed on. -/
def send (buffers : B) (_flags : Int) : Form B Endpoint W E := throwing (sendEc asio buffers 0) "send"

def sendAll (buffers : B) : Form B Endpoint W E := send asio buffers 0

def receiveEc (buffers : B) (flags : Int) (ec : ErrorCode E) : EcForm B Endpoint W E :=
  awaitCount asio (.asyncReceive buffers flags) ec

def receive (buffers : B) (flags : Int) : Form B Endpoint W E := throwing (receiveEc asio buffers flags) "receive"

def receiveAll (buffers : B) : Form B Endpoint W E := throwing (awaitCount asio (.asyncReceiveAll buffers)) "receive"

def waitEc (w : W) (ec : ErrorCode E) : EcForm B Endpoint W E := awaitCode asio (.asyncWait w) ec

def wait (w : W) : Form B Endpoint W E := throwing (waitEc asio w) "wait"

end Forms

/-! ## When the forms agree -/

/-- An operation that is offered in both forms. -/
inductive Op (B Endpoint W : Type) where
  | connect (peerEndpoint : Endpoint)
  | readSome (buffers : B)
  | writeSome (buffers : B)
  | send (buffers : B) (flags : Int)
  | receive (buffers : B) (flags : Int)
  | wait (w : W)

namespace Op

variable (asio : Asio B Endpoint W E)

def ecForm : Op B Endpoint W → ErrorCode E → EcForm B Endpoint W E
  | .connect peerEndpoint => BasicSocket.connectEc asio peerEndpoint
  | .readSome buffers => BasicSocket.readSomeEc asio buffers
  | .writeSome buffers => BasicSocket.writeSomeEc asio buffers
  | .send buffers flags => BasicSocket.sendEc asio buffers flags
  | .receive buffers flags => BasicSocket.receiveEc asio buffers flags
  | .wait w => BasicSocket.waitEc asio w

def form : Op B Endpoint W → Form B Endpoint W E
  | .connect peerEndpoint => BasicSocket.connect asio peerEndpoint
  | .readSome buffers => BasicSocket.readSome asio buffers
  | .writeSome buffers => BasicSocket.writeSome asio buffers
  | .send buffers flags => BasicSocket.send asio buffers flags
  | .receive buffers flags => BasicSocket.receive asio buffers flags
  | .wait w => BasicSocket.wait asio w

/-- The operation that has to be called: with bytes to read, `read_some` does not wait. -/
def request : Op B Endpoint W → Call B Endpoint W
  | .connect peerEndpoint => .asyncConnect peerEndpoint
  | .readSome buffers =>
    match asio.bytesReadable with
    | .ok (_ + 1) => .readSome buffers
    | _ => .asyncReadSome buffers
  | .writeSome buffers => .asyncWriteSome buffers
  | .send buffers flags => .asyncSend buffers flags
  | .receive buffers flags => .asyncReceive buffers flags
  | .wait w => .asyncWait w

/-- The byte count to be returned. -/
def count (op : Op B Endpoint W) : Nat :=
  match op with
  | .connect _ | .wait _ => 0
  | op => (asio.outcome (op.request asio)).2

end Op

/-- Reading `bytes_readable` is no transfer. -/
def Call.transfers : Call B Endpoint W → Bool
  | .ioControl => false
  | _ => true

/-- Both forms report the outcome of the operation with their arguments, one in `ec` and one by throwing. -/
structure Agrees (asio : Asio B Endpoint W E) (op : Op B Endpoint W) : Prop where
  passes : ∀ ec, (op.ecForm asio ec).calls.filter Call.transfers = [op.request asio]
  returns : ∀ ec, (op.ecForm asio ec).result = .ok (op.count asio)
  reports : ∀ ec, (op.ecForm asio ec).ec = (asio.outcome (op.request asio)).1
  throws : (∃ e, (op.form asio).result = .error e) ↔ (asio.outcome (op.request asio)).1 ≠ none
  same : (asio.outcome (op.request asio)).1 = none → (op.form asio).result = .ok (op.count asio)

/-- For which arguments and outcomes the forms agree. -/
def Meets (asio : Asio B Endpoint W E) : Op B Endpoint W → Prop
  | .readSome _ => ∃ bytesReadable, asio.bytesReadable = .ok bytesReadable
  | .send buffers flags =>
    (asio.outcome (.asyncSend buffers flags)).1 = none ∧
      asio.outcome (.asyncSend buffers 0) = asio.outcome (.asyncSend buffers flags)
  | _ => True

section

variable {asio : Asio B Endpoint W E} {buffers : B} {flags : Int} {call : Call B Endpoint W} {msg : String}
  {ecForm : ErrorCode E → EcForm B Endpoint W E} {n : Nat} {op : Op B Endpoint W}

theorem throwing_ok (hres : (ecForm none).result = .ok n) (hec : (ecForm none).ec = none) :
    (throwing ecForm msg).result = .ok n := by
  simp only [throwing, hres, hec]
  rfl

theorem throwing_error {e : E} (hres : (ecForm none).result = .ok n) (hec : (ecForm none).ec = some e) :
    (throwing ecForm msg).result = .error ⟨e, msg⟩ := by
  simp only [throwing, hres, hec]
  rfl

theorem throwing_thrown {e : SystemError E} (hres : (ecForm none).result = .error e) :
    (throwing ecForm msg).result = .error e := by
  simp only [throwing, hres]
  rfl

/-- A throwing form that wraps a form which reports and does not throw. -/
theorem agrees_of_throwing (hform : op.form asio = throwing (op.ecForm asio) msg)
    (passes : ∀ ec, (op.ecForm asio ec).calls.filter Call.transfers = [op.request asio])
    (returns : ∀ ec, (op.ecForm asio ec).result = .ok (op.count asio))
    (reports : ∀ ec, (op.ecForm asio ec).ec = (asio.outcome (op.request asio)).1) : Agrees asio op := by
  have hsame : (asio.outcome (op.request asio)).1 = none → (op.form asio).result = .ok (op.count asio) := by
    intro hnone
    rw [hform]
    exact throwing_ok (returns none) ((reports none).trans hnone)
  refine ⟨passes, returns, reports, ⟨?_, ?_⟩, hsame⟩
  · rintro ⟨e, he⟩ hnone
    rw [hsame hnone] at he
    cases he
  · intro hsome
    obtain ⟨e, he⟩ := Option.ne_none_iff_exists'.1 hsome
    exact ⟨⟨e, msg⟩, hform ▸ throwing_error (returns none) ((reports none).trans he)⟩

theorem connect_agrees {peerEndpoint : Endpoint} : Agrees asio (.connect peerEndpoint) :=
  agrees_of_throwing rfl (fun _ => rfl) (fun _ => rfl) fun _ => rfl

theorem writeSome_agrees : Agrees asio (.writeSome buffers) :=
  agrees_of_throwing rfl (fun _ => rfl) (fun _ => rfl) fun _ => rfl

theorem receive_agrees : Agrees asio (.receive buffers flags) :=
  agrees_of_throwing rfl (fun _ => rfl) (fun _ => rfl) fun _ => rfl

theorem wait_agrees {w : W} : Agrees asio (.wait w) :=
  agrees_of_throwing rfl (fun _ => rfl) (fun _ => rfl) fun _ => rfl

/-- `io_control` is called in the form that throws. -/
theorem readSome_agrees_iff :
    Agrees asio (.readSome buffers) ↔ ∃ bytesReadable, asio.bytesReadable = .ok bytesReadable := by
  rcases hbytes : asio.bytesReadable with e | bytesReadable
  · refine iff_of_false (fun h => ?_) (by simp)
    have hret := h.returns none
    simp [Op.ecForm, readSomeEc, hbytes] at hret
  · refine iff_of_true ?_ ⟨_, rfl⟩
    cases bytesReadable with
    | zero =>
      refine agrees_of_throwing rfl (fun ec => ?_) (fun ec => ?_) fun ec => ?_ <;>
        simp [Op.ecForm, Op.request, Op.count, readSomeEc, awaitCount, Call.transfers, hbytes]
    | succ m =>
      refine agrees_of_throwing rfl (fun ec => ?_) (fun ec => ?_) fun ec => ?_ <;>
        simp [Op.ecForm, Op.request, Op.count, readSomeEc, Call.transfers, hbytes]

theorem sendEc_ok {ec : ErrorCode E} (h : (asio.outcome (.asyncSend buffers flags)).1 = none) :
    (sendEc asio buffers flags ec).result = .ok (asio.outcome (.asyncSend buffers flags)).2 := by
  simp only [sendEc, awaitCount, yieldTo_eq, h]
  rfl

theorem sendEc_error {ec : ErrorCode E} {e : E} (h : (asio.outcome (.asyncSend buffers flags)).1 = some e) :
    (sendEc asio buffers flags ec).result = .error ⟨e, "send"⟩ := by
  simp only [sendEc, awaitCount, yieldTo_eq, h]
  rfl

/-- The form with `ec` throws if there is an error, and the throwing form sends with the flags 0. -/
theorem send_agrees_iff : Agrees asio (.send buffers flags) ↔ Meets asio (.send buffers flags) := by
  constructor
  · intro h
    have hnone : (asio.outcome (.asyncSend buffers flags)).1 = none := by
      rcases hcode : (asio.outcome (.asyncSend buffers flags)).1 with _ | e
      · rfl
      · have hret := h.returns none
        rw [Op.ecForm, sendEc_error hcode] at hret
        cases hret
    refine ⟨hnone, ?_⟩
    have hres := h.same hnone
    rcases hcode : (asio.outcome (.asyncSend buffers 0)).1 with _ | e
    · have hthrowing : (send asio buffers flags).result = .ok (asio.outcome (.asyncSend buffers 0)).2 :=
        throwing_ok (sendEc_ok hcode) hcode
      have hcount := hthrowing.symm.trans hres
      exact Prod.ext (hcode.trans hnone.symm) (by simpa [Op.count, Op.request] using hcount)
    · have hthrowing : (send asio buffers flags).result = .error ⟨e, "send"⟩ :=
        throwing_thrown (sendEc_error hcode)
      cases hthrowing.symm.trans hres
  · rintro ⟨hnone, hflags⟩
    have hcode : (asio.outcome (.asyncSend buffers 0)).1 = none := by rw [hflags, hnone]
    have hres : (send asio buffers flags).result = .ok (asio.outcome (.asyncSend buffers flags)).2 := by
      rw [← hflags]
      exact throwing_ok (sendEc_ok hcode) hcode
    refine ⟨fun _ => rfl, fun _ => sendEc_ok hnone, fun _ => rfl, ⟨?_, fun hsome => absurd hnone hsome⟩, fun _ => hres⟩
    rintro ⟨e, he⟩
    cases he.symm.trans hres

/-- **Both forms of the socket operations.** They agree, except for `read_some` where `io_control` throws, and for
`send` where there is an error or the flags matter. -/
theorem agrees_iff : Agrees asio op ↔ Meets asio op := by
  cases op with
  | connect peerEndpoint => exact iff_of_true connect_agrees trivial
  | readSome buffers => exact readSome_agrees_iff
  | writeSome buffers => exact iff_of_true writeSome_agrees trivial
  | send buffers flags => exact send_agrees_iff
  | receive buffers flags => exact iff_of_true receive_agrees trivial
  | wait w => exact iff_of_true wait_agrees trivial

/-- The forms without flags throw the error of the operation, or return its count. -/
theorem receiveAll_result : (receiveAll asio buffers).result =
    match asio.outcome (.asyncReceiveAll buffers) with
    | (none, n) => .ok n
    | (some e, _) => .error ⟨e, "receive"⟩ := by
  rcases h : asio.outcome (.asyncReceiveAll buffers) with ⟨_ | e, n⟩
  · exact throwing_ok (by simp [awaitCount, h]) (by simp [awaitCount, h])
  · exact throwing_error rfl (by simp [awaitCount, h])

theorem sendAll_result : (sendAll asio buffers).result =
    match asio.outcome (.asyncSend buffers 0) with
    | (none, n) => .ok n
    | (some e, _) => .error ⟨e, "send"⟩ := by
  rcases h : asio.outcome (.asyncSend buffers 0) with ⟨_ | e, n⟩
  · have hcode : (asio.outcome (.asyncSend buffers 0)).1 = none := by rw [h]
    have hok : (sendEc asio buffers 0 none).result = _ := sendEc_ok hcode
    rw [h] at hok
    exact throwing_ok hok hcode
  · have hcode : (asio.outcome (.asyncSend buffers 0)).1 = some e := by rw [h]
    exact throwing_thrown (sendEc_error hcode)

end

/-- An operation that fails, flags that matter, and an `io_control` that throws. -/
theorem forms_disagree :
    ¬Agrees (⟨fun _ => (some "connection reset", 0), .ok 0⟩ : Asio Nat Nat Nat String) (.send 0 0) ∧
    ¬Agrees (⟨fun call => (none, if call = .asyncSend 0 1 then 1 else 2), .ok 0⟩ : Asio Nat Nat Nat String)
      (.send 0 1) ∧
    ¬Agrees (⟨fun _ => (none, 0), .error "bad descriptor"⟩ : Asio Nat Nat Nat String) (.readSome 0) := by
  refine ⟨fun h => ?_, fun h => ?_, fun h => ?_⟩
  · cases h.returns none
  · cases h.same rfl
  · cases h.returns none

end CoAwait.BasicSocket
