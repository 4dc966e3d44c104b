import ExositeCoap.Exosite.Encode
import ExositeCoap.Exosite.Outcome
import ExositeCoap.Exosite.Sequence

/-!
# The library as an endpoint for messages

What the library does, told without packets: an endpoint is handed messages and sends
messages.  There are no buffers, no searches through options and no builders here.  That the
library is such an endpoint is shown in `ExositeCoap.Exosite.Packets`.
-/

namespace ExositeCoap.Exosite

open Lib Wire Coap

/-! ## Messages that come in -/

/-- A message, with what the platform answers while it is handled. -/
structure Incoming where
  message : Message
  time : UInt64
  rand : UInt64
  sendOk : Bool
  /-- what shifts by 32 bits or more yield -/
  wideShift : UInt32 → UInt32

namespace Incoming

def text (incoming : Incoming) : List UInt8 := incoming.message.payload.getD []

/-- The value of the first option with this number. -/
def option (incoming : Incoming) (num : Nat) : Option (List UInt8) :=
  (incoming.message.options.find? (·.num = num)).map (·.value)

/-- How long the message stays fresh, in seconds; two minutes unless it says so in one byte. -/
def maxAge (incoming : Incoming) : UInt8 :=
  match incoming.option conMaxAge with
  | some [seconds] => seconds
  | _ => 120

def timeout (incoming : Incoming) : UInt64 :=
  incoming.time + incoming.maxAge.toUInt64 * 1000000 + incoming.rand % 1500000

/-- The Observe number. Of a message without options, the payload is taken for it. -/
def observe (incoming : Incoming) (seed : UInt32) : UInt32 :=
  joinBytes incoming.wideShift 0 seed
    (match incoming.option conObserve with
    | some value => value
    | none => if incoming.message.options = [] then incoming.text else [])

/-- The op recognises the message: notifications by their token, responses by their message
id, resets by both. -/
def takenBy (incoming : Incoming) (op : ExoOp) : Bool :=
  match incoming.message.kind with
  | .con | .non => op.state = .subscribed ∧ leValue incoming.message.token = op.token.toNat
  | .ack => op.state = .pending ∧ op.mid = incoming.message.mid
  | .rst => (op.state = .pending ∨ op.state = .subscribed) ∧ op.mid = incoming.message.mid ∧
      op.token.toNat = leValue incoming.message.token

/-- The text is copied to the buffer of the op, with a zero behind it. -/
def storeText (incoming : Incoming) (heap : Mem) (op : ExoOp) : Exec StoreResult :=
  if incoming.text = [] then do
    return .empty (← userStore heap op.valuePtr [0])
  else if incoming.text.length + 1 > op.valueMax ∨ op.valuePtr = 0 then
    return .rejected
  else do
    return .stored (← userStore heap op.valuePtr (incoming.text ++ [0]))

/-- The op after its value has been stored. -/
def delivered (incoming : Incoming) (op : ExoOp) : ExoOp :=
  if op.type = .subscribe then
    { op with state := .success, obsSeq := incoming.observe op.obsSeq, timeout := incoming.timeout }
  else
    { op with state := .success }

/-- The op after a notification has been stored. -/
def renewed (incoming : Incoming) (op : ExoOp) : ExoOp :=
  let obsSeq := incoming.observe 0
  if op.obsSeq ≠ obsSeq then
    { op with
      mid := incoming.message.mid, state := .subAckNew, obsSeq, timeout := incoming.timeout }
  else
    { op with mid := incoming.message.mid, state := .subAck, timeout := incoming.timeout }

end Incoming

/-! ## Endpoints -/

/-- What the platform is asked for. -/
inductive Effect where
  | send (datagram : List UInt8) (ok : Bool)
  | storeCik (cik : List UInt8)
  deriving DecidableEq, Repr

/-- The state of an endpoint, with the effects so far, newest first. -/
structure Endpoint where
  cik : List UInt8
  vendor : Nat
  model : Nat
  serial : Nat
  messageIdCounter : UInt16
  deviceState : ExoDeviceState
  ops : List ExoOp
  heap : Mem
  effects : List Effect
  deriving DecidableEq, Repr

/-- What the platform answers while a slot is processed. -/
structure SlotInput where
  rand : UInt64
  sendOk : Bool
  time : UInt64
  /-- the second `rand()` of a retransmission -/
  jitter : UInt64

namespace Endpoint

def setOp (endpoint : Endpoint) (i : Nat) (op : ExoOp) : Endpoint :=
  { endpoint with ops := endpoint.ops.set i op }

def perform (endpoint : Endpoint) (effect : Effect) : Endpoint :=
  { endpoint with effects := effect :: endpoint.effects }

def send (endpoint : Endpoint) (message : Message) (ok : Bool) : Endpoint :=
  endpoint.perform (.send message.encode ok)

/-! ### Receiving -/

/-- After the copy of a text for the op in slot `i`, which becomes `next` when it has it. -/
def keep (endpoint : Endpoint) (i : Nat) (op next : ExoOp) : StoreResult → Endpoint
  | .empty heap => { endpoint with heap }
  | .rejected => endpoint.setOp i { op with state := .error }
  | .stored heap => { endpoint with heap }.setOp i next

section Receiving

variable (endpoint : Endpoint) (incoming : Incoming)

/-- A notification for the op in slot `i`. -/
def notified (i : Nat) (op : ExoOp) : Exec Endpoint :=
  if incoming.message.code = ccContent then do
    return endpoint.keep i op (incoming.renewed op) (← incoming.storeText endpoint.heap op)
  else if incoming.message.code.toNat / 32 ≠ 2 then
    return endpoint.setOp i { op with state := .error }
  else
    return endpoint

/-- A response of class 2 to the op in slot `i`. -/
def answered (i : Nat) (op : ExoOp) : Exec Endpoint :=
  match op.type with
  | .write => return endpoint.setOp i { op with state := .success }
  | .read | .subscribe => do
    return endpoint.keep i op (incoming.delivered op) (← incoming.storeText endpoint.heap op)
  | .activate =>
    if incoming.text.length = cikLength then
      let cik := incoming.text ++ [0]
      return ({ endpoint with cik, deviceState := .good }.perform (.storeCik cik)).setOp i exoOpInit
    else
      return endpoint.setOp i exoOpInit
  | .null => return endpoint

/-- A response of another class to the op in slot `i`. -/
def refused (i : Nat) (op : ExoOp) : Endpoint :=
  let endpoint := endpoint.setOp i { op with state := .error }
  if incoming.message.code = ccUnauthorized then
    { endpoint with ops := endpoint.ops.modify 0 (Aside.unauthorized.first incoming.time) }
  else if incoming.message.code = ccNotFound then
    { endpoint with deviceState := .good }
  else
    endpoint

/-- The op in slot `i` takes the message. -/
def react (i : Nat) (op : ExoOp) : Exec Endpoint :=
  match incoming.message.kind with
  | .con | .non => endpoint.notified incoming i op
  | .ack =>
    if incoming.message.code.toNat / 32 = 2 then endpoint.answered incoming i op
    else return endpoint.refused incoming i op
  | .rst => return endpoint.setOp i { op with state := .error }

/-- The first op that recognises the message takes it. If there is none, a confirmable message
is answered by a reset, and the messages that are left wait for the next call. -/
def receive : Exec (Bool × Endpoint) :=
  match endpoint.ops.zipIdx.find? (fun slot => incoming.takenBy slot.1) with
  | some (op, i) => do return (true, ← endpoint.react incoming i op)
  | none =>
    if incoming.message.kind = .con then
      let reset : Message :=
        ⟨.rst, ccEmpty, incoming.message.mid, incoming.message.token, [], none⟩
      return (false, endpoint.send reset incoming.sendOk)
    else
      return (false, endpoint)

end Receiving

def receiveAll (endpoint : Endpoint) : List Incoming → Exec Endpoint
  | [] => return endpoint
  | incoming :: rest => do
    let (goOn, endpoint) ← endpoint.receive incoming
    if goOn then receiveAll endpoint rest else return endpoint

/-! ### Sending -/

/-- What there is room for in a datagram; an option or a payload without room is left out. -/
def assemble (message : Message) (options : List Opt) (payload : Option (List UInt8)) : Message :=
  (bodyCalls options payload).foldl (Call.next minimumDatagramSize) message

/-- The request of an op, with the next message id. -/
def request (endpoint : Endpoint) (rand : UInt64) (op : ExoOp) : Exec (Option Message) :=
  let header code := requestMessage code endpoint.messageIdCounter rand [] none
  match op.type with
  | .read => do
    let aliasText ← cString endpoint.heap op.aliasPtr
    return some (assemble (header ccGet) (dataport (optionText aliasText) endpoint.cik) none)
  | .subscribe => do
    let aliasText ← cString endpoint.heap op.aliasPtr
    return some (assemble (header ccGet)
      (⟨conObserve, [0]⟩ :: dataport (optionText aliasText) endpoint.cik) none)
  | .write => do
    let aliasText ← cString endpoint.heap op.aliasPtr
    let valueText ← cString endpoint.heap op.valuePtr
    return some (assemble (header ccPost) (dataport (optionText aliasText) endpoint.cik)
      (some valueText))
  | .activate => do
    let vendor ← cString endpoint.heap endpoint.vendor
    let model ← cString endpoint.heap endpoint.model
    let serial ← cString endpoint.heap endpoint.serial
    return some (assemble (header ccPost)
      (provisioning (optionText vendor) (optionText model) (optionText serial)) none)
  | .null => return none

/-- A request goes out, and takes a message id. -/
def sendRequest (endpoint : Endpoint) (message : Message) (ok : Bool) : Endpoint :=
  { endpoint with messageIdCounter := endpoint.messageIdCounter + 1 }.send message ok

section Sending

variable (endpoint : Endpoint) (input : SlotInput)

def sendNew (i : Nat) (op : ExoOp) : Exec Endpoint := do
  match ← endpoint.request input.rand op with
  | none => return endpoint.setOp i { op with type := .null }
  | some message =>
    let sent := endpoint.sendRequest message input.sendOk
    if input.sendOk then
      return sent.setOp i
        { op with state := .pending, timeout := input.time + 4000000, mid := message.mid,
                  token := UInt64.ofNat (leValue message.token) }
    else
      return sent

/-- The request goes out again, under its old message id and with the token of the op. -/
def sendAgain (i : Nat) (op : ExoOp) : Exec Endpoint := do
  match ← endpoint.request input.rand op with
  | none => return endpoint
  | some message =>
    let again := Call.next minimumDatagramSize { message with mid := op.mid }
      (.setToken op.token op.tkl)
    let sent := endpoint.sendRequest again input.sendOk
    if input.sendOk then
      let retries := op.retries + 1
      return sent.setOp i
        { op with retries,
                  timeout := input.time + retries.toUInt64 * 1000000 + input.jitter % 1500000 }
    else
      return sent

/-- The notification is acknowledged. -/
def sendAck (i : Nat) (op : ExoOp) : Endpoint :=
  let sent := endpoint.send (ackMessage op.mid) input.sendOk
  if input.sendOk then
    sent.setOp i { op with state := if op.state = .subAck then .subscribed else .success }
  else
    sent

def timedOut (i : Nat) (op : ExoOp) : Exec Endpoint :=
  match op.type with
  | .read | .write | .activate =>
    if op.retries < coapMaxRetransmit then endpoint.sendAgain input i op
    else return endpoint.setOp i { op with state := .error }
  | .subscribe => return endpoint.setOp i { op with state := .new }
  | .null => return endpoint

/-- Slot `i` is processed. -/
def processOp (now : UInt64) (i : Nat) (op : ExoOp) : Exec Endpoint :=
  match op.state with
  | .new => endpoint.sendNew input i op
  | .subscribed | .pending =>
    if op.timeout ≤ now then endpoint.timedOut input i op else return endpoint
  | .subAckNew | .subAck => return endpoint.sendAck input i op
  | .null | .success | .error => return endpoint

end Sending

/-- The slots are processed, from slot `i` on. -/
def processOps (now : UInt64) (inputs : Nat → SlotInput) (endpoint : Endpoint) :
    (left i : Nat) → Exec Endpoint
  | 0, _ => return endpoint
  | left + 1, i =>
    match endpoint.ops[i]? with
    | none => throw .fault
    | some op => do
      processOps now inputs (← endpoint.processOp (inputs i) now i op) left (i + 1)

end Endpoint

/-! ## Runs -/

/-- What the platform delivers and answers during `exo_operate`. -/
structure OperateInput where
  time : UInt64
  incoming : List Incoming
  now : UInt64
  slots : Nat → SlotInput

/-- A call of the user. -/
inductive Action where
  | init (env : InitEnv) (vendor model serial : Nat)
  | write (slot aliasPtr valuePtr : Nat)
  | read (slot aliasPtr valuePtr valueMax : Nat)
  | subscribe (slot aliasPtr valuePtr valueMax : Nat)
  | opInit (slot : Nat)
  | opDone (slot : Nat)
  | memory (heap : Mem)
  | operate (input : OperateInput)

namespace Endpoint

def init (env : InitEnv) (vendor model serial : Nat) (endpoint : Endpoint) : Endpoint :=
  let off := { endpoint with deviceState := .uninitialized }
  if !env.palOk then off
  else
    let known := { off with messageIdCounter := env.rand, serial, vendor, model, cik := env.cik }
    if env.retrieved > 1 then known
    else
      let terminated := { known with cik := env.cik.set cikLength 0 }
      if !env.sockOk then terminated else { terminated with deviceState := .initialized }

/-- Without a known CIK, slot 0 is used for activation. -/
def activateFirst (time : UInt64) (endpoint : Endpoint) : Exec Endpoint :=
  match endpoint.ops[0]? with
  | none => throw .fault
  | some first =>
    if first.state = .null ∨ first.timeout < time then
      return endpoint.setOp 0 (exoActivate first)
    else
      return endpoint

def operate (input : OperateInput) (endpoint : Endpoint) : Exec (ExoState × Endpoint) := do
  if endpoint.deviceState = .uninitialized then
    return (.exoError, endpoint)
  let ready ←
    if endpoint.deviceState = .good then pure endpoint else endpoint.activateFirst input.time
  let served ← ready.receiveAll input.incoming
  let done ← processOps input.now input.slots served served.ops.length 0
  return (exoStateOf done.ops, done)

/-- The user changes an op. -/
def update (endpoint : Endpoint) (slot : Nat) (change : ExoOp → ExoOp) : Exec Endpoint :=
  match endpoint.ops[slot]? with
  | none => throw .fault
  | some op => return endpoint.setOp slot (change op)

def call (endpoint : Endpoint) : Action → Exec Endpoint
  | .init env vendor model serial => return endpoint.init env vendor model serial
  | .write slot aliasPtr valuePtr => endpoint.update slot (exoWrite · aliasPtr valuePtr)
  | .read slot aliasPtr valuePtr valueMax =>
    endpoint.update slot (exoRead · aliasPtr valuePtr valueMax)
  | .subscribe slot aliasPtr valuePtr valueMax =>
    endpoint.update slot (exoSubscribe · aliasPtr valuePtr valueMax)
  | .opInit slot => endpoint.update slot fun _ => exoOpInit
  | .opDone slot => endpoint.update slot exoOpDone
  | .memory heap => return { endpoint with heap }
  | .operate input => do return (← endpoint.operate input).2

def run (endpoint : Endpoint) : List Action → Exec Endpoint
  | [] => return endpoint
  | first :: rest => do run (← endpoint.call first) rest

def powerOn (count : Nat) (heap : Mem) : Endpoint :=
  ⟨List.replicate (cikLength + 1) 0, 0, 0, 0, 0, .uninitialized,
    List.replicate count exoOpInit, heap, []⟩

end Endpoint

end ExositeCoap.Exosite
