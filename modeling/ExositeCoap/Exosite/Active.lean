import ExositeCoap.Exosite.Build

/-!
# Sending requests and acknowledgements

`exo_process_active_ops`.  One pass looks at every slot once: new requests are sent,
overdue ones are sent again or given up, notifications are acknowledged.  What a
slot does is one of the kinds of `SlotStep`; `exoProcessOp_cases` says so once.
-/

namespace ExositeCoap.Exosite

open Lib Wire Coap

/-- The send buffer as a slot finds it, with what the platform answers while the
slot is processed. -/
structure SlotEnv extends Buffer where
  rand : UInt64
  sendOk : Bool
  time : UInt64
  /-- the second `rand()` of a retransmission -/
  jitter : UInt64

/-- The two switches over the request type, first send and retransmission: what is
requested, and the packet. The result of the builder is not looked at. -/
def exoBuildRequest (env : SlotEnv) (sys : Sys) (op : ExoOp) :
    Exec (Option (Request × CoapPdu)) := do
  match op.type with
  | .read =>
    let aliasText ← cString sys.heap op.aliasPtr
    let (_, pdu) ← exoBuildMsgRead env.pdu sys.messageIdCounter env.rand sys.cik aliasText
    return some (⟨.read, aliasText, [], sys.cik⟩, pdu)
  | .subscribe =>
    let aliasText ← cString sys.heap op.aliasPtr
    let (_, pdu) ← exoBuildMsgObserve env.pdu sys.messageIdCounter env.rand sys.cik aliasText
    return some (⟨.subscribe, aliasText, [], sys.cik⟩, pdu)
  | .write =>
    let aliasText ← cString sys.heap op.aliasPtr
    let valueText ← cString sys.heap op.valuePtr
    let (_, pdu) ← exoBuildMsgWrite env.pdu sys.messageIdCounter env.rand sys.cik aliasText
      valueText
    return some (⟨.write, aliasText, valueText, sys.cik⟩, pdu)
  | .activate =>
    let vendor ← cString sys.heap sys.vendor
    let model ← cString sys.heap sys.model
    let serial ← cString sys.heap sys.serial
    let (_, pdu) ← exoBuildMsgActivate env.pdu sys.messageIdCounter env.rand vendor model serial
    return some (⟨.activate, [], [], sys.cik⟩, pdu)
  | .null => return none

/-- The system after a request was built and handed to `exopal_udp_send`. -/
def Sys.sentRequest (sys : Sys) (slot : Nat) (first : Bool) (request : Request)
    (datagram : List UInt8) (ok : Bool) : Sys :=
  ({ sys with messageIdCounter := sys.messageIdCounter + 1 }.record (.built slot request)).record
    (.sent (.request slot first request) datagram ok)

/-- The state `EXO_REQUEST_NEW`. -/
def exoSendNew (env : SlotEnv) (sys : Sys) (i : Nat) (op : ExoOp) : Exec Sys := do
  match ← exoBuildRequest env sys op with
  | none => return (sys.setOp i { op with type := .null }).record (.unexpected i)
  | some (request, pdu) =>
    let datagram ← pdu.mem.slice 0 pdu.len
    let sys := sys.sentRequest i true request datagram env.sendOk
    if env.sendOk then
      let mid ← coapGetMid pdu
      let token ← coapGetToken pdu
      return sys.setOp i
        { op with state := .pending, timeout := env.time + 4000000, mid,
                  token := UInt64.ofNat token }
    else
      return sys

/-- A retransmission, with the old message id and token. -/
def exoSendAgain (env : SlotEnv) (sys : Sys) (i : Nat) (op : ExoOp) : Exec Sys := do
  match ← exoBuildRequest env sys op with
  | none => return sys.record (.unexpected i) -- the outer switch has excluded this
  | some (request, pdu) =>
    let (_, pdu) ← coapSetMid pdu op.mid
    let (_, pdu) ← coapSetToken pdu op.token.toNat op.tkl.toNat
    let datagram ← pdu.mem.slice 0 pdu.len
    let sys := sys.sentRequest i false request datagram env.sendOk
    if env.sendOk then
      let retries := op.retries + 1
      return sys.setOp i
        { op with retries,
                  timeout := env.time + retries.toUInt64 * 1000000 + env.jitter % 1500000 }
    else
      return sys

/-- The acknowledgement of a notification. -/
def exoSendAck (env : SlotEnv) (sys : Sys) (i : Nat) (op : ExoOp) : Exec Sys := do
  let (_, pdu) ← exoBuildMsgAck env.pdu op.mid
  let datagram ← pdu.mem.slice 0 pdu.len
  let sys := sys.record (.sent (.ack i) datagram env.sendOk)
  if env.sendOk then
    return sys.setOp i
      { op with state := if op.state = .subAck then .subscribed else .success }
  else
    return sys

/-- A pending request or a subscription that has reached its timeout. -/
def exoTimedOut (env : SlotEnv) (sys : Sys) (i : Nat) (op : ExoOp) : Exec Sys :=
  match op.type with
  | .read | .write | .activate =>
    if op.retries < coapMaxRetransmit then
      exoSendAgain env sys i op
    else
      return sys.setOp i { op with state := .error }
  | .subscribe =>
    -- force a new observe request
    return sys.setOp i { op with state := .new }
  | .null => return sys.record (.unexpected i)

/-- One round of the loop over the slots; `now` is the time at its start. -/
def exoProcessOp (now : UInt64) (env : SlotEnv) (sys : Sys) (i : Nat) (op : ExoOp) :
    Exec Sys :=
  match op.state with
  | .new => exoSendNew env sys i op
  | .subscribed | .pending =>
    if op.timeout ≤ now then exoTimedOut env sys i op else return sys
  | .subAckNew | .subAck => exoSendAck env sys i op
  | .null | .success | .error => return sys

/-- The loop over the slots, from slot `i` on. -/
def exoActiveLoop (now : UInt64) (envs : Nat → SlotEnv) (sys : Sys) :
    (left i : Nat) → Exec Sys
  | 0, _ => pure sys
  | left + 1, i =>
    match sys.ops[i]? with
    | none => throw .fault
    | some op => do
      let sys ← exoProcessOp now (envs i) sys i op
      exoActiveLoop now envs sys left (i + 1)

/-- `exo_process_active_ops`. -/
def exoProcessActiveOps (now : UInt64) (envs : Nat → SlotEnv) (sys : Sys) : Exec Sys :=
  exoActiveLoop now envs sys sys.ops.length 0

/-! ## What a request packet holds -/

namespace Request

/-- The options of the whole request. -/
def options (request : Request) : List Opt :=
  if request.type = .subscribe then
    ⟨conObserve, [0]⟩ :: dataportOptions request.cik request.aliasText
  else dataportOptions request.cik request.aliasText

/-- The payload of the whole request. -/
def payload (request : Request) : Option (List UInt8) :=
  if request.type = .write then some request.valueText else none

/-- The whole request fits in a datagram: header, token, options and payload. -/
def Fits (request : Request) : Prop :=
  6 + (encodeOptions 0 request.options).length +
    (Message.payloadBytes request.payload).length ≤ minimumDatagramSize

instance (request : Request) : Decidable request.Fits := inferInstanceAs (Decidable (_ ≤ _))

end Request

theorem optionText_length (text : List UInt8) : (optionText text).length ≤ 65535 := by
  rw [optionText, List.length_take]
  omega

theorem ascending_dataportOptions {floor : Nat} {cik aliasText : List UInt8}
    (lower : floor ≤ conUriPath) (short : aliasText.length ≤ 65535) :
    Ascending floor (dataportOptions cik aliasText) := by
  have size : (cik.take cikLength).length ≤ 40 := by
    rw [List.length_take]
    exact Nat.min_le_left _ _
  have room : (cik.take cikLength).length ≤ 65535 := by omega
  simpa only [dataportOptions, Ascending, conUriPath, conUriQuery, and_true, true_and,
    Nat.reduceLeDiff, Nat.le_refl, List.length_cons, List.length_nil, short, room] using lower

theorem positive_dataportOptions (cik aliasText : List UInt8) :
    ∀ option ∈ dataportOptions cik aliasText, 1 ≤ option.num := by
  simp [dataportOptions, conUriPath, conUriQuery]

/-- An alias of a request that fits is not cut short by the 16-bit length. -/
theorem Request.Fits.optionText_eq {request : Request} (fits : request.Fits) :
    optionText request.aliasText = request.aliasText := by
  have short : request.aliasText.length ≤ minimumDatagramSize := by
    refine Nat.le_trans ?_ fits
    unfold Request.options
    split_ifs <;>
      simp only [dataportOptions, encodeOptions, List.length_append] <;> omega
  have small : request.aliasText.length % 2 ^ 16 = request.aliasText.length :=
    Nat.mod_eq_of_lt (by unfold minimumDatagramSize at short; omega)
  rw [optionText, small, List.take_length]

/-- The options that a builder adds: the 16-bit length may cut the alias. -/
def Request.added (request : Request) : List Opt :=
  Request.options { request with aliasText := optionText request.aliasText }

theorem Request.Fits.added_eq {request : Request} (fits : request.Fits) :
    request.added = request.options := by
  rw [Request.added, fits.optionText_eq]

theorem Request.ascending_added (request : Request) : Ascending 0 request.added := by
  unfold Request.added Request.options
  split_ifs
  · exact ⟨by decide, by decide, by decide,
      ascending_dataportOptions (by decide) (optionText_length request.aliasText)⟩
  · exact ascending_dataportOptions (by decide) (optionText_length request.aliasText)

theorem Request.positive_added (request : Request) : ∀ option ∈ request.added, 1 ≤ option.num := by
  unfold Request.added Request.options
  split_ifs
  · intro option member
    rcases List.mem_cons.mp member with rfl | member
    · decide
    · exact positive_dataportOptions _ _ option member
  · exact positive_dataportOptions _ _

/-- The setter calls behind a request: those for its options and its payload, or those
of an activation request, which has no payload. -/
theorem exoBuildRequest_calls {env : SlotEnv} {sys : Sys} {op : ExoOp} {request : Request}
    {pdu : CoapPdu} (built : exoBuildRequest env sys op = .ok (some (request, pdu))) :
    request.type = op.type ∧ request.cik = sys.cik ∧ ∃ code options err,
      buildMsg env.pdu (requestCalls code sys.messageIdCounter env.rand options
        request.payload) = .ok (err, pdu) ∧
      code ≠ ccEmpty ∧ Ascending 0 options ∧ (∀ option ∈ options, 1 ≤ option.num) ∧
        (op.type ≠ .activate → options = request.added) := by
  unfold exoBuildRequest at built
  split at built
  next type =>
    obtain ⟨aliasText, -, built⟩ := Exec.bind_eq_ok.mp built
    obtain ⟨⟨err, result⟩, ran, built⟩ := Exec.bind_eq_ok.mp built
    cases built
    exact ⟨type.symm, rfl, _, Request.added ⟨.read, aliasText, [], sys.cik⟩, err, ran,
      by decide, Request.ascending_added _, Request.positive_added _, fun _ => rfl⟩
  next type =>
    obtain ⟨aliasText, -, built⟩ := Exec.bind_eq_ok.mp built
    obtain ⟨⟨err, result⟩, ran, built⟩ := Exec.bind_eq_ok.mp built
    cases built
    exact ⟨type.symm, rfl, _, Request.added ⟨.subscribe, aliasText, [], sys.cik⟩, err, ran,
      by decide, Request.ascending_added _, Request.positive_added _, fun _ => rfl⟩
  next type =>
    obtain ⟨aliasText, -, built⟩ := Exec.bind_eq_ok.mp built
    obtain ⟨valueText, -, built⟩ := Exec.bind_eq_ok.mp built
    obtain ⟨⟨err, result⟩, ran, built⟩ := Exec.bind_eq_ok.mp built
    cases built
    exact ⟨type.symm, rfl, _, Request.added ⟨.write, aliasText, valueText, sys.cik⟩, err, ran,
      by decide, Request.ascending_added _, Request.positive_added _, fun _ => rfl⟩
  next type =>
    obtain ⟨vendor, -, built⟩ := Exec.bind_eq_ok.mp built
    obtain ⟨model, -, built⟩ := Exec.bind_eq_ok.mp built
    obtain ⟨serial, -, built⟩ := Exec.bind_eq_ok.mp built
    obtain ⟨⟨err, result⟩, ran, built⟩ := Exec.bind_eq_ok.mp built
    cases built
    exact ⟨type.symm, rfl, _, _, err, ran, by decide,
      by simp [Ascending, conUriPath, optionText_length], by simp [conUriPath],
      fun other => absurd type other⟩
  next => cases built

/-- The message that is built for a request: the next message id, a token of two bytes,
and the whole request when it fits. -/
structure BuiltFor (sys : Sys) (op : ExoOp) (request : Request) (message : Message) : Prop where
  type : request.type = op.type
  cik : request.cik = sys.cik
  code : message.code ≠ ccEmpty
  mid : message.mid = sys.messageIdCounter
  token : message.token.length = 2
  payload : message.payload = none ∨ message.payload = request.payload
  whole : op.type ≠ .activate → request.Fits →
    message.options = request.options ∧ message.payload = request.payload

theorem exoBuildRequest_spec {env : SlotEnv} {sys : Sys} {op : ExoOp} {request : Request}
    {pdu : CoapPdu} (built : exoBuildRequest env sys op = .ok (some (request, pdu))) :
    ∃ floor message, Simulates minimumDatagramSize floor pdu message ∧
      BuiltFor sys op request message := by
  obtain ⟨type, cik, code, options, err, ran, coded, ascending, positive, isAdded⟩ :=
    exoBuildRequest_calls built
  obtain ⟨err, after, message, result, ⟨floor, simulates⟩, header, payload, fits, whole⟩ :=
    buildRequest_spec env.toBuffer code sys.messageIdCounter env.rand request.payload ascending
      positive
  rw [result] at ran
  cases ran
  refine ⟨floor, message, simulates, type, cik, ?_, header.mid, ?_, payload, ?_⟩
  · rw [header.code]
    exact coded
  · rw [header.token, requestMessage, leBytes_length]
  · intro typed room
    have same := room.added_eq
    rw [← isAdded typed] at same
    subst same
    have ok := fits.mpr (by
      rw [Message.encode_length, Message.body_length]
      simp only [requestMessage, leBytes_length]
      unfold Request.Fits at room
      omega)
    rw [whole ok]
    exact ⟨rfl, rfl⟩

/-! ## What a slot does -/

/-- The op waits for the platform. -/
def Waits (op : ExoOp) : Prop := op.state = .subscribed ∨ op.state = .pending

/-- Requests that are sent again after a timeout. -/
def SentAgain (op : ExoOp) : Prop :=
  op.type = .read ∨ op.type = .write ∨ op.type = .activate

/-- What processing the op in slot `i` does. -/
inductive SlotStep (env : SlotEnv) (sys : Sys) (i : Nat) (op : ExoOp) : Sys → Prop where
  | idle : SlotStep env sys i op sys
  /-- a new request without type -/
  | unexpectedNew (state : op.state = .new) (type : op.type = .null) :
      SlotStep env sys i op
        ((sys.setOp i { op with type := .null }).record (.unexpected i))
  /-- an overdue request without type -/
  | unexpectedWait (waits : Waits op) (type : op.type = .null) :
      SlotStep env sys i op (sys.record (.unexpected i))
  /-- a new request goes out -/
  | sent {request : Request} {pdu : CoapPdu} {datagram : List UInt8} {mid : UInt16}
      {token : Nat} (state : op.state = .new)
      (built : exoBuildRequest env sys op = .ok (some (request, pdu)))
      (bytes : pdu.mem.slice 0 pdu.len = .ok datagram) (isMid : coapGetMid pdu = .ok mid) :
      SlotStep env sys i op ((sys.sentRequest i true request datagram true).setOp i
        { op with state := .pending, timeout := env.time + 4000000, mid,
                  token := UInt64.ofNat token })
  /-- a new request could not be sent -/
  | unsent {request : Request} {pdu : CoapPdu} {datagram : List UInt8}
      (state : op.state = .new)
      (built : exoBuildRequest env sys op = .ok (some (request, pdu)))
      (bytes : pdu.mem.slice 0 pdu.len = .ok datagram) :
      SlotStep env sys i op (sys.sentRequest i true request datagram false)
  /-- an overdue request goes out again -/
  | resent {request : Request} {pdu withMid again : CoapPdu} {midErr tokenErr : CoapError}
      {datagram : List UInt8} {timeout : UInt64} (waits : Waits op) (type : SentAgain op)
      (retries : op.retries < coapMaxRetransmit)
      (built : exoBuildRequest env sys op = .ok (some (request, pdu)))
      (setMid : coapSetMid pdu op.mid = .ok (midErr, withMid))
      (setToken : coapSetToken withMid op.token.toNat op.tkl.toNat = .ok (tokenErr, again))
      (bytes : again.mem.slice 0 again.len = .ok datagram) :
      SlotStep env sys i op ((sys.sentRequest i false request datagram true).setOp i
        { op with retries := op.retries + 1, timeout })
  /-- an overdue request could not be sent again -/
  | unresent {request : Request} {pdu withMid again : CoapPdu} {midErr tokenErr : CoapError}
      {datagram : List UInt8} (waits : Waits op) (type : SentAgain op)
      (built : exoBuildRequest env sys op = .ok (some (request, pdu)))
      (setMid : coapSetMid pdu op.mid = .ok (midErr, withMid))
      (setToken : coapSetToken withMid op.token.toNat op.tkl.toNat = .ok (tokenErr, again))
      (bytes : again.mem.slice 0 again.len = .ok datagram) :
      SlotStep env sys i op (sys.sentRequest i false request datagram false)
  /-- an overdue request is given up -/
  | gaveUp (waits : Waits op) (type : SentAgain op) :
      SlotStep env sys i op (sys.setOp i { op with state := .error })
  /-- an overdue subscription is requested anew -/
  | renewed (waits : Waits op) (type : op.type = .subscribe) :
      SlotStep env sys i op (sys.setOp i { op with state := .new })
  /-- a notification is acknowledged -/
  | acked {datagram : List UInt8} {state : ExoRequestState}
      (isState : (op.state = .subAck ∧ state = .subscribed) ∨
        (op.state = .subAckNew ∧ state = .success)) :
      SlotStep env sys i op
        ((sys.record (.sent (.ack i) datagram true)).setOp i { op with state })
  /-- the acknowledgement could not be sent -/
  | unacked {datagram : List UInt8} (state : op.state = .subAck ∨ op.state = .subAckNew) :
      SlotStep env sys i op (sys.record (.sent (.ack i) datagram false))

section SlotSteps

variable {env : SlotEnv} {sys after : Sys} {i : Nat} {op : ExoOp}

/-- Only an op without type has no builder. -/
theorem exoBuildRequest_none (built : exoBuildRequest env sys op = .ok none) :
    op.type = .null := by
  unfold exoBuildRequest at built
  split at built
  next =>
    obtain ⟨_, -, built⟩ := Exec.bind_eq_ok.mp built
    obtain ⟨_, -, built⟩ := Exec.bind_eq_ok.mp built
    cases built
  next =>
    obtain ⟨_, -, built⟩ := Exec.bind_eq_ok.mp built
    obtain ⟨_, -, built⟩ := Exec.bind_eq_ok.mp built
    cases built
  next =>
    obtain ⟨_, -, built⟩ := Exec.bind_eq_ok.mp built
    obtain ⟨_, -, built⟩ := Exec.bind_eq_ok.mp built
    obtain ⟨_, -, built⟩ := Exec.bind_eq_ok.mp built
    cases built
  next =>
    obtain ⟨_, -, built⟩ := Exec.bind_eq_ok.mp built
    obtain ⟨_, -, built⟩ := Exec.bind_eq_ok.mp built
    obtain ⟨_, -, built⟩ := Exec.bind_eq_ok.mp built
    obtain ⟨_, -, built⟩ := Exec.bind_eq_ok.mp built
    cases built
  next type => exact type

theorem exoSendNew_cases (state : op.state = .new)
    (ran : exoSendNew env sys i op = .ok after) : SlotStep env sys i op after := by
  obtain ⟨result, built, ran⟩ := Exec.bind_eq_ok.mp ran
  cases result with
  | none =>
      cases ran
      exact .unexpectedNew state (exoBuildRequest_none built)
  | some result =>
      obtain ⟨request, pdu⟩ := result
      obtain ⟨datagram, bytes, ran⟩ := Exec.bind_eq_ok.mp ran
      cases ok : env.sendOk with
      | true =>
          simp only [ok, if_true] at ran
          obtain ⟨mid, isMid, ran⟩ := Exec.bind_eq_ok.mp ran
          obtain ⟨token, -, ran⟩ := Exec.bind_eq_ok.mp ran
          cases ran
          exact .sent state built bytes isMid
      | false =>
          simp only [ok, Bool.false_eq_true, if_false] at ran
          cases ran
          exact .unsent state built bytes

theorem exoSendAgain_cases (waits : Waits op) (type : SentAgain op)
    (retries : op.retries < coapMaxRetransmit)
    (ran : exoSendAgain env sys i op = .ok after) : SlotStep env sys i op after := by
  obtain ⟨result, built, ran⟩ := Exec.bind_eq_ok.mp ran
  cases result with
  | none =>
      have null := exoBuildRequest_none built
      rw [SentAgain, null] at type
      simp at type
  | some result =>
      obtain ⟨request, pdu⟩ := result
      obtain ⟨⟨midErr, withMid⟩, setMid, ran⟩ := Exec.bind_eq_ok.mp ran
      obtain ⟨⟨tokenErr, again⟩, setToken, ran⟩ := Exec.bind_eq_ok.mp ran
      obtain ⟨datagram, bytes, ran⟩ := Exec.bind_eq_ok.mp ran
      cases ok : env.sendOk with
      | true =>
          simp only [ok, if_true] at ran
          cases ran
          exact .resent waits type retries built setMid setToken bytes
      | false =>
          simp only [ok, Bool.false_eq_true, if_false] at ran
          cases ran
          exact .unresent waits type built setMid setToken bytes

/-- The acknowledgement always goes out as it should. -/
theorem exoSendAck_eq (env : SlotEnv) (sys : Sys) (i : Nat) (op : ExoOp) :
    exoSendAck env sys i op = .ok (if env.sendOk then
      (sys.record (.sent (.ack i) (ackMessage op.mid).encode true)).setOp i
        { op with state := if op.state = .subAck then .subscribed else .success }
      else sys.record (.sent (.ack i) (ackMessage op.mid).encode false)) := by
  obtain ⟨err, reply, built, simulates⟩ := exoBuildMsgAck_spec env.toBuffer op.mid
  simp only [exoSendAck, built, Exec.ok_bind, simulates.slice_eq]
  cases env.sendOk <;> rfl

theorem exoSendAck_cases (state : op.state = .subAck ∨ op.state = .subAckNew)
    (ran : exoSendAck env sys i op = .ok after) : SlotStep env sys i op after := by
  rw [exoSendAck_eq] at ran
  cases ran
  cases env.sendOk with
  | true =>
      apply SlotStep.acked
      rcases state with old | new
      · exact Or.inl ⟨old, by rw [if_pos old]⟩
      · exact Or.inr ⟨new, by rw [if_neg (by rw [new]; decide)]⟩
  | false => exact .unacked state

theorem exoTimedOut_cases (waits : Waits op) (ran : exoTimedOut env sys i op = .ok after) :
    SlotStep env sys i op after := by
  have repeats : SentAgain op → (if op.retries < coapMaxRetransmit then
        exoSendAgain env sys i op
      else return sys.setOp i { op with state := .error }) = Except.ok after →
      SlotStep env sys i op after := by
    intro type ran
    split_ifs at ran with retries
    · exact exoSendAgain_cases waits type retries ran
    · cases ran
      exact .gaveUp waits type
  unfold exoTimedOut at ran
  split at ran
  next type => exact repeats (Or.inl type) ran
  next type => exact repeats (Or.inr (Or.inl type)) ran
  next type => exact repeats (Or.inr (Or.inr type)) ran
  next type =>
    cases ran
    exact .renewed waits type
  next type =>
    cases ran
    exact .unexpectedWait waits type

/-- One round of the loop over the slots. -/
theorem exoProcessOp_cases {now : UInt64} (ran : exoProcessOp now env sys i op = .ok after) :
    SlotStep env sys i op after := by
  have waiting : Waits op →
      (if op.timeout ≤ now then exoTimedOut env sys i op else return sys) = Except.ok after →
      SlotStep env sys i op after := by
    intro waits ran
    split_ifs at ran
    · exact exoTimedOut_cases waits ran
    · cases ran
      exact .idle
  unfold exoProcessOp at ran
  split at ran
  next state => exact exoSendNew_cases state ran
  next state => exact waiting (Or.inl state) ran
  next state => exact waiting (Or.inr state) ran
  next state => exact exoSendAck_cases (Or.inr state) ran
  next state => exact exoSendAck_cases (Or.inl state) ran
  all_goals
    cases ran
    exact .idle

/-- A notification that is to be acknowledged is not looked at any further. -/
theorem exoProcessOp_eq_ack (now : UInt64) (state : op.state = .subAck ∨ op.state = .subAckNew) :
    exoProcessOp now env sys i op = exoSendAck env sys i op := by
  rcases state with state | state <;> rw [exoProcessOp, state]

/-- What every slot keeps on its turn holds after the loop. -/
theorem exoActiveLoop_rule {now : UInt64} {envs : Nat → SlotEnv} {holds : Nat → Sys → Prop}
    {left : Nat} (ran : exoActiveLoop now envs sys left i = .ok after) (start : holds i sys)
    (turn : ∀ {sys next : Sys} {i : Nat} {op : ExoOp}, sys.ops[i]? = some op →
      exoProcessOp now (envs i) sys i op = .ok next → holds i sys → holds (i + 1) next) :
    holds (i + left) after := by
  induction left generalizing sys i with
  | zero =>
      cases ran
      exact start
  | succ left ih =>
      rw [exoActiveLoop] at ran
      cases atSlot : sys.ops[i]? with
      | none =>
          rw [atSlot] at ran
          cases ran
      | some op =>
          rw [atSlot] at ran
          obtain ⟨next, processed, ran⟩ := Exec.bind_eq_ok.mp ran
          rw [← Nat.add_assoc, Nat.add_right_comm]
          exact ih ran (turn atSlot processed start)

end SlotSteps

end ExositeCoap.Exosite
