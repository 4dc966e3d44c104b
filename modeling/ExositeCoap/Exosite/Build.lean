import ExositeCoap.Coap.Refine
import ExositeCoap.Exosite.Op

/-!
# Building requests and replies

The builders of `exosite.c` call one setter after the other, whatever each of them
returns, and report afterwards whether one failed.  A failed step leaves the packet
as it was, so the packet always holds some message with the right header; it holds
the whole request exactly when that fits (`buildRequest_spec`).
-/

namespace ExositeCoap.Exosite

open Lib Wire Coap

/-- All setter calls, with the conjunction of their results. -/
def runCalls (pdu : CoapPdu) : List Call → Exec (Bool × CoapPdu)
  | [] => pure (true, pdu)
  | call :: rest => do
    let (err, pdu) ← call.run pdu
    let (ok, pdu) ← runCalls pdu rest
    return (decide (err = .ceNone) && ok, pdu)

/-- Frame of every builder. The result of `coap_init_pdu` is not looked at. -/
def buildMsg (pdu : CoapPdu) (calls : List Call) : Exec (ExoError × CoapPdu) := do
  let (_, pdu) ← coapInitPdu pdu
  let (ok, pdu) ← runCalls pdu calls
  return (if ok then .exoOk else .exoGeneralError, pdu)

/-- The calls that add options and perhaps a payload. -/
def bodyCalls (options : List Opt) (payload : Option (List UInt8)) : List Call :=
  options.map (fun option => .addOption option.num option.value) ++
    payload.toList.map .setPayload

/-- The calls that build a confirmable request. -/
def requestCalls (code : UInt8) (mid : UInt16) (rand : UInt64) (options : List Opt)
    (payload : Option (List UInt8)) : List Call :=
  [.setVersion, .setType .con, .setCode code, .setMid mid, .setToken rand 2] ++
    bodyCalls options payload

/-- What the 16-bit length argument of `coap_add_option` leaves of a string. -/
def optionText (text : List UInt8) : List UInt8 := text.take (text.length % 2 ^ 16)

/-- `exo_build_msg_activate`; `mid` is the message id counter before it is
incremented. -/
def exoBuildMsgActivate (pdu : CoapPdu) (mid : UInt16) (rand : UInt64)
    (vendor model serialNumber : List UInt8) : Exec (ExoError × CoapPdu) :=
  -- the paths "provision" and "activate" come first
  buildMsg pdu (requestCalls ccPost mid rand
    [⟨conUriPath, [0x70, 0x72, 0x6F, 0x76, 0x69, 0x73, 0x69, 0x6F, 0x6E]⟩,
     ⟨conUriPath, [0x61, 0x63, 0x74, 0x69, 0x76, 0x61, 0x74, 0x65]⟩,
     ⟨conUriPath, optionText vendor⟩, ⟨conUriPath, optionText model⟩,
     ⟨conUriPath, optionText serialNumber⟩] none)

/-- The options that name a dataport: "1a", the alias, and the CIK. -/
def dataportOptions (cik aliasText : List UInt8) : List Opt :=
  [⟨conUriPath, [0x31, 0x61]⟩, ⟨conUriPath, aliasText⟩, ⟨conUriQuery, cik.take cikLength⟩]

def exoBuildMsgRead (pdu : CoapPdu) (mid : UInt16) (rand : UInt64)
    (cik aliasText : List UInt8) : Exec (ExoError × CoapPdu) :=
  buildMsg pdu (requestCalls ccGet mid rand (dataportOptions cik (optionText aliasText)) none)

def exoBuildMsgObserve (pdu : CoapPdu) (mid : UInt16) (rand : UInt64)
    (cik aliasText : List UInt8) : Exec (ExoError × CoapPdu) :=
  buildMsg pdu (requestCalls ccGet mid rand
    (⟨conObserve, [0]⟩ :: dataportOptions cik (optionText aliasText)) none)

def exoBuildMsgWrite (pdu : CoapPdu) (mid : UInt16) (rand : UInt64)
    (cik aliasText valueText : List UInt8) : Exec (ExoError × CoapPdu) :=
  buildMsg pdu (requestCalls ccPost mid rand (dataportOptions cik (optionText aliasText))
    (some valueText))

def exoBuildMsgRst (pdu : CoapPdu) (mid : UInt16) (token : UInt64) (tkl : UInt8) :
    Exec (ExoError × CoapPdu) :=
  buildMsg pdu [.setVersion, .setType .rst, .setCode ccEmpty, .setMid mid, .setToken token tkl]

def exoBuildMsgAck (pdu : CoapPdu) (mid : UInt16) : Exec (ExoError × CoapPdu) :=
  buildMsg pdu [.setVersion, .setType .ack, .setCode ccEmpty, .setMid mid]

/-! ## Running the calls -/

/-- Each call has room when its turn comes. -/
def AllFit (max : Nat) (message : Message) : List Call → Prop
  | [] => True
  | call :: rest => call.Fits max message ∧ AllFit max (call.next max message) rest

/-- The calls leave what the abstract calls leave, and all succeed exactly when
each has room. -/
theorem runCalls_simulates {max floor : Nat} {pdu : CoapPdu} {message : Message}
    {calls : List Call} (simulates : Simulates max floor pdu message)
    (inOrder : InOrder floor calls) (once : PayloadOnce max message calls) :
    ∃ ok after, runCalls pdu calls = .ok (ok, after) ∧
      Simulates max (calls.foldl Call.raise floor) after
        (calls.foldl (Call.next max) message) ∧
      (ok = true ↔ AllFit max message calls) := by
  induction calls generalizing floor pdu message with
  | nil => exact ⟨true, pdu, rfl, simulates, by simp [AllFit]⟩
  | cons call rest ih =>
      obtain ⟨err, middle, ran, status, -, next⟩ := simulates.step inOrder.1 once.1
      obtain ⟨ok, after, ranRest, final, all⟩ := ih next inOrder.2 once.2
      refine ⟨decide (err = .ceNone) && ok, after, ?_, final, ?_⟩
      · simp only [runCalls, ran, Exec.ok_bind, ranRest, Exec.pure_eq_ok]
      · rw [Bool.and_eq_true, decide_eq_true_eq, status, all, AllFit]

/-- The calls write inside the buffer. -/
theorem runCalls_frame {max floor : Nat} {pdu after : CoapPdu} {message : Message}
    {calls : List Call} (simulates : Simulates max floor pdu message)
    (inOrder : InOrder floor calls) (once : PayloadOnce max message calls) {ok : Bool}
    (ran : runCalls pdu calls = .ok (ok, after)) : Frame pdu after := by
  induction calls generalizing floor pdu message ok with
  | nil =>
      cases ran
      exact Frame.refl _
  | cons call rest ih =>
      obtain ⟨err, middle, stepped, -, -, next⟩ := simulates.step inOrder.1 once.1
      have frame := simulates.frame inOrder.1 once.1 stepped
      rw [runCalls, stepped, Exec.ok_bind] at ran
      obtain ⟨⟨others, last⟩, ranRest, ran⟩ := Exec.bind_eq_ok.mp ran
      cases ran
      exact frame.trans (ih next inOrder.2 once.2 ranRest)

/-- A stack buffer of the library. -/
structure Buffer where
  pdu : CoapPdu
  max_eq : pdu.max = minimumDatagramSize
  mapped : minimumDatagramSize ≤ pdu.mem.length
  bounded : pdu.mem.length < 2 ^ 63

/-- Every builder starts with a fresh packet. -/
theorem Buffer.init (buffer : Buffer) :
    ∃ ready, coapInitPdu buffer.pdu = .ok (.ceNone, ready) ∧ Frame buffer.pdu ready ∧
      Simulates minimumDatagramSize 0 ready ping := by
  obtain ⟨ready, initialised, holds, frame⟩ := @coapInitPdu_writes buffer.pdu
    (by rw [buffer.max_eq]; decide) (by rw [buffer.max_eq]; exact buffer.mapped) buffer.bounded
  exact ⟨ready, initialised, frame,
    holds, ping_encodable, by simp [ping], Nat.le_refl _, frame.max.trans buffer.max_eq⟩

theorem buildMsg_simulates (buffer : Buffer) {calls : List Call} (inOrder : InOrder 0 calls)
    (once : PayloadOnce minimumDatagramSize ping calls) :
    ∃ err after, buildMsg buffer.pdu calls = .ok (err, after) ∧
      Simulates minimumDatagramSize (calls.foldl Call.raise 0) after
        (calls.foldl (Call.next minimumDatagramSize) ping) ∧
      (err = .exoOk ↔ AllFit minimumDatagramSize ping calls) := by
  obtain ⟨ready, initialised, -, simulates⟩ := buffer.init
  obtain ⟨ok, after, ran, final, all⟩ := runCalls_simulates simulates inOrder once
  refine ⟨if ok then .exoOk else .exoGeneralError, after, ?_, final, ?_⟩
  · simp only [buildMsg, initialised, Exec.ok_bind, ran, Exec.pure_eq_ok]
  · rw [← all]
    cases ok <;> simp

/-! ## Requests -/

section Requests

variable {max : Nat} {message : Message}

/-- The message a request amounts to. -/
def requestMessage (code : UInt8) (mid : UInt16) (rand : UInt64) (options : List Opt)
    (payload : Option (List UInt8)) : Message :=
  ⟨.con, code, mid, leBytes 2 rand.toNat, options, payload⟩

/-- Two messages with the same header and token. -/
structure SameHeader (left right : Message) : Prop where
  kind : left.kind = right.kind
  code : left.code = right.code
  mid : left.mid = right.mid
  token : left.token = right.token

/-- The header calls always have room. -/
theorem foldl_header (code : UInt8) (mid : UInt16) (rand : UInt64) :
    [.setVersion, .setType .con, .setCode code, .setMid mid, .setToken rand 2].foldl
        (Call.next minimumDatagramSize) ping = requestMessage code mid rand [] none := by
  simp [Call.next, Call.Fits, Call.apply, Message.encode_length, Message.body_length,
    encodeOptions, Message.payloadBytes, ping, requestMessage, minimumDatagramSize]

theorem allFit_append {front back : List Call} :
    AllFit max message (front ++ back) ↔
      AllFit max message front ∧ AllFit max (front.foldl (Call.next max) message) back := by
  induction front generalizing message with
  | nil => simp [AllFit]
  | cons call rest ih => simp [AllFit, ih, and_assoc]

theorem allFit_header (code : UInt8) (mid : UInt16) (rand : UInt64) :
    AllFit minimumDatagramSize ping
      [.setVersion, .setType .con, .setCode code, .setMid mid, .setToken rand 2] := by
  simp [AllFit, Call.next, Call.Fits, Call.apply, Message.encode_length, Message.body_length,
    encodeOptions, Message.payloadBytes, ping, minimumDatagramSize]

/-- The message with its body appended. -/
def withBody (message : Message) (options : List Opt) (payload : Option (List UInt8)) :
    Message :=
  { message with options := message.options ++ options, payload }

/-- Adding options and a payload never makes a message shorter. -/
theorem encode_length_le_withBody (none : message.payload = none) (options : List Opt)
    (payload : Option (List UInt8)) :
    message.encode.length ≤ (withBody message options payload).encode.length := by
  simp only [Message.encode_length, Message.body_length, withBody, encodeOptions_append,
    List.length_append, none, Message.payloadBytes, List.length_nil]
  omega

theorem inOrder_bodyCalls {floor : Nat} {options : List Opt} (payload : Option (List UInt8))
    (ascending : Ascending floor options) (positive : ∀ option ∈ options, 1 ≤ option.num) :
    InOrder floor (bodyCalls options payload) := by
  induction options generalizing floor with
  | nil => cases payload <;> simp [bodyCalls, InOrder, Call.Ordered]
  | cons option rest ih =>
      obtain ⟨lower, numBound, lengthBound, ascending⟩ := ascending
      refine ⟨⟨positive option List.mem_cons_self, lower, numBound, lengthBound⟩, ?_⟩
      exact ih ascending fun other member => positive other (List.mem_cons_of_mem _ member)

/-- Every body call keeps the header, and an option keeps the payload. -/
theorem next_addOption (option : Opt) :
    SameHeader (Call.next max message (.addOption option.num option.value)) message ∧
      (Call.next max message (.addOption option.num option.value)).payload =
        message.payload := by
  unfold Call.next
  split <;> exact ⟨⟨rfl, rfl, rfl, rfl⟩, rfl⟩

theorem payloadOnce_append {front back : List Call} :
    PayloadOnce max message (front ++ back) ↔ PayloadOnce max message front ∧
      PayloadOnce max (front.foldl (Call.next max) message) back := by
  induction front generalizing message with
  | nil => simp [PayloadOnce]
  | cons call rest ih => simp [PayloadOnce, ih, and_assoc]

theorem payloadOnce_bodyCalls (options : List Opt) (payload : Option (List UInt8))
    (none : message.payload = none) : PayloadOnce max message (bodyCalls options payload) := by
  induction options generalizing message with
  | nil => cases payload <;> simp [bodyCalls, PayloadOnce, Call.FirstPayload, none]
  | cons option rest ih => exact ⟨trivial, ih ((next_addOption option).2.trans none)⟩

theorem SameHeader.trans {left middle right : Message} (first : SameHeader left middle)
    (second : SameHeader middle right) : SameHeader left right :=
  ⟨first.kind.trans second.kind, first.code.trans second.code, first.mid.trans second.mid,
    first.token.trans second.token⟩

theorem foldl_bodyCalls_sameHeader (options : List Opt) (payload : Option (List UInt8)) :
    SameHeader ((bodyCalls options payload).foldl (Call.next max) message) message := by
  induction options generalizing message with
  | nil =>
      cases payload with
      | none => exact ⟨rfl, rfl, rfl, rfl⟩
      | some bytes =>
          simp only [bodyCalls, List.map_nil, Option.toList_some, List.map_cons,
            List.nil_append, List.foldl_cons, List.foldl_nil, Call.next]
          split <;> exact ⟨rfl, rfl, rfl, rfl⟩
  | cons option rest ih => exact ih.trans (next_addOption option).1

/-- The payload is set, or there is none. -/
theorem foldl_bodyCalls_payload (options : List Opt) (payload : Option (List UInt8))
    (none : message.payload = none) :
    ((bodyCalls options payload).foldl (Call.next max) message).payload = .none ∨
      ((bodyCalls options payload).foldl (Call.next max) message).payload = payload := by
  induction options generalizing message with
  | nil =>
      cases payload with
      | none => exact Or.inl none
      | some bytes =>
          simp only [bodyCalls, List.map_nil, Option.toList_some, List.map_cons,
            List.nil_append, List.foldl_cons, List.foldl_nil, Call.next]
          split
          · exact Or.inr rfl
          · exact Or.inl none
  | cons option rest ih => exact ih ((next_addOption option).2.trans none)

/-- The body calls have room, and then leave the whole body, exactly when the whole
message has room. -/
theorem allFit_bodyCalls (options : List Opt) (payload : Option (List UInt8))
    (none : message.payload = none) (token : message.token.length ≤ 8)
    (fits : message.encode.length ≤ max) :
    (AllFit max message (bodyCalls options payload) ↔
      (withBody message options payload).encode.length ≤ max) ∧
    (AllFit max message (bodyCalls options payload) →
      (bodyCalls options payload).foldl (Call.next max) message =
        withBody message options payload) := by
  induction options generalizing message with
  | nil =>
      cases payload with
      | none =>
          have same : withBody message [] Option.none = message := by
            rw [withBody, List.append_nil, ← none]
          rw [same]
          exact ⟨⟨fun _ => fits, fun _ => trivial⟩, fun _ => rfl⟩
      | some bytes =>
          have applied : withBody message [] (some bytes) =
              Call.apply message (.setPayload bytes) := by
            rw [withBody, List.append_nil, Call.apply]
          rw [applied]
          constructor
          · exact ⟨fun all => all.1.1, fun room => ⟨⟨room, token⟩, trivial⟩⟩
          · exact fun all => if_pos all.1
  | cons option rest ih =>
      have split : withBody message (option :: rest) payload =
          withBody (Call.apply message (.addOption option.num option.value)) rest payload := by
        simp [withBody, Call.apply]
      have calls : bodyCalls (option :: rest) payload =
          .addOption option.num option.value :: bodyCalls rest payload := rfl
      rw [split, calls]
      by_cases room : Call.Fits max message (.addOption option.num option.value)
      · have next : Call.next max message (.addOption option.num option.value) =
            Call.apply message (.addOption option.num option.value) := if_pos room
        obtain ⟨whole, result⟩ := @ih (Call.apply message (.addOption option.num option.value))
          none token room.1
        rw [AllFit, List.foldl_cons, next]
        exact ⟨⟨fun all => whole.mp all.2, fun final => ⟨room, whole.mpr final⟩⟩,
          fun all => result all.2⟩
      · refine ⟨⟨fun all => absurd all.1 room, fun final => ?_⟩, fun all => absurd all.1 room⟩
        refine absurd ⟨Nat.le_trans ?_ final, token⟩ room
        exact @encode_length_le_withBody
          (Call.apply message (.addOption option.num option.value)) none rest payload

end Requests

section Order

variable (code : UInt8) (mid : UInt16) (rand : UInt64)

theorem inOrder_requestCalls {options : List Opt} (payload : Option (List UInt8))
    (ascending : Ascending 0 options) (positive : ∀ option ∈ options, 1 ≤ option.num) :
    InOrder 0 (requestCalls code mid rand options payload) :=
  ⟨trivial, trivial, trivial, trivial, trivial, inOrder_bodyCalls payload ascending positive⟩

theorem payloadOnce_requestCalls (options : List Opt) (payload : Option (List UInt8)) :
    PayloadOnce minimumDatagramSize ping (requestCalls code mid rand options payload) := by
  rw [requestCalls, payloadOnce_append, foldl_header]
  exact ⟨⟨trivial, trivial, trivial, trivial, trivial, trivial⟩,
    payloadOnce_bodyCalls options payload rfl⟩

end Order

/-- A request builder returns with the right header in place; it returns `EXO_OK`
exactly when the whole request fits, and then the packet holds it. -/
theorem buildRequest_spec (buffer : Buffer) (code : UInt8) (mid : UInt16) (rand : UInt64)
    {options : List Opt} (payload : Option (List UInt8)) (ascending : Ascending 0 options)
    (positive : ∀ option ∈ options, 1 ≤ option.num) :
    ∃ err after message, buildMsg buffer.pdu (requestCalls code mid rand options payload) =
        .ok (err, after) ∧
      (∃ floor, Simulates minimumDatagramSize floor after message) ∧
      SameHeader message (requestMessage code mid rand options payload) ∧
      (message.payload = none ∨ message.payload = payload) ∧
      (err = .exoOk ↔
        (requestMessage code mid rand options payload).encode.length ≤ minimumDatagramSize) ∧
      (err = .exoOk → message = requestMessage code mid rand options payload) := by
  have header := foldl_header code mid rand
  obtain ⟨err, after, built, simulates, all⟩ := buildMsg_simulates buffer
    (inOrder_requestCalls code mid rand payload ascending positive)
    (payloadOnce_requestCalls code mid rand options payload)
  simp only [requestCalls, List.foldl_append, header] at simulates
  rw [requestCalls, allFit_append, header] at all
  obtain ⟨whole, result⟩ := @allFit_bodyCalls minimumDatagramSize
    (requestMessage code mid rand [] none) options payload rfl
    (by simp [requestMessage]) (by simp [requestMessage, Message.encode_length,
      Message.body_length, encodeOptions, Message.payloadBytes, minimumDatagramSize])
  have sameMessage : withBody (requestMessage code mid rand [] none) options payload =
      requestMessage code mid rand options payload := rfl
  rw [sameMessage] at whole result
  refine ⟨err, after, _, built, ⟨_, simulates⟩, ?_, foldl_bodyCalls_payload options payload rfl,
    ?_, ?_⟩
  · exact (foldl_bodyCalls_sameHeader options payload).trans ⟨rfl, rfl, rfl, rfl⟩
  · rw [all, whole]
    exact and_iff_right (allFit_header code mid rand)
  · exact fun ok => result (all.mp ok).2

/-! ## Replies -/

/-- A reset: no code, no options, but the token of the message that it answers. -/
def rstMessage (mid : UInt16) (token : UInt64) (tkl : UInt8) : Message :=
  ⟨.rst, ccEmpty, mid, leBytes tkl.toNat token.toNat, [], none⟩

/-- An acknowledgement. -/
def ackMessage (mid : UInt16) : Message := ⟨.ack, ccEmpty, mid, [], [], none⟩

theorem exoBuildMsgRst_spec (buffer : Buffer) (mid : UInt16) (token : UInt64) {tkl : UInt8}
    (short : tkl.toNat ≤ 8) :
    ∃ err after, exoBuildMsgRst buffer.pdu mid token tkl = .ok (err, after) ∧
      Simulates minimumDatagramSize 0 after (rstMessage mid token tkl) := by
  obtain ⟨err, after, built, simulates, -⟩ := @buildMsg_simulates buffer
    [.setVersion, .setType .rst, .setCode ccEmpty, .setMid mid, .setToken token tkl]
    ⟨trivial, trivial, trivial, trivial, trivial, trivial⟩
    ⟨trivial, trivial, trivial, trivial, trivial, trivial⟩
  refine ⟨err, after, built, ?_⟩
  have room : 4 + tkl.toNat ≤ 576 := by omega
  have result : [.setVersion, .setType .rst, .setCode ccEmpty, .setMid mid,
      .setToken token tkl].foldl (Call.next minimumDatagramSize) ping =
        rstMessage mid token tkl := by
    simp [Call.next, Call.Fits, Call.apply, Message.encode_length, Message.body_length,
      encodeOptions, Message.payloadBytes, ping, rstMessage, room, short, minimumDatagramSize]
  rw [result] at simulates
  exact simulates

theorem exoBuildMsgAck_spec (buffer : Buffer) (mid : UInt16) :
    ∃ err after, exoBuildMsgAck buffer.pdu mid = .ok (err, after) ∧
      Simulates minimumDatagramSize 0 after (ackMessage mid) := by
  obtain ⟨err, after, built, simulates, -⟩ := @buildMsg_simulates buffer
    [.setVersion, .setType .ack, .setCode ccEmpty, .setMid mid]
    ⟨trivial, trivial, trivial, trivial, trivial⟩ ⟨trivial, trivial, trivial, trivial, trivial⟩
  refine ⟨err, after, built, ?_⟩
  have result : [.setVersion, .setType .ack, .setCode ccEmpty, .setMid mid].foldl
      (Call.next minimumDatagramSize) ping = ackMessage mid := by
    simp [Call.next, Call.Fits, Call.apply, Message.encode_length, Message.body_length,
      encodeOptions, Message.payloadBytes, ping, ackMessage, minimumDatagramSize]
  rw [result] at simulates
  exact simulates

end ExositeCoap.Exosite
