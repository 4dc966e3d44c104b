import ExositeCoap.Exosite.Outgoing

/-!
# What the builders write

A request builder returns `EXO_OK` exactly when the whole message fits, and then the
packet decodes to it.  Whatever the strings are, and whichever steps fail, a builder and
what is patched into its packet for a retransmission stay inside the stack buffer, and
what is sent has the length of some packet in it.
-/

namespace ExositeCoap.Exosite

open Lib Wire Coap

/-- The packet decodes to a confirmable request whose token is the low half of what
`rand()` returned. -/
structure DecodesTo (pdu : CoapPdu) (code : UInt8) (counter : UInt16) (rand : UInt64)
    (options : List Opt) (payload : Option (List UInt8)) : Prop where
  kind : coapGetType pdu = .ok .con
  code : coapGetCode pdu = .ok code
  mid : coapGetMid pdu = .ok counter
  tkl : coapGetTkl pdu = .ok 2
  token : coapGetToken pdu = .ok (rand.toNat % 2 ^ 16)
  options : ∃ found final, Yields pdu none found final ∧
    List.Forall₂ (Delivers pdu.mem) found options
  payload : ∃ found, coapGetPayload pdu = .ok found ∧ DeliversPayload pdu.mem found payload

/-- The builder succeeds exactly when the whole message fits, and then has encoded it. -/
def EncodesRequest (built : Exec (ExoError × CoapPdu)) (code : UInt8) (counter : UInt16)
    (rand : UInt64) (options : List Opt) (payload : Option (List UInt8)) : Prop :=
  ∃ err after, built = .ok (err, after) ∧
    (err = .exoOk ↔ (requestMessage code counter rand options payload).encode.length ≤
      minimumDatagramSize) ∧
    (err = .exoOk → DecodesTo after code counter rand options payload)

/-- A path, segment by segment. -/
def uriPath (segments : List (List UInt8)) : List Opt := segments.map fun text => ⟨conUriPath, text⟩

/-- The path "1a" and the alias, then the CIK. -/
def dataport (aliasText cik : List UInt8) : List Opt :=
  uriPath [[0x31, 0x61], aliasText] ++ [⟨conUriQuery, cik.take 40⟩]

/-- The path "provision", "activate", vendor, model and serial number. -/
def provisioning (vendor model serial : List UInt8) : List Opt :=
  uriPath [[0x70, 0x72, 0x6F, 0x76, 0x69, 0x73, 0x69, 0x6F, 0x6E],
    [0x61, 0x63, 0x74, 0x69, 0x76, 0x61, 0x74, 0x65], vendor, model, serial]

/-! ## Requests -/

theorem leValue_leBytes (count value : Nat) :
    leValue (leBytes count value) = value % 256 ^ count := by
  induction count generalizing value with
  | zero => simp [leBytes, leValue, Nat.mod_one]
  | succ count ih =>
      have first : (UInt8.ofNat value).toNat = value % 256 := UInt8.toNat_ofNat'
      rw [leBytes, leValue, ih, first, Nat.pow_succ', Nat.mod_mul]

/-- A packet that shows a request message decodes to that request. -/
theorem decodesTo_of_simulates {max floor : Nat} {pdu : CoapPdu} {code : UInt8} {counter : UInt16}
    {rand : UInt64} {options : List Opt} {payload : Option (List UInt8)}
    (simulates : Simulates max floor pdu (requestMessage code counter rand options payload)) :
    DecodesTo pdu code counter rand options payload := by
  have observes := simulates.observes
  refine ⟨observes.kind, observes.code, observes.mid, ?_, ?_, observes.options, observes.payload⟩
  · rw [observes.tkl, requestMessage, leBytes_length]
  · rw [observes.token, requestMessage, leValue_leBytes]
    rfl

theorem buildMsg_encodes (buffer : Buffer) (code : UInt8) (counter : UInt16) (rand : UInt64)
    {options : List Opt} (payload : Option (List UInt8)) (ascending : Ascending 0 options)
    (positive : ∀ option ∈ options, 1 ≤ option.num) :
    EncodesRequest (buildMsg buffer.pdu (requestCalls code counter rand options payload)) code
      counter rand options payload := by
  obtain ⟨err, after, message, built, ⟨floor, simulates⟩, -, -, fits, whole⟩ :=
    buildRequest_spec buffer code counter rand payload ascending positive
  refine ⟨err, after, built, fits, fun ok => ?_⟩
  rw [whole ok] at simulates
  exact decodesTo_of_simulates simulates

/-- The 16-bit length does not cut a string that has one. -/
theorem optionText_eq {text : List UInt8} (short : text.length ≤ 65535) :
    optionText text = text := by
  have whole : text.length % 2 ^ 16 = text.length := Nat.mod_eq_of_lt (by omega)
  rw [optionText, whole, List.take_length]

theorem ascending_provisioning {vendor model serial : List UInt8}
    (vendorShort : vendor.length ≤ 65535) (modelShort : model.length ≤ 65535)
    (serialShort : serial.length ≤ 65535) : Ascending 0 (provisioning vendor model serial) := by
  simp [provisioning, uriPath, Ascending, conUriPath, vendorShort, modelShort, serialShort]

/-- Every request builder returns `EXO_OK` exactly when the whole message fits in the
datagram, and then the packet decodes to what the builder was given. -/
theorem builders_encode (buffer : Buffer) (counter : UInt16) (rand : UInt64)
    (cik aliasText valueText vendor model serial : List UInt8)
    (cikSize : cik.length = cikLength + 1)
    (short : ∀ text ∈ [aliasText, valueText, vendor, model, serial], text.length ≤ 65535) :
    (cik.take 40).length = 40 ∧
    EncodesRequest (exoBuildMsgRead buffer.pdu counter rand cik aliasText) ccGet counter rand
      (dataport aliasText cik) none ∧
    EncodesRequest (exoBuildMsgObserve buffer.pdu counter rand cik aliasText) ccGet counter rand
      (⟨conObserve, [0]⟩ :: dataport aliasText cik) none ∧
    EncodesRequest (exoBuildMsgWrite buffer.pdu counter rand cik aliasText valueText) ccPost
      counter rand (dataport aliasText cik) (some valueText) ∧
    EncodesRequest (exoBuildMsgActivate buffer.pdu counter rand vendor model serial) ccPost
      counter rand (provisioning vendor model serial) none := by
  have aliasShort := short aliasText (by simp)
  have vendorShort := short vendor (by simp)
  have modelShort := short model (by simp)
  have serialShort := short serial (by simp)
  have ascending : Ascending 0 (dataportOptions cik aliasText) :=
    ascending_dataportOptions (by decide) aliasShort
  have positive := positive_dataportOptions cik aliasText
  refine ⟨by rw [List.length_take, cikSize]; rfl, ?_, ?_, ?_, ?_⟩
  · rw [exoBuildMsgRead, optionText_eq aliasShort]
    exact buildMsg_encodes buffer ccGet counter rand none ascending positive
  · rw [exoBuildMsgObserve, optionText_eq aliasShort]
    refine buildMsg_encodes buffer ccGet counter rand none ?_ ?_
    · exact ⟨by decide, by decide, by decide, ascending_dataportOptions (by decide) aliasShort⟩
    · intro option member
      rcases List.mem_cons.mp member with rfl | member
      · decide
      · exact positive option member
  · rw [exoBuildMsgWrite, optionText_eq aliasShort]
    exact buildMsg_encodes buffer ccPost counter rand (some valueText) ascending positive
  · rw [exoBuildMsgActivate, optionText_eq vendorShort, optionText_eq modelShort,
      optionText_eq serialShort]
    exact buildMsg_encodes buffer ccPost counter rand none
      (ascending_provisioning vendorShort modelShort serialShort)
      (by simp [conUriPath])

/-- The alias "a" and the value "b", in a fresh buffer. -/
theorem builders_encode_quiet :
    ((List.replicate 41 0x30).take 40 : List UInt8).length = 40 ∧
    EncodesRequest (exoBuildMsgRead (quietBuffer []).pdu 7 0x2211 (List.replicate 41 0x30) [0x61])
      ccGet 7 0x2211 (dataport [0x61] (List.replicate 41 0x30)) none ∧
    EncodesRequest
      (exoBuildMsgObserve (quietBuffer []).pdu 7 0x2211 (List.replicate 41 0x30) [0x61])
      ccGet 7 0x2211 (⟨conObserve, [0]⟩ :: dataport [0x61] (List.replicate 41 0x30)) none ∧
    EncodesRequest
      (exoBuildMsgWrite (quietBuffer []).pdu 7 0x2211 (List.replicate 41 0x30) [0x61] [0x62])
      ccPost 7 0x2211 (dataport [0x61] (List.replicate 41 0x30)) (some [0x62]) ∧
    EncodesRequest (exoBuildMsgActivate (quietBuffer []).pdu 7 0x2211 [0x76] [0x6D] [0x73])
      ccPost 7 0x2211 (provisioning [0x76] [0x6D] [0x73]) none :=
  builders_encode (quietBuffer []) 7 0x2211 (List.replicate 41 0x30) [0x61] [0x62] [0x76] [0x6D]
    [0x73] rfl (by decide)

/-! ## The stack buffer -/

/-- Only bytes of the buffer have changed, and the packet is a packet in it. -/
structure InsideBuffer (pdu after : CoapPdu) : Prop extends Frame pdu after where
  len_ge : 4 ≤ after.len
  len_le : after.len ≤ minimumDatagramSize

/-- The call returns, so it has accessed mapped bytes only, and has stayed inside the
buffer. -/
def StaysInside {Status : Type} (buffer : Buffer) (built : Exec (Status × CoapPdu)) : Prop :=
  ∃ status after, built = .ok (status, after) ∧ InsideBuffer buffer.pdu after

/-- The length of everything that is sent. -/
def AllSized (log : List Event) : Prop :=
  ∀ cause datagram ok, .sent cause datagram ok ∈ log →
    4 ≤ datagram.length ∧ datagram.length ≤ minimumDatagramSize

theorem sized_of_simulates {floor : Nat} {pdu : CoapPdu} {message : Message}
    (simulates : Simulates minimumDatagramSize floor pdu message) :
    pdu.len = message.encode.length ∧ 4 ≤ message.encode.length ∧
      message.encode.length ≤ minimumDatagramSize := by
  have len := simulates.holds.len_eq
  have header := simulates.holds.four_le
  have inBuffer := simulates.holds.len_le
  rw [simulates.sameMax] at inBuffer
  omega

theorem insideBuffer_of_simulates {floor : Nat} {pdu after : CoapPdu} {message : Message}
    (simulates : Simulates minimumDatagramSize floor after message) (frame : Frame pdu after) :
    InsideBuffer pdu after := by
  obtain ⟨len, lower, upper⟩ := sized_of_simulates simulates
  exact { frame with len_ge := by omega, len_le := by omega }

theorem buildMsg_insideBuffer (buffer : Buffer) {calls : List Call} (inOrder : InOrder 0 calls)
    (once : PayloadOnce minimumDatagramSize ping calls) :
    StaysInside buffer (buildMsg buffer.pdu calls) := by
  obtain ⟨err, after, built, simulates, -⟩ := buildMsg_simulates buffer inOrder once
  refine ⟨err, after, built, insideBuffer_of_simulates simulates ?_⟩
  obtain ⟨ready, initialised, frame, start⟩ := buffer.init
  rw [buildMsg, initialised, Exec.ok_bind] at built
  obtain ⟨⟨ok, last⟩, ran, built⟩ := Exec.bind_eq_ok.mp built
  cases built
  exact frame.trans (runCalls_frame start inOrder once ran)

/-- Every request builder, with options in order. -/
theorem buildRequest_insideBuffer (buffer : Buffer) (code : UInt8) (counter : UInt16)
    (rand : UInt64) {options : List Opt} (payload : Option (List UInt8))
    (ascending : Ascending 0 options) (positive : ∀ option ∈ options, 1 ≤ option.num) :
    StaysInside buffer (buildMsg buffer.pdu (requestCalls code counter rand options payload)) :=
  buildMsg_insideBuffer buffer (inOrder_requestCalls code counter rand payload ascending positive)
    (payloadOnce_requestCalls code counter rand options payload)

section Requests

variable {env : SlotEnv} {sys after : Sys} {op : ExoOp} {request : Request} {pdu : CoapPdu}

/-- A request packet is patched for a retransmission, with any token length. -/
theorem exoBuildRequest_patched
    (built : exoBuildRequest env sys op = .ok (some (request, pdu))) :
    InsideBuffer env.pdu pdu ∧ ∃ midErr withMid tokenErr again floor message,
      coapSetMid pdu op.mid = .ok (midErr, withMid) ∧
      coapSetToken withMid op.token.toNat op.tkl.toNat = .ok (tokenErr, again) ∧
      InsideBuffer env.pdu withMid ∧ InsideBuffer env.pdu again ∧
      Simulates minimumDatagramSize floor again message := by
  obtain ⟨floor, message, simulates, -⟩ := exoBuildRequest_spec built
  obtain ⟨-, -, code, options, err, ran, -, ascending, positive, -⟩ := exoBuildRequest_calls built
  obtain ⟨status, same, isBuilt, inside⟩ := buildRequest_insideBuffer env.toBuffer code
    sys.messageIdCounter env.rand request.payload ascending positive
  rw [ran] at isBuilt
  cases isBuilt
  obtain ⟨midErr, withMid, setMid, midFrame, first⟩ := simulates.setMid op.mid
  obtain ⟨tokenErr, again, next, setToken, tokenFrame, second, -⟩ :=
    first.setToken op.token op.tkl
  have frame := inside.toFrame.trans midFrame
  exact ⟨inside, midErr, withMid, tokenErr, again, _, _, setMid, setToken,
    insideBuffer_of_simulates first frame,
    insideBuffer_of_simulates second (frame.trans tokenFrame), second⟩

theorem Transmits.sized {datagram : List UInt8} {first : Bool}
    (transmits : Transmits env sys op request datagram first) :
    4 ≤ datagram.length ∧ datagram.length ≤ minimumDatagramSize := by
  cases transmits with
  | first _ built bytes =>
      obtain ⟨floor, message, simulates, -⟩ := exoBuildRequest_spec built
      rw [simulates.datagram_eq bytes]
      exact (sized_of_simulates simulates).2
  | again _ _ built setMid setToken bytes =>
      obtain ⟨-, midErr, withMid, tokenErr, again, floor, message, isMid, isToken, -, -,
        simulates⟩ := exoBuildRequest_patched built
      rw [isMid] at setMid
      cases setMid
      rw [isToken] at setToken
      cases setToken
      rw [simulates.datagram_eq bytes]
      exact (sized_of_simulates simulates).2

theorem Outgoing.sized {cause : Cause} {datagram : List UInt8}
    (outgoing : Outgoing sys cause datagram) :
    4 ≤ datagram.length ∧ datagram.length ≤ minimumDatagramSize := by
  cases outgoing with
  | request _ transmits => exact transmits.sized
  | @rst _ mid token tkl _ _ _ _ short =>
      have small : (UInt8.ofNat tkl).toNat ≤ 8 := by
        rw [UInt8.toNat_ofNat']
        omega
      rw [Message.encode_length, Message.body_length]
      simp only [rstMessage, leBytes_length, encodeOptions, Message.payloadBytes,
        List.length_nil, minimumDatagramSize]
      omega
  | @ack _ op =>
      have size : (ackMessage op.mid).encode.length = 4 := rfl
      rw [size]
      exact ⟨Nat.le_refl 4, by decide⟩

theorem RunStep.allSized (step : RunStep sys after) (sized : AllSized sys.log) :
    AllSized after.log := by
  intro cause datagram ok sent
  cases step with
  | lib _ step =>
      rcases step.sent sent with old | new
      · exact sized cause datagram ok old
      · exact new.sized
  | user step =>
      apply sized cause datagram ok
      cases step with
      | initialised => simpa using sent
      | queued => simpa using sent
      | opDone => simpa using sent
      | _ => exact sent

theorem run_allSized {calls : List UserCall} (ran : run sys calls = .ok after)
    (sized : AllSized sys.log) : AllSized after.log := by
  have steps := run_runSteps ran
  clear ran
  induction steps with
  | refl => exact sized
  | tail _ step ih => exact step.allSized ih

end Requests

/-- For strings of any length and any ops, the builders, what is patched into a request
that is sent again, and the reset that answers a datagram stay inside their stack buffer, and
everything that is sent has between 4 and 576 bytes. -/
theorem outgoing_insideBuffer :
    (∀ (buffer : Buffer) (counter : UInt16) (rand : UInt64)
      (cik aliasText valueText vendor model serial : List UInt8),
      StaysInside buffer (exoBuildMsgRead buffer.pdu counter rand cik aliasText) ∧
      StaysInside buffer (exoBuildMsgObserve buffer.pdu counter rand cik aliasText) ∧
      StaysInside buffer (exoBuildMsgWrite buffer.pdu counter rand cik aliasText valueText) ∧
      StaysInside buffer (exoBuildMsgActivate buffer.pdu counter rand vendor model serial) ∧
      StaysInside buffer (exoBuildMsgAck buffer.pdu counter)) ∧
    (∀ (env : SlotEnv) (sys : Sys) (op : ExoOp) (request : Request) (pdu : CoapPdu),
      exoBuildRequest env sys op = .ok (some (request, pdu)) → InsideBuffer env.pdu pdu ∧
        ∃ midErr withMid tokenErr again, coapSetMid pdu op.mid = .ok (midErr, withMid) ∧
          coapSetToken withMid op.token.toNat op.tkl.toNat = .ok (tokenErr, again) ∧
          InsideBuffer env.pdu withMid ∧ InsideBuffer env.pdu again) ∧
    (∀ (rx : Received) (mid : UInt16) (token : UInt64) (tkl : UInt8),
      StaysInside rx.toBuffer (exoBuildMsgRst rx.pdu mid token tkl)) ∧
    ∀ (sys after : Sys) (calls : List UserCall), run sys calls = .ok after →
      AllSized sys.log → AllSized after.log := by
  refine ⟨?_, ?_, ?_, ?_⟩
  · intro buffer counter rand cik aliasText valueText vendor model serial
    have ascending : Ascending 0 (dataportOptions cik (optionText aliasText)) :=
      ascending_dataportOptions (by decide) (optionText_length aliasText)
    have positive := positive_dataportOptions cik (optionText aliasText)
    refine ⟨buildRequest_insideBuffer buffer ccGet counter rand none ascending positive, ?_,
      buildRequest_insideBuffer buffer ccPost counter rand (some valueText) ascending positive,
      ?_, ?_⟩
    · have request := Request.ascending_added ⟨.subscribe, aliasText, [], cik⟩
      have numbers := Request.positive_added ⟨.subscribe, aliasText, [], cik⟩
      exact buildRequest_insideBuffer buffer ccGet counter rand none request numbers
    · exact buildRequest_insideBuffer buffer ccPost counter rand none
        (ascending_provisioning (optionText_length vendor) (optionText_length model)
          (optionText_length serial))
        (by simp [conUriPath])
    · exact buildMsg_insideBuffer buffer ⟨trivial, trivial, trivial, trivial, trivial⟩
        ⟨trivial, trivial, trivial, trivial, trivial⟩
  · intro env sys op request pdu built
    obtain ⟨inside, midErr, withMid, tokenErr, again, -, -, setMid, setToken, first, second, -⟩ :=
      exoBuildRequest_patched built
    exact ⟨inside, midErr, withMid, tokenErr, again, setMid, setToken, first, second⟩
  · intro rx mid token tkl
    exact buildMsg_insideBuffer rx.toBuffer ⟨trivial, trivial, trivial, trivial, trivial, trivial⟩
      ⟨trivial, trivial, trivial, trivial, trivial, trivial⟩
  · intro sys after calls ran sized
    exact run_allSized ran sized

/-- A value that does not fit is left out, and what is sent stays in the bounds. -/
theorem outgoing_insideBuffer_longValue : ∃ after,
    run (powerOn 2 longHeap) writeCalls = .ok after ∧ after.log ≠ [] ∧ AllSized after.log := by
  have computed : (run (powerOn 2 longHeap) writeCalls).map (fun after => after.log.isEmpty) =
      .ok false := by decide +kernel
  obtain ⟨after, ran, nonempty⟩ := Exec.map_eq_ok.mp computed
  refine ⟨after, ran, by simpa using nonempty, ?_⟩
  exact outgoing_insideBuffer.2.2.2 _ after writeCalls ran (by simp [AllSized, powerOn])

end ExositeCoap.Exosite
