import ExositeCoap.Exosite.Repeat
import ExositeCoap.Exosite.Reply
import ExositeCoap.Exosite.Whole

/-!
# Datagrams that are sent

Every datagram of a run is the encoding of a message (`Outgoing`): a request, for the
first time or again, an acknowledgement, or a reset.  Two of these can be improper: a
request that writes the empty string ends in a bare payload marker, and a reset repeats
the token of the message that it answers, although an empty message has none.
-/

namespace ExositeCoap.Exosite

open Lib Wire Coap

/-- What is sent in a state, and why. -/
inductive Outgoing (sys : Sys) : Cause → List UInt8 → Prop where
  | request {env : SlotEnv} {slot : Nat} {op : ExoOp} {request : Request} {first : Bool}
      {datagram : List UInt8} (atSlot : sys.ops[slot]? = some op)
      (transmits : Transmits env sys op request datagram first) :
      Outgoing sys (.request slot first request) datagram
  | rst {rx : Received} {mid : UInt16} {token tkl : Nat}
      (valid : coapValidatePkt rx.pdu = .ok .ceNone) (unmatched : ∀ op ∈ sys.ops, Skips rx op)
      (isCon : coapGetType rx.pdu = .ok .con) (isTkl : coapGetTkl rx.pdu = .ok tkl)
      (short : tkl ≤ 8) (isMid : coapGetMid rx.pdu = .ok mid)
      (isToken : coapGetToken rx.pdu = .ok token) :
      Outgoing sys (.rst sys.ops rx.pdu)
        (rstMessage mid (UInt64.ofNat token) (UInt8.ofNat tkl)).encode
  | ack {slot : Nat} {op : ExoOp} (atSlot : sys.ops[slot]? = some op)
      (state : op.state = .subAck ∨ op.state = .subAckNew) :
      Outgoing sys (.ack slot) (ackMessage op.mid).encode

section Steps

variable {sys after : Sys} {cause : Cause} {datagram : List UInt8} {ok : Bool}

theorem TracesSkipped.not_sent {events : List Event} (traces : TracesSkipped sys events) :
    .sent cause datagram ok ∉ events := by
  intro member
  obtain ⟨slot, op, impossible, -⟩ := traces _ member
  cases impossible

/-- A reaction sends nothing. -/
theorem Reaction.sent_mem {rx : Received} {slot : Nat} {op : ExoOp}
    (reaction : Reaction rx sys slot op after) (sent : .sent cause datagram ok ∈ after.log) :
    .sent cause datagram ok ∈ sys.log := by
  cases reaction with
  | activated =>
      rcases List.mem_cons.mp sent with impossible | old
      · cases impossible
      · exact old
  | _ => exact sent

theorem Handling.sent {rx : Received} {goOn : Bool} (handling : Handling rx sys goOn after)
    (sent : .sent cause datagram ok ∈ after.log) :
    .sent cause datagram ok ∈ sys.log ∨ Outgoing sys cause datagram := by
  have logged : ∀ {events : List Event}, TracesSkipped sys events →
      .sent cause datagram ok ∈ (sys.logged events).log → .sent cause datagram ok ∈ sys.log :=
    fun traces member => (List.mem_append.mp member).resolve_left traces.not_sent
  cases handling with
  | invalid => exact Or.inl sent
  | taken _ traces _ _ round =>
      rcases List.mem_cons.mp sent with impossible | before
      · cases impossible
      · exact Or.inl (logged traces ((reaction_of_round round).2.sent_mem before))
  | @reset _ mid token tkl _ _ _ valid traces unmatched isCon isTkl isMid isToken built bytes =>
      rcases List.mem_cons.mp sent with same | before
      · cases same
        have short := tkl_le_of_valid valid isTkl
        rw [rst_datagram short built bytes]
        exact Or.inr (.rst valid unmatched isCon isTkl short isMid isToken)
      · rcases List.mem_cons.mp before with impossible | before
        · cases impossible
        · exact Or.inl (logged traces before)
  | dropped _ traces =>
      rcases List.mem_cons.mp sent with impossible | before
      · cases impossible
      · exact Or.inl (logged traces before)

theorem exoProcessOp_sent {now : UInt64} {env : SlotEnv} {i : Nat} {op : ExoOp}
    (atSlot : sys.ops[i]? = some op) (ran : exoProcessOp now env sys i op = .ok after)
    (sent : .sent cause datagram ok ∈ after.log) :
    .sent cause datagram ok ∈ sys.log ∨ Outgoing sys cause datagram := by
  by_cases acks : op.state = .subAck ∨ op.state = .subAckNew
  · rw [exoProcessOp_eq_ack now acks, exoSendAck_eq] at ran
    cases ran
    have newest : .sent cause datagram ok ∈
        .sent (.ack i) (ackMessage op.mid).encode env.sendOk :: sys.log := by
      cases isOk : env.sendOk with
      | true =>
          rw [isOk] at sent
          exact sent
      | false =>
          rw [isOk] at sent
          exact sent
    rcases List.mem_cons.mp newest with same | old
    · cases same
      exact Or.inr (.ack atSlot acks)
    · exact Or.inl old
  · have transmitted : ∀ {first success : Bool} {request : Request} {bytes : List UInt8},
        Transmits env sys op request bytes first →
        .sent cause datagram ok ∈ (sys.sentRequest i first request bytes success).log →
          .sent cause datagram ok ∈ sys.log ∨ Outgoing sys cause datagram := by
      intro first success request bytes transmits member
      rcases List.mem_cons.mp member with same | old
      · cases same
        exact Or.inr (.request atSlot transmits)
      · rcases List.mem_cons.mp old with impossible | old
        · cases impossible
        · exact Or.inl old
    cases exoProcessOp_cases ran with
    | unexpectedNew =>
        rcases List.mem_cons.mp sent with impossible | old
        · cases impossible
        · exact Or.inl old
    | unexpectedWait =>
        rcases List.mem_cons.mp sent with impossible | old
        · cases impossible
        · exact Or.inl old
    | sent state built bytes => exact transmitted (.first state built bytes) sent
    | unsent state built bytes => exact transmitted (.first state built bytes) sent
    | resent waits type _ built setMid setToken bytes =>
        exact transmitted (.again waits type built setMid setToken bytes) sent
    | unresent waits type built setMid setToken bytes =>
        exact transmitted (.again waits type built setMid setToken bytes) sent
    | acked isState => exact absurd (isState.imp And.left And.left) acks
    | unacked state => exact absurd state acks
    | _ => exact Or.inl sent

theorem CallStep.sent (step : CallStep sys after) (sent : .sent cause datagram ok ∈ after.log) :
    .sent cause datagram ok ∈ sys.log ∨ Outgoing sys cause datagram := by
  cases step with
  | received ran => exact (exoHandleDatagram_cases ran).sent sent
  | processed atSlot ran => exact exoProcessOp_sent atSlot ran sent
  | activated ran =>
      obtain ⟨first, -, ⟨-, rfl⟩ | ⟨-, rfl⟩⟩ := exoActivateFirst_cases ran
      · exact Or.inl sent
      · exact Or.inl sent

/-- Every datagram in the log was sent in some state of the run. -/
theorem reached_outgoing {count : Nat} {heap : Mem} (reached : RunSteps (powerOn count heap) after)
    (sent : .sent cause datagram ok ∈ after.log) :
    ∃ sys, SysSteps (powerOn count heap) sys ∧ Outgoing sys cause datagram := by
  induction reached with
  | refl => cases sent
  | @tail sys after before step ih =>
      cases step with
      | lib _ step =>
          rcases step.sent sent with old | new
          · exact ih old
          · exact ⟨sys, RunSteps.sysSteps before, new⟩
      | user step =>
          apply ih
          cases step with
          | initialised => simpa using sent
          | queued => simpa using sent
          | opDone => simpa using sent
          | _ => exact sent

/-! ## Proper datagrams -/

/-- A well-formed message; one with the code 0.00 is nothing but its header. -/
structure Proper (datagram : List UInt8) : Prop where
  wellFormed : WellFormed datagram
  bare : datagram[1]? = some ccEmpty → datagram.length = 4 ∧ tokenLength datagram = 0

/-- The datagram is an activation request, a reply, or a request that fits. -/
def Cause.InScope : Cause → Prop
  | .request _ _ asked => asked.type = .activate ∨ asked.Fits
  | .ack _ => True
  | .rst _ _ => True

theorem proper_encode {message : Message} (encodable : message.Encodable) :
    Proper message.encode ↔ message.payload ≠ some [] ∧
      (message.code = ccEmpty → message.encode.length = 4) := by
  have code : message.encode[1]? = some message.code := rfl
  constructor
  · rintro ⟨wellFormed, bare⟩
    refine ⟨encodable.wellFormed_iff.mp wellFormed, fun empty => ?_⟩
    exact (bare (by rw [code, empty])).1
  · rintro ⟨nonempty, bare⟩
    refine ⟨encodable.wellFormed_iff.mpr nonempty, fun empty => ?_⟩
    rw [code] at empty
    have size := bare (Option.some.inj empty)
    refine ⟨size, ?_⟩
    rw [Message.encode_length] at size
    rw [tokenLength_encode encodable]
    omega

theorem proper_ackMessage (mid : UInt16) : Proper (ackMessage mid).encode := by
  have encodable : (ackMessage mid).Encodable := ⟨by simp [ackMessage], trivial⟩
  exact (proper_encode encodable).mpr ⟨by rintro ⟨⟩, fun _ => rfl⟩

theorem proper_rstMessage {mid : UInt16} {token : UInt64} {tkl : UInt8} (short : tkl.toNat ≤ 8) :
    Proper (rstMessage mid token tkl).encode ↔ tkl.toNat = 0 := by
  have encodable : (rstMessage mid token tkl).Encodable :=
    ⟨by simpa [rstMessage] using short, trivial⟩
  have size : (rstMessage mid token tkl).encode.length = 4 + tkl.toNat := by
    rw [Message.encode_length]
    simp [rstMessage, Message.body, encodeOptions, Message.payloadBytes]
  rw [proper_encode encodable, size]
  constructor
  · rintro ⟨-, bare⟩
    have := bare rfl
    omega
  · intro none
    exact ⟨by rintro ⟨⟩, fun _ => by omega⟩

/-- The payload of an activation request, or of a request that fits. -/
theorem BuiltFor.payload_eq {op : ExoOp} {request : Request} {message : Message}
    (builtFor : BuiltFor sys op request message)
    (inScope : request.type = .activate ∨ request.Fits) : message.payload = request.payload := by
  by_cases activate : request.type = .activate
  · have none : request.payload = none := by simp [Request.payload, activate]
    rcases builtFor.payload with isNone | same
    · rw [isNone, none]
    · exact same
  · exact (builtFor.whole (builtFor.type ▸ activate) (inScope.resolve_left activate)).2

/-- Such a request is proper unless it writes the empty string. -/
theorem Transmits.proper_iff {env : SlotEnv} {op : ExoOp} {request : Request} {first : Bool}
    (transmits : Transmits env sys op request datagram first)
    (inScope : request.type = .activate ∨ request.Fits) (untokened : op.tkl = 0) :
    Proper datagram ↔ request.payload ≠ some [] := by
  cases transmits with
  | first _ built bytes =>
      obtain ⟨floor, message, simulates, builtFor⟩ := exoBuildRequest_spec built
      rw [simulates.datagram_eq bytes, proper_encode simulates.encodable,
        builtFor.payload_eq inScope]
      exact and_iff_left fun empty => absurd empty builtFor.code
  | again _ _ built setMid setToken bytes =>
      obtain ⟨floor, message, simulates, builtFor⟩ := exoBuildRequest_spec built
      have patched := simulates.patched setMid setToken (by rw [untokened]; exact Nat.zero_le _)
      rw [patched.datagram_eq bytes, proper_encode patched.encodable]
      dsimp only
      rw [builtFor.payload_eq inScope]
      exact and_iff_left fun empty => absurd empty builtFor.code

/-- In a run, all datagrams are proper exactly when no request writes the empty string
and no message that is answered with a reset has a token. -/
theorem run_proper_iff {count : Nat} {heap : Mem} {calls : List UserCall}
    (ran : run (powerOn count heap) calls = .ok after) :
    (∀ cause datagram ok, .sent cause datagram ok ∈ after.log → cause.InScope →
      Proper datagram) ↔
    (∀ slot request, .built slot request ∈ after.log → request.type = .write → request.Fits →
      request.valueText ≠ []) ∧
    ∀ ops pdu, .handled ops pdu ∈ after.log → coapGetType pdu = .ok .con →
      ¬ Recognised ops pdu → coapGetTkl pdu = .ok 0 := by
  have requests : RequestsLogged after := run_requestsLogged ran
  have replies : RepliesLogged after.log := run_repliesLogged ran
  have outgoing : ∀ {cause datagram ok}, .sent cause datagram ok ∈ after.log →
      ∃ sys, SysSteps (powerOn count heap) sys ∧ Outgoing sys cause datagram :=
    fun sent => reached_outgoing (run_runSteps ran) sent
  have small : ∀ {tkl : Nat}, tkl ≤ 8 → (UInt8.ofNat tkl).toNat = tkl := by
    intro tkl short
    rw [UInt8.toNat_ofNat']
    omega
  constructor
  · intro proper
    refine ⟨?_, ?_⟩
    · intro slot request built isWrite fits empty
      obtain ⟨first, datagram, ok, sent⟩ := requests.built built
      obtain ⟨sys, reached, isSent⟩ := outgoing sent
      cases isSent with
      | request atSlot transmits =>
          apply (transmits.proper_iff (Or.inr fits) (untokened_of_reached reached atSlot)).mp
            (proper _ _ _ sent (Or.inr fits))
          rw [Request.payload, if_pos isWrite, empty]
    · intro ops pdu handled isCon unknown
      obtain ⟨datagram, ok, sent⟩ := (replies.replied handled isCon).resolve_left unknown
      obtain ⟨sys, reached, isSent⟩ := outgoing sent
      cases isSent with
      | rst _ _ _ isTkl short =>
          have none := (proper_rstMessage (by rw [small short]; exact short)).mp
            (proper _ _ _ sent trivial)
          rw [isTkl, ← small short, none]
  · rintro ⟨nonempty, untokened⟩ cause datagram ok sent inScope
    obtain ⟨sys, reached, isSent⟩ := outgoing sent
    cases isSent with
    | @request _ slot op request first _ atSlot transmits =>
        rw [transmits.proper_iff inScope (untokened_of_reached reached atSlot), Request.payload]
        split_ifs with isWrite
        · have fits : request.Fits := inScope.resolve_left (by simp [isWrite])
          have value := nonempty slot request (requests.sent sent).1 isWrite fits
          simpa using value
        · rintro ⟨⟩
    | rst _ _ isCon isTkl short =>
        obtain ⟨handled, unknown⟩ := replies.unrecognised sent isCon
        have none := untokened _ _ handled isCon unknown
        rw [isTkl] at none
        cases none
        exact (proper_rstMessage (by decide)).mpr rfl
    | ack => exact proper_ackMessage _

end Steps

/-- The user writes the empty string at address 2. -/
def emptyWrite : List UserCall := [quietInit, .write 1 1 2, quietOperate []]

/-- What is written. -/
def emptyRequest : Request := ⟨.write, [0x61], [], List.replicate 40 0x30 ++ [0]⟩

/-- The message for it, which ends in a payload marker. -/
def emptyMessage : Message :=
  requestMessage ccPost 8 0x2211 emptyRequest.options emptyRequest.payload

theorem not_proper_emptyWrite : ∃ after, run (powerOn 2 quietHeap) emptyWrite = .ok after ∧
    ¬ ∀ cause datagram ok, .sent cause datagram ok ∈ after.log → cause.InScope →
      Proper datagram := by
  have computed : (run (powerOn 2 quietHeap) emptyWrite).map (fun after => after.log.head?) =
      .ok (some (.sent (.request 1 true emptyRequest) emptyMessage.encode true)) := by
    decide +kernel
  obtain ⟨after, ran, newest⟩ := Exec.map_eq_ok.mp computed
  refine ⟨after, ran, fun proper => ?_⟩
  have encodable : emptyMessage.Encodable :=
    ⟨by decide, ascending_dataportOptions (by decide) (by decide)⟩
  have isProper := proper _ _ _ (List.mem_of_mem_head? newest) (Or.inr (by decide))
  exact encodable.wellFormed_iff.mp isProper.wellFormed rfl

/-- Something is written, and a confirmable message without token is reset. -/
theorem run_proper_iff_write : ∃ after,
    run (powerOn 2 quietHeap) [quietInit, .write 1 1 1, quietOperate [[0x40, 0x01, 0, 99]]] =
      .ok after ∧
      ∀ cause datagram ok, .sent cause datagram ok ∈ after.log → cause.InScope →
        Proper datagram := by
  have computed : (run (powerOn 2 quietHeap)
      [quietInit, .write 1 1 1, quietOperate [[0x40, 0x01, 0, 99]]]).map
        (fun after => after.log.all fun event => match event with
          | .built _ request => decide (request.type = .write → request.Fits →
              request.valueText ≠ [])
          | .handled ops pdu => decide (coapGetType pdu = .ok .con → ¬ Recognised ops pdu →
              coapGetTkl pdu = .ok 0)
          | _ => true) = .ok true := by decide +kernel
  obtain ⟨after, ran, all⟩ := Exec.map_eq_ok.mp computed
  refine ⟨after, ran, (run_proper_iff ran).mpr ⟨?_, ?_⟩⟩
  · intro slot request built
    exact of_decide_eq_true (List.all_eq_true.mp all _ built)
  · intro ops pdu handled
    exact of_decide_eq_true (List.all_eq_true.mp all _ handled)

end ExositeCoap.Exosite
