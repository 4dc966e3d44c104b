import ExositeCoap.Coap.Validate
import ExositeCoap.Coap.Write

/-!
# The in-place API against abstract messages

A sequence of setter calls is run twice: on the bytes of a packet and on an
abstract message, where a call takes effect exactly when the encoding of the
result fits.  `Conforms` compares the two after every call, through the getters.
Options come in order; a second payload is where the two part.
-/

namespace ExositeCoap.Coap

open Lib Wire

/-- A setter call with its arguments; the version is always `COAP_V1`. -/
inductive Call where
  | setVersion
  | setType (mtype : CoapType)
  | setCode (code : UInt8)
  | setMid (mid : UInt16)
  | setToken (token : UInt64) (tkl : UInt8)
  | addOption (num : Nat) (value : List UInt8)
  | setPayload (payload : List UInt8)
  deriving DecidableEq, Repr

namespace Call

/-- The call on the packet. -/
def run (pdu : CoapPdu) : Call → Exec SetterResult
  | setVersion => coapSetVersion pdu coapV1
  | setType mtype => coapSetType pdu mtype
  | setCode code => coapSetCode pdu code
  | setMid mid => coapSetMid pdu mid
  | setToken token tkl => coapSetToken pdu token.toNat tkl.toNat
  | addOption num value => coapAddOption pdu num value value.length
  | setPayload payload => coapSetPayload pdu payload

/-- The call on the abstract message, as if there were room. -/
def apply (message : Message) : Call → Message
  | setVersion => message
  | setType mtype => { message with kind := mtype }
  | setCode code => { message with code }
  | setMid mid => { message with mid }
  | setToken token tkl => { message with token := leBytes tkl.toNat token.toNat }
  | addOption num value => { message with options := message.options ++ [⟨num, value⟩] }
  | setPayload payload => { message with payload := some payload }

/-- The resulting encoding fits, and its token is not too long. -/
def Fits (max : Nat) (message : Message) (call : Call) : Prop :=
  (call.apply message).encode.length ≤ max ∧ (call.apply message).token.length ≤ 8

instance (max : Nat) (message : Message) (call : Call) : Decidable (call.Fits max message) :=
  inferInstanceAs (Decidable (_ ∧ _))

/-- The message after the call. -/
def next (max : Nat) (message : Message) (call : Call) : Message :=
  if call.Fits max message then call.apply message else message

/-- Arguments in range; options not before number `floor`. -/
def Ordered (floor : Nat) : Call → Prop
  | addOption num value => 1 ≤ num ∧ floor ≤ num ∧ num ≤ 65535 ∧ value.length ≤ 65535
  | _ => True

instance (floor : Nat) : (call : Call) → Decidable (call.Ordered floor)
  | addOption _ _ => inferInstanceAs (Decidable (_ ∧ _))
  | setVersion | setType _ | setCode _ | setMid _ | setToken _ _ | setPayload _ =>
    isTrue trivial

/-- The least option number that may follow. -/
def raise (floor : Nat) : Call → Nat
  | addOption num _ => num
  | _ => floor

/-- A payload is set where there is none, or is too long for the buffer. -/
def FirstPayload (max : Nat) (message : Message) : Call → Prop
  | setPayload payload =>
      message.payload.isSome → ¬ (setPayload payload).Fits max message
  | _ => True

instance (max : Nat) (message : Message) :
    (call : Call) → Decidable (call.FirstPayload max message)
  | setPayload _ => inferInstanceAs (Decidable (_ → _))
  | setVersion | setType _ | setCode _ | setMid _ | setToken _ _ | addOption _ _ =>
    isTrue trivial

end Call

/-- Option numbers never decrease along the calls. -/
def InOrder (floor : Nat) : List Call → Prop
  | [] => True
  | call :: rest => call.Ordered floor ∧ InOrder (call.raise floor) rest

instance decidableInOrder (floor : Nat) : (calls : List Call) → Decidable (InOrder floor calls)
  | [] => isTrue trivial
  | call :: rest =>
    have := decidableInOrder (call.raise floor) rest
    inferInstanceAs (Decidable (_ ∧ _))

/-- No call replaces a payload by one that would fit. -/
def PayloadOnce (max : Nat) (message : Message) : List Call → Prop
  | [] => True
  | call :: rest => call.FirstPayload max message ∧ PayloadOnce max (call.next max message) rest

instance decidablePayloadOnce (max : Nat) (message : Message) :
    (calls : List Call) → Decidable (PayloadOnce max message calls)
  | [] => isTrue trivial
  | call :: rest =>
    have := decidablePayloadOnce max (call.next max message) rest
    inferInstanceAs (Decidable (_ ∧ _))

/-- Every call succeeds exactly when its result fits, changes nothing when it
fails, and leaves a packet in which the getters see the abstract message. -/
def Conforms (max : Nat) (pdu : CoapPdu) (message : Message) : List Call → Prop
  | [] => True
  | call :: rest => ∃ err after, call.run pdu = .ok (err, after) ∧
      (err = .ceNone ↔ call.Fits max message) ∧
      (err ≠ .ceNone → after.packet = pdu.packet ∧ after.len = pdu.len) ∧
      Observes after (call.next max message) ∧
      Conforms max after (call.next max message) rest

/-- Number of `coap_set_payload` calls that return `CE_NONE`. -/
def payloadsSet (pdu : CoapPdu) : List Call → Exec Nat
  | [] => pure 0
  | call :: rest => do
    let (err, after) ← call.run pdu
    let more ← payloadsSet after rest
    match call with
    | .setPayload _ => return if err = .ceNone then more + 1 else more
    | _ => return more

/-- The whole sequence, `coap_init_pdu` first. -/
def Refines (pdu : CoapPdu) (calls : List Call) : Prop :=
  ∃ after, coapInitPdu pdu = .ok (.ceNone, after) ∧ Observes after ping ∧
    Conforms pdu.max after ping calls

/-- `coap_set_payload` returns `CE_NONE` at most once in the sequence. -/
def SetsPayloadOnce (pdu : CoapPdu) (calls : List Call) : Prop :=
  ∃ count, (coapInitPdu pdu >>= fun result => payloadsSet result.2 calls) = .ok count ∧ count ≤ 1

/-! ## One call -/

/-- What is kept from call to call. -/
structure Simulates (max floor : Nat) (pdu : CoapPdu) (message : Message) : Prop where
  holds : pdu.Holds message
  encodable : message.Encodable
  nonzero : ∀ option ∈ message.options, option.num ≠ 0
  ordered : lastNum 0 message.options ≤ floor
  sameMax : pdu.max = max

theorem Simulates.observes {max floor : Nat} {pdu : CoapPdu} {message : Message}
    (simulates : Simulates max floor pdu message) : Observes pdu message :=
  simulates.holds.observes simulates.encodable simulates.nonzero

section OneCall

variable {max floor : Nat} {pdu : CoapPdu} {message : Message} {call : Call}
  (simulates : Simulates max floor pdu message) (ordered : call.Ordered floor)

include simulates ordered

/-- A call with room for its result writes it. -/
theorem Call.run_writes (first : call.FirstPayload max message)
    (fits : call.Fits max message) : Writes (call.run pdu) pdu (call.apply message) := by
  obtain ⟨holds, encodable, -, last, rfl⟩ := simulates
  cases call with
  | setVersion => exact coapSetVersion_writes holds encodable
  | setType mtype => exact coapSetType_writes holds encodable mtype
  | setCode code => exact coapSetCode_writes holds encodable code
  | setMid mid => exact coapSetMid_writes holds encodable mid
  | setToken token tkl =>
      obtain ⟨room, short⟩ := fits
      simp only [Call.apply, Message.encode_length, leBytes_length] at room short
      exact coapSetToken_writes holds encodable _ short room
  | addOption num value =>
      exact coapAddOption_writes holds encodable (Nat.le_trans last ordered.2.1) fits.1
  | setPayload payload =>
      have none : message.payload = none := by
        by_contra some
        exact first (Option.isSome_iff_ne_none.mpr some) fits
      exact coapSetPayload_writes holds encodable none fits.1

/-- A call without room for its result leaves the packet alone. -/
theorem Call.run_rejects (unfit : ¬ call.Fits max message) : Rejects (call.run pdu) pdu := by
  obtain ⟨holds, encodable, -, last, rfl⟩ := simulates
  have token := encodable.token_le
  have sameSize : ∀ changed : Message, changed.token = message.token →
      changed.body = message.body → changed.encode.length ≤ pdu.max := by
    intro changed sameToken sameBody
    rw [Message.encode_length, sameToken, sameBody, ← Message.encode_length, ← holds.len_eq]
    exact holds.len_le
  cases call with
  | setVersion | setType | setCode | setMid =>
      exact absurd ⟨sameSize _ rfl rfl, token⟩ unfit
  | setToken token tkl =>
      apply coapSetToken_rejects holds encodable
      rintro ⟨room, short⟩
      refine unfit ⟨?_, ?_⟩
      · simp only [Call.apply, Message.encode_length, leBytes_length]
        exact room
      · simpa only [Call.apply, leBytes_length] using short
  | addOption num value =>
      apply coapAddOption_rejects holds encodable (Nat.le_trans last ordered.2.1)
      by_contra room
      exact unfit ⟨Nat.le_of_not_lt room, token⟩
  | setPayload payload =>
      apply coapSetPayload_rejects holds encodable
      by_contra room
      exact unfit ⟨Nat.le_of_not_lt room, token⟩

/-- The abstract call keeps messages encodable. -/
theorem Call.apply_encodable (short : (call.apply message).token.length ≤ 8) :
    (call.apply message).Encodable ∧ (∀ option ∈ (call.apply message).options, option.num ≠ 0) ∧
      lastNum 0 (call.apply message).options ≤ call.raise floor := by
  obtain ⟨-, encodable, nonzero, last, -⟩ := simulates
  cases call with
  | setVersion | setType | setCode | setMid | setToken | setPayload =>
      exact ⟨⟨short, encodable.ascending⟩, nonzero, last⟩
  | addOption num value =>
      obtain ⟨positive, lower, upper, length⟩ := ordered
      refine ⟨⟨short, ?_⟩, ?_, ?_⟩
      · exact ascending_append.mpr ⟨encodable.ascending, by dsimp only; omega, upper, length, trivial⟩
      · intro option member
        rcases List.mem_append.mp member with old | new
        · exact nonzero option old
        · rw [List.mem_singleton.mp new]
          exact Nat.ne_of_gt positive
      · apply lastNum_le (Nat.zero_le _)
        intro option member
        rcases List.mem_append.mp member with old | new
        · have := encodable.ascending.num_le_lastNum option old
          rw [Call.raise]
          omega
        · rw [List.mem_singleton.mp new]
          exact Nat.le_refl _

/-- One call: the packet and the message move on together. -/
theorem Simulates.step (first : call.FirstPayload max message) :
    ∃ err after, call.run pdu = .ok (err, after) ∧
      (err = .ceNone ↔ call.Fits max message) ∧ (err ≠ .ceNone → after = pdu) ∧
        Simulates max (call.raise floor) after (call.next max message) := by
  by_cases fits : call.Fits max message
  · obtain ⟨after, ran, holds, frame⟩ := Call.run_writes simulates ordered first fits
    obtain ⟨encodable, nonzero, last⟩ := Call.apply_encodable simulates ordered fits.2
    refine ⟨.ceNone, after, ran, by simp [fits], by simp, ?_⟩
    rw [Call.next, if_pos fits]
    exact ⟨holds, encodable, nonzero, last, frame.max.trans simulates.sameMax⟩
  · obtain ⟨err, isError, ran⟩ := Call.run_rejects simulates ordered fits
    refine ⟨err, pdu, ran, by simp [isError, fits], fun _ => rfl, ?_⟩
    rw [Call.next, if_neg fits]
    refine { simulates with ordered := Nat.le_trans simulates.ordered ?_ }
    cases call with
    | setVersion | setType | setCode | setMid | setToken | setPayload => exact Nat.le_refl _
    | addOption => exact ordered.2.1

/-- A call writes inside the buffer. -/
theorem Simulates.frame (first : call.FirstPayload max message) {err : CoapError}
    {after : CoapPdu} (ran : call.run pdu = .ok (err, after)) : Frame pdu after := by
  by_cases fits : call.Fits max message
  · obtain ⟨other, written, -, frame⟩ := Call.run_writes simulates ordered first fits
    rw [written] at ran
    cases ran
    exact frame
  · obtain ⟨error, -, rejected⟩ := Call.run_rejects simulates ordered fits
    rw [rejected] at ran
    cases ran
    exact Frame.refl pdu

end OneCall

/-- A setter call that is not about the body leaves options and payload. -/
theorem Simulates.keepsBody {max floor : Nat} {pdu after : CoapPdu} {message : Message}
    {err : CoapError} (simulates : Simulates max floor pdu message) (call : Call)
    (ordered : call.Ordered floor) (once : call.FirstPayload max message)
    (ran : call.run pdu = .ok (err, after))
    (options : (call.apply message).options = message.options)
    (payload : (call.apply message).payload = message.payload) :
    ∃ next, Simulates max (call.raise floor) after next ∧ next.options = message.options ∧
      next.payload = message.payload := by
  obtain ⟨result, reached, stepped, -, -, next⟩ := simulates.step ordered once
  rw [stepped] at ran
  cases ran
  refine ⟨_, next, ?_⟩
  unfold Call.next
  split_ifs
  · exact ⟨options, payload⟩
  · exact ⟨rfl, rfl⟩

section Patched

variable {max floor : Nat} {pdu : CoapPdu} {message : Message}
  (simulates : Simulates max floor pdu message)

include simulates

/-- The message id is replaced. -/
theorem Simulates.setMid (mid : UInt16) :
    ∃ err after, coapSetMid pdu mid = .ok (err, after) ∧ Frame pdu after ∧
      Simulates max floor after { message with mid } := by
  obtain ⟨err, after, ran, -, -, next⟩ :=
    @Simulates.step _ _ _ _ (.setMid mid) simulates trivial trivial
  have room := simulates.holds.len_le
  rw [simulates.holds.len_eq, simulates.sameMax, Message.encode_length] at room
  have fits : Call.Fits max message (.setMid mid) :=
    ⟨by rw [Message.encode_length]; exact room, simulates.encodable.token_le⟩
  rw [Call.next, if_pos fits] at next
  exact ⟨err, after, ran, @Simulates.frame _ _ _ _ (.setMid mid) simulates trivial trivial _ _ ran,
    next⟩

/-- The token is replaced, or left if there is no room for the new one. -/
theorem Simulates.setToken (token : UInt64) (tkl : UInt8) :
    ∃ err after next, coapSetToken pdu token.toNat tkl.toNat = .ok (err, after) ∧
      Frame pdu after ∧ Simulates max floor after next ∧ next.mid = message.mid := by
  obtain ⟨err, after, ran, -, -, next⟩ :=
    @Simulates.step _ _ _ _ (.setToken token tkl) simulates trivial trivial
  refine ⟨err, after, _, ran,
    @Simulates.frame _ _ _ _ (.setToken token tkl) simulates trivial trivial _ _ ran, next, ?_⟩
  unfold Call.next
  split_ifs <;> rfl

/-- The message id and the token are replaced, the token by one that is not longer. -/
theorem Simulates.patched {withMid after : CoapPdu} {midErr tokenErr : CoapError} {mid : UInt16}
    {token : UInt64} {tkl : UInt8} (setMid : coapSetMid pdu mid = .ok (midErr, withMid))
    (setToken : coapSetToken withMid token.toNat tkl.toNat = .ok (tokenErr, after))
    (short : tkl.toNat ≤ message.token.length) :
    Simulates max floor after
      { message with mid, token := leBytes tkl.toNat token.toNat } := by
  have room := simulates.holds.len_le
  have tokenBound := simulates.encodable.token_le
  rw [simulates.holds.len_eq, simulates.sameMax, Message.encode_length] at room
  obtain ⟨err, reached, stepped, -, first⟩ := simulates.setMid mid
  rw [stepped] at setMid
  cases setMid
  obtain ⟨err, reached, stepped, -, -, second⟩ :=
    @Simulates.step _ _ _ _ (.setToken token tkl) first trivial trivial
  rw [show coapSetToken _ token.toNat tkl.toNat = _ from stepped] at setToken
  cases setToken
  have tokenFits : Call.Fits max { message with mid } (.setToken token tkl) := by
    refine ⟨?_, ?_⟩
    · have size := Message.encode_length
        (Call.apply { message with mid } (.setToken token tkl))
      simp only [Call.apply, leBytes_length, Message.body] at size room ⊢
      omega
    · simp only [Call.apply, leBytes_length]
      omega
  rw [Call.next, if_pos tokenFits] at second
  exact second

end Patched

/-- The bytes of the packet are the encoding of the message. -/
theorem Simulates.slice_eq {max floor : Nat} {pdu : CoapPdu} {message : Message}
    (simulates : Simulates max floor pdu message) :
    pdu.mem.slice 0 pdu.len = .ok message.encode := by
  have whole := @Mem.slice_of_drop pdu.mem (pdu.mem.take pdu.len) (pdu.mem.drop pdu.len) 0
    (by rw [List.drop_zero, List.take_append_drop])
  rwa [simulates.holds.bytes, ← simulates.holds.len_eq] at whole

theorem Simulates.datagram_eq {max floor : Nat} {pdu : CoapPdu} {message : Message}
    {datagram : List UInt8} (simulates : Simulates max floor pdu message)
    (bytes : pdu.mem.slice 0 pdu.len = .ok datagram) : datagram = message.encode := by
  rw [simulates.slice_eq] at bytes
  exact (Except.ok.inj bytes).symm

/-! ## All calls -/

theorem Simulates.conforms {max floor : Nat} {pdu : CoapPdu} {message : Message}
    {calls : List Call} (simulates : Simulates max floor pdu message)
    (inOrder : InOrder floor calls) (once : PayloadOnce max message calls) :
    Conforms max pdu message calls := by
  induction calls generalizing floor pdu message with
  | nil => trivial
  | cons call rest ih =>
      obtain ⟨err, after, ran, status, unchanged, next⟩ :=
        simulates.step inOrder.1 once.1
      refine ⟨err, after, ran, status, ?_, next.observes, ih next inOrder.2 once.2⟩
      intro isError
      rw [unchanged isError]
      exact ⟨rfl, rfl⟩

/-- Sequences with options in order and no payload replaced by one that would fit
refine the abstract message, for every buffer of at least four bytes. -/
theorem refines_of_payloadOnce (pdu : CoapPdu) (calls : List Call) (room : 4 ≤ pdu.max)
    (mapped : pdu.max ≤ pdu.mem.length) (bounded : pdu.mem.length < 2 ^ 63)
    (inOrder : InOrder 0 calls) (once : PayloadOnce pdu.max ping calls) :
    Refines pdu calls := by
  obtain ⟨after, initialised, holds, frame⟩ := coapInitPdu_writes room mapped bounded
  have simulates : Simulates pdu.max 0 after ping :=
    ⟨holds, ping_encodable, by simp [ping], Nat.le_refl _, frame.max⟩
  exact ⟨after, initialised, simulates.observes, simulates.conforms inOrder once⟩

theorem Call.next_payload {max : Nat} {message : Message} {call : Call}
    (other : ∀ payload, call ≠ .setPayload payload) :
    (call.next max message).payload = message.payload := by
  unfold Call.next
  split_ifs
  · cases call with
    | setPayload payload => exact absurd rfl (other payload)
    | _ => rfl
  · rfl

/-- Where every call does what it should, the payloads that are set tell whether one of them
replaces another. -/
theorem Conforms.payloadsSet {max : Nat} {pdu : CoapPdu} {message : Message} {calls : List Call}
    (conforms : Conforms max pdu message calls) :
    ∃ count, payloadsSet pdu calls = .ok count ∧
      (PayloadOnce max message calls ↔ message.payload.isSome.toNat + count ≤ 1) := by
  induction calls generalizing pdu message with
  | nil => exact ⟨0, rfl, fun _ => Bool.toNat_le _, fun _ => trivial⟩
  | cons call rest ih =>
      obtain ⟨err, after, ran, status, -, -, conforms⟩ := conforms
      obtain ⟨more, counted, once⟩ := ih conforms
      rw [Coap.payloadsSet, ran, Exec.ok_bind]
      dsimp only
      rw [counted, Exec.ok_bind, PayloadOnce, once]
      cases call with
      | setPayload payload =>
          by_cases fits : Call.Fits max message (.setPayload payload)
          · refine ⟨more + 1, congrArg Except.ok (if_pos (status.mpr fits)), ?_⟩
            rw [Call.next, if_pos fits]
            cases present : message.payload.isSome with
            | false => simp [Call.FirstPayload, Call.apply, present, Nat.add_comm]
            | true => simp [Call.FirstPayload, Call.apply, present, fits]
          · refine ⟨more, congrArg Except.ok (if_neg fun good => fits (status.mp good)), ?_⟩
            rw [Call.next, if_neg fits]
            exact and_iff_right fun _ => fits
      | _ =>
          rw [Call.next_payload (by simp)]
          exact ⟨more, rfl, and_iff_right trivial⟩

/-- Sequences with options in order refine the abstract message and set a payload at most
once, if and only if no call replaces a payload by one that would fit. -/
theorem refines_iff_payloadOnce (pdu : CoapPdu) (calls : List Call) (room : 4 ≤ pdu.max)
    (mapped : pdu.max ≤ pdu.mem.length) (bounded : pdu.mem.length < 2 ^ 63)
    (inOrder : InOrder 0 calls) :
    Refines pdu calls ∧ SetsPayloadOnce pdu calls ↔ PayloadOnce pdu.max ping calls := by
  constructor
  · rintro ⟨⟨after, initialised, -, conforms⟩, count, counted, few⟩
    obtain ⟨same, isCount, once⟩ := conforms.payloadsSet
    rw [initialised, Exec.ok_bind, isCount] at counted
    cases counted
    exact once.mpr (by simpa [ping] using few)
  · intro once
    have refines := refines_of_payloadOnce pdu calls room mapped bounded inOrder once
    refine ⟨refines, ?_⟩
    obtain ⟨after, initialised, -, conforms⟩ := refines
    obtain ⟨count, counted, exact⟩ := conforms.payloadsSet
    refine ⟨count, ?_, by simpa [ping] using exact.mp once⟩
    rw [initialised]
    exact counted

/-- A buffer of 20 bytes. -/
def smallBuffer : CoapPdu := ⟨0x1000, List.replicate 20 0, 0, 20⟩

/-- A payload of ten bytes, then one of eight. -/
def shorterPayload : List Call :=
  [.setPayload (List.replicate 10 0x61), .setPayload (List.replicate 8 0x62)]

/-- The second payload fits in place of the first one, and is rejected. -/
theorem not_refines_shorterPayload :
    InOrder 0 shorterPayload ∧
      (coapInitPdu smallBuffer >>= fun result => payloadsSet result.2 shorterPayload) = .ok 1 ∧
        ¬ Refines smallBuffer shorterPayload := by
  refine ⟨by decide, by decide, ?_⟩
  rintro ⟨after, initialised, -, err, filled, ran, -, -, -, refusal, last, refused, status, -⟩
  have computed : Except.map Prod.fst (coapInitPdu smallBuffer >>= fun result =>
      (Call.setPayload (List.replicate 10 0x61)).run result.2 >>= fun result =>
        (Call.setPayload (List.replicate 8 0x62)).run result.2) =
          .ok .ceInsufficientBuffer := by decide
  rw [initialised, Exec.ok_bind, ran, Exec.ok_bind, refused] at computed
  have isError : refusal = .ceInsufficientBuffer := Except.ok.inj computed
  have fits := status.mpr (by decide)
  rw [isError] at fits
  cases fits

/-- A token, an option and a payload of a small message. -/
def smallMessage : List Call := [.setToken 7 2, .addOption 11 [0x61], .setPayload [0x62]]

theorem refines_iff_payloadOnce_smallBuffer :
    4 ≤ smallBuffer.max ∧ InOrder 0 smallMessage ∧
      PayloadOnce smallBuffer.max ping smallMessage ∧ Refines smallBuffer smallMessage ∧
        SetsPayloadOnce smallBuffer smallMessage :=
  ⟨by decide, by decide, by decide, (refines_iff_payloadOnce _ _ (by decide) (by decide)
    (by decide) (by decide)).mpr (by decide)⟩

end ExositeCoap.Coap
