import ExositeCoap.Coap.Validate
import ExositeCoap.Coap.Write

/-!
# Reading a packet and writing it again

A packet in range is the encoding of one abstract message, since option headers have
a single form.  The getters deliver the fields of that message and the setters build its
encoding from them, so a packet that is read and written again comes out the same.
-/

namespace ExositeCoap.Coap

open Lib Wire

/-- Copies the options behind `last` with the iterator and `coap_add_option`, until the
iterator returns number zero. -/
def copyOptions (source : CoapPdu) :
    (fuel : Nat) → (last : Option CoapOption) → (pdu : CoapPdu) → Exec CoapPdu
  | 0, _, _ => throw .fuel
  | fuel + 1, last, pdu => do
    let option ← coapGetOption source last
    if option.num = 0 then return pdu
    match option.val with
    | none => throw .fault
    | some pos =>
      let value ← source.mem.slice pos option.len
      let (_, pdu) ← coapAddOption pdu option.num value option.len
      copyOptions source fuel (some option) pdu

/-- Initialises `target` and copies the header fields and the token. -/
def copyHeader (source target : CoapPdu) : Exec CoapPdu := do
  let (_, pdu) ← coapInitPdu target
  let (_, pdu) ← coapSetType pdu (← coapGetType source)
  let (_, pdu) ← coapSetCode pdu (← coapGetCode source)
  let (_, pdu) ← coapSetMid pdu (← coapGetMid source)
  let tkl ← coapGetTkl source
  let (_, pdu) ← coapSetToken pdu (← coapGetToken source) tkl
  return pdu

/-- Reads `source` with the getters and writes the results into `target`. -/
def reencode (source target : CoapPdu) : Exec CoapPdu := do
  let pdu ← copyHeader source target
  let pdu ← copyOptions source (source.len + 1) none pdu
  let payload ← coapGetPayload source
  if payload.len = 0 then return pdu
  match payload.val with
  | none => throw .fault
  | some pos =>
    let (_, pdu) ← coapSetPayload pdu (← source.mem.slice pos payload.len)
    return pdu

/-- The bytes of a token, from its value. -/
theorem leBytes_leValue (bytes : List UInt8) : leBytes bytes.length (leValue bytes) = bytes := by
  induction bytes with
  | nil => rfl
  | cons byte rest ih =>
      have := byte.toNat_lt
      have first : UInt8.ofNat (byte.toNat + 256 * leValue rest) = byte := by
        apply UInt8.toNat_inj.mp
        rw [UInt8.toNat_ofNat']
        omega
      have others : (byte.toNat + 256 * leValue rest) / 256 = leValue rest := by omega
      rw [leValue, List.length_cons, leBytes, first, others, ih]

section Copy

variable {source pdu : CoapPdu} {message : Message}

/-- The message with some of its options and without its payload. -/
def withOptions (message : Message) (options : List Opt) : Message :=
  { message with options, payload := none }

theorem withOptions_length_le {front back : List Opt} (all : front ++ back = message.options) :
    (withOptions message front).encode.length ≤ message.encode.length := by
  rw [Message.encode_length, Message.encode_length, Message.body_length, Message.body_length,
    ← all, encodeOptions_append, List.length_append]
  simp only [withOptions, Message.payloadBytes, List.length_nil]
  omega

/-- The options that are still to be read are added one by one. -/
theorem copyOptions_eq {last : Option CoapOption} {found : List CoapOption} {final : CoapOption}
    (yields : Yields source last found final) {front back : List Opt}
    (delivers : List.Forall₂ (Delivers source.mem) found back)
    (all : front ++ back = message.options) (encodable : message.Encodable)
    (holds : pdu.Holds (withOptions message front))
    (fits : message.encode.length ≤ pdu.max) {fuel : Nat} (enough : back.length < fuel) :
    ∃ after, copyOptions source fuel last pdu = .ok after ∧
      after.Holds (withOptions message message.options) ∧ after.max = pdu.max := by
  induction yields generalizing pdu front back fuel with
  | stop got zero =>
      obtain ⟨fuel, rfl⟩ := Nat.exists_eq_succ_of_ne_zero (Nat.ne_of_gt
        (Nat.lt_of_le_of_lt (Nat.zero_le _) enough))
      cases delivers
      rw [List.append_nil] at all
      refine ⟨pdu, ?_, by rwa [← all], rfl⟩
      simp only [copyOptions, got, Exec.ok_bind, zero, if_true, Exec.pure_eq_ok]
  | @next last option final found got nonzero _ ih =>
      obtain ⟨fuel, rfl⟩ := Nat.exists_eq_succ_of_ne_zero (Nat.ne_of_gt
        (Nat.lt_of_le_of_lt (Nat.zero_le _) enough))
      cases delivers with
      | @cons _ added _ rest delivered others =>
          obtain ⟨pos, isVal, loaded⟩ := delivered.value
          have ascending := encodable.ascending
          rw [← all, ascending_append] at ascending
          have longer : (front ++ [added]) ++ rest = message.options := by simpa using all
          have room : (withOptions message (front ++ [added])).encode.length ≤ pdu.max :=
            Nat.le_trans (withOptions_length_le longer) fits
          obtain ⟨middle, written, now, frame⟩ := @coapAddOption_writes pdu
            (withOptions message front) holds ⟨encodable.token_le, ascending.1⟩ added.num
            added.value ascending.2.1 room
          obtain ⟨after, copied, final, sameMax⟩ := ih others longer now
            (by rw [frame.max]; exact fits) (Nat.lt_of_succ_lt_succ enough)
          refine ⟨after, ?_, final, sameMax.trans frame.max⟩
          rw [delivered.len] at loaded
          rw [delivered.num] at nonzero
          simp only [copyOptions, got, Exec.ok_bind, isVal, delivered.num, delivered.len,
            nonzero, if_false, loaded, written]
          exact copied

end Copy

section Reencode

variable {source target : CoapPdu} {message : Message}

/-- The options of a packet are not more than its bytes. -/
theorem options_length_le (holds : source.Holds message) :
    message.options.length ≤ source.len := by
  have count := length_le_encodeOptions 0 message.options
  have len := holds.len_eq_body
  have body := message.body_length
  omega

variable (holds : source.Holds message) (valid : message.Valid)
  (nonzero : ∀ option ∈ message.options, option.num ≠ 0) (room : source.len ≤ target.max)
  (mapped : target.max ≤ target.mem.length) (bounded : target.mem.length < 2 ^ 63)

include holds valid nonzero room mapped bounded

theorem CoapPdu.Holds.copyHeader_eq : ∃ after, copyHeader source target = .ok after ∧
    after.Holds (withOptions message []) ∧ after.max = target.max := by
  have observes := holds.observes valid.toEncodable nonzero
  have size := holds.len_eq_body
  obtain ⟨fresh, initialised, first, firstFrame⟩ :=
    coapInitPdu_writes (Nat.le_trans holds.four_le room) mapped bounded
  obtain ⟨typed, setType, second, secondFrame⟩ :=
    coapSetType_writes first ping_encodable message.kind
  obtain ⟨coded, setCode, third, thirdFrame⟩ :=
    coapSetCode_writes second ⟨Nat.zero_le _, trivial⟩ message.code
  obtain ⟨numbered, setMid, fourth, fourthFrame⟩ :=
    coapSetMid_writes third ⟨Nat.zero_le _, trivial⟩ message.mid
  have isFourth : numbered.Holds { withOptions message [] with token := [] } := fourth
  have sameMax : numbered.max = target.max :=
    (((firstFrame.trans secondFrame).trans thirdFrame).trans fourthFrame).max
  have noBody : ({ withOptions message [] with token := [] } : Message).body = [] := rfl
  obtain ⟨after, setToken, fifth, fifthFrame⟩ := @coapSetToken_writes _ _ isFourth
    ⟨Nat.zero_le _, trivial⟩ message.token.length (leValue message.token) valid.token_le
    (by rw [noBody, sameMax, List.length_nil]; omega)
  rw [leBytes_leValue] at fifth
  refine ⟨after, ?_, fifth, fifthFrame.max.trans sameMax⟩
  simp only [copyHeader, initialised, observes.kind, setType, observes.code, setCode,
    observes.mid, setMid, observes.tkl, observes.token, setToken, Exec.ok_bind, Exec.pure_eq_ok]

/-- A packet that holds a message is written again as the same packet. -/
theorem CoapPdu.Holds.reencode_eq :
    ∃ after, reencode source target = .ok after ∧ after.Holds message := by
  have encodable := valid.toEncodable
  have observes := holds.observes encodable nonzero
  obtain ⟨ready, header, isReady, readyMax⟩ :=
    holds.copyHeader_eq valid nonzero room mapped bounded
  have few := options_length_le holds
  have fits : message.encode.length ≤ ready.max := by
    rw [readyMax, ← holds.len_eq]
    exact room
  obtain ⟨found, final, yields, delivers⟩ := observes.options
  obtain ⟨filled, copied, isFilled, filledMax⟩ := @copyOptions_eq _ _ message _ _ _ yields []
    message.options delivers rfl encodable isReady fits (source.len + 1) (by omega)
  -- the payload
  obtain ⟨payload, isPayload, delivered⟩ := observes.payload
  simp only [reencode, header, copied, isPayload, Exec.ok_bind]
  cases given : message.payload with
  | none =>
      rw [given] at delivered
      have isEmpty : payload = ⟨0, none⟩ := delivered
      refine ⟨filled, by simp [isEmpty], ?_⟩
      have same : withOptions message message.options = message := by
        rw [withOptions, ← given]
      rwa [same] at isFilled
  | some bytes =>
      rw [given] at delivered
      obtain ⟨length, pos, isVal, loaded⟩ := delivered
      have more : payload.len ≠ 0 := by
        rw [length]
        intro empty
        exact valid.payload_ne (by rw [given, List.eq_nil_of_length_eq_zero empty])
      have same : ({ withOptions message message.options with payload := some bytes } :
          Message) = message := by
        rw [withOptions, ← given]
      obtain ⟨after, setPayload, last, -⟩ := @coapSetPayload_writes _ _ isFilled
        ⟨encodable.token_le, encodable.ascending⟩ bytes rfl
        (by rw [same, filledMax]; exact fits)
      rw [same] at last
      exact ⟨after, by simp [more, isVal, loaded, setPayload], last⟩

end Reencode

/-- Reading a packet in range and writing it again yields the same bytes, in every buffer
that is large enough. -/
theorem reencode_identity (source target : CoapPdu) (wellNumbered : WellNumbered source.packet)
    (inBuffer : source.len ≤ source.max) (sourceMapped : source.max ≤ source.mem.length)
    (sourceBounded : source.mem.length < 2 ^ 63) (room : source.len ≤ target.max)
    (mapped : target.max ≤ target.mem.length) (bounded : target.mem.length < 2 ^ 63) :
    ∃ after, reencode source target = .ok after ∧ after.packet = source.packet ∧
      after.len = source.len := by
  obtain ⟨message, bytes, valid, nonzero⟩ := wellNumbered.decode
  have holds : source.Holds message := ⟨bytes, inBuffer, sourceMapped, sourceBounded⟩
  obtain ⟨after, written, same⟩ := holds.reencode_eq valid nonzero room mapped bounded
  refine ⟨after, written, ?_, ?_⟩
  · rw [bytes]
    exact same.bytes
  · rw [same.len_eq, holds.len_eq]

/-- A request with a token, two options, the second with an extended delta, and a
payload. -/
def extendedPacket : CoapPdu :=
  ⟨0x1000, [0x42, 0x01, 0x00, 0x37, 0xAA, 0xBB, 0x61, 0x00, 0xD2, 0xF0, 0x61, 0x62, 0xFF, 0x63],
    14, 14⟩

theorem reencode_identity_extended : WellNumbered extendedPacket.packet ∧
    ∃ after, reencode extendedPacket ⟨0x2000, List.replicate 14 0, 0, 14⟩ = .ok after ∧
      after.packet = extendedPacket.packet ∧ after.len = 14 := by
  have observe : Header [0x61] 6 1 := @Header.mk 0x61 [] [] _ _ (.direct (by decide))
    (.direct (by decide))
  have extended : Header [0xD2, 0xF0] 253 2 := @Header.mk 0xD2 [0xF0] [] _ _ (.byte 0xF0)
    (.direct (by decide))
  have body : NumberedBody 0 ([0x61] ++ ([0x00] ++ ([0xD2, 0xF0] ++ ([0x61, 0x62] ++
      [0xFF, 0x63])))) :=
    .option observe (by decide) (by decide) (by decide)
      (.option extended (by decide) (by decide) (by decide) (.payload (by decide)))
  have wellNumbered : WellNumbered extendedPacket.packet :=
    @WellNumbered.mk 0x42 0x01 0x00 0x37 [0xAA, 0xBB] _ (by decide) (by decide) (by decide) body
  exact ⟨wellNumbered, reencode_identity extendedPacket ⟨0x2000, List.replicate 14 0, 0, 14⟩
    wellNumbered (by decide) (by decide) (by decide) (by decide) (by decide) (by decide)⟩

end ExositeCoap.Coap
