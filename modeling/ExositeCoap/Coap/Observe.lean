import ExositeCoap.Coap.Decode

/-!
# Reading an encoded message

`pdu.Holds message` says that the bytes of the packet are the encoding of an
abstract message.  From it follows what every getter returns
(`Holds.observes`): the walks of `coap_get_option` and `coap_get_payload` pass
over the encoded options one by one, whatever the memory behind the packet holds.
-/

namespace ExositeCoap.Coap

open Lib Wire

/-- The packet is the encoding of `message` and lies inside its buffer. Positions
in the memory differ by less than `PTRDIFF_MAX`. -/
structure CoapPdu.Holds (pdu : CoapPdu) (message : Message) : Prop where
  bytes : pdu.mem.take pdu.len = message.encode
  len_le : pdu.len ≤ pdu.max
  max_le : pdu.max ≤ pdu.mem.length
  mem_lt : pdu.mem.length < 2 ^ 63

/-- Iterating `coap_get_option` from `last` until the number is zero delivers the
options `found` and then the result `final` with number zero. -/
inductive Yields (pdu : CoapPdu) : Option CoapOption → List CoapOption → CoapOption → Prop where
  | stop {last : Option CoapOption} {final : CoapOption}
      (got : coapGetOption pdu last = .ok final) (zero : final.num = 0) :
      Yields pdu last [] final
  | next {last : Option CoapOption} {option final : CoapOption} {found : List CoapOption}
      (got : coapGetOption pdu last = .ok option) (nonzero : option.num ≠ 0)
      (more : Yields pdu (some option) found final) :
      Yields pdu last (option :: found) final

/-- A `coap_option` names the number and the value bytes of an abstract option. -/
structure Delivers (mem : Mem) (found : CoapOption) (option : Opt) : Prop where
  num : found.num = option.num
  len : found.len = option.value.length
  value : ∃ pos, found.val = some pos ∧ mem.slice pos found.len = .ok option.value

/-- A `coap_payload` names the bytes of an optional payload. -/
def DeliversPayload (mem : Mem) (found : CoapPayload) : Option (List UInt8) → Prop
  | none => found = ⟨0, none⟩
  | some payload => found.len = payload.length ∧
      ∃ pos, found.val = some pos ∧ mem.slice pos found.len = .ok payload

/-- The payload of a message in its packet. -/
def payloadIn (message : Message) : CoapPayload :=
  match message.payload with
  | none => ⟨0, none⟩
  | some payload => ⟨payload.length,
      some (4 + message.token.length + (encodeOptions 0 message.options).length + 1)⟩

/-- All getters together return the fields of `message`. -/
structure Observes (pdu : CoapPdu) (message : Message) : Prop where
  valid : coapValidatePkt pdu = .ok .ceNone
  version : coapGetVersion pdu = .ok coapV1
  kind : coapGetType pdu = .ok message.kind
  tkl : coapGetTkl pdu = .ok message.token.length
  code : coapGetCode pdu = .ok message.code
  mid : coapGetMid pdu = .ok message.mid
  token : coapGetToken pdu = .ok (leValue message.token)
  options : ∃ found final, Yields pdu none found final ∧
    List.Forall₂ (Delivers pdu.mem) found message.options
  payload : ∃ found, coapGetPayload pdu = .ok found ∧
    DeliversPayload pdu.mem found message.payload

namespace CoapPdu.Holds

variable {pdu : CoapPdu} {message : Message}

theorem len_eq (holds : pdu.Holds message) : pdu.len = message.encode.length := by
  have size := congrArg List.length holds.bytes
  have := holds.len_le
  have := holds.max_le
  rw [List.length_take] at size
  omega

theorem mem_eq (holds : pdu.Holds message) :
    pdu.mem = message.encode ++ pdu.mem.drop pdu.len := by
  rw [← holds.bytes, List.take_append_drop]

/-- The memory from the first option on. -/
theorem drop_body (holds : pdu.Holds message) :
    pdu.mem.drop (4 + message.token.length) = message.body ++ pdu.mem.drop pdu.len := by
  have whole : pdu.mem.drop 0 =
      (message.fixedHeader ++ message.token) ++ (message.body ++ pdu.mem.drop pdu.len) := by
    rw [List.drop_zero]
    nth_rewrite 1 [holds.mem_eq]
    simp [Message.encode]
  have behind := Mem.drop_add_of_append whole
  rw [Nat.zero_add, List.length_append, Message.fixedHeader_length] at behind
  exact behind

/-- The end of the packet, measured from the first option. -/
theorem len_eq_body (holds : pdu.Holds message) :
    pdu.len = 4 + message.token.length + message.body.length := by
  rw [holds.len_eq, Message.encode_length]

theorem len_lt (holds : pdu.Holds message) : pdu.len < 2 ^ 64 := by
  have inBuffer := holds.len_le
  have mapped := holds.max_le
  have bounded := holds.mem_lt
  omega

/-! ### Header fields -/

theorem read_first (holds : pdu.Holds message) : pdu.mem.read 0 =
    .ok (UInt8.ofNat (64 + message.kind.bits * 16 + message.token.length)) := by
  rw [holds.mem_eq]
  rfl

theorem coapGetCode_eq (holds : pdu.Holds message) :
    coapGetCode pdu = .ok message.code := by
  rw [coapGetCode, holds.mem_eq]
  rfl

theorem coapGetMid_eq (holds : pdu.Holds message) : coapGetMid pdu = .ok message.mid := by
  have high : pdu.mem.read 2 = .ok (UInt8.ofNat (message.mid.toNat / 256)) := by
    rw [holds.mem_eq]
    rfl
  have low : pdu.mem.read 3 = .ok (UInt8.ofNat (message.mid.toNat % 256)) := by
    rw [holds.mem_eq]
    rfl
  have joined : UInt16.ofNat ((UInt8.ofNat (message.mid.toNat / 256)).toNat * 256 +
      (UInt8.ofNat (message.mid.toNat % 256)).toNat) = message.mid := by
    have bound := message.mid.toNat_lt
    rw [UInt8.toNat_ofNat', UInt8.toNat_ofNat']
    apply UInt16.toNat_inj.mp
    rw [UInt16.toNat_ofNat']
    omega
  simp only [coapGetMid, high, low, Exec.ok_bind, Exec.pure_eq_ok, joined]

theorem first_toNat (tokenBound : message.token.length ≤ 8) :
    (UInt8.ofNat (64 + message.kind.bits * 16 + message.token.length)).toNat =
      64 + message.kind.bits * 16 + message.token.length := by
  have kindBound := message.kind.bits_lt
  rw [UInt8.toNat_ofNat']
  omega

theorem coapGetTkl_of_le (holds : pdu.Holds message) (tokenBound : message.token.length ≤ 8) :
    coapGetTkl pdu = .ok message.token.length := by
  have tkl : (64 + message.kind.bits * 16 + message.token.length) % 16 =
      message.token.length := by omega
  simp only [coapGetTkl, holds.read_first, Exec.ok_bind, Exec.pure_eq_ok,
    first_toNat tokenBound, tkl]

section Encodable

variable (holds : pdu.Holds message) (encodable : message.Encodable)

include encodable

include holds

theorem coapGetVersion_eq : coapGetVersion pdu = .ok coapV1 := by
  have kindBound := message.kind.bits_lt
  have tokenBound := encodable.token_le
  have version : (64 + message.kind.bits * 16 + message.token.length) / 64 = coapV1 := by
    unfold coapV1
    omega
  simp only [coapGetVersion, holds.read_first, Exec.ok_bind, Exec.pure_eq_ok,
    first_toNat encodable.token_le, version]

theorem coapGetType_eq : coapGetType pdu = .ok message.kind := by
  have kindBound := message.kind.bits_lt
  have tokenBound := encodable.token_le
  have kind : MessageType.ofBits
      ((64 + message.kind.bits * 16 + message.token.length) / 16) = message.kind := by
    have quotient : (64 + message.kind.bits * 16 + message.token.length) / 16 =
        4 + message.kind.bits := by omega
    rw [quotient]
    cases message.kind <;> rfl
  simp only [coapGetType, holds.read_first, Exec.ok_bind, Exec.pure_eq_ok,
    first_toNat encodable.token_le, kind]

theorem coapGetTkl_eq : coapGetTkl pdu = .ok message.token.length :=
  coapGetTkl_of_le holds encodable.token_le

theorem coapGetToken_eq : coapGetToken pdu = .ok (leValue message.token) := by
  have tokenBound := encodable.token_le
  have inside : ¬ pdu.len < 4 + message.token.length := by
    rw [holds.len_eq_body]
    omega
  have atToken : pdu.mem.drop 4 = message.token ++ (message.body ++ pdu.mem.drop pdu.len) := by
    nth_rewrite 1 [holds.mem_eq]
    simp [Message.encode, Message.fixedHeader]
  have loaded := Mem.slice_of_drop atToken
  have small : ¬ 8 < message.token.length := by omega
  simp [coapGetToken, coapGetTkl_eq holds encodable, inside, small, loaded]

end Encodable

end CoapPdu.Holds

/-! ## Walks over encoded options -/

theorem length_le_encodeOptions (previous : Nat) (options : List Opt) :
    options.length ≤ (encodeOptions previous options).length := by
  induction options generalizing previous with
  | nil => exact Nat.le_refl _
  | cons option rest ih =>
      have := ih option.num
      simp only [encodeOptions, optionHeader, List.length_cons, List.length_append]
      omega

/-- The decoder reads an encoded option. -/
theorem decodes_encoded {mem tail : Mem} {pos previous : Nat} {option : Opt}
    {rest : List Opt} (ascending : Ascending previous (option :: rest))
    (at_ : mem.drop pos = encodeOptions previous (option :: rest) ++ tail)
    (num len : Nat) (val : Ptr) :
    Decodes mem pos num len val
      ⟨.ceNone, (num + (option.num - previous)) % 2 ^ 16, option.value.length,
        some (pos + (optionHeader (option.num - previous) option.value.length).length)⟩ := by
  have lengthBound := ascending.2.2.1
  rw [encodeOptions, List.append_assoc] at at_
  have found : Decodes mem pos num len val _ := .found ascending.header at_
  rwa [Nat.mod_eq_of_lt (show option.value.length < 2 ^ 16 by omega)] at found

/-- The memory behind an encoded option. -/
theorem drop_encoded {mem tail : Mem} {pos previous : Nat} {option : Opt} {rest : List Opt}
    (at_ : mem.drop pos = encodeOptions previous (option :: rest) ++ tail) :
    mem.drop (pos + (optionHeader (option.num - previous) option.value.length).length) =
        option.value ++ (encodeOptions option.num rest ++ tail) ∧
      mem.drop (pos + (optionHeader (option.num - previous) option.value.length).length +
        option.value.length) = encodeOptions option.num rest ++ tail := by
  have atValue : mem.drop
      (pos + (optionHeader (option.num - previous) option.value.length).length) =
        option.value ++ (encodeOptions option.num rest ++ tail) := by
    apply Mem.drop_add_of_append
    simpa [encodeOptions] using at_
  exact ⟨atValue, Mem.drop_add_of_append atValue⟩

/-- `coap_get_payload` steps over every encoded option. -/
theorem payloadOffset_encoded {pdu : CoapPdu} {tail : Mem} {pos previous : Nat}
    {options : List Opt} (ascending : Ascending previous options)
    (at_ : pdu.mem.drop pos = encodeOptions previous options ++ tail)
    (inside : pos + (encodeOptions previous options).length ≤ pdu.len)
    (bounded : pdu.len < 2 ^ 64) (fuel : Nat) :
    payloadOffset pdu (fuel + options.length) pos =
      payloadOffset pdu fuel (pos + (encodeOptions previous options).length) := by
  induction options generalizing pos previous with
  | nil => rfl
  | cons option rest ih =>
      simp only [encodeOptions, List.length_append] at inside ⊢
      have headerPos : 0 < (optionHeader (option.num - previous)
          option.value.length).length := by simp [optionHeader]
      have more : sizeSub pdu.len pos ≠ 0 := by
        rw [sizeSub_of_le (by omega) bounded]
        omega
      have decoded := coapDecodeOption_of_decodes more
        (decodes_encoded ascending at_ 0 0 none)
      rw [List.length_cons, ← Nat.add_assoc, payloadOffset, decoded]
      simp only [Exec.ok_bind, Option.getD_some]
      rw [ih ascending.2.2.2 (drop_encoded at_).2 (by omega)]
      congr 1
      omega

theorem payloadOffset_end {pdu : CoapPdu} {pos : Nat} (atEnd : pdu.len = pos)
    (fuel : Nat) : payloadOffset pdu (fuel + 1) pos = .ok (some (.ceEndOfPacket, pos)) := by
  simp [payloadOffset, atEnd]

theorem payloadOffset_marker {pdu : CoapPdu} {pos : Nat} {rest : Mem}
    (more : sizeSub pdu.len pos ≠ 0) (at_ : pdu.mem.drop pos = 0xFF :: rest) (fuel : Nat) :
    payloadOffset pdu (fuel + 1) pos = .ok (some (.ceFoundPayloadMarker, pos)) := by
  have decoded := coapDecodeOption_of_decodes more
    (.marker at_ : Decodes pdu.mem pos 0 0 none _)
  simp [payloadOffset, decoded]

theorem optionPosition_none {pdu : CoapPdu} {tkl : Nat} (hasTkl : coapGetTkl pdu = .ok tkl) :
    optionPosition pdu none = .ok (4 + tkl) := by
  simp [optionPosition, hasTkl]

/-- Behind an option that ends inside the packet the iteration goes on there. -/
theorem optionPosition_some {pdu : CoapPdu} {option : CoapOption} {pos : Nat}
    (nonzero : option.num ≠ 0) (value : option.val = some pos)
    (inside : pos + option.len ≤ pdu.len) (positive : 0 < pos) :
    optionPosition pdu (some option) = .ok (pos + option.len) := by
  have inRange : ¬ (pdu.len < pos + option.len ∨ pos = 0 ∧ option.len = 0) := by omega
  simp [optionPosition, nonzero, value, inRange]

/-- What `coap_get_option` returns at an option. -/
theorem coapGetOption_of_found {pdu : CoapPdu} {last : Option CoapOption}
    {pos num len : Nat} {val : Ptr} (position : optionPosition pdu last = .ok pos)
    (more : sizeSub pdu.len pos ≠ 0)
    (decodes : Decodes pdu.mem pos (lastNumber last) 0 none ⟨.ceNone, num, len, val⟩) :
    coapGetOption pdu last = .ok ⟨num, len, val⟩ := by
  simp [coapGetOption, position, coapDecodeOption_of_decodes more decodes]

/-- At the end of the packet and at a payload marker the iteration stops. -/
theorem coapGetOption_stops {pdu : CoapPdu} {last : Option CoapOption} {pos : Nat}
    {tail : Mem} (position : optionPosition pdu last = .ok pos)
    (at_ : pdu.mem.drop pos = tail) (inside : pos ≤ pdu.len) (bounded : pdu.len < 2 ^ 64)
    (closed : pdu.len = pos ∨ ∃ rest, tail = 0xFF :: rest) :
    ∃ final, coapGetOption pdu last = .ok final ∧ final.num = 0 := by
  by_cases atEnd : pdu.len = pos
  · exact ⟨⟨0, 0, none⟩, by simp [coapGetOption, position, atEnd], rfl⟩
  · obtain ⟨rest, rfl⟩ := closed.resolve_left atEnd
    have more : sizeSub pdu.len pos ≠ 0 := by
      rw [sizeSub_of_le inside bounded]
      omega
    have decoded := coapDecodeOption_of_decodes more
      (.marker at_ : Decodes pdu.mem pos (lastNumber last) 0 none _)
    by_cases zero : lastNumber last = 0
    · refine ⟨⟨0, sizeSub (sizeSub pdu.len pos) 1, some (pos + 1)⟩, ?_, rfl⟩
      rw [zero] at decoded
      simp [coapGetOption, position, decoded, zero]
    · refine ⟨⟨0, (pdu.len + pdu.buf) % 2 ^ 64, none⟩, ?_, rfl⟩
      simp [coapGetOption, position, decoded, zero]

/-- Where an encoded option stands, the iterator returns it and goes on behind its value. -/
theorem coapGetOption_encoded {pdu : CoapPdu} {tail : Mem} {option : Opt} {rest : List Opt}
    {last : Option CoapOption} {pos : Nat} (position : optionPosition pdu last = .ok pos)
    (positive : 0 < pos) (ascending : Ascending (lastNumber last) (option :: rest))
    (nonzero : option.num ≠ 0)
    (at_ : pdu.mem.drop pos = encodeOptions (lastNumber last) (option :: rest) ++ tail)
    (inside : pos + (encodeOptions (lastNumber last) (option :: rest)).length ≤ pdu.len)
    (bounded : pdu.len < 2 ^ 64) :
    coapGetOption pdu last = .ok ⟨option.num, option.value.length, some
      (pos + (optionHeader (option.num - lastNumber last) option.value.length).length)⟩ ∧
    optionPosition pdu (some ⟨option.num, option.value.length, some
      (pos + (optionHeader (option.num - lastNumber last) option.value.length).length)⟩) =
        .ok (pos + (optionHeader (option.num - lastNumber last) option.value.length).length +
          option.value.length) := by
  simp only [encodeOptions, List.length_append] at inside
  have headerPos : 0 < (optionHeader (option.num - lastNumber last)
      option.value.length).length := by simp [optionHeader]
  have more : sizeSub pdu.len pos ≠ 0 := by
    rw [sizeSub_of_le (by omega) bounded]
    omega
  have number : (lastNumber last + (option.num - lastNumber last)) % 2 ^ 16 = option.num := by
    obtain ⟨lower, upper, -, -⟩ := ascending
    omega
  have decodes := decodes_encoded ascending at_ (lastNumber last) 0 none
  rw [number] at decodes
  exact ⟨coapGetOption_of_found position more decodes,
    optionPosition_some nonzero rfl (by dsimp only; omega) (by omega)⟩

/-- Iterating `coap_get_option` delivers the encoded options in order. -/
theorem yields_encoded {pdu : CoapPdu} {tail : Mem} {options : List Opt}
    {last : Option CoapOption} {pos : Nat} (position : optionPosition pdu last = .ok pos)
    (positive : 0 < pos) (ascending : Ascending (lastNumber last) options)
    (nonzero : ∀ option ∈ options, option.num ≠ 0)
    (at_ : pdu.mem.drop pos = encodeOptions (lastNumber last) options ++ tail)
    (inside : pos + (encodeOptions (lastNumber last) options).length ≤ pdu.len)
    (bounded : pdu.len < 2 ^ 64)
    (closed : pdu.len = pos + (encodeOptions (lastNumber last) options).length ∨
      ∃ rest, tail = 0xFF :: rest) :
    ∃ found final, Yields pdu last found final ∧
      List.Forall₂ (Delivers pdu.mem) found options := by
  induction options generalizing last pos with
  | nil =>
      obtain ⟨final, got, zero⟩ :=
        coapGetOption_stops position at_ inside bounded closed
      exact ⟨[], final, .stop got zero, .nil⟩
  | cons option rest ih =>
      have optionNonzero := nonzero option List.mem_cons_self
      obtain ⟨got, nextPosition⟩ :=
        coapGetOption_encoded position positive ascending optionNonzero at_ inside bounded
      simp only [encodeOptions, List.length_append] at inside closed
      obtain ⟨atValue, atNext⟩ := drop_encoded at_
      have nextInside : pos + (optionHeader (option.num - lastNumber last)
          option.value.length).length + option.value.length +
          (encodeOptions option.num rest).length ≤ pdu.len := by omega
      obtain ⟨found, final, yields, delivered⟩ :=
        ih nextPosition (by omega) ascending.2.2.2
          (fun other member => nonzero other (List.mem_cons_of_mem _ member)) atNext
          nextInside
          (by rw [Nat.add_assoc, Nat.add_assoc]; exact closed)
      exact ⟨_ :: found, final, .next got optionNonzero yields,
        .cons ⟨rfl, rfl, _, rfl, Mem.slice_of_drop atValue⟩ delivered⟩

/-! ## All getters -/

section Encodable

variable {pdu : CoapPdu} {message : Message} (holds : pdu.Holds message)
  (encodable : message.Encodable)

include holds

/-- Behind the options the packet ends, or the payload marker stands there. -/
theorem CoapPdu.Holds.closed : pdu.len = 4 + message.token.length +
      (encodeOptions 0 message.options).length ∨
    ∃ rest, Message.payloadBytes message.payload ++ pdu.mem.drop pdu.len =
      0xFF :: rest := by
  cases payload : message.payload with
  | none =>
      left
      rw [holds.len_eq_body]
      simp [Message.body, payload, Message.payloadBytes]
  | some bytes => exact Or.inr ⟨_, rfl⟩

/-- The place of the payload names its bytes. -/
theorem CoapPdu.Holds.payloadIn_delivers :
    DeliversPayload pdu.mem (payloadIn message) message.payload := by
  have atBody := holds.drop_body
  rw [Message.body, List.append_assoc] at atBody
  have atTail := Mem.drop_add_of_append atBody
  unfold payloadIn
  cases payload : message.payload with
  | none => rfl
  | some bytes =>
      rw [payload] at atTail
      exact ⟨rfl, _, rfl, Mem.slice_of_drop (Mem.drop_succ_of_cons atTail)⟩

include encodable

/-- Validation passes the header of an encoded message and looks at its first
option. -/
theorem CoapPdu.Holds.coapValidatePkt_header :
    coapValidatePkt pdu = validateOptions pdu (4 + message.token.length) := by
  have tokenBound := encodable.token_le
  have lenEq := holds.len_eq_body
  have fits : ¬ pdu.len > pdu.max := Nat.not_lt.mpr holds.len_le
  have header : ¬ pdu.len < 4 := by omega
  have small : ¬ message.token.length > 8 := by omega
  simp [coapValidatePkt, fits, header, holds.coapGetVersion_eq encodable,
    holds.coapGetTkl_eq encodable, small, coapV1]

theorem CoapPdu.Holds.coapValidatePkt_eq : coapValidatePkt pdu = .ok .ceNone := by
  rw [holds.coapValidatePkt_header encodable]
  have lenEq := holds.len_eq_body
  have bounded := holds.len_lt
  have atBody := holds.drop_body
  by_cases atEnd : pdu.len = 4 + message.token.length
  · simp [validateOptions, atEnd]
  · have more : sizeSub pdu.len (4 + message.token.length) ≠ 0 := by
      rw [sizeSub_of_le (by omega) bounded]
      omega
    cases options : message.options with
    | nil =>
        have noOptions := holds.closed
        rw [options] at noOptions
        obtain ⟨rest, marker⟩ := noOptions.resolve_left (by simpa [encodeOptions] using atEnd)
        have at_ : pdu.mem.drop (4 + message.token.length) = 0xFF :: rest := by
          rw [atBody, Message.body, options]
          exact marker
        have decoded := fun len val => coapDecodeOption_of_decodes more
          (.marker at_ : Decodes pdu.mem _ 0 len val _)
        simp [validateOptions, decoded, atEnd]
    | cons option rest =>
        have ascending := encodable.ascending
        rw [options] at ascending
        have at_ : pdu.mem.drop (4 + message.token.length) =
            encodeOptions 0 (option :: rest) ++
              (Message.payloadBytes message.payload ++ pdu.mem.drop pdu.len) := by
          rw [atBody, Message.body, options, List.append_assoc]
        have decoded := fun len val => coapDecodeOption_of_decodes more
          (decodes_encoded ascending at_ 0 len val)
        simp [validateOptions, decoded]

/-- `coap_get_payload` returns the place of the payload. -/
theorem CoapPdu.Holds.coapGetPayload_payloadIn : coapGetPayload pdu = .ok (payloadIn message) := by
  have lenEq := holds.len_eq_body
  have bounded := holds.len_lt
  have lenLe := Nat.le_trans holds.len_le holds.max_le
  have tkl := holds.coapGetTkl_eq encodable
  have atBody := holds.drop_body
  rw [Message.body, List.append_assoc] at atBody
  simp only [Message.body, List.length_append] at lenEq
  have count := length_le_encodeOptions 0 message.options
  have rounds : pdu.mem.length + 1 =
      (pdu.mem.length - message.options.length) + 1 + message.options.length := by omega
  have walk := payloadOffset_encoded encodable.ascending atBody (by omega) bounded
    (pdu.mem.length - message.options.length + 1)
  rw [← rounds] at walk
  have atTail := Mem.drop_add_of_append atBody
  cases payload : message.payload with
  | none =>
      have atEnd : pdu.len = 4 + message.token.length +
          (encodeOptions 0 message.options).length := by
        simpa [payload, Message.payloadBytes] using lenEq
      simp only [coapGetPayload, tkl, Exec.ok_bind, walk, payloadOffset_end atEnd,
        Exec.pure_eq_ok, payloadIn, payload]
  | some bytes =>
      rw [payload] at atTail lenEq
      simp only [Message.payloadBytes, List.length_cons] at lenEq
      have more : sizeSub pdu.len (4 + message.token.length +
          (encodeOptions 0 message.options).length) = bytes.length + 1 := by
        rw [sizeSub_of_le (by omega) bounded]
        omega
      have found := payloadOffset_marker (by rw [more]; omega) atTail
        (pdu.mem.length - message.options.length)
      have length : sizeSub (bytes.length + 1) 1 = bytes.length := by
        rw [sizeSub_of_le (by omega) (by omega)]
        omega
      simp only [coapGetPayload, tkl, Exec.ok_bind, walk, found, more, length,
        Exec.pure_eq_ok, payloadIn, payload]

theorem CoapPdu.Holds.coapGetPayload_eq :
    ∃ found, coapGetPayload pdu = .ok found ∧
      DeliversPayload pdu.mem found message.payload :=
  ⟨_, holds.coapGetPayload_payloadIn encodable, holds.payloadIn_delivers⟩

/-- A packet that holds a message with non-zero option numbers shows exactly this
message to the getters. -/
theorem CoapPdu.Holds.observes (nonzero : ∀ option ∈ message.options, option.num ≠ 0) :
    Observes pdu message where
  valid := holds.coapValidatePkt_eq encodable
  version := holds.coapGetVersion_eq encodable
  kind := holds.coapGetType_eq encodable
  tkl := holds.coapGetTkl_eq encodable
  code := holds.coapGetCode_eq
  mid := holds.coapGetMid_eq
  token := holds.coapGetToken_eq encodable
  options := by
    have lenEq := holds.len_eq_body
    have atBody := holds.drop_body
    rw [Message.body, List.append_assoc] at atBody
    simp only [Message.body, List.length_append] at lenEq
    exact yields_encoded (optionPosition_none (holds.coapGetTkl_eq encodable)) (by omega)
      encodable.ascending nonzero atBody (by dsimp only [lastNumber]; omega) holds.len_lt
      holds.closed
  payload := holds.coapGetPayload_eq encodable

end Encodable

end ExositeCoap.Coap
