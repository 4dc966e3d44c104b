import ExositeCoap.Coap.Decode

/-!
# What validation establishes

`coap_validate_pkt` accepts a packet exactly when the checks it makes pass
(`coapValidatePkt_eq_none`): they end with the first byte of the first option.
The grammar of messages asks for more, so the two agree on a packet exactly when
a check fails or the bytes behind the token happen to be well formed
(`coapValidatePkt_grammar_iff`).
-/

namespace ExositeCoap.Coap

open Lib Wire

namespace CoapPdu

/-- The first byte of the packet: version, type and token length. -/
def firstByte (pdu : CoapPdu) : UInt8 := pdu.mem.headD 0

/-- Offset of the first option, by the token length field. -/
def tokenEnd (pdu : CoapPdu) : Nat := 4 + pdu.firstByte.toNat % 16

/-- The bytes of the packet. -/
def packet (pdu : CoapPdu) : List UInt8 := pdu.mem.take pdu.len

/-- At `pos` the memory starts with a payload marker or with an option header. It
may belong to what lies behind the packet. -/
def StartsOption (pdu : CoapPdu) (pos : Nat) : Prop :=
  (∃ rest, pdu.mem.drop pos = 0xFF :: rest) ∨
    ∃ header delta length rest, Header header delta length ∧
      pdu.mem.drop pos = header ++ rest

/-- The checks that validation makes, as conditions on the bytes. -/
structure PassesChecks (pdu : CoapPdu) : Prop where
  len_ge : 4 ≤ pdu.len
  version : pdu.firstByte.toNat / 64 = 1
  tkl_le : pdu.firstByte.toNat % 16 ≤ 8
  option : pdu.len = pdu.tokenEnd ∨ pdu.StartsOption pdu.tokenEnd

end CoapPdu

section Checks

variable {pdu : CoapPdu}

theorem read_firstByte (mapped : 0 < pdu.mem.length) :
    pdu.mem.read 0 = .ok pdu.firstByte := by
  rw [Mem.read_of_lt mapped, CoapPdu.firstByte, List.headD_eq_head?_getD,
    List.head?_eq_getElem?, List.getElem?_eq_getElem mapped, Option.getD_some]

theorem coapGetTkl_firstByte (mapped : 0 < pdu.mem.length) :
    coapGetTkl pdu = .ok (pdu.firstByte.toNat % 16) := by
  simp only [coapGetTkl, read_firstByte mapped, Exec.ok_bind, Exec.pure_eq_ok]

variable (fits : pdu.len ≤ pdu.max) (placed : pdu.Placed)

include fits placed

theorem validateOptions_eq_none {pos : Nat} (near : pos < 2 ^ 64) :
    validateOptions pdu pos = .ok .ceNone ↔ pdu.len = pos ∨ pdu.StartsOption pos := by
  have bounded := placed.buf_lt
  have mapped := placed.max_le
  by_cases atEnd : pdu.len = pos
  · simp [validateOptions, atEnd]
  · have more : sizeSub pdu.len pos ≠ 0 := by
      intro zero
      exact atEnd ((sizeSub_eq_zero (by omega) (by omega)).mp zero)
    simp only [atEnd, false_or]
    constructor
    · intro accepted
      obtain ⟨result, decoded, status⟩ := Exec.bind_eq_ok.mp accepted
      rw [Nat.add_zero] at decoded
      cases decodes_of_coapDecodeOption more decoded with
      | marker at_ => exact Or.inl ⟨_, at_⟩
      | reserved => cases status
      | found isHeader at_ => exact Or.inr ⟨_, _, _, _, isHeader, at_⟩
    · rintro (⟨rest, at_⟩ | ⟨header, delta, length, rest, isHeader, at_⟩)
      · have decoded := coapDecodeOption_of_decodes more
          (.marker at_ : Decodes pdu.mem pos 0 0 (some pos) _)
        simp [validateOptions, decoded, atEnd]
      · have decoded := coapDecodeOption_of_decodes more
          (.found isHeader at_ : Decodes pdu.mem pos 0 0 (some pos) _)
        simp [validateOptions, decoded]

/-- Validation accepts exactly the packets that pass its checks. -/
theorem coapValidatePkt_eq_none :
    coapValidatePkt pdu = .ok .ceNone ↔ pdu.PassesChecks := by
  have mapped := placed.max_le
  have bounded := placed.buf_lt
  have inBuffer : ¬ pdu.len > pdu.max := by omega
  by_cases short : pdu.len < 4
  · simp only [coapValidatePkt, inBuffer, short, if_false, if_true, Exec.pure_eq_ok,
      Except.ok.injEq, reduceCtorEq, false_iff]
    intro passes
    exact absurd passes.len_ge (by omega)
  · have first : pdu.mem.read 0 = .ok pdu.firstByte := read_firstByte (by omega)
    have tkl : coapGetTkl pdu = .ok (pdu.firstByte.toNat % 16) :=
      coapGetTkl_firstByte (by omega)
    have version : coapGetVersion pdu = .ok (pdu.firstByte.toNat / 64) := by
      simp only [coapGetVersion, first, Exec.ok_bind, Exec.pure_eq_ok]
    have tokenEnd : pdu.tokenEnd < 2 ^ 64 := by
      unfold CoapPdu.tokenEnd
      omega
    simp only [coapValidatePkt, inBuffer, short, if_false, version, tkl, Exec.ok_bind,
      Exec.pure_eq_ok]
    split_ifs with wrongVersion longToken
    · simp only [Except.ok.injEq, reduceCtorEq, false_iff]
      exact fun passes => wrongVersion passes.version
    · simp only [Except.ok.injEq, reduceCtorEq, false_iff]
      intro passes
      exact absurd passes.tkl_le (by omega)
    · refine (validateOptions_eq_none fits placed tokenEnd).trans ?_
      exact ⟨fun option => ⟨by omega, by omega, by omega, option⟩,
        fun passes => passes.option⟩

/-- Well-formedness of the packet, in terms of its first byte. -/
theorem wellFormed_packet_iff :
    WellFormed pdu.packet ↔ 4 ≤ pdu.len ∧ pdu.firstByte.toNat / 64 = 1 ∧
      pdu.firstByte.toNat % 16 ≤ 8 ∧ pdu.tokenEnd ≤ pdu.len ∧
        Body (pdu.packet.drop pdu.tokenEnd) := by
  have mapped := placed.max_le
  have size : pdu.packet.length = pdu.len := by
    rw [CoapPdu.packet, List.length_take]
    omega
  have front : pdu.packet ++ pdu.mem.drop pdu.len = pdu.mem := List.take_append_drop _ _
  constructor
  · intro wellFormed
    generalize shape : pdu.packet = bytes at wellFormed
    cases wellFormed with
    | @mk first code midHigh midLow token body version tokenLength tokenBound isBody =>
        have isFirst : pdu.firstByte = first := by
          rw [CoapPdu.firstByte, ← front, shape]
          rfl
        have length := congrArg List.length shape
        simp only [size, List.length_cons, List.length_append] at length
        have tokenEnd : pdu.tokenEnd = 4 + token.length := by
          rw [CoapPdu.tokenEnd, isFirst, tokenLength]
        refine ⟨by omega, by rw [isFirst]; exact version,
          by rw [isFirst]; omega, by omega, ?_⟩
        have split : first :: code :: midHigh :: midLow :: (token ++ body) =
            ([first, code, midHigh, midLow] ++ token) ++ body := by simp
        rw [tokenEnd, split, List.drop_left' (by simp; omega)]
        exact isBody
  · rintro ⟨long, version, tkl, inside, isBody⟩
    have tokenEnd : pdu.tokenEnd = 4 + pdu.firstByte.toNat % 16 := rfl
    match shape : pdu.packet, size with
    | first :: code :: midHigh :: midLow :: tail, size =>
        have isFirst : pdu.firstByte = first := by
          rw [CoapPdu.firstByte, ← front, shape]
          rfl
        rw [isFirst] at version tkl tokenEnd
        simp only [List.length_cons] at size
        have behind : (first :: code :: midHigh :: midLow :: tail).drop pdu.tokenEnd =
            tail.drop (first.toNat % 16) := by
          rw [tokenEnd, Nat.add_comm]
          rfl
        rw [shape, behind] at isBody
        have tokenLength : (tail.take (first.toNat % 16)).length = first.toNat % 16 := by
          rw [List.length_take]
          omega
        have assembled := @WellFormed.mk first code midHigh midLow
          (tail.take (first.toNat % 16)) _ version tokenLength (by omega) isBody
        rwa [List.take_append_drop] at assembled
    | [], size | [_], size | [_, _], size | [_, _, _], size =>
        simp only [List.length_cons, List.length_nil] at size
        omega

/-- A well-formed body starts like an option, or is empty. -/
theorem startsOption_of_body (inside : pdu.tokenEnd ≤ pdu.len)
    (isBody : Body (pdu.packet.drop pdu.tokenEnd)) :
    pdu.len = pdu.tokenEnd ∨ pdu.StartsOption pdu.tokenEnd := by
  have mapped := placed.max_le
  have size : pdu.packet.length = pdu.len := by
    rw [CoapPdu.packet, List.length_take]
    omega
  have behind : pdu.mem.drop pdu.tokenEnd =
      pdu.packet.drop pdu.tokenEnd ++ pdu.mem.drop pdu.len := by
    rw [← List.drop_append_of_le_length (by omega), CoapPdu.packet,
      List.take_append_drop]
  generalize tail : pdu.packet.drop pdu.tokenEnd = bytes at isBody behind
  cases isBody with
  | done =>
      left
      have length := congrArg List.length tail
      simp only [List.length_drop, size, List.length_nil] at length
      omega
  | payload => exact Or.inr (Or.inl ⟨_, behind⟩)
  | option complete more =>
      cases complete with
      | mk isHeader =>
          rw [List.append_assoc, List.append_assoc] at behind
          exact Or.inr (Or.inr ⟨_, _, _, _, isHeader, behind⟩)

end Checks

/-- Validation decides the grammar on a packet exactly when one of its checks
fails, or when what it does not check holds: the token is inside the packet and
complete options, then the end or a non-empty payload, follow it. -/
theorem coapValidatePkt_grammar_iff (pdu : CoapPdu) (fits : pdu.len ≤ pdu.max)
    (placed : pdu.Placed) :
    (coapValidatePkt pdu = .ok .ceNone ↔ WellFormed pdu.packet) ↔
      (¬ pdu.PassesChecks ∨
        (pdu.tokenEnd ≤ pdu.len ∧ Body (pdu.packet.drop pdu.tokenEnd))) := by
  rw [coapValidatePkt_eq_none fits placed, wellFormed_packet_iff fits placed]
  constructor
  · intro decides
    by_cases passes : pdu.PassesChecks
    · obtain ⟨-, -, -, inside, isBody⟩ := decides.mp passes
      exact Or.inr ⟨inside, isBody⟩
    · exact Or.inl passes
  · rintro (fails | ⟨inside, isBody⟩)
    · constructor
      · exact fun passes => absurd passes fails
      · rintro ⟨long, version, tkl, inside, isBody⟩
        have option := startsOption_of_body fits placed inside isBody
        exact absurd ⟨long, version, tkl, option⟩ fails
    · exact ⟨fun passes => ⟨passes.len_ge, passes.version, passes.tkl_le, inside, isBody⟩,
        fun ⟨long, version, tkl, _, _⟩ =>
          ⟨long, version, tkl, startsOption_of_body fits placed inside isBody⟩⟩

/-- A confirmable GET that ends in a payload marker without payload. -/
def bareMarker : CoapPdu := ⟨0x1000, [0x40, 0x01, 0x00, 0x37, 0xFF], 5, 5⟩

theorem bareMarker_placed : bareMarker.Placed := ⟨by decide, by decide, by decide⟩

theorem bareMarker_not_wellFormed : ¬ WellFormed bareMarker.packet := by
  rw [wellFormed_packet_iff (by decide) bareMarker_placed]
  rintro ⟨-, -, -, -, isBody⟩
  have tail : bareMarker.packet.drop bareMarker.tokenEnd = [0xFF] := by decide
  rw [tail] at isBody
  generalize shape : ([0xFF] : List UInt8) = bytes at isBody
  cases isBody with
  | done => cases shape
  | payload nonempty =>
      injection shape with _ empty
      exact nonempty empty.symm
  | option complete _ =>
      cases complete with
      | mk isHeader =>
          rw [List.append_assoc] at shape
          exact isHeader.ne_marker shape.symm

/-- Validation accepts a packet outside the grammar. -/
theorem coapValidatePkt_accepts_bareMarker :
    ¬ (coapValidatePkt bareMarker = .ok .ceNone ↔ WellFormed bareMarker.packet) := by
  intro decides
  exact bareMarker_not_wellFormed (decides.mp (by decide))

/-- On the packet with the bare marker both sides of the condition fail. -/
theorem coapValidatePkt_grammar_iff_bareMarker :
    bareMarker.len ≤ bareMarker.max ∧ bareMarker.Placed ∧
      ((coapValidatePkt bareMarker = .ok .ceNone ↔ WellFormed bareMarker.packet) ↔
        (¬ bareMarker.PassesChecks ∨
          (bareMarker.tokenEnd ≤ bareMarker.len ∧
            Body (bareMarker.packet.drop bareMarker.tokenEnd)))) :=
  ⟨by decide, bareMarker_placed,
    coapValidatePkt_grammar_iff bareMarker (by decide) bareMarker_placed⟩

end ExositeCoap.Coap
