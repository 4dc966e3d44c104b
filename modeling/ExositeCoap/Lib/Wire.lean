import Mathlib.Data.List.TakeWhile
import ExositeCoap.Lib.Memory

/-!
# The CoAP message format

Messages as CoAP puts them on the wire, in two forms.  `Message.encode` is the
encoding of an abstract message: header, token, delta-coded options, payload.
`WellFormed` is the grammar of byte strings, with no reference to an encoder.
Both rest on `Field`, the variable-width code shared by option deltas and
option lengths.
-/

namespace ExositeCoap.Wire

/-! ## Variable-width fields -/

/-- `Field nibble ext value`: a header nibble followed (later) by the extension
bytes `ext` denotes `value`. The nibble 15 denotes nothing. -/
inductive Field : Nat → List UInt8 → Nat → Prop where
  | direct {nibble : Nat} (small : nibble < 13) : Field nibble [] nibble
  | byte (low : UInt8) : Field 13 [low] (low.toNat + 13)
  | word (high low : UInt8) : Field 14 [high, low] (high.toNat * 256 + low.toNat + 269)

/-- Nibble chosen for a field value. -/
def fieldNibble (value : Nat) : Nat :=
  if value < 13 then value else if value < 269 then 13 else 14

/-- Extension bytes chosen for a field value. -/
def fieldExt (value : Nat) : List UInt8 :=
  if value < 13 then []
  else if value < 269 then [UInt8.ofNat (value - 13)]
  else [UInt8.ofNat ((value - 269) / 256), UInt8.ofNat ((value - 269) % 256)]

theorem fieldNibble_le (value : Nat) : fieldNibble value ≤ 14 := by
  unfold fieldNibble
  split_ifs <;> omega

/-- The chosen nibble and extension denote the value. -/
theorem field_fieldExt {value : Nat} (bounded : value ≤ 65804) :
    Field (fieldNibble value) (fieldExt value) value := by
  unfold fieldNibble fieldExt
  split_ifs with small medium
  · exact .direct small
  · have low : (UInt8.ofNat (value - 13)).toNat + 13 = value := by
      rw [UInt8.toNat_ofNat']
      omega
    have field := Field.byte (UInt8.ofNat (value - 13))
    rwa [low] at field
  · have bytes : (UInt8.ofNat ((value - 269) / 256)).toNat * 256 +
        (UInt8.ofNat ((value - 269) % 256)).toNat + 269 = value := by
      rw [UInt8.toNat_ofNat', UInt8.toNat_ofNat']
      omega
    have field := Field.word (UInt8.ofNat ((value - 269) / 256))
      (UInt8.ofNat ((value - 269) % 256))
    rwa [bytes] at field

theorem Field.nibble_lt {nibble value : Nat} {ext : List UInt8}
    (field : Field nibble ext value) : nibble < 15 := by
  cases field <;> omega

theorem Field.ext_length_le {nibble value : Nat} {ext : List UInt8}
    (field : Field nibble ext value) : ext.length ≤ 2 := by
  cases field <;> simp

/-- Two fields with the same nibble that begin the same bytes are equal. -/
theorem Field.unique {nibble left right : Nat} {leftExt rightExt : List UInt8}
    {leftRest rightRest : List UInt8} (leftField : Field nibble leftExt left)
    (rightField : Field nibble rightExt right)
    (same : leftExt ++ leftRest = rightExt ++ rightRest) :
    leftExt = rightExt ∧ left = right ∧ leftRest = rightRest := by
  cases leftField <;> cases rightField <;> simp_all

/-- A value has a single form: nibble and extension are those that are chosen for it. -/
theorem Field.canonical {nibble value : Nat} {ext : List UInt8}
    (field : Field nibble ext value) :
    nibble = fieldNibble value ∧ ext = fieldExt value := by
  unfold fieldNibble fieldExt
  cases field with
  | direct small => simp [small]
  | byte low =>
      have := low.toNat_lt
      have large : ¬ low.toNat + 13 < 13 := by omega
      have medium : low.toNat + 13 < 269 := by omega
      simp [large, medium]
  | word high low =>
      have := low.toNat_lt
      have large : ¬ high.toNat * 256 + low.toNat + 269 < 13 := by omega
      have larger : ¬ high.toNat * 256 + low.toNat + 269 < 269 := by omega
      have quotient : (high.toNat * 256 + low.toNat) / 256 = high.toNat := by omega
      have rest : (high.toNat * 256 + low.toNat) % 256 = low.toNat := by omega
      simp only [large, larger, if_false, Nat.add_sub_cancel, quotient, rest,
        UInt8.ofNat_toNat, and_self]

/-! ## Options -/

/-- `Header bytes delta length`: an option header with both of its fields. -/
inductive Header : List UInt8 → Nat → Nat → Prop where
  | mk {first : UInt8} {deltaExt lengthExt : List UInt8} {delta length : Nat}
      (deltaField : Field (first.toNat / 16) deltaExt delta)
      (lengthField : Field (first.toNat % 16) lengthExt length) :
      Header (first :: (deltaExt ++ lengthExt)) delta length

/-- Bytes that open an option with the reserved nibble 15, up to the point where
it shows: a reserved delta nibble at once, a reserved length nibble behind the
extended delta. The marker byte `0xFF` is not among them. -/
inductive Reserved : List UInt8 → Prop where
  | delta {first : UInt8} (notMarker : first ≠ 0xFF)
      (reserved : first.toNat / 16 = 15) : Reserved [first]
  | length {first : UInt8} {deltaExt : List UInt8} {delta : Nat}
      (deltaField : Field (first.toNat / 16) deltaExt delta)
      (reserved : first.toNat % 16 = 15) : Reserved (first :: deltaExt)

theorem Reserved.length_pos {bytes : List UInt8} (reserved : Reserved bytes) :
    0 < bytes.length := by
  cases reserved <;> simp

/-- The header written for a delta and a length. -/
def optionHeader (delta length : Nat) : List UInt8 :=
  UInt8.ofNat (fieldNibble delta * 16 + fieldNibble length) ::
    (fieldExt delta ++ fieldExt length)

theorem header_optionHeader {delta length : Nat} (deltaBound : delta ≤ 65804)
    (lengthBound : length ≤ 65804) :
    Header (optionHeader delta length) delta length := by
  have deltaNibble := fieldNibble_le delta
  have lengthNibble := fieldNibble_le length
  have first : (UInt8.ofNat (fieldNibble delta * 16 + fieldNibble length)).toNat =
      fieldNibble delta * 16 + fieldNibble length := by
    rw [UInt8.toNat_ofNat']
    omega
  apply Header.mk
  · rw [first, show (fieldNibble delta * 16 + fieldNibble length) / 16 =
      fieldNibble delta by omega]
    exact field_fieldExt deltaBound
  · rw [first, show (fieldNibble delta * 16 + fieldNibble length) % 16 =
      fieldNibble length by omega]
    exact field_fieldExt lengthBound

/-- An option header has a single form too. -/
theorem Header.canonical {bytes : List UInt8} {delta length : Nat}
    (header : Header bytes delta length) : bytes = optionHeader delta length := by
  cases header with
  | @mk first deltaExt lengthExt _ _ deltaField lengthField =>
      obtain ⟨deltaNibble, rfl⟩ := deltaField.canonical
      obtain ⟨lengthNibble, rfl⟩ := lengthField.canonical
      have isFirst : fieldNibble delta * 16 + fieldNibble length = first.toNat := by omega
      rw [optionHeader, isFirst, UInt8.ofNat_toNat]

theorem Header.length_pos {bytes : List UInt8} {delta length : Nat}
    (header : Header bytes delta length) : 0 < bytes.length := by
  cases header
  simp

theorem Header.bytes_length_le {bytes : List UInt8} {delta length : Nat}
    (header : Header bytes delta length) : bytes.length ≤ 5 := by
  cases header with
  | mk deltaField lengthField =>
      have := deltaField.ext_length_le
      have := lengthField.ext_length_le
      simp only [List.length_cons, List.length_append]
      omega

/-- No header starts with the payload marker. -/
theorem Header.ne_marker {bytes rest tail : List UInt8} {delta length : Nat}
    (header : Header bytes delta length) : bytes ++ rest ≠ 0xFF :: tail := by
  cases header with
  | mk deltaField _ =>
      intro equal
      injection equal with equal
      subst equal
      have small := deltaField.nibble_lt
      simp at small

/-- A byte string has at most one option header in front. -/
theorem Header.unique {left right leftRest rightRest : List UInt8}
    {leftDelta leftLength rightDelta rightLength : Nat}
    (leftHeader : Header left leftDelta leftLength)
    (rightHeader : Header right rightDelta rightLength)
    (same : left ++ leftRest = right ++ rightRest) :
    left = right ∧ leftDelta = rightDelta ∧ leftLength = rightLength ∧
      leftRest = rightRest := by
  cases leftHeader with
  | mk leftDeltaField leftLengthField =>
      cases rightHeader with
      | mk rightDeltaField rightLengthField =>
          simp only [List.cons_append, List.append_assoc, List.cons.injEq] at same
          obtain ⟨rfl, same⟩ := same
          obtain ⟨rfl, rfl, same⟩ := leftDeltaField.unique rightDeltaField same
          obtain ⟨rfl, rfl, rfl⟩ := leftLengthField.unique rightLengthField same
          exact ⟨rfl, rfl, rfl, rfl⟩

/-- One option: its number and its value. -/
structure Opt where
  num : Nat
  value : List UInt8
  deriving DecidableEq, Repr

/-- Options in order, each coded relative to the number before it. -/
def encodeOptions (previous : Nat) : List Opt → List UInt8
  | [] => []
  | option :: rest =>
      optionHeader (option.num - previous) option.value.length ++
        (option.value ++ encodeOptions option.num rest)

/-- Numbers never decrease and stay in range, as do the value lengths. -/
def Ascending (previous : Nat) : List Opt → Prop
  | [] => True
  | option :: rest =>
      previous ≤ option.num ∧ option.num ≤ 65535 ∧ option.value.length ≤ 65535 ∧
        Ascending option.num rest

/-- Number of the last option. -/
def lastNum (previous : Nat) : List Opt → Nat
  | [] => previous
  | option :: rest => lastNum option.num rest

theorem encodeOptions_append (previous : Nat) (front back : List Opt) :
    encodeOptions previous (front ++ back) =
      encodeOptions previous front ++ encodeOptions (lastNum previous front) back := by
  induction front generalizing previous with
  | nil => rfl
  | cons option rest ih => simp [encodeOptions, lastNum, ih]

theorem ascending_append {previous : Nat} {front back : List Opt} :
    Ascending previous (front ++ back) ↔
      Ascending previous front ∧ Ascending (lastNum previous front) back := by
  induction front generalizing previous with
  | nil => simp [Ascending, lastNum]
  | cons option rest ih => simp [Ascending, lastNum, ih, and_assoc]

theorem Ascending.le_lastNum {previous : Nat} {options : List Opt}
    (ascending : Ascending previous options) : previous ≤ lastNum previous options := by
  induction options generalizing previous with
  | nil => exact Nat.le_refl _
  | cons option rest ih => exact Nat.le_trans ascending.1 (ih ascending.2.2.2)

/-- Every number of an ascending list is at most the last one. -/
theorem Ascending.num_le_lastNum {previous : Nat} {options : List Opt}
    (ascending : Ascending previous options) :
    ∀ option ∈ options, option.num ≤ lastNum previous options := by
  induction options generalizing previous with
  | nil => simp
  | cons head rest ih =>
      intro option member
      rcases List.mem_cons.mp member with rfl | member
      · exact ascending.2.2.2.le_lastNum
      · exact ih ascending.2.2.2 option member

/-- The numbers of an ascending list do not decrease. -/
theorem Ascending.sorted {previous : Nat} {options : List Opt}
    (ascending : Ascending previous options) :
    (∀ option ∈ options, previous ≤ option.num) ∧
      (options.map (·.num)).Pairwise (· ≤ ·) := by
  induction options generalizing previous with
  | nil => simp
  | cons head rest ih =>
      obtain ⟨lower, sorted⟩ := ih ascending.2.2.2
      constructor
      · intro option member
        rcases List.mem_cons.mp member with rfl | member
        · exact ascending.1
        · exact Nat.le_trans ascending.1 (lower option member)
      · simpa using ⟨lower, sorted⟩

theorem lastNum_le {previous bound : Nat} {options : List Opt}
    (start : previous ≤ bound) (every : ∀ option ∈ options, option.num ≤ bound) :
    lastNum previous options ≤ bound := by
  induction options generalizing previous with
  | nil => exact start
  | cons head rest ih =>
      exact ih (every head List.mem_cons_self)
        (fun option member => every option (List.mem_cons_of_mem _ member))

/-! ## Messages -/

/-- The four message types. -/
inductive MessageType where
  | con
  | non
  | ack
  | rst
  deriving DecidableEq, Repr

namespace MessageType

/-- Two-bit code of a message type. -/
def bits : MessageType → Nat
  | con => 0
  | non => 1
  | ack => 2
  | rst => 3

/-- Message type of a two-bit code. -/
def ofBits (code : Nat) : MessageType :=
  match code % 4 with
  | 0 => con
  | 1 => non
  | 2 => ack
  | _ => rst

theorem bits_lt (kind : MessageType) : kind.bits < 4 := by
  cases kind <;> decide

@[simp] theorem ofBits_bits (kind : MessageType) : ofBits kind.bits = kind := by
  cases kind <;> rfl

end MessageType

/-- An abstract message. -/
structure Message where
  kind : MessageType
  code : UInt8
  mid : UInt16
  token : List UInt8
  options : List Opt
  payload : Option (List UInt8)
  deriving DecidableEq, Repr

namespace Message

/-- Payload marker and payload. -/
def payloadBytes : Option (List UInt8) → List UInt8
  | none => []
  | some payload => 0xFF :: payload

/-- The four bytes in front of the token. -/
def fixedHeader (message : Message) : List UInt8 :=
  [UInt8.ofNat (64 + message.kind.bits * 16 + message.token.length), message.code,
    UInt8.ofNat (message.mid.toNat / 256), UInt8.ofNat (message.mid.toNat % 256)]

/-- Everything behind the token. -/
def body (message : Message) : List UInt8 :=
  encodeOptions 0 message.options ++ payloadBytes message.payload

/-- The wire form of a message. -/
def encode (message : Message) : List UInt8 :=
  message.fixedHeader ++ (message.token ++ message.body)

/-- What can be put on the wire: a token of at most eight bytes, options in
order. The payload marker may still be followed by nothing. -/
structure Encodable (message : Message) : Prop where
  token_le : message.token.length ≤ 8
  ascending : Ascending 0 message.options

/-- What the grammar allows: in addition, no empty payload. -/
structure Valid (message : Message) : Prop extends message.Encodable where
  payload_ne : message.payload ≠ some []

@[simp] theorem fixedHeader_length (message : Message) :
    message.fixedHeader.length = 4 := rfl

theorem body_length (message : Message) : message.body.length =
    (encodeOptions 0 message.options).length + (payloadBytes message.payload).length :=
  List.length_append

theorem encode_length (message : Message) :
    message.encode.length = 4 + message.token.length + message.body.length := by
  simp only [encode, List.length_append, fixedHeader_length]
  omega

end Message

/-! ## The grammar -/

/-- A complete option: header and value, with nothing missing. -/
inductive CompleteOption : List UInt8 → Prop where
  | mk {header value : List UInt8} {delta : Nat}
      (isHeader : Header header delta value.length) : CompleteOption (header ++ value)

/-- Complete options up to the end of the packet, or up to a payload marker with
at least one byte of payload. -/
inductive Body : List UInt8 → Prop where
  | done : Body []
  | payload {bytes : List UInt8} (nonempty : bytes ≠ []) : Body (0xFF :: bytes)
  | option {option rest : List UInt8} (complete : CompleteOption option)
      (more : Body rest) : Body (option ++ rest)

/-- The byte strings that are CoAP messages of version 1. -/
inductive WellFormed : List UInt8 → Prop where
  | mk {first code midHigh midLow : UInt8} {token body : List UInt8}
      (version : first.toNat / 64 = 1) (tokenLength : token.length = first.toNat % 16)
      (tokenBound : token.length ≤ 8) (isBody : Body body) :
      WellFormed (first :: code :: midHigh :: midLow :: (token ++ body))

/-- The header of the first of several encoded options. -/
theorem Ascending.header {previous : Nat} {option : Opt} {rest : List Opt}
    (ascending : Ascending previous (option :: rest)) :
    Header (optionHeader (option.num - previous) option.value.length) (option.num - previous)
      option.value.length := by
  obtain ⟨-, numBound, lengthBound, -⟩ := ascending
  exact header_optionHeader (by omega) (by omega)

/-- An option takes at most five bytes beside its value. -/
theorem encodeOptions_length_le {previous : Nat} {options : List Opt}
    (ascending : Ascending previous options) :
    (encodeOptions previous options).length ≤
      (options.map fun option => 5 + option.value.length).sum := by
  induction options generalizing previous with
  | nil => exact Nat.le_refl _
  | cons option more ih =>
      have header := ascending.header.bytes_length_le
      have rest := ih ascending.2.2.2
      rw [encodeOptions, List.length_append, List.length_append, List.map_cons, List.sum_cons]
      omega

theorem body_encodeOptions {previous : Nat} {options : List Opt} {rest : List UInt8}
    (ascending : Ascending previous options) (isBody : Body rest) :
    Body (encodeOptions previous options ++ rest) := by
  induction options generalizing previous with
  | nil => exact isBody
  | cons option more ih =>
      have assembled := Body.option (.mk ascending.header) (ih ascending.2.2.2)
      simpa [encodeOptions] using assembled

/-- What follows encoded options in a body is a body. -/
theorem Body.of_encodeOptions {previous : Nat} {options : List Opt} {rest : List UInt8}
    (ascending : Ascending previous options)
    (isBody : Body (encodeOptions previous options ++ rest)) : Body rest := by
  induction options generalizing previous with
  | nil => exact isBody
  | cons option more ih =>
      have header := ascending.header
      rw [encodeOptions, List.append_assoc, List.append_assoc] at isBody
      generalize bytes : optionHeader (option.num - previous) option.value.length ++
        (option.value ++ (encodeOptions option.num more ++ rest)) = whole at isBody
      cases isBody with
      | done => exact absurd (List.append_eq_nil_iff.mp bytes).1 (by simp [optionHeader])
      | payload => exact absurd bytes header.ne_marker
      | option complete isMore =>
          cases complete with
          | mk other =>
              rw [List.append_assoc] at bytes
              obtain ⟨-, -, length, bytes⟩ := header.unique other bytes
              have same := List.append_inj bytes length
              rw [← same.2] at isMore
              exact ih ascending.2.2.2 isMore

/-- The encoder produces well-formed byte strings. -/
theorem Message.Valid.wellFormed {message : Message} (valid : message.Valid) :
    WellFormed message.encode := by
  have kindBound := message.kind.bits_lt
  have tokenBound := valid.token_le
  have first : (UInt8.ofNat (64 + message.kind.bits * 16 + message.token.length)).toNat =
      64 + message.kind.bits * 16 + message.token.length := by
    rw [UInt8.toNat_ofNat']
    omega
  have isBody : Body message.body := by
    apply body_encodeOptions valid.ascending
    cases payload : message.payload with
    | none => exact .done
    | some bytes =>
        apply Body.payload
        intro empty
        exact valid.payload_ne (by rw [payload, empty])
  have version : (UInt8.ofNat (64 + message.kind.bits * 16 +
      message.token.length)).toNat / 64 = 1 := by omega
  have tokenLength : message.token.length = (UInt8.ofNat (64 + message.kind.bits * 16 +
      message.token.length)).toNat % 16 := by omega
  exact @WellFormed.mk _ _ _ _ message.token message.body version tokenLength
    tokenBound isBody

/-- Only a marker without payload makes an encoded message ill-formed. -/
theorem Message.Encodable.wellFormed_iff {message : Message} (encodable : message.Encodable) :
    WellFormed message.encode ↔ message.payload ≠ some [] := by
  refine ⟨?_, fun nonempty => Valid.wellFormed ⟨encodable, nonempty⟩⟩
  intro wellFormed empty
  have kindBound := message.kind.bits_lt
  have tokenBound := encodable.token_le
  have first : (UInt8.ofNat (64 + message.kind.bits * 16 + message.token.length)).toNat % 16 =
      message.token.length := by
    rw [UInt8.toNat_ofNat']
    omega
  have bytes : message.encode = UInt8.ofNat (64 + message.kind.bits * 16 +
      message.token.length) :: message.code :: UInt8.ofNat (message.mid.toNat / 256) ::
        UInt8.ofNat (message.mid.toNat % 256) :: (message.token ++ message.body) := rfl
  rw [bytes] at wellFormed
  generalize whole : UInt8.ofNat _ :: message.code :: _ = datagram at wellFormed
  cases wellFormed with
  | mk _ tokenLength _ isBody =>
      simp only [List.cons.injEq] at whole
      obtain ⟨rfl, -, -, -, whole⟩ := whole
      obtain ⟨-, rfl⟩ := List.append_inj whole (by omega)
      rw [Message.body, empty] at isBody
      have marker := isBody.of_encodeOptions encodable.ascending
      generalize isMarker : Message.payloadBytes (some []) = bare at marker
      cases marker with
      | done => cases isMarker
      | payload nonempty =>
          injection isMarker with _ same
          exact nonempty same.symm
      | option complete =>
          cases complete with
          | mk header =>
              rw [List.append_assoc] at isMarker
              exact header.ne_marker isMarker.symm

/-! ## Messages in range

Option numbers have 16 bits and are not zero, and so have the lengths of values.
Within these limits the grammar and the encoder describe the same byte strings. -/

/-- A body whose option numbers, counted from `previous`, and lengths are in range. -/
inductive NumberedBody : Nat → List UInt8 → Prop where
  | done {previous : Nat} : NumberedBody previous []
  | payload {previous : Nat} {bytes : List UInt8} (nonempty : bytes ≠ []) :
      NumberedBody previous (0xFF :: bytes)
  | option {previous delta : Nat} {header value rest : List UInt8}
      (isHeader : Header header delta value.length) (positive : 1 ≤ previous + delta)
      (inRange : previous + delta ≤ 65535) (short : value.length ≤ 65535)
      (more : NumberedBody (previous + delta) rest) :
      NumberedBody previous (header ++ (value ++ rest))

/-- The messages of version 1 whose options are in range. -/
inductive WellNumbered : List UInt8 → Prop where
  | mk {first code midHigh midLow : UInt8} {token body : List UInt8}
      (version : first.toNat / 64 = 1) (tokenLength : token.length = first.toNat % 16)
      (tokenBound : token.length ≤ 8) (isBody : NumberedBody 0 body) :
      WellNumbered (first :: code :: midHigh :: midLow :: (token ++ body))

/-- A body in range is the encoding of its options and its payload. -/
theorem NumberedBody.decode {previous : Nat} {body : List UInt8}
    (isBody : NumberedBody previous body) : ∃ options payload,
      body = encodeOptions previous options ++ Message.payloadBytes payload ∧
        Ascending previous options ∧ (∀ option ∈ options, option.num ≠ 0) ∧
          payload ≠ some [] := by
  induction isBody with
  | done => exact ⟨[], none, rfl, trivial, by simp, by simp⟩
  | @payload _ bytes nonempty =>
      exact ⟨[], some bytes, rfl, trivial, by simp, by simpa using nonempty⟩
  | @option previous delta header value rest isHeader positive inRange short _ ih =>
      obtain ⟨options, payload, rfl, ascending, nonzero, nonempty⟩ := ih
      refine ⟨⟨previous + delta, value⟩ :: options, payload, ?_,
        ⟨Nat.le_add_right _ _, inRange, short, ascending⟩, ?_, nonempty⟩
      · rw [encodeOptions, isHeader.canonical, Nat.add_sub_cancel_left]
        simp only [List.append_assoc]
      · intro option member
        rcases List.mem_cons.mp member with rfl | member
        · exact Nat.ne_of_gt positive
        · exact nonzero option member

theorem MessageType.bits_ofBits (code : Nat) : (MessageType.ofBits code).bits = code % 4 := by
  obtain small | small | small | small :
      code % 4 = 0 ∨ code % 4 = 1 ∨ code % 4 = 2 ∨ code % 4 = 3 := by omega
  all_goals simp [MessageType.ofBits, MessageType.bits, small]

/-- A header, a token and a body make up an encoded message. -/
theorem encode_eq {first code midHigh midLow : UInt8} {token : List UInt8} (options : List Opt)
    (payload : Option (List UInt8)) (version : first.toNat / 64 = 1)
    (tokenLength : token.length = first.toNat % 16) :
    first :: code :: midHigh :: midLow ::
        (token ++ (encodeOptions 0 options ++ Message.payloadBytes payload)) =
      Message.encode ⟨.ofBits (first.toNat / 16), code,
        UInt16.ofNat (midHigh.toNat * 256 + midLow.toNat), token, options, payload⟩ := by
  have high := midHigh.toNat_lt
  have low := midLow.toNat_lt
  have isFirst : 64 + first.toNat / 16 % 4 * 16 + token.length = first.toNat := by omega
  have isMid : (UInt16.ofNat (midHigh.toNat * 256 + midLow.toNat)).toNat =
      midHigh.toNat * 256 + midLow.toNat := by
    rw [UInt16.toNat_ofNat']
    omega
  have quotient : (midHigh.toNat * 256 + midLow.toNat) / 256 = midHigh.toNat := by omega
  have rest : (midHigh.toNat * 256 + midLow.toNat) % 256 = midLow.toNat := by omega
  simp only [Message.encode, Message.fixedHeader, Message.body, MessageType.bits_ofBits,
    isFirst, isMid, quotient, rest, UInt8.ofNat_toNat, List.cons_append, List.nil_append]

/-- A message in range is the encoding of an abstract message. -/
theorem WellNumbered.decode {bytes : List UInt8} (wellNumbered : WellNumbered bytes) :
    ∃ message : Message, bytes = message.encode ∧ message.Valid ∧
      ∀ option ∈ message.options, option.num ≠ 0 := by
  cases wellNumbered with
  | mk version tokenLength tokenBound isBody =>
      obtain ⟨options, payload, rfl, ascending, nonzero, nonempty⟩ := isBody.decode
      exact ⟨_, encode_eq options payload version tokenLength,
        ⟨⟨tokenBound, ascending⟩, nonempty⟩, nonzero⟩

/-! ## Messages of any range

The grammar bounds neither the numbers of the options, which are sums of deltas, nor the
lengths of values beyond what a field can say. -/

/-- A body whose option numbers, counted from `previous`, are not zero. -/
inductive PositiveBody : Nat → List UInt8 → Prop where
  | done {previous : Nat} : PositiveBody previous []
  | payload {previous : Nat} {bytes : List UInt8} (nonempty : bytes ≠ []) :
      PositiveBody previous (0xFF :: bytes)
  | option {previous delta : Nat} {header value rest : List UInt8}
      (isHeader : Header header delta value.length) (positive : 1 ≤ previous + delta)
      (more : PositiveBody (previous + delta) rest) :
      PositiveBody previous (header ++ (value ++ rest))

/-- The messages of version 1 whose option numbers are not zero. -/
inductive Numbered : List UInt8 → Prop where
  | mk {first code midHigh midLow : UInt8} {token body : List UInt8}
      (version : first.toNat / 64 = 1) (tokenLength : token.length = first.toNat % 16)
      (tokenBound : token.length ≤ 8) (isBody : PositiveBody 0 body) :
      Numbered (first :: code :: midHigh :: midLow :: (token ++ body))

/-- Numbers never decrease, and each header can say the delta and the length. -/
def Coded (previous : Nat) : List Opt → Prop
  | [] => True
  | option :: rest =>
      previous ≤ option.num ∧ option.num - previous ≤ 65804 ∧ option.value.length ≤ 65804 ∧
        Coded option.num rest

/-- Number and length have 16 bits. -/
def Opt.InRange (option : Opt) : Prop :=
  option.num ≤ 65535 ∧ option.value.length ≤ 65535

instance (option : Opt) : Decidable option.InRange :=
  inferInstanceAs (Decidable (_ ∧ _))

theorem ascending_iff {previous : Nat} {options : List Opt} :
    Ascending previous options ↔
      Coded previous options ∧ ∀ option ∈ options, option.InRange := by
  induction options generalizing previous with
  | nil => simp [Ascending, Coded]
  | cons option rest ih =>
      simp only [Ascending, Coded, ih, List.forall_mem_cons, Opt.InRange]
      constructor
      · rintro ⟨lower, upper, short, coded, inRange⟩
        exact ⟨⟨lower, by omega, by omega, coded⟩, ⟨upper, short⟩, inRange⟩
      · rintro ⟨⟨lower, -, -, coded⟩, ⟨upper, short⟩, inRange⟩
        exact ⟨lower, upper, short, coded, inRange⟩

theorem coded_append {previous : Nat} {front back : List Opt} :
    Coded previous (front ++ back) ↔
      Coded previous front ∧ Coded (lastNum previous front) back := by
  induction front generalizing previous with
  | nil => simp [Coded, lastNum]
  | cons option rest ih => simp [Coded, lastNum, ih, and_assoc]

theorem Field.value_le {nibble value : Nat} {ext : List UInt8} (field : Field nibble ext value) :
    value ≤ 65804 := by
  cases field with
  | direct small => omega
  | byte low =>
      have := low.toNat_lt
      omega
  | word high low =>
      have := high.toNat_lt
      have := low.toNat_lt
      omega

theorem Header.value_le {bytes : List UInt8} {delta length : Nat}
    (header : Header bytes delta length) : delta ≤ 65804 ∧ length ≤ 65804 := by
  cases header with
  | mk deltaField lengthField => exact ⟨deltaField.value_le, lengthField.value_le⟩

/-- A body is the encoding of its options and its payload. -/
theorem PositiveBody.decode {previous : Nat} {body : List UInt8}
    (isBody : PositiveBody previous body) : ∃ options payload,
      body = encodeOptions previous options ++ Message.payloadBytes payload ∧
        Coded previous options ∧ (∀ option ∈ options, option.num ≠ 0) ∧ payload ≠ some [] := by
  induction isBody with
  | done => exact ⟨[], none, rfl, trivial, by simp, by simp⟩
  | @payload _ bytes nonempty =>
      exact ⟨[], some bytes, rfl, trivial, by simp, by simpa using nonempty⟩
  | @option previous delta header value rest isHeader positive _ ih =>
      obtain ⟨options, payload, rfl, coded, nonzero, nonempty⟩ := ih
      obtain ⟨deltaBound, lengthBound⟩ := isHeader.value_le
      refine ⟨⟨previous + delta, value⟩ :: options, payload, ?_,
        ⟨Nat.le_add_right _ _, by dsimp only; omega, lengthBound, coded⟩,
        List.forall_mem_cons.mpr ⟨Nat.ne_of_gt positive, nonzero⟩, nonempty⟩
      rw [encodeOptions, isHeader.canonical, Nat.add_sub_cancel_left]
      simp only [List.append_assoc]

/-- What the grammar says about a message. -/
structure Message.WellCoded (message : Message) : Prop where
  token_le : message.token.length ≤ 8
  coded : Coded 0 message.options
  payload_ne : message.payload ≠ some []

/-- A message of the grammar is the encoding of an abstract message. -/
theorem Numbered.decode {bytes : List UInt8} (numbered : Numbered bytes) :
    ∃ message : Message, bytes = message.encode ∧ message.WellCoded ∧
      ∀ option ∈ message.options, option.num ≠ 0 := by
  cases numbered with
  | mk version tokenLength tokenBound isBody =>
      obtain ⟨options, payload, rfl, coded, nonzero, nonempty⟩ := isBody.decode
      exact ⟨_, encode_eq options payload version tokenLength, ⟨tokenBound, coded, nonempty⟩,
        nonzero⟩

/-- In range, the messages of the grammar are the valid ones. -/
theorem Message.WellCoded.valid_iff {message : Message} (wellCoded : message.WellCoded) :
    message.Valid ↔ ∀ option ∈ message.options, option.InRange := by
  constructor
  · exact fun valid => (ascending_iff.mp valid.ascending).2
  · exact fun inRange => ⟨⟨wellCoded.token_le, ascending_iff.mpr ⟨wellCoded.coded, inRange⟩⟩,
      wellCoded.payload_ne⟩

/-- The options in front of the first one out of range. -/
def Message.front (message : Message) : List Opt :=
  message.options.takeWhile fun option => decide option.InRange

/-- The options from the first one out of range on. -/
def Message.back (message : Message) : List Opt :=
  message.options.dropWhile fun option => decide option.InRange

theorem Message.front_append (message : Message) :
    message.front ++ message.back = message.options :=
  List.takeWhile_append_dropWhile

theorem Message.front_inRange (message : Message) :
    ∀ option ∈ message.front, option.InRange := by
  intro option member
  simpa using List.mem_takeWhile_imp member

theorem Message.front_eq_iff (message : Message) : message.front = message.options ↔
    ∀ option ∈ message.options, option.InRange := by
  rw [Message.front, List.takeWhile_eq_self_iff]
  simp only [decide_eq_true_eq]

theorem Message.WellCoded.ascending_front {message : Message} (wellCoded : message.WellCoded) :
    Ascending 0 message.front := by
  have coded := wellCoded.coded
  rw [← message.front_append, coded_append] at coded
  exact ascending_iff.mpr ⟨coded.1, message.front_inRange⟩

end ExositeCoap.Wire
