import ExositeCoap.Coap.Payload

/-!
# The memory behind a packet

The receive buffer is used again for every datagram, so that behind a packet stands what
earlier ones left there.  When the walk of `coap_get_payload` settles within the packet,
the getters do not depend on it (`coapGetPayload_samePacket`,
`coapGetOptionByNum_samePacket`).  Otherwise a single byte behind the packet decides
whether a payload is found (`payloadOffset_unsettled`).
-/

namespace ExositeCoap.Coap

open Lib Wire

/-- The same packet in the same buffer; only the bytes behind the packet may differ. -/
structure SamePacket (pdu other : CoapPdu) : Prop where
  cut : other.cut = pdu.cut
  mapped : other.mem.length = pdu.mem.length

/-- Bytes that the walk of `coap_get_payload` does not leave: it comes to their end, to a
payload marker or to a reserved nibble. -/
inductive Settled : List UInt8 → Prop where
  | done : Settled []
  | marker {rest : List UInt8} : Settled (0xFF :: rest)
  | reserved {first : UInt8} {rest : List UInt8} (notMarker : first ≠ 0xFF)
      (isReserved : first.toNat / 16 = 15 ∨ first.toNat % 16 = 15) : Settled (first :: rest)
  | option {header value rest : List UInt8} {delta length : Nat}
      (isHeader : Header header delta length) (complete : value.length = length % 2 ^ 16)
      (more : Settled rest) : Settled (header ++ (value ++ rest))

theorem SamePacket.refl (pdu : CoapPdu) : SamePacket pdu pdu := ⟨rfl, rfl⟩

theorem SamePacket.trans {first second third : CoapPdu} (before : SamePacket first second)
    (after : SamePacket second third) : SamePacket first third :=
  ⟨after.cut.trans before.cut, after.mapped.trans before.mapped⟩

namespace SamePacket

variable {pdu other : CoapPdu} (same : SamePacket pdu other)

include same

theorem buf : other.buf = pdu.buf := by
  have equal := congrArg CoapPdu.buf same.cut
  exact equal

theorem len : other.len = pdu.len := by
  have equal := congrArg CoapPdu.len same.cut
  exact equal

theorem max : other.max = pdu.max := by
  have equal := congrArg CoapPdu.max same.cut
  exact equal

theorem packet : other.packet = pdu.packet := congrArg CoapPdu.mem same.cut

theorem symm : SamePacket other pdu := ⟨same.cut.symm, same.mapped.symm⟩

theorem getElem? {index : Nat} (inside : index < pdu.len) :
    other.mem[index]? = pdu.mem[index]? := by
  have byte := congrArg (·[index]?) same.packet
  simp only [CoapPdu.packet, List.getElem?_take, same.len, inside, if_true] at byte
  exact byte

theorem read {index : Nat} (inside : index < pdu.len) :
    other.mem.read index = pdu.mem.read index := by
  rw [Mem.read, Mem.read, same.getElem? inside]

theorem slice {pos count : Nat} (inside : pos + count ≤ pdu.len) :
    other.mem.slice pos count = pdu.mem.slice pos count := by
  rw [Mem.slice, Mem.slice, same.mapped]
  split_ifs
  · rw [Except.ok.injEq]
    apply List.ext_getElem?
    intro index
    rw [List.getElem?_take, List.getElem?_take, List.getElem?_drop, List.getElem?_drop]
    split_ifs
    · exact same.getElem? (by omega)
    · rfl
  · rfl

theorem placed (isPlaced : pdu.Placed) : other.Placed where
  max_le := by
    rw [same.max, same.mapped]
    exact isPlaced.max_le
  buf_pos := by
    rw [same.buf]
    exact isPlaced.buf_pos
  buf_lt := by
    rw [same.buf, same.mapped]
    exact isPlaced.buf_lt

/-- What stands in the packet is decoded alike. -/
theorem coapDecodeOption_eq {pos num len : Nat} {val : Ptr} {result : DecodeResult}
    (more : sizeSub pdu.len pos ≠ 0) (decodes : Decodes pdu.packet pos num len val result) :
    coapDecodeOption other.mem pos (sizeSub other.len pos) num len val = .ok result ∧
      coapDecodeOption pdu.mem pos (sizeSub pdu.len pos) num len val = .ok result := by
  refine ⟨?_, coapDecodeOption_of_decodes more decodes.of_take⟩
  rw [same.len]
  rw [← same.packet] at decodes
  exact coapDecodeOption_of_decodes more decodes.of_take

/-! ### The header -/

section Header

variable (long : 4 ≤ pdu.len)

include long

theorem firstByte : other.firstByte = pdu.firstByte := by
  rw [CoapPdu.firstByte, CoapPdu.firstByte, List.headD_eq_head?_getD, List.headD_eq_head?_getD,
    List.head?_eq_getElem?, List.head?_eq_getElem?, same.getElem? (by omega)]

theorem tokenEnd : other.tokenEnd = pdu.tokenEnd := by
  rw [CoapPdu.tokenEnd, CoapPdu.tokenEnd, same.firstByte long]

theorem coapGetType_eq : coapGetType other = coapGetType pdu := by
  rw [coapGetType, coapGetType, same.read (by omega)]

theorem coapGetTkl_eq : coapGetTkl other = coapGetTkl pdu := by
  rw [coapGetTkl, coapGetTkl, same.read (by omega)]

theorem coapGetCode_eq : coapGetCode other = coapGetCode pdu := same.read (by omega)

theorem coapGetCodeClass_eq : coapGetCodeClass other = coapGetCodeClass pdu := by
  rw [coapGetCodeClass, coapGetCodeClass, same.coapGetCode_eq long]

theorem coapGetMid_eq : coapGetMid other = coapGetMid pdu := by
  rw [coapGetMid, coapGetMid, same.read (by omega), same.read (by omega)]

theorem hasPayload {bytes : List UInt8} (has : HasPayload pdu bytes) : HasPayload other bytes where
  inside := by
    rw [same.tokenEnd long, same.len]
    exact has.inside
  options := by
    rw [same.packet, same.tokenEnd long]
    exact has.options

/-- The payload of a copy of the packet, by the walk in it. -/
theorem coapGetPayload_eq (isPlaced : pdu.Placed) (fits : pdu.len ≤ pdu.max) :
    coapGetPayload other = (do
      match ← payloadOffset other (pdu.mem.length + 1) pdu.tokenEnd with
      | some (.ceFoundPayloadMarker, offset) =>
        return ⟨sizeSub (sizeSub pdu.len offset) 1, some (offset + 1)⟩
      | _ => return ⟨0, none⟩) := by
  have inBuffer := isPlaced.max_le
  rw [coapGetPayload, same.coapGetTkl_eq long, coapGetTkl_firstByte (by omega), Exec.ok_bind,
    same.mapped, same.len]
  rfl

end Header

end SamePacket

/-! ## The payload of a settled packet -/

section Settled

variable {pdu other : CoapPdu} (fits : pdu.len ≤ pdu.max) (placed : pdu.Placed)
  (same : SamePacket pdu other)

/-- The extension bytes of a delta are looked at even if a reserved length makes them
useless: they must be mapped. -/
theorem decodeExtended_ignored {mem otherMem : Mem} (mapped : otherMem.length = mem.length)
    (ptr nibble : Nat) {α : Type} (result : Exec α) :
    (decodeExtended otherMem ptr nibble >>= fun _ => result) =
      (decodeExtended mem ptr nibble >>= fun _ => result) := by
  have load : ∀ (address : Nat) {β : Type} (rest : Exec β),
      (otherMem.read address >>= fun _ => rest) = (mem.read address >>= fun _ => rest) := by
    intro address β rest
    by_cases inside : address < mem.length
    · rw [Mem.read_of_lt inside, Mem.read_of_lt (mapped ▸ inside)]
      rfl
    · have outside : ¬ address < otherMem.length := by omega
      simp [Mem.read, inside, outside]
  unfold decodeExtended
  split_ifs
  · rfl
  · simp only [bind_assoc, Exec.pure_eq_ok, Exec.ok_bind]
    exact load ptr result
  · simp only [bind_assoc, Exec.pure_eq_ok, Exec.ok_bind]
    rw [load (ptr + 1), load ptr]
  · rfl

/-- At a reserved nibble the decoder gives up. -/
theorem coapDecodeOption_reserved {mem : Mem} {pos pktLen num len : Nat} {val : Ptr}
    {first : UInt8} (more : pktLen ≠ 0) (loaded : mem.read pos = .ok first)
    (notMarker : first ≠ 0xFF)
    (isReserved : first.toNat / 16 = 15 ∨ first.toNat % 16 = 15) :
    coapDecodeOption mem pos pktLen num len val =
      (decodeExtended mem (pos + 1) (first.toNat / 16) >>= fun _ =>
        .ok ⟨.ceInvalidPacket, num, len, val⟩) := by
  have none : ∀ ptr, decodeExtended mem ptr 15 = .ok none :=
    fun ptr => decodeExtended_eq_none.mpr (Nat.le_refl 15)
  rw [coapDecodeOption, if_neg more, loaded, Exec.ok_bind, if_neg notMarker]
  rcases isReserved with isReserved | isReserved
  · rw [isReserved, none]
    rfl
  · refine congrArg _ (funext fun part => ?_)
    cases part with
    | none => rfl
    | some part =>
        rw [isReserved]
        dsimp only
        rw [none]
        rfl

include fits placed same

/-- The walk over settled bytes is the same in both copies, and a marker that it finds
stands in the packet. -/
theorem payloadOffset_samePacket {rest : Mem} (settled : Settled rest) {pos : Nat}
    (at_ : pdu.packet.drop pos = rest) (inside : pos ≤ pdu.len) (fuel : Nat) :
    payloadOffset other fuel pos = payloadOffset pdu fuel pos ∧
      ∀ offset, payloadOffset pdu fuel pos = .ok (some (.ceFoundPayloadMarker, offset)) →
        offset < pdu.len := by
  have size := packet_length fits placed
  have more : ∀ {pos : Nat} {front rest : Mem}, pdu.packet.drop pos = front ++ rest →
      0 < front.length → pos ≤ pdu.len → sizeSub pdu.len pos ≠ 0 ∧ pos < pdu.len := by
    intro pos front rest at_ nonempty inside
    have length := congrArg List.length at_
    rw [List.length_drop, size, List.length_append] at length
    exact ⟨sizeSub_len_ne_zero fits placed pos (by omega) (by omega), by omega⟩
  induction settled generalizing pos fuel with
  | done =>
      have length := congrArg List.length at_
      rw [List.length_drop, size, List.length_nil] at length
      cases fuel with
      | zero => exact ⟨rfl, by rintro _ ⟨⟩⟩
      | succ fuel =>
          rw [payloadOffset_end (by rw [same.len]; omega), payloadOffset_end (by omega)]
          exact ⟨rfl, by rintro _ ⟨⟩⟩
  | @marker rest =>
      cases fuel with
      | zero => exact ⟨rfl, by rintro _ ⟨⟩⟩
      | succ fuel =>
          obtain ⟨notEnd, before⟩ := @more pos [0xFF] rest at_ Nat.one_pos inside
          obtain ⟨decodedOther, decoded⟩ := same.coapDecodeOption_eq notEnd (.marker at_)
          rw [payloadOffset, payloadOffset, decodedOther, decoded]
          refine ⟨rfl, ?_⟩
          rintro offset found
          cases found
          exact before
  | @reserved first rest notMarker isReserved =>
      cases fuel with
      | zero => exact ⟨rfl, by rintro _ ⟨⟩⟩
      | succ fuel =>
          obtain ⟨notEnd, before⟩ := @more pos [first] rest at_ Nat.one_pos inside
          have loaded : pdu.mem.read pos = .ok first := by
            have byte := Mem.read_of_drop at_
            rw [Mem.read_eq_ok, CoapPdu.packet, List.getElem?_take, if_pos before] at byte
            exact Mem.read_eq_ok.mpr byte
          have loadedOther : other.mem.read pos = .ok first := by
            rw [same.read before, loaded]
          rw [payloadOffset, payloadOffset, same.len,
            coapDecodeOption_reserved notEnd loadedOther notMarker isReserved,
            coapDecodeOption_reserved notEnd loaded notMarker isReserved,
            decodeExtended_ignored same.mapped]
          -- both stop here, if the extension bytes are mapped
          cases decodeExtended pdu.mem (pos + 1) (first.toNat / 16) <;> exact ⟨rfl, by rintro _ ⟨⟩⟩
  | @option header value tail delta optLen isHeader complete _ ih =>
      cases fuel with
      | zero => exact ⟨rfl, by rintro _ ⟨⟩⟩
      | succ fuel =>
          obtain ⟨notEnd, -⟩ := more at_ isHeader.length_pos inside
          obtain ⟨decodedOther, decoded⟩ := same.coapDecodeOption_eq notEnd (.found isHeader at_)
          have length := congrArg List.length at_
          rw [List.length_drop, size, List.length_append, List.length_append] at length
          have behind : pdu.packet.drop (pos + header.length + optLen % 2 ^ 16) = tail := by
            rw [← complete]
            exact Mem.drop_add_of_append (Mem.drop_add_of_append at_)
          rw [payloadOffset, payloadOffset, decodedOther, decoded]
          simp only [Exec.ok_bind, Option.getD_some]
          exact ih behind (by omega) fuel

/-- The payload of a settled packet does not depend on what stands behind the packet, and
is part of the packet. -/
theorem coapGetPayload_samePacket (long : 4 ≤ pdu.len)
    (settled : pdu.tokenEnd ≤ pdu.len ∧ Settled (pdu.packet.drop pdu.tokenEnd)) :
    coapGetPayload other = coapGetPayload pdu ∧
      ∀ payload pos, coapGetPayload pdu = .ok payload → payload.val = some pos →
        pos + payload.len ≤ pdu.len := by
  have bounded := placed.buf_lt
  have mapped := placed.max_le
  obtain ⟨walk, marker⟩ := payloadOffset_samePacket fits placed same settled.2 rfl settled.1
    (pdu.mem.length + 1)
  have here : SamePacket pdu pdu := .refl pdu
  rw [same.coapGetPayload_eq long placed fits, here.coapGetPayload_eq long placed fits, walk]
  refine ⟨rfl, ?_⟩
  intro payload pos got place
  obtain ⟨result, isResult, got⟩ := Exec.bind_eq_ok.mp got
  split at got
  · rename_i offset
    have inside := marker offset isResult
    cases got
    cases place
    have left : sizeSub pdu.len offset = pdu.len - offset := sizeSub_of_le (by omega) (by omega)
    dsimp only
    rw [left, sizeSub_of_le (by omega) (by omega)]
    omega
  · cases got
    cases place

end Settled

/-! ## Packets that are not settled -/

section Unsettled

variable {pdu : CoapPdu}

/-- The packet with another byte in memory. -/
def CoapPdu.setByte (pdu : CoapPdu) (index : Nat) (byte : UInt8) : CoapPdu :=
  { pdu with mem := pdu.mem.set index byte }

@[simp] theorem CoapPdu.setByte_len (pdu : CoapPdu) (index : Nat) (byte : UInt8) :
    (pdu.setByte index byte).len = pdu.len := rfl

@[simp] theorem CoapPdu.setByte_mem (pdu : CoapPdu) (index : Nat) (byte : UInt8) :
    (pdu.setByte index byte).mem = pdu.mem.set index byte := rfl

theorem CoapPdu.setByte_drop_self {index : Nat} (inside : index < pdu.mem.length) (byte : UInt8) :
    (pdu.setByte index byte).mem.drop index = byte :: pdu.mem.drop (index + 1) := by
  rw [CoapPdu.setByte_mem, List.drop_set, if_neg (by omega), Nat.sub_self,
    List.drop_eq_getElem_cons inside, List.set_cons_zero]

theorem SamePacket.setByte {index : Nat} (behind : pdu.len ≤ index) (byte : UInt8) :
    SamePacket pdu (pdu.setByte index byte) where
  cut := by
    rw [CoapPdu.cut, CoapPdu.cut, CoapPdu.packet, CoapPdu.packet, CoapPdu.setByte,
      List.take_set_of_le behind]
  mapped := List.length_set

/-- What validation looks at: only the first byte of an option matters, if its header is
mapped. -/
theorem SamePacket.startsOption {other : CoapPdu} (same : SamePacket pdu other) {pos : Nat}
    (inside : pos < pdu.len) (starts : pdu.StartsOption pos) : other.StartsOption pos := by
  have extension : ∀ {nibble value : Nat} {ext fresh : List UInt8}, Field nibble ext value →
      fresh.length = ext.length → ∃ value, Field nibble fresh value := by
    intro nibble value ext fresh field size
    cases field with
    | direct small =>
        rw [List.length_nil, List.length_eq_zero_iff] at size
        subst size
        exact ⟨_, .direct small⟩
    | byte low =>
        obtain ⟨other, rfl⟩ := List.length_eq_one_iff.mp size
        exact ⟨_, .byte other⟩
    | word high low =>
        obtain ⟨first, second, rfl⟩ := List.length_eq_two.mp size
        exact ⟨_, .word first second⟩
  have byte := same.getElem? inside
  rcases starts with ⟨rest, at_⟩ | ⟨header, delta, length, rest, isHeader, at_⟩
  · rw [← List.head?_drop, ← List.head?_drop, at_, List.head?_cons] at byte
    obtain ⟨tail, isCons⟩ := List.head?_eq_some_iff.mp byte
    exact Or.inl ⟨tail, isCons⟩
  · cases isHeader with
    | @mk first deltaExt lengthExt delta length deltaField lengthField =>
        rw [← List.head?_drop, ← List.head?_drop, at_, List.cons_append, List.head?_cons] at byte
        obtain ⟨tail, isCons⟩ := List.head?_eq_some_iff.mp byte
        have size := congrArg List.length isCons
        have oldSize := congrArg List.length at_
        rw [List.length_drop, same.mapped, List.length_cons] at size
        simp only [List.length_drop, List.length_cons, List.length_append] at oldSize
        obtain ⟨newDelta, deltaField⟩ := extension deltaField
          (show (tail.take deltaExt.length).length = _ by rw [List.length_take]; omega)
        obtain ⟨newLength, lengthField⟩ := extension lengthField
          (show ((tail.drop deltaExt.length).take lengthExt.length).length = _ by
            rw [List.length_take, List.length_drop]; omega)
        refine Or.inr ⟨_, newDelta, newLength,
          (tail.drop deltaExt.length).drop lengthExt.length, .mk deltaField lengthField, ?_⟩
        rw [isCons, List.cons_append, List.append_assoc, List.take_append_drop,
          List.take_append_drop]

/-- A packet whose token ends in it is as valid as any other copy of it. -/
theorem SamePacket.passesChecks {other : CoapPdu} (same : SamePacket pdu other)
    (inside : pdu.tokenEnd ≤ pdu.len) (passes : pdu.PassesChecks) : other.PassesChecks where
  len_ge := by
    rw [same.len]
    exact passes.len_ge
  version := by
    rw [same.firstByte passes.len_ge]
    exact passes.version
  tkl_le := by
    rw [same.firstByte passes.len_ge]
    exact passes.tkl_le
  option := by
    rw [same.len, same.tokenEnd passes.len_ge]
    by_cases atEnd : pdu.len = pdu.tokenEnd
    · exact Or.inl atEnd
    · exact Or.inr (same.startsOption (by omega) (passes.option.resolve_left atEnd))

theorem Decodes.inMemory {mem : Mem} {pos num len : Nat} {val : Ptr} {result : DecodeResult}
    (decodes : Decodes mem pos num len val result) : pos < mem.length := by
  obtain ⟨first, rest, isCons⟩ : ∃ first rest, mem.drop pos = first :: rest := by
    cases decodes with
    | marker at_ => exact ⟨_, _, at_⟩
    | reserved isReserved at_ => cases isReserved <;> exact ⟨_, _, at_⟩
    | found isHeader at_ =>
        cases isHeader
        exact ⟨_, _, at_⟩
  have length := congrArg List.length isCons
  rw [List.length_drop, List.length_cons] at length
  omega

/-! ### Where the walk settles -/

theorem settled_of_marker {pos : Nat} {rest : Mem} (at_ : pdu.mem.drop pos = 0xFF :: rest)
    (inside : pos < pdu.len) : Settled (pdu.packet.drop pos) := by
  rw [@packet_drop_append pdu [0xFF] rest pos at_ inside]
  exact .marker

/-- Only the first byte of a reserved header has to stand in the packet. -/
theorem settled_of_reserved {pos : Nat} {front rest : Mem} (isReserved : Reserved front)
    (at_ : pdu.mem.drop pos = front ++ rest) (inside : pos < pdu.len) :
    Settled (pdu.packet.drop pos) := by
  cases isReserved with
  | @delta first notMarker isReserved =>
      rw [@packet_drop_append pdu [first] rest pos at_ inside]
      exact .reserved notMarker (Or.inl isReserved)
  | @length first deltaExt delta deltaField isReserved =>
      have notMarker : first ≠ 0xFF := by
        rintro rfl
        have small := deltaField.nibble_lt
        simp at small
      rw [@packet_drop_append pdu [first] (deltaExt ++ rest) pos at_ inside]
      exact .reserved notMarker (Or.inr isReserved)

/-- An option that is complete in the packet, in front of settled bytes. -/
theorem settled_of_found {pos delta length : Nat} {header rest : Mem}
    (isHeader : Header header delta length) (at_ : pdu.mem.drop pos = header ++ rest)
    (mapped : length % 2 ^ 16 ≤ rest.length)
    (inPacket : pos + header.length + length % 2 ^ 16 ≤ pdu.len)
    (settled : Settled (pdu.packet.drop (pos + header.length + length % 2 ^ 16))) :
    Settled (pdu.packet.drop pos) := by
  have complete : (rest.take (length % 2 ^ 16)).length = length % 2 ^ 16 := by
    rw [List.length_take]
    omega
  have whole : pdu.mem.drop pos =
      (header ++ rest.take (length % 2 ^ 16)) ++ rest.drop (length % 2 ^ 16) := by
    rw [at_, List.append_assoc, List.take_append_drop]
  have split := packet_drop_append whole (by rw [List.length_append, complete]; omega)
  rw [List.length_append, complete, ← Nat.add_assoc, List.append_assoc] at split
  rw [split]
  exact .option isHeader complete settled

/-- A header in front of the changed byte is decoded as before. -/
theorem coapDecodeOption_setByte {pos pktLen index delta length : Nat} {header rest : Mem}
    (more : pktLen ≠ 0) (isHeader : Header header delta length)
    (at_ : pdu.mem.drop pos = header ++ rest) (behind : pos + header.length ≤ index)
    (byte : UInt8) :
    coapDecodeOption (pdu.setByte index byte).mem pos pktLen 0 0 none =
      .ok ⟨.ceNone, (0 + delta) % 2 ^ 16, length % 2 ^ 16, some (pos + header.length)⟩ := by
  have kept : (pdu.setByte index byte).mem.drop pos =
      header ++ rest.set (index - pos - header.length) byte := by
    rw [CoapPdu.setByte_mem, List.drop_set, if_neg (by omega), at_,
      List.set_append_right _ _ (by omega)]
  exact coapDecodeOption_of_decodes more (.found isHeader kept)

section Walk

variable (fits : pdu.len ≤ pdu.max) (placed : pdu.Placed)

include fits placed

/-- A reserved byte behind the packet ends the walk. -/
theorem payloadOffset_reserved {pos : Nat} {rest : Mem} (behind : pos ≠ pdu.len)
    (near : pos < pdu.len + 2 ^ 63) (at_ : pdu.mem.drop pos = 0xF0 :: rest) (fuel : Nat) :
    payloadOffset pdu (fuel + 1) pos = .ok none := by
  have more := sizeSub_len_ne_zero fits placed pos near behind
  have isReserved : Reserved [0xF0] := .delta (by decide) (by decide)
  have decoded := coapDecodeOption_of_decodes more
    (.reserved isReserved at_ : Decodes pdu.mem pos 0 0 none _)
  rw [payloadOffset, decoded]
  rfl

/-- When the walk leaves the packet, the first byte that it decodes behind the packet
decides whether it finds a payload. -/
theorem payloadOffset_unsettled {fuel pos : Nat} {result : Option (CoapError × Nat)}
    (bounded : pdu.mem.length < 2 ^ 63) (near : pos < 2 ^ 63 + 2 ^ 16)
    (unsettled : pos ≤ pdu.len → ¬ Settled (pdu.packet.drop pos))
    (walk : payloadOffset pdu fuel pos = .ok result) :
    ∃ index, pos ≤ index ∧ pdu.len < index ∧ index < pdu.mem.length ∧
      payloadOffset (pdu.setByte index 0xFF) fuel pos =
        .ok (some (.ceFoundPayloadMarker, index)) ∧
      payloadOffset (pdu.setByte index 0xF0) fuel pos = .ok none := by
  have size := packet_length fits placed
  have mapped := placed.max_le
  induction fuel generalizing pos with
  | zero => cases walk
  | succ fuel ih =>
      have notEnd : pos ≠ pdu.len := by
        intro atEnd
        refine unsettled (by omega) ?_
        rw [List.drop_eq_nil_of_le (by omega)]
        exact .done
      have more : sizeSub pdu.len pos ≠ 0 := fun zero =>
        notEnd ((sizeSub_eq_zero (by omega) (by omega)).mp zero).symm
      obtain ⟨decoded, isDecoded, walk⟩ := Exec.bind_eq_ok.mp walk
      have decodes := decodes_of_coapDecodeOption more isDecoded
      have inMemory := decodes.inMemory
      by_cases behind : pdu.len < pos
      · have same := @SamePacket.setByte pdu pos (by omega) 0xF0
        refine ⟨pos, Nat.le_refl _, behind, inMemory, ?_, ?_⟩
        · exact @payloadOffset_marker (pdu.setByte pos 0xFF) pos _ more
            (CoapPdu.setByte_drop_self inMemory _) fuel
        · exact @payloadOffset_reserved (pdu.setByte pos 0xF0) fits (same.placed placed) pos _
            notEnd (by rw [CoapPdu.setByte_len]; omega) (CoapPdu.setByte_drop_self inMemory _) fuel
      · cases decodes with
        | marker at_ => exact absurd (settled_of_marker at_ (by omega)) (unsettled (by omega))
        | reserved isReserved at_ =>
            exact absurd (settled_of_reserved isReserved at_ (by omega)) (unsettled (by omega))
        | @found header rest delta length isHeader at_ =>
            have nonempty := isHeader.length_pos
            have total := congrArg List.length at_
            rw [List.length_drop, List.length_append] at total
            have short : length % 2 ^ 16 < 2 ^ 16 := Nat.mod_lt _ (by omega)
            simp only [Option.getD_some] at walk
            obtain ⟨index, later, outside, inside, marker, reserved⟩ := ih (by omega)
              (fun inPacket settled => unsettled (by omega)
                (settled_of_found isHeader at_ (by omega) inPacket settled)) walk
            have decodesTo := coapDecodeOption_setByte more isHeader at_
              (show pos + header.length ≤ index by omega)
            refine ⟨index, by omega, outside, inside, ?_, ?_⟩
            · rw [payloadOffset, CoapPdu.setByte_len, decodesTo]
              exact marker
            · rw [payloadOffset, CoapPdu.setByte_len, decodesTo]
              exact reserved

/-- Some bytes behind the packet make a valid packet with a payload of it, and some one
without. -/
structure OpenPayload (pdu : CoapPdu) : Prop where
  found : ∃ other payload, SamePacket pdu other ∧ other.PassesChecks ∧
    coapGetPayload other = .ok payload ∧ payload.len ≠ 0
  missing : ∃ other, SamePacket pdu other ∧ other.PassesChecks ∧
    coapGetPayload other = .ok ⟨0, none⟩

omit fits in
/-- The length of a payload that begins behind the packet wraps around. -/
theorem payloadLen_behind {index : Nat} (outside : pdu.len < index)
    (inMemory : index < pdu.mem.length) : sizeSub (sizeSub pdu.len index) 1 ≠ 0 := by
  have bounded := placed.buf_lt
  simp only [sizeSub]
  omega

/-- The token ends in the packet, and the walk leaves it over an option. -/
theorem CoapPdu.PassesChecks.openPayload_of_inside (passes : pdu.PassesChecks)
    (bounded : pdu.mem.length < 2 ^ 63) (inside : pdu.tokenEnd ≤ pdu.len)
    (unsettled : ¬ Settled (pdu.packet.drop pdu.tokenEnd)) {payload : CoapPayload}
    (got : coapGetPayload pdu = .ok payload) : OpenPayload pdu := by
  have mapped := placed.max_le
  have long := passes.len_ge
  rw [coapGetPayload, coapGetTkl_firstByte (by omega), Exec.ok_bind] at got
  obtain ⟨result, walk, -⟩ := Exec.bind_eq_ok.mp got
  obtain ⟨index, -, outside, inMemory, marker, reserved⟩ :=
    payloadOffset_unsettled fits placed bounded (by omega) (fun _ => unsettled) walk
  have same := fun byte => @SamePacket.setByte pdu index (by omega) byte
  refine ⟨⟨_, ⟨sizeSub (sizeSub pdu.len index) 1, some (index + 1)⟩, same 0xFF,
    (same _).passesChecks inside passes, ?_, payloadLen_behind placed outside inMemory⟩,
    ⟨_, same 0xF0, (same _).passesChecks inside passes, ?_⟩⟩
  · rw [(same _).coapGetPayload_eq long placed fits, marker]
    rfl
  · rw [(same _).coapGetPayload_eq long placed fits, reserved]
    rfl

/-- Not even the token ends in the packet: the option that validation looks at stands
behind it. -/
theorem CoapPdu.PassesChecks.openPayload_of_outside (passes : pdu.PassesChecks)
    (roomy : pdu.tokenEnd + 1 < pdu.mem.length) (outside : pdu.len < pdu.tokenEnd) :
    OpenPayload pdu := by
  have mapped := placed.max_le
  have long := passes.len_ge
  have inMemory : pdu.tokenEnd < pdu.mem.length := by omega
  have more := sizeSub_len_ne_zero fits placed pdu.tokenEnd
    (by have := passes.tkl_le; rw [CoapPdu.tokenEnd]; omega) (by omega)
  have checked : ∀ {other : CoapPdu}, SamePacket pdu other → other.StartsOption pdu.tokenEnd →
      other.PassesChecks := by
    intro other same starts
    have first := same.firstByte long
    refine ⟨by rw [same.len]; exact long, by rw [first]; exact passes.version,
      by rw [first]; exact passes.tkl_le, ?_⟩
    rw [same.tokenEnd long]
    exact Or.inr starts
  constructor
  · have same := @SamePacket.setByte pdu pdu.tokenEnd (by omega) 0xFF
    have at_ := CoapPdu.setByte_drop_self inMemory 0xFF
    refine ⟨_, ⟨sizeSub (sizeSub pdu.len pdu.tokenEnd) 1, some (pdu.tokenEnd + 1)⟩, same,
      checked same (Or.inl ⟨_, at_⟩), ?_, payloadLen_behind placed outside inMemory⟩
    rw [same.coapGetPayload_eq long placed fits,
      @payloadOffset_marker (pdu.setByte _ _) _ _ more at_]
    rfl
  · -- an empty option, and a reserved byte behind it
    obtain ⟨other, rest, same, at_⟩ : ∃ other rest, SamePacket pdu other ∧
        other.mem.drop pdu.tokenEnd = [0] ++ 0xF0 :: rest := by
      have first := @SamePacket.setByte pdu pdu.tokenEnd (by omega) 0
      have second := @SamePacket.setByte (pdu.setByte pdu.tokenEnd 0) (pdu.tokenEnd + 1)
        (by rw [CoapPdu.setByte_len]; omega) 0xF0
      refine ⟨_, pdu.mem.drop (pdu.tokenEnd + 1 + 1), first.trans second, ?_⟩
      rw [CoapPdu.setByte_mem, List.drop_set, if_neg (by omega),
        CoapPdu.setByte_drop_self inMemory, List.drop_eq_getElem_cons roomy,
        Nat.add_sub_cancel_left, List.set_cons_succ, List.set_cons_zero]
      rfl
    have isHeader : Header [0] 0 0 :=
      @Header.mk 0 [] [] 0 0 (.direct (by decide)) (.direct (by decide))
    rw [← same.len] at more
    have decoded := coapDecodeOption_of_decodes more
      (.found isHeader at_ : Decodes other.mem pdu.tokenEnd 0 0 none _)
    have stops : payloadOffset other pdu.mem.length (pdu.tokenEnd + 1) = .ok none := by
      obtain ⟨fuel, enough⟩ := Nat.exists_eq_succ_of_ne_zero
        (show pdu.mem.length ≠ 0 by omega)
      rw [enough]
      exact payloadOffset_reserved (by rw [same.len, same.max]; exact fits)
        (same.placed placed) (by rw [same.len]; omega)
        (by have := passes.tkl_le
            rw [same.len, List.length_singleton, CoapPdu.tokenEnd]
            omega) (Mem.drop_add_of_append at_) fuel
    refine ⟨other, same, checked same (Or.inr ⟨_, _, _, _, isHeader, at_⟩), ?_⟩
    rw [same.coapGetPayload_eq long placed fits, payloadOffset, decoded]
    simp only [Exec.ok_bind, Option.getD_some, List.length_singleton, Nat.zero_mod,
      Nat.add_zero, stops]
    rfl

/-- If the walk leaves a valid packet, what stands behind the packet decides about its
payload. -/
theorem CoapPdu.PassesChecks.openPayload (passes : pdu.PassesChecks)
    (bounded : pdu.mem.length < 2 ^ 63) (roomy : pdu.tokenEnd + 1 < pdu.mem.length)
    (unsettled : ¬ (pdu.tokenEnd ≤ pdu.len ∧ Settled (pdu.packet.drop pdu.tokenEnd)))
    {payload : CoapPayload} (got : coapGetPayload pdu = .ok payload) : OpenPayload pdu := by
  by_cases inside : pdu.tokenEnd ≤ pdu.len
  · exact passes.openPayload_of_inside fits placed bounded inside
      (fun settled => unsettled ⟨inside, settled⟩) got
  · exact passes.openPayload_of_outside fits placed roomy (by omega)

end Walk

end Unsettled

/-! ## The options in front of a payload -/

section Options

variable {pdu other : CoapPdu} (fits : pdu.len ≤ pdu.max) (placed : pdu.Placed)
  (same : SamePacket pdu other)

/-- Where the search for an option stands: in front of complete options, behind which a
marker follows in the packet. -/
structure OptionsAt (pdu : CoapPdu) (last : CoapOption) (pos : Nat) : Prop where
  position : optionPosition pdu (some last) = .ok pos
  positive : 0 < pos
  options : ∃ num front final bytes, pdu.packet.drop pos = front ++ 0xFF :: bytes ∧
    CompleteOptions num front final

/-- The bytes of the option stand in the packet. -/
def CoapOption.Inside (option : CoapOption) (limit : Nat) : Prop :=
  ∀ pos, option.val = some pos → pos + option.len ≤ limit

include fits placed same

/-- One step of the search is the same in both copies. -/
theorem OptionsAt.step {last : CoapOption} {pos : Nat} (long : 4 ≤ pdu.len)
    (at_ : OptionsAt pdu last pos) :
    ∃ option, coapGetOption other (some last) = .ok option ∧
      coapGetOption pdu (some last) = .ok option ∧ option.Inside pdu.len ∧
        (option.num ≠ 0 → ∃ next, OptionsAt pdu option next) := by
  have size := packet_length fits placed
  have bounded := placed.buf_lt
  have mapped := placed.max_le
  have position : optionPosition other (some last) = .ok pos := by
    rw [← at_.position]
    simp only [optionPosition, same.coapGetTkl_eq long, same.len]
  obtain ⟨num, front, final, bytes, split, options⟩ := at_.options
  have length := congrArg List.length split
  rw [List.length_drop, size, List.length_append, List.length_cons] at length
  have more := sizeSub_len_ne_zero fits placed pos (by omega) (by omega)
  cases options with
  | nil =>
      obtain ⟨decodedOther, decoded⟩ :=
        same.coapDecodeOption_eq more (@Decodes.marker _ _ (lastNumber (some last)) 0 none _ split)
      have left : sizeSub pdu.len pos = pdu.len - pos := sizeSub_of_le (by omega) (by omega)
      have span : sizeSub (pdu.len - pos) 1 = pdu.len - pos - 1 :=
        sizeSub_of_le (by omega) (by omega)
      by_cases zero : lastNumber (some last) = 0
      · refine ⟨⟨0, pdu.len - pos - 1, some (pos + 1)⟩, ?_, ?_, ?_,
          fun nonzero => absurd rfl nonzero⟩
        · rw [coapGetOption, position, Exec.ok_bind, decodedOther, Exec.ok_bind]
          simp [zero, same.len, left, span]
        · rw [coapGetOption, at_.position, Exec.ok_bind, decoded, Exec.ok_bind]
          simp [zero, left, span]
        · intro place isPlace
          cases isPlace
          dsimp only
          omega
      · refine ⟨⟨0, (pdu.len + pdu.buf) % 2 ^ 64, none⟩, ?_, ?_, by rintro _ ⟨⟩,
          fun nonzero => absurd rfl nonzero⟩
        · rw [coapGetOption, position, Exec.ok_bind, decodedOther, Exec.ok_bind]
          simp [zero, same.len, same.buf]
        · rw [coapGetOption, at_.position, Exec.ok_bind, decoded, Exec.ok_bind]
          simp [zero]
  | @cons _ _ delta optLen header value rest isHeader complete options =>
      rw [List.append_assoc, List.append_assoc] at split
      rw [List.length_append, List.length_append, complete] at length
      have nonempty := isHeader.length_pos
      obtain ⟨decodedOther, decoded⟩ := same.coapDecodeOption_eq more
        (@Decodes.found _ _ (lastNumber (some last)) 0 none _ _ _ _ isHeader split)
      have behind : pdu.packet.drop (pos + header.length + optLen % 2 ^ 16) =
          rest ++ 0xFF :: bytes := by
        rw [← complete]
        exact Mem.drop_add_of_append (Mem.drop_add_of_append split)
      refine ⟨⟨(last.num + delta) % 2 ^ 16, optLen % 2 ^ 16, some (pos + header.length)⟩,
        ?_, ?_, ?_, fun nonzero => ⟨_, ?_, ?_, _, rest, _, bytes, behind, options⟩⟩
      · rw [coapGetOption, position, Exec.ok_bind, decodedOther]
        rfl
      · rw [coapGetOption, at_.position, Exec.ok_bind, decoded]
        rfl
      · intro place isPlace
        cases isPlace
        dsimp only
        omega
      · exact optionPosition_some nonzero rfl (by dsimp only; omega) (by omega)
      · omega

theorem optionByNumLoop_samePacket (long : 4 ≤ pdu.len) {num : Nat} (named : num ≠ 0)
    (occ fuel : Nat) {last : CoapOption} (i : Nat) (at_ : ∃ pos, OptionsAt pdu last pos) :
    optionByNumLoop other num occ fuel last i = optionByNumLoop pdu num occ fuel last i ∧
      ∀ option, optionByNumLoop pdu num occ fuel last i = .ok option → option.Inside pdu.len := by
  induction fuel generalizing last i with
  | zero => exact ⟨rfl, by rintro _ ⟨⟩⟩
  | succ fuel ih =>
      obtain ⟨pos, at_⟩ := at_
      obtain ⟨option, gotOther, got, inside, next⟩ := at_.step fits placed same long
      have returned : ∀ result : CoapOption, (pure option : Exec CoapOption) = .ok result →
          result.Inside pdu.len := by
        intro result isResult
        cases isResult
        exact inside
      simp only [optionByNumLoop, gotOther, got, Exec.ok_bind]
      split_ifs with found more larger zero more
      · exact ih _ (next (by omega))
      · exact ⟨rfl, returned⟩
      · refine ⟨rfl, ?_⟩
        rintro result isResult
        cases isResult
        rintro _ ⟨⟩
      · exact ⟨rfl, returned⟩
      · exact ih _ (next zero)
      · exact ⟨rfl, returned⟩

/-- In front of a payload, the search for an option does not depend on what stands behind
the packet, and finds nothing there. -/
theorem HasPayload.coapGetOptionByNum_samePacket {bytes : List UInt8} (has : HasPayload pdu bytes)
    (long : 4 ≤ pdu.len) {num : Nat} (named : num ≠ 0) (fuel occ : Nat) :
    coapGetOptionByNum other fuel num occ = coapGetOptionByNum pdu fuel num occ ∧
      ∀ option, coapGetOptionByNum pdu fuel num occ = .ok option → option.Inside pdu.len := by
  have mapped := placed.max_le
  obtain ⟨front, final, split, options⟩ := has.options
  have start : OptionsAt pdu ⟨0, 0, none⟩ pdu.tokenEnd := by
    refine ⟨?_, ?_, 0, front, final, bytes, split, options⟩
    · simp [optionPosition, coapGetTkl_firstByte (show 0 < pdu.mem.length by omega),
        CoapPdu.tokenEnd]
    · rw [CoapPdu.tokenEnd]
      omega
  exact optionByNumLoop_samePacket fits placed same long named occ fuel 0 ⟨_, start⟩

end Options

end ExositeCoap.Coap
