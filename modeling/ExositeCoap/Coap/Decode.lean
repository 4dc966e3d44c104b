import ExositeCoap.Coap.Pdu

/-!
# What the option decoder does

`coapDecodeOption` against the wire format.  At a position that is not the end
of the packet it returns exactly when the mapped bytes there begin with a payload
marker, an option header, or a reserved nibble (`coapDecodeOption_of_decodes` and
`decodes_of_coapDecodeOption`); all later walks over a packet use one of the two
and never unfold the decoder.
-/

namespace ExositeCoap.Coap

open Lib Wire

/-! ## Fields -/

/-- The decoder reads every field the format has, reduced to 16 bits. -/
theorem decodeExtended_of_field {mem rest : Mem} {ptr nibble value : Nat}
    {ext : List UInt8} (field : Field nibble ext value)
    (at_ : mem.drop ptr = ext ++ rest) :
    decodeExtended mem ptr nibble = .ok (some (value % 2 ^ 16, ptr + ext.length)) := by
  cases field with
  | direct small =>
      have exact16 : nibble % 2 ^ 16 = nibble := Nat.mod_eq_of_lt (by omega)
      rw [exact16]
      simp [decodeExtended, small]
  | byte low =>
      have exact16 : (low.toNat + 13) % 2 ^ 16 = low.toNat + 13 := by
        have := low.toNat_lt
        exact Nat.mod_eq_of_lt (by omega)
      rw [exact16]
      simp [decodeExtended, Mem.read_of_drop at_]
  | word high low =>
      have atLow : mem.drop (ptr + 1) = low :: rest :=
        Mem.drop_succ_of_cons at_
      simp [decodeExtended, Mem.read_of_drop at_, Mem.read_of_drop atLow]

/-- The decoder reads nothing else as a field. -/
theorem field_of_decodeExtended {mem : Mem} {ptr nibble value next : Nat}
    (decoded : decodeExtended mem ptr nibble = .ok (some (value, next))) :
    ∃ ext rest full, Field nibble ext full ∧ mem.drop ptr = ext ++ rest ∧
      value = full % 2 ^ 16 ∧ next = ptr + ext.length := by
  unfold decodeExtended at decoded
  split_ifs at decoded with small isByte isWord
  · cases decoded
    exact ⟨[], mem.drop ptr, _, .direct small, rfl,
      (Nat.mod_eq_of_lt (by omega)).symm, rfl⟩
  · obtain ⟨low, loaded, decoded⟩ := Exec.bind_eq_ok.mp decoded
    cases decoded
    subst isByte
    refine ⟨[low], _, _, .byte low, Mem.drop_of_read loaded, ?_, rfl⟩
    have := low.toNat_lt
    exact (Nat.mod_eq_of_lt (by omega)).symm
  · obtain ⟨high, loadedHigh, decoded⟩ := Exec.bind_eq_ok.mp decoded
    obtain ⟨low, loadedLow, decoded⟩ := Exec.bind_eq_ok.mp decoded
    cases decoded
    subst isWord
    refine ⟨[high, low], mem.drop (ptr + 1 + 1), _, .word high low, ?_, rfl, rfl⟩
    rw [Mem.drop_of_read loadedHigh, Mem.drop_of_read loadedLow]
    rfl
  · cases decoded

theorem decodeExtended_eq_none {mem : Mem} {ptr nibble : Nat} :
    decodeExtended mem ptr nibble = .ok none ↔ 15 ≤ nibble := by
  unfold decodeExtended
  split_ifs with small isByte isWord
  · simp only [Exec.pure_eq_ok, Except.ok.injEq, reduceCtorEq, false_iff]
    omega
  · simp only [Exec.bind_eq_ok, Exec.pure_eq_ok, Except.ok.injEq, reduceCtorEq,
      and_false, exists_false, false_iff]
    omega
  · simp only [Exec.bind_eq_ok, Exec.pure_eq_ok, Except.ok.injEq, reduceCtorEq,
      and_false, exists_false, false_iff]
    omega
  · simp only [Exec.pure_eq_ok, true_iff]
    omega

/-! ## Options -/

/-- The three ways in which an option can be decoded before the end of the
packet. -/
inductive Decodes (mem : Mem) (pos num len : Nat) (val : Ptr) : DecodeResult → Prop where
  | marker {rest : Mem} (at_ : mem.drop pos = 0xFF :: rest) :
      Decodes mem pos num len val ⟨.ceFoundPayloadMarker, num, len, val⟩
  | reserved {front rest : Mem} (isReserved : Reserved front)
      (at_ : mem.drop pos = front ++ rest) :
      Decodes mem pos num len val ⟨.ceInvalidPacket, num, len, val⟩
  | found {header rest : Mem} {delta length : Nat}
      (isHeader : Header header delta length) (at_ : mem.drop pos = header ++ rest) :
      Decodes mem pos num len val
        ⟨.ceNone, (num + delta) % 2 ^ 16, length % 2 ^ 16, some (pos + header.length)⟩

@[simp] theorem coapDecodeOption_zero (mem : Mem) (pos num len : Nat) (val : Ptr) :
    coapDecodeOption mem pos 0 num len val = .ok ⟨.ceEndOfPacket, num, len, val⟩ := by
  simp [coapDecodeOption]

theorem coapDecodeOption_of_decodes {mem : Mem} {pos pktLen num len : Nat} {val : Ptr}
    {result : DecodeResult} (more : pktLen ≠ 0)
    (decodes : Decodes mem pos num len val result) :
    coapDecodeOption mem pos pktLen num len val = .ok result := by
  cases decodes with
  | marker at_ => simp [coapDecodeOption, more, Mem.read_of_drop at_]
  | reserved isReserved at_ =>
      cases isReserved with
      | delta notMarker reserved =>
          have none : ∀ ptr, decodeExtended mem ptr 15 = .ok none :=
            fun ptr => decodeExtended_eq_none.mpr (Nat.le_refl 15)
          simp [coapDecodeOption, more, Mem.read_of_drop at_, notMarker, reserved, none]
      | @length first deltaExt delta deltaField reserved =>
          have notMarker : first ≠ 0xFF := by
            rintro rfl
            have small := deltaField.nibble_lt
            simp at small
          have atDelta : mem.drop (pos + 1) = deltaExt ++ _ :=
            Mem.drop_succ_of_cons at_
          have none : ∀ ptr, decodeExtended mem ptr 15 = .ok none :=
            fun ptr => decodeExtended_eq_none.mpr (Nat.le_refl 15)
          simp [coapDecodeOption, more, Mem.read_of_drop at_, notMarker, reserved,
            decodeExtended_of_field deltaField atDelta, none]
  | @found header rest delta length isHeader at_ =>
      cases isHeader with
      | @mk first deltaExt lengthExt _ _ deltaField lengthField =>
          have notMarker : first ≠ 0xFF := by
            rintro rfl
            have small := deltaField.nibble_lt
            simp at small
          have atDelta : mem.drop (pos + 1) = deltaExt ++ (lengthExt ++ rest) :=
            Mem.drop_succ_of_cons (by simpa using at_)
          have atLength := Mem.drop_add_of_append atDelta
          have position : pos + 1 + deltaExt.length + lengthExt.length =
              pos + (deltaExt.length + lengthExt.length + 1) := by omega
          simp [coapDecodeOption, more, Mem.read_of_drop at_, notMarker,
            decodeExtended_of_field deltaField atDelta,
            decodeExtended_of_field lengthField atLength, position]

theorem decodes_of_coapDecodeOption {mem : Mem} {pos pktLen num len : Nat} {val : Ptr}
    {result : DecodeResult} (more : pktLen ≠ 0)
    (decoded : coapDecodeOption mem pos pktLen num len val = .ok result) :
    Decodes mem pos num len val result := by
  unfold coapDecodeOption at decoded
  simp only [more, if_false] at decoded
  obtain ⟨first, loaded, decoded⟩ := Exec.bind_eq_ok.mp decoded
  have atFirst := Mem.drop_of_read loaded
  split_ifs at decoded with isMarker
  · cases decoded
    subst isMarker
    exact .marker atFirst
  · obtain ⟨deltaPart, deltaDecoded, decoded⟩ := Exec.bind_eq_ok.mp decoded
    cases deltaPart with
    | none =>
        cases decoded
        have large := decodeExtended_eq_none.mp deltaDecoded
        have := first.toNat_lt
        exact .reserved (.delta isMarker (by omega)) atFirst
    | some deltaPart =>
        obtain ⟨delta, ptr⟩ := deltaPart
        obtain ⟨deltaExt, deltaRest, fullDelta, deltaField, atDelta, rfl, rfl⟩ :=
          field_of_decodeExtended deltaDecoded
        obtain ⟨lengthPart, lengthDecoded, decoded⟩ := Exec.bind_eq_ok.mp decoded
        cases lengthPart with
        | none =>
            cases decoded
            have large := decodeExtended_eq_none.mp lengthDecoded
            have at_ : mem.drop pos = (first :: deltaExt) ++ deltaRest := by
              rw [atFirst, atDelta]
              rfl
            exact .reserved (.length deltaField (by omega)) at_
        | some lengthPart =>
            obtain ⟨length, ptr⟩ := lengthPart
            obtain ⟨lengthExt, lengthRest, fullLength, lengthField, atLength, rfl, rfl⟩ :=
              field_of_decodeExtended lengthDecoded
            cases decoded
            have at_ : mem.drop pos =
                (first :: (deltaExt ++ lengthExt)) ++ lengthRest := by
              rw [atFirst, atDelta, ← Mem.drop_add_of_append atDelta, atLength]
              simp
            have position : pos + 1 + deltaExt.length + lengthExt.length =
                pos + (first :: (deltaExt ++ lengthExt)).length := by
              simp only [List.length_cons, List.length_append]
              omega
            have sum : (num + fullDelta % 2 ^ 16) % 2 ^ 16 = (num + fullDelta) % 2 ^ 16 :=
              Nat.add_mod_mod _ _ _
            rw [position, sum]
            exact .found (.mk deltaField lengthField) at_

end ExositeCoap.Coap
