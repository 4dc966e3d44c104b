import ExositeCoap.Coap.Bounds

/-!
# Where a payload comes from

`coap_get_payload` may walk on behind the packet, and computes the length of the payload
by an unsigned subtraction.  Either the payload is what follows a marker that is reached
over complete options of the packet, or its length has wrapped and is enormous.
-/

namespace ExositeCoap.Coap

open Lib Wire

/-- The payload of a packet: a marker behind complete options, and the bytes up to the
end. -/
structure HasPayload (pdu : CoapPdu) (bytes : List UInt8) : Prop where
  inside : pdu.tokenEnd ≤ pdu.len
  options : ∃ front last, pdu.packet.drop pdu.tokenEnd = front ++ 0xFF :: bytes ∧
    CompleteOptions 0 front last

/-- The results of `coap_get_payload`. -/
inductive GotPayload (pdu : CoapPdu) : CoapPayload → Prop where
  | none : GotPayload pdu ⟨0, .none⟩
  | found {bytes : List UInt8} (has : HasPayload pdu bytes) :
      GotPayload pdu ⟨bytes.length, some (pdu.len - bytes.length)⟩
  /-- the marker lies behind the packet -/
  | behind {len pos : Nat} (wrapped : 2 ^ 63 ≤ len) (bounded : len + 1 < 2 ^ 64) :
      GotPayload pdu ⟨len, some pos⟩

/-- What stands in memory inside the packet stands in the packet. -/
theorem packet_drop_append {pdu : CoapPdu} {front rest : Mem} {pos : Nat}
    (at_ : pdu.mem.drop pos = front ++ rest) (inside : pos + front.length ≤ pdu.len) :
    pdu.packet.drop pos = front ++ pdu.packet.drop (pos + front.length) := by
  rw [CoapPdu.packet, List.drop_take, List.drop_take, at_, Mem.drop_add_of_append at_,
    List.take_append, List.take_of_length_le (by omega), Nat.sub_sub]

section Walk

variable {pdu : CoapPdu} (fits : pdu.len ≤ pdu.max) (placed : pdu.Placed)

include fits placed

/-- A marker that is found in the packet is reached over complete options. -/
theorem payloadOffset_found {fuel pos offset : Nat} (num : Nat) (near : pos < 2 ^ 63 + 2 ^ 16)
    (bounded : pdu.mem.length < 2 ^ 63)
    (walk : payloadOffset pdu fuel pos = .ok (some (.ceFoundPayloadMarker, offset))) :
    pos ≤ offset ∧ offset ≠ pdu.len ∧ offset < pdu.mem.length ∧
      (offset < pdu.len → ∃ front last bytes,
        pdu.packet.drop pos = front ++ 0xFF :: bytes ∧ CompleteOptions num front last ∧
          offset + 1 + bytes.length = pdu.len) := by
  have size := packet_length fits placed
  have inMem := placed.max_le
  induction fuel generalizing pos num with
  | zero => cases walk
  | succ fuel ih =>
      by_cases atEnd : pos = pdu.len
      · rw [payloadOffset_end atEnd.symm] at walk
        cases walk
      · have more : sizeSub pdu.len pos ≠ 0 := fun zero =>
          atEnd ((sizeSub_eq_zero (by omega) (by omega)).mp zero).symm
        obtain ⟨decoded, isDecoded, walk⟩ := Exec.bind_eq_ok.mp walk
        cases decodes_of_coapDecodeOption more isDecoded with
        | @marker rest at_ =>
            have here : pos = offset := by
              cases walk
              rfl
            subst here
            have length := congrArg List.length at_
            rw [List.length_drop, List.length_cons] at length
            refine ⟨Nat.le_refl _, atEnd, by omega, fun inside => ?_⟩
            have split := @packet_drop_append pdu [0xFF] rest pos at_ inside
            refine ⟨[], num, pdu.packet.drop (pos + 1), split, .nil, ?_⟩
            rw [List.length_drop, size]
            omega
        | reserved => cases walk
        | @found header rest delta length isHeader at_ =>
            have nonempty := isHeader.length_pos
            have mapped := congrArg List.length at_
            rw [List.length_drop, List.length_append] at mapped
            have short : length % 2 ^ 16 < 2 ^ 16 := Nat.mod_lt _ (by omega)
            obtain ⟨later, notEnd, inMemory, split⟩ :=
              ih ((num + delta) % 2 ^ 16) (by simp only [Option.getD_some]; omega) walk
            simp only [Option.getD_some] at later split
            refine ⟨by omega, notEnd, inMemory, fun inside => ?_⟩
            obtain ⟨front, last, bytes, behind, options, total⟩ := split inside
            have complete : (rest.take (length % 2 ^ 16)).length = length % 2 ^ 16 := by
              rw [List.length_take]
              omega
            have whole : pdu.mem.drop pos = (header ++ rest.take (length % 2 ^ 16)) ++
                rest.drop (length % 2 ^ 16) := by
              rw [at_, List.append_assoc, List.take_append_drop]
            have cut := packet_drop_append whole (by
              rw [List.length_append, complete]
              omega)
            rw [List.length_append, complete, ← Nat.add_assoc, behind] at cut
            refine ⟨header ++ (rest.take (length % 2 ^ 16) ++ front), last, bytes, ?_,
              .cons isHeader complete options, total⟩
            rw [cut]
            simp only [List.append_assoc]

theorem HasPayload.length_lt {bytes : List UInt8} (has : HasPayload pdu bytes) :
    bytes.length < pdu.len := by
  obtain ⟨front, last, split, -⟩ := has.options
  have length := congrArg List.length split
  rw [List.length_drop, packet_length fits placed, List.length_append, List.length_cons] at length
  omega

/-- The length test in front of the copies does not wrap. -/
theorem GotPayload.len_lt {payload : CoapPayload} (bounded : pdu.mem.length < 2 ^ 63)
    (got : GotPayload pdu payload) : payload.len + 1 < 2 ^ 64 := by
  cases got with
  | none => decide
  | @found bytes has =>
      have inside := has.length_lt fits placed
      have mapped := placed.max_le
      change bytes.length + 1 < 2 ^ 64
      omega
  | behind _ small => exact small

/-- The payload can be loaded. -/
theorem HasPayload.slice {bytes : List UInt8} (has : HasPayload pdu bytes) :
    pdu.mem.slice (pdu.len - bytes.length) bytes.length = .ok bytes := by
  obtain ⟨front, last, split, -⟩ := has.options
  have size := packet_length fits placed
  have length := congrArg List.length split
  rw [List.length_drop, List.length_append, List.length_cons, size] at length
  have inside := has.inside
  have behind := @Mem.drop_add_of_append pdu.packet (front ++ [0xFF]) bytes pdu.tokenEnd
    (by rw [split, List.append_assoc, List.singleton_append])
  have place : pdu.tokenEnd + (front ++ [0xFF]).length = pdu.len - bytes.length := by
    rw [List.length_append, List.length_singleton]
    omega
  rw [place] at behind
  have rest : pdu.len - (pdu.len - bytes.length) = bytes.length := by omega
  rw [CoapPdu.packet, List.drop_take, rest] at behind
  have whole := List.take_append_drop bytes.length (pdu.mem.drop (pdu.len - bytes.length))
  rw [behind] at whole
  exact Mem.slice_of_drop whole.symm

/-- Every result of `coap_get_payload` is of one of the three kinds. -/
theorem coapGetPayload_cases (long : 4 ≤ pdu.len) (bounded : pdu.mem.length < 2 ^ 63)
    {payload : CoapPayload} (got : coapGetPayload pdu = .ok payload) : GotPayload pdu payload := by
  have mapped := placed.max_le
  have size := packet_length fits placed
  have tokenEnd : 4 + pdu.firstByte.toNat % 16 = pdu.tokenEnd := rfl
  rw [coapGetPayload, coapGetTkl_firstByte (by omega), Exec.ok_bind, tokenEnd] at got
  obtain ⟨result, walk, got⟩ := Exec.bind_eq_ok.mp got
  have near : pdu.tokenEnd < 2 ^ 63 + 2 ^ 16 := by
    rw [← tokenEnd]
    omega
  split at got
  · rename_i offset
    cases got
    obtain ⟨later, notEnd, inMemory, split⟩ := payloadOffset_found fits placed 0 near bounded walk
    by_cases inside : offset < pdu.len
    · obtain ⟨front, last, bytes, isSplit, options, total⟩ := split inside
      have left : sizeSub pdu.len offset = pdu.len - offset :=
        sizeSub_of_le (by omega) (by omega)
      have length : sizeSub (sizeSub pdu.len offset) 1 = bytes.length := by
        rw [left, sizeSub_of_le (by omega) (by omega)]
        omega
      have place : offset + 1 = pdu.len - bytes.length := by omega
      rw [length, place]
      exact .found ⟨by omega, front, last, isSplit, options⟩
    · have wrapped : sizeSub pdu.len offset = 2 ^ 64 - (offset - pdu.len) := by
        unfold sizeSub
        omega
      have length : sizeSub (sizeSub pdu.len offset) 1 = 2 ^ 64 - (offset - pdu.len) - 1 := by
        rw [wrapped, sizeSub_of_le (by omega) (by omega)]
      rw [length]
      exact .behind (by omega) (by omega)
  · cases got
    exact .none

/-- The walk over complete options finds the marker behind them. -/
theorem payloadOffset_complete {num last : Nat} {front bytes : List UInt8}
    (options : CompleteOptions num front last) {pos fuel : Nat}
    (at_ : pdu.packet.drop pos = front ++ 0xFF :: bytes) (enough : front.length < fuel) :
    payloadOffset pdu fuel pos = .ok (some (.ceFoundPayloadMarker, pos + front.length)) := by
  have size := packet_length fits placed
  -- the bytes of the packet stand in memory too
  have inMemory : ∀ {pos : Nat} {part : List UInt8}, pdu.packet.drop pos = part →
      pos < pdu.len → pdu.mem.drop pos = part ++ pdu.mem.drop pdu.len := by
    intro pos part isPart inside
    have whole := List.take_append_drop pdu.len pdu.mem
    rw [← isPart]
    conv_lhs => rw [← whole]
    exact List.drop_append_of_le_length (by rw [← size] at inside; exact Nat.le_of_lt inside)
  have before : ∀ {pos : Nat} {byte : UInt8} {rest : List UInt8},
      pdu.packet.drop pos = byte :: rest → pos < pdu.len := by
    intro pos byte rest isCons
    have length := congrArg List.length isCons
    rw [List.length_drop, List.length_cons] at length
    omega
  induction options generalizing pos fuel with
  | nil =>
      obtain ⟨fuel, rfl⟩ : ∃ less, fuel = less + 1 := ⟨fuel - 1, by simp at enough; omega⟩
      have inside := before at_
      have more := sizeSub_len_ne_zero fits placed pos (by omega) (by omega)
      exact payloadOffset_marker more (inMemory at_ inside) fuel
  | @cons num last delta length header value rest isHeader complete _ ih =>
      have nonempty := isHeader.length_pos
      have inside : pos < pdu.len := by
        have length := congrArg List.length at_
        rw [List.length_drop, List.length_append, List.length_append] at length
        omega
      obtain ⟨fuel, rfl⟩ : ∃ less, fuel = less + 1 := ⟨fuel - 1, by omega⟩
      have more := sizeSub_len_ne_zero fits placed pos (by omega) (by omega)
      have here := inMemory at_ inside
      simp only [List.append_assoc] at here at_
      have decoded := coapDecodeOption_of_decodes more
        (.found isHeader here : Decodes pdu.mem pos 0 0 none _)
      have next : pdu.packet.drop (pos + header.length + length % 2 ^ 16) =
          rest ++ 0xFF :: bytes := by
        rw [← complete]
        exact Mem.drop_add_of_append (Mem.drop_add_of_append at_)
      rw [payloadOffset, decoded]
      simp only [Exec.ok_bind, Option.getD_some]
      rw [ih next (by simp only [List.length_append] at enough; omega)]
      have place : pos + header.length + length % 2 ^ 16 + rest.length =
          pos + (header ++ (value ++ rest)).length := by
        simp only [List.length_append, complete]
        omega
      rw [place]

/-- `coap_get_payload` finds the payload of a packet that has one. -/
theorem HasPayload.coapGetPayload_eq {bytes : List UInt8} (has : HasPayload pdu bytes)
    (long : 4 ≤ pdu.len) :
    coapGetPayload pdu = .ok ⟨bytes.length, some (pdu.len - bytes.length)⟩ := by
  have mapped := placed.max_le
  have bounded := placed.buf_lt
  have size := packet_length fits placed
  have inside := has.inside
  have tokenEnd : 4 + pdu.firstByte.toNat % 16 = pdu.tokenEnd := rfl
  obtain ⟨front, last, split, options⟩ := has.options
  have length := congrArg List.length split
  rw [List.length_drop, List.length_append, List.length_cons, size] at length
  have walk := @payloadOffset_complete _ fits placed _ _ _ _ options _ (pdu.mem.length + 1) split
    (by omega)
  have left : sizeSub pdu.len (pdu.tokenEnd + front.length) = bytes.length + 1 := by
    rw [sizeSub_of_le (by omega) (by omega)]
    omega
  have rest : sizeSub (bytes.length + 1) 1 = bytes.length := sizeSub_of_le (by omega) (by omega)
  have place : pdu.tokenEnd + front.length + 1 = pdu.len - bytes.length := by omega
  simp only [coapGetPayload, coapGetTkl_firstByte (show 0 < pdu.mem.length by omega),
    Exec.ok_bind, tokenEnd, walk, Exec.pure_eq_ok, left, rest, place]

end Walk

end ExositeCoap.Coap
