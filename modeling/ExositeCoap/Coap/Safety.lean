import ExositeCoap.Coap.Bounds
import ExositeCoap.Coap.Write

/-!
# Which calls keep a packet in its buffer

Each setter finds its place by walking the bytes of the packet, and its checks are right
as long as that walk ends inside the packet (`Sound`).  Two calls can spoil this: a
payload that replaces another one is written over the marker, so that its bytes are
then taken for options, and an option in front of others has their headers rewritten
by a loop that goes wrong when a header changes its size or when no payload stops it.
-/

namespace ExositeCoap.Coap

open Lib Wire

/-- A setter call with any arguments. The length of an option value has 16 bits. -/
inductive RawCall where
  | setVersion (ver : Nat)
  | setType (mtype : CoapType)
  | setCode (code : UInt8)
  | setMid (mid : UInt16)
  | setToken (token : UInt64) (tkl : UInt8)
  | addOption (num : Int) (value : List UInt8) (short : value.length < 2 ^ 16)
  | setPayload (payload : List UInt8)

def RawCall.run (pdu : CoapPdu) : RawCall → Exec SetterResult
  | setVersion ver => coapSetVersion pdu ver
  | setType mtype => coapSetType pdu mtype
  | setCode code => coapSetCode pdu code
  | setMid mid => coapSetMid pdu mid
  | setToken token tkl => coapSetToken pdu token.toNat tkl.toNat
  | addOption num value _ => coapAddOption pdu num value value.length
  | setPayload payload => coapSetPayload pdu payload

/-- What a call may do: the packet stays in its buffer and has room for its token, and
nothing behind the buffer changes. -/
structure WithinBuffer (pdu after : CoapPdu) : Prop extends Frame pdu after where
  len_le : after.len ≤ after.max
  token : ∃ tkl, coapGetTkl after = .ok tkl ∧ 4 + tkl ≤ after.len

/-- Every call returns and keeps the packet in its buffer. -/
def StaysInBuffer (pdu : CoapPdu) : List RawCall → Prop
  | [] => True
  | call :: rest => ∃ err after, call.run pdu = .ok (err, after) ∧ WithinBuffer pdu after ∧
      StaysInBuffer after rest

/-- The whole sequence, `coap_init_pdu` first. -/
def InitStaysInBuffer (pdu : CoapPdu) (calls : List RawCall) : Prop :=
  ∃ after, coapInitPdu pdu = .ok (.ceNone, after) ∧ WithinBuffer pdu after ∧
    StaysInBuffer after calls

/-! ## Bodies that can be walked -/

/-- Everything behind the token. -/
def CoapPdu.body (pdu : CoapPdu) : List UInt8 := pdu.packet.drop pdu.tokenEnd

/-- The options from number `num` on keep the size of their headers when the loop of
`coap_adjust_option_deltas` rewrites them, up to a payload marker or a reserved nibble,
which ends the loop. -/
inductive Adjustable (offset : Int) : (num : Nat) → List UInt8 → Prop where
  | marker {num : Nat} {rest : List UInt8} : Adjustable offset num (0xFF :: rest)
  | reserved {num : Nat} {front rest : List UInt8} (isReserved : Reserved front) :
      Adjustable offset num (front ++ rest)
  | option {num delta length : Nat} {header value rest : List UInt8}
      (isHeader : Header header delta length) (complete : value.length = length % 2 ^ 16)
      (sameSize : (optionHeader
        (((((num + delta) % 2 ^ 16 : Nat) : Int) + offset) % 2 ^ 16).toNat
        (length % 2 ^ 16)).length = header.length)
      (more : Adjustable offset ((num + delta) % 2 ^ 16) rest) :
      Adjustable offset num (header ++ (value ++ rest))

/-- A walk with `goOn` passes complete options up to the end, a payload marker, a
reserved nibble or an option that stops it; there `stop` holds of the number before it
and of the bytes that are left. -/
inductive Passable (goOn : Nat → Bool) (stop : Nat → List UInt8 → Prop) :
    (num : Nat) → List UInt8 → Prop where
  | done {num : Nat} : Passable goOn stop num []
  | marker {num : Nat} {rest : List UInt8} : Passable goOn stop num (0xFF :: rest)
  | reserved {num : Nat} {front rest : List UInt8} (isReserved : Reserved front) :
      Passable goOn stop num (front ++ rest)
  | passes {num delta length : Nat} {header value rest : List UInt8}
      (isHeader : Header header delta length) (complete : value.length = length % 2 ^ 16)
      (goes : goOn ((num + delta) % 2 ^ 16) = true)
      (more : Passable goOn stop ((num + delta) % 2 ^ 16) rest) :
      Passable goOn stop num (header ++ (value ++ rest))
  | stops {num delta length : Nat} {header value rest : List UInt8}
      (isHeader : Header header delta length) (complete : value.length = length % 2 ^ 16)
      (stays : goOn ((num + delta) % 2 ^ 16) = false)
      (good : stop num (header ++ (value ++ rest))) :
      Passable goOn stop num (header ++ (value ++ rest))

/-- The condition on a call. A negative option number does not end in a nibble that
announces extension bytes. An option is rejected for lack of room, or no larger number
follows it, or the options that follow can be adjusted. A payload replaces no other one,
unless it is rejected for lack of room or its bytes can be walked as options. -/
def RawCall.Careful (pdu : CoapPdu) : RawCall → Prop
  | addOption num value _ => (num < 0 → num % 16 ≠ 13 ∧ num % 16 ≠ 14) ∧
      Passable (fun other => decide ((other : Int) ≤ num))
        (fun last rest =>
          pdu.max < pdu.len + coapComputeOptionHeaderLen (num - last) value.length +
            value.length ∨ Adjustable (last - num) 0 rest) 0 pdu.body
  | setPayload payload => pdu.max < pdu.len + payload.length ∨ Scannable payload ∨
      ∀ front last rest, pdu.body = front ++ 0xFF :: rest → ¬ CompleteOptions 0 front last
  | _ => True

/-- Every call of the sequence meets the condition in the state that it finds. -/
def AllCareful (pdu : CoapPdu) : List RawCall → Prop
  | [] => True
  | call :: rest => call.Careful pdu ∧
      ∀ err after, call.run pdu = .ok (err, after) → AllCareful after rest

theorem CompleteOptions.scannable {num last : Nat} {front rest : List UInt8}
    (options : CompleteOptions num front last) (more : Scannable rest) :
    Scannable (front ++ rest) := by
  induction options with
  | nil => exact more
  | cons isHeader complete _ ih =>
      rw [List.append_assoc, List.append_assoc]
      exact .option isHeader complete ih

/-- Without numbers that stop the walk it goes to the end. -/
theorem Scannable.passable {bytes : List UInt8} (scannable : Scannable bytes) (num : Nat) :
    Passable (fun _ => true) (fun _ _ => False) num bytes := by
  induction scannable generalizing num with
  | done => exact .done
  | marker => exact .marker
  | reserved isReserved => exact .reserved isReserved
  | option isHeader complete _ ih => exact .passes isHeader complete rfl (ih _)

/-- Any delta is written as some header, with the right length. -/
theorem exists_header (delta : Nat) {length : Nat} (bound : length ≤ 65804) :
    ∃ written, Header (optionHeader delta length) written length := by
  by_cases small : delta ≤ 65804
  · exact ⟨delta, header_optionHeader small bound⟩
  · have nibble : fieldNibble delta = 14 := by
      unfold fieldNibble
      split_ifs <;> omega
    have ext : fieldExt delta = [UInt8.ofNat ((delta - 269) / 256),
        UInt8.ofNat ((delta - 269) % 256)] := by
      unfold fieldExt
      split_ifs <;> first | rfl | omega
    have lengthNibble := fieldNibble_le length
    have first : (UInt8.ofNat (14 * 16 + fieldNibble length)).toNat =
        14 * 16 + fieldNibble length := by
      rw [UInt8.toNat_ofNat']
      omega
    have isDelta : (14 * 16 + fieldNibble length) / 16 = 14 := by omega
    have isLength : (14 * 16 + fieldNibble length) % 16 = fieldNibble length := by omega
    rw [optionHeader, nibble, ext]
    refine ⟨(UInt8.ofNat ((delta - 269) / 256)).toNat * 256 +
      (UInt8.ofNat ((delta - 269) % 256)).toNat + 269, .mk ?_ ?_⟩
    · rw [first, isDelta]
      exact .word _ _
    · rw [first, isLength]
      exact field_fieldExt bound

/-! ## Headers of negative numbers -/

/-- The header that is written for a negative delta: its nibble is cut off. -/
def negativeHeader (delta : Int) (length : Nat) : List UInt8 :=
  UInt8.ofNat ((delta % 256).toNat * 16 + fieldNibble length) :: fieldExt length

theorem buildsHeader_negativeHeader {delta : Int} (negative : delta < 0) (length : Nat) :
    BuildsHeader delta length (negativeHeader delta length) := by
  have direct : delta < 13 := by omega
  have size : (negativeHeader delta length).length = 1 + (fieldExt length).length := by
    rw [negativeHeader, List.length_cons, Nat.add_comm]
  refine ⟨?_, ?_⟩
  · rw [coapComputeOptionHeaderLen, extendedLen_natCast, extendedLen, if_pos direct, size]
  · intro mem buf mapped
    have lengthStored := @Mem.store_of_le mem (buf + 1) (fieldExt length) (by omega)
    generalize mem.take (buf + 1) ++ fieldExt length ++ _ = withLength at lengthStored
    have lengthSize := Mem.store_length lengthStored
    have firstStored := @Mem.store_of_le withLength buf
      [UInt8.ofNat ((delta % 256).toNat * 16 + fieldNibble length)]
      (by rw [List.length_singleton]; omega)
    refine ⟨_, Mem.store_store_left lengthStored firstStored, ?_⟩
    have nonempty : ¬ (negativeHeader delta length).length < 1 := by omega
    have noExtension : buildExtended mem buf (buf + 1) (negativeHeader delta length).length
        delta = .ok (some ((delta % 256).toNat, buf + 1), mem) := by
      rw [buildExtended, if_pos direct, Exec.pure_eq_ok]
    simp only [coapBuildOptionHeader, nonempty, if_false, noExtension, Exec.ok_bind,
      Exec.pure_eq_ok, firstStored,
      @buildExtended_of_store _ _ buf _ (negativeHeader delta length).length _ lengthStored
        (by omega)]
    rw [size, show buf + 1 + (fieldExt length).length - buf =
      1 + (fieldExt length).length by omega]

/-- Unless the nibble announces extension bytes, the walk passes such a header or stops
at it. -/
theorem scannable_negativeHeader {delta : Int} {value back : List UInt8}
    (short : value.length < 2 ^ 16) (harmless : delta % 16 ≠ 13 ∧ delta % 16 ≠ 14)
    (scannable : Scannable back) :
    Scannable (negativeHeader delta value.length ++ (value ++ back)) := by
  have lengthNibble := fieldNibble_le value.length
  have first : (UInt8.ofNat ((delta % 256).toNat * 16 + fieldNibble value.length)).toNat =
      (delta % 16).toNat * 16 + fieldNibble value.length := by
    rw [UInt8.toNat_ofNat']
    omega
  have isDelta : ((delta % 16).toNat * 16 + fieldNibble value.length) / 16 =
      (delta % 16).toNat := by omega
  have isLength : ((delta % 16).toNat * 16 + fieldNibble value.length) % 16 =
      fieldNibble value.length := by omega
  by_cases reserved : delta % 16 = 15
  · have notMarker : UInt8.ofNat ((delta % 256).toNat * 16 + fieldNibble value.length) ≠
        0xFF := by
      intro equal
      rw [equal, reserved] at first
      change 255 = 15 * 16 + fieldNibble value.length at first
      omega
    exact @Scannable.reserved [_] _ (.delta notMarker (by rw [first, isDelta, reserved]; rfl))
  · have header : Header (negativeHeader delta value.length) (delta % 16).toNat value.length := by
      refine @Header.mk _ [] _ _ _ ?_ ?_
      · rw [first, isDelta]
        exact .direct (by omega)
      · rw [first, isLength]
        exact field_fieldExt (by omega)
    exact .option header (Nat.mod_eq_of_lt short).symm scannable

/-- What is written in front of an option value keeps the packet walkable. -/
theorem exists_buildsHeader {delta : Int} {value : List UInt8} (short : value.length < 2 ^ 16)
    (harmless : delta < 0 → delta % 16 ≠ 13 ∧ delta % 16 ≠ 14) :
    ∃ header, BuildsHeader delta value.length header ∧
      ∀ back, Scannable back → Scannable (header ++ (value ++ back)) := by
  by_cases negative : delta < 0
  · exact ⟨_, buildsHeader_negativeHeader negative _,
      fun back => scannable_negativeHeader short (harmless negative)⟩
  · obtain ⟨delta, rfl⟩ := Int.eq_ofNat_of_zero_le (Int.not_lt.mp negative)
    obtain ⟨written, isHeader⟩ := exists_header delta (show value.length ≤ 65804 by omega)
    exact ⟨_, buildsHeader_optionHeader _ _,
      fun back => .option isHeader (Nat.mod_eq_of_lt short).symm⟩

/-! ## Walks over such bodies -/

/-- The status with which a walk ends, and the bytes in front of which it ends. -/
inductive Stops (stop : Nat → List UInt8 → Prop) (last : Nat) : CoapError → List UInt8 → Prop where
  | done : Stops stop last .ceEndOfPacket []
  | marker {rest : List UInt8} : Stops stop last .ceFoundPayloadMarker (0xFF :: rest)
  | reserved {front rest : List UInt8} (isReserved : Reserved front) :
      Stops stop last .ceInvalidPacket (front ++ rest)
  | option {rest : List UInt8} (good : stop last rest) : Stops stop last .ceNone rest

/-- Only the reserved nibble makes a setter give up. -/
theorem Stops.proceeds {stop : Nat → List UInt8 → Prop} {last : Nat} {err : CoapError}
    {back : List UInt8} (stops : Stops stop last err back) (valid : err ≠ .ceInvalidPacket) :
    ¬ (err ≠ .ceFoundPayloadMarker ∧ err ≠ .ceEndOfPacket ∧ err ≠ .ceNone) := by
  cases stops with
  | done => simp
  | marker => simp
  | reserved => exact absurd rfl valid
  | option => simp

theorem optionWalk_passable {goOn : Nat → Bool} {stop : Nat → List UInt8 → Prop} {num : Nat}
    {bytes : List UInt8} (passable : Passable goOn stop num bytes) :
    ∃ err front back last, bytes = front ++ back ∧ CompleteOptions num front last ∧
      (last = num ∨ goOn last = true) ∧ Stops stop last err back ∧
        ∀ {mem rest : Mem} {len foptVal foptLen fuel : Nat},
          mem.drop (foptVal + foptLen) = bytes ++ rest →
          foptVal + foptLen + bytes.length = len → len < 2 ^ 64 → bytes.length < fuel →
          optionWalk mem len goOn fuel foptVal foptLen num =
            .ok (err, foptVal + foptLen + front.length, last) := by
  have rounds : ∀ {size fuel : Nat}, size < fuel → ∃ more, fuel = more + 1 :=
    fun enough => Nat.exists_eq_succ_of_ne_zero (by omega)
  induction passable with
  | @done num =>
      refine ⟨_, [], [], num, rfl, .nil, .inl rfl, .done, ?_⟩
      intro mem rest len foptVal foptLen fuel at_ isLen bounded enough
      obtain ⟨fuel, rfl⟩ := rounds enough
      rw [List.length_nil, Nat.add_zero] at isLen
      rw [optionWalk_end isLen.symm]
      rfl
  | @marker num tail =>
      refine ⟨_, [], _, num, rfl, .nil, .inl rfl, .marker, ?_⟩
      intro mem rest len foptVal foptLen fuel at_ isLen bounded enough
      obtain ⟨fuel, rfl⟩ := rounds enough
      rw [List.length_cons] at isLen
      rw [optionWalk_marker (by rw [sizeSub_of_le] <;> omega) at_]
      rfl
  | @reserved num front tail isReserved =>
      refine ⟨_, [], _, num, rfl, .nil, .inl rfl, .reserved isReserved, ?_⟩
      intro mem rest len foptVal foptLen fuel at_ isLen bounded enough
      obtain ⟨fuel, rfl⟩ := rounds enough
      have nonempty := isReserved.length_pos
      rw [List.length_append] at isLen
      rw [List.append_assoc] at at_
      have more : sizeSub len (foptVal + foptLen) ≠ 0 := by rw [sizeSub_of_le] <;> omega
      rw [optionWalk_decodes more (.reserved isReserved at_)]
      simp
  | @passes num delta length header value tail isHeader complete goes _ ih =>
      obtain ⟨err, front, back, last, rfl, options, lastGoes, stops, walk⟩ := ih
      refine ⟨err, header ++ (value ++ front), back, last, by simp, .cons isHeader complete options,
        ?_, stops, ?_⟩
      · rcases lastGoes with rfl | lastGoes
        · exact .inr goes
        · exact .inr lastGoes
      · intro mem rest len foptVal foptLen fuel at_ isLen bounded enough
        have nonempty := isHeader.length_pos
        simp only [List.length_append] at isLen enough
        obtain ⟨fuel, rfl⟩ := rounds enough
        rw [List.append_assoc, List.append_assoc] at at_
        have more : sizeSub len (foptVal + foptLen) ≠ 0 := by rw [sizeSub_of_le] <;> omega
        have behind := Mem.drop_add_of_append (Mem.drop_add_of_append at_)
        rw [complete] at behind
        have next : foptVal + foptLen + length % 2 ^ 16 < len := by omega
        rw [optionWalk_decodes more (.found isHeader at_), if_pos ⟨rfl, goes, next⟩]
        dsimp only
        rw [Option.getD_some, walk behind (by rw [List.length_append]; omega) bounded
          (by rw [List.length_append]; omega)]
        simp only [List.length_append, Except.ok.injEq, Prod.mk.injEq, true_and, and_true]
        omega
  | @stops num delta length header value tail isHeader complete stays good =>
      refine ⟨_, [], _, num, rfl, .nil, .inl rfl, .option good, ?_⟩
      intro mem rest len foptVal foptLen fuel at_ isLen bounded enough
      obtain ⟨fuel, rfl⟩ := rounds enough
      have nonempty := isHeader.length_pos
      simp only [List.length_append] at isLen
      rw [List.append_assoc] at at_
      have more : sizeSub len (foptVal + foptLen) ≠ 0 := by rw [sizeSub_of_le] <;> omega
      rw [optionWalk_decodes more (.found isHeader at_), stays, if_neg (by simp)]
      rfl

theorem Adjustable.ne_nil {offset : Int} {num : Nat} {tail : List UInt8}
    (adjustable : Adjustable offset num tail) : tail ≠ [] := by
  cases adjustable with
  | marker => exact List.cons_ne_nil _ _
  | reserved isReserved =>
      have := isReserved.length_pos
      simp_all [List.length_pos_iff]
  | option isHeader =>
      have := isHeader.length_pos
      simp_all [List.length_pos_iff]

/-- Options that can be adjusted are rewritten in place. -/
theorem adjustLoop_adjustable {offset : Int} {num : Nat} {tail : List UInt8}
    (adjustable : Adjustable offset num tail) :
    ∃ status adjusted, adjusted.length = tail.length ∧ Scannable adjusted ∧
      ∀ {mem back : Mem} {optsStart optsLen maxLen foptVal foptLen fuel : Nat},
        mem.drop (foptVal + foptLen) = tail ++ back → optsStart ≤ foptVal + foptLen →
        foptVal + foptLen - optsStart + tail.length ≤ optsLen → optsLen < 2 ^ 64 →
        tail.length < fuel →
        adjustLoop optsStart maxLen offset fuel mem optsLen foptVal foptLen num =
          .ok (status, mem.take (foptVal + foptLen) ++ (adjusted ++ back), optsLen) := by
  have rounds : ∀ {size fuel : Nat}, size < fuel → ∃ more, fuel = more + 1 :=
    fun enough => Nat.exists_eq_succ_of_ne_zero (by omega)
  induction adjustable with
  | @marker num rest =>
      refine ⟨.ceNone, 0xFF :: rest, rfl, .marker, ?_⟩
      intro mem back optsStart optsLen maxLen foptVal foptLen fuel at_ behind inside bounded enough
      obtain ⟨fuel, rfl⟩ := rounds enough
      rw [List.length_cons] at inside
      rw [adjustLoop_marker (by omega) bounded at_, ← at_, List.take_append_drop]
  | @reserved num front rest isReserved =>
      refine ⟨.ceInvalidPacket, front ++ rest, rfl, .reserved isReserved, ?_⟩
      intro mem back optsStart optsLen maxLen foptVal foptLen fuel at_ behind inside bounded enough
      obtain ⟨fuel, rfl⟩ := rounds enough
      have nonempty := isReserved.length_pos
      rw [List.length_append] at inside
      rw [← at_, List.take_append_drop]
      rw [List.append_assoc] at at_
      exact adjustLoop_reserved (by omega) bounded isReserved at_ _ _
  | @option num delta length header value rest isHeader complete sameSize _ ih =>
      obtain ⟨status, adjusted, adjustedSize, scannable, loop⟩ := ih
      generalize isNew : (((((num + delta) % 2 ^ 16 : Nat) : Int) + offset) % 2 ^ 16).toNat =
        newNum at sameSize
      have lengthBound : length % 2 ^ 16 ≤ 65804 := by omega
      obtain ⟨written, isWritten⟩ := exists_header newNum lengthBound
      refine ⟨status, optionHeader newNum (length % 2 ^ 16) ++ (value ++ adjusted), ?_,
        .option isWritten (by rw [complete, Nat.mod_mod]) scannable, ?_⟩
      · simp only [List.length_append, sameSize, adjustedSize]
      · intro mem back optsStart optsLen maxLen foptVal foptLen fuel at_ behind inside bounded
          enough
        have nonempty := isHeader.length_pos
        simp only [List.length_append] at inside enough
        obtain ⟨fuel, rfl⟩ := rounds enough
        rw [List.append_assoc, List.append_assoc] at at_
        obtain ⟨front, isFront, size, round⟩ := adjustLoop_option
          (show foptVal + foptLen - optsStart < optsLen by omega) bounded isHeader complete at_
          isNew sameSize maxLen fuel
        rw [round, loop (List.drop_left' size) (by omega) (by omega) bounded (by omega),
          List.take_left' size, isFront]
        simp only [List.append_assoc]

/-! ## One call -/

/-- The packet lies in its buffer, and its body can be walked. -/
def Sound (pdu : CoapPdu) : Prop := ∃ parts, pdu.Consists parts ∧ Scannable parts.body

/-- The call returns, writes only in the buffer and leaves a sound packet. -/
def KeepsSound (call : Exec SetterResult) (pdu : CoapPdu) : Prop :=
  ∃ err after, call = .ok (err, after) ∧ Frame pdu after ∧ Sound after

theorem Leaves.keepsSound {call : Exec SetterResult} {pdu : CoapPdu} {parts : Parts}
    (leaves : Leaves call pdu parts) (scannable : Scannable parts.body) :
    KeepsSound call pdu := by
  obtain ⟨after, ran, consists, frame⟩ := leaves
  exact ⟨_, after, ran, frame, parts, consists, scannable⟩

/-- A call that changes nothing. -/
theorem Sound.keepsSound {call : Exec SetterResult} {pdu : CoapPdu} {err : CoapError}
    (sound : Sound pdu) (ran : call = .ok (err, pdu)) : KeepsSound call pdu :=
  ⟨err, pdu, ran, Frame.refl pdu, sound⟩

theorem Sound.withinBuffer {pdu after : CoapPdu} (sound : Sound after) (frame : Frame pdu after) :
    WithinBuffer pdu after := by
  obtain ⟨parts, consists, -⟩ := sound
  have len := consists.len_eq
  exact { frame with
    len_le := consists.len_le
    token := ⟨_, consists.coapGetTkl_eq, by omega⟩ }

namespace CoapPdu.Consists

variable {pdu : CoapPdu} {parts : Parts} (consists : pdu.Consists parts)

include consists

theorem body_eq : pdu.body = parts.body := by
  have first : pdu.firstByte = parts.first := by
    rw [CoapPdu.firstByte, consists.mem_eq]
    rfl
  have size : (parts.fixed ++ parts.token).length = pdu.tokenEnd := by
    rw [List.length_append, Parts.fixed_length, consists.tkl, CoapPdu.tokenEnd, first]
  rw [CoapPdu.body, CoapPdu.packet, consists.bytes, Parts.bytes, ← List.append_assoc]
  exact List.drop_left' size

/-- The bytes from some place in the body on are replaced. -/
theorem store_body {front back bytes : List UInt8} (split : parts.body = front ++ back)
    (fits : 4 + parts.token.length + front.length + bytes.length ≤ pdu.max) :
    ∃ mem, pdu.mem.store (4 + parts.token.length + front.length) bytes = .ok mem ∧
      CoapPdu.Consists
        { pdu with mem, len := 4 + parts.token.length + front.length + bytes.length }
        { parts with body := front ++ bytes } ∧
      Frame pdu
        { pdu with mem, len := 4 + parts.token.length + front.length + bytes.length } := by
  have mapped := consists.max_le
  have stored := @Mem.store_of_le pdu.mem (4 + parts.token.length + front.length) bytes
    (by omega)
  have frame := Frame.of_store stored fits
    (4 + parts.token.length + front.length + bytes.length)
  have before : pdu.mem.take (4 + parts.token.length + front.length) =
      parts.fixed ++ (parts.token ++ front) := by
    rw [consists.mem_eq, split, List.append_assoc, ← List.append_assoc parts.token,
      ← List.append_assoc]
    apply List.take_left'
    simp only [List.length_append, Parts.fixed_length]
    omega
  have size : ({ parts with body := front ++ bytes } : Parts).bytes.length =
      4 + parts.token.length + front.length + bytes.length := by
    rw [Parts.bytes_length, List.length_append]
    dsimp only
    omega
  have contents : pdu.mem.take (4 + parts.token.length + front.length) ++ bytes ++
      pdu.mem.drop (4 + parts.token.length + front.length + bytes.length) =
        ({ parts with body := front ++ bytes } : Parts).bytes ++
          pdu.mem.drop (4 + parts.token.length + front.length + bytes.length) := by
    rw [before, Parts.bytes]
    simp only [Parts.fixed, List.append_assoc]
  exact ⟨_, stored, frame.consists consists consists.tkl contents size.symm (by omega), frame⟩

/-- Where the walk of a setter ends. -/
theorem optionWalk_eq {goOn : Nat → Bool} {stop : Nat → List UInt8 → Prop}
    (passable : Passable goOn stop 0 parts.body) :
    ∃ err front back last, parts.body = front ++ back ∧ CompleteOptions 0 front last ∧
      (last = 0 ∨ goOn last = true) ∧ Stops stop last err back ∧
        optionWalk pdu.mem pdu.len goOn (pdu.mem.length + 1) (4 + parts.token.length) 0 0 =
          .ok (err, 4 + parts.token.length + front.length, last) := by
  have inBuffer := consists.len_le
  have mapped := consists.max_le
  have bounded := consists.mem_lt
  have len := consists.len_eq
  obtain ⟨err, front, back, last, split, options, goes, stops, walk⟩ :=
    optionWalk_passable passable
  refine ⟨err, front, back, last, split, options, goes, stops, ?_⟩
  exact walk consists.drop_body len.symm (by omega) (by omega)

theorem coapSetPayload_keepsSound (scannable : Scannable parts.body) {payload : List UInt8}
    (careful : (RawCall.setPayload payload).Careful pdu) :
    KeepsSound (coapSetPayload pdu payload) pdu := by
  have sound : Sound pdu := ⟨parts, consists, scannable⟩
  have mapped := consists.max_le
  have len := consists.len_eq
  have hasTkl := consists.coapGetTkl_eq
  obtain ⟨err, front, back, last, split, options, -, stops, walk⟩ :=
    consists.optionWalk_eq (scannable.passable 0)
  have size := congrArg List.length split
  rw [List.length_append] at size
  cases stops with
  | done =>
      by_cases full : pdu.max < pdu.len + payload.length + 1
      · refine @Sound.keepsSound _ _ .ceInsufficientBuffer sound ?_
        simp only [coapSetPayload, hasTkl, Exec.ok_bind, walk, full, if_true, Exec.pure_eq_ok]
      · rw [List.length_nil] at size
        obtain ⟨mem, stored, after, frame⟩ := @store_body _ _ consists front []
          (0xFF :: payload) split (by rw [List.length_cons]; omega)
        -- the code stores the marker and the payload one after the other
        have markerStored := @Mem.store_of_le pdu.mem
          (4 + parts.token.length + front.length) [0xFF] (by rw [List.length_singleton]; omega)
        generalize pdu.mem.take _ ++ [0xFF] ++ _ = withMarker at markerStored
        have markerSize := Mem.store_length markerStored
        have payloadStored := @Mem.store_of_le withMarker
          (4 + parts.token.length + front.length + 1) payload (by omega)
        have both : pdu.mem.store (4 + parts.token.length + front.length) (0xFF :: payload) = _ :=
          Mem.store_store_right markerStored payloadStored
        rw [stored, Except.ok.injEq] at both
        rw [← both] at payloadStored
        refine ⟨.ceNone, _, ?_, frame, _, after, options.scannable .marker⟩
        simp only [coapSetPayload, hasTkl, Exec.ok_bind, walk, full, if_false, markerStored,
          payloadStored, Exec.pure_eq_ok, List.length_cons]
        rw [show 4 + parts.token.length + front.length + 1 + payload.length =
          4 + parts.token.length + front.length + (payload.length + 1) by omega]
  | marker =>
      by_cases full : pdu.max < pdu.len + payload.length
      · refine @Sound.keepsSound _ _ .ceInsufficientBuffer sound ?_
        simp only [coapSetPayload, hasTkl, Exec.ok_bind, walk, full, if_true, Exec.pure_eq_ok]
      · obtain ⟨mem, stored, after, frame⟩ := @store_body _ _ consists _ _ payload split
          (by omega)
        have walkable : Scannable payload := by
          rcases careful with impossible | walkable | none
          · exact absurd impossible full
          · exact walkable
          · exact absurd options (none _ _ _ (consists.body_eq.trans split))
        refine ⟨.ceNone, _, ?_, frame, _, after, options.scannable walkable⟩
        simp only [coapSetPayload, hasTkl, Exec.ok_bind, walk, full, if_false, stored,
          Exec.pure_eq_ok]
  | reserved =>
      refine @Sound.keepsSound _ _ .ceInvalidPacket sound ?_
      simp only [coapSetPayload, hasTkl, Exec.ok_bind, walk, Exec.pure_eq_ok]
  | option impossible => exact impossible.elim

/-- An option that has been written behind `front`. -/
theorem withOption_sound {front header value back tail rest : List UInt8} {num last : Nat}
    (split : parts.body = front ++ back) (options : CompleteOptions num front last)
    (frame : Frame pdu (pdu.withOption (parts.fixed ++ (parts.token ++ front)) header value
      (tail ++ rest)))
    (size : tail.length = back.length)
    (fits : pdu.len + header.length + value.length ≤ pdu.max)
    (scannable : Scannable (header ++ (value ++ tail))) :
    Sound (pdu.withOption (parts.fixed ++ (parts.token ++ front)) header value
      (tail ++ rest)) := by
  have len := consists.len_eq
  rw [split, List.length_append] at len
  have newSize : ({ parts with body := front ++ (header ++ (value ++ tail)) } :
      Parts).bytes.length = pdu.len + header.length + value.length := by
    simp only [Parts.bytes_length, List.length_append]
    omega
  refine ⟨{ parts with body := front ++ (header ++ (value ++ tail)) },
    @Frame.consists _ _ _ _ rest frame consists consists.tkl ?_ newSize.symm (by omega),
    options.scannable scannable⟩
  simp [CoapPdu.withOption, Parts.bytes, Parts.fixed]

theorem coapAddOption_keepsSound (scannable : Scannable parts.body) {num : Int}
    {value : List UInt8} (short : value.length < 2 ^ 16)
    (careful : (RawCall.addOption num value short).Careful pdu) :
    KeepsSound (coapAddOption pdu num value value.length) pdu := by
  have sound : Sound pdu := ⟨parts, consists, scannable⟩
  have mapped := consists.max_le
  have bounded := consists.mem_lt
  have len := consists.len_eq
  have hasTkl := consists.coapGetTkl_eq
  obtain ⟨harmless, passable⟩ := careful
  rw [consists.body_eq] at passable
  obtain ⟨err, front, back, last, split, options, goes, stops, walk⟩ :=
    consists.optionWalk_eq passable
  have place : 4 + parts.token.length + front.length =
      (parts.fixed ++ (parts.token ++ front)).length := by
    simp only [List.length_append, Parts.fixed_length]
    omega
  rw [place] at walk
  have delta : num - last < 0 → (num - last) % 16 ≠ 13 ∧ (num - last) % 16 ≠ 14 := by
    intro negative
    rcases goes with rfl | goes
    · rw [Int.natCast_zero, Int.sub_zero] at negative ⊢
      exact harmless negative
    · rw [decide_eq_true_eq] at goes
      omega
  obtain ⟨header, builds, walkable⟩ := exists_buildsHeader short delta
  have bytes : pdu.mem = parts.fixed ++ (parts.token ++ front) ++
      (back ++ pdu.mem.drop pdu.len) := by
    nth_rewrite 1 [consists.mem_eq]
    simp only [split, List.append_assoc]
  have size := congrArg List.length split
  rw [List.length_append] at size
  by_cases reserved : err = .ceInvalidPacket
  · subst reserved
    refine @Sound.keepsSound _ _ .ceInvalidPacket sound ?_
    simp [coapAddOption, hasTkl, walk]
  by_cases full : pdu.max <
      pdu.len + coapComputeOptionHeaderLen (num - last) value.length + value.length
  · exact sound.keepsSound (coapAddOption_insufficient hasTkl walk
      (stops.proceeds reserved) full)
  have fits : pdu.len + header.length + value.length ≤ pdu.max := by
    rw [builds.computed] at full
    omega
  have inserts : ∀ {adjusted : List UInt8} {status : CoapError}, back ≠ [] → Scannable adjusted →
      adjusted.length = back.length →
      (∀ {moved rest : Mem} {start : Nat}, moved.drop start = back ++ rest →
        moved.length = pdu.mem.length →
        coapAdjustOptionDeltas moved start (back.length + header.length + value.length)
          (pdu.max - (parts.fixed ++ (parts.token ++ front)).length) (last - num) =
            .ok (status, moved.take start ++ (adjusted ++ rest),
              back.length + header.length + value.length)) →
      KeepsSound (coapAddOption pdu num value value.length) pdu := by
    intro adjusted status nonempty walkableTail sameSize adjusts
    obtain ⟨rest, frame, added⟩ := coapAddOption_inserts hasTkl walk
      (stops.proceeds reserved) builds fits mapped bounded bytes (by omega) nonempty sameSize
      (fun at_ _ same => adjusts at_ same)
    exact ⟨_, _, added, frame, consists.withOption_sound split options frame sameSize fits
      (walkable _ walkableTail)⟩
  cases stops with
  | done =>
      have at_ : pdu.mem.take pdu.len = parts.fixed ++ (parts.token ++ front) := by
        rw [bytes]
        apply List.take_left'
        rw [← place, len, size, List.length_nil]
        rfl
      obtain ⟨rest, frame, added⟩ := coapAddOption_appends hasTkl walk (by simp) builds fits
        mapped at_ (by rw [← place, len, size, List.length_nil]; rfl)
      exact ⟨_, _, added, frame,
        @withOption_sound _ _ consists _ _ _ _ [] _ _ _ split options frame rfl fits
          (walkable _ .done)⟩
  | marker =>
      apply @inserts (0xFF :: _) .ceNone (by simp) .marker rfl
      intro moved rest start at_ same
      rw [coapAdjustOptionDeltas_marker at_ (by rw [List.length_cons]; omega) (by omega), ← at_,
        List.take_append_drop]
  | reserved => exact absurd rfl reserved
  | option good =>
      have adjustable := good.resolve_left full
      obtain ⟨status, adjusted, sameSize, walkableTail, loop⟩ := adjustLoop_adjustable adjustable
      apply inserts adjustable.ne_nil walkableTail sameSize
      intro moved rest start at_ same
      have atSize := congrArg List.length at_
      rw [List.length_drop, List.length_append] at atSize
      exact loop at_ (Nat.le_refl _) (by omega) (by omega) (by omega)

end CoapPdu.Consists

/-! ## Sequences of calls -/

theorem Sound.step {pdu : CoapPdu} {call : RawCall} (sound : Sound pdu)
    (careful : call.Careful pdu) : KeepsSound (call.run pdu) pdu := by
  obtain ⟨parts, consists, scannable⟩ := id sound
  cases call with
  | setVersion ver => exact (consists.coapSetVersion_leaves ver).keepsSound scannable
  | setType mtype => exact (consists.coapSetType_leaves mtype).keepsSound scannable
  | setCode code => exact (consists.coapSetCode_leaves code).keepsSound scannable
  | setMid mid => exact (consists.coapSetMid_leaves mid).keepsSound scannable
  | setToken token tkl =>
      by_cases good : 4 + tkl.toNat + parts.body.length ≤ pdu.max ∧ tkl.toNat ≤ 8
      · exact (consists.coapSetToken_leaves token.toNat good.2 good.1).keepsSound scannable
      · obtain ⟨err, -, ran⟩ := consists.coapSetToken_rejects token.toNat good
        exact sound.keepsSound ran
  | addOption num value short => exact consists.coapAddOption_keepsSound scannable short careful
  | setPayload payload => exact consists.coapSetPayload_keepsSound scannable careful

theorem Sound.staysInBuffer {pdu : CoapPdu} {calls : List RawCall} (sound : Sound pdu)
    (careful : AllCareful pdu calls) : StaysInBuffer pdu calls := by
  induction calls generalizing pdu with
  | nil => trivial
  | cons call rest ih =>
      obtain ⟨err, after, ran, frame, soundAfter⟩ := sound.step careful.1
      exact ⟨err, after, ran, soundAfter.withinBuffer frame,
        ih soundAfter (careful.2 err after ran)⟩

/-- A sequence of careful calls never leaves the buffer. -/
theorem staysInBuffer_of_careful (pdu : CoapPdu) (calls : List RawCall) (room : 4 ≤ pdu.max)
    (mapped : pdu.max ≤ pdu.mem.length) (bounded : pdu.mem.length < 2 ^ 63)
    (careful : ∀ after, coapInitPdu pdu = .ok (.ceNone, after) → AllCareful after calls) :
    InitStaysInBuffer pdu calls := by
  obtain ⟨after, ran, holds, frame⟩ := coapInitPdu_writes room mapped bounded
  have sound : Sound after := ⟨_, holds.consists ping_encodable, .done⟩
  exact ⟨after, ran, sound.withinBuffer frame, sound.staysInBuffer (careful after ran)⟩

/-- Eight bytes of buffer, and an option header behind them. -/
def tightBuffer : CoapPdu := ⟨0x1000, List.replicate 8 0 ++ [0x11, 0, 0, 0], 0, 8⟩

/-- Option 2 is added in front of option 5, without a payload. -/
def frontInsertion : List RawCall :=
  [.addOption 5 [0x61] (by decide), .addOption 2 [0x64] (by decide)]

/-- The loop of `coap_adjust_option_deltas` rewrites the byte behind the buffer. -/
theorem not_staysInBuffer_frontInsertion :
    4 ≤ tightBuffer.max ∧ tightBuffer.max ≤ tightBuffer.mem.length ∧
      tightBuffer.mem.length < 2 ^ 63 ∧ ¬ InitStaysInBuffer tightBuffer frontInsertion := by
  refine ⟨by decide, by decide, by decide, ?_⟩
  rintro ⟨started, init, -, err, first, ran, -, err', second, ran', inBuffer, -⟩
  have isStarted : coapInitPdu tightBuffer =
      .ok (.ceNone, ⟨0x1000, [0x70, 0, 0, 0, 0, 0, 0, 0, 0x11, 0, 0, 0], 4, 8⟩) := by decide
  cases isStarted.symm.trans init
  have isFirst : coapAddOption ⟨0x1000, [0x70, 0, 0, 0, 0, 0, 0, 0, 0x11, 0, 0, 0], 4, 8⟩ 5
      [0x61] 1 =
        .ok (.ceNone, ⟨0x1000, [0x70, 0, 0, 0, 0x51, 0x61, 0, 0, 0x11, 0, 0, 0], 6, 8⟩) := by
    decide
  cases isFirst.symm.trans ran
  have isSecond : coapAddOption ⟨0x1000, [0x70, 0, 0, 0, 0x51, 0x61, 0, 0, 0x11, 0, 0, 0], 6, 8⟩
      2 [0x64] 1 = .ok (.ceNone,
        ⟨0x1000, [0x70, 0, 0, 0, 0x21, 0x64, 0x31, 0x61, 0x41, 0, 0, 0], 8, 8⟩) := by
    decide
  cases isSecond.symm.trans ran'
  exact absurd inBuffer.behind (by decide)

/-- With a payload behind option 5, option 2 goes in front of it. -/
def frontOfPayload : List RawCall :=
  [.addOption 5 [0x61] (by decide), .setPayload [0x63], .addOption 2 [0x64] (by decide)]

theorem staysInBuffer_of_careful_frontOfPayload :
    InitStaysInBuffer ⟨0x1000, List.replicate 10 0, 0, 10⟩ frontOfPayload := by
  apply staysInBuffer_of_careful _ _ (by decide) (by decide) (by decide)
  intro started init
  have isStarted : coapInitPdu ⟨0x1000, List.replicate 10 0, 0, 10⟩ =
      .ok (.ceNone, ⟨0x1000, [0x70, 0, 0, 0, 0, 0, 0, 0, 0, 0], 4, 10⟩) := by decide
  cases isStarted.symm.trans init
  refine ⟨⟨by decide, .done⟩, ?_⟩
  intro err first ran
  have isFirst : coapAddOption ⟨0x1000, [0x70, 0, 0, 0, 0, 0, 0, 0, 0, 0], 4, 10⟩ 5 [0x61] 1 =
      .ok (.ceNone, ⟨0x1000, [0x70, 0, 0, 0, 0x51, 0x61, 0, 0, 0, 0], 6, 10⟩) := by decide
  cases isFirst.symm.trans ran
  refine ⟨.inr (.inr ?_), ?_⟩
  · intro front last rest split
    have marker : (0xFF : UInt8) ∈ front ++ 0xFF :: rest := by simp
    rw [← split] at marker
    exact absurd marker (by decide)
  · intro err second ran
    have isSecond : coapSetPayload ⟨0x1000, [0x70, 0, 0, 0, 0x51, 0x61, 0, 0, 0, 0], 6, 10⟩ [0x63] =
        .ok (.ceNone, ⟨0x1000, [0x70, 0, 0, 0, 0x51, 0x61, 0xFF, 0x63, 0, 0], 8, 10⟩) := by decide
    cases isSecond.symm.trans ran
    have header : Header [0x51] 5 1 :=
      @Header.mk 0x51 [] [] 5 1 (.direct (by decide)) (.direct (by decide))
    refine ⟨⟨by decide, ?_⟩, fun _ _ _ => trivial⟩
    exact @Passable.stops _ _ 0 5 1 [0x51] [0x61] [0xFF, 0x63] header rfl (by decide)
      (.inr (@Adjustable.option _ 0 5 1 [0x51] [0x61] [0xFF, 0x63] header rfl (by decide) .marker))

end ExositeCoap.Coap
