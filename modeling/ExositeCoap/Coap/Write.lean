import ExositeCoap.Coap.Observe
import ExositeCoap.Coap.Parts

/-!
# What the setters do to an encoded message

One lemma for each setter: applied to a packet that holds a message, it returns
`CE_NONE` and leaves the encoding of the changed message (`Writes`), or it returns
an error and the packet as it was.  Options are added here behind all present
ones; insertion further in front is a matter of its own.
-/

namespace ExositeCoap.Coap

open Lib Wire

/-- The call succeeds, and the packet it leaves holds `message`. -/
def Writes (call : Exec SetterResult) (pdu : CoapPdu) (message : Message) : Prop :=
  ∃ after, call = .ok (.ceNone, after) ∧ after.Holds message ∧ Frame pdu after

/-- A packet whose memory starts with the encoding of a message holds it. -/
theorem Frame.holds {pdu after : CoapPdu} {old message : Message} {rest : Mem}
    (frame : Frame pdu after) (holds : pdu.Holds old)
    (mem : after.mem = message.encode ++ rest) (len : after.len = message.encode.length)
    (fits : message.encode.length ≤ pdu.max) : after.Holds message where
  bytes := by rw [mem, len, List.take_left]
  len_le := by rw [len, frame.max]; exact fits
  max_le := by rw [frame.max, frame.size]; exact holds.max_le
  mem_lt := by rw [frame.size]; exact holds.mem_lt

/-! ## Header fields and token -/

/-- The parts of an encoded message. -/
def Message.parts (message : Message) : Parts :=
  ⟨UInt8.ofNat (64 + message.kind.bits * 16 + message.token.length), message.code,
    UInt8.ofNat (message.mid.toNat / 256), UInt8.ofNat (message.mid.toNat % 256),
    message.token, message.body⟩

theorem CoapPdu.Holds.consists {pdu : CoapPdu} {message : Message} (holds : pdu.Holds message)
    (encodable : message.Encodable) : pdu.Consists (Message.parts message) where
  bytes := holds.bytes
  tkl := by
    have tokenBound := encodable.token_le
    simp only [Message.parts, CoapPdu.Holds.first_toNat encodable.token_le]
    omega
  len_le := holds.len_le
  max_le := holds.max_le
  mem_lt := holds.mem_lt

/-- A setter that leaves the parts of a message writes that message. -/
theorem Leaves.writes {call : Exec SetterResult} {pdu : CoapPdu} {message : Message}
    {parts : Parts} (leaves : Leaves call pdu parts) (same : parts = Message.parts message) :
    Writes call pdu message := by
  obtain ⟨after, ran, consists, frame⟩ := leaves
  rw [same] at consists
  exact ⟨after, ran,
    ⟨consists.bytes, consists.len_le, consists.max_le, consists.mem_lt⟩, frame⟩

section HeaderFields

variable {pdu : CoapPdu} {message : Message} (holds : pdu.Holds message)

include holds

theorem CoapPdu.Holds.four_le : 4 ≤ pdu.len := by
  rw [holds.len_eq_body]
  omega

variable (encodable : message.Encodable)

include encodable

theorem coapSetCode_writes (code : UInt8) :
    Writes (coapSetCode pdu code) pdu { message with code } :=
  ((holds.consists encodable).coapSetCode_leaves code).writes rfl

theorem coapSetMid_writes (mid : UInt16) :
    Writes (coapSetMid pdu mid) pdu { message with mid } :=
  ((holds.consists encodable).coapSetMid_leaves mid).writes rfl

theorem coapSetVersion_writes : Writes (coapSetVersion pdu coapV1) pdu message := by
  have kindBound := message.kind.bits_lt
  have tokenBound := encodable.token_le
  have first : coapV1 * 64 + (64 + message.kind.bits * 16 + message.token.length) % 64 =
      64 + message.kind.bits * 16 + message.token.length := by
    unfold coapV1
    omega
  apply ((holds.consists encodable).coapSetVersion_leaves coapV1).writes
  simp only [Message.parts, CoapPdu.Holds.first_toNat encodable.token_le, first]

theorem coapSetType_writes (kind : CoapType) :
    Writes (coapSetType pdu kind) pdu { message with kind } := by
  have kindBound := message.kind.bits_lt
  have tokenBound := encodable.token_le
  have first : (64 + message.kind.bits * 16 + message.token.length) / 64 * 64 +
      kind.bits * 16 + (64 + message.kind.bits * 16 + message.token.length) % 16 =
        64 + kind.bits * 16 + message.token.length := by omega
  apply ((holds.consists encodable).coapSetType_leaves kind).writes
  simp only [Message.parts, CoapPdu.Holds.first_toNat encodable.token_le, first]
  rfl

theorem coapSetToken_writes {tkl : Nat} (token : Nat) (short : tkl ≤ 8)
    (fits : 4 + tkl + message.body.length ≤ pdu.max) :
    Writes (coapSetToken pdu token tkl) pdu { message with token := leBytes tkl token } := by
  have kindBound := message.kind.bits_lt
  have tokenBound := encodable.token_le
  have first : (64 + message.kind.bits * 16 + message.token.length) / 16 * 16 + tkl =
      64 + message.kind.bits * 16 + tkl := by omega
  apply ((holds.consists encodable).coapSetToken_leaves token short fits).writes
  simp only [Message.parts, CoapPdu.Holds.first_toNat encodable.token_le, first, leBytes_length]
  rfl

/-- Too long a token, or one that does not fit, is rejected. -/
theorem coapSetToken_rejects {tkl : Nat} (token : Nat)
    (bad : ¬ (4 + tkl + message.body.length ≤ pdu.max ∧ tkl ≤ 8)) :
    Rejects (coapSetToken pdu token tkl) pdu :=
  (holds.consists encodable).coapSetToken_rejects token bad

end HeaderFields

/-! ## Initialisation -/

/-- The message that `coap_init_pdu` writes. -/
def ping : Message := ⟨.rst, ccEmpty, 0, [], [], none⟩

theorem ping_encodable : ping.Encodable := ⟨by decide, trivial⟩

theorem coapInitPdu_writes {pdu : CoapPdu} (room : 4 ≤ pdu.max)
    (mapped : pdu.max ≤ pdu.mem.length) (bounded : pdu.mem.length < 2 ^ 63) :
    Writes (coapInitPdu pdu) pdu ping := by
  obtain ⟨buf, mem, len, max⟩ := pdu
  dsimp only at room mapped bounded
  match mem, mapped with
  | first :: code :: high :: low :: rest, mapped =>
      have ping_bytes : ping.encode = [0x70, 0, 0, 0] := by decide
      obtain ⟨more, rfl⟩ := Nat.exists_eq_add_of_le' room
      have four : ¬ more + 4 < 4 := by omega
      refine ⟨⟨buf, [0x70, 0, 0, 0] ++ rest, 4, more + 4⟩, ?_, ⟨?_, room, mapped, bounded⟩,
        ⟨rfl, rfl, rfl, ?_⟩⟩
      · rw [coapInitPdu, if_neg four]
        rfl
      · rw [ping_bytes]
        rfl
      · simp
  | [], mapped | [_], mapped | [_, _], mapped | [_, _, _], mapped =>
      simp only [List.length_cons, List.length_nil] at mapped
      omega

/-! ## Option headers -/

theorem byteOf_natCast (value : Nat) : byteOf value = UInt8.ofNat value := by
  apply UInt8.toNat_inj.mp
  rw [byteOf, UInt8.toNat_ofNat', UInt8.toNat_ofNat']
  omega

theorem extendedLen_natCast (value : Nat) : extendedLen value = (fieldExt value).length := by
  unfold extendedLen fieldExt
  split_ifs <;> first | rfl | omega

/-- The computed length is that of the header. -/
theorem coapComputeOptionHeaderLen_natCast (delta length : Nat) :
    coapComputeOptionHeaderLen delta length = (optionHeader delta length).length := by
  simp only [coapComputeOptionHeaderLen, extendedLen_natCast, optionHeader, List.length_cons,
    List.length_append]
  omega

/-- With enough room, the extension bytes of the field are stored. -/
theorem buildExtended_of_store {mem result : Mem} {buf ptr maxLen value : Nat}
    (stored : mem.store ptr (fieldExt value) = .ok result)
    (room : ptr - buf + (fieldExt value).length ≤ maxLen) :
    buildExtended mem buf ptr maxLen value =
      .ok (some (fieldNibble value, ptr + (fieldExt value).length), result) := by
  unfold fieldExt at stored room ⊢
  unfold buildExtended fieldNibble
  by_cases small : value < 13
  · rw [if_pos small] at stored room
    have unchanged : mem = result := by
      have := (Mem.store_eq_ok.mp stored).2
      simpa using this.symm
    have nibble : ((value : Int) % 256).toNat = value := by omega
    have smallInt : (value : Int) < 13 := by omega
    simp only [small, smallInt, if_true, nibble, unchanged, Exec.pure_eq_ok, List.length_nil,
      Nat.add_zero]
  · by_cases medium : value < 269
    · rw [if_neg small, if_pos medium] at stored room
      have short : ¬ maxLen < ptr - buf + 1 := by
        rw [List.length_singleton] at room
        omega
      have low : ((value : Int) - 13) = ((value - 13 : Nat) : Int) := by omega
      have smallInt : ¬ (value : Int) < 13 := by omega
      have mediumInt : (value : Int) < 269 := by omega
      simp only [smallInt, mediumInt, small, medium, short, if_false, if_true, low,
        byteOf_natCast, stored, Exec.ok_bind, Exec.pure_eq_ok, List.length_singleton]
    · rw [if_neg small, if_neg medium] at stored room
      have short : ¬ maxLen < ptr - buf + 2 := by
        simp only [List.length_cons, List.length_nil] at room
        omega
      have high : ((value : Int) - 269) / 256 = (((value - 269) / 256 : Nat) : Int) := by
        omega
      have low : ((value : Int) - 269) % 256 = (((value - 269) % 256 : Nat) : Int) := by
        omega
      have smallInt : ¬ (value : Int) < 13 := by omega
      have mediumInt : ¬ (value : Int) < 269 := by omega
      simp only [smallInt, mediumInt, small, medium, short, if_false, high, low,
        byteOf_natCast, stored, Exec.ok_bind, Exec.pure_eq_ok, List.length_cons,
        List.length_nil]

/-- With the computed length for room, `coap_build_option_header` stores these bytes. -/
structure BuildsHeader (delta : Int) (length : Nat) (header : List UInt8) : Prop where
  computed : coapComputeOptionHeaderLen delta length = header.length
  built : ∀ {mem : Mem} {buf : Nat}, buf + header.length ≤ mem.length →
    ∃ result, mem.store buf header = .ok result ∧
      coapBuildOptionHeader mem buf header.length delta length =
        .ok (some header.length, result)

/-- With enough room the whole header is stored. -/
theorem coapBuildOptionHeader_of_room {mem : Mem} {buf maxLen delta length : Nat}
    (room : (optionHeader delta length).length ≤ maxLen)
    (mapped : buf + (optionHeader delta length).length ≤ mem.length) :
    ∃ result, mem.store buf (optionHeader delta length) = .ok result ∧
      coapBuildOptionHeader mem buf maxLen delta length =
        .ok (some (optionHeader delta length).length, result) := by
  have size : (optionHeader delta length).length =
      1 + (fieldExt delta).length + (fieldExt length).length := by
    simp only [optionHeader, List.length_cons, List.length_append]
    omega
  have deltaStored := @Mem.store_of_le mem (buf + 1) (fieldExt delta) (by omega)
  generalize mem.take (buf + 1) ++ fieldExt delta ++ _ = withDelta at deltaStored
  have deltaSize := Mem.store_length deltaStored
  have lengthStored := @Mem.store_of_le withDelta (buf + 1 + (fieldExt delta).length)
    (fieldExt length) (by omega)
  generalize withDelta.take _ ++ fieldExt length ++ _ = withBoth at lengthStored
  have lengthSize := Mem.store_length lengthStored
  have firstStored := @Mem.store_of_le withBoth buf
    [UInt8.ofNat (fieldNibble delta * 16 + fieldNibble length)]
    (by rw [List.length_singleton]; omega)
  refine ⟨_, Mem.store_store_left (Mem.store_store_right deltaStored lengthStored) firstStored,
    ?_⟩
  have nonempty : ¬ maxLen < 1 := by omega
  simp only [coapBuildOptionHeader, nonempty, if_false, Exec.ok_bind, Exec.pure_eq_ok,
    @buildExtended_of_store _ _ buf _ maxLen _ deltaStored (by omega),
    @buildExtended_of_store _ _ buf _ maxLen _ lengthStored (by omega), firstStored]
  rw [size, show buf + 1 + (fieldExt delta).length + (fieldExt length).length - buf =
    1 + (fieldExt delta).length + (fieldExt length).length by omega]

theorem buildsHeader_optionHeader (delta length : Nat) :
    BuildsHeader delta length (optionHeader delta length) where
  computed := coapComputeOptionHeaderLen_natCast delta length
  built := coapBuildOptionHeader_of_room (Nat.le_refl _)

theorem BuildsHeader.natSub {num last length : Nat} (ordered : last ≤ num) :
    BuildsHeader ((num : Int) - last) length (optionHeader (num - last) length) := by
  rw [show (num : Int) - last = ((num - last : Nat) : Int) by omega]
  exact buildsHeader_optionHeader _ _

/-! ## Finding the insertion point -/

section Walk

variable {mem tail : Mem} {len : Nat} {goOn : Nat → Bool}

/-- One round of the walk. -/
theorem optionWalk_decodes {foptVal foptLen foptNum : Nat} {result : DecodeResult}
    (more : sizeSub len (foptVal + foptLen) ≠ 0)
    (decodes : Decodes mem (foptVal + foptLen) foptNum foptLen (some foptVal) result) (fuel : Nat) :
    optionWalk mem len goOn (fuel + 1) foptVal foptLen foptNum =
      if result.err = .ceNone ∧ goOn result.num ∧ foptVal + foptLen + result.len < len then
        optionWalk mem len goOn fuel (result.val.getD 0) result.len result.num
      else
        .ok (result.err, foptVal + foptLen, foptNum) := by
  rw [optionWalk, coapDecodeOption_of_decodes more decodes]
  rfl

/-- The walk passes over encoded options that do not stop it. -/
theorem optionWalk_skip {options : List Opt} {previous foptVal foptLen : Nat}
    (ascending : Ascending previous options) (passed : ∀ option ∈ options, goOn option.num)
    (at_ : mem.drop (foptVal + foptLen) = encodeOptions previous options ++ tail)
    (inside : foptVal + foptLen + (encodeOptions previous options).length ≤ len)
    (bounded : len < 2 ^ 64) :
    ∃ val length, val + length = foptVal + foptLen + (encodeOptions previous options).length ∧
      ∀ fuel, optionWalk mem len goOn (fuel + options.length) foptVal foptLen previous =
        optionWalk mem len goOn fuel val length (lastNum previous options) := by
  induction options generalizing previous foptVal foptLen with
  | nil => exact ⟨foptVal, foptLen, rfl, fun _ => rfl⟩
  | cons option rest ih =>
      simp only [encodeOptions, List.length_append] at inside ⊢
      have headerPos : 0 < (optionHeader (option.num - previous)
          option.value.length).length := by simp [optionHeader]
      have more : sizeSub len (foptVal + foptLen) ≠ 0 := by
        rw [sizeSub_of_le (by omega) bounded]
        omega
      have decodes := decodes_encoded ascending at_ previous foptLen (some foptVal)
      have number : (previous + (option.num - previous)) % 2 ^ 16 = option.num := by
        obtain ⟨lower, upper, -, -⟩ := ascending
        omega
      have goes := passed option List.mem_cons_self
      obtain ⟨val, length, position, walk⟩ := ih ascending.2.2.2
        (fun other member => passed other (List.mem_cons_of_mem _ member))
        (drop_encoded at_).2 (by omega)
      refine ⟨val, length, by omega, ?_⟩
      intro fuel
      have next : foptVal + foptLen + option.value.length < len := by omega
      rw [number] at decodes
      rw [List.length_cons, ← Nat.add_assoc, optionWalk_decodes more decodes,
        if_pos ⟨rfl, goes, next⟩]
      exact walk fuel

variable {foptVal foptLen foptNum : Nat}

theorem optionWalk_end (atEnd : len = foptVal + foptLen) (fuel : Nat) :
    optionWalk mem len goOn (fuel + 1) foptVal foptLen foptNum =
      .ok (.ceEndOfPacket, foptVal + foptLen, foptNum) := by
  simp [optionWalk, atEnd]

theorem optionWalk_marker (more : sizeSub len (foptVal + foptLen) ≠ 0)
    (at_ : mem.drop (foptVal + foptLen) = 0xFF :: tail) (fuel : Nat) :
    optionWalk mem len goOn (fuel + 1) foptVal foptLen foptNum =
      .ok (.ceFoundPayloadMarker, foptVal + foptLen, foptNum) := by
  rw [optionWalk_decodes more (.marker at_)]
  simp

end Walk

/-- Where the walk over a whole message ends when no option stops it. -/
theorem CoapPdu.Holds.optionWalk_eq {pdu : CoapPdu} {message : Message}
    (holds : pdu.Holds message) (encodable : message.Encodable) {goOn : Nat → Bool}
    (passed : ∀ option ∈ message.options, goOn option.num) :
    optionWalk pdu.mem pdu.len goOn (pdu.mem.length + 1) (4 + message.token.length) 0 0 =
      .ok (if message.payload.isSome then .ceFoundPayloadMarker else .ceEndOfPacket,
        4 + message.token.length + (encodeOptions 0 message.options).length,
        lastNum 0 message.options) := by
  have inBuffer := holds.len_le
  have mapped := holds.max_le
  have bounded := holds.len_lt
  have len := holds.len_eq_body
  have body := message.body_length
  have at_ : pdu.mem.drop (4 + message.token.length + 0) = encodeOptions 0 message.options ++
      (Message.payloadBytes message.payload ++ pdu.mem.drop pdu.len) := by
    rw [Nat.add_zero, holds.drop_body, Message.body, List.append_assoc]
  obtain ⟨val, length, position, walk⟩ :=
    @optionWalk_skip _ _ pdu.len _ _ _ _ _ encodable.ascending passed at_ (by omega) bounded
  rw [Nat.add_zero] at position
  have count := length_le_encodeOptions 0 message.options
  obtain ⟨fuel, enough⟩ := Nat.exists_eq_add_of_le
    (show 1 + message.options.length ≤ pdu.mem.length + 1 by omega)
  rw [enough, show 1 + message.options.length + fuel = fuel + 1 + message.options.length by omega,
    walk (fuel + 1)]
  have behind := Mem.drop_add_of_append at_
  rw [Nat.add_zero, ← position] at behind
  cases payload : message.payload with
  | none =>
      rw [payload] at body
      rw [optionWalk_end, position]
      · rfl
      · simp only [Message.payloadBytes, List.length_nil] at body
        omega
  | some bytes =>
      rw [payload] at body behind
      simp only [Message.payloadBytes, List.length_cons] at body
      have more : sizeSub pdu.len (val + length) ≠ 0 := by
        rw [sizeSub_of_le (by omega) bounded]
        omega
      rw [optionWalk_marker more behind, position]
      rfl

/-! ## Adding an option -/

/-- The last two writes of `coap_add_option`: header and value. -/
theorem BuildsHeader.writeOption {delta : Int} {mem header value : Mem} {pos : Nat}
    (builds : BuildsHeader delta value.length header)
    (mapped : pos + header.length + value.length ≤ mem.length) :
    ∃ withHeader result,
      coapBuildOptionHeader mem pos header.length delta value.length =
        .ok (some header.length, withHeader) ∧
      withHeader.store (pos + header.length) value = .ok result ∧
      mem.store pos (header ++ value) = .ok result := by
  obtain ⟨withHeader, stored, built⟩ :=
    builds.built (show pos + header.length ≤ mem.length by omega)
  have size := Mem.store_length stored
  have valueStored := @Mem.store_of_le withHeader (pos + header.length) value (by omega)
  exact ⟨withHeader, _, built, valueStored, Mem.store_store_right stored valueStored⟩

/-- The packet with an option written behind `front`, followed by `back`. -/
def CoapPdu.withOption (pdu : CoapPdu) (front header value back : Mem) : CoapPdu :=
  { pdu with
    mem := front ++ (header ++ (value ++ back))
    len := pdu.len + header.length + value.length }

section AddOption

variable {pdu : CoapPdu} {front : Mem} {err : CoapError} {tkl last : Nat} {num : Int}
  {value : List UInt8} (hasTkl : coapGetTkl pdu = .ok tkl)
  (walk : optionWalk pdu.mem pdu.len (fun other => decide ((other : Int) ≤ num))
    (pdu.mem.length + 1) (4 + tkl) 0 0 = .ok (err, front.length, last))
  (proceeds : ¬ (err ≠ .ceFoundPayloadMarker ∧ err ≠ .ceEndOfPacket ∧ err ≠ .ceNone))

include hasTkl walk proceeds

theorem coapAddOption_insufficient
    (full : pdu.max <
      pdu.len + coapComputeOptionHeaderLen (num - last) value.length + value.length) :
    coapAddOption pdu num value value.length = .ok (.ceInsufficientBuffer, pdu) := by
  simp only [coapAddOption, hasTkl, Exec.ok_bind, walk, proceeds, if_false, full, if_true,
    Exec.pure_eq_ok]

variable {header : List UInt8} (builds : BuildsHeader (num - last) value.length header)
  (fits : pdu.len + header.length + value.length ≤ pdu.max)
  (mapped : pdu.max ≤ pdu.mem.length)

include builds fits mapped

/-- At the end of the packet, the option is simply written there. -/
theorem coapAddOption_appends (at_ : pdu.mem.take pdu.len = front)
    (len : pdu.len = front.length) :
    ∃ back, Frame pdu (pdu.withOption front header value back) ∧
      coapAddOption pdu num value value.length =
        .ok (.ceNone, pdu.withOption front header value back) := by
  have room : ¬ pdu.max < pdu.len + header.length + value.length := by omega
  obtain ⟨withHeader, result, built, valueStored, stored⟩ :=
    @BuildsHeader.writeOption _ pdu.mem _ _ front.length builds (by omega)
  have shape := (Mem.store_eq_ok.mp stored).2
  rw [← len, at_, List.append_assoc, List.append_assoc] at shape
  have loaded : Mem.slice value 0 value.length = .ok value := by simp [Mem.slice]
  have frame := Frame.of_store stored (by rw [List.length_append]; omega)
    (pdu.len + header.length + value.length)
  rw [shape] at frame
  refine ⟨_, frame, ?_⟩
  have atEnd : ¬ pdu.len ≠ front.length := by omega
  simp only [coapAddOption, hasTkl, Exec.ok_bind, walk, proceeds, if_false,
    builds.computed, room, atEnd, Exec.pure_eq_ok, built, loaded,
    valueStored, shape, CoapPdu.withOption]

/-- In the middle of a packet the tail is slid and adjusted; here the adjustment
does not change the length of the tail. -/
theorem coapAddOption_inserts (bounded : pdu.mem.length < 2 ^ 63)
    {tail rest adjustedTail : Mem} {status : CoapError}
    (mem : pdu.mem = front ++ (tail ++ rest)) (len : pdu.len = front.length + tail.length)
    (nonempty : tail ≠ []) (sameLength : adjustedTail.length = tail.length)
    (adjusts : ∀ {moved back : Mem} {start : Nat}, moved.drop start = tail ++ back →
      start = front.length + header.length + value.length →
      moved.length = pdu.mem.length →
      coapAdjustOptionDeltas moved start (tail.length + header.length + value.length)
        (pdu.max - front.length) (last - num) = .ok (status,
          moved.take start ++ (adjustedTail ++ back),
          tail.length + header.length + value.length)) :
    ∃ back, Frame pdu (pdu.withOption front header value (adjustedTail ++ back)) ∧
      coapAddOption pdu num value value.length =
        .ok (.ceNone, pdu.withOption front header value (adjustedTail ++ back)) := by
  have room : ¬ pdu.max < pdu.len + header.length + value.length := by omega
  have tailPos : 0 < tail.length := List.length_pos_iff.mpr nonempty
  have inMiddle : pdu.len ≠ front.length := by omega
  have atTail : pdu.mem.drop front.length = tail ++ rest := by rw [mem, List.drop_left]
  generalize isStart : front.length + header.length + value.length = start at adjusts
  -- slide
  have moved := @Mem.move_of_drop _ _ _ start _ atTail (by omega)
  have movedSize := Mem.move_length moved
  have movedBehind := Mem.move_drop moved (show _ ≤ pdu.max by omega)
  have frontSize : (pdu.mem.take start).length = start := by
    rw [List.length_take]
    omega
  rw [List.append_assoc] at moved movedSize movedBehind
  generalize pdu.mem.drop (start + tail.length) = back at moved movedSize movedBehind
  have movedAt : (pdu.mem.take start ++ (tail ++ back)).drop start = tail ++ back :=
    List.drop_left' frontSize
  have movedFront : (pdu.mem.take start ++ (tail ++ back)).take start = pdu.mem.take start :=
    List.take_left' frontSize
  -- adjust
  have adjusted := adjusts movedAt rfl movedSize
  rw [movedFront] at adjusted
  have adjustedSize : (pdu.mem.take start ++ (adjustedTail ++ back)).length =
      pdu.mem.length := by
    rw [← movedSize]
    simp only [List.length_append, sameLength]
  -- write
  obtain ⟨withHeader, result, built, valueStored, stored⟩ :=
    @BuildsHeader.writeOption _ (pdu.mem.take start ++ (adjustedTail ++ back)) _ _
      front.length builds (by omega)
  have shape := (Mem.store_eq_ok.mp stored).2
  have untouched : (pdu.mem.take start ++ (adjustedTail ++ back)).take front.length = front := by
    rw [List.take_append_of_le_length (by omega), List.take_take, Nat.min_eq_left (by omega),
      mem, List.take_left]
  have behind : (pdu.mem.take start ++ (adjustedTail ++ back)).drop (front.length +
      (header ++ value).length) = adjustedTail ++ back := by
    rw [List.length_append, ← Nat.add_assoc, isStart, List.drop_left' frontSize]
  rw [untouched, behind, List.append_assoc, List.append_assoc] at shape
  have adjustedBehind : (pdu.mem.take start ++ (adjustedTail ++ back)).drop pdu.max =
      pdu.mem.drop pdu.max := by
    rw [← movedBehind, List.drop_append, List.drop_append, List.drop_append, List.drop_append,
      List.drop_eq_nil_of_le (show adjustedTail.length ≤ _ by omega),
      List.drop_eq_nil_of_le (show tail.length ≤ _ by omega), sameLength]
  refine ⟨back, ⟨rfl, rfl, ?_, ?_⟩, ?_⟩
  · rw [CoapPdu.withOption, ← shape, Mem.store_length stored, adjustedSize]
  · rw [CoapPdu.withOption, ← shape, ← adjustedBehind]
    exact Mem.store_drop stored (by rw [List.length_append]; omega)
  · have loaded : Mem.slice value 0 value.length = .ok value := by simp [Mem.slice]
    have tailLen : sizeSub pdu.len front.length = tail.length := by
      rw [sizeSub_of_le (by omega) (by omega)]
      omega
    have optsLen : sizeSub (pdu.len + header.length +
        value.length) front.length =
          tail.length + header.length + value.length := by
      rw [sizeSub_of_le (by omega) (by omega)]
      omega
    have maxLen : sizeSub pdu.max front.length = pdu.max - front.length :=
      sizeSub_of_le (by omega) (by omega)
    have newLen : sizeSub (pdu.len + header.length +
        value.length + (tail.length + header.length +
          value.length))
        (tail.length + header.length + value.length) =
          pdu.len + header.length + value.length := by
      rw [sizeSub_of_le (by omega) (by omega)]
      omega
    simp only [coapAddOption, hasTkl, Exec.ok_bind, walk, proceeds, if_false,
      builds.computed, room, if_pos inMiddle, isStart, tailLen, moved,
      optsLen, maxLen, adjusted, newLen, Exec.pure_eq_ok, built, loaded, valueStored, shape,
      CoapPdu.withOption]

end AddOption

/-! ### The adjustment of the options behind -/

section Adjust

variable {mem : Mem} {optsStart optsLen foptVal foptLen num : Nat} {offset : Int}
  (inside : foptVal + foptLen - optsStart < optsLen) (bounded : optsLen < 2 ^ 64)

include inside bounded

theorem adjustLoop_marker {rest : Mem} (at_ : mem.drop (foptVal + foptLen) = 0xFF :: rest)
    (maxLen fuel : Nat) :
    adjustLoop optsStart maxLen offset (fuel + 1) mem optsLen foptVal foptLen num =
      .ok (.ceNone, mem, optsLen) := by
  have reached : ¬ foptVal + foptLen - optsStart > optsLen := by omega
  have more : sizeSub optsLen (foptVal + foptLen - optsStart) ≠ 0 := by
    rw [sizeSub_of_le] <;> omega
  have decoded := coapDecodeOption_of_decodes more
    (.marker at_ : Decodes mem _ num foptLen (some foptVal) _)
  simp only [adjustLoop, reached, if_false, decoded, Exec.ok_bind, Exec.pure_eq_ok]

theorem adjustLoop_reserved {front rest : Mem} (isReserved : Reserved front)
    (at_ : mem.drop (foptVal + foptLen) = front ++ rest) (maxLen fuel : Nat) :
    adjustLoop optsStart maxLen offset (fuel + 1) mem optsLen foptVal foptLen num =
      .ok (.ceInvalidPacket, mem, optsLen) := by
  have reached : ¬ foptVal + foptLen - optsStart > optsLen := by omega
  have more : sizeSub optsLen (foptVal + foptLen - optsStart) ≠ 0 := by
    rw [sizeSub_of_le] <;> omega
  have decoded := coapDecodeOption_of_decodes more
    (.reserved isReserved at_ : Decodes mem _ num foptLen (some foptVal) _)
  simp only [adjustLoop, reached, if_false, decoded, Exec.ok_bind, Exec.pure_eq_ok]

/-- One round over an option whose header keeps its size: the header is written anew in
its place. -/
theorem adjustLoop_option {header value rest : Mem} {delta length newNum : Nat}
    (isHeader : Header header delta length) (complete : value.length = length % 2 ^ 16)
    (at_ : mem.drop (foptVal + foptLen) = header ++ (value ++ rest))
    (isNew : (((((num + delta) % 2 ^ 16 : Nat) : Int) + offset) % 2 ^ 16).toNat = newNum)
    (sameSize : (optionHeader newNum (length % 2 ^ 16)).length = header.length)
    (maxLen fuel : Nat) :
    ∃ front, front = mem.take (foptVal + foptLen) ++
        (optionHeader newNum (length % 2 ^ 16) ++ value) ∧
      front.length = foptVal + foptLen + header.length + length % 2 ^ 16 ∧
      adjustLoop optsStart maxLen offset (fuel + 1) mem optsLen foptVal foptLen num =
        adjustLoop optsStart maxLen offset fuel (front ++ rest) optsLen
          (foptVal + foptLen + header.length) (length % 2 ^ 16) ((num + delta) % 2 ^ 16) := by
  have nonempty := isHeader.length_pos
  have size := congrArg List.length at_
  simp only [List.length_drop, List.length_append] at size
  have reached : ¬ foptVal + foptLen - optsStart > optsLen := by omega
  have more : sizeSub optsLen (foptVal + foptLen - optsStart) ≠ 0 := by
    rw [sizeSub_of_le] <;> omega
  have decoded := coapDecodeOption_of_decodes more
    (.found isHeader at_ : Decodes mem _ num foptLen (some foptVal) _)
  have headerLen : foptVal + foptLen + header.length - (foptVal + foptLen) = header.length := by
    omega
  obtain ⟨stored, isStored, built⟩ := @BuildsHeader.built _ _ _
    (buildsHeader_optionHeader newNum (length % 2 ^ 16)) mem (foptVal + foptLen) (by omega)
  have shape := (Mem.store_eq_ok.mp isStored).2
  have computed := coapComputeOptionHeaderLen_natCast newNum (length % 2 ^ 16)
  rw [sameSize] at built computed
  rw [sameSize, Mem.drop_add_of_append at_] at shape
  refine ⟨_, rfl, ?_, ?_⟩
  · simp only [List.length_append, List.length_take, sameSize, complete]
    omega
  · simp only [adjustLoop, reached, if_false, decoded, Exec.ok_bind, Option.getD_some, isNew,
      headerLen, computed, ne_eq, not_true_eq_false, false_and, Exec.pure_eq_ok, built, shape,
      List.append_assoc]

end Adjust

/-- Nothing is adjusted in front of a payload marker. -/
theorem coapAdjustOptionDeltas_marker {mem tail : Mem} {start optsLen : Nat}
    (at_ : mem.drop start = 0xFF :: tail) (nonempty : 0 < optsLen) (bounded : optsLen < 2 ^ 64)
    (maxLen : Nat) (offset : Int) :
    coapAdjustOptionDeltas mem start optsLen maxLen offset = .ok (.ceNone, mem, optsLen) := by
  apply @adjustLoop_marker mem start optsLen start 0 0 offset _ bounded _ at_
  omega

section InOrder

variable {pdu : CoapPdu} {message : Message} (holds : pdu.Holds message)
  (encodable : message.Encodable)

/-- The packet with one more option behind all others. -/
theorem Message.encode_addOption (message : Message) (option : Opt) :
    ({ message with options := message.options ++ [option] } : Message).encode =
      message.fixedHeader ++ (message.token ++ encodeOptions 0 message.options) ++
        (optionHeader (option.num - lastNum 0 message.options) option.value.length ++
          (option.value ++ Message.payloadBytes message.payload)) := by
  simp [Message.encode, Message.fixedHeader, Message.body, encodeOptions_append, encodeOptions]

/-- The search for the place of an option that comes last passes all others. -/
theorem options_le_of_inOrder {message : Message} (encodable : message.Encodable) {num : Nat}
    (inOrder : lastNum 0 message.options ≤ num) :
    ∀ option ∈ message.options, decide ((option.num : Int) ≤ num) = true := by
  intro option member
  have lower := encodable.ascending.num_le_lastNum option member
  simp only [decide_eq_true_eq]
  omega

include holds encodable

theorem coapAddOption_writes {num : Nat} {value : List UInt8}
    (inOrder : lastNum 0 message.options ≤ num)
    (fits : ({ message with options := message.options ++ [⟨num, value⟩] } :
      Message).encode.length ≤ pdu.max) :
    Writes (coapAddOption pdu num value value.length) pdu
      { message with options := message.options ++ [⟨num, value⟩] } := by
  have mapped := holds.max_le
  have bounded := holds.mem_lt
  have len := holds.len_eq_body
  have body := message.body_length
  have encoded := Message.encode_addOption message ⟨num, value⟩
  have hasTkl := holds.coapGetTkl_eq encodable
  have walk := @CoapPdu.Holds.optionWalk_eq _ _ holds encodable
    (fun other => decide ((other : Int) ≤ (num : Int))) (options_le_of_inOrder encodable inOrder)
  generalize isFront :
    message.fixedHeader ++ (message.token ++ encodeOptions 0 message.options) = front
    at encoded
  have builds := @BuildsHeader.natSub num (lastNum 0 message.options) value.length inOrder
  generalize optionHeader (num - lastNum 0 message.options) value.length = header
    at encoded builds
  have frontSize : front.length =
      4 + message.token.length + (encodeOptions 0 message.options).length := by
    simp only [← isFront, List.length_append, Message.fixedHeader_length]
    omega
  have newSize := congrArg List.length encoded
  simp only [List.length_append] at newSize
  have oldBytes : pdu.mem =
      front ++ (Message.payloadBytes message.payload ++ pdu.mem.drop pdu.len) := by
    nth_rewrite 1 [holds.mem_eq]
    simp [Message.encode, Message.body, ← isFront]
  have room : pdu.len + header.length + value.length ≤ pdu.max := by omega
  rw [← frontSize] at walk
  have inserted : ∃ back, Frame pdu
      (pdu.withOption front header value (Message.payloadBytes message.payload ++ back)) ∧
        coapAddOption pdu num value value.length = .ok (.ceNone,
          pdu.withOption front header value
            (Message.payloadBytes message.payload ++ back)) := by
    cases payload : message.payload with
    | none =>
        rw [payload] at walk body oldBytes
        simp only [Message.payloadBytes, List.length_nil] at body
        have at_ : pdu.mem.take pdu.len = front := by
          rw [oldBytes]
          exact List.take_left' (by omega)
        exact coapAddOption_appends hasTkl walk (by simp) builds room mapped at_
          (by omega)
    | some bytes =>
        rw [payload] at walk body oldBytes
        have size : (Message.payloadBytes (some bytes)).length = bytes.length + 1 := rfl
        apply coapAddOption_inserts hasTkl walk (by simp) builds room mapped bounded
          oldBytes (by omega) (by simp [Message.payloadBytes]) rfl
        intro moved back start at_ isStart same
        rw [coapAdjustOptionDeltas_marker at_ (by omega) (by omega), ← at_,
          List.take_append_drop]
  obtain ⟨back, frame, added⟩ := inserted
  refine ⟨_, added, @Frame.holds _ _ _ _ back frame holds ?_ ?_ fits, frame⟩
  · rw [CoapPdu.withOption, encoded]
    simp only [List.append_assoc]
  · rw [CoapPdu.withOption]
    dsimp only
    omega

/-- An option that does not fit is rejected. -/
theorem coapAddOption_rejects {num : Nat} {value : List UInt8}
    (inOrder : lastNum 0 message.options ≤ num)
    (full : pdu.max < ({ message with options := message.options ++ [⟨num, value⟩] } :
      Message).encode.length) :
    Rejects (coapAddOption pdu num value value.length) pdu := by
  have walk := @CoapPdu.Holds.optionWalk_eq _ _ holds encodable
    (fun other => decide ((other : Int) ≤ (num : Int))) (options_le_of_inOrder encodable inOrder)
  have newSize := congrArg List.length (Message.encode_addOption message ⟨num, value⟩)
  have len := holds.len_eq_body
  have body := message.body_length
  simp only [List.length_append, Message.fixedHeader_length] at newSize
  have front : 4 + message.token.length + (encodeOptions 0 message.options).length =
      (message.fixedHeader ++ (message.token ++ encodeOptions 0 message.options)).length := by
    simp only [List.length_append, Message.fixedHeader_length]
    omega
  rw [front] at walk
  refine ⟨.ceInsufficientBuffer, by decide, ?_⟩
  apply coapAddOption_insufficient (holds.coapGetTkl_eq encodable) walk
  · cases message.payload <;> simp
  · rw [(BuildsHeader.natSub inOrder).computed]
    omega

/-- A first payload is written behind the options. -/
theorem coapSetPayload_writes {payload : List UInt8} (first : message.payload = none)
    (fits : ({ message with payload := some payload } : Message).encode.length ≤ pdu.max) :
    Writes (coapSetPayload pdu payload) pdu { message with payload := some payload } := by
  have mapped := holds.max_le
  have len := holds.len_eq
  have hasTkl := holds.coapGetTkl_eq encodable
  have walk := @CoapPdu.Holds.optionWalk_eq _ _ holds encodable (fun _ => true) (by simp)
  have encoded : ({ message with payload := some payload } : Message).encode =
      message.encode ++ 0xFF :: payload := by
    simp [Message.encode, Message.fixedHeader, Message.body, Message.payloadBytes, first]
  have newSize := congrArg List.length encoded
  simp only [List.length_append, List.length_cons] at newSize
  have atEnd : 4 + message.token.length + (encodeOptions 0 message.options).length =
      pdu.len := by
    have body := message.body_length
    rw [first, Message.payloadBytes, List.length_nil] at body
    rw [holds.len_eq_body]
    omega
  rw [first, atEnd] at walk
  have markerStored := @Mem.store_of_le pdu.mem pdu.len [0xFF]
    (by rw [List.length_singleton]; omega)
  generalize pdu.mem.take pdu.len ++ [0xFF] ++ _ = withMarker at markerStored
  have markerSize := Mem.store_length markerStored
  have payloadStored := @Mem.store_of_le withMarker (pdu.len + 1) payload (by omega)
  generalize withMarker.take _ ++ payload ++ _ = result at payloadStored
  have stored : pdu.mem.store pdu.len (0xFF :: payload) = .ok result :=
    Mem.store_store_right markerStored payloadStored
  have shape := (Mem.store_eq_ok.mp stored).2
  rw [holds.bytes, ← encoded] at shape
  have frame := Frame.of_store stored (by rw [List.length_cons]; omega)
    (pdu.len + 1 + payload.length)
  refine ⟨_, ?_, frame.holds holds shape (by dsimp only; omega) fits, frame⟩
  have room : ¬ pdu.max < pdu.len + payload.length + 1 := by omega
  simp only [coapSetPayload, hasTkl, Exec.ok_bind, walk, Option.isSome_none, Bool.false_eq_true,
    if_false, room, markerStored, payloadStored, Exec.pure_eq_ok]

/-- A payload that does not fit in place of the old one is rejected. -/
theorem coapSetPayload_rejects {payload : List UInt8}
    (full : pdu.max <
      ({ message with payload := some payload } : Message).encode.length) :
    Rejects (coapSetPayload pdu payload) pdu := by
  have hasTkl := holds.coapGetTkl_eq encodable
  have walk := @CoapPdu.Holds.optionWalk_eq _ _ holds encodable (fun _ => true) (by simp)
  have len := holds.len_eq_body
  have body := message.body_length
  have newSize := Message.encode_length { message with payload := some payload }
  have newBody := Message.body_length { message with payload := some payload }
  simp only [Message.payloadBytes, List.length_cons] at newSize newBody
  refine ⟨.ceInsufficientBuffer, by decide, ?_⟩
  cases old : message.payload with
  | none =>
      rw [old] at walk body
      simp only [Message.payloadBytes, List.length_nil] at body
      have short : pdu.max < pdu.len + payload.length + 1 := by omega
      simp [coapSetPayload, hasTkl, walk, short]
  | some bytes =>
      rw [old] at walk body
      simp only [Message.payloadBytes, List.length_cons] at body
      have short : pdu.max < pdu.len + payload.length := by omega
      simp [coapSetPayload, hasTkl, walk, short]

end InOrder

end ExositeCoap.Coap
