import ExositeCoap.Coap.Setters

/-!
# The parts of a packet

What the setters of the header and of the token do to a packet whose body may be any
bytes.  They never look at the body, they only move it.
-/

namespace ExositeCoap.Coap

open Lib

/-- The packet stays in its buffer, and nothing changes outside of it. -/
structure Frame (pdu after : CoapPdu) : Prop where
  buf : after.buf = pdu.buf
  max : after.max = pdu.max
  size : after.mem.length = pdu.mem.length
  behind : after.mem.drop pdu.max = pdu.mem.drop pdu.max

/-- The call fails and leaves the packet alone. -/
def Rejects (call : Exec SetterResult) (pdu : CoapPdu) : Prop :=
  ∃ err, err ≠ .ceNone ∧ call = .ok (err, pdu)

theorem Frame.refl (pdu : CoapPdu) : Frame pdu pdu := ⟨rfl, rfl, rfl, rfl⟩

theorem Frame.trans {pdu middle after : CoapPdu} (left : Frame pdu middle)
    (right : Frame middle after) : Frame pdu after where
  buf := right.buf.trans left.buf
  max := right.max.trans left.max
  size := right.size.trans left.size
  behind := by rw [← left.behind, ← left.max, right.behind]

/-- A store inside the buffer. -/
theorem Frame.of_store {pdu : CoapPdu} {mem : Mem} {address : Nat} {bytes : List UInt8}
    (stored : pdu.mem.store address bytes = .ok mem)
    (inside : address + bytes.length ≤ pdu.max) (len : Nat) :
    Frame pdu { pdu with mem, len } :=
  ⟨rfl, rfl, Mem.store_length stored, Mem.store_drop stored inside⟩

@[simp] theorem leBytes_length (count value : Nat) : (leBytes count value).length = count := by
  induction count generalizing value with
  | zero => rfl
  | succ count ih => rw [leBytes, List.length_cons, ih]

/-- The bytes of a packet: the fixed header, the token and everything behind it. -/
structure Parts where
  first : UInt8
  code : UInt8
  midHigh : UInt8
  midLow : UInt8
  token : List UInt8
  body : List UInt8
  deriving DecidableEq, Repr

/-- The four bytes in front of the token. -/
def Parts.fixed (parts : Parts) : List UInt8 :=
  [parts.first, parts.code, parts.midHigh, parts.midLow]

def Parts.bytes (parts : Parts) : List UInt8 := parts.fixed ++ (parts.token ++ parts.body)

@[simp] theorem Parts.fixed_length (parts : Parts) : parts.fixed.length = 4 := rfl

theorem Parts.bytes_length (parts : Parts) :
    parts.bytes.length = 4 + parts.token.length + parts.body.length := by
  simp only [Parts.bytes, List.length_append, Parts.fixed_length]
  omega

/-- The packet consists of these parts, the token length field is right, and the packet
lies in its buffer. Positions in the memory differ by less than `PTRDIFF_MAX`. -/
structure CoapPdu.Consists (pdu : CoapPdu) (parts : Parts) : Prop where
  bytes : pdu.mem.take pdu.len = parts.bytes
  tkl : parts.token.length = parts.first.toNat % 16
  len_le : pdu.len ≤ pdu.max
  max_le : pdu.max ≤ pdu.mem.length
  mem_lt : pdu.mem.length < 2 ^ 63

/-- A packet whose memory starts with the bytes of some parts consists of them. -/
theorem Frame.consists {pdu after : CoapPdu} {old parts : Parts} {rest : Mem}
    (frame : Frame pdu after) (consists : pdu.Consists old)
    (tkl : parts.token.length = parts.first.toNat % 16) (mem : after.mem = parts.bytes ++ rest)
    (len : after.len = parts.bytes.length) (fits : parts.bytes.length ≤ pdu.max) :
    after.Consists parts where
  bytes := by rw [mem, len, List.take_left]
  tkl := tkl
  len_le := by rw [len, frame.max]; exact fits
  max_le := by rw [frame.max, frame.size]; exact consists.max_le
  mem_lt := by rw [frame.size]; exact consists.mem_lt

/-- The call succeeds, and the packet it leaves consists of `parts`. -/
def Leaves (call : Exec SetterResult) (pdu : CoapPdu) (parts : Parts) : Prop :=
  ∃ after, call = .ok (.ceNone, after) ∧ after.Consists parts ∧ Frame pdu after

namespace CoapPdu.Consists

variable {pdu : CoapPdu} {parts : Parts} (consists : pdu.Consists parts)

include consists

theorem len_eq : pdu.len = 4 + parts.token.length + parts.body.length := by
  have size := congrArg List.length consists.bytes
  have inBuffer := consists.len_le
  have mapped := consists.max_le
  rw [List.length_take, Parts.bytes_length] at size
  omega

theorem mem_eq : pdu.mem =
    parts.fixed ++ (parts.token ++ (parts.body ++ pdu.mem.drop pdu.len)) := by
  have whole : pdu.mem = parts.bytes ++ pdu.mem.drop pdu.len := by
    rw [← consists.bytes, List.take_append_drop]
  nth_rewrite 1 [whole]
  simp only [Parts.bytes, List.append_assoc]

theorem drop_body :
    pdu.mem.drop (4 + parts.token.length) = parts.body ++ pdu.mem.drop pdu.len := by
  have whole : pdu.mem.drop 0 =
      (parts.fixed ++ parts.token) ++ (parts.body ++ pdu.mem.drop pdu.len) := by
    rw [List.drop_zero, List.append_assoc]
    exact consists.mem_eq
  have behind := Mem.drop_add_of_append whole
  rw [Nat.zero_add, List.length_append, Parts.fixed_length] at behind
  exact behind

theorem read_first : pdu.mem.read 0 = .ok parts.first := by
  rw [consists.mem_eq]
  rfl

theorem coapGetTkl_eq : coapGetTkl pdu = .ok parts.token.length := by
  rw [coapGetTkl, consists.read_first, Exec.ok_bind, consists.tkl, Exec.pure_eq_ok]

/-! ## Header fields -/

/-- Other bytes of the fixed header are stored. -/
theorem store_fixed {changed : Parts} {front old new back : List UInt8}
    (before : parts.fixed = front ++ (old ++ back)) (after : changed.fixed = front ++ (new ++ back))
    (tkl : changed.first.toNat % 16 = parts.first.toNat % 16)
    (token : changed.token = parts.token) (body : changed.body = parts.body) :
    ∃ mem, pdu.mem.store front.length new = .ok mem ∧
      CoapPdu.Consists { pdu with mem } changed ∧ Frame pdu { pdu with mem } := by
  have inBuffer := consists.len_le
  have len := consists.len_eq
  have four := congrArg List.length before
  have stillFour := congrArg List.length after
  simp only [Parts.fixed_length, List.length_append] at four stillFour
  have stored := @Mem.store_append front old
    (back ++ (parts.token ++ (parts.body ++ pdu.mem.drop pdu.len))) new (by omega)
  have whole : pdu.mem = front ++ (old ++
      (back ++ (parts.token ++ (parts.body ++ pdu.mem.drop pdu.len)))) := by
    nth_rewrite 1 [consists.mem_eq]
    simp only [before, List.append_assoc]
  rw [← whole] at stored
  have frame := Frame.of_store stored (by omega) pdu.len
  have size : changed.bytes.length = pdu.len := by
    rw [Parts.bytes_length, token, body, len]
  have contents : front ++ (new ++ (back ++ (parts.token ++ (parts.body ++
      pdu.mem.drop pdu.len)))) = changed.bytes ++ pdu.mem.drop pdu.len := by
    simp only [Parts.bytes, after, token, body, List.append_assoc]
  exact ⟨_, stored, frame.consists consists (by rw [token, consists.tkl, tkl]) contents
    size.symm (by omega), frame⟩

theorem coapSetVersion_leaves (ver : Nat) : Leaves (coapSetVersion pdu ver) pdu
    { parts with first := UInt8.ofNat (ver * 64 + parts.first.toNat % 64) } := by
  have inBuffer := consists.len_le
  have len := consists.len_eq
  have room : ¬ pdu.max < 1 := by omega
  have grown : ¬ pdu.len < 1 := by omega
  have tkl : (UInt8.ofNat (ver * 64 + parts.first.toNat % 64)).toNat % 16 =
      parts.first.toNat % 16 := by
    rw [UInt8.toNat_ofNat']
    omega
  obtain ⟨mem, stored, after, frame⟩ := @store_fixed _ _ consists
    { parts with first := UInt8.ofNat (ver * 64 + parts.first.toNat % 64) }
    [] [_] [_] [_, _, _] rfl rfl tkl rfl rfl
  refine ⟨_, ?_, after, frame⟩
  simp only [coapSetVersion, room, grown, if_false, consists.read_first, Exec.ok_bind]
  rw [show pdu.mem.store 0 _ = .ok mem from stored]
  rfl

theorem coapSetType_leaves (mtype : CoapType) : Leaves (coapSetType pdu mtype) pdu
    { parts with first := UInt8.ofNat (parts.first.toNat / 64 * 64 + mtype.bits * 16 +
      parts.first.toNat % 16) } := by
  have inBuffer := consists.len_le
  have len := consists.len_eq
  have room : ¬ pdu.max < 1 := by omega
  have grown : ¬ pdu.len < 1 := by omega
  have tkl : (UInt8.ofNat (parts.first.toNat / 64 * 64 + mtype.bits * 16 +
      parts.first.toNat % 16)).toNat % 16 = parts.first.toNat % 16 := by
    rw [UInt8.toNat_ofNat']
    omega
  obtain ⟨mem, stored, after, frame⟩ := @store_fixed _ _ consists
    { parts with first := UInt8.ofNat (parts.first.toNat / 64 * 64 + mtype.bits * 16 +
      parts.first.toNat % 16) } [] [_] [_] [_, _, _] rfl rfl tkl rfl rfl
  refine ⟨_, ?_, after, frame⟩
  simp only [coapSetType, room, grown, if_false, consists.read_first, Exec.ok_bind]
  rw [show pdu.mem.store 0 _ = .ok mem from stored]
  rfl

theorem coapSetCode_leaves (code : UInt8) :
    Leaves (coapSetCode pdu code) pdu { parts with code } := by
  have inBuffer := consists.len_le
  have len := consists.len_eq
  have room : ¬ pdu.max < 2 := by omega
  have grown : ¬ pdu.len < 2 := by omega
  obtain ⟨mem, stored, after, frame⟩ := @store_fixed _ _ consists { parts with code }
    [_] [_] [code] [_, _] rfl rfl rfl rfl rfl
  refine ⟨_, ?_, after, frame⟩
  simp only [coapSetCode, room, grown, if_false]
  rw [show pdu.mem.store 1 _ = .ok mem from stored]
  rfl

theorem coapSetMid_leaves (mid : UInt16) : Leaves (coapSetMid pdu mid) pdu
    { parts with midHigh := UInt8.ofNat (mid.toNat / 256)
                 midLow := UInt8.ofNat (mid.toNat % 256) } := by
  have inBuffer := consists.len_le
  have len := consists.len_eq
  have room : ¬ pdu.max < 4 := by omega
  have grown : ¬ pdu.len < 4 := by omega
  obtain ⟨mem, stored, after, frame⟩ := @store_fixed _ _ consists
    { parts with midHigh := UInt8.ofNat (mid.toNat / 256)
                 midLow := UInt8.ofNat (mid.toNat % 256) }
    [_, _] [_, _] [_, _] [] rfl rfl rfl rfl rfl
  refine ⟨_, ?_, after, frame⟩
  simp only [coapSetMid, room, grown, if_false]
  rw [show pdu.mem.store 2 _ = .ok mem from stored]
  rfl

/-! ## Token -/

/-- Making or taking room for a token of `tkl` bytes. -/
theorem move_body {tkl : Nat} (fits : 4 + tkl + parts.body.length ≤ pdu.max) :
    ∃ mem rest, (if pdu.len > 4 then
        pdu.mem.move (4 + tkl) (4 + parts.token.length)
          (sizeSub (sizeSub pdu.len 4) parts.token.length) = .ok mem
      else pdu.mem = mem) ∧ mem.take 4 = parts.fixed ∧
        mem.drop (4 + tkl) = parts.body ++ rest ∧ mem.length = pdu.mem.length ∧
          mem.drop pdu.max = pdu.mem.drop pdu.max := by
  have mapped := consists.max_le
  have bounded := consists.mem_lt
  have inBuffer := consists.len_le
  have len := consists.len_eq
  have header : pdu.mem.take 4 = parts.fixed := by
    rw [consists.mem_eq]
    exact List.take_left' rfl
  by_cases more : pdu.len > 4
  · have left : sizeSub pdu.len 4 = pdu.len - 4 := sizeSub_of_le (by omega) (by omega)
    have count : sizeSub (sizeSub pdu.len 4) parts.token.length = parts.body.length := by
      rw [left, sizeSub_of_le (by omega) (by omega)]
      omega
    have moved := @Mem.move_of_drop _ _ _ (4 + tkl) _ consists.drop_body (by omega)
    have front : (pdu.mem.take (4 + tkl)).length = 4 + tkl := by
      rw [List.length_take]
      omega
    refine ⟨_, pdu.mem.drop (4 + tkl + parts.body.length), ?_, ?_, ?_,
      Mem.move_length moved, Mem.move_drop moved (by omega)⟩
    · rw [if_pos more, count]
      exact moved
    · rw [List.append_assoc, List.take_append_of_le_length (by omega), List.take_take,
        Nat.min_eq_left (by omega), header]
    · rw [List.append_assoc, List.drop_left' front]
  · have empty : parts.body = [] := List.eq_nil_of_length_eq_zero (by omega)
    refine ⟨pdu.mem, pdu.mem.drop (4 + tkl), ?_, header, ?_, rfl, rfl⟩
    · rw [if_neg more]
    · rw [empty, List.nil_append]

theorem coapSetToken_leaves {tkl : Nat} (token : Nat) (short : tkl ≤ 8)
    (fits : 4 + tkl + parts.body.length ≤ pdu.max) :
    Leaves (coapSetToken pdu token tkl) pdu
      { parts with first := UInt8.ofNat (parts.first.toNat / 16 * 16 + tkl)
                   token := leBytes tkl token } := by
  have inBuffer := consists.len_le
  have mapped := consists.max_le
  have small := consists.mem_lt
  have len := consists.len_eq
  have room : ¬ pdu.max < 4 + tkl := by omega
  have inRange : ¬ tkl > 8 := by omega
  have size : sizeSub (pdu.len + tkl) parts.token.length = 4 + tkl + parts.body.length := by
    rw [sizeSub_of_le (by omega) (by omega)]
    omega
  have enough : ¬ (pdu.len > 4 ∧ pdu.max < 4 + tkl + parts.body.length) := by omega
  obtain ⟨moved, rest, isMoved, header, behind, sameSize, sameTail⟩ := consists.move_body fits
  -- the token goes between the header and the moved bytes
  have tokenStored : moved.store 4 (leBytes tkl token) =
      .ok (parts.fixed ++ (leBytes tkl token ++ (parts.body ++ rest))) := by
    rw [Mem.store_of_le (by rw [leBytes_length]; omega), header, leBytes_length, behind,
      List.append_assoc]
  have loaded : Mem.read (parts.fixed ++ (leBytes tkl token ++ (parts.body ++ rest))) 0 =
      .ok parts.first := rfl
  generalize isChanged : ({ parts with
      first := UInt8.ofNat (parts.first.toNat / 16 * 16 + tkl)
      token := leBytes tkl token } : Parts) = changed
  have tklField : changed.token.length = changed.first.toNat % 16 := by
    rw [← isChanged, leBytes_length, UInt8.toNat_ofNat']
    omega
  have changedLength : changed.bytes.length = 4 + tkl + parts.body.length := by
    rw [← isChanged, Parts.bytes_length, leBytes_length]
  have headerStored : Mem.store
      (parts.fixed ++ (leBytes tkl token ++ (parts.body ++ rest))) 0
        [UInt8.ofNat (parts.first.toNat / 16 * 16 + tkl)] = .ok (changed.bytes ++ rest) := by
    have stored := @Mem.store_append [] [parts.first]
      ([parts.code, parts.midHigh, parts.midLow] ++ (leBytes tkl token ++ (parts.body ++ rest)))
      [UInt8.ofNat (parts.first.toNat / 16 * 16 + tkl)] rfl
    rw [← isChanged]
    simpa [Parts.bytes, Parts.fixed] using stored
  have frame : Frame pdu { pdu with
      mem := changed.bytes ++ rest
      len := 4 + tkl + parts.body.length } := by
    refine ⟨rfl, rfl, ?_, ?_⟩
    · rw [Mem.store_length headerStored, Mem.store_length tokenStored, sameSize]
    · rw [Mem.store_drop headerStored (by rw [List.length_singleton]; omega),
        Mem.store_drop tokenStored (by rw [leBytes_length]; omega), sameTail]
  refine ⟨_, ?_, frame.consists consists tklField rfl changedLength.symm (by omega), frame⟩
  simp only [coapSetToken, room, inRange, if_false, consists.coapGetTkl_eq, Exec.ok_bind,
    size, enough]
  by_cases more : pdu.len > 4
  · rw [if_pos more] at isMoved
    simp only [if_pos more, isMoved, Exec.ok_bind, tokenStored, loaded, headerStored,
      Exec.pure_eq_ok]
  · rw [if_neg more] at isMoved
    simp only [if_neg more, isMoved, Exec.ok_bind, tokenStored, loaded, headerStored,
      Exec.pure_eq_ok]

/-- Too long a token, or one that does not fit, is rejected. -/
theorem coapSetToken_rejects {tkl : Nat} (token : Nat)
    (bad : ¬ (4 + tkl + parts.body.length ≤ pdu.max ∧ tkl ≤ 8)) :
    Rejects (coapSetToken pdu token tkl) pdu := by
  have inBuffer := consists.len_le
  have mapped := consists.max_le
  have small := consists.mem_lt
  have len := consists.len_eq
  by_cases room : pdu.max < 4 + tkl
  · exact ⟨.ceInsufficientBuffer, by decide, by simp [coapSetToken, room]⟩
  · by_cases long : tkl > 8
    · exact ⟨.ceInvalidPacket, by decide, by simp [coapSetToken, room, long]⟩
    · have size : sizeSub (pdu.len + tkl) parts.token.length =
          4 + tkl + parts.body.length := by
        rw [sizeSub_of_le (by omega) (by omega)]
        omega
      have short : pdu.len > 4 ∧ pdu.max < 4 + tkl + parts.body.length := by omega
      refine ⟨.ceInsufficientBuffer, by decide, ?_⟩
      simp [coapSetToken, room, long, consists.coapGetTkl_eq, size, short]

end CoapPdu.Consists

end ExositeCoap.Coap
