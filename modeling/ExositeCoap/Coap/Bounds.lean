import ExositeCoap.Coap.Observe
import ExositeCoap.Coap.Validate

/-!
# Which bytes the getters inspect

A getter inspects only bytes of the packet when it still returns, with the same
result, after the memory has been cut off behind the packet (`CoapPdu.cut`).
For a packet that passes validation this depends on two things that validation
does not look at: the options must be walkable up to the end of the packet
(`Scannable`), and the option iterator must not run into a payload marker behind
an option (`HiddenPayload`), where it computes a length from a null pointer.
-/

namespace ExositeCoap.Coap

open Lib Wire

/-- The packet with nothing mapped behind it. -/
def CoapPdu.cut (pdu : CoapPdu) : CoapPdu := { pdu with mem := pdu.packet }

@[simp] theorem CoapPdu.cut_mem (pdu : CoapPdu) : pdu.cut.mem = pdu.packet := rfl

@[simp] theorem CoapPdu.cut_len (pdu : CoapPdu) : pdu.cut.len = pdu.len := rfl

/-- A span of `len` bytes at `val` inside the first `limit` bytes of the buffer.
There is no span at a null pointer. -/
def SpanInside (limit len : Nat) : Ptr → Prop
  | none => len = 0
  | some pos => pos + len ≤ limit

/-- The arguments that an iteration with `coap_get_option` passes: null, then each
result whose number is not zero. -/
inductive Visited (pdu : CoapPdu) : Option CoapOption → Prop where
  | start : Visited pdu none
  | next {last : Option CoapOption} {option : CoapOption} (visited : Visited pdu last)
      (got : coapGetOption pdu last = .ok option) (nonzero : option.num ≠ 0) :
      Visited pdu (some option)

/-- All getters return without looking behind the packet, and the spans they
return lie in the packet. `coap_get_option_by_num` may also still be running
after any number of rounds, for it has no bound when asked for number zero. -/
structure GettersInside (pdu : CoapPdu) : Prop where
  token : ∃ token, coapGetToken pdu = .ok token ∧ coapGetToken pdu.cut = .ok token
  option : ∀ last, Visited pdu last → ∃ option, coapGetOption pdu last = .ok option ∧
    coapGetOption pdu.cut last = .ok option ∧ SpanInside pdu.len option.len option.val
  byNum : ∀ num occ fuel,
    (∃ option, coapGetOptionByNum pdu fuel num occ = .ok option ∧
      coapGetOptionByNum pdu.cut fuel num occ = .ok option ∧
        SpanInside pdu.len option.len option.val) ∨
    (coapGetOptionByNum pdu fuel num occ = .error .fuel ∧
      coapGetOptionByNum pdu.cut fuel num occ = .error .fuel)
  payload : ∃ payload, coapGetPayload pdu = .ok payload ∧
    coapGetPayload pdu.cut = .ok payload ∧ SpanInside pdu.len payload.len payload.val

/-- Bytes that can be walked option by option, with lengths reduced to 16 bits,
up to their end, a payload marker or a reserved nibble. -/
inductive Scannable : List UInt8 → Prop where
  | done : Scannable []
  | marker {rest : List UInt8} : Scannable (0xFF :: rest)
  | reserved {front rest : List UInt8} (isReserved : Reserved front) :
      Scannable (front ++ rest)
  | option {header value rest : List UInt8} {delta length : Nat}
      (isHeader : Header header delta length) (complete : value.length = length % 2 ^ 16)
      (more : Scannable rest) : Scannable (header ++ (value ++ rest))

/-- Complete options, whose 16-bit numbers go from `num` to `last`. -/
inductive CompleteOptions : (num : Nat) → List UInt8 → (last : Nat) → Prop where
  | nil {num : Nat} : CompleteOptions num [] num
  | cons {num last delta length : Nat} {header value rest : List UInt8}
      (isHeader : Header header delta length) (complete : value.length = length % 2 ^ 16)
      (more : CompleteOptions ((num + delta) % 2 ^ 16) rest last) :
      CompleteOptions num (header ++ (value ++ rest)) last

/-- Starting from option number `num`, the walk meets a payload marker while the
16-bit option number has not been zero since the first option. -/
inductive HiddenPayload : Nat → List UInt8 → Prop where
  | marker {num : Nat} {rest : List UInt8} (nonzero : num ≠ 0) :
      HiddenPayload num (0xFF :: rest)
  | option {num : Nat} {header value rest : List UInt8} {delta length : Nat}
      (isHeader : Header header delta length) (complete : value.length = length % 2 ^ 16)
      (nonzero : (num + delta) % 2 ^ 16 ≠ 0)
      (more : HiddenPayload ((num + delta) % 2 ^ 16) rest) :
      HiddenPayload num (header ++ (value ++ rest))

/-! ## Cutting the memory -/

/-- What a shortened memory decodes to, the whole memory decodes to. -/
theorem Decodes.of_take {mem : Mem} {limit pos num len : Nat} {val : Ptr}
    {result : DecodeResult} (decodes : Decodes (mem.take limit) pos num len val result) :
    Decodes mem pos num len val result := by
  have extend : ∀ front rest : Mem, (mem.take limit).drop pos = front ++ rest →
      mem.drop pos = front ++ (rest ++ (mem.drop pos).drop (limit - pos)) := by
    intro front rest at_
    rw [← List.append_assoc, ← at_, List.drop_take, List.take_append_drop]
  cases decodes with
  | marker at_ => exact .marker (extend [0xFF] _ at_)
  | reserved isReserved at_ => exact .reserved isReserved (extend _ _ at_)
  | found isHeader at_ => exact .found isHeader (extend _ _ at_)

/-! ## Packets that can be walked -/

/-- `coap_get_option` would look at position `pos` next, and from there on the
packet can be walked without a hidden payload. -/
structure SafeAt (pdu : CoapPdu) (last : Option CoapOption) (pos : Nat) : Prop where
  position : optionPosition pdu last = .ok pos
  cutPosition : optionPosition pdu.cut last = .ok pos
  positive : 0 < pos
  inside : pos ≤ pdu.len
  scannable : Scannable (pdu.packet.drop pos)
  visible : ¬ HiddenPayload (lastNumber last) (pdu.packet.drop pos)

/-- An argument with number zero starts the iteration anew. -/
theorem SafeAt.restart {pdu : CoapPdu} {option : CoapOption} {pos : Nat} (zero : option.num = 0)
    (start : SafeAt pdu none pos) : SafeAt pdu (some option) pos where
  position := by
    have position := start.position
    simp only [optionPosition, zero, ne_eq, not_true_eq_false, if_false] at position ⊢
    exact position
  cutPosition := by
    have position := start.cutPosition
    simp only [optionPosition, zero, ne_eq, not_true_eq_false, if_false] at position ⊢
    exact position
  positive := start.positive
  inside := start.inside
  scannable := start.scannable
  visible := by
    rw [lastNumber, zero]
    exact start.visible

section Cut

variable {pdu : CoapPdu} (fits : pdu.len ≤ pdu.max) (placed : pdu.Placed)

include fits placed

theorem packet_length : pdu.packet.length = pdu.len := by
  have mapped := placed.max_le
  rw [CoapPdu.packet, List.length_take]
  omega

theorem sizeSub_len_ne_zero (pos : Nat) (near : pos < pdu.len + 2 ^ 63)
    (before : pos ≠ pdu.len) : sizeSub pdu.len pos ≠ 0 := by
  have mapped := placed.max_le
  have bounded := placed.buf_lt
  intro zero
  exact before ((sizeSub_eq_zero (by omega) (by omega)).mp zero).symm

theorem coapGetTkl_cut (header : 4 ≤ pdu.len) :
    coapGetTkl pdu.cut = .ok (pdu.firstByte.toNat % 16) := by
  have size := packet_length fits placed
  have sameFirst : pdu.cut.firstByte = pdu.firstByte := by
    rw [CoapPdu.firstByte, CoapPdu.cut_mem, CoapPdu.firstByte, CoapPdu.packet]
    cases mem : pdu.mem with
    | nil => simp
    | cons first rest =>
        cases len : pdu.len with
        | zero => omega
        | succ => rfl
  rw [coapGetTkl_firstByte (by rw [CoapPdu.cut_mem]; omega), sameFirst]

theorem coapGetOption_of_decodes {last : Option CoapOption} {pos num len : Nat} {val : Ptr}
    (safe : SafeAt pdu last pos) (before : pos ≠ pdu.len)
    (decodes : Decodes pdu.packet pos (lastNumber last) 0 none ⟨.ceNone, num, len, val⟩) :
    coapGetOption pdu last = .ok ⟨num, len, val⟩ ∧
      coapGetOption pdu.cut last = .ok ⟨num, len, val⟩ := by
  have inside := safe.inside
  have more := sizeSub_len_ne_zero fits placed pos (by omega) before
  exact ⟨coapGetOption_of_found safe.position more decodes.of_take,
    coapGetOption_of_found safe.cutPosition more decodes⟩

/-- One step of the iteration from a safe position. -/
theorem SafeAt.step {last : Option CoapOption} {pos : Nat} (safe : SafeAt pdu last pos) :
    ∃ option, coapGetOption pdu last = .ok option ∧
      coapGetOption pdu.cut last = .ok option ∧ SpanInside pdu.len option.len option.val ∧
        (option.num ≠ 0 → ∃ next, SafeAt pdu (some option) next) := by
  have size := packet_length fits placed
  have mapped := placed.max_le
  have bounded := placed.buf_lt
  have inside := safe.inside
  have scannable := safe.scannable
  generalize rest : pdu.packet.drop pos = bytes at scannable
  have length := congrArg List.length rest
  rw [List.length_drop, size] at length
  cases scannable with
  | done =>
      have atEnd : pdu.len = pos := by
        rw [List.length_nil] at length
        omega
      refine ⟨⟨0, 0, none⟩, ?_, ?_, rfl, fun nonzero => absurd rfl nonzero⟩
      · simp [coapGetOption, safe.position, atEnd]
      · simp [coapGetOption, safe.cutPosition, atEnd]
  | @marker tail =>
      rw [List.length_cons] at length
      have zero : lastNumber last = 0 := by
        by_contra nonzero
        exact safe.visible (by rw [rest]; exact .marker nonzero)
      have more := sizeSub_len_ne_zero fits placed pos (by omega) (by omega)
      have decodes : Decodes pdu.packet pos (lastNumber last) 0 none _ := .marker rest
      have decoded := coapDecodeOption_of_decodes more decodes.of_take
      have cutDecoded := coapDecodeOption_of_decodes more decodes
      rw [zero] at decoded cutDecoded
      have span : sizeSub (sizeSub pdu.len pos) 1 = pdu.len - pos - 1 := by
        have left : sizeSub pdu.len pos = pdu.len - pos :=
          sizeSub_of_le (by omega) (by omega)
        rw [left, sizeSub_of_le (by omega) (by omega)]
      refine ⟨⟨0, pdu.len - pos - 1, some (pos + 1)⟩, ?_, ?_, ?_,
        fun nonzero => absurd rfl nonzero⟩
      · simp [coapGetOption, safe.position, zero, decoded, span]
      · simp [coapGetOption, safe.cutPosition, zero, cutDecoded, span]
      · change pos + 1 + (pdu.len - pos - 1) ≤ pdu.len
        omega
  | @reserved front tail isReserved =>
      have nonempty := isReserved.length_pos
      rw [List.length_append] at length
      have more := sizeSub_len_ne_zero fits placed pos (by omega) (by omega)
      have decodes : Decodes pdu.packet pos (lastNumber last) 0 none _ :=
        .reserved isReserved rest
      refine ⟨⟨0, 0, none⟩, ?_, ?_, rfl, fun nonzero => absurd rfl nonzero⟩
      · simp [coapGetOption, safe.position, coapDecodeOption_of_decodes more decodes.of_take]
      · simp [coapGetOption, safe.cutPosition, coapDecodeOption_of_decodes more decodes]
  | @option header value tail delta optLen isHeader complete more =>
      have nonempty := isHeader.length_pos
      rw [List.length_append, List.length_append] at length
      obtain ⟨got, cutGot⟩ := coapGetOption_of_decodes fits placed safe (by omega)
        (.found isHeader rest)
      refine ⟨_, got, cutGot, ?_, fun nonzero => ⟨pos + header.length + optLen % 2 ^ 16, ?_⟩⟩
      · change pos + header.length + optLen % 2 ^ 16 ≤ pdu.len
        omega
      · have behind : pdu.packet.drop (pos + header.length + optLen % 2 ^ 16) = tail := by
          rw [← complete]
          exact Mem.drop_add_of_append (Mem.drop_add_of_append rest)
        exact {
          position := optionPosition_some nonzero rfl (by dsimp only; omega) (by omega)
          cutPosition := optionPosition_some nonzero rfl
            (by rw [CoapPdu.cut_len]; dsimp only; omega) (by omega)
          positive := by omega
          inside := by omega
          scannable := by
            rw [behind]
            exact more
          visible := by
            intro hidden
            rw [behind] at hidden
            exact safe.visible (by rw [rest]; exact .option isHeader complete nonzero hidden) }

theorem safeAt_visited (start : ∃ pos, SafeAt pdu none pos) {last : Option CoapOption}
    (visited : Visited pdu last) : ∃ pos, SafeAt pdu last pos := by
  induction visited with
  | start => exact start
  | next visited got nonzero ih =>
      obtain ⟨pos, safe⟩ := ih
      obtain ⟨option, stepGot, -, -, next⟩ := safe.step fits placed
      rw [got] at stepGot
      cases stepGot
      exact next nonzero

theorem optionByNumLoop_inside (start : ∃ pos, SafeAt pdu none pos) (num occ fuel : Nat)
    {option : CoapOption} (i : Nat) (safe : ∃ pos, SafeAt pdu (some option) pos) :
    (∃ found, optionByNumLoop pdu num occ fuel option i = .ok found ∧
      optionByNumLoop pdu.cut num occ fuel option i = .ok found ∧
        SpanInside pdu.len found.len found.val) ∨
    (optionByNumLoop pdu num occ fuel option i = .error .fuel ∧
      optionByNumLoop pdu.cut num occ fuel option i = .error .fuel) := by
  induction fuel generalizing option i with
  | zero => exact Or.inr ⟨rfl, rfl⟩
  | succ fuel ih =>
      obtain ⟨pos, safe⟩ := safe
      obtain ⟨found, got, cutGot, inside, next⟩ := safe.step fits placed
      have resume : ∃ pos, SafeAt pdu (some found) pos := by
        by_cases zero : found.num = 0
        · obtain ⟨pos, start⟩ := start
          exact ⟨pos, start.restart zero⟩
        · exact next zero
      simp only [optionByNumLoop, got, cutGot, Exec.ok_bind, Exec.pure_eq_ok]
      split_ifs
      · exact ih _ resume
      · exact Or.inl ⟨found, rfl, rfl, inside⟩
      · exact Or.inl ⟨_, rfl, rfl, rfl⟩
      · exact Or.inl ⟨found, rfl, rfl, inside⟩
      · exact ih _ resume
      · exact Or.inl ⟨found, rfl, rfl, inside⟩

/-- The walk of `coap_get_payload` over a packet that can be walked. -/
theorem payloadOffset_scannable {rest : Mem} (scannable : Scannable rest) {pos : Nat}
    (at_ : pdu.packet.drop pos = rest) (inside : pos ≤ pdu.len) :
    ∃ result, (∀ fuel, rest.length < fuel → payloadOffset pdu fuel pos = .ok result ∧
      payloadOffset pdu.cut fuel pos = .ok result) ∧
        ∀ offset, result = some (.ceFoundPayloadMarker, offset) → offset < pdu.len := by
  have size := packet_length fits placed
  induction scannable generalizing pos with
  | done =>
      have length := congrArg List.length at_
      rw [List.length_drop, size, List.length_nil] at length
      have atEnd : pdu.len = pos := by omega
      refine ⟨some (.ceEndOfPacket, pos), ?_, by simp⟩
      intro fuel enough
      obtain ⟨fuel, rfl⟩ := Nat.exists_eq_succ_of_ne_zero (Nat.ne_of_gt enough)
      exact ⟨payloadOffset_end atEnd fuel, @payloadOffset_end pdu.cut pos atEnd fuel⟩
  | @marker tail =>
      have length := congrArg List.length at_
      rw [List.length_drop, size, List.length_cons] at length
      have more := sizeSub_len_ne_zero fits placed pos (by omega) (by omega)
      have decodes : Decodes pdu.packet pos 0 0 none _ := .marker at_
      refine ⟨some (.ceFoundPayloadMarker, pos), ?_, ?_⟩
      · intro fuel enough
        obtain ⟨fuel, rfl⟩ := Nat.exists_eq_succ_of_ne_zero (Nat.ne_of_gt
          (Nat.lt_of_le_of_lt (Nat.zero_le _) enough))
        constructor
        · simp [payloadOffset, coapDecodeOption_of_decodes more decodes.of_take]
        · simp [payloadOffset, coapDecodeOption_of_decodes more decodes]
      · rintro offset equal
        cases equal
        omega
  | @reserved front tail isReserved =>
      have nonempty := isReserved.length_pos
      have length := congrArg List.length at_
      rw [List.length_drop, size, List.length_append] at length
      have more := sizeSub_len_ne_zero fits placed pos (by omega) (by omega)
      have decodes : Decodes pdu.packet pos 0 0 none _ := .reserved isReserved at_
      refine ⟨none, ?_, by simp⟩
      intro fuel enough
      obtain ⟨fuel, rfl⟩ := Nat.exists_eq_succ_of_ne_zero (Nat.ne_of_gt
        (Nat.lt_of_le_of_lt (Nat.zero_le _) enough))
      constructor
      · simp [payloadOffset, coapDecodeOption_of_decodes more decodes.of_take]
      · simp [payloadOffset, coapDecodeOption_of_decodes more decodes]
  | @option header value tail delta optLen isHeader complete _ ih =>
      have nonempty := isHeader.length_pos
      have length := congrArg List.length at_
      rw [List.length_drop, size, List.length_append, List.length_append] at length
      have more := sizeSub_len_ne_zero fits placed pos (by omega) (by omega)
      have decodes : Decodes pdu.packet pos 0 0 none _ := .found isHeader at_
      have behind : pdu.packet.drop (pos + header.length + optLen % 2 ^ 16) = tail := by
        rw [← complete]
        exact Mem.drop_add_of_append (Mem.drop_add_of_append at_)
      obtain ⟨result, walk, marker⟩ := ih behind (by omega)
      refine ⟨result, ?_, marker⟩
      intro fuel enough
      rw [List.length_append, List.length_append] at enough
      obtain ⟨fuel, rfl⟩ := Nat.exists_eq_succ_of_ne_zero (Nat.ne_of_gt
        (Nat.lt_of_le_of_lt (Nat.zero_le _) enough))
      obtain ⟨whole, cut⟩ := walk fuel (by omega)
      constructor
      · simp only [payloadOffset, coapDecodeOption_of_decodes more decodes.of_take,
          Exec.ok_bind, Option.getD_some]
        exact whole
      · simp only [payloadOffset, CoapPdu.cut_mem, CoapPdu.cut_len,
          coapDecodeOption_of_decodes more decodes, Exec.ok_bind, Option.getD_some]
        exact cut

/-! ## Packets that cannot -/

/-- When the walk of `coap_get_payload` stays in the packet, the packet can be
walked from there on. -/
theorem scannable_of_payloadOffset {fuel pos : Nat} {result : Option (CoapError × Nat)}
    (near : pos < pdu.len + 2 ^ 63) (walk : payloadOffset pdu.cut fuel pos = .ok result) :
    pos ≤ pdu.len ∧ Scannable (pdu.packet.drop pos) := by
  have size := packet_length fits placed
  induction fuel generalizing pos with
  | zero => cases walk
  | succ fuel ih =>
      by_cases atEnd : pos = pdu.len
      · refine ⟨by omega, ?_⟩
        rw [List.drop_eq_nil_of_le (by omega)]
        exact .done
      · have more := sizeSub_len_ne_zero fits placed pos near atEnd
        obtain ⟨decoded, isDecoded, walk⟩ := Exec.bind_eq_ok.mp walk
        have decodes := decodes_of_coapDecodeOption more isDecoded
        rw [CoapPdu.cut_mem] at decodes
        cases decodes with
        | marker at_ =>
            have length := congrArg List.length at_
            rw [List.length_drop, size, List.length_cons] at length
            exact ⟨by omega, by rw [at_]; exact .marker⟩
        | reserved isReserved at_ =>
            have nonempty := isReserved.length_pos
            have length := congrArg List.length at_
            rw [List.length_drop, size, List.length_append] at length
            exact ⟨by omega, by rw [at_]; exact .reserved isReserved⟩
        | @found header rest delta optLen isHeader at_ =>
            have nonempty := isHeader.length_pos
            have short := isHeader.bytes_length_le
            have length := congrArg List.length at_
            rw [List.length_drop, size, List.length_append] at length
            have small : optLen % 2 ^ 16 < 2 ^ 16 := Nat.mod_lt _ (by omega)
            simp only [Option.getD_some] at walk
            obtain ⟨inside, scannable⟩ := ih (by omega) walk
            refine ⟨by omega, ?_⟩
            have behind : pdu.packet.drop (pos + header.length + optLen % 2 ^ 16) =
                rest.drop (optLen % 2 ^ 16) := by
              rw [← List.drop_drop, Mem.drop_add_of_append at_]
            rw [behind] at scannable
            have complete : (rest.take (optLen % 2 ^ 16)).length = optLen % 2 ^ 16 := by
              rw [List.length_take]
              omega
            have assembled := Scannable.option isHeader complete scannable
            rwa [List.take_append_drop, ← at_] at assembled

/-- At a hidden payload the iteration arrives at a result with a null value and a
length that is not zero. -/
theorem HiddenPayload.reached {num : Nat} {rest : Mem} (hidden : HiddenPayload num rest)
    {last : Option CoapOption} {pos : Nat} (visited : Visited pdu last)
    (position : optionPosition pdu last = .ok pos) (positive : 0 < pos)
    (inside : pos ≤ pdu.len) (number : lastNumber last = num)
    (at_ : pdu.packet.drop pos = rest) :
    ∃ last, Visited pdu last ∧
      coapGetOption pdu last = .ok ⟨0, (pdu.len + pdu.buf) % 2 ^ 64, none⟩ := by
  have size := packet_length fits placed
  induction hidden generalizing last pos with
  | marker nonzero =>
      have length := congrArg List.length at_
      rw [List.length_drop, size, List.length_cons] at length
      have more := sizeSub_len_ne_zero fits placed pos (by omega) (by omega)
      have decodes : Decodes pdu.packet pos (lastNumber last) 0 none _ := .marker at_
      refine ⟨last, visited, ?_⟩
      rw [← number] at nonzero
      simp [coapGetOption, position, coapDecodeOption_of_decodes more decodes.of_take, nonzero]
  | @option num header value tail delta optLen isHeader complete nonzero _ ih =>
      have nonempty := isHeader.length_pos
      have length := congrArg List.length at_
      rw [List.length_drop, size, List.length_append, List.length_append] at length
      have more := sizeSub_len_ne_zero fits placed pos (by omega) (by omega)
      have decodes : Decodes pdu.packet pos (lastNumber last) 0 none _ := .found isHeader at_
      have got := coapGetOption_of_found position more decodes.of_take
      rw [number] at got
      have behind : pdu.packet.drop (pos + header.length + optLen % 2 ^ 16) = tail := by
        rw [← complete]
        exact Mem.drop_add_of_append (Mem.drop_add_of_append at_)
      exact ih (.next visited got nonzero)
        (optionPosition_some nonzero rfl (by dsimp only; omega) (by omega)) (by omega)
        (by dsimp only; omega) rfl behind

/-! ## The getters after validation -/

theorem CoapPdu.PassesChecks.token (passes : pdu.PassesChecks) :
    ∃ token, coapGetToken pdu = .ok token ∧ coapGetToken pdu.cut = .ok token := by
  have size := packet_length fits placed
  have mapped := placed.max_le
  have long := passes.len_ge
  have short := passes.tkl_le
  have tkl : coapGetTkl pdu = .ok (pdu.firstByte.toNat % 16) :=
    coapGetTkl_firstByte (by omega)
  have cutTkl := coapGetTkl_cut fits placed long
  have inRange : ¬ 8 < pdu.firstByte.toNat % 16 := by omega
  simp only [coapGetToken, tkl, cutTkl, Exec.ok_bind, inRange, if_false, CoapPdu.cut_len,
    CoapPdu.cut_mem]
  by_cases missing : pdu.len < 4 + pdu.firstByte.toNat % 16
  · simp [missing]
  · have whole : 4 + pdu.firstByte.toNat % 16 ≤ pdu.mem.length := by omega
    have cut : 4 + pdu.firstByte.toNat % 16 ≤ pdu.packet.length := by omega
    have same : (pdu.packet.drop 4).take (pdu.firstByte.toNat % 16) =
        (pdu.mem.drop 4).take (pdu.firstByte.toNat % 16) := by
      rw [CoapPdu.packet, List.drop_take, List.take_take, Nat.min_eq_left (by omega)]
    simp [missing, Mem.slice, whole, cut, same]

/-- The iteration starts at a safe position. -/
theorem CoapPdu.PassesChecks.safeAt (passes : pdu.PassesChecks) (inside : pdu.tokenEnd ≤ pdu.len)
    (scannable : Scannable (pdu.packet.drop pdu.tokenEnd))
    (visible : ¬ HiddenPayload 0 (pdu.packet.drop pdu.tokenEnd)) :
    SafeAt pdu none pdu.tokenEnd := by
  have mapped := placed.max_le
  have long := passes.len_ge
  exact {
    position := optionPosition_none (coapGetTkl_firstByte (by omega))
    cutPosition := optionPosition_none (coapGetTkl_cut fits placed long)
    positive := by
      rw [CoapPdu.tokenEnd]
      omega
    inside := inside
    scannable := scannable
    visible := visible }

theorem CoapPdu.PassesChecks.gettersInside (passes : pdu.PassesChecks)
    (inside : pdu.tokenEnd ≤ pdu.len)
    (scannable : Scannable (pdu.packet.drop pdu.tokenEnd))
    (visible : ¬ HiddenPayload 0 (pdu.packet.drop pdu.tokenEnd)) : GettersInside pdu := by
  have start := passes.safeAt fits placed inside scannable visible
  refine ⟨passes.token fits placed, ?_, ?_, ?_⟩
  · intro last visited
    obtain ⟨pos, safe⟩ := safeAt_visited fits placed ⟨_, start⟩ visited
    obtain ⟨option, got, cutGot, span, -⟩ := safe.step fits placed
    exact ⟨option, got, cutGot, span⟩
  · intro num occ fuel
    exact optionByNumLoop_inside fits placed ⟨_, start⟩ num occ fuel 0
      ⟨_, start.restart rfl⟩
  · have size := packet_length fits placed
    have mapped := placed.max_le
    have bounded := placed.buf_lt
    obtain ⟨result, walk, marker⟩ :=
      payloadOffset_scannable fits placed scannable rfl inside
    have enough : (pdu.packet.drop pdu.tokenEnd).length < pdu.packet.length + 1 := by
      rw [List.length_drop]
      omega
    have whole := (walk (pdu.mem.length + 1) (by omega)).1
    have cut := (walk (pdu.packet.length + 1) enough).2
    have tkl : coapGetTkl pdu = .ok (pdu.firstByte.toNat % 16) :=
      coapGetTkl_firstByte (by have := passes.len_ge; omega)
    simp only [coapGetPayload, tkl, coapGetTkl_cut fits placed passes.len_ge, Exec.ok_bind]
    rw [CoapPdu.tokenEnd] at whole cut
    simp only [CoapPdu.cut_mem, whole, cut, Exec.ok_bind, CoapPdu.cut_len]
    split
    · rename_i offset
      have before := marker offset rfl
      have left : sizeSub pdu.len offset = pdu.len - offset :=
        sizeSub_of_le (by omega) (by omega)
      refine ⟨_, rfl, rfl, ?_⟩
      change offset + 1 + sizeSub (sizeSub pdu.len offset) 1 ≤ pdu.len
      rw [left, sizeSub_of_le (by omega) (by omega)]
      omega
    · exact ⟨_, rfl, rfl, rfl⟩

theorem scannable_of_gettersInside (passes : pdu.PassesChecks) (getters : GettersInside pdu) :
    pdu.tokenEnd ≤ pdu.len ∧ Scannable (pdu.packet.drop pdu.tokenEnd) ∧
      ¬ HiddenPayload 0 (pdu.packet.drop pdu.tokenEnd) := by
  have mapped := placed.max_le
  have bounded := placed.buf_lt
  have positive := placed.buf_pos
  have long := passes.len_ge
  have tokenEnd : 4 ≤ pdu.tokenEnd ∧ pdu.tokenEnd < 20 := by
    unfold CoapPdu.tokenEnd
    omega
  -- coap_get_payload stays in the packet, so its walk does
  obtain ⟨payload, -, cutGot, -⟩ := getters.payload
  rw [coapGetPayload, coapGetTkl_cut fits placed long, Exec.ok_bind] at cutGot
  obtain ⟨result, walk, -⟩ := Exec.bind_eq_ok.mp cutGot
  obtain ⟨inside, scannable⟩ := scannable_of_payloadOffset fits placed (by omega) walk
  refine ⟨inside, scannable, ?_⟩
  intro hidden
  have position : optionPosition pdu none = .ok pdu.tokenEnd :=
    optionPosition_none (coapGetTkl_firstByte (by omega))
  obtain ⟨last, visited, got⟩ :=
    hidden.reached fits placed .start position (by omega) inside rfl rfl
  obtain ⟨option, sameGot, -, span⟩ := getters.option last visited
  rw [got] at sameGot
  cases sameGot
  change (pdu.len + pdu.buf) % 2 ^ 64 = 0 at span
  omega

end Cut

/-- After successful validation the getters stay in the packet exactly when
validation fails anyway, or when the token is inside the packet, the options can be
walked up to its end and no payload marker is hidden behind an option. -/
theorem coapValidatePkt_gettersInside_iff (pdu : CoapPdu) (fits : pdu.len ≤ pdu.max)
    (placed : pdu.Placed) :
    (coapValidatePkt pdu = .ok .ceNone → GettersInside pdu) ↔
      (¬ pdu.PassesChecks ∨
        (pdu.tokenEnd ≤ pdu.len ∧ Scannable (pdu.packet.drop pdu.tokenEnd) ∧
          ¬ HiddenPayload 0 (pdu.packet.drop pdu.tokenEnd))) := by
  rw [coapValidatePkt_eq_none fits placed]
  constructor
  · intro safe
    by_cases passes : pdu.PassesChecks
    · exact Or.inr (scannable_of_gettersInside fits placed passes (safe passes))
    · exact Or.inl passes
  · rintro (fails | ⟨inside, scannable, visible⟩) passes
    · exact absurd passes fails
    · exact passes.gettersInside fits placed inside scannable visible

/-- A packet whose second option claims 16 bytes although the packet ends there. -/
def overrun : CoapPdu := ⟨0x1000, [0x40, 0x01, 0x00, 0x37, 0x11, 0x61, 0x1D, 0x03], 8, 8⟩

theorem overrun_placed : overrun.Placed := ⟨by decide, by decide, by decide⟩

/-- Validation accepts the packet, and looking for its payload leaves the buffer. -/
theorem coapValidatePkt_overrun :
    ¬ (coapValidatePkt overrun = .ok .ceNone → GettersInside overrun) := by
  intro safe
  obtain ⟨payload, got, -⟩ := (safe (by decide)).payload
  have fault : coapGetPayload overrun = .error .fault := by decide
  rw [fault] at got
  cases got

theorem coapValidatePkt_gettersInside_iff_overrun :
    overrun.len ≤ overrun.max ∧ overrun.Placed ∧
      ((coapValidatePkt overrun = .ok .ceNone → GettersInside overrun) ↔
        (¬ overrun.PassesChecks ∨
          (overrun.tokenEnd ≤ overrun.len ∧
            Scannable (overrun.packet.drop overrun.tokenEnd) ∧
              ¬ HiddenPayload 0 (overrun.packet.drop overrun.tokenEnd)))) :=
  ⟨by decide, overrun_placed,
    coapValidatePkt_gettersInside_iff overrun (by decide) overrun_placed⟩

end ExositeCoap.Coap
