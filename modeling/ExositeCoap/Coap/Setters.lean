import ExositeCoap.Coap.Pdu

/-!
# Building packets in place

The building half of `picocoap/src/coap.c`.  There is no structure besides the
bytes: each setter finds its place by walking the packet, slides what follows
and writes.  Setters return the status and the packet they leave behind.

Sums of sizes are computed without wrapping, since the sizes of live objects
never add up to `2 ^ 64`; differences wrap as `size_t` does.
-/

namespace ExositeCoap.Coap

open Lib Wire

/-- Status of a setter and the packet after the call. -/
abbrev SetterResult := CoapError × CoapPdu

/-- The low `count` bytes of a number, least significant first. -/
def leBytes : (count : Nat) → (value : Nat) → List UInt8
  | 0, _ => []
  | count + 1, value => UInt8.ofNat value :: leBytes count (value / 256)

/-- Conversion of an `int32_t` to `uint8_t`. -/
def byteOf (value : Int) : UInt8 := UInt8.ofNat (value % 256).toNat

/-! ## Header fields -/

/-- `coap_set_version`: `(ver << 6) | (buf[0] & 0x3F)`. -/
def coapSetVersion (pdu : CoapPdu) (ver : Nat) : Exec SetterResult := do
  if pdu.max < 1 then return (.ceInsufficientBuffer, pdu)
  let first ← pdu.mem.read 0
  let mem ← pdu.mem.store 0 [UInt8.ofNat (ver * 64 + first.toNat % 64)]
  return (.ceNone, { pdu with mem, len := if pdu.len < 1 then 1 else pdu.len })

/-- `coap_set_type`: `(mtype << 4) | (buf[0] & 0xCF)`. -/
def coapSetType (pdu : CoapPdu) (mtype : CoapType) : Exec SetterResult := do
  if pdu.max < 1 then return (.ceInsufficientBuffer, pdu)
  let first ← pdu.mem.read 0
  let mem ← pdu.mem.store 0
    [UInt8.ofNat (first.toNat / 64 * 64 + mtype.bits * 16 + first.toNat % 16)]
  return (.ceNone, { pdu with mem, len := if pdu.len < 1 then 1 else pdu.len })

/-- `coap_set_code`. -/
def coapSetCode (pdu : CoapPdu) (code : UInt8) : Exec SetterResult := do
  if pdu.max < 2 then return (.ceInsufficientBuffer, pdu)
  let mem ← pdu.mem.store 1 [code]
  return (.ceNone, { pdu with mem, len := if pdu.len < 2 then 2 else pdu.len })

/-- `coap_set_mid`. -/
def coapSetMid (pdu : CoapPdu) (mid : UInt16) : Exec SetterResult := do
  if pdu.max < 4 then return (.ceInsufficientBuffer, pdu)
  let mem ← pdu.mem.store 2
    [UInt8.ofNat (mid.toNat / 256), UInt8.ofNat (mid.toNat % 256)]
  return (.ceNone, { pdu with mem, len := if pdu.len < 4 then 4 else pdu.len })

/-- `coap_set_token`. What follows the token is moved when there may be
something, that is when the packet is longer than the fixed header. -/
def coapSetToken (pdu : CoapPdu) (token tkl : Nat) : Exec SetterResult := do
  if pdu.max < 4 + tkl then return (.ceInsufficientBuffer, pdu)
  if tkl > 8 then return (.ceInvalidPacket, pdu)
  let oldTkl ← coapGetTkl pdu
  -- Check if we may need to make or take room.
  if pdu.len > 4 ∧ pdu.max < sizeSub (pdu.len + tkl) oldTkl then
    return (.ceInsufficientBuffer, pdu)
  let mem ←
    if pdu.len > 4 then
      pdu.mem.move (4 + tkl) (4 + oldTkl) (sizeSub (sizeSub pdu.len 4) oldTkl)
    else pure pdu.mem
  let mem ← Mem.store mem 4 (leBytes tkl token)
  let first ← Mem.read mem 0
  let mem ← Mem.store mem 0 [UInt8.ofNat (first.toNat / 16 * 16 + tkl)]
  return (.ceNone, { pdu with mem, len := sizeSub (pdu.len + tkl) oldTkl })

/-- `coap_init_pdu`. -/
def coapInitPdu (pdu : CoapPdu) : Exec SetterResult := do
  if pdu.max < 4 then return (.ceInsufficientBuffer, pdu)
  let mem ← pdu.mem.store 0 [0, 0, 0, 0]
  let (_, pdu) ← coapSetVersion { pdu with mem, len := 0 } coapV1
  let (_, pdu) ← coapSetType pdu .rst
  let (_, pdu) ← coapSetToken pdu 0 0
  let (_, pdu) ← coapSetCode pdu ccEmpty
  let (_, pdu) ← coapSetMid pdu 0
  return (.ceNone, pdu)

/-! ## Option headers -/

/-- Number of extension bytes of one field of an option header. -/
def extendedLen (value : Int) : Nat :=
  if value < 13 then 0 else if value < 269 then 1 else 2

/-- `coap_compute_option_header_len`. -/
def coapComputeOptionHeaderLen (optDelta optLen : Int) : Nat :=
  1 + extendedLen optDelta + extendedLen optLen

/-- The block of `coap_build_option_header` that occurs once for the delta and
once for the length: writes the extension bytes at `ptr` and yields the nibble
and the position behind them, or nothing when `maxLen` is too small. -/
def buildExtended (mem : Mem) (buf ptr maxLen : Nat) (value : Int) :
    Exec (Option (Nat × Nat) × Mem) := do
  if value < 13 then
    return (some ((value % 256).toNat, ptr), mem)
  else if value < 269 then
    if maxLen < ptr - buf + 1 then return (none, mem)
    let mem ← mem.store ptr [byteOf (value - 13)]
    return (some (13, ptr + 1), mem)
  else
    if maxLen < ptr - buf + 2 then return (none, mem)
    let mem ← mem.store ptr [byteOf ((value - 269) / 256), byteOf ((value - 269) % 256)]
    return (some (14, ptr + 2), mem)

/-- `coap_build_option_header`. The result is the length of the header, or
nothing for `CE_INSUFFICIENT_BUFFER`. -/
def coapBuildOptionHeader (mem : Mem) (buf maxLen : Nat) (optDelta optLen : Int) :
    Exec (Option Nat × Mem) := do
  if maxLen < 1 then return (none, mem)
  match ← buildExtended mem buf (buf + 1) maxLen optDelta with
  | (none, mem) => return (none, mem)
  | (some (baseNum, ptr), mem) =>
    match ← buildExtended mem buf ptr maxLen optLen with
    | (none, mem) => return (none, mem)
    | (some (baseLen, ptr), mem) =>
      let mem ← mem.store buf [UInt8.ofNat (baseNum * 16 + baseLen)]
      return (some (ptr - buf), mem)

/-! ## Options and payload -/

/-- The loop that finds the insertion point in `coap_add_option` and
`coap_set_payload`; the first also stops at an option number that is too large.
Yields the last status, the position it belongs to, and the option number before
that position. -/
def optionWalk (mem : Mem) (len : Nat) (goOn : Nat → Bool) :
    (fuel : Nat) → (foptVal foptLen foptNum : Nat) → Exec (CoapError × Nat × Nat)
  | 0, _, _, _ => throw .fuel
  | fuel + 1, foptVal, foptLen, foptNum => do
    let pktPtr := foptVal + foptLen
    let result ←
      coapDecodeOption mem pktPtr (sizeSub len pktPtr) foptNum foptLen (some foptVal)
    if result.err = .ceNone ∧ goOn result.num ∧ pktPtr + result.len < len then
      optionWalk mem len goOn fuel (result.val.getD 0) result.len result.num
    else
      return (result.err, pktPtr, foptNum)

/-- The loop of `coap_adjust_option_deltas`. Only the value of an option whose
header changes its size is moved, and every later option is rewritten with its
number relative to the first one. -/
def adjustLoop (optsStart maxLen : Nat) (offset : Int) :
    (fuel : Nat) → (mem : Mem) → (optsLen foptVal foptLen foptNum : Nat) →
      Exec (CoapError × Mem × Nat)
  | 0, _, _, _, _, _ => throw .fuel
  | fuel + 1, mem, optsLen, foptVal, foptLen, foptNum => do
    let ptr := foptVal + foptLen
    if ptr - optsStart > optsLen then return (.ceNone, mem, optsLen)
    let result ← coapDecodeOption mem ptr (sizeSub optsLen (ptr - optsStart))
      foptNum foptLen (some foptVal)
    match result.err with
    | .ceFoundPayloadMarker => return (.ceNone, mem, optsLen)
    | .ceEndOfPacket => return (.ceNone, mem, optsLen)
    | .ceNone =>
      let value := result.val.getD 0
      let noptNum := (((result.num : Int) + offset) % 2 ^ 16).toNat
      let fhdrLen := value - ptr
      let nhdrLen := coapComputeOptionHeaderLen noptNum result.len
      -- Make/Take room for new header size
      if fhdrLen ≠ nhdrLen ∧ maxLen < sizeSub (optsLen + nhdrLen) fhdrLen then
        return (.ceInsufficientBuffer, mem, optsLen)
      let mem ←
        if fhdrLen ≠ nhdrLen then mem.move (value + nhdrLen - fhdrLen) value result.len
        else pure mem
      let optsLen :=
        if fhdrLen ≠ nhdrLen then sizeSub (optsLen + nhdrLen) fhdrLen else optsLen
      let (_, mem) ← coapBuildOptionHeader mem ptr nhdrLen noptNum result.len
      adjustLoop optsStart maxLen offset fuel mem optsLen value result.len result.num
    | err => return (err, mem, optsLen)

/-- `coap_adjust_option_deltas`: the status, the memory and `*opts_len`. -/
def coapAdjustOptionDeltas (mem : Mem) (optsStart optsLen maxLen : Nat) (offset : Int) :
    Exec (CoapError × Mem × Nat) :=
  adjustLoop optsStart maxLen offset (mem.length + 1) mem optsLen optsStart 0 0

/-- `coap_add_option`; `optLen` is a `uint16_t`. -/
def coapAddOption (pdu : CoapPdu) (optNum : Int) (value : List UInt8) (optLen : Nat) :
    Exec SetterResult := do
  let start := 4 + (← coapGetTkl pdu)
  -- Find insertion point
  let (err, pktPtr, loptNum) ← optionWalk pdu.mem pdu.len
    (fun num => decide ((num : Int) ≤ optNum)) (pdu.mem.length + 1) start 0 0
  if err ≠ .ceFoundPayloadMarker ∧ err ≠ .ceEndOfPacket ∧ err ≠ .ceNone then
    return (err, pdu)
  let noptHdrLen := coapComputeOptionHeaderLen (optNum - loptNum) optLen
  if pdu.max < pdu.len + noptHdrLen + optLen then return (.ceInsufficientBuffer, pdu)
  let (mem, len) ←
    -- Check if we're adding an option in the middle of a packet.
    if pdu.len ≠ pktPtr then do
      -- Slide packet tail to make room.
      let mem ← pdu.mem.move (pktPtr + noptHdrLen + optLen) pktPtr (sizeSub pdu.len pktPtr)
      let len := pdu.len + noptHdrLen + optLen
      -- Adjust the option deltas for the rest of the options.
      let (_, mem, optsLen) ← coapAdjustOptionDeltas mem (pktPtr + noptHdrLen + optLen)
        (sizeSub len pktPtr) (sizeSub pdu.max pktPtr) (loptNum - optNum)
      pure (mem, sizeSub (len + optsLen) (sizeSub len pktPtr))
    else
      pure (pdu.mem, pdu.len + noptHdrLen + optLen)
  let (_, mem) ← coapBuildOptionHeader mem pktPtr noptHdrLen (optNum - loptNum) optLen
  let mem ← mem.store (pktPtr + noptHdrLen) (← Mem.slice value 0 optLen)
  return (.ceNone, { pdu with mem, len })

/-- `coap_set_payload`. -/
def coapSetPayload (pdu : CoapPdu) (payload : List UInt8) : Exec SetterResult := do
  let start := 4 + (← coapGetTkl pdu)
  -- Find insertion point
  let (err, pktPtr, _) ← optionWalk pdu.mem pdu.len (fun _ => true)
    (pdu.mem.length + 1) start 0 0
  match err with
  | .ceEndOfPacket =>
    if pdu.max < pdu.len + payload.length + 1 then return (.ceInsufficientBuffer, pdu)
    let mem ← pdu.mem.store pktPtr [0xFF]
    let mem ← mem.store (pktPtr + 1) payload
    return (.ceNone, { pdu with mem, len := pktPtr + 1 + payload.length })
  | .ceFoundPayloadMarker =>
    if pdu.max < pdu.len + payload.length then return (.ceInsufficientBuffer, pdu)
    let mem ← pdu.mem.store pktPtr payload
    return (.ceNone, { pdu with mem, len := pktPtr + payload.length })
  | .ceNone =>
    let mem ← pdu.mem.store pktPtr payload
    return (.ceNone, { pdu with mem, len := pktPtr + payload.length })
  | err => return (err, pdu)

end ExositeCoap.Coap
