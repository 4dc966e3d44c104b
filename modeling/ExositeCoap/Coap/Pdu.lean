import ExositeCoap.Lib.Wire

/-!
# Packets and their getters

The parsing half of `picocoap/src/coap.c`.  A packet is a stretch of raw bytes
and every getter walks these bytes anew.  Pointers into the buffer are offsets
from `pdu->buf`; the memory behind the buffer is part of the model, because the
decoder does not always stop at the end of the packet.

`pdu->opt_ptr` is left out: it is only ever set, never read.
-/

namespace ExositeCoap.Coap

open Lib Wire

/-- Status codes, `coap_error`. -/
inductive CoapError where
  | ceNone
  | ceInvalidPacket
  | ceBadVersion
  | ceTokenLengthOutOfRange
  | ceUnknownCode
  | ceTooManyOptions
  | ceOutOfOrderOptionsList
  | ceInsufficientBuffer
  | ceFoundPayloadMarker
  | ceEndOfPacket
  deriving DecidableEq, Repr

/-- `coap_type`. -/
abbrev CoapType := MessageType

/-- The protocol version that is set and checked for, `COAP_V1`. -/
def coapV1 : Nat := 1

/-! Message codes and option numbers that the library names. -/

def ccEmpty : UInt8 := 0
def ccGet : UInt8 := 1
def ccPost : UInt8 := 2
def ccContent : UInt8 := 69
def ccUnauthorized : UInt8 := 129
def ccNotFound : UInt8 := 132

def conObserve : Nat := 6
def conUriPath : Nat := 11
def conMaxAge : Nat := 14
def conUriQuery : Nat := 15

/-- A `uint8_t *` that is null or points into the packet buffer, as an offset
from the start of the buffer. -/
abbrev Ptr := Option Nat

/-- `coap_pdu`. `mem` holds the mapped bytes from `pdu->buf` on, those behind the
`max` bytes of the buffer included; `buf` is the value of the pointer itself. -/
structure CoapPdu where
  buf : Nat
  mem : Mem
  len : Nat
  max : Nat
  deriving DecidableEq, Repr

/-- The buffer of a packet is mapped, and its memory is a region of the 64-bit
address space that neither starts at the null address nor ends at the last one. -/
structure CoapPdu.Placed (pdu : CoapPdu) : Prop where
  max_le : pdu.max ≤ pdu.mem.length
  buf_pos : 0 < pdu.buf
  buf_lt : pdu.buf + pdu.mem.length < 2 ^ 64

/-- `coap_option`. -/
structure CoapOption where
  num : Nat
  len : Nat
  val : Ptr
  deriving DecidableEq, Repr

/-- `coap_payload`. -/
structure CoapPayload where
  len : Nat
  val : Ptr
  deriving DecidableEq, Repr

/-! ## Header fields -/

def coapGetVersion (pdu : CoapPdu) : Exec Nat := do
  return (← pdu.mem.read 0).toNat / 64

def coapGetType (pdu : CoapPdu) : Exec CoapType := do
  return .ofBits ((← pdu.mem.read 0).toNat / 16)

def coapGetTkl (pdu : CoapPdu) : Exec Nat := do
  return (← pdu.mem.read 0).toNat % 16

def coapGetCode (pdu : CoapPdu) : Exec UInt8 := pdu.mem.read 1

def coapGetCodeClass (pdu : CoapPdu) : Exec Nat := do
  return (← coapGetCode pdu).toNat / 32

def coapGetMid (pdu : CoapPdu) : Exec UInt16 := do
  let high ← pdu.mem.read 2
  let low ← pdu.mem.read 3
  return UInt16.ofNat (high.toNat * 256 + low.toNat)

/-- The number whose little-endian bytes are given. -/
def leValue : List UInt8 → Nat
  | [] => 0
  | byte :: rest => byte.toNat + 256 * leValue rest

/-- `coap_get_token`. The copy into the eight bytes of the result overruns them
when the token length field is larger than eight. -/
def coapGetToken (pdu : CoapPdu) : Exec Nat := do
  let tkl ← coapGetTkl pdu
  if pdu.len < 4 + tkl then return 0
  if 8 < tkl then throw .fault
  return leValue (← pdu.mem.slice 4 tkl)

/-! ## Options -/

/-- Results of `coap_decode_option`: the status and the out-parameters, which are
only written when the status is `CE_NONE`. -/
structure DecodeResult where
  err : CoapError
  num : Nat
  len : Nat
  val : Ptr
  deriving DecidableEq, Repr

/-- Delta and length have the same code; this is the block of
`coap_decode_option` that occurs once for each. The result is the 16-bit value
and the position behind the extension bytes, or nothing for the nibble 15. -/
def decodeExtended (mem : Mem) (ptr nibble : Nat) : Exec (Option (Nat × Nat)) := do
  if nibble < 13 then
    return some (nibble, ptr)
  else if nibble = 13 then
    let low ← mem.read ptr
    return some (low.toNat + 13, ptr + 1)
  else if nibble = 14 then
    let high ← mem.read ptr
    let low ← mem.read (ptr + 1)
    return some ((high.toNat * 256 + low.toNat + 269) % 2 ^ 16, ptr + 2)
  else
    return none

/-- `coap_decode_option`. The remaining length is only compared with zero. -/
def coapDecodeOption (mem : Mem) (pktPtr pktLen : Nat) (num len : Nat) (val : Ptr) :
    Exec DecodeResult := do
  if pktLen = 0 then
    return ⟨.ceEndOfPacket, num, len, val⟩
  let first ← mem.read pktPtr
  if first = 0xFF then
    return ⟨.ceFoundPayloadMarker, num, len, val⟩
  match ← decodeExtended mem (pktPtr + 1) (first.toNat / 16) with
  | none => return ⟨.ceInvalidPacket, num, len, val⟩
  | some (delta, ptr) =>
    match ← decodeExtended mem ptr (first.toNat % 16) with
    | none => return ⟨.ceInvalidPacket, num, len, val⟩
    | some (length, ptr) =>
      return ⟨.ceNone, (num + delta) % 2 ^ 16, length, some ptr⟩

/-- The loop over the options in `coap_validate_pkt`, from `ov` on. It is left as
soon as `coap_decode_option` returns `CE_NONE`, which is zero: its `continue`
branch is dead and only the first option is ever looked at. -/
def validateOptions (pdu : CoapPdu) (ov : Nat) : Exec CoapError := do
  let ol := 0
  let result ← coapDecodeOption pdu.mem (ov + ol) (sizeSub pdu.len ov) 0 ol (some ov)
  match result.err with
  | .ceNone => return .ceNone
  | .ceEndOfPacket => return .ceNone
  | .ceFoundPayloadMarker =>
    -- Payload Marker, but No Payload
    if pdu.len = ov + ol then return .ceInvalidPacket else return .ceNone
  | err => return err

/-- `coap_validate_pkt`. -/
def coapValidatePkt (pdu : CoapPdu) : Exec CoapError := do
  if pdu.len > pdu.max then return .ceInvalidPacket
  if pdu.len < 4 then return .ceInvalidPacket
  if (← coapGetVersion pdu) ≠ 1 then return .ceInvalidPacket
  if (← coapGetTkl pdu) > 8 then return .ceInvalidPacket
  validateOptions pdu (4 + (← coapGetTkl pdu))

/-- Where `coap_get_option` resumes: behind the last option, or at the first
one when there is no last option or that position is not in the packet. -/
def optionPosition (pdu : CoapPdu) (last : Option CoapOption) : Exec Nat := do
  let optPtr ←
    match last with
    | some option =>
      if option.num ≠ 0 then pure (option.val.map (· + option.len))
      else do pure (some (4 + (← coapGetTkl pdu)))
    | none => do pure (some (4 + (← coapGetTkl pdu)))
  match optPtr with
  | some ptr =>
    if ptr > pdu.len ∨ ptr = 0 then return 4 + (← coapGetTkl pdu) else return ptr
  | none => return 4 + (← coapGetTkl pdu)

/-- The option number that the next delta is added to. -/
def lastNumber : Option CoapOption → Nat
  | some option => option.num
  | none => 0

/-- `coap_get_option`. At a payload marker behind an option the value pointer is
still null, and the length is computed from it. -/
def coapGetOption (pdu : CoapPdu) (last : Option CoapOption) : Exec CoapOption := do
  let optPtr ← optionPosition pdu last
  let result ← coapDecodeOption pdu.mem optPtr (sizeSub pdu.len optPtr)
    (lastNumber last) 0 none
  match result.err with
  | .ceNone => return ⟨result.num, result.len, result.val⟩
  | .ceFoundPayloadMarker =>
    if result.num = 0 then
      return ⟨0, sizeSub (sizeSub pdu.len optPtr) 1, some (optPtr + 1)⟩
    else
      -- option.val + option.len is NULL + 0, and NULL - pdu->buf is -buf
      return ⟨0, (pdu.len + pdu.buf) % 2 ^ 64, none⟩
  | _ => return ⟨0, 0, none⟩

/-- The loop of `coap_get_option_by_num`, with the 8-bit counter `i` of
occurrences found. `fuel` bounds the number of rounds. -/
def optionByNumLoop (pdu : CoapPdu) (num occ : Nat) :
    (fuel : Nat) → (option : CoapOption) → (i : Nat) → Exec CoapOption
  | 0, _, _ => throw .fuel
  | fuel + 1, option, i => do
    let option ← coapGetOption pdu (some option)
    if option.num = num then
      let i := (i + 1) % 2 ^ 8
      if i ≤ occ then optionByNumLoop pdu num occ fuel option i else return option
    else if option.num > num then
      return ⟨0, 0, none⟩
    else if option.num = 0 then
      return option
    else if i ≤ occ then
      optionByNumLoop pdu num occ fuel option i
    else
      return option

/-- `coap_get_option_by_num`. -/
def coapGetOptionByNum (pdu : CoapPdu) (fuel num occ : Nat) : Exec CoapOption :=
  optionByNumLoop pdu num occ fuel ⟨0, 0, none⟩ 0

/-- The loop of `coap_get_payload`: the offset where the options end and whether
a payload marker stands there, or nothing after a decoding error. Each round
loads the byte at `offset` and moves on, so as many rounds as there are mapped
bytes are enough. -/
def payloadOffset (pdu : CoapPdu) : (fuel : Nat) → (offset : Nat) →
    Exec (Option (CoapError × Nat))
  | 0, _ => throw .fuel
  | fuel + 1, offset => do
    let result ← coapDecodeOption pdu.mem offset (sizeSub pdu.len offset) 0 0 none
    match result.err with
    | .ceFoundPayloadMarker => return some (.ceFoundPayloadMarker, offset)
    | .ceEndOfPacket => return some (.ceEndOfPacket, offset)
    | .ceNone => payloadOffset pdu fuel (result.val.getD 0 + result.len)
    | _ => return none

/-- `coap_get_payload`. -/
def coapGetPayload (pdu : CoapPdu) : Exec CoapPayload := do
  let offset := 4 + (← coapGetTkl pdu)
  match ← payloadOffset pdu (pdu.mem.length + 1) offset with
  | some (.ceFoundPayloadMarker, offset) =>
    return ⟨sizeSub (sizeSub pdu.len offset) 1, some (offset + 1)⟩
  | _ => return ⟨0, none⟩

end ExositeCoap.Coap
