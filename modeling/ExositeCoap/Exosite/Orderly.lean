import ExositeCoap.Coap.Iterate
import ExositeCoap.Coap.Terminate
import ExositeCoap.Exosite.Copying
import ExositeCoap.Exosite.System

/-!
# Datagrams that are read without a trap

Validation looks at the first option only, so a datagram that it accepts may lead the library
out of its buffer.  A CoAP message does not, but for one case: the search for an Observe
option that is not there may return the null pointer with an enormous length.
-/

namespace ExositeCoap.Exosite

open Lib Wire Coap

/-- The packet is a message. A search for an Observe option in vain meets a larger option, or
starts or ends without a payload. -/
structure Legible (pdu : CoapPdu) (message : Message) : Prop where
  bytes : pdu.packet = message.encode
  encodable : message.Encodable
  nonzero : ∀ option ∈ message.options, option.num ≠ 0
  observe : message.payload = none ∨ message.options = [] ∨
    ∃ option ∈ message.options, conObserve ≤ option.num

/-- The datagram is turned down by validation or is a message, in a buffer with some room
behind it. -/
structure Orderly (rx : Received) : Prop where
  readable : rx.pdu.Readable
  legible : coapValidatePkt rx.pdu = .ok .ceNone → ∃ message, Legible rx.pdu message

theorem Legible.holds {rx : Received} {message : Message} (legible : Legible rx.pdu message) :
    rx.pdu.Holds message :=
  ⟨legible.bytes, rx.fits, rx.placed.max_le, rx.bounded⟩

/-! ## The packet -/

section Packets

variable {pdu : CoapPdu} {message : Message}

/-- Validation only reads what is readable. -/
theorem coapValidatePkt_returns (readable : pdu.Readable) : (coapValidatePkt pdu).Returns := by
  obtain ⟨front, -⟩ := readable
  have first : ∃ byte, pdu.mem.read 0 = .ok byte := ⟨_, Mem.read_of_lt (by omega)⟩
  obtain ⟨byte, isFirst⟩ := first
  simp only [coapValidatePkt, coapGetVersion, coapGetTkl, isFirst, Exec.ok_bind, Exec.pure_eq_ok]
  split_ifs with long short version token
  · exact Exec.returns_ok _
  · exact Exec.returns_ok _
  · exact Exec.returns_ok _
  · exact Exec.returns_ok _
  · refine Exec.Returns.bind ?_ fun result _ => ?_
    · cases decoded : coapDecodeOption pdu.mem (4 + byte.toNat % 16 + 0)
          (sizeSub pdu.len (4 + byte.toNat % 16)) 0 0 (some (4 + byte.toNat % 16)) with
      | error trap =>
          obtain ⟨unmapped, -⟩ := coapDecodeOption_eq_error decoded
          omega
      | ok result => exact Exec.returns_ok _
    · split
      · exact Exec.returns_ok _
      · exact Exec.returns_ok _
      · split_ifs <;> exact Exec.returns_ok _
      · exact Exec.returns_ok _

/-- A delivered option lies in memory. -/
theorem loadable_of_delivers {mem : Mem} {found : CoapOption} {option : Opt}
    (delivers : Delivers mem found option) : Loadable mem found.val found.len := by
  obtain ⟨pos, isPos, loaded⟩ := delivers.value
  exact (Mem.slice_returns_iff.mp ⟨_, loaded⟩).imp_right fun inside => ⟨pos, isPos, inside⟩

/-- What is found at an index delivers an option of the message. -/
theorem forall₂_delivers {mem : Mem} {found : List CoapOption} {options : List Opt}
    (delivers : List.Forall₂ (Delivers mem) found options) {span : CoapOption}
    (member : span ∈ found) : ∃ option, Delivers mem span option := by
  induction delivers with
  | nil => cases member
  | cons here _ ih =>
      rcases List.mem_cons.mp member with rfl | later
      · exact ⟨_, here⟩
      · exact ih later

section Searches

variable (holds : pdu.Holds message) (encodable : message.Encodable)
  (nonzero : ∀ option ∈ message.options, option.num ≠ 0)

include holds encodable nonzero

/-- What a search returns: an option of the message, nothing, or, if all its options are
smaller, what the iteration ends with. -/
theorem search_cases {num : Nat} (positive : 1 ≤ num) :
    ∃ found, coapGetOptionByNum pdu (searchFuel pdu) num 0 = .ok found ∧
      ((∃ option, Delivers pdu.mem found option) ∨ found = ⟨0, 0, none⟩ ∨
        (found = finalOption pdu message ∧ ∀ option ∈ message.options, option.num < num)) := by
  have enough : message.options.length < searchFuel pdu := by
    have options := length_le_encodeOptions 0 message.options
    have length := holds.len_eq_body
    rw [Message.body_length] at length
    unfold searchFuel
    omega
  by_cases there : 0 < occurrences message num
  · refine ⟨_, holds.search_found encodable nonzero enough (by decide) there, Or.inl ?_⟩
    rw [← occurrences_eq] at there
    rw [searchLinearly, List.getElem?_eq_getElem there, Option.getD_some]
    exact forall₂_delivers (holds.optionsIn_deliver)
      (List.mem_of_mem_filter (List.getElem_mem there))
  · have none : occurrences message num = 0 := Nat.eq_zero_of_not_pos there
    refine ⟨_, holds.search_absent encodable nonzero enough positive (Or.inr none.le),
      Or.inr ?_⟩
    split_ifs with larger
    · exact Or.inl rfl
    · refine Or.inr ⟨rfl, fun option member => ?_⟩
      have other := List.countP_eq_zero.mp none option member
      have upper : ¬ num < option.num := fun above => larger ⟨option, member, above⟩
      simp only [decide_eq_true_eq] at other
      omega

end Searches

end Packets

/-! ## What is read of a datagram -/

section Reads

variable {rx : Received} {message : Message} (legible : Legible rx.pdu message)

include legible

theorem Legible.observes : Observes rx.pdu message :=
  legible.holds.observes legible.encodable legible.nonzero

/-- The payload is the end of the packet. -/
theorem Legible.payload_length {bytes : List UInt8} (text : message.payload = some bytes) :
    4 + message.token.length + (encodeOptions 0 message.options).length + 1 + bytes.length =
      rx.pdu.len := by
  rw [legible.holds.len_eq_body, Message.body_length, text, Message.payloadBytes, List.length_cons]
  omega

/-- A payload that is found is in memory, and shorter than the buffer. -/
theorem Legible.payload : ∃ payload, coapGetPayload rx.pdu = .ok payload ∧
    payload.len < minimumDatagramSize ∧ (payload.len ≠ 0 → ∃ pos bytes,
      payload.val = some pos ∧ rx.pdu.mem.slice pos payload.len = .ok bytes) := by
  obtain ⟨payload, got, delivers⟩ := legible.observes.payload
  refine ⟨payload, got, ?_⟩
  cases text : message.payload with
  | none =>
      rw [text] at delivers
      subst delivers
      exact ⟨by decide, fun present => absurd rfl present⟩
  | some bytes =>
      rw [text] at delivers
      obtain ⟨length, pos, isPos, loaded⟩ := delivers
      refine ⟨?_, fun _ => ⟨pos, bytes, isPos, loaded⟩⟩
      have total := legible.payload_length text
      have fits := rx.fits
      rw [rx.max_eq] at fits
      omega

/-- The options that a subscription looks for can be read. -/
theorem Legible.readsOptions : ReadsOptions rx.pdu := by
  obtain ⟨timeout, maxAge, timeoutCases⟩ := @search_cases _ _ legible.holds legible.encodable
    legible.nonzero conMaxAge (by decide)
  obtain ⟨found, observe, cases⟩ := @search_cases _ _ legible.holds legible.encodable
    legible.nonzero conObserve (by decide)
  refine ⟨⟨found, observe, ?_⟩, timeout, maxAge, fun named _ => ?_⟩
  · obtain ⟨option, delivers⟩ | rfl | ⟨rfl, small⟩ := cases
    · exact loadable_of_delivers delivers
    · exact Or.inl rfl
    · -- the search has come to the end
      obtain none | empty | ⟨option, member, large⟩ := legible.observe
      · rw [finalOption, none]
        exact Or.inl rfl
      · cases text : message.payload with
        | none =>
            rw [finalOption, text]
            exact Or.inl rfl
        | some bytes =>
            have total := legible.payload_length text
            have fits := rx.fits
            have mapped := rx.placed.max_le
            simp only [finalOption, text, if_pos empty]
            exact Or.inr ⟨_, rfl, by omega⟩
      · exact absurd (small option member) (Nat.not_lt.mpr large)
  · obtain ⟨option, delivers⟩ | rfl | ⟨rfl, -⟩ := timeoutCases
    · exact loadable_of_delivers delivers
    · exact absurd rfl named
    · exact absurd (finalOption_num _ _) named

end Reads

/-! ## What is written to a buffer -/

/-- The address of a buffer with at least one byte. -/
def Mapped (heap : Mem) (address size : Nat) : Prop :=
  address ≠ 0 ∧ 1 ≤ size ∧ address + size ≤ heap.length

theorem Legible.storePayload_returns {rx : Received} {message : Message} {heap : Mem} {op : ExoOp}
    (legible : Legible rx.pdu message) (valid : coapValidatePkt rx.pdu = .ok .ceNone)
    (mapped : Mapped heap op.valuePtr op.valueMax) : (storePayload rx.pdu heap op).Returns := by
  obtain ⟨payload, got, -, loads⟩ := legible.payload
  obtain ⟨place, some, room⟩ := mapped
  refine (storePayload_returns_iff valid got).mpr ⟨fun _ => ⟨place, by omega⟩, fun present fits => ?_⟩
  obtain ⟨pos, bytes, isPos, loaded⟩ := loads present
  have inside := Mem.slice_returns_iff.mp ⟨bytes, loaded⟩
  have small := fits.room
  exact ⟨inside.imp_right fun inside => ⟨pos, isPos, inside⟩, by omega⟩

end ExositeCoap.Exosite
