import ExositeCoap.Exosite.Copying
import ExositeCoap.Exosite.OpChange
import ExositeCoap.Exosite.Response

/-!
# Where delivered values come from

Only the payload of a packet is ever copied into the buffer of an op.  A payload that
`coap_get_payload` finds behind the packet has a length that no buffer has room for, so
the test in front of the copy turns it down.
-/

namespace ExositeCoap.Exosite

open Lib Wire Coap

/-- Bytes that are delivered: the payload of the packet, for which the buffer of the op
has room. -/
structure Genuine (pdu : CoapPdu) (op : ExoOp) (bytes : List UInt8) : Prop where
  has : HasPayload pdu bytes
  nonempty : 1 ≤ bytes.length
  room : bytes.length + 1 ≤ op.valueMax

section Copies

variable {rx : Received} {op : ExoOp} (valid : coapValidatePkt rx.pdu = .ok .ceNone)
  (small : op.valueMax ≤ 2 ^ 63)

include valid small

/-- What passes the length test is the payload of the packet. -/
theorem genuine_of_room {payload : CoapPayload} (got : coapGetPayload rx.pdu = .ok payload)
    (nonempty : payload.len ≠ 0) (room : (payload.len + 1) % 2 ^ 64 ≤ op.valueMax) :
    ∃ bytes, Genuine rx.pdu op bytes ∧
      payload = ⟨bytes.length, some (rx.pdu.len - bytes.length)⟩ := by
  have kinds := Received.gotPayload valid got
  rw [Nat.mod_eq_of_lt (kinds.len_lt rx.fits rx.placed rx.bounded)] at room
  cases kinds with
  | none => exact absurd rfl nonempty
  | found has => exact ⟨_, ⟨has, Nat.one_le_iff_ne_zero.mpr nonempty, room⟩, rfl⟩
  | behind wrapped =>
      dsimp only at room
      omega

theorem storePayload_genuine {heap after : Mem}
    (store : storePayload rx.pdu heap op = .ok (.stored after)) :
    ∃ bytes, Genuine rx.pdu op bytes ∧ heap.store op.valuePtr (bytes ++ [0]) = .ok after := by
  obtain ⟨payload, got, nonempty⟩ := storePayload_nonempty store nofun
  obtain ⟨other, pos, copied, middle, isOther, place, room, loaded, first, second⟩ :=
    storePayload_stored store
  rw [got] at isOther
  cases isOther
  obtain ⟨bytes, genuine, rfl⟩ := genuine_of_room valid small got nonempty room
  cases place
  rw [genuine.has.slice rx.fits rx.placed] at loaded
  cases loaded
  rw [userStore, if_neg (userStore_ne_null first)] at first
  rw [userStore, if_neg (userStore_ne_null second)] at second
  exact ⟨copied, genuine, Mem.store_store_right first second⟩

end Copies

/-- A read or a subscription whose value has just arrived. -/
def HasValue (op : ExoOp) : Prop :=
  (op.type = .read ∨ op.type = .subscribe) ∧
    (op.state = .success ∨ op.state = .subAck ∨ op.state = .subAckNew)

/-- The bytes, and a zero, were copied into the buffer of the op, and nothing else was
written. -/
def CopiedTo (op : ExoOp) (bytes : List UInt8) (heap after : Mem) : Prop :=
  heap.store op.valuePtr (bytes ++ [0]) = .ok after

section Reactions

variable {rx : Received} {sys after : Sys} {i : Nat} {op : ExoOp}
  (valid : coapValidatePkt rx.pdu = .ok .ceNone) (small : op.valueMax ≤ 2 ^ 63)

include valid small

/-- A reaction copies the payload of the packet, or only makes the buffer the empty
string, or leaves the memory alone. -/
theorem Reaction.copies (reaction : Reaction rx sys i op after) :
    after.heap = sys.heap ∨ ∃ bytes, (bytes = [] ∨ Genuine rx.pdu op bytes) ∧
      CopiedTo op bytes sys.heap after.heap := by
  have copied : ∀ {heap}, storePayload rx.pdu sys.heap op = .ok (.stored heap) →
      ∃ bytes, (bytes = [] ∨ Genuine rx.pdu op bytes) ∧ CopiedTo op bytes sys.heap heap := by
    intro heap store
    obtain ⟨bytes, genuine, stored⟩ := storePayload_genuine valid small store
    exact ⟨bytes, Or.inr genuine, stored⟩
  cases reaction with
  | emptied _ store =>
      obtain ⟨-, -, -, stored⟩ := storePayload_empty store
      rw [userStore, if_neg (userStore_ne_null stored)] at stored
      exact Or.inr ⟨[], Or.inl rfl, stored⟩
  | notified _ _ _ store => exact Or.inr (copied store)
  | delivered _ _ store => exact Or.inr (copied store)
  | _ => exact Or.inl rfl

/-- An op gets a value only by a copy of the payload into its buffer. -/
theorem Reaction.hasValue (reaction : Reaction rx sys i op after) (atSlot : sys.ops[i]? = some op)
    {slot : Nat} {before next : ExoOp} (isBefore : sys.ops[slot]? = some before)
    (isNext : after.ops[slot]? = some next) (has : HasValue next)
    (moved : next.state ≠ before.state) :
    op = before ∧ ∃ bytes, Genuine rx.pdu op bytes ∧ CopiedTo op bytes sys.heap after.heap := by
  have changed : ∀ {result : Sys} {new : ExoOp}, result.ops = sys.ops →
      (result.setOp i new).ops[slot]? = some next → next = new ∧ op = before := by
    intro result new same found
    rcases of_getElem?_setOp found with ⟨rfl, isNew⟩ | ⟨-, old⟩
    · rw [atSlot] at isBefore
      exact ⟨isNew, Option.some.inj isBefore⟩
    · rw [same, isBefore] at old
      cases old
      exact absurd rfl moved
  have stays : sys.ops[slot]? ≠ some next := by
    intro found
    rw [isBefore] at found
    cases found
    exact moved rfl
  have failed : (sys.setOp i { op with state := .error }).ops[slot]? ≠ some next := by
    intro found
    obtain ⟨rfl, -⟩ := changed rfl found
    simp [HasValue] at has
  have initialised : ∀ {result : Sys}, result.ops = sys.ops →
      (result.setOp i exoOpInit).ops[slot]? ≠ some next := by
    intro result same found
    obtain ⟨rfl, -⟩ := changed same found
    simp [HasValue, exoOpInit] at has
  cases reaction with
  | ignored => exact absurd isNext stays
  | emptied => exact absurd isNext stays
  | denied => exact absurd isNext failed
  | rejected => exact absurd isNext failed
  | refused => exact absurd isNext failed
  | notFound => exact absurd isNext failed
  | reset => exact absurd isNext failed
  | notified _ _ _ store =>
      exact ⟨(changed rfl isNext).2, storePayload_genuine valid small store⟩
  | delivered _ _ store =>
      exact ⟨(changed rfl isNext).2, storePayload_genuine valid small store⟩
  | written _ type =>
      obtain ⟨rfl, -⟩ := changed rfl isNext
      simp [HasValue, type] at has
  | activated => exact absurd isNext (initialised rfl)
  | notActivated => exact absurd isNext (initialised rfl)
  | reactivated =>
      rcases of_getElem?_setOp isNext with ⟨-, rfl⟩ | ⟨-, found⟩
      · simp [HasValue, exoActivate, ExoOp.queue] at has
      · exact absurd found failed

end Reactions

end ExositeCoap.Exosite
