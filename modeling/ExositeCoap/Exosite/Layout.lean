import Mathlib.Data.List.TakeWhile
import ExositeCoap.Exosite.Orderly
import ExositeCoap.Exosite.Room
import ExositeCoap.Exosite.Typing

/-!
# The memory of the user

The library reads strings of the user and writes to buffers of the user, at addresses that
the ops keep.  A `Layout` says which addresses these are.  While the user only names strings
and buffers of the layout, the library leaves the memory as the layout has it.
-/

namespace ExositeCoap.Exosite

open Lib Wire Coap

/-! ## Strings -/

section Strings

variable {heap after : Mem} {address : Nat} {text : List UInt8}

/-- The text up to the first zero is all there is, or has a zero behind it. -/
theorem takeWhile_nonzero (bytes : List UInt8) :
    (bytes.takeWhile fun byte => byte ≠ 0) = bytes ∨
      ∃ rest, bytes = (bytes.takeWhile fun byte => byte ≠ 0) ++ 0 :: rest := by
  induction bytes with
  | nil => exact Or.inl rfl
  | cons byte bytes ih =>
      by_cases zero : byte = 0
      · subst zero
        exact Or.inr ⟨bytes, by simp⟩
      · rw [List.takeWhile_cons_of_pos (by simpa using zero)]
        obtain same | ⟨rest, split⟩ := ih
        · exact Or.inl (congrArg (byte :: ·) same)
        · exact Or.inr ⟨rest, congrArg (byte :: ·) split⟩

/-- A string in memory is its text with a zero behind it. -/
theorem cString_eq_ok : cString heap address = .ok text ↔
    address ≠ 0 ∧ (∀ byte ∈ text, byte ≠ 0) ∧ ∃ rest, heap.drop address = text ++ 0 :: rest := by
  unfold cString
  constructor
  · intro isText
    dsimp only at isText
    split_ifs at isText with null mapped
    cases isText
    refine ⟨null, fun byte member => by simpa using List.mem_takeWhile_imp member, ?_⟩
    refine (takeWhile_nonzero (heap.drop address)).resolve_left fun whole => ?_
    rw [whole, List.length_drop] at mapped
    omega
  · rintro ⟨place, nonzero, rest, split⟩
    have stops : (text ++ 0 :: rest).takeWhile (fun byte : UInt8 => byte ≠ 0) = text := by
      rw [List.takeWhile_append_of_pos (by simpa using nonzero)]
      simp
    have length := congrArg List.length split
    rw [List.length_drop, List.length_append, List.length_cons] at length
    rw [if_neg place, split, stops, if_pos (by omega)]

/-- Bytes with a zero behind them are a string, up to a zero among them. -/
theorem cString_of_slice {bytes : List UInt8} (place : address ≠ 0)
    (loaded : heap.slice address (bytes.length + 1) = .ok (bytes ++ [0])) :
    cString heap address = .ok (bytes.takeWhile fun byte => byte ≠ 0) := by
  have range := Mem.drop_of_slice loaded
  rw [List.append_assoc, List.singleton_append] at range
  generalize heap.drop (address + (bytes.length + 1)) = behind at range
  refine cString_eq_ok.mpr ⟨place, fun byte member => by simpa using List.mem_takeWhile_imp member,
    ?_⟩
  obtain whole | ⟨rest, split⟩ := takeWhile_nonzero bytes
  · rw [whole]
    exact ⟨_, range⟩
  · refine ⟨rest ++ 0 :: behind, range.trans ?_⟩
    conv_lhs => rw [split]
    rw [List.append_assoc, List.cons_append]

/-- A string stays as it is while none of its bytes changes. -/
theorem cString_congr (isText : cString heap address = .ok text)
    (same : ∀ place : Nat, address ≤ place → place ≤ address + text.length →
      after[place]? = heap[place]?) : cString after address = .ok text := by
  obtain ⟨place, nonzero, rest, split⟩ := cString_eq_ok.mp isText
  refine cString_eq_ok.mpr ⟨place, nonzero, after.drop (address + (text.length + 1)), ?_⟩
  have front : (after.drop address).take (text.length + 1) = text ++ [0] := by
    have old : (heap.drop address).take (text.length + 1) = text ++ [0] := by
      rw [split, List.take_append, List.take_of_length_le (Nat.le_succ _)]
      simp
    rw [← old]
    apply List.ext_getElem?
    intro index
    simp only [List.getElem?_take, List.getElem?_drop]
    split_ifs with inside
    · exact same _ (Nat.le_add_right _ _) (by omega)
    · rfl
  have whole := List.take_append_drop (text.length + 1) (after.drop address)
  rw [front, List.drop_drop, List.append_assoc, List.singleton_append] at whole
  exact whole.symm

end Strings

/-! ## Layouts -/

/-- Where the strings and the buffers of the user lie; a buffer has a size. -/
structure Layout where
  strings : Nat → Prop
  buffers : Nat → Nat → Prop

namespace Layout

/-- The address is that of a byte in a buffer. -/
def Writable (layout : Layout) (address : Nat) : Prop :=
  ∃ start size, layout.buffers start size ∧ start ≤ address ∧ address < start + size

/-- Strings are terminated, buffers are mapped and not empty, and no byte belongs to both. -/
structure Fits (layout : Layout) (heap : Mem) : Prop where
  terminated : ∀ address, layout.strings address → ∃ text, cString heap address = .ok text ∧
    ∀ place, address ≤ place → place ≤ address + text.length → ¬ layout.Writable place
  mapped : ∀ start size, layout.buffers start size → Mapped heap start size

/-- What the op points to is in the layout. -/
structure Covers (layout : Layout) (op : ExoOp) : Prop where
  resource : op.type = .read ∨ op.type = .write ∨ op.type = .subscribe →
    layout.strings op.aliasPtr
  value : op.type = .write → layout.strings op.valuePtr
  buffer : op.type = .read ∨ op.type = .subscribe → layout.buffers op.valuePtr op.valueMax

section Preservation

variable {layout : Layout} {heap after : Mem}

/-- Writing to buffers leaves the strings. -/
theorem Fits.of_writes (fits : layout.Fits heap) (length : after.length = heap.length)
    (same : ∀ address, ¬ layout.Writable address → after[address]? = heap[address]?) :
    layout.Fits after := by
  refine ⟨fun address isString => ?_, fun start size isBuffer => ?_⟩
  · obtain ⟨text, isText, apart⟩ := fits.terminated address isString
    exact ⟨text, cString_congr isText fun place lower upper => same place (apart place lower upper),
      apart⟩
  · rw [Mapped, length]
    exact fits.mapped start size isBuffer

end Preservation

/-! ### Ops -/

section Ops

variable {layout : Layout} {slot : Nat} {op next : ExoOp}

theorem covers_exoOpInit (layout : Layout) : layout.Covers exoOpInit := by
  constructor <;> simp [exoOpInit]

theorem covers_exoActivate (layout : Layout) (op : ExoOp) : layout.Covers (exoActivate op) := by
  constructor <;> simp [exoActivate, ExoOp.queue]

theorem Covers.exoOpDone (covers : layout.Covers op) : layout.Covers (exoOpDone op) := by
  unfold Exosite.exoOpDone
  split_ifs
  · exact ⟨covers.resource, covers.value, covers.buffer⟩
  · exact covers_exoOpInit layout

/-- The library makes ops point nowhere else. -/
theorem Covers.change (covers : layout.Covers op) (change : OpChange slot op next) :
    layout.Covers next := by
  cases change with
  | released => exact covers_exoOpInit layout
  | activated => exact covers_exoActivate layout op
  | untyped => constructor <;> simp
  | _ => exact ⟨covers.resource, covers.value, covers.buffer⟩

end Ops

end Layout

/-! ## Steps of the library -/

section Steps

variable {sys after : Sys}

theorem storePayload_length {pdu : CoapPdu} {heap after : Mem} {op : ExoOp}
    (store : storePayload pdu heap op = .ok (.empty after) ∨
      storePayload pdu heap op = .ok (.stored after)) : after.length = heap.length := by
  have kept {before next : Mem} {address : Nat} {bytes : List UInt8}
      (stored : userStore before address bytes = .ok next) : next.length = before.length := by
    unfold userStore at stored
    split_ifs at stored
    exact Mem.store_length stored
  rcases store with empty | stored
  · obtain ⟨-, -, -, terminated⟩ := storePayload_empty empty
    exact kept terminated
  · obtain ⟨payload, pos, bytes, middle, -, -, -, -, copied, terminated⟩ :=
      storePayload_stored stored
    exact (kept terminated).trans (kept copied)

/-- The static pointers, and the size of the memory. -/
structure SameStatics (sys after : Sys) : Prop where
  vendor : after.vendor = sys.vendor
  model : after.model = sys.model
  serial : after.serial = sys.serial
  length : after.heap.length = sys.heap.length

theorem LibStep.statics (step : LibStep sys after) : SameStatics sys after := by
  have same : SameStatics sys sys := ⟨rfl, rfl, rfl, rfl⟩
  cases step with
  | react _ _ reaction =>
      cases reaction with
      | emptied _ store => exact ⟨rfl, rfl, rfl, storePayload_length (Or.inl store)⟩
      | notified _ _ _ store => exact ⟨rfl, rfl, rfl, storePayload_length (Or.inr store)⟩
      | delivered _ _ store => exact ⟨rfl, rfl, rfl, storePayload_length (Or.inr store)⟩
      | ignored => exact same
      | _ => exact ⟨rfl, rfl, rfl, rfl⟩
  | slot _ step =>
      cases step with
      | idle => exact same
      | _ => exact ⟨rfl, rfl, rfl, rfl⟩
  | _ => exact ⟨rfl, rfl, rfl, rfl⟩

/-- The system keeps to the layout: its ops and its static pointers are covered, and the
memory is as the layout has it. -/
structure Laid (layout : Layout) (sys : Sys) : Prop where
  typed : AllTyped sys
  covers : ∀ op ∈ sys.ops, layout.Covers op
  statics : sys.deviceState ≠ .uninitialized →
    layout.strings sys.vendor ∧ layout.strings sys.model ∧ layout.strings sys.serial
  fits : layout.Fits sys.heap

variable {layout : Layout}

/-- An op that receives has a buffer of the layout. -/
theorem Laid.inValue (laid : Laid layout sys) {slot : Nat} {op : ExoOp}
    (atSlot : sys.ops[slot]? = some op) (receives : Receives op) {pdu : CoapPdu} {address : Nat}
    (touches : Touches pdu op address) :
    layout.buffers op.valuePtr op.valueMax ∧ InValue op address := by
  have buffer : layout.buffers op.valuePtr op.valueMax := by
    refine (laid.covers op (List.mem_of_getElem? atSlot)).buffer ?_
    rcases receives with state | ⟨-, type⟩
    · exact Or.inr ((laid.typed atSlot).subscribed (by simp [state]))
    · exact type
  obtain ⟨place, some, -⟩ := laid.fits.mapped _ _ buffer
  exact ⟨buffer, touches.inValue place some⟩

/-- No datagram strays. -/
theorem Laid.not_strays {arrival : Arrival} (laid : Laid layout arrival.before) {address : Nat} :
    ¬ arrival.Strays address := by
  rintro ⟨slot, op, payload, copies, got, empty, place, outside⟩
  have touches : Touches arrival.rx.pdu op address := Or.inr ⟨place.symm, payload, got, empty⟩
  exact outside (laid.inValue copies.atSlot copies.copies.receives touches).2

/-- Only buffers of the layout are written. -/
theorem LibStep.outside (step : LibStep sys after) (laid : Laid layout sys) {address : Nat}
    (outside : ¬ layout.Writable address) : after.heap[address]? = sys.heap[address]? := by
  cases step with
  | react atSlot _ reaction =>
      obtain same | ⟨receives, touches⟩ := reaction.heap address
      · exact same
      · obtain ⟨buffer, inside⟩ := laid.inValue atSlot receives touches
        exact absurd ⟨_, _, buffer, inside.2⟩ outside
  | slot _ step => cases step <;> rfl
  | _ => rfl

theorem LibStep.laid (step : LibStep sys after) (on : sys.deviceState ≠ .uninitialized)
    (laid : Laid layout sys) : Laid layout after := by
  have statics := step.statics
  refine ⟨step.allTyped laid.typed, fun next member => ?_, fun _ => ?_,
    laid.fits.of_writes statics.length fun address => step.outside laid⟩
  · obtain ⟨slot, inRange, isNext⟩ := List.getElem_of_mem member
    obtain ⟨op, atSlot, rfl | change⟩ :=
      step.op_origin (List.getElem?_eq_some_iff.mpr ⟨inRange, isNext⟩)
    · exact laid.covers _ (List.mem_of_getElem? atSlot)
    · exact (laid.covers op (List.mem_of_getElem? atSlot)).change change
  · rw [statics.vendor, statics.model, statics.serial]
    exact laid.statics on

/-- Steps of the library keep the layout, and the memory outside its buffers. -/
theorem LibSteps.laid (steps : LibSteps sys after) (on : sys.deviceState ≠ .uninitialized)
    (laid : Laid layout sys) : Laid layout after ∧
      ∀ address, ¬ layout.Writable address → after.heap[address]? = sys.heap[address]? := by
  induction steps with
  | refl => exact ⟨laid, fun _ _ => rfl⟩
  | tail steps step ih =>
      obtain ⟨before, same⟩ := ih
      refine ⟨step.laid (LibSteps.deviceState steps on) before, fun address outside => ?_⟩
      exact (step.outside before outside).trans (same address outside)

end Steps

end ExositeCoap.Exosite
