import Mathlib.Data.List.Forall2
import ExositeCoap.Exosite.Duplicate
import ExositeCoap.Exosite.Typing

/-!
# Acknowledgements in either order

Two acknowledgements for different requests can be handled in either order, and again,
unless what they do depends on the bytes that an earlier datagram has left in the receive
buffer, or the zero for an empty value goes to a buffer without any byte and hits the
value of the other request (`exoProcessWaitingDatagrams_orderFree_iff`).
-/

namespace ExositeCoap.Exosite

open Lib Wire Coap

/-! ## What is to be the same -/

/-- The same ops, up to the jitter, buffers, CIK and device state. -/
structure SameResult (sys other : Sys) : Prop where
  ops : List.Forall₂ SameOp sys.ops other.ops
  heap : other.heap = sys.heap
  cik : other.cik = sys.cik
  deviceState : other.deviceState = sys.deviceState

/-- Handling the two acknowledgements in either order, at the same time, has a result, and
the same one, and handling one of them again changes nothing. -/
structure OrderFree (sys : Sys) (first second : Received) : Prop where
  swap : ∀ {here there hereAgain thereAgain : Received},
    Duplicate first here → Duplicate second there →
    Duplicate first hereAgain → Duplicate second thereAgain →
    here.time = there.time → hereAgain.time = here.time → thereAgain.time = here.time →
    ∃ after other, exoProcessWaitingDatagrams sys [here, there] = .ok after ∧
      exoProcessWaitingDatagrams sys [thereAgain, hereAgain] = .ok other ∧
        SameResult after other
  again : ∀ {here there copy : Received} {after : Sys},
    Duplicate first here → Duplicate second there →
    (Duplicate first copy ∨ Duplicate second copy) →
    here.time = there.time →
    exoProcessWaitingDatagrams sys [here, there] = .ok after →
    ∃ other, exoProcessWaitingDatagrams after [copy] = .ok other ∧ Untouched after other
  atOnce : ∀ {rx here copy : Received} {after : Sys}, rx = first ∨ rx = second →
    Duplicate rx here → Duplicate rx copy →
    exoProcessWaitingDatagrams sys [here] = .ok after →
    ∃ other, exoProcessWaitingDatagrams after [copy] = .ok other ∧ Untouched after other

/-! ## The two acknowledgements -/

/-- No address is in the value buffers of two ops. -/
def BuffersApart (sys : Sys) : Prop :=
  ∀ (i j : Nat) op other, i ≠ j → sys.ops[i]? = some op → sys.ops[j]? = some other →
    ∀ address, ¬ (InValue op address ∧ InValue other address)

/-- Two acknowledgements that different requests from slot 1 on wait for. -/
structure TwoAcks (sys : Sys) (first second : Received) (i j : Nat) (op other : ExoOp) : Prop where
  reached : ∃ count heap, RunSteps (powerOn count heap) sys
  distinct : DistinctMids sys
  apart : BuffersApart sys
  isAck : IsAck first
  isAckOther : IsAck second
  different : i ≠ j
  later : 1 ≤ i
  laterOther : 1 ≤ j
  atSlot : sys.ops[i]? = some op
  atSlotOther : sys.ops[j]? = some other
  awaited : AwaitedBy first op
  awaitedOther : AwaitedBy second other

/-- The zero for an empty value goes to a buffer without any byte, and hits a byte of the
value that the other request gets. -/
structure Clobbers (rx : Received) (op : ExoOp) (second : Received) (other : ExoOp) : Prop where
  copies : CopiesInto rx op
  empty : ∃ payload, coapGetPayload rx.pdu = .ok payload ∧ payload.len = 0
  noRoom : op.valueMax = 0
  copiesOther : CopiesInto second other
  hits : ∃ bytes index byte, Genuine second.pdu other bytes ∧ other.valuePtr ≠ 0 ∧
    op.valuePtr = other.valuePtr + index ∧ bytes[index]? = some byte ∧ byte ≠ 0

/-- Both acknowledgements can be handled, neither depends on the bytes behind its packet,
and neither spoils the value of the other request. -/
structure Independent (heap : Mem) (first second : Received) (op other : ExoOp) : Prop where
  handles : CanHandle first.pdu heap op
  handlesOther : CanHandle second.pdu heap other
  confined : Confined first op
  confinedOther : Confined second other
  clear : ¬ Clobbers first op second other
  clearOther : ¬ Clobbers second other first op

/-! ## One after the other -/

/-- The system after both outcomes. -/
def bothApplied (sys : Sys) (here there : Received) (i j : Nat) (left right : Outcome)
    (heap final : Mem) : Sys :=
  let middle := (left.apply here.time i sys heap).record (.handled sys.ops here.pdu)
  (right.apply there.time j middle final).record (.handled middle.ops there.pdu)

section Two

variable {sys after : Sys} {first second here there : Received} {i j : Nat} {op other : ExoOp}

theorem TwoAcks.symm (acks : TwoAcks sys first second i j op other) :
    TwoAcks sys second first j i other op :=
  ⟨acks.reached, acks.distinct, acks.apart, acks.isAckOther, acks.isAck, acks.different.symm,
    acks.laterOther, acks.later, acks.atSlotOther, acks.atSlot, acks.awaitedOther, acks.awaited⟩

/-- In a reachable state, what is pending from slot 1 on is a request of the user. -/
theorem TwoAcks.isRequest (acks : TwoAcks sys first second i j op other) : IsRequest op := by
  obtain ⟨count, heap, reached⟩ := acks.reached
  have typed := (allTyped_of_reached reached.sysSteps).1 acks.atSlot
  have state := acks.awaited.state
  cases type : op.type with
  | null =>
      rw [typed.null.mp type] at state
      cases state
  | activate =>
      have first := (typed.activate type).1
      have later := acks.later
      omega
  | write => exact Or.inl type
  | read => exact Or.inr (Or.inl type)
  | subscribe => exact Or.inr (Or.inr type)

/-- The first of the two, which the op waits for. -/
theorem TwoAcks.one_iff (acks : TwoAcks sys first second i j op other)
    (copy : Duplicate first here) {rest : List Received} :
    exoProcessWaitingDatagrams sys (here :: rest) = .ok after ↔
      ∃ outcome heap, ackOutcome here op = .ok outcome ∧ outcome.stores sys.heap = .ok heap ∧
        exoProcessWaitingDatagrams
          ((outcome.apply here.time i sys heap).record (.handled sys.ops here.pdu)) rest =
          .ok after :=
  exoProcessWaitingDatagrams_awaited acks.distinct copy.isAck acks.atSlot
    (copy.awaitedBy acks.isAck acks.awaited) acks.isRequest

/-- The second of the two, after the first. -/
theorem TwoAcks.next_iff (acks : TwoAcks sys first second i j op other)
    (copyOther : Duplicate second there) {left : Outcome} (isLeft : ackOutcome here op = .ok left)
    (heap : Mem) (event : Event) :
    exoProcessWaitingDatagrams ((left.apply here.time i sys heap).record event) [there] =
        .ok after ↔
      ∃ right final, ackOutcome there other = .ok right ∧ right.stores heap = .ok final ∧
        after = (right.apply there.time j ((left.apply here.time i sys heap).record event)
          final).record (.handled (left.apply here.time i sys heap).ops there.pdu) := by
  have inRange := (List.getElem?_eq_some_iff.mp acks.atSlot).1
  have different := acks.different
  have later := acks.laterOther
  have pendingFrom := Outcome.pendingFrom acks.later acks.atSlot acks.awaited.state
    (ackOutcome_kept isLeft).2 here.time heap
  have distinct := pendingFrom.distinct acks.distinct
  have atSlot : (left.apply here.time i sys heap).ops[j]? = some other := by
    rw [Outcome.apply_getElem? acks.later inRange, if_neg (by omega), if_neg (by omega)]
    exact acks.atSlotOther
  have processed := @exoProcessWaitingDatagrams_awaited there
    ((left.apply here.time i sys heap).record event) j other distinct copyOther.isAck atSlot
    (copyOther.awaitedBy acks.isAckOther acks.awaitedOther) acks.symm.isRequest [] after
  rw [processed]
  constructor
  · rintro ⟨right, final, isRight, stored, ran⟩
    cases ran
    exact ⟨right, final, isRight, stored, rfl⟩
  · rintro ⟨right, final, isRight, stored, rfl⟩
    exact ⟨right, final, isRight, stored, rfl⟩

/-- Both, one after the other. -/
theorem TwoAcks.both_iff (acks : TwoAcks sys first second i j op other)
    (copy : Duplicate first here) (copyOther : Duplicate second there) :
    exoProcessWaitingDatagrams sys [here, there] = .ok after ↔
      ∃ left right heap final, ackOutcome here op = .ok left ∧ ackOutcome there other = .ok right ∧
        left.stores sys.heap = .ok heap ∧ right.stores heap = .ok final ∧
          after = bothApplied sys here there i j left right heap final := by
  rw [acks.one_iff copy]
  constructor
  · rintro ⟨left, heap, isLeft, stored, ran⟩
    obtain ⟨right, final, isRight, storedRight, rfl⟩ :=
      (acks.next_iff copyOther isLeft heap _).mp ran
    exact ⟨left, right, heap, final, isLeft, isRight, stored, storedRight, rfl⟩
  · rintro ⟨left, right, heap, final, isLeft, isRight, stored, storedRight, rfl⟩
    exact ⟨left, heap, isLeft, stored,
      (acks.next_iff copyOther isLeft heap _).mpr ⟨right, final, isRight, storedRight, rfl⟩⟩

/-- The ops after both. -/
theorem TwoAcks.both_getElem? (acks : TwoAcks sys first second i j op other)
    (left right : Outcome) (heap final : Mem) (k : Nat) :
    (bothApplied sys here there i j left right heap final).ops[k]? =
      if k = j then some right.op
      else if k = i then some left.op
      else if k = 0 then
        sys.ops[k]?.map (right.aside.first there.time ∘ left.aside.first here.time)
      else sys.ops[k]? := by
  have inRange := (List.getElem?_eq_some_iff.mp acks.atSlot).1
  have inRangeOther := (List.getElem?_eq_some_iff.mp acks.atSlotOther).1
  have size : (left.apply here.time i sys heap).ops.length = sys.ops.length := by
    rw [Outcome.apply, List.length_modify, List.length_set]
  have later := acks.later
  rw [bothApplied, Sys.record_ops,
    Outcome.apply_getElem? acks.laterOther (by rw [Sys.record_ops, size]; exact inRangeOther),
    Sys.record_ops, Outcome.apply_getElem? acks.later inRange]
  split_ifs with second own first
  · rfl
  · omega
  · rw [Option.map_map]
  · rfl
  · rfl

/-- Looking at slot 0 twice at the same time, the order does not matter. -/
theorem Aside.first_comm (left right : Aside) (time : UInt64) :
    left.first time ∘ right.first time = right.first time ∘ left.first time := by
  cases left <;> cases right <;> rfl

theorem Aside.device_comm (left right : Aside) (state : ExoDeviceState) :
    left.device (right.device state) = right.device (left.device state) := by
  cases left <;> cases right <;> rfl

/-- Both outcomes in the other order. -/
theorem TwoAcks.sameResult (acks : TwoAcks sys first second i j op other)
    {left right otherLeft otherRight : Outcome} {hereAgain thereAgain : Received}
    (sameLeft : SameOutcome left otherLeft) (sameRight : SameOutcome right otherRight)
    (time : there.time = here.time) (timeHere : hereAgain.time = here.time)
    (timeThere : thereAgain.time = here.time) (heap otherHeap final : Mem) :
    SameResult (bothApplied sys here there i j left right heap final)
      (bothApplied sys thereAgain hereAgain j i otherRight otherLeft otherHeap final) := by
  have different := acks.different
  have pointwise : ∀ (k : Nat) next otherNext,
      (bothApplied sys here there i j left right heap final).ops[k]? = some next →
      (bothApplied sys thereAgain hereAgain j i otherRight otherLeft otherHeap final).ops[k]? =
        some otherNext → SameOp next otherNext := by
    intro k next otherNext isNext isOther
    rw [acks.both_getElem?] at isNext
    rw [acks.symm.both_getElem?, sameLeft.aside, sameRight.aside, timeHere, timeThere,
      Aside.first_comm, ← time] at isOther
    rw [← time] at isNext
    by_cases atSecond : k = j
    · rw [if_pos atSecond] at isNext
      rw [if_neg (by omega), if_pos atSecond] at isOther
      cases isNext
      cases isOther
      exact sameRight.op
    · by_cases atFirst : k = i
      · rw [if_neg atSecond, if_pos atFirst] at isNext
        rw [if_pos atFirst] at isOther
        cases isNext
        cases isOther
        exact sameLeft.op
      · rw [if_neg atSecond, if_neg atFirst] at isNext
        rw [if_neg atFirst, if_neg atSecond, isNext] at isOther
        cases isOther
        exact .refl _
  refine ⟨?_, rfl, rfl, ?_⟩
  · refine List.forall₂_of_length_eq_of_get ?_ ?_
    · simp only [bothApplied, Outcome.apply, Sys.record_ops, List.length_modify, List.length_set]
    · intro k inRange otherInRange
      exact pointwise k _ _ (List.getElem?_eq_getElem inRange)
        (List.getElem?_eq_getElem otherInRange)
  · change otherLeft.aside.device (otherRight.aside.device sys.deviceState) =
      right.aside.device (left.aside.device sys.deviceState)
    rw [sameLeft.aside, sameRight.aside, Aside.device_comm]

/-! ### The stores of both -/

theorem SameOutcome.stores_eq {outcome otherOutcome : Outcome}
    (same : SameOutcome outcome otherOutcome) (heap : Mem) :
    otherOutcome.stores heap = outcome.stores heap := by
  have place : otherOutcome.op.valuePtr = outcome.op.valuePtr := by
    rw [same.op.fields]
  rw [Outcome.stores, Outcome.stores, same.text, place]

/-- The zero for an empty value does not spoil the value of the other request. -/
theorem zero_of_not_clobbers (copies : CopiesInto first op) (copiesOther : CopiesInto second other)
    (empty : ∃ payload, coapGetPayload first.pdu = .ok payload ∧ payload.len = 0)
    (apart : ∀ address, ¬ (InValue op address ∧ InValue other address))
    (clear : ¬ Clobbers first op second other) {bytes : List UInt8}
    (genuine : Genuine second.pdu other bytes) (notNull : op.valuePtr ≠ 0)
    (place : other.valuePtr ≠ 0) {index : Nat}
    (isIndex : op.valuePtr = other.valuePtr + index) (inside : index < bytes.length + 1) :
    (bytes ++ [0])[index]? = some 0 := by
  have room := genuine.room
  have noRoom : op.valueMax = 0 := by
    by_contra some
    exact apart op.valuePtr ⟨⟨notNull, by omega⟩, place, by omega⟩
  by_cases isByte : index < bytes.length
  · rw [List.getElem?_append_left isByte, List.getElem?_eq_getElem isByte, Option.some.injEq]
    by_contra nonzero
    exact clear ⟨copies, empty, noRoom, copiesOther, bytes, index, _, genuine, place, isIndex,
      List.getElem?_eq_getElem isByte, nonzero⟩
  · have last : index = bytes.length := by omega
    rw [last, List.getElem?_append_right (Nat.le_refl _), Nat.sub_self]
    rfl

theorem TwoAcks.stores_agree (acks : TwoAcks sys first second i j op other)
    (clear : ¬ Clobbers first op second other) (clearOther : ¬ Clobbers second other first op)
    {left right : Outcome} (isLeft : ackOutcome first op = .ok left)
    (isRight : ackOutcome second other = .ok right) {bytes otherBytes : List UInt8}
    (text : left.text = some bytes) (textOther : right.text = some otherBytes)
    (notNull : op.valuePtr ≠ 0) (notNullOther : other.valuePtr ≠ 0) (index : Nat)
    (inside : op.valuePtr ≤ index ∧ index < op.valuePtr + (bytes ++ [0]).length)
    (insideOther : other.valuePtr ≤ index ∧ index < other.valuePtr + (otherBytes ++ [0]).length) :
    (bytes ++ [0])[index - op.valuePtr]? = (otherBytes ++ [0])[index - other.valuePtr]? := by
  rw [List.length_append, List.length_singleton] at inside insideOther
  have apart := acks.apart i j op other acks.different acks.atSlot acks.atSlotOther
  obtain ⟨copies, ⟨rfl, empty⟩ | ⟨genuine, place⟩⟩ :=
    ackOutcome_text isLeft acks.isAck acks.awaited acks.isRequest text
  all_goals obtain ⟨copiesOther, ⟨rfl, emptyOther⟩ | ⟨genuineOther, placeOther⟩⟩ :=
    ackOutcome_text isRight acks.isAckOther acks.awaitedOther acks.symm.isRequest textOther
  · have same : index - op.valuePtr = index - other.valuePtr := by
      simp only [List.length_nil] at inside insideOther
      omega
    rw [same]
  · rw [List.length_nil] at inside
    have zero := zero_of_not_clobbers copies copiesOther empty apart clear genuineOther notNull
      notNullOther (show op.valuePtr = other.valuePtr + (index - other.valuePtr) by omega)
      (by omega)
    rw [zero, show index - op.valuePtr = 0 by omega]
    rfl
  · rw [List.length_nil] at insideOther
    have zero := zero_of_not_clobbers copiesOther copies emptyOther
      (fun address both => apart address both.symm) clearOther genuine notNullOther notNull
      (show other.valuePtr = op.valuePtr + (index - op.valuePtr) by omega) (by omega)
    rw [zero, show index - other.valuePtr = 0 by omega]
    rfl
  · have room := genuine.room
    have roomOther := genuineOther.room
    exact absurd ⟨⟨place, inside.1, by omega⟩, placeOther, insideOther.1, by omega⟩ (apart index)

/-- The stores of both, in the other order. -/
theorem TwoAcks.stores_comm (acks : TwoAcks sys first second i j op other)
    (clear : ¬ Clobbers first op second other) (clearOther : ¬ Clobbers second other first op)
    {left right : Outcome} (isLeft : ackOutcome first op = .ok left)
    (isRight : ackOutcome second other = .ok right) {heap final : Mem}
    (stored : left.stores sys.heap = .ok heap) (storedRight : right.stores heap = .ok final) :
    ∃ otherHeap, right.stores sys.heap = .ok otherHeap ∧ left.stores otherHeap = .ok final := by
  obtain ⟨place, -⟩ := ackOutcome_kept isLeft
  obtain ⟨placeOther, -⟩ := ackOutcome_kept isRight
  have agree := fun {bytes otherBytes} =>
    @TwoAcks.stores_agree _ _ _ _ _ _ _ acks clear clearOther _ _ isLeft isRight bytes otherBytes
  unfold Outcome.stores at stored storedRight ⊢
  rw [place] at stored ⊢
  rw [placeOther] at storedRight ⊢
  cases text : left.text with
  | none =>
      rw [text] at stored
      cases stored
      exact ⟨final, storedRight, rfl⟩
  | some bytes =>
      cases textOther : right.text with
      | none =>
          rw [textOther] at storedRight
          cases storedRight
          rw [text] at stored
          exact ⟨sys.heap, rfl, stored⟩
      | some otherBytes =>
          rw [text] at stored
          rw [textOther] at storedRight
          dsimp only at stored storedRight ⊢
          have notNull := userStore_ne_null stored
          have notNullOther := userStore_ne_null storedRight
          rw [userStore, if_neg notNull] at stored
          rw [userStore, if_neg notNullOther] at storedRight
          simp only [userStore, notNull, notNullOther, if_false]
          exact Mem.store_comm (fun index low high lowOther highOther =>
            agree text textOther notNull notNullOther index ⟨low, high⟩ ⟨lowOther, highOther⟩)
            stored storedRight

/-! ### Enough for any order -/

theorem TwoAcks.copies (acks : TwoAcks sys first second i j op other)
    (copy : Duplicate first here) (copyOther : Duplicate second there) :
    TwoAcks sys here there i j op other :=
  ⟨acks.reached, acks.distinct, acks.apart, copy.isAck, copyOther.isAck, acks.different,
    acks.later, acks.laterOther, acks.atSlot, acks.atSlotOther,
    copy.awaitedBy acks.isAck acks.awaited, copyOther.awaitedBy acks.isAckOther acks.awaitedOther⟩

theorem Clobbers.of_copies (isAck : IsAck first) (isAckOther : IsAck second)
    (confined : Confined first op) (copy : Duplicate first here)
    (copyOther : Duplicate second there) (clobbers : Clobbers here op there other) :
    Clobbers first op second other := by
  have copies := copy.copiesInto isAck clobbers.copies
  obtain ⟨bytes, index, byte, genuine, hits⟩ := clobbers.hits
  have has := copyOther.same.symm.hasPayload copyOther.isAck.long genuine.has
  refine ⟨copies, ?_, clobbers.noRoom, copyOther.copiesInto isAckOther clobbers.copiesOther,
    bytes, index, byte, ⟨has, genuine.nonempty, genuine.room⟩, hits⟩
  rw [← (coapGetPayload_samePacket first.fits first.placed copy.same isAck.long
    (confined copies)).1]
  exact clobbers.empty

/-- What can be handled can be handled whatever stands behind the packet, and at any time. -/
theorem CanHandle.copy {rx copied : Received} {heap : Mem} (handles : CanHandle rx.pdu heap op)
    (isAck : IsAck rx) (awaited : AwaitedBy rx op) (isRequest : IsRequest op)
    (confined : Confined rx op) (copy : Duplicate rx copied) :
    CanHandle copied.pdu heap op := by
  -- the datagram at the time of the copy
  obtain ⟨now, isAckNow, isCopy, same, time⟩ : ∃ now : Received, IsAck now ∧
      Duplicate now copied ∧ now.pdu = rx.pdu ∧ copied.time = now.time :=
    ⟨{ rx with time := copied.time }, ⟨isAck.valid, isAck.type⟩,
      ⟨copy.same, copy.wideShift, copy.isAck⟩, rfl, rfl⟩
  rw [← same] at handles
  obtain ⟨outcome, after, isOutcome, stored⟩ := (ackOutcome_returns_iff isAckNow isRequest).mpr handles
  have awaitedNow : AwaitedBy now op := ⟨awaited.state, same ▸ awaited.mid⟩
  have confinedNow : Confined now op := fun copies => by
    rw [same]
    exact confined (isAck.copiesInto_iff.mpr
      ⟨awaited, same ▸ (isAckNow.copiesInto_iff.mp copies).2.1,
        (isAckNow.copiesInto_iff.mp copies).2.2⟩)
  obtain ⟨otherOutcome, isOther, sameOutcome⟩ :=
    isCopy.ackOutcome_eq isAckNow awaitedNow isRequest confinedNow time isOutcome
  rw [← sameOutcome.stores_eq] at stored
  exact (ackOutcome_returns_iff copy.isAck isRequest).mp ⟨otherOutcome, after, isOther, stored⟩

theorem Independent.copies (independent : Independent sys.heap first second op other)
    (acks : TwoAcks sys first second i j op other)
    (copy : Duplicate first here) (copyOther : Duplicate second there) :
    Independent sys.heap here there op other where
  handles := independent.handles.copy acks.isAck acks.awaited acks.isRequest
    independent.confined copy
  handlesOther := independent.handlesOther.copy acks.isAckOther acks.awaitedOther
    acks.symm.isRequest independent.confinedOther copyOther
  confined := copy.confined acks.isAck independent.confined
  confinedOther := copyOther.confined acks.isAckOther independent.confinedOther
  clear := fun clobbers => independent.clear
    (clobbers.of_copies acks.isAck acks.isAckOther independent.confined copy copyOther)
  clearOther := fun clobbers => independent.clearOther
    (clobbers.of_copies acks.isAckOther acks.isAck independent.confinedOther copyOther copy)

/-- Both have a result. -/
theorem TwoAcks.returns (acks : TwoAcks sys here there i j op other)
    (independent : Independent sys.heap here there op other) :
    ∃ left right heap final, ackOutcome here op = .ok left ∧ ackOutcome there other = .ok right ∧
      left.stores sys.heap = .ok heap ∧ right.stores heap = .ok final := by
  obtain ⟨left, heap, isLeft, stored⟩ :=
    (ackOutcome_returns_iff acks.isAck acks.isRequest).mpr independent.handles
  obtain ⟨right, final, isRight, storedRight⟩ :=
    (ackOutcome_returns_iff acks.isAckOther acks.symm.isRequest).mpr
      (independent.handlesOther.of_length (Outcome.stores_length stored))
  exact ⟨left, right, heap, final, isLeft, isRight, stored, storedRight⟩

theorem TwoAcks.swap (acks : TwoAcks sys here there i j op other)
    (independent : Independent sys.heap here there op other) {hereAgain thereAgain : Received}
    (copy : Duplicate here hereAgain) (copyOther : Duplicate there thereAgain)
    (time : there.time = here.time) (timeHere : hereAgain.time = here.time)
    (timeThere : thereAgain.time = here.time) :
    ∃ after final, exoProcessWaitingDatagrams sys [here, there] = .ok after ∧
      exoProcessWaitingDatagrams sys [thereAgain, hereAgain] = .ok final ∧
        SameResult after final := by
  obtain ⟨left, right, heap, final, isLeft, isRight, stored, storedRight⟩ :=
    acks.returns independent
  obtain ⟨otherHeap, otherStored, otherStoredLeft⟩ := acks.stores_comm independent.clear
    independent.clearOther isLeft isRight stored storedRight
  obtain ⟨otherLeft, isOtherLeft, sameLeft⟩ := copy.ackOutcome_eq acks.isAck acks.awaited
    acks.isRequest independent.confined timeHere isLeft
  obtain ⟨otherRight, isOtherRight, sameRight⟩ := copyOther.ackOutcome_eq acks.isAckOther
    acks.awaitedOther acks.symm.isRequest independent.confinedOther (timeThere.trans time.symm)
    isRight
  rw [← sameLeft.stores_eq] at otherStoredLeft
  rw [← sameRight.stores_eq] at otherStored
  exact ⟨_, _, (acks.both_iff (.refl acks.isAck) (.refl acks.isAckOther)).mpr
      ⟨left, right, heap, final, isLeft, isRight, stored, storedRight, rfl⟩,
    (acks.symm.both_iff copyOther copy).mpr ⟨otherRight, otherLeft, otherHeap, final,
      isOtherRight, isOtherLeft, otherStored, otherStoredLeft, rfl⟩,
    acks.sameResult sameLeft sameRight time timeHere timeThere heap otherHeap final⟩

/-- What an empty value has stored can be stored again. -/
theorem Outcome.stores_again {outcome : Outcome} {heap final : Mem} {rx : Received}
    (ran : ackOutcome rx op = .ok outcome) (stored : outcome.stores heap = .ok final)
    (empty : outcome.text = some []) : userStore final op.valuePtr [0] = .ok final := by
  rw [Outcome.stores, empty, (ackOutcome_kept ran).1] at stored
  dsimp only at stored
  have notNull := userStore_ne_null stored
  rw [userStore, if_neg notNull] at stored ⊢
  exact Mem.store_store_self stored

theorem TwoAcks.again (acks : TwoAcks sys here there i j op other)
    (independent : Independent sys.heap here there op other) {copy : Received}
    (isCopy : Duplicate here copy ∨ Duplicate there copy)
    (ran : exoProcessWaitingDatagrams sys [here, there] = .ok after) :
    ∃ final, exoProcessWaitingDatagrams after [copy] = .ok final ∧ Untouched after final := by
  obtain ⟨left, right, heap, final, isLeft, isRight, stored, storedRight, rfl⟩ :=
    (acks.both_iff (.refl acks.isAck) (.refl acks.isAckOther)).mp ran
  have inRange := (List.getElem?_eq_some_iff.mp acks.atSlot).1
  have different := acks.different
  have laterOther := acks.laterOther
  have before := Outcome.pendingFrom acks.later acks.atSlot acks.awaited.state
    (ackOutcome_kept isLeft).2 here.time heap
  have between : (left.apply here.time i sys heap).ops[j]? = some other := by
    rw [Outcome.apply_getElem? acks.later inRange, if_neg (by omega), if_neg (by omega)]
    exact acks.atSlotOther
  have next := @Outcome.pendingFrom
    ((left.apply here.time i sys heap).record (.handled sys.ops here.pdu)) j other right
    acks.laterOther between acks.awaitedOther.state (ackOutcome_kept isRight).2 there.time final
  have pendingFrom : PendingFrom sys (bothApplied sys here there i j left right heap final) :=
    before.trans next
  rcases isCopy with isCopy | isCopy
  · obtain ⟨otherHeap, -, storedLeft⟩ := acks.stores_comm independent.clear
      independent.clearOther isLeft isRight stored storedRight
    refine isCopy.untouched acks.isAck acks.awaited acks.isRequest independent.confined
      acks.distinct acks.atSlot isLeft pendingFrom ?_ (Outcome.stores_again isLeft storedLeft)
    rw [acks.both_getElem?, if_neg different, if_pos rfl]
  · refine isCopy.untouched acks.isAckOther acks.awaitedOther acks.symm.isRequest
      independent.confinedOther acks.distinct acks.atSlotOther isRight pendingFrom ?_
      (Outcome.stores_again isRight storedRight)
    rw [acks.both_getElem?, if_pos rfl]

theorem TwoAcks.atOnce (acks : TwoAcks sys here there i j op other) (confined : Confined here op)
    {copy : Received} (isCopy : Duplicate here copy)
    (ran : exoProcessWaitingDatagrams sys [here] = .ok after) :
    ∃ final, exoProcessWaitingDatagrams after [copy] = .ok final ∧ Untouched after final := by
  obtain ⟨left, heap, isLeft, stored, ran⟩ := (acks.one_iff (.refl acks.isAck)).mp ran
  cases ran
  have inRange := (List.getElem?_eq_some_iff.mp acks.atSlot).1
  have pendingFrom := Outcome.pendingFrom acks.later acks.atSlot acks.awaited.state
    (ackOutcome_kept isLeft).2 here.time heap
  refine isCopy.untouched acks.isAck acks.awaited acks.isRequest confined acks.distinct
    acks.atSlot isLeft pendingFrom ?_ (Outcome.stores_again isLeft stored)
  rw [Sys.record_ops, Outcome.apply_getElem? acks.later inRange, if_pos rfl]

theorem TwoAcks.orderFree (acks : TwoAcks sys first second i j op other)
    (independent : Independent sys.heap first second op other) :
    OrderFree sys first second where
  swap := by
    intro here there hereAgain thereAgain copy copyOther again againOther time timeHere timeThere
    exact (acks.copies copy copyOther).swap (independent.copies acks copy copyOther)
      (copy.between again) (copyOther.between againOther) time.symm timeHere timeThere
  again := by
    intro here there copy after isHere isThere isCopy _ ran
    exact (acks.copies isHere isThere).again (independent.copies acks isHere isThere)
      (isCopy.imp isHere.between isThere.between) ran
  atOnce := by
    rintro rx here copy after (rfl | rfl) isHere isCopy ran
    · exact (acks.copies isHere (.refl acks.isAckOther)).atOnce
        (isHere.confined acks.isAck independent.confined) (isHere.between isCopy) ran
    · exact (acks.symm.copies isHere (.refl acks.isAck)).atOnce
        (isHere.confined acks.isAckOther independent.confinedOther) (isHere.between isCopy) ran

/-! ### Nothing less -/

/-- The datagram with other bytes behind the packet. -/
def Received.over (rx : Received) (pdu : CoapPdu) (same : SamePacket rx.pdu pdu) : Received :=
  { rx with
    pdu
    max_eq := same.max.trans rx.max_eq
    mapped := by
      rw [same.mapped]
      exact rx.mapped
    bounded := by
      rw [same.mapped]
      exact rx.bounded
    fits := by
      rw [same.len, same.max]
      exact rx.fits
    placed := same.placed rx.placed }

/-- If the walk over the options leaves the packet, other bytes behind it change whether
the request stays pending. -/
theorem exists_other_outcome {rx : Received} {outcome : Outcome} (isAck : IsAck rx)
    (copies : CopiesInto rx op) (ran : ackOutcome rx op = .ok outcome)
    (unsettled : ¬ (rx.pdu.tokenEnd ≤ rx.pdu.len ∧
      Settled (rx.pdu.packet.drop rx.pdu.tokenEnd))) :
    ∃ copy, Duplicate rx copy ∧ copy.time = rx.time ∧ ∀ otherOutcome,
      ackOutcome copy op = .ok otherOutcome → otherOutcome.op.state ≠ outcome.op.state := by
  obtain ⟨payload, got, pending⟩ := ackOutcome_pending_iff isAck copies ran
  have passes := (coapValidatePkt_eq_none rx.fits rx.placed).mp isAck.valid
  have roomy : rx.pdu.tokenEnd + 1 < rx.pdu.mem.length := by
    have mapped := rx.mapped
    unfold minimumDatagramSize at mapped
    have short := passes.tkl_le
    rw [CoapPdu.tokenEnd]
    omega
  -- a copy in which a payload is found or not, contrary to the datagram itself
  obtain ⟨pdu, otherPayload, same, otherPasses, otherGot, flips⟩ :
      ∃ pdu otherPayload, SamePacket rx.pdu pdu ∧ pdu.PassesChecks ∧
        coapGetPayload pdu = .ok otherPayload ∧ (otherPayload.len = 0 ↔ payload.len ≠ 0) := by
    obtain ⟨⟨pdu, otherPayload, same, otherPasses, otherGot, some⟩,
      emptyPdu, sameEmpty, emptyPasses, emptyGot⟩ :=
      passes.openPayload rx.fits rx.placed rx.bounded roomy unsettled got
    by_cases empty : payload.len = 0
    · exact ⟨pdu, otherPayload, same, otherPasses, otherGot, by simp [empty, some]⟩
    · exact ⟨emptyPdu, ⟨0, none⟩, sameEmpty, emptyPasses, emptyGot, by simp [empty]⟩
  have isAckCopy : IsAck (rx.over pdu same) := by
    refine ⟨(coapValidatePkt_eq_none (rx.over pdu same).fits (rx.over pdu same).placed).mpr
      otherPasses, ?_⟩
    exact (same.coapGetType_eq isAck.long).trans isAck.type
  refine ⟨rx.over pdu same, ⟨same, rfl, isAckCopy⟩, rfl, ?_⟩
  intro otherOutcome otherRan equal
  have back : Duplicate (rx.over pdu same) rx := ⟨same.symm, rfl, isAck⟩
  obtain ⟨third, thirdGot, otherPending⟩ :=
    ackOutcome_pending_iff isAckCopy (back.copiesInto isAckCopy copies) otherRan
  rw [show coapGetPayload (rx.over pdu same).pdu = .ok otherPayload from otherGot] at thirdGot
  cases thirdGot
  rw [equal, pending, flips] at otherPending
  exact iff_not_self otherPending

/-- Two outcomes that can both be the last one do not disagree on a byte. -/
theorem not_clobbers_of_stores {left right : Outcome} {heap otherHeap final : Mem}
    (isAck : IsAck first) (isAckOther : IsAck second) (isLeft : ackOutcome first op = .ok left)
    (isRight : ackOutcome second other = .ok right) (stored : left.stores heap = .ok final)
    (storedOther : right.stores otherHeap = .ok final) : ¬ Clobbers first op second other := by
  intro clobbers
  obtain ⟨payload, got, empty⟩ := clobbers.empty
  obtain ⟨bytes, index, byte, genuine, place, isIndex, isByte, nonzero⟩ := clobbers.hits
  have inside := (List.getElem?_eq_some_iff.mp isByte).1
  have text := (ackOutcome_delivery isAck clobbers.copies isLeft).1
  rw [delivery_of_empty got empty] at text
  have textOther := (ackOutcome_delivery isAckOther clobbers.copiesOther isRight).1
  rw [delivery_of_genuine isAckOther.valid genuine place] at textOther
  rw [Outcome.stores, ← Except.ok.inj text, (ackOutcome_kept isLeft).1] at stored
  rw [Outcome.stores, ← Except.ok.inj textOther, (ackOutcome_kept isRight).1] at storedOther
  dsimp only at stored storedOther
  have notNull := userStore_ne_null stored
  rw [userStore, if_neg notNull] at stored
  rw [userStore, if_neg place] at storedOther
  have zero := Mem.store_getElem? stored op.valuePtr
  have kept := Mem.store_getElem? storedOther op.valuePtr
  rw [if_pos (by simp), Nat.sub_self] at zero
  rw [if_pos (by rw [List.length_append]; omega), isIndex, Nat.add_sub_cancel_left, ← isIndex,
    List.getElem?_append_left inside, isByte, zero] at kept
  exact nonzero (Option.some.inj kept).symm

theorem SameResult.state_eq {otherAfter : Sys} (same : SameResult after otherAfter) (k : Nat)
    {next otherNext : ExoOp} (isNext : after.ops[k]? = some next)
    (isOther : otherAfter.ops[k]? = some otherNext) : otherNext.state = next.state := by
  obtain ⟨inRange, rfl⟩ := List.getElem?_eq_some_iff.mp isNext
  obtain ⟨otherInRange, rfl⟩ := List.getElem?_eq_some_iff.mp isOther
  have sameOp := same.ops.get inRange otherInRange
  have fields := sameOp.fields
  rw [List.get_eq_getElem, List.get_eq_getElem] at fields
  rw [fields]

/-- When the order does not matter, the outcomes of other copies agree with those of the
two, and both orders end with the same memory. -/
theorem TwoAcks.outcomes (acks : TwoAcks sys first second i j op other)
    (free : OrderFree sys first second) (time : first.time = second.time)
    {hereAgain thereAgain : Received} (copy : Duplicate first hereAgain)
    (copyOther : Duplicate second thereAgain) (timeHere : hereAgain.time = first.time)
    (timeThere : thereAgain.time = first.time) :
    ∃ left right otherLeft otherRight heap otherHeap final,
      ackOutcome first op = .ok left ∧ ackOutcome second other = .ok right ∧
      ackOutcome hereAgain op = .ok otherLeft ∧ ackOutcome thereAgain other = .ok otherRight ∧
      otherLeft.op.state = left.op.state ∧ otherRight.op.state = right.op.state ∧
      right.stores heap = .ok final ∧ otherLeft.stores otherHeap = .ok final ∧
      left.stores sys.heap = .ok heap ∧ otherRight.stores sys.heap = .ok otherHeap := by
  obtain ⟨after, otherAfter, ran, otherRan, same⟩ := free.swap (.refl acks.isAck)
    (.refl acks.isAckOther) copy copyOther time timeHere timeThere
  obtain ⟨left, right, heap, final, isLeft, isRight, stored, storedRight, rfl⟩ :=
    (acks.both_iff (.refl acks.isAck) (.refl acks.isAckOther)).mp ran
  obtain ⟨otherRight, otherLeft, otherHeap, otherFinal, isOtherRight, isOtherLeft, otherStored,
    storedLeft, rfl⟩ := (acks.symm.both_iff copyOther copy).mp otherRan
  have sameHeap : otherFinal = final := same.heap
  subst sameHeap
  refine ⟨left, right, otherLeft, otherRight, heap, otherHeap, otherFinal, isLeft, isRight,
    isOtherLeft, isOtherRight, ?_, ?_, storedRight, storedLeft, stored, otherStored⟩
  · refine same.state_eq i ?_ ?_
    · rw [acks.both_getElem?, if_neg acks.different, if_pos rfl]
    · rw [acks.symm.both_getElem?, if_pos rfl]
  · refine same.state_eq j ?_ ?_
    · rw [acks.both_getElem?, if_pos rfl]
    · rw [acks.symm.both_getElem?, if_neg acks.different.symm, if_pos rfl]

/-- The condition is necessary: an acknowledgement that cannot be handled has no result, and
two copies in which the walk ends differently, or the two themselves if one spoils the value
of the other, make the order matter. -/
theorem TwoAcks.independent (acks : TwoAcks sys first second i j op other)
    (free : OrderFree sys first second) (time : first.time = second.time) :
    Independent sys.heap first second op other := by
  have here : Duplicate first first := .refl acks.isAck
  have there : Duplicate second second := .refl acks.isAckOther
  obtain ⟨left, right, otherLeft, otherRight, heap, otherHeap, final, isLeft, isRight, isOther,
    isOtherRight, -, -, storedRight, storedLeft, stored, otherStored⟩ :=
    acks.outcomes free time here there rfl time.symm
  rw [isLeft] at isOther
  cases isOther
  refine ⟨(ackOutcome_returns_iff acks.isAck acks.isRequest).mp ⟨left, heap, isLeft, stored⟩,
    (ackOutcome_returns_iff acks.isAckOther acks.symm.isRequest).mp
      ⟨otherRight, otherHeap, isOtherRight, otherStored⟩, ?_, ?_,
    not_clobbers_of_stores acks.isAck acks.isAckOther isLeft isRight storedLeft storedRight,
    not_clobbers_of_stores acks.isAckOther acks.isAck isRight isLeft storedRight storedLeft⟩
  · intro copies
    by_contra unsettled
    obtain ⟨copy, isCopy, copyTime, differs⟩ :=
      exists_other_outcome acks.isAck copies isLeft unsettled
    obtain ⟨sameLeft, -, changed, -, -, -, -, isSame, -, isChanged, -, state, -⟩ :=
      acks.outcomes free time isCopy there copyTime time.symm
    rw [isLeft] at isSame
    cases isSame
    exact differs changed isChanged state
  · intro copies
    by_contra unsettled
    obtain ⟨copy, isCopy, copyTime, differs⟩ :=
      exists_other_outcome acks.isAckOther copies isRight unsettled
    obtain ⟨-, sameRight, -, changed, -, -, -, -, isSame, -, isChanged, -, state, -⟩ :=
      acks.outcomes free time here isCopy rfl (copyTime.trans time.symm)
    rw [isRight] at isSame
    cases isSame
    exact differs changed isChanged state

end Two

/-- Two acknowledgements can be handled in either order and again exactly when each of them
can be handled, the walks over their options stay in the packets, and neither stores the
zero for an empty value in a buffer without any byte and on a byte of the other value. -/
theorem exoProcessWaitingDatagrams_orderFree_iff {sys : Sys} {first second : Received}
    {i j : Nat} {op other : ExoOp} (acks : TwoAcks sys first second i j op other)
    (time : first.time = second.time) :
    OrderFree sys first second ↔ Independent sys.heap first second op other := by
  constructor
  · intro free
    exact acks.independent free time
  · intro independent
    exact acks.orderFree independent

/-! ## Two reads -/

/-- The user reads into the buffers at addresses 3 and 8, and the requests are sent. -/
def twoReads : List UserCall := [quietInit, .read 1 1 3 5, .read 2 1 8 5, quietOperate []]

def firstRead : ExoOp := { sentRead with valueMax := 5 }

def secondRead : ExoOp := { sentRead with valuePtr := 8, valueMax := 5, mid := 9 }

/-- Two acknowledgements for the two reads. -/
theorem twoAcks_twoReads {sys : Sys} {first second : Received}
    (ran : run (powerOn 3 quietHeap) twoReads = .ok sys)
    (ops : sys.ops = [sentActivation, firstRead, secondRead]) (isAck : IsAck first)
    (isAckOther : IsAck second) (mid : coapGetMid first.pdu = .ok 8)
    (midOther : coapGetMid second.pdu = .ok 9) :
    TwoAcks sys first second 1 2 firstRead secondRead where
  reached := ⟨3, quietHeap, run_runSteps ran⟩
  distinct := by
    intro i j op other isOp isOther _ _ sameMid
    have mids : (sys.ops.map (·.mid)).Nodup := by
      rw [ops]
      decide
    have inRange := (List.getElem?_eq_some_iff.mp isOp).1
    refine (List.getElem?_inj (by rwa [List.length_map]) mids).mp ?_
    rw [List.getElem?_map, List.getElem?_map, isOp, isOther, Option.map_some, Option.map_some,
      sameMid]
  apart := by
    have slots : ∀ {k : Nat} {op : ExoOp}, sys.ops[k]? = some op →
        (k = 0 ∧ op = sentActivation) ∨ (k = 1 ∧ op = firstRead) ∨ (k = 2 ∧ op = secondRead) := by
      intro k op isOp
      rw [ops] at isOp
      match k with
      | 0 => exact Or.inl ⟨rfl, (Option.some.inj isOp).symm⟩
      | 1 => exact Or.inr (Or.inl ⟨rfl, (Option.some.inj isOp).symm⟩)
      | 2 => exact Or.inr (Or.inr ⟨rfl, (Option.some.inj isOp).symm⟩)
      | k + 3 => cases isOp
    intro i j op other different isOp isOther address both
    rcases slots isOp with ⟨rfl, rfl⟩ | ⟨rfl, rfl⟩ | ⟨rfl, rfl⟩
    all_goals rcases slots isOther with ⟨rfl, rfl⟩ | ⟨rfl, rfl⟩ | ⟨rfl, rfl⟩
    all_goals
      simp only [InValue, sentActivation, firstRead, secondRead, sentRead] at both
      omega
  isAck := isAck
  isAckOther := isAckOther
  different := by decide
  later := by decide
  laterOther := by decide
  atSlot := by
    rw [ops]
    rfl
  atSlotOther := by
    rw [ops]
    rfl
  awaited := ⟨rfl, mid⟩
  awaitedOther := ⟨rfl, midOther⟩

/-- The last option of this acknowledgement claims three bytes more than there are. The
buffer holds `byte` where the walk goes on. -/
def cutOff (byte : UInt8) : Received :=
  (arrives [0x60, 0x45, 0, 8, 0x03]).over
    ((arrives [0x60, 0x45, 0, 8, 0x03]).pdu.setByte 8 byte) (.setByte (by decide) byte)

/-- Its last byte is where the walk over the options of the other one goes on. -/
def longer : Received := arrives [0x60, 0x45, 0, 9, 0xFF, 0, 0, 0, 0xFF]

/-- The buffer is used for both acknowledgements. In one order the byte in question comes
from elsewhere, no payload is found and the first read stays pending; in the other order it
is the last byte of the longer acknowledgement, and the first read fails. -/
theorem not_orderFree_cutOff : ∃ sys, run (powerOn 3 quietHeap) twoReads = .ok sys ∧
    TwoAcks sys (cutOff 0xF0) longer 1 2 firstRead secondRead ∧
      ¬ OrderFree sys (cutOff 0xF0) longer := by
  have computed : (run (powerOn 3 quietHeap) twoReads >>= fun sys => do
      let after ← exoProcessWaitingDatagrams sys [cutOff 0xF0, longer]
      let other ← exoProcessWaitingDatagrams sys [longer, cutOff 0xFF]
      return (sys.ops, after.ops[1]?.map (·.state), other.ops[1]?.map (·.state))) =
      .ok ([sentActivation, firstRead, secondRead], some .pending, some .error) := by
    decide +kernel
  obtain ⟨sys, ran, computed⟩ := Exec.bind_eq_ok.mp computed
  obtain ⟨after, processed, computed⟩ := Exec.bind_eq_ok.mp computed
  obtain ⟨other, otherProcessed, values⟩ := Exec.bind_eq_ok.mp computed
  simp only [Exec.pure_eq_ok, Except.ok.injEq, Prod.mk.injEq, Option.map_eq_some_iff] at values
  obtain ⟨ops, ⟨next, isNext, pending⟩, otherNext, isOther, failed⟩ := values
  have isAck : ∀ byte, byte = 0xF0 ∨ byte = 0xFF → IsAck (cutOff byte) := by
    rintro byte (rfl | rfl)
    · exact ⟨by decide +kernel, by decide +kernel⟩
    · exact ⟨by decide +kernel, by decide +kernel⟩
  have isAckOther : IsAck longer := ⟨by decide +kernel, by decide +kernel⟩
  have acks := twoAcks_twoReads ran ops (isAck 0xF0 (Or.inl rfl)) isAckOther (by decide +kernel)
    (by decide +kernel)
  refine ⟨sys, ran, acks, fun free => ?_⟩
  have copy : Duplicate (cutOff 0xF0) (cutOff 0xFF) :=
    ⟨⟨by decide +kernel, by decide +kernel⟩, rfl, isAck 0xFF (Or.inr rfl)⟩
  obtain ⟨first, final, isFirst, isFinal, same⟩ := free.swap (.refl acks.isAck)
    (.refl isAckOther) copy (.refl isAckOther) rfl rfl rfl
  rw [processed] at isFirst
  cases isFirst
  rw [otherProcessed] at isFinal
  cases isFinal
  have state := same.state_eq 1 isNext isOther
  rw [pending, failed] at state
  cases state

/-- Both reads are answered with one byte. -/
theorem exoProcessWaitingDatagrams_orderFree_iff_content : ∃ sys,
    run (powerOn 3 quietHeap) twoReads = .ok sys ∧
      OrderFree sys (arrives [0x60, 0x45, 0, 8, 0xFF, 0x78])
        (arrives [0x60, 0x45, 0, 9, 0xFF, 0x79]) := by
  have computed : (run (powerOn 3 quietHeap) twoReads).map (fun sys => (sys.ops, sys.heap)) =
      .ok ([sentActivation, firstRead, secondRead], quietHeap) := by decide +kernel
  obtain ⟨sys, ran, values⟩ := Exec.map_eq_ok.mp computed
  simp only [Prod.mk.injEq] at values
  obtain ⟨ops, heap⟩ := values
  have acks := @twoAcks_twoReads sys (arrives [0x60, 0x45, 0, 8, 0xFF, 0x78])
    (arrives [0x60, 0x45, 0, 9, 0xFF, 0x79]) ran ops ⟨by decide +kernel, by decide +kernel⟩
    ⟨by decide +kernel, by decide +kernel⟩ (by decide +kernel) (by decide +kernel)
  have got : coapGetPayload (arrives [0x60, 0x45, 0, 8, 0xFF, 0x78]).pdu = .ok ⟨1, some 5⟩ := by
    decide +kernel
  have gotOther : coapGetPayload (arrives [0x60, 0x45, 0, 9, 0xFF, 0x79]).pdu =
      .ok ⟨1, some 5⟩ := by decide +kernel
  refine ⟨sys, ran, (exoProcessWaitingDatagrams_orderFree_iff acks rfl).mpr ?_⟩
  refine ⟨.payload got nofun fun _ _ => ⟨⟨Or.inr ⟨5, rfl, by decide +kernel⟩, ?_⟩, nofun⟩,
    .payload gotOther nofun fun _ _ => ⟨⟨Or.inr ⟨5, rfl, by decide +kernel⟩, ?_⟩, nofun⟩,
    fun _ => ⟨by decide +kernel, @Settled.marker [0x78]⟩,
    fun _ => ⟨by decide +kernel, @Settled.marker [0x79]⟩, ?_, ?_⟩
  · rw [heap]
    decide +kernel
  · rw [heap]
    decide +kernel
  · exact fun clobbers => absurd clobbers.noRoom (by decide)
  · exact fun clobbers => absurd clobbers.noRoom (by decide)

end ExositeCoap.Exosite
