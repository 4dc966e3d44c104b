import ExositeCoap.Exosite.Outcome

/-!
# An acknowledgement twice

The receive buffer is used again, so a second copy of an acknowledgement can have other
bytes behind its packet.  If the walk over its options stays in the packet, its outcome is
the same up to the jitter (`Duplicate.ackOutcome_eq`), and once it has been handled a copy
changes nothing (`Duplicate.untouched`).
-/

namespace ExositeCoap.Exosite

open Lib Wire Coap

/-- The acknowledgement once more: the same packet in the same buffer, but the bytes
behind it, the clock and the random number may differ. -/
structure Duplicate (rx other : Received) : Prop where
  same : SamePacket rx.pdu other.pdu
  wideShift : other.wideShift = rx.wideShift
  isAck : IsAck other

/-- Equal up to the jitter in the timeout of a subscription. -/
structure SameOp (op other : ExoOp) : Prop where
  fields : other = { op with timeout := other.timeout }
  timeout : other.timeout = op.timeout ∨ (op.type = .subscribe ∧ ∃ base rand otherRand : UInt64,
    op.timeout = base + rand % 1500000 ∧ other.timeout = base + otherRand % 1500000)

/-- Neither ops nor buffers, CIK or device state change. -/
structure Untouched (sys after : Sys) : Prop where
  ops : after.ops = sys.ops
  heap : after.heap = sys.heap
  cik : after.cik = sys.cik
  deviceState : after.deviceState = sys.deviceState

/-- Pending ops have different message ids. -/
def DistinctMids (sys : Sys) : Prop :=
  ∀ (i j : Nat) op other, sys.ops[i]? = some op → sys.ops[j]? = some other → op.state = .pending →
    other.state = .pending → op.mid = other.mid → i = j

/-- The walk over the options of a packet whose payload is copied does not leave the
packet. -/
def Confined (rx : Received) (op : ExoOp) : Prop :=
  CopiesInto rx op →
    rx.pdu.tokenEnd ≤ rx.pdu.len ∧ Settled (rx.pdu.packet.drop rx.pdu.tokenEnd)

/-! ## One acknowledgement -/

section One

variable {rx : Received} {sys : Sys} {slot : Nat} {op : ExoOp} {outcome : Outcome}

/-- The ops after an outcome. -/
theorem Outcome.apply_getElem? (later : 1 ≤ slot) (inRange : slot < sys.ops.length)
    (time : UInt64) (heap : Mem) (k : Nat) :
    (outcome.apply time slot sys heap).ops[k]? =
      if k = slot then some outcome.op
      else if k = 0 then sys.ops[k]?.map (outcome.aside.first time) else sys.ops[k]? := by
  rw [Outcome.apply]
  by_cases own : k = slot
  · subst own
    rw [if_pos rfl, List.getElem?_modify_ne _ _ (by omega), List.getElem?_set_self inRange]
  · rw [if_neg own]
    by_cases first : k = 0
    · subst first
      rw [if_pos rfl, List.getElem?_modify_eq, List.getElem?_set_ne (by omega)]
      rfl
    · rw [if_neg first, List.getElem?_modify_ne _ _ (by omega),
        List.getElem?_set_ne (by omega)]

/-- Using slot 0 for activation ends a pending request in it. -/
theorem Aside.first_pending {aside : Aside} {time : UInt64} {first : ExoOp}
    (pending : (aside.first time first).state = .pending) : aside.first time first = first := by
  unfold Aside.first at pending ⊢
  split at pending
  · split_ifs at pending ⊢
    · cases pending
    · rfl
  · rfl

/-- What is pending has been pending before, with the same message id. -/
def PendingFrom (sys after : Sys) : Prop :=
  ∀ (k : Nat) next, after.ops[k]? = some next → next.state = .pending →
    ∃ old, sys.ops[k]? = some old ∧ old.state = .pending ∧ old.mid = next.mid

theorem PendingFrom.trans {middle after : Sys} (before : PendingFrom sys middle)
    (later : PendingFrom middle after) : PendingFrom sys after := by
  intro k next isNext pending
  obtain ⟨old, isOld, oldPending, mid⟩ := later k next isNext pending
  obtain ⟨oldest, isOldest, oldestPending, oldMid⟩ := before k old isOld oldPending
  exact ⟨oldest, isOldest, oldestPending, oldMid.trans mid⟩

theorem PendingFrom.distinct {after : Sys} (pendingFrom : PendingFrom sys after)
    (distinct : DistinctMids sys) : DistinctMids after := by
  intro i j next other isNext isOther nextPending otherPending sameMid
  obtain ⟨old, isOld, oldPending, oldMid⟩ := pendingFrom i next isNext nextPending
  obtain ⟨oldOther, isOldOther, oldOtherPending, oldOtherMid⟩ :=
    pendingFrom j other isOther otherPending
  refine distinct i j old oldOther isOld isOldOther oldPending oldOtherPending ?_
  rw [oldMid, oldOtherMid, sameMid]

/-- The outcome for a pending op makes no other op pending. -/
theorem Outcome.pendingFrom (later : 1 ≤ slot) (atSlot : sys.ops[slot]? = some op)
    (pending : op.state = .pending) (mid : outcome.op.mid = op.mid) (time : UInt64) (heap : Mem) :
    PendingFrom sys (outcome.apply time slot sys heap) := by
  have inRange := (List.getElem?_eq_some_iff.mp atSlot).1
  intro k next isNext isPending
  rw [Outcome.apply_getElem? later inRange] at isNext
  split_ifs at isNext with own first
  · subst own
    cases isNext
    exact ⟨op, atSlot, pending, mid.symm⟩
  · obtain ⟨old, isOld, rfl⟩ := Option.map_eq_some_iff.mp isNext
    have same := Aside.first_pending isPending
    rw [same] at isPending ⊢
    exact ⟨old, isOld, isPending, rfl⟩
  · exact ⟨next, isNext, isPending, rfl⟩

/-- Only one op waits for an acknowledgement. -/
theorem DistinctMids.others (distinct : DistinctMids sys) (atSlot : sys.ops[slot]? = some op)
    (awaited : AwaitedBy rx op) (k : Nat) (other : ExoOp) (different : k ≠ slot)
    (isOther : sys.ops[k]? = some other) : ¬ AwaitedBy rx other := by
  intro awaitedOther
  have mid := awaited.mid
  rw [awaitedOther.mid] at mid
  exact different (distinct k slot other op isOther atSlot awaitedOther.state awaited.state
    (Except.ok.inj mid))

theorem exoProcessWaitingDatagrams_awaited (distinct : DistinctMids sys) (isAck : IsAck rx)
    (atSlot : sys.ops[slot]? = some op) (awaited : AwaitedBy rx op) (isRequest : IsRequest op)
    {rest : List Received} {final : Sys} :
    exoProcessWaitingDatagrams sys (rx :: rest) = .ok final ↔
      ∃ outcome heap, ackOutcome rx op = .ok outcome ∧ outcome.stores sys.heap = .ok heap ∧
        exoProcessWaitingDatagrams
          ((outcome.apply rx.time slot sys heap).record (.handled sys.ops rx.pdu)) rest =
          .ok final := by
  have handled := fun {after goOn} => @exoHandleDatagram_awaited rx sys after slot op isAck awaited
    isRequest atSlot (distinct.others atSlot awaited) goOn
  constructor
  · intro ran
    obtain ⟨⟨goOn, next⟩, one, ran⟩ := Exec.bind_eq_ok.mp ran
    obtain ⟨rfl, outcome, heap, isOutcome, stored, rfl⟩ := handled.mp one
    exact ⟨outcome, heap, isOutcome, stored, ran⟩
  · rintro ⟨outcome, heap, isOutcome, stored, ran⟩
    rw [exoProcessWaitingDatagrams, handled.mpr ⟨rfl, outcome, heap, isOutcome, stored, rfl⟩]
    exact ran

theorem exoProcessWaitingDatagrams_unawaited (isAck : IsAck rx)
    (others : ∀ (k : Nat) other, sys.ops[k]? = some other → ¬ AwaitedBy rx other)
    (rest : List Received) :
    exoProcessWaitingDatagrams sys (rx :: rest) =
      .ok (sys.record (.handled sys.ops rx.pdu)) := by
  rw [exoProcessWaitingDatagrams, exoHandleDatagram_unawaited isAck others]
  rfl

end One

/-! ## One acknowledgement twice -/

section Duplicates

variable {rx other : Received} {op : ExoOp}

theorem IsAck.long (isAck : IsAck rx) : 4 ≤ rx.pdu.len :=
  ((coapValidatePkt_eq_none rx.fits rx.placed).mp isAck.valid).len_ge

theorem SameOp.refl (op : ExoOp) : SameOp op op := ⟨rfl, Or.inl rfl⟩

theorem Duplicate.refl (isAck : IsAck rx) : Duplicate rx rx := ⟨.refl _, rfl, isAck⟩

theorem Duplicate.between {third : Received} (first : Duplicate rx other)
    (second : Duplicate rx third) : Duplicate other third :=
  ⟨first.same.symm.trans second.same, second.wideShift.trans first.wideShift.symm, second.isAck⟩

theorem Duplicate.awaitedBy (copy : Duplicate rx other) (isAck : IsAck rx)
    (awaited : AwaitedBy rx op) : AwaitedBy other op where
  state := awaited.state
  mid := by
    rw [copy.same.coapGetMid_eq isAck.long]
    exact awaited.mid

theorem Duplicate.copiesInto (copy : Duplicate rx other) (isAck : IsAck rx)
    (copies : CopiesInto other op) : CopiesInto rx op := by
  obtain ⟨awaited, success, asks⟩ := copy.isAck.copiesInto_iff.mp copies
  have mid := awaited.mid
  rw [copy.same.coapGetMid_eq isAck.long] at mid
  rw [copy.same.coapGetCodeClass_eq isAck.long] at success
  exact isAck.copiesInto_iff.mpr ⟨⟨awaited.state, mid⟩, success, asks⟩

theorem Duplicate.confined (copy : Duplicate rx other) (isAck : IsAck rx)
    (confined : Confined rx op) : Confined other op := by
  intro copies
  rw [copy.same.packet, copy.same.len, copy.same.tokenEnd isAck.long]
  exact confined (copy.copiesInto isAck copies)

/-- What is delivered does not depend on the bytes behind a settled packet. -/
theorem delivery_samePacket (same : SamePacket rx.pdu other.pdu) (isAck : IsAck rx)
    (settled : rx.pdu.tokenEnd ≤ rx.pdu.len ∧ Settled (rx.pdu.packet.drop rx.pdu.tokenEnd)) :
    delivery other.pdu op = delivery rx.pdu op := by
  obtain ⟨payload, inside⟩ :=
    coapGetPayload_samePacket rx.fits rx.placed same isAck.long settled
  rw [delivery, delivery, payload]
  cases got : coapGetPayload rx.pdu with
  | error trap => rfl
  | ok payload =>
      rw [Exec.ok_bind, Exec.ok_bind]
      cases place : payload.val with
      | none => rfl
      | some pos =>
          dsimp only
          rw [same.slice (inside payload pos got place)]

/-- The Max-Age that a subscription takes from the option. -/
def maxAgeOf (pdu : CoapPdu) (option : CoapOption) : Exec UInt8 :=
  if option.num ≠ 0 ∧ option.len = 1 then
    match option.val with
    | none => throw .fault
    | some pos => pdu.mem.read pos
  else pure 120

theorem subscriptionTimeout_eq (rx : Received) :
    subscriptionTimeout rx = (do
      let option ← coapGetOptionByNum rx.pdu (searchFuel rx.pdu) conMaxAge 0
      let maxAge ← maxAgeOf rx.pdu option
      return rx.time + maxAge.toUInt64 * 1000000 + rx.rand % 1500000) := by
  refine congrArg _ (funext fun option => ?_)
  unfold maxAgeOf
  split_ifs
  · cases option.val <;> rfl
  · rfl

theorem Duplicate.observeLoop_eq (copy : Duplicate rx other) {val : Ptr} {left j : Nat}
    (inside : ∀ pos, val = some pos → pos + j + left ≤ rx.pdu.len) (seq : UInt32) :
    observeLoop other val left j seq = observeLoop rx val left j seq := by
  induction left generalizing j seq with
  | zero => rfl
  | succ left ih =>
      cases val with
      | none => rfl
      | some pos =>
          have bound := inside pos rfl
          simp only [observeLoop, copy.same.read (show pos + j < rx.pdu.len by omega),
            copy.wideShift]
          refine congrArg _ (funext fun byte => ih ?_ _)
          rintro place ⟨⟩
          omega

section HasPayload

variable (copy : Duplicate rx other) (isAck : IsAck rx) {bytes : List UInt8}
  (has : HasPayload rx.pdu bytes)

include copy isAck has

/-- The search for an option of a packet with payload finds the same in both copies. -/
theorem Duplicate.optionByNum {num : Nat} (named : num ≠ 0) :
    coapGetOptionByNum other.pdu (searchFuel other.pdu) num 0 =
        coapGetOptionByNum rx.pdu (searchFuel rx.pdu) num 0 ∧
      ∀ option, coapGetOptionByNum rx.pdu (searchFuel rx.pdu) num 0 = .ok option →
        option.Inside rx.pdu.len := by
  have fuel : searchFuel other.pdu = searchFuel rx.pdu := by
    rw [searchFuel, searchFuel, copy.same.len]
  rw [fuel]
  exact has.coapGetOptionByNum_samePacket rx.fits rx.placed copy.same isAck.long named _ 0

theorem Duplicate.timeout (sameTime : other.time = rx.time) {timeout : UInt64}
    (ran : subscriptionTimeout rx = .ok timeout) :
    ∃ base, timeout = base + rx.rand % 1500000 ∧
      subscriptionTimeout other = .ok (base + other.rand % 1500000) := by
  obtain ⟨sameOption, inside⟩ := copy.optionByNum isAck has (show conMaxAge ≠ 0 by decide)
  rw [subscriptionTimeout_eq] at ran ⊢
  obtain ⟨option, isOption, ran⟩ := Exec.bind_eq_ok.mp ran
  obtain ⟨maxAge, isMaxAge, ran⟩ := Exec.bind_eq_ok.mp ran
  cases ran
  refine ⟨rx.time + maxAge.toUInt64 * 1000000, rfl, ?_⟩
  have sameMaxAge : maxAgeOf other.pdu option = maxAgeOf rx.pdu option := by
    unfold maxAgeOf
    split_ifs with found
    · cases place : option.val with
      | none => rfl
      | some pos =>
          have bound := inside option isOption pos place
          exact copy.same.read (by omega)
    · rfl
  rw [sameOption, isOption, Exec.ok_bind, sameMaxAge, isMaxAge, sameTime]
  rfl

theorem Duplicate.observeSeq_eq (seq : UInt32) : observeSeq other seq = observeSeq rx seq := by
  obtain ⟨sameOption, inside⟩ := copy.optionByNum isAck has (show conObserve ≠ 0 by decide)
  rw [observeSeq, observeSeq, sameOption]
  cases isOption : coapGetOptionByNum rx.pdu (searchFuel rx.pdu) conObserve 0 with
  | error trap => rfl
  | ok option =>
      exact copy.observeLoop_eq
        (fun pos place => by simpa using inside option isOption pos place) seq

/-- The op is the same in both copies, up to the jitter. -/
theorem Duplicate.exoDelivered (sameTime : other.time = rx.time) {next : ExoOp}
    (ran : exoDelivered rx op = .ok next) :
    ∃ otherNext, exoDelivered other op = .ok otherNext ∧ SameOp next otherNext := by
  unfold Exosite.exoDelivered at ran ⊢
  split_ifs at ran ⊢ with type
  · obtain ⟨timeout, isTimeout, ran⟩ := Exec.bind_eq_ok.mp ran
    obtain ⟨obsSeq, isSeq, ran⟩ := Exec.bind_eq_ok.mp ran
    cases ran
    obtain ⟨base, rfl, otherTimeout⟩ := copy.timeout isAck has sameTime isTimeout
    rw [otherTimeout, Exec.ok_bind, copy.observeSeq_eq isAck has, isSeq]
    exact ⟨_, rfl, rfl, Or.inr ⟨type, base, _, _, rfl, rfl⟩⟩
  · cases ran
    exact ⟨_, rfl, .refl _⟩

end HasPayload

/-- The acknowledgement asks for a copy of its payload. -/
theorem copiesInto_of_success (isAck : IsAck rx) (awaited : AwaitedBy rx op)
    (isRequest : IsRequest op) (success : coapGetCodeClass rx.pdu = .ok 2)
    (type : op.type ≠ .write) : CopiesInto rx op :=
  .response isAck.type awaited.state awaited.mid success (isRequest.resolve_left type)

/-- The outcome is the same in both copies, up to the jitter. -/
structure SameOutcome (outcome other : Outcome) : Prop where
  op : SameOp outcome.op other.op
  text : other.text = outcome.text
  aside : other.aside = outcome.aside

theorem Duplicate.ackOutcome_eq (copy : Duplicate rx other) (isAck : IsAck rx)
    (awaited : AwaitedBy rx op) (isRequest : IsRequest op) (confined : Confined rx op)
    (sameTime : other.time = rx.time) {outcome : Outcome} (ran : ackOutcome rx op = .ok outcome) :
    ∃ otherOutcome, ackOutcome other op = .ok otherOutcome ∧ SameOutcome outcome otherOutcome := by
  have sameClass := copy.same.coapGetCodeClass_eq isAck.long
  have sameText := fun success type => @delivery_samePacket rx other op copy.same isAck
    (confined (copiesInto_of_success isAck awaited isRequest success type))
  simp only [ackOutcome_iff] at ran ⊢
  cases ran with
  | written success type =>
      rw [← sameClass] at success
      exact ⟨_, .written success type, .refl _, rfl, rfl⟩
  | rejected success type text =>
      rw [← sameText success type] at text
      rw [← sameClass] at success
      exact ⟨_, .rejected success type text, .refl _, rfl, rfl⟩
  | emptied success type text =>
      rw [← sameText success type] at text
      rw [← sameClass] at success
      exact ⟨_, .emptied success type text, .refl _, rfl, rfl⟩
  | delivered success type text nonempty isNext =>
      obtain ⟨empty, -⟩ | ⟨genuine, -⟩ := delivery_genuine isAck.valid text
      · exact absurd empty nonempty
      · obtain ⟨otherNext, isOther, sameOp⟩ :=
          copy.exoDelivered isAck genuine.has sameTime isNext
        rw [← sameText success type] at text
        rw [← sameClass] at success
        exact ⟨_, .delivered success type text nonempty isOther, sameOp, rfl, rfl⟩
  | refused isCode failed =>
      rw [← copy.same.coapGetCode_eq isAck.long] at isCode
      rw [← sameClass] at failed
      exact ⟨_, .refused isCode failed, .refl _, rfl, rfl⟩

/-! ### What an outcome leaves -/

section Outcomes

variable {outcome : Outcome} (ran : ackOutcome rx op = .ok outcome)

include ran

theorem ackOutcome_kept : outcome.op.valuePtr = op.valuePtr ∧ outcome.op.mid = op.mid := by
  cases ackOutcome_iff.mp ran with
  | delivered _ _ _ _ isNext =>
      obtain ⟨obsSeq, timeout, rfl⟩ := exoDelivered_cases isNext
      exact ⟨rfl, rfl⟩
  | _ => exact ⟨rfl, rfl⟩

/-- Only an empty payload leaves the request pending. -/
theorem ackOutcome_pending (pending : outcome.op.state = .pending) :
    outcome = ⟨op, some [], .nothing⟩ ∧ op.type ≠ .write ∧
      coapGetCodeClass rx.pdu = .ok 2 ∧ delivery rx.pdu op = .ok (some []) := by
  cases ackOutcome_iff.mp ran with
  | emptied success type text => exact ⟨rfl, type, success, text⟩
  | delivered _ _ _ _ isNext =>
      obtain ⟨obsSeq, timeout, rfl⟩ := exoDelivered_cases isNext
      cases pending
  | _ => cases pending

/-- What is stored comes from the packet. -/
theorem ackOutcome_text (isAck : IsAck rx) (awaited : AwaitedBy rx op) (isRequest : IsRequest op)
    {bytes : List UInt8} (text : outcome.text = some bytes) :
    CopiesInto rx op ∧
      ((bytes = [] ∧ ∃ payload, coapGetPayload rx.pdu = .ok payload ∧ payload.len = 0) ∨
        (Genuine rx.pdu op bytes ∧ op.valuePtr ≠ 0)) := by
  cases ackOutcome_iff.mp ran with
  | emptied success type isText =>
      cases text
      exact ⟨copiesInto_of_success isAck awaited isRequest success type,
        delivery_genuine isAck.valid isText⟩
  | delivered success type isText =>
      cases text
      exact ⟨copiesInto_of_success isAck awaited isRequest success type,
        delivery_genuine isAck.valid isText⟩
  | _ => cases text

end Outcomes

end Duplicates

/-- A second copy of an acknowledgement that has been handled changes nothing. -/
theorem Duplicate.untouched {sys after : Sys} {slot : Nat} {outcome : Outcome}
    (copy : Duplicate rx other) (isAck : IsAck rx) (awaited : AwaitedBy rx op)
    (isRequest : IsRequest op) (confined : Confined rx op) (distinct : DistinctMids sys)
    (atSlot : sys.ops[slot]? = some op)
    (ran : ackOutcome rx op = .ok outcome) (pendingFrom : PendingFrom sys after)
    (isNext : after.ops[slot]? = some outcome.op)
    (emptied : outcome.text = some [] → userStore after.heap op.valuePtr [0] = .ok after.heap) :
    ∃ final, exoProcessWaitingDatagrams after [other] = .ok final ∧ Untouched after final := by
  have awaitedCopy := copy.awaitedBy isAck awaited
  by_cases pending : outcome.op.state = .pending
  · -- the payload was empty: the zero is stored again
    obtain ⟨rfl, type, success, text⟩ := ackOutcome_pending ran pending
    have settled := confined (copiesInto_of_success isAck awaited isRequest success type)
    rw [← delivery_samePacket copy.same isAck settled] at text
    rw [← copy.same.coapGetCodeClass_eq isAck.long] at success
    have again := ackOutcome_iff.mpr (.emptied success type text)
    refine ⟨_, (exoProcessWaitingDatagrams_awaited (pendingFrom.distinct distinct) copy.isAck isNext
      awaitedCopy isRequest).mpr ⟨_, after.heap, again, emptied rfl, rfl⟩, ?_⟩
    refine ⟨?_, rfl, rfl, rfl⟩
    obtain ⟨inRange, isOp⟩ := List.getElem?_eq_some_iff.mp isNext
    have nothing : Aside.nothing.first other.time = id := rfl
    rw [Sys.record_ops, Outcome.apply, nothing, List.modify_id, ← isOp]
    exact List.set_getElem_self inRange
  · -- no op waits for it any more
    refine ⟨_, exoProcessWaitingDatagrams_unawaited copy.isAck ?_ [], rfl, rfl, rfl, rfl⟩
    intro k next isOther awaitedNext
    obtain ⟨old, isOld, oldPending, oldMid⟩ := pendingFrom k next isOther awaitedNext.state
    have mid := awaitedNext.mid
    rw [awaitedCopy.mid] at mid
    have same := distinct k slot old op isOld atSlot oldPending awaited.state
      (oldMid.trans (Except.ok.inj mid).symm)
    subst same
    rw [isNext] at isOther
    cases isOther
    exact pending awaitedNext.state

end ExositeCoap.Exosite
