import ExositeCoap.Exosite.Answer
import ExositeCoap.Exosite.Turn

/-!
# Why requests fail

In the slots of the user, an op gets to `EXO_REQUEST_ERROR` in two ways only: a datagram of
the server says so, or does not fit, or a read or write is given up (`run_failed`).  So
silence never ends a subscription.
-/

namespace ExositeCoap.Exosite

open Lib Wire Coap

/-- The payload has no room in the buffer of the op. -/
def Unfit (pdu : CoapPdu) (op : ExoOp) : Prop :=
  ∃ payload, coapGetPayload pdu = .ok payload ∧ payload.len ≠ 0 ∧
    (op.valueMax < (payload.len + 1) % 2 ^ 64 ∨ op.valuePtr = 0)

/-- A valid datagram for the op makes it fail. -/
inductive Arrival.Fails (arrival : Arrival) (op : ExoOp) : Prop where
  /-- a response of another class than 2 -/
  | refused (isAck : IsAck arrival.rx) (awaited : AwaitedBy arrival.rx op)
      (failed : coapGetCodeClass arrival.rx.pdu ≠ .ok 2)
  | unfit (valid : coapValidatePkt arrival.rx.pdu = .ok .ceNone) (takes : Takes arrival.rx op)
      (unfit : Unfit arrival.rx.pdu op)
  | reset (valid : coapValidatePkt arrival.rx.pdu = .ok .ceNone) (takes : Takes arrival.rx op)
      (type : coapGetType arrival.rx.pdu = .ok .rst)
  /-- a notification of another class than 2 -/
  | denied (valid : coapValidatePkt arrival.rx.pdu = .ok .ceNone) (takes : Takes arrival.rx op)
      (state : op.state = .subscribed) (failed : coapGetCodeClass arrival.rx.pdu ≠ .ok 2)

/-- The op in `slot` is what `old` has become by failing, and the user has queued nothing
there since the log was `older`. -/
structure FailedSince (older : List Event) (sys : Sys) (slot : Nat) (op old : ExoOp) : Prop where
  op_eq : op = { old with state := .error }
  unqueued : Unqueued slot older sys.log

/-- The op in `slot` failed by a datagram of the run. -/
def FailedByDatagram (start : Sys) (calls : List UserCall) (sys : Sys) (slot : Nat)
    (op : ExoOp) : Prop :=
  ∃ arrival ∈ arrivals start calls, ∃ old, arrival.before.ops[slot]? = some old ∧
    FailedSince arrival.before.log sys slot op old ∧ arrival.Fails old

/-- The read or write in `slot` was given up in the run. -/
def FailedBySilence (start : Sys) (calls : List UserCall) (sys : Sys) (slot : Nat)
    (op : ExoOp) : Prop :=
  Answerable op ∧ ∃ operation ∈ operations start calls, ∃ turn old,
    turn.ops[slot]? = some old ∧ FailedSince turn.log sys slot op old ∧
      GivesUp slot operation turn

/-- Every op of the user that has failed has failed in one of these ways. -/
def Accounted (start : Sys) (calls : List UserCall) (sys : Sys) : Prop :=
  ∀ slot op, 1 ≤ slot → sys.ops[slot]? = some op → op.state = .error →
    FailedByDatagram start calls sys slot op ∨ FailedBySilence start calls sys slot op

section Accounts

variable {start sys after : Sys} {calls : List UserCall} {slot : Nat} {op next : ExoOp}

theorem FailedSince.mono {older : List Event} {old : ExoOp}
    (failed : FailedSince older sys slot op old) (kept : Unqueued slot sys.log after.log) :
    FailedSince older after slot op old :=
  ⟨failed.op_eq, failed.unqueued.trans kept⟩

theorem FailedByDatagram.mono (failed : FailedByDatagram start calls sys slot op)
    (kept : Unqueued slot sys.log after.log) : FailedByDatagram start calls after slot op := by
  obtain ⟨arrival, member, old, isOld, since, fails⟩ := failed
  exact ⟨arrival, member, old, isOld, since.mono kept, fails⟩

theorem FailedBySilence.mono (failed : FailedBySilence start calls sys slot op)
    (kept : Unqueued slot sys.log after.log) : FailedBySilence start calls after slot op := by
  obtain ⟨type, operation, member, turn, old, isOld, since, givesUp⟩ := failed
  exact ⟨type, operation, member, turn, old, isOld, since.mono kept, givesUp⟩

/-! ## Datagrams -/

theorem unfit_of_rejected {pdu : CoapPdu} {heap : Mem}
    (store : storePayload pdu heap op = .ok .rejected) : Unfit pdu op := by
  obtain ⟨payload, got, present, tooLong⟩ := storePayload_rejected store
  exact ⟨payload, got, present, tooLong⟩

/-- The op at `i` is the one that a failure is set in. -/
theorem failed_of_setOp {i : Nat} {cause : Prop} (isCause : cause)
    (isNext : (sys.setOp i { op with state := .error }).ops[slot]? = some next) :
    sys.ops[slot]? = some next ∨
      (i = slot ∧ next = { op with state := .error } ∧ cause) := by
  obtain ⟨here, rfl⟩ | ⟨-, kept⟩ := of_getElem?_setOp isNext
  · exact Or.inr ⟨here, rfl, isCause⟩
  · exact Or.inl kept

/-- What makes a subscription fail. -/
theorem exoNotified_failed {rx : Received} {i : Nat}
    (ran : exoNotified rx sys i op = .ok after) (isNext : after.ops[slot]? = some next)
    (error : next.state = .error) :
    sys.ops[slot]? = some next ∨ (i = slot ∧ next = { op with state := .error } ∧
      (Unfit rx.pdu op ∨ coapGetCodeClass rx.pdu ≠ .ok 2)) := by
  obtain ⟨code, -, ran⟩ := Exec.bind_eq_ok.mp ran
  split_ifs at ran with content
  · obtain ⟨newSeq, -, ran⟩ := Exec.bind_eq_ok.mp ran
    obtain ⟨result, store, ran⟩ := Exec.bind_eq_ok.mp ran
    cases result with
    | empty heap =>
        cases ran
        exact Or.inl isNext
    | rejected =>
        cases ran
        exact failed_of_setOp (Or.inl (unfit_of_rejected store)) isNext
    | stored heap =>
        obtain ⟨mid, -, ran⟩ := Exec.bind_eq_ok.mp ran
        obtain ⟨timeout, -, ran⟩ := Exec.bind_eq_ok.mp ran
        split_ifs at ran
        · cases ran
          obtain ⟨-, rfl⟩ | ⟨-, kept⟩ := @of_getElem?_setOp { sys with heap } _ _ _ _ isNext
          · cases error
          · exact Or.inl kept
        · cases ran
          obtain ⟨-, rfl⟩ | ⟨-, kept⟩ := @of_getElem?_setOp { sys with heap } _ _ _ _ isNext
          · cases error
          · exact Or.inl kept
  · obtain ⟨codeClass, isClass, ran⟩ := Exec.bind_eq_ok.mp ran
    split_ifs at ran with other
    · cases ran
      refine failed_of_setOp (Or.inr ?_) isNext
      rw [isClass]
      exact fun same => other (Except.ok.inj same)
    · cases ran
      exact Or.inl isNext

/-- What a reaction to a response makes fail. -/
theorem Reaction.failed {rx : Received} {i : Nat} (reaction : Reaction rx sys i op after)
    (pending : op.state = .pending) (isAck : coapGetType rx.pdu = .ok .ack) (later : 1 ≤ slot)
    (isNext : after.ops[slot]? = some next) (error : next.state = .error) :
    sys.ops[slot]? = some next ∨ (i = slot ∧ next = { op with state := .error } ∧
      (Unfit rx.pdu op ∨ coapGetCodeClass rx.pdu ≠ .ok 2)) := by
  have kept : ∀ {changed : ExoOp}, (sys.setOp i changed).ops[slot]? = some next →
      changed.state ≠ .error → sys.ops[slot]? = some next := by
    intro changed found fine
    obtain ⟨-, rfl⟩ | ⟨-, kept⟩ := of_getElem?_setOp found
    · exact absurd error fine
    · exact kept
  cases reaction with
  | ignored => exact Or.inl isNext
  | emptied => exact Or.inl isNext
  | denied state =>
      rw [pending] at state
      cases state
  | notified state =>
      rw [pending] at state
      cases state
  | reset _ type =>
      rw [isAck] at type
      cases type
  | rejected _ store => exact failed_of_setOp (Or.inl (unfit_of_rejected store)) isNext
  | written => exact Or.inl (kept isNext (by simp))
  | delivered => exact Or.inl (kept isNext (by simp))
  | activated => exact Or.inl (kept isNext (by simp [exoOpInit]))
  | notActivated => exact Or.inl (kept isNext (by simp [exoOpInit]))
  | refused _ refusal => exact failed_of_setOp (Or.inr refusal) isNext
  | reactivated _ refusal =>
      rw [Sys.setOp_ops, List.getElem?_set_ne (by omega)] at isNext
      exact failed_of_setOp (Or.inr refusal) isNext
  | notFound _ refusal => exact failed_of_setOp (Or.inr refusal) isNext

/-- A datagram makes an op fail only for a cause. -/
theorem Arrival.failed {arrival : Arrival} {goOn : Bool}
    (ran : exoHandleDatagram arrival.rx arrival.before = .ok (goOn, after)) (later : 1 ≤ slot)
    (isNext : after.ops[slot]? = some next) (error : next.state = .error) :
    arrival.before.ops[slot]? = some next ∨ ∃ old, arrival.before.ops[slot]? = some old ∧
      next = { old with state := .error } ∧ arrival.Fails old := by
  cases exoHandleDatagram_cases ran with
  | invalid => exact Or.inl isNext
  | reset => exact Or.inl isNext
  | dropped => exact Or.inl isNext
  | @taken events i op result valid _ atSlot _ round =>
      obtain ⟨takes, reaction⟩ := reaction_of_round round
      cases takes with
      | notification isKind isMessage state token =>
          obtain ⟨-, -, notified⟩ := exoMatchOp_notified isKind isMessage round
          obtain kept | ⟨rfl, same, unfit | failed⟩ :=
            @exoNotified_failed (arrival.before.logged events) _ _ _ _ _ _ notified isNext error
          · exact Or.inl kept
          · exact Or.inr ⟨op, atSlot, same,
              .unfit valid (.notification isKind isMessage state token) unfit⟩
          · exact Or.inr ⟨op, atSlot, same,
              .denied valid (.notification isKind isMessage state token) state failed⟩
      | response isKind state mid =>
          obtain kept | ⟨rfl, same, unfit | failed⟩ := reaction.failed state isKind later isNext error
          · exact Or.inl kept
          · exact Or.inr ⟨op, atSlot, same, .unfit valid (.response isKind state mid) unfit⟩
          · exact Or.inr ⟨op, atSlot, same, .refused ⟨valid, isKind⟩ ⟨state, mid⟩ failed⟩
      | reset isKind state mid token =>
          rw [exoMatchOp_rst isKind round] at isNext
          obtain ⟨rfl, rfl⟩ | ⟨-, kept⟩ := @of_getElem?_setOp
            (arrival.before.logged events) _ _ _ _ isNext
          · exact Or.inr ⟨op, atSlot, rfl,
              .reset valid (.reset isKind state mid token) isKind⟩
          · exact Or.inl kept

/-! ## Slots -/

/-- The turn of an op makes it fail only by giving it up. -/
theorem SlotStep.failed {env : SlotEnv} (step : SlotStep env sys slot op after)
    (typed : WellTyped slot op) (later : 1 ≤ slot) (atSlot : sys.ops[slot]? = some op)
    (isNext : after.ops[slot]? = some next) (error : next.state = .error) :
    sys.ops[slot]? = some next ∨
      next = { op with state := .error } ∧ Answerable op ∧ op.state = .pending := by
  have replaced : ∀ {changed : ExoOp}, (sys.ops.set slot changed)[slot]? = some next →
      changed = next := by
    intro changed found
    have here := @getElem?_setOp sys slot slot changed op atSlot
    rw [if_pos rfl, Sys.setOp_ops, found] at here
    exact (Option.some.inj here).symm
  have fine : ∀ {changed : ExoOp}, (sys.ops.set slot changed)[slot]? = some next →
      changed.state ≠ .error → False :=
    fun found other => other (replaced found ▸ error)
  cases step with
  | gaveUp waits type =>
      obtain rfl := replaced isNext
      have answerable : Answerable op := by
        rcases type with type | type | type
        · exact Or.inl type
        · exact Or.inr type
        · have zero := (typed.activate type).1
          omega
      have pending : op.state = .pending := by
        rcases waits with state | state
        · have subscribed := typed.subscribed (by simp [state])
          rcases answerable with type | type <;> simp [subscribed] at type
        · exact state
      exact Or.inr ⟨rfl, answerable, pending⟩
  | unexpectedNew state => exact (fine isNext (by simp [state])).elim
  | resent waits =>
      refine (fine isNext ?_).elim
      rcases waits with state | state <;> simp [state]
  | acked isState =>
      refine (fine isNext ?_).elim
      rcases isState with ⟨-, rfl⟩ | ⟨-, rfl⟩ <;> simp
  | sent => exact (fine isNext (by simp)).elim
  | renewed => exact (fine isNext (by simp)).elim
  | _ => exact Or.inl isNext

/-- The pass over the slots makes an op fail only by giving it up on its turn. -/
theorem exoActiveLoop_failed {now : UInt64} {envs : Nat → SlotEnv} {left : Nat}
    (ran : exoActiveLoop now envs sys left 0 = .ok after) (inRange : slot < left)
    (typed : AllTyped sys) (later : 1 ≤ slot) (isNext : after.ops[slot]? = some next)
    (error : next.state = .error) :
    sys.ops[slot]? = some next ∨ ∃ turn op given, exoActiveLoop now envs sys slot 0 = .ok turn ∧
      turn.ops[slot]? = some op ∧ next = { op with state := .error } ∧ Answerable op ∧
        op.state = .pending ∧
        exoProcessOp now (envs slot) turn slot op = .ok given ∧ given.ops[slot]? = some next ∧
          LibSteps turn after := by
  obtain ⟨turn, op, given, isTurn, isOp, before, processed, same, steps⟩ :=
    exoActiveLoop_split ran inRange
  rw [same] at isNext
  have step := exoProcessOp_cases processed
  have typedOp := LibSteps.allTyped (exoActiveLoop_callSteps isTurn).libSteps typed isOp
  obtain kept | ⟨request, answerable, pending⟩ := step.failed typedOp later isOp isNext error
  · exact Or.inl (before.symm.trans kept)
  · exact Or.inr ⟨turn, op, given, isTurn, isOp, request, answerable, pending, processed, isNext,
      .head (.slot isOp step) steps⟩

/-! ## Runs -/

theorem RunPart.accounted {source : Option Arrival} (typed : AllTyped sys)
    (part : RunPart start calls source sys after) (accounted : Accounted start calls sys) :
    Accounted start calls after := by
  intro slot op later isOp error
  have kept : sys.ops[slot]? = some op → Unqueued slot sys.log after.log →
      FailedByDatagram start calls after slot op ∨ FailedBySilence start calls after slot op :=
    fun atSlot since => (accounted slot op later atSlot error).imp (·.mono since) (·.mono since)
  cases part with
  | user _ _ other called =>
      obtain ⟨atSlot, unqueued⟩ := call_kept other called isOp (by simp [error])
      exact kept atSlot unqueued
  | ready _ _ isReady =>
      have unqueued := (exoReady_callSteps isReady).libSteps.unqueued slot
      rw [exoReady_other isReady later] at isOp
      exact kept isOp unqueued
  | handled member ran =>
      have unqueued := (exoHandleDatagram_steps ran).unqueued slot
      obtain atSlot | ⟨old, isOld, same, fails⟩ := Arrival.failed ran later isOp error
      · exact kept atSlot unqueued
      · exact Or.inl ⟨_, member, old, isOld, ⟨same, unqueued⟩, fails⟩
  | @active operation _ _ _ member on isReady waiting ran =>
      have unqueued := (exoActiveLoop_callSteps ran).libSteps.unqueued slot
      have inRange : slot < sys.ops.length := by
        rw [← (exoActiveLoop_callSteps ran).libSteps.ops_length]
        exact (List.getElem?_eq_some_iff.mp isOp).1
      obtain atSlot | ⟨turn, found, given, isTurn, isFound, same, type, state, processed, isGiven,
        rest⟩ := exoActiveLoop_failed ran inRange typed later isOp error
      · exact kept atSlot unqueued
      · have whole : operation.turn slot = .ok turn := by
          rw [Operation.turn, isReady, Exec.ok_bind, waiting]
          exact isTurn
        have answerable : Answerable op := by
          rw [same]
          exact type
        exact Or.inr ⟨answerable, operation, member, turn, found, isFound,
          ⟨same, rest.unqueued slot⟩, on, whole, found, given, op, isFound, type, state, processed,
          isGiven, error⟩

theorem run_accounted {count : Nat} {heap : Mem}
    (ran : run (powerOn count heap) calls = .ok after) :
    Accounted (powerOn count heap) calls after := by
  refine run_rule ran ?_ fun reached part accounted =>
    part.accounted (allTyped_of_reached reached).1 accounted
  intro slot op _ atSlot error
  rw [List.eq_of_mem_replicate (List.mem_of_getElem? atSlot)] at error
  cases error

end Accounts

/-! ## The result -/

/-- Every op of the user that has failed was refused by the server since it was queued, by a
response to what went out for it or by a datagram with its token, or did not have the room
for what the server sent, or is a read or write that was itself given up, after as many
datagrams as its counter left room for. -/
theorem run_failed {serves : List UInt8 → List UInt8 → Prop} {count : Nat} {heap : Mem}
    {calls : List UserCall} {after : Sys} (ran : run (powerOn count heap) calls = .ok after)
    (once : after.log.count .initialised ≤ 1) (few : builtCount after.log ≤ 65536)
    (honest : ∀ arrival ∈ arrivals (powerOn count heap) calls, arrival.Honest serves)
    {slot : Nat} {op : ExoOp} (later : 1 ≤ slot) (atSlot : after.ops[slot]? = some op)
    (error : op.state = .error) :
    (∃ arrival ∈ arrivals (powerOn count heap) calls, ∃ old,
      arrival.before.ops[slot]? = some old ∧
        FailedSince arrival.before.log after slot op old ∧ arrival.Fails old ∧
          (IsAck arrival.rx → AnswerTo serves after.log slot op.type arrival.rx.pdu.packet)) ∨
    (Answerable op ∧ ∃ operation ∈ operations (powerOn count heap) calls, ∃ turn old,
      turn.ops[slot]? = some old ∧ FailedSince turn.log after slot op old ∧
        GivesUp slot operation turn ∧ ∃ front start,
          run (powerOn count heap) front = .ok operation.before ∧
          (counters slot (powerOn count heap) [] front).head? = some start ∧
          (transmitted slot turn.log).length + start.toNat = 1 + coapMaxRetransmit.toNat) := by
  obtain ⟨arrival, member, old, isOld, since, fails⟩ |
    ⟨type, operation, member, turn, old, isOld, since, givesUp⟩ :=
    run_accounted ran slot op later atSlot error
  · refine Or.inl ⟨arrival, member, old, isOld, since, fails, fun isAck => ?_⟩
    have awaited : AwaitedBy arrival.rx old := by
      cases fails with
      | refused _ awaited => exact awaited
      | unfit _ takes => exact isAck.takes_iff.mp takes
      | reset _ takes => exact isAck.takes_iff.mp takes
      | denied _ takes => exact isAck.takes_iff.mp takes
    rw [since.op_eq]
    exact (answerTo_of_run ran once few member (honest arrival member) isAck later isOld
      awaited).mono since.unqueued.exchanged_subset
  · obtain ⟨front, back, -, before⟩ := operations_split member
    obtain ⟨start, isStart, length⟩ := giveUp_length later before givesUp
    exact Or.inr ⟨type, operation, member, turn, old, isOld, since, givesUp, front, start, before,
      isStart, length⟩

/-- The dataport of any request is missing. -/
def serveMissing (datagram : List UInt8) : List UInt8 := [0x60, 0x84] ++ (datagram.drop 2).take 2

/-- A subscription is refused. -/
def refusedCalls : List UserCall :=
  [quietInit, .subscribe 1 1 3 8, quietOperate [], quietOperate [[0x60, 0x84, 0, 8]]]

/-- It fails by the response to it. -/
theorem run_failed_refused : ∃ after op, run (powerOn 2 quietHeap) refusedCalls = .ok after ∧
    after.ops[1]? = some op ∧ op.state = .error ∧
      ∃ arrival ∈ arrivals (powerOn 2 quietHeap) refusedCalls, ∃ old, arrival.Fails old := by
  have computed : (run (powerOn 2 quietHeap) refusedCalls).map (fun after =>
      (after.ops[1]?.map fun op => (op.type, op.state), after.log.count .initialised,
        builtCount after.log)) = .ok (some (.subscribe, .error), 1, 2) := by decide +kernel
  have served : ((arrivals (powerOn 2 quietHeap) refusedCalls).all fun arrival =>
      (requestsSent arrival.before.log).any fun datagram =>
        coapGetMid ⟨1, datagram, datagram.length, datagram.length⟩ = .ok 8 ∧
          coapGetMid arrival.rx.pdu = .ok 8 ∧
            arrival.rx.pdu.packet = serveMissing datagram) = true := by decide +kernel
  obtain ⟨after, ran, values⟩ := Exec.map_eq_ok.mp computed
  simp only [Prod.mk.injEq, Option.map_eq_some_iff] at values
  obtain ⟨⟨op, atSlot, type, error⟩, once, few⟩ := values
  have honest : ∀ arrival ∈ arrivals (powerOn 2 quietHeap) refusedCalls,
      arrival.Honest fun datagram packet => packet = serveMissing datagram := by
    intro arrival member _
    obtain ⟨datagram, sent, checked⟩ :=
      List.any_eq_true.mp (List.all_eq_true.mp served arrival member)
    obtain ⟨carries, isMid, serving⟩ := of_decide_eq_true checked
    exact ⟨datagram, sent, 8, carries, isMid, serving⟩
  refine ⟨after, op, ran, atSlot, error, ?_⟩
  obtain ⟨arrival, member, old, -, -, fails, -⟩ | ⟨answerable, -⟩ :=
    run_failed ran (by omega) (by omega) honest (Nat.le_refl 1) atSlot error
  · exact ⟨arrival, member, old, fails⟩
  · rcases answerable with other | other <;> simp [type] at other

end ExositeCoap.Exosite
