import ExositeCoap.Exosite.Arrivals
import ExositeCoap.Exosite.Frozen
import ExositeCoap.Exosite.Response
import ExositeCoap.Exosite.Typing

/-!
# Requests that the user has queued

The library uses slot 0 for activation requests whenever it sees fit: at the start of
`exo_operate`, and when a response says 4.01.  A request that the user has queued there
is lost then, finished or not.  Everywhere else requests stay as they are queued.
-/

namespace ExositeCoap.Exosite

open Lib Wire Coap

/-- The op holds a request of the user that has not finished. -/
def Queued (op : ExoOp) : Prop :=
  (op.type = .read ∨ op.type = .write ∨ op.type = .subscribe) ∧ exoIsOpFinished op = false

/-- The request in the slot is that of `op`: its type and its alias. -/
def Holds (sys : Sys) (slot : Nat) (op : ExoOp) : Prop :=
  ∃ next, sys.ops[slot]? = some next ∧ next.type = op.type ∧ next.aliasPtr = op.aliasPtr

/-- A response 4.01 to some request, while slot 0 is regarded as free. -/
structure Arrival.Reactivates (arrival : Arrival) : Prop where
  isAck : IsAck arrival.rx
  code : coapGetCode arrival.rx.pdu = .ok ccUnauthorized
  awaited : ∃ op ∈ arrival.before.ops, AwaitedBy arrival.rx op
  free : ∃ first, arrival.before.ops[0]? = some first ∧
    (first.type = .null ∨ first.timeout < arrival.rx.time)

/-- `exo_operate` finds a request of the user in slot 0 only when it does not use the
slot for activation. -/
def Operation.Undisturbed (operation : Operation) : Prop :=
  ∀ first, operation.before.ops[0]? = some first → Queued first →
    operation.before.deviceState = .uninitialized ∨
      ((operation.before.deviceState = .good ∨ operation.env.time ≤ first.timeout) ∧
        ∀ arrival ∈ operation.arrivals, ¬ arrival.Reactivates)

/-! ## Steps that keep a request -/

section Keeps

variable {sys after : Sys} {slot i : Nat} {op old changed : ExoOp}

/-- The op in some slot is replaced by one with the same request. -/
theorem setOp_sameRequest (isOld : sys.ops[i]? = some old) (same : SameRequest old changed)
    (atSlot : sys.ops[slot]? = some op) :
    ∃ next, (sys.setOp i changed).ops[slot]? = some next ∧ SameRequest op next := by
  refine ⟨_, getElem?_setOp atSlot, ?_⟩
  split_ifs with here
  · subst here
    rw [isOld] at atSlot
    cases atSlot
    exact same
  · exact .refl op

/-- Processing a slot keeps all requests. -/
theorem SlotStep.sameRequest {env : SlotEnv} (step : SlotStep env sys i old after)
    (isOld : sys.ops[i]? = some old) (atSlot : sys.ops[slot]? = some op) :
    ∃ next, after.ops[slot]? = some next ∧ SameRequest op next := by
  cases step with
  | unexpectedNew _ type => exact setOp_sameRequest isOld ⟨type.symm, rfl, rfl, rfl⟩ atSlot
  | sent =>
      exact @setOp_sameRequest (sys.sentRequest i true _ _ true) _ _ _ _ _ isOld
        ⟨rfl, rfl, rfl, rfl⟩ atSlot
  | resent =>
      exact @setOp_sameRequest (sys.sentRequest i false _ _ true) _ _ _ _ _ isOld
        ⟨rfl, rfl, rfl, rfl⟩ atSlot
  | gaveUp => exact setOp_sameRequest isOld ⟨rfl, rfl, rfl, rfl⟩ atSlot
  | renewed => exact setOp_sameRequest isOld ⟨rfl, rfl, rfl, rfl⟩ atSlot
  | acked =>
      exact @setOp_sameRequest (sys.record _) _ _ _ _ _ isOld ⟨rfl, rfl, rfl, rfl⟩ atSlot
  | _ => exact ⟨op, atSlot, .refl op⟩

theorem exoActiveLoop_sameRequest {now : UInt64} {envs : Nat → SlotEnv} {left : Nat}
    (ran : exoActiveLoop now envs sys left i = .ok after) (atSlot : sys.ops[slot]? = some op) :
    ∃ next, after.ops[slot]? = some next ∧ SameRequest op next := by
  refine @exoActiveLoop_rule _ _ _ _ _
    (fun _ state => ∃ next, state.ops[slot]? = some next ∧ SameRequest op next) _ ran
    ⟨op, atSlot, .refl op⟩ ?_
  rintro state after i old isOld processed ⟨between, isBetween, first⟩
  obtain ⟨next, isNext, last⟩ := (exoProcessOp_cases processed).sameRequest isOld isBetween
  exact ⟨next, isNext, first.trans last⟩

/-- A reaction keeps the requests of the user, unless it starts the activation over. -/
theorem Reaction.sameRequest {rx : Received} (reaction : Reaction rx sys i old after)
    (isOld : sys.ops[i]? = some old) (atSlot : sys.ops[slot]? = some op)
    (user : op.type ≠ .activate)
    (calm : ∀ first, old.state = .pending → coapGetCode rx.pdu = .ok ccUnauthorized →
      (sys.ops.set i { old with state := .error })[0]? = some first →
        ¬ (first.type = .null ∨ first.timeout < rx.time)) :
    ∃ next, after.ops[slot]? = some next ∧ SameRequest op next := by
  have failed : ∃ next, (sys.setOp i { old with state := .error }).ops[slot]? = some next ∧
      SameRequest op next :=
    setOp_sameRequest isOld ⟨rfl, rfl, rfl, rfl⟩ atSlot
  have elsewhere : old.type = .activate → i ≠ slot := by
    rintro activate rfl
    rw [isOld] at atSlot
    cases atSlot
    exact user activate
  cases reaction with
  | ignored => exact ⟨op, atSlot, .refl op⟩
  | emptied => exact ⟨op, atSlot, .refl op⟩
  | denied => exact failed
  | rejected => exact failed
  | refused => exact failed
  | notFound => exact failed
  | reset => exact failed
  | notified =>
      exact @setOp_sameRequest { sys with heap := _ } _ _ _ _ _ isOld ⟨rfl, rfl, rfl, rfl⟩ atSlot
  | written => exact setOp_sameRequest isOld ⟨rfl, rfl, rfl, rfl⟩ atSlot
  | delivered =>
      exact @setOp_sameRequest { sys with heap := _ } _ _ _ _ _ isOld ⟨rfl, rfl, rfl, rfl⟩ atSlot
  | activated _ type =>
      refine ⟨op, ?_, .refl op⟩
      rw [Sys.setOp_ops, List.getElem?_set_ne (elsewhere type)]
      exact atSlot
  | notActivated _ type =>
      refine ⟨op, ?_, .refl op⟩
      rw [Sys.setOp_ops, List.getElem?_set_ne (elsewhere type)]
      exact atSlot
  | reactivated state _ code atZero free => exact absurd free (calm _ state code atZero)

/-- Marking a request as failed changes neither type nor timeout of slot 0. -/
theorem first_of_failed {first : ExoOp} (isOld : sys.ops[i]? = some old)
    (atZero : (sys.ops.set i { old with state := .error })[0]? = some first) :
    ∃ before, sys.ops[0]? = some before ∧ first.type = before.type ∧
      first.timeout = before.timeout := by
  rcases of_getElem?_setOp (show (sys.setOp i _).ops[0]? = some first from atZero) with
    ⟨rfl, rfl⟩ | ⟨-, same⟩
  · exact ⟨old, isOld, rfl, rfl⟩
  · exact ⟨first, same, rfl, rfl⟩

end Keeps

section Arrivals

variable {arrival : Arrival} {goOn : Bool} {after : Sys} {slot : Nat} {op : ExoOp}

/-- A datagram that does not start the activation over keeps the requests of the user. -/
theorem Arrival.sameRequest
    (ran : exoHandleDatagram arrival.rx arrival.before = .ok (goOn, after))
    (atSlot : arrival.before.ops[slot]? = some op) (user : op.type ≠ .activate)
    (calm : ¬ arrival.Reactivates) :
    ∃ next, after.ops[slot]? = some next ∧ SameRequest op next := by
  cases exoHandleDatagram_cases ran with
  | @taken events i old result valid _ isOld _ round =>
      obtain ⟨takes, reaction⟩ := reaction_of_round round
      cases takes with
      | notification _ _ state =>
          refine reaction.sameRequest isOld atSlot user ?_
          intro first pending
          rw [state] at pending
          cases pending
      | response type state mid =>
          refine reaction.sameRequest isOld atSlot user ?_
          intro first _ code atZero free
          obtain ⟨before, isBefore, sameType, sameTimeout⟩ := first_of_failed isOld atZero
          rw [sameType, sameTimeout] at free
          exact calm ⟨⟨valid, type⟩, code, ⟨old, List.mem_of_getElem? isOld, state, mid⟩,
            before, isBefore, free⟩
      | reset type =>
          rw [exoMatchOp_rst type round]
          exact @setOp_sameRequest (arrival.before.logged events) _ _ _ _ _ isOld
            ⟨rfl, rfl, rfl, rfl⟩ atSlot
  | _ => exact ⟨op, atSlot, .refl op⟩

theorem coapGetCodeClass_unauthorized {pdu : CoapPdu}
    (code : coapGetCode pdu = .ok ccUnauthorized) : coapGetCodeClass pdu = .ok 4 := by
  rw [coapGetCodeClass, code]
  rfl

/-- A datagram that starts the activation over puts it in slot 0. -/
theorem Arrival.Reactivates.activates (reactivates : arrival.Reactivates)
    (typed : AllTyped arrival.before)
    (ran : exoHandleDatagram arrival.rx arrival.before = .ok (goOn, after)) :
    ∃ next, after.ops[0]? = some next ∧ next.type = .activate := by
  have isAck := reactivates.isAck
  cases exoHandleDatagram_cases ran with
  | invalid isStatus failed =>
      rw [isAck.valid] at isStatus
      cases isStatus
      exact absurd rfl failed
  | @taken events i old result _ _ isOld _ round =>
      have refused := exoMatchOp_refused isAck.type
        (coapGetCodeClass_unauthorized reactivates.code) (by decide) round
      rw [exoRefused, reactivates.code, Exec.ok_bind, if_pos rfl] at refused
      obtain ⟨first, isFirst, free⟩ := reactivates.free
      split at refused
      · cases refused
      · rename_i failed atZero
        obtain ⟨before, isBefore, sameType, sameTimeout⟩ :=
          @first_of_failed (arrival.before.logged events) _ _ _ isOld atZero
        rw [show (arrival.before.logged events).ops[0]? = some first from isFirst] at isBefore
        cases isBefore
        rw [← sameType, ← sameTimeout] at free
        rw [if_pos free] at refused
        cases refused
        refine ⟨exoActivate failed, ?_, rfl⟩
        rw [Sys.record_ops, Sys.setOp_ops,
          List.getElem?_set_self (List.getElem?_eq_some_iff.mp atZero).1]
  | reset _ _ _ isCon =>
      rw [isAck.type] at isCon
      cases isCon
  | dropped _ _ unmatched =>
      obtain ⟨old, member, awaited⟩ := reactivates.awaited
      obtain ⟨slot, isOld⟩ := List.mem_iff_getElem?.mp member
      exact absurd (unmatched old member (isAck.takes_iff.mpr awaited)).2
        ((typed isOld).of_waits (Or.inr awaited.state))

end Arrivals

/-! ## Calls of `exo_operate` -/

section Operations

variable {sys after : Sys} {slot : Nat} {op : ExoOp}

theorem exoProcessWaitingDatagrams_sameRequest {datagrams : List Received}
    (ran : exoProcessWaitingDatagrams sys datagrams = .ok after)
    (atSlot : sys.ops[slot]? = some op) (user : op.type ≠ .activate)
    (calm : ∀ arrival ∈ waitingArrivals sys datagrams, ¬ arrival.Reactivates) :
    ∃ next, after.ops[slot]? = some next ∧ SameRequest op next := by
  refine @exoProcessWaitingDatagrams_rule _ _ _
    (fun state => ∃ next, state.ops[slot]? = some next ∧ SameRequest op next) ran
    ⟨op, atSlot, .refl op⟩ ?_
  rintro arrival goOn middle member handled ⟨between, isBetween, first⟩
  have still : between.type ≠ .activate := by
    rw [first.type]
    exact user
  obtain ⟨next, isNext, later⟩ :=
    Arrival.sameRequest handled isBetween still (calm arrival member)
  exact ⟨next, isNext, first.trans later⟩

/-- The slot was used for activation, and holds no request of the user any more. -/
def Lost (op : ExoOp) : Prop := op.type = .activate ∨ op.type = .null

theorem OpChange.lost {next : ExoOp} (change : OpChange slot op next) (lost : Lost op) :
    Lost next := by
  cases change with
  | released => exact Or.inr rfl
  | activated => exact Or.inl rfl
  | untyped => exact Or.inr rfl
  | _ => exact lost

/-- The library never brings a request back. -/
theorem LibSteps.lost (steps : LibSteps sys after) (atSlot : sys.ops[slot]? = some op)
    (lost : Lost op) : ∃ next, after.ops[slot]? = some next ∧ Lost next := by
  induction steps with
  | refl => exact ⟨op, atSlot, lost⟩
  | tail _ step ih =>
      obtain ⟨middle, isMiddle, isLost⟩ := ih
      obtain ⟨next, isNext, rfl | change⟩ := step.op_change isMiddle
      · exact ⟨_, isNext, isLost⟩
      · exact ⟨next, isNext, change.lost isLost⟩

theorem not_holds_of_lost {lost : ExoOp} (isLost : after.ops[slot]? = some lost)
    (gone : Lost lost) (queued : Queued op) : ¬ Holds after slot op := by
  rintro ⟨next, isNext, sameType, -⟩
  rw [isLost] at isNext
  cases isNext
  rw [Lost, sameType] at gone
  rcases queued.1 with type | type | type <;> simp [type] at gone

theorem LibSteps.allTyped (steps : LibSteps sys after) (typed : AllTyped sys) :
    AllTyped after := by
  induction steps with
  | refl => exact typed
  | tail _ step ih => exact step.allTyped ih

theorem call_allTyped {action : UserCall} (ran : call sys action = .ok after)
    (typed : AllTyped sys) : AllTyped after := by
  refine @SysSteps.invariant AllTyped _ _ ?_ (call_runSteps ran).sysSteps typed
  intro before next step typed
  cases step with
  | lib _ step => exact step.allTyped typed
  | user step => exact step.allTyped typed

/-- The look at slot 0 leaves a queued request alone exactly when the CIK is known or the
timeout in the slot has not passed. -/
theorem exoReady_queued {time : UInt64} {first : ExoOp} (ran : exoReady time sys = .ok after)
    (typed : AllTyped sys) (isFirst : sys.ops[0]? = some first) (queued : Queued first) :
    (after = sys ∧ (sys.deviceState = .good ∨ time ≤ first.timeout)) ∨
      (∃ next, after.ops[0]? = some next ∧ Lost next) ∧
        ¬ (sys.deviceState = .good ∨ time ≤ first.timeout) := by
  unfold exoReady at ran
  split_ifs at ran with good
  · cases ran
    exact Or.inl ⟨rfl, Or.inl good⟩
  · obtain ⟨found, isFound, ⟨free, rfl⟩ | ⟨taken, rfl⟩⟩ := exoActivateFirst_cases ran
    · rw [isFirst] at isFound
      cases isFound
      have some : first.state ≠ .null := by
        intro none
        have null := (typed isFirst).null.mpr none
        rcases queued.1 with type | type | type <;> simp [null] at type
      refine Or.inr ⟨⟨exoActivate first, ?_, Or.inl rfl⟩, ?_⟩
      · rw [Sys.setOp_ops, List.getElem?_set_self (List.getElem?_eq_some_iff.mp isFirst).1]
      · rintro (isGood | inTime)
        · exact good isGood
        · exact absurd (free.resolve_left some) (UInt64.not_lt.mpr inTime)
    · rw [isFirst] at isFound
      cases isFound
      rw [not_or] at taken
      exact Or.inl ⟨rfl, Or.inr (UInt64.not_lt.mp taken.2)⟩

/-- A call of `exo_operate` keeps all queued requests exactly when it does not use slot 0
for activation over one of them. -/
theorem Operation.holds_iff {operation : Operation} {state : ExoState}
    (typed : AllTyped operation.before)
    (ran : exoOperate operation.env operation.before = .ok (state, after)) :
    (∀ slot op, operation.before.ops[slot]? = some op → Queued op → Holds after slot op) ↔
      operation.Undisturbed := by
  constructor
  · intro keeps first isFirst queued
    have kept := keeps 0 first isFirst queued
    obtain ⟨off, -⟩ | ⟨on, ready, received, isReady, waiting, active⟩ := exoOperate_parts ran
    · exact Or.inl off
    · have last := (exoActiveLoop_callSteps active).libSteps
      have handled : operation.arrivals = waitingArrivals ready operation.env.datagrams := by
        rw [Operation.arrivals, if_neg on, isReady]
      have isTyped : AllTyped ready := (exoReady_callSteps isReady).libSteps.allTyped typed
      refine Or.inr ⟨?_, fun arrival member reactivates => ?_⟩
      · obtain ⟨-, free⟩ | ⟨⟨lost, isLost, gone⟩, -⟩ := exoReady_queued isReady typed isFirst queued
        · exact free
        · obtain ⟨final, isFinal, stillGone⟩ :=
            LibSteps.lost ((exoProcessWaitingDatagrams_callSteps waiting).libSteps.trans last)
              isLost gone
          exact absurd kept (not_holds_of_lost isFinal stillGone queued)
      · rw [handled] at member
        obtain ⟨goOn, next, ran, steps⟩ := waitingArrivals_handled waiting member
        obtain ⟨lost, isLost, gone⟩ := reactivates.activates
          ((waitingArrivals_reached member).libSteps.allTyped isTyped) ran
        obtain ⟨final, isFinal, stillGone⟩ :=
          LibSteps.lost (steps.libSteps.trans last) isLost (Or.inl gone)
        exact absurd kept (not_holds_of_lost isFinal stillGone queued)
  · intro undisturbed slot op atSlot queued
    have user : op.type ≠ .activate := by
      rcases queued.1 with type | type | type <;> simp [type]
    by_cases later : 1 ≤ slot
    · obtain ⟨next, isNext, same⟩ :=
        (exoOperate_steps ran).1.sameRequest typed later atSlot
      exact ⟨next, isNext, same.type, same.aliasPtr⟩
    · obtain rfl : slot = 0 := by omega
      obtain ⟨-, rfl⟩ | ⟨on, ready, received, isReady, waiting, active⟩ := exoOperate_parts ran
      · exact ⟨op, atSlot, rfl, rfl⟩
      · obtain ⟨free, calm⟩ := (undisturbed op atSlot queued).resolve_left on
        have same : ready = operation.before := by
          obtain ⟨same, -⟩ | ⟨-, busy⟩ := exoReady_queued isReady typed atSlot queued
          · exact same
          · exact absurd free busy
        subst same
        have handled : operation.arrivals =
            waitingArrivals operation.before operation.env.datagrams := by
          rw [Operation.arrivals, if_neg on, isReady]
        rw [handled] at calm
        obtain ⟨middle, isMiddle, first⟩ :=
          exoProcessWaitingDatagrams_sameRequest waiting atSlot user calm
        obtain ⟨next, isNext, rest⟩ := exoActiveLoop_sameRequest active isMiddle
        have whole := first.trans rest
        exact ⟨next, isNext, whole.type, whole.aliasPtr⟩

end Operations

/-! ## Runs -/

/-- Before each of the calls, the op in the slot has not finished. -/
def UnfinishedAlong (slot : Nat) (sys : Sys) : List UserCall → Prop
  | [] => True
  | first :: rest =>
    (∀ op, sys.ops[slot]? = some op → exoIsOpFinished op = false) ∧
      ∀ next, call sys first = .ok next → UnfinishedAlong slot next rest

/-- In the run, a request that the user has queued keeps its type and alias until it has
finished or the user makes another call about its slot. -/
def KeptUntilFinished (start : Sys) (calls : List UserCall) : Prop :=
  ∀ front middle back sys after slot op, calls = front ++ middle ++ back →
    run start front = .ok sys → run sys middle = .ok after →
    sys.ops[slot]? = some op → Queued op →
    (∀ action ∈ middle, action.Elsewhere slot) → UnfinishedAlong slot sys middle →
      Holds after slot op

/-- Other calls that are not about the slot. -/
theorem call_elsewhere {sys after : Sys} {slot : Nat} {op : ExoOp} {action : UserCall}
    (ran : call sys action = .ok after) (atSlot : sys.ops[slot]? = some op)
    (elsewhere : action.Elsewhere slot) (other : ∀ env, action ≠ .operate env) :
    after.ops[slot]? = some op := by
  have kept : ∀ {i : Nat} {changed : ExoOp}, i ≠ slot →
      (sys.setOp i changed).ops[slot]? = some op := by
    intro i changed different
    rw [getElem?_setOp atSlot, if_neg different]
  cases action with
  | init env vendor model serial =>
      cases ran
      rw [(exoInit_frame env vendor model serial sys).1]
      exact atSlot
  | write i =>
      obtain ⟨old, -, ran⟩ := Exec.bind_eq_ok.mp ran
      cases ran
      exact kept elsewhere
  | read i =>
      obtain ⟨old, -, ran⟩ := Exec.bind_eq_ok.mp ran
      cases ran
      exact kept elsewhere
  | subscribe i =>
      obtain ⟨old, -, ran⟩ := Exec.bind_eq_ok.mp ran
      cases ran
      exact kept elsewhere
  | opInit i =>
      obtain ⟨old, -, ran⟩ := Exec.bind_eq_ok.mp ran
      cases ran
      exact kept elsewhere
  | opDone i =>
      obtain ⟨old, -, ran⟩ := Exec.bind_eq_ok.mp ran
      cases ran
      exact kept elsewhere
  | memory =>
      cases ran
      exact atSlot
  | operate env => exact absurd rfl (other env)

/-- Calls that keep the requests one by one keep them altogether. -/
theorem keptUntilFinished_of_operations {start : Sys} {calls : List UserCall}
    (keeps : ∀ operation ∈ operations start calls, ∀ state after,
      exoOperate operation.env operation.before = .ok (state, after) →
        ∀ slot op, operation.before.ops[slot]? = some op → Queued op → Holds after slot op) :
    KeptUntilFinished start calls := by
  intro front middle
  induction middle generalizing front with
  | nil =>
      intro back sys after slot op _ _ ran atSlot _ _ _
      cases ran
      exact ⟨op, atSlot, rfl, rfl⟩
  | cons action rest ih =>
      intro back sys after slot op split before ran atSlot queued elsewhere unfinished
      obtain ⟨next, called, ran⟩ := Exec.bind_eq_ok.mp ran
      have held : Holds next slot op := by
        by_cases operates : ∃ env, action = .operate env
        · obtain ⟨env, rfl⟩ := operates
          obtain ⟨⟨state, result⟩, operated, same⟩ := Exec.bind_eq_ok.mp called
          cases same
          have member : ⟨sys, env⟩ ∈ operations start calls := by
            rw [split, List.append_assoc]
            exact mem_operations before
          exact keeps _ member state _ operated slot op atSlot queued
        · have other : ∀ env, action ≠ .operate env := fun env same => operates ⟨env, same⟩
          exact ⟨op, call_elsewhere called atSlot (elsewhere _ List.mem_cons_self) other, rfl, rfl⟩
      obtain ⟨middle, isMiddle, sameType, sameAlias⟩ := held
      cases rest with
      | nil =>
          cases ran
          exact ⟨middle, isMiddle, sameType, sameAlias⟩
      | cons second rest =>
          have later := unfinished.2 next called
          have stillQueued : Queued middle := ⟨by rw [sameType]; exact queued.1, later.1 _ isMiddle⟩
          obtain ⟨final, isFinal, finalType, finalAlias⟩ := ih (front ++ [action]) back next after
            slot middle (by rw [split]; simp) (run_concat before called) ran isMiddle stillQueued
            (fun other member => elsewhere other (List.mem_cons_of_mem _ member)) later
          exact ⟨final, isFinal, finalType.trans sameType, finalAlias.trans sameAlias⟩

/-- In a run, all queued requests are kept until they have finished exactly when no call
of `exo_operate` uses slot 0 for activation over one of them. -/
theorem run_keptUntilFinished_iff (count : Nat) (heap : Mem) (calls : List UserCall) :
    KeptUntilFinished (powerOn count heap) calls ↔
      ∀ operation ∈ operations (powerOn count heap) calls, ∀ state after,
        exoOperate operation.env operation.before = .ok (state, after) →
          operation.Undisturbed := by
  have typed : ∀ operation ∈ operations (powerOn count heap) calls,
      AllTyped operation.before :=
    fun operation member => (allTyped_of_reached (operations_reached member).sysSteps).1
  constructor
  · intro kept operation member state after ran
    obtain ⟨front, back, split, before⟩ := operations_split member
    refine (Operation.holds_iff (typed operation member) ran).mp ?_
    intro slot op atSlot queued
    have called : run operation.before [.operate operation.env] = .ok after := by
      simp only [run, call, ran, Exec.ok_bind, Exec.pure_eq_ok]
    refine kept front [.operate operation.env] back operation.before after slot op
      (by rw [split]; simp) before called atSlot queued (by simp [UserCall.Elsewhere]) ?_
    refine ⟨fun other isOther => ?_, fun next _ => trivial⟩
    rw [atSlot] at isOther
    cases isOther
    exact queued.2
  · intro undisturbed
    refine keptUntilFinished_of_operations fun operation member state after ran => ?_
    exact (Operation.holds_iff (typed operation member) ran).mpr
      (undisturbed operation member state after ran)

/-- A read that is queued in slot 0 is replaced by an activation request at once. -/
theorem not_keptUntilFinished_firstSlot :
    ¬ KeptUntilFinished (powerOn 1 quietHeap) [quietInit, .read 0 1 3 8, quietOperate []] := by
  have computed : (run (powerOn 1 quietHeap) [quietInit, .read 0 1 3 8] >>= fun sys =>
      (run sys [quietOperate []]).map fun after => (sys.ops, after.ops)) =
      .ok ([exoRead exoOpInit 1 3 8], [sentActivation]) := by decide +kernel
  obtain ⟨sys, before, computed⟩ := Exec.bind_eq_ok.mp computed
  obtain ⟨after, ran, values⟩ := Exec.map_eq_ok.mp computed
  simp only [Prod.mk.injEq] at values
  obtain ⟨ops, final⟩ := values
  intro kept
  have atSlot : sys.ops[0]? = some (exoRead exoOpInit 1 3 8) := by
    rw [ops]
    rfl
  obtain ⟨next, isNext, type, -⟩ := kept [quietInit, .read 0 1 3 8] [quietOperate []] [] sys
    after 0 _ rfl before ran atSlot ⟨Or.inl rfl, rfl⟩ (by simp [quietOperate, UserCall.Elsewhere])
    ⟨fun op isOp => by rw [atSlot] at isOp; cases isOp; rfl, fun _ _ => trivial⟩
  rw [final] at isNext
  cases isNext
  cases type

end ExositeCoap.Exosite
