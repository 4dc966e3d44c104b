import ExositeCoap.Exosite.Log
import ExositeCoap.Exosite.OpChange

/-!
# Types and states of the ops

Which states an op of a given type can be in, in every run.  The branches of the
source for other combinations are never taken, and `exo_operate` does not touch what
the user asked for in the slots from 1 on.
-/

namespace ExositeCoap.Exosite

open Lib Wire Coap

/-- Type and state of the op in a slot belong together. -/
structure WellTyped (slot : Nat) (op : ExoOp) : Prop where
  null : op.type = .null ↔ op.state = .null
  single : op.type = .read ∨ op.type = .write →
    op.state ∈ [ExoRequestState.new, .pending, .success, .error]
  activate : op.type = .activate →
    slot = 0 ∧ op.state ∈ [ExoRequestState.new, .pending, .error]
  subscribed : op.state ∈ [ExoRequestState.subscribed, .subAck, .subAckNew] →
    op.type = .subscribe

/-- Two ops ask for the same. -/
structure SameRequest (op next : ExoOp) : Prop where
  type : next.type = op.type
  aliasPtr : next.aliasPtr = op.aliasPtr
  valuePtr : next.valuePtr = op.valuePtr
  valueMax : next.valueMax = op.valueMax

theorem SameRequest.refl (op : ExoOp) : SameRequest op op := ⟨rfl, rfl, rfl, rfl⟩

theorem SameRequest.trans {first second third : ExoOp} (before : SameRequest first second)
    (after : SameRequest second third) : SameRequest first third :=
  ⟨after.type.trans before.type, after.aliasPtr.trans before.aliasPtr,
    after.valuePtr.trans before.valuePtr, after.valueMax.trans before.valueMax⟩

/-! ## Single ops -/

section Ops

variable {slot : Nat} {op next : ExoOp}

theorem wellTyped_exoOpInit (slot : Nat) : WellTyped slot exoOpInit := by
  constructor <;> simp [exoOpInit]

/-- A queued request is new, activation only in slot 0. -/
theorem wellTyped_queue {type : ExoRequestType} {aliasPtr valuePtr valueMax : Nat}
    (typed : type ≠ .null) (place : type = .activate → slot = 0) :
    WellTyped slot (op.queue type aliasPtr valuePtr valueMax) := by
  constructor <;> simp_all [ExoOp.queue]

theorem wellTyped_exoOpDone (slot : Nat) (op : ExoOp) : WellTyped slot (exoOpDone op) := by
  unfold exoOpDone
  split_ifs with type
  · constructor <;> simp [type]
  · exact wellTyped_exoOpInit slot

/-- An op that waits has a type, and only subscriptions wait beyond the response. -/
theorem WellTyped.of_waits (typed : WellTyped slot op) (waits : Waits op) :
    op.type ≠ .null := by
  intro null
  have state := typed.null.mp null
  rcases waits with waits | waits <;> simp [state] at waits

theorem OpChange.wellTyped (change : OpChange slot op next) (typed : WellTyped slot op) :
    WellTyped slot next := by
  cases change with
  | failed waits =>
      have some := typed.of_waits waits
      exact ⟨by simp [some], by simp, fun type => ⟨(typed.activate type).1, by simp⟩, by simp⟩
  | notified before acks =>
      have type : op.type = .subscribe := typed.subscribed (by simp [before])
      rcases acks with rfl | rfl <;> constructor <;> simp [type]
  | succeeded before type =>
      rcases type with type | type | type <;> constructor <;> simp [type]
  | released => exact wellTyped_exoOpInit slot
  | activated first => exact wellTyped_queue (by simp) fun _ => first
  | sent before some =>
      exact ⟨by simp [some], by simp, fun type => ⟨(typed.activate type).1, by simp⟩, by simp⟩
  | resent => exact ⟨typed.null, typed.single, typed.activate, typed.subscribed⟩
  | renewed waits type => constructor <;> simp [type]
  | acked isState =>
      have type : op.type = .subscribe := by
        rcases isState with ⟨before, -⟩ | ⟨before, -⟩ <;>
          exact typed.subscribed (by simp [before])
      rcases isState with ⟨-, rfl⟩ | ⟨-, rfl⟩ <;> constructor <;> simp [type]
  | untyped before type =>
      have state := typed.null.mp type
      simp [before] at state

/-- From slot 1 on, the library keeps what the user asked for. -/
theorem OpChange.sameRequest (change : OpChange slot op next) (typed : WellTyped slot op)
    (later : 1 ≤ slot) : SameRequest op next := by
  cases change with
  | released _ type =>
      have first := (typed.activate type).1
      omega
  | activated first => omega
  | untyped _ type => exact ⟨type.symm, rfl, rfl, rfl⟩
  | _ => exact ⟨rfl, rfl, rfl, rfl⟩

end Ops

/-! ## Runs -/

/-- Every op of the array is well typed. -/
def AllTyped (sys : Sys) : Prop :=
  ∀ {slot op}, sys.ops[slot]? = some op → WellTyped slot op

section Runs

variable {sys after : Sys}

theorem AllTyped.setOp (typed : AllTyped sys) {i : Nat} {changed : ExoOp}
    (new : WellTyped i changed) : AllTyped (sys.setOp i changed) := by
  intro slot op atSlot
  obtain ⟨rfl, rfl⟩ | ⟨-, old⟩ := of_getElem?_setOp atSlot
  · exact new
  · exact typed old

theorem LibStep.allTyped (step : LibStep sys after) (typed : AllTyped sys) :
    AllTyped after := by
  intro slot next isNext
  obtain ⟨op, atSlot, rfl | change⟩ := step.op_origin isNext
  · exact typed atSlot
  · exact change.wellTyped (typed atSlot)

theorem UserStep.allTyped (step : UserStep sys after) (typed : AllTyped sys) :
    AllTyped after := by
  cases step with
  | initFailed => exact typed
  | initialised => exact typed
  | queued _ isType =>
      refine typed.setOp (wellTyped_queue ?_ ?_)
      · rcases isType with rfl | rfl | rfl <;> simp
      · rintro rfl
        simp at isType
  | opInit => exact typed.setOp (wellTyped_exoOpInit _)
  | opDone => exact typed.setOp (wellTyped_exoOpDone _ _)
  | memory => exact typed

/-- Only an op without type takes the library to a branch that should be
impossible. -/
theorem LibStep.unexpected (step : LibStep sys after) (typed : AllTyped sys) {slot : Nat}
    (logged : Event.unexpected slot ∈ after.log) : Event.unexpected slot ∈ sys.log := by
  obtain ⟨events, logs, grown⟩ := step.logs
  rw [grown] at logged
  apply (List.mem_append.mp logged).resolve_left
  intro new
  cases logs with
  | unexpected atSlot state type => exact state ((typed atSlot).null.mp type)
  | _ => simp at new

theorem UserStep.unexpected (step : UserStep sys after) {slot : Nat}
    (logged : Event.unexpected slot ∈ after.log) : Event.unexpected slot ∈ sys.log := by
  cases step <;> simpa using logged

/-- Well typed, and no impossible branch was taken so far. -/
theorem SysStep.keeps_typed (step : SysStep sys after)
    (typed : AllTyped sys ∧ ∀ slot, Event.unexpected slot ∉ sys.log) :
    AllTyped after ∧ ∀ slot, Event.unexpected slot ∉ after.log := by
  cases step with
  | lib _ step =>
      exact ⟨step.allTyped typed.1,
        fun slot logged => typed.2 slot (step.unexpected typed.1 logged)⟩
  | user step =>
      exact ⟨step.allTyped typed.1, fun slot logged => typed.2 slot (step.unexpected logged)⟩

theorem allTyped_powerOn (count : Nat) (heap : Mem) : AllTyped (powerOn count heap) := by
  intro slot op atSlot
  have isInit : op = exoOpInit :=
    List.eq_of_mem_replicate (List.mem_of_getElem? atSlot)
  rw [isInit]
  exact wellTyped_exoOpInit slot

/-- All states reached from the start are well typed. -/
theorem allTyped_of_reached {count : Nat} {heap : Mem}
    (reached : SysSteps (powerOn count heap) after) :
    AllTyped after ∧ ∀ slot, Event.unexpected slot ∉ after.log :=
  SysSteps.invariant SysStep.keeps_typed reached
    ⟨allTyped_powerOn count heap, by simp [powerOn]⟩

/-- The requests in the slots from 1 on stay as the user queued them. -/
theorem LibSteps.sameRequest (steps : LibSteps sys after) (typed : AllTyped sys)
    {slot : Nat} {op : ExoOp} (later : 1 ≤ slot) (atSlot : sys.ops[slot]? = some op) :
    ∃ next, after.ops[slot]? = some next ∧ SameRequest op next := by
  induction steps using Relation.ReflTransGen.head_induction_on generalizing op with
  | refl => exact ⟨op, atSlot, .refl op⟩
  | head step _ ih =>
      obtain ⟨middle, isMiddle, same | change⟩ := step.op_change atSlot
      all_goals obtain ⟨next, isNext, rest⟩ := ih (step.allTyped typed) isMiddle
      · rw [same] at rest
        exact ⟨next, isNext, rest⟩
      · exact ⟨next, isNext, (change.sameRequest (typed atSlot) later).trans rest⟩

/-- In every run types and states belong together, the impossible branches are never
taken, and `exo_operate` keeps the requests in the slots from 1 on. -/
theorem run_wellTyped {count : Nat} {heap : Mem} {calls : List UserCall}
    (ran : run (powerOn count heap) calls = .ok after) :
    (∀ slot op, after.ops[slot]? = some op → WellTyped slot op) ∧
    (∀ slot, Event.unexpected slot ∉ after.log) ∧
    ∀ env state final, exoOperate env after = .ok (state, final) →
      ∀ slot op, 1 ≤ slot → after.ops[slot]? = some op →
        ∃ next, final.ops[slot]? = some next ∧ SameRequest op next := by
  obtain ⟨typed, expected⟩ := allTyped_of_reached (run_steps ran)
  refine ⟨fun slot op => typed, expected, ?_⟩
  intro env state final operated slot op later atSlot
  exact (exoOperate_steps operated).1.sameRequest typed later atSlot

end Runs

/-- A read is queued and sent, together with the activation request in slot 0. -/
theorem run_wellTyped_read : ∃ after,
    run (powerOn 2 quietHeap) [quietInit, .read 1 1 3 8, quietOperate []] = .ok after ∧
      after.ops.map (fun op => (op.type, op.state)) =
        [(.activate, .pending), (.read, .pending)] ∧
      (∀ slot op, after.ops[slot]? = some op → WellTyped slot op) ∧
      ∀ slot, Event.unexpected slot ∉ after.log := by
  have computed : (run (powerOn 2 quietHeap) [quietInit, .read 1 1 3 8, quietOperate []]).map
      (fun after => after.ops.map fun op => (op.type, op.state)) =
        .ok [(.activate, .pending), (.read, .pending)] := by decide +kernel
  obtain ⟨after, ran, states⟩ := Exec.map_eq_ok.mp computed
  obtain ⟨typed, expected, -⟩ := run_wellTyped ran
  exact ⟨after, ran, states, typed, expected⟩

end ExositeCoap.Exosite
