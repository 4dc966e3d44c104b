import ExositeCoap.Exosite.System

/-!
# What happens to a single op

The life of one op as the library drives it: `LibStep.op_change` says what a step can
do to the op in a given slot.  The relation of type and state, the fields that the
library never changes and the freezing of finished ops follow from it.
-/

namespace ExositeCoap.Exosite

open Lib Wire Coap

/-- What a step of the library does to the op in slot `slot`, if anything. -/
inductive OpChange (slot : Nat) (op : ExoOp) : ExoOp → Prop where
  /-- rejected, reset, refused or given up -/
  | failed (waits : Waits op) : OpChange slot op { op with state := .error }
  | notified {mid : UInt16} {state : ExoRequestState} {obsSeq : UInt32} {timeout : UInt64}
      (before : op.state = .subscribed) (acks : state = .subAck ∨ state = .subAckNew) :
      OpChange slot op { op with mid, state, obsSeq, timeout }
  | succeeded {obsSeq : UInt32} {timeout : UInt64} (before : op.state = .pending)
      (type : op.type = .write ∨ op.type = .read ∨ op.type = .subscribe) :
      OpChange slot op { op with state := .success, obsSeq, timeout }
  /-- an activation request is answered -/
  | released (before : op.state = .pending) (type : op.type = .activate) :
      OpChange slot op exoOpInit
  /-- an activation request takes the slot -/
  | activated (first : slot = 0) : OpChange slot op (exoActivate op)
  | sent {mid : UInt16} {token timeout : UInt64} (before : op.state = .new)
      (typed : op.type ≠ .null) :
      OpChange slot op { op with state := .pending, timeout, mid, token }
  | resent {retries : UInt8} {timeout : UInt64} (waits : Waits op) :
      OpChange slot op { op with retries, timeout }
  | renewed (waits : Waits op) (type : op.type = .subscribe) :
      OpChange slot op { op with state := .new }
  | acked {state : ExoRequestState}
      (isState : (op.state = .subAck ∧ state = .subscribed) ∨
        (op.state = .subAckNew ∧ state = .success)) :
      OpChange slot op { op with state }
  /-- a new request without type -/
  | untyped (before : op.state = .new) (type : op.type = .null) :
      OpChange slot op { op with type := .null }

/-- The op in a slot after another op was put somewhere. -/
theorem getElem?_setOp {sys : Sys} {i slot : Nat} {changed op : ExoOp}
    (atSlot : sys.ops[slot]? = some op) :
    (sys.setOp i changed).ops[slot]? = some (if i = slot then changed else op) := by
  have inRange := (List.getElem?_eq_some_iff.mp atSlot).1
  rw [Sys.setOp_ops, List.getElem?_set]
  by_cases same : i = slot
  · simp [same, inRange]
  · simp [same, atSlot]

section OpChanges

variable {sys after : Sys} {slot : Nat} {op : ExoOp}

/-- The other way round: where the op in a slot comes from. -/
theorem of_getElem?_setOp {i : Nat} {changed found : ExoOp}
    (atSlot : (sys.setOp i changed).ops[slot]? = some found) :
    (i = slot ∧ found = changed) ∨ (i ≠ slot ∧ sys.ops[slot]? = some found) := by
  rw [Sys.setOp_ops, List.getElem?_set] at atSlot
  split_ifs at atSlot with same inRange
  · cases atSlot
    exact Or.inl ⟨same, rfl⟩
  · exact Or.inr ⟨same, atSlot⟩

/-- A single op is replaced. -/
theorem setOp_change {i : Nat} {old changed : ExoOp} (isOld : sys.ops[i]? = some old)
    (atSlot : sys.ops[slot]? = some op) (change : i = slot → OpChange slot old changed) :
    ∃ next, (sys.setOp i changed).ops[slot]? = some next ∧
      (next = op ∨ OpChange slot op next) := by
  refine ⟨_, getElem?_setOp atSlot, ?_⟩
  split_ifs with same
  · subst same
    rw [isOld] at atSlot
    cases atSlot
    exact Or.inr (change rfl)
  · exact Or.inl rfl

theorem Receives.waits (receives : Receives op) : Waits op :=
  receives.imp_right And.left

theorem Reaction.op_change {rx : Received} {i : Nat} {old : ExoOp}
    (isOld : sys.ops[i]? = some old) (reaction : Reaction rx sys i old after)
    (atSlot : sys.ops[slot]? = some op) :
    ∃ next, after.ops[slot]? = some next ∧ (next = op ∨ OpChange slot op next) := by
  have failed : Waits old → ∃ next,
      (sys.setOp i { old with state := .error }).ops[slot]? = some next ∧
        (next = op ∨ OpChange slot op next) :=
    fun waits => setOp_change isOld atSlot fun _ => .failed waits
  cases reaction with
  | ignored => exact ⟨op, atSlot, Or.inl rfl⟩
  | denied state => exact failed (Or.inl state)
  | emptied => exact ⟨op, atSlot, Or.inl rfl⟩
  | rejected receives => exact failed receives.waits
  | notified before acks =>
      exact setOp_change isOld atSlot fun _ => .notified before acks
  | written state type =>
      exact setOp_change isOld atSlot fun _ => .succeeded state (Or.inl type)
  | delivered state type =>
      exact setOp_change isOld atSlot fun _ => .succeeded state (Or.inr type)
  | activated state type => exact setOp_change isOld atSlot fun _ => .released state type
  | notActivated state type => exact setOp_change isOld atSlot fun _ => .released state type
  | refused state => exact failed (Or.inr state)
  | @reactivated first state _ _ atZero _ =>
      -- slot 0 may be the slot that failed
      have failedOp := @getElem?_setOp sys i slot { old with state := .error } op atSlot
      refine ⟨_, getElem?_setOp failedOp, ?_⟩
      by_cases zero : 0 = slot
      · subst zero
        rw [if_pos rfl]
        rw [Sys.setOp_ops, atZero] at failedOp
        have isFirst := Option.some.inj failedOp
        have same : exoActivate first = exoActivate op := by
          rw [isFirst]
          split_ifs with here
          · subst here
            rw [isOld] at atSlot
            cases atSlot
            rfl
          · rfl
        rw [same]
        exact Or.inr (.activated rfl)
      · rw [if_neg zero]
        split_ifs with here
        · subst here
          rw [isOld] at atSlot
          cases atSlot
          exact Or.inr (.failed (Or.inr state))
        · exact Or.inl rfl
  | notFound state => exact failed (Or.inr state)
  | reset state => exact failed state.symm

theorem SlotStep.op_change {env : SlotEnv} {i : Nat} {old : ExoOp}
    (isOld : sys.ops[i]? = some old) (step : SlotStep env sys i old after)
    (atSlot : sys.ops[slot]? = some op) :
    ∃ next, after.ops[slot]? = some next ∧ (next = op ∨ OpChange slot op next) := by
  cases step with
  | idle => exact ⟨op, atSlot, Or.inl rfl⟩
  | unexpectedNew state type => exact setOp_change isOld atSlot fun _ => .untyped state type
  | unexpectedWait => exact ⟨op, atSlot, Or.inl rfl⟩
  | sent state built =>
      have typed : old.type ≠ .null := by
        intro null
        rw [exoBuildRequest, null] at built
        cases built
      exact @setOp_change (sys.sentRequest i true _ _ true) _ _ _ _ _ isOld atSlot
        fun _ => .sent state typed
  | unsent => exact ⟨op, atSlot, Or.inl rfl⟩
  | resent waits =>
      exact @setOp_change (sys.sentRequest i false _ _ true) _ _ _ _ _ isOld atSlot
        fun _ => .resent waits
  | unresent => exact ⟨op, atSlot, Or.inl rfl⟩
  | gaveUp waits => exact setOp_change isOld atSlot fun _ => .failed waits
  | renewed waits type => exact setOp_change isOld atSlot fun _ => .renewed waits type
  | acked isState =>
      exact @setOp_change (sys.record _) _ _ _ _ _ isOld atSlot fun _ => .acked isState
  | unacked => exact ⟨op, atSlot, Or.inl rfl⟩

/-- A step of the library leaves an op as it is or changes it in a known way. -/
theorem LibStep.op_change (step : LibStep sys after) (atSlot : sys.ops[slot]? = some op) :
    ∃ next, after.ops[slot]? = some next ∧ (next = op ∨ OpChange slot op next) := by
  cases step with
  | react isOld _ reaction => exact reaction.op_change isOld atSlot
  | passed => exact ⟨op, atSlot, Or.inl rfl⟩
  | handled => exact ⟨op, atSlot, Or.inl rfl⟩
  | replied => exact ⟨op, atSlot, Or.inl rfl⟩
  | slot isOld step => exact step.op_change isOld atSlot
  | @activate _ first _ isFirst _ =>
      refine setOp_change isFirst atSlot fun zero => ?_
      subst zero
      exact .activated rfl

/-- The array keeps its length. -/
theorem LibStep.ops_length (step : LibStep sys after) :
    after.ops.length = sys.ops.length := by
  cases step with
  | react _ _ reaction => cases reaction <;> simp [Sys.setOp, Sys.record]
  | slot _ step => cases step <;> simp [Sys.setOp, Sys.record, Sys.sentRequest]
  | _ => simp [Sys.setOp, Sys.record]

theorem LibSteps.ops_length (steps : LibSteps sys after) :
    after.ops.length = sys.ops.length := by
  induction steps with
  | refl => rfl
  | tail _ step ih => exact step.ops_length.trans ih

theorem SysSteps.ops_length (steps : SysSteps sys after) :
    after.ops.length = sys.ops.length := by
  induction steps with
  | refl => rfl
  | tail _ step ih =>
      refine Eq.trans ?_ ih
      cases step with
      | lib _ step => exact step.ops_length
      | user step => cases step <;> simp [Sys.setOp, Sys.record]

/-- Where the op in a slot comes from. -/
theorem LibStep.op_origin {next : ExoOp} (step : LibStep sys after)
    (isNext : after.ops[slot]? = some next) :
    ∃ op, sys.ops[slot]? = some op ∧ (next = op ∨ OpChange slot op next) := by
  have inRange := (List.getElem?_eq_some_iff.mp isNext).1
  rw [step.ops_length] at inRange
  have isOld := List.getElem?_eq_getElem inRange
  obtain ⟨found, isFound, origin⟩ := step.op_change isOld
  rw [isFound] at isNext
  cases isNext
  exact ⟨_, isOld, origin⟩

end OpChanges

end ExositeCoap.Exosite
