import ExositeCoap.Exosite.Typing

/-!
# What `EXO_IDLE` says

`exo_operate` returns `EXO_IDLE` when no op is new or pending.  A notification that could
not be acknowledged, because the send failed, is in neither of these states, so the caller
is told that nothing is left to do while a reply is still owed.
-/

namespace ExositeCoap.Exosite

open Lib Wire Coap

/-- A notification was stored for the op and has to be acknowledged. -/
def OwesAck (op : ExoOp) : Prop := op.state = .subAck ∨ op.state = .subAckNew

/-- Single requests have ended, subscriptions wait for their next notification. -/
structure NothingOutstanding (ops : List ExoOp) : Prop where
  single : ∀ (slot : Nat) (op : ExoOp), 1 ≤ slot → ops[slot]? = some op →
    op.type = .read ∨ op.type = .write → op.state = .success ∨ op.state = .error
  sustained : ∀ (slot : Nat) (op : ExoOp), ops[slot]? = some op → op.type = .subscribe →
    op.state = .subscribed ∨ op.state = .success ∨ op.state = .error
  none : ∀ op ∈ ops, op.state ≠ .new ∧ op.state ≠ .pending ∧ op.state ≠ .subAck ∧
    op.state ≠ .subAckNew

/-- The send succeeds in every slot whose op owes an acknowledgement when
`exo_process_active_ops` starts. -/
def AcksSent (env : OperateEnv) (sys : Sys) : Prop :=
  ∀ ready received, exoReady env.time sys = .ok ready →
    exoProcessWaitingDatagrams ready env.datagrams = .ok received →
      ∀ slot op, received.ops[slot]? = some op → OwesAck op → (env.slots slot).sendOk = true

/-! ## The pass over the slots -/

section Pass

variable {sys after : Sys} {i : Nat} {op : ExoOp}

/-- A slot changes no other one. -/
theorem SlotStep.ops_other {env : SlotEnv} (step : SlotStep env sys i op after) {j : Nat}
    (other : j ≠ i) : after.ops[j]? = sys.ops[j]? := by
  cases step with
  | idle | unexpectedWait | unsent | unresent | unacked => rfl
  | _ => exact List.getElem?_set_ne other.symm

/-- The op that owes an acknowledgement afterwards is the one whose acknowledgement could
not be sent. -/
theorem exoProcessOp_owesAck {now : UInt64} {env : SlotEnv} (atSlot : sys.ops[i]? = some op)
    (ran : exoProcessOp now env sys i op = .ok after) :
    ∃ next, after.ops[i]? = some next ∧ (OwesAck next ↔ OwesAck op ∧ env.sendOk = false) := by
  have replaced : ∀ {changed : ExoOp}, (sys.setOp i changed).ops[i]? = some changed := by
    intro changed
    have found := @getElem?_setOp sys i i changed op atSlot
    rwa [if_pos rfl] at found
  by_cases owes : OwesAck op
  · rw [exoProcessOp_eq_ack now owes, exoSendAck_eq] at ran
    cases ran
    cases ok : env.sendOk with
    | true =>
        refine ⟨_, replaced, ?_⟩
        simp only [OwesAck]
        split_ifs <;> simp
    | false => exact ⟨op, atSlot, by simp [owes]⟩
  · have settled : ∀ {next : ExoOp}, ¬ OwesAck next →
        (OwesAck next ↔ OwesAck op ∧ env.sendOk = false) := by
      intro next free
      exact ⟨fun impossible => absurd impossible free, fun both => absurd both.1 owes⟩
    cases exoProcessOp_cases ran with
    | idle => exact ⟨op, atSlot, settled owes⟩
    | unexpectedNew state => exact ⟨_, replaced, settled (by simp [OwesAck, state])⟩
    | unexpectedWait => exact ⟨op, atSlot, settled owes⟩
    | sent => exact ⟨_, replaced, settled (by simp [OwesAck])⟩
    | unsent => exact ⟨op, atSlot, settled owes⟩
    | resent => exact ⟨_, replaced, settled owes⟩
    | unresent => exact ⟨op, atSlot, settled owes⟩
    | gaveUp => exact ⟨_, replaced, settled (by simp [OwesAck])⟩
    | renewed => exact ⟨_, replaced, settled (by simp [OwesAck])⟩
    | acked isState => exact absurd (isState.imp And.left And.left) owes
    | unacked state => exact absurd state owes

/-- The pass looks at every slot once. -/
theorem exoActiveLoop_owesAck {now : UInt64} {envs : Nat → SlotEnv} {left slot : Nat}
    (ran : exoActiveLoop now envs sys left i = .ok after) (atSlot : sys.ops[slot]? = some op) :
    ∃ next, after.ops[slot]? = some next ∧
      (slot < i → next = op) ∧
      (i ≤ slot → slot < i + left →
        (OwesAck next ↔ OwesAck op ∧ (envs slot).sendOk = false)) := by
  -- the slot is as it was until its turn, and its turn comes once
  have passed := @exoActiveLoop_rule _ _ _ _ _
    (fun turn state => i ≤ turn ∧ ∃ next, state.ops[slot]? = some next ∧
      (slot < i ∨ turn ≤ slot → next = op) ∧
      (i ≤ slot → slot < turn → (OwesAck next ↔ OwesAck op ∧ (envs slot).sendOk = false)))
    _ ran ⟨Nat.le_refl _, op, atSlot, fun _ => rfl, fun lower upper => by omega⟩ ?_
  · obtain ⟨-, next, isNext, before, later⟩ := passed
    exact ⟨next, isNext, fun less => before (Or.inl less), later⟩
  · rintro state after turn current here processed ⟨begun, between, isBetween, before, later⟩
    refine ⟨Nat.le_succ_of_le begun, ?_⟩
    by_cases same : slot = turn
    · subst same
      rw [here] at isBetween
      cases isBetween
      obtain ⟨next, isNext, owes⟩ := exoProcessOp_owesAck here processed
      rw [before (Or.inr (Nat.le_refl _))] at owes
      exact ⟨next, isNext, fun either => by omega, fun _ _ => owes⟩
    · rw [← (exoProcessOp_cases processed).ops_other same] at isBetween
      exact ⟨between, isBetween, fun either => before (by omega),
        fun lower upper => later lower (by omega)⟩

end Pass

/-! ## The result -/

/-- `EXO_IDLE` only says that no op is new or pending. -/
theorem exoStateOf_eq_idle {ops : List ExoOp} :
    exoStateOf ops = .exoIdle ↔ ∀ op ∈ ops, op.state ≠ .new ∧ op.state ≠ .pending := by
  unfold exoStateOf
  split_ifs with new pending
  · simp only [false_iff]
    obtain ⟨op, member, isNew⟩ := List.any_eq_true.mp new
    exact fun none => (none op member).1 (of_decide_eq_true isNew)
  · simp only [false_iff]
    obtain ⟨op, member, isPending⟩ := List.any_eq_true.mp pending
    exact fun none => (none op member).2 (of_decide_eq_true isPending)
  · simp only [true_iff]
    intro op member
    exact ⟨fun isNew => new (List.any_eq_true.mpr ⟨op, member, decide_eq_true isNew⟩),
      fun isPending => pending (List.any_eq_true.mpr ⟨op, member, decide_eq_true isPending⟩)⟩

/-- With `EXO_IDLE`, something is outstanding only if an acknowledgement is owed. -/
theorem nothingOutstanding_iff {sys : Sys} (typed : AllTyped sys)
    (idle : exoStateOf sys.ops = .exoIdle) :
    NothingOutstanding sys.ops ↔ ∀ op ∈ sys.ops, ¬ OwesAck op := by
  rw [exoStateOf_eq_idle] at idle
  constructor
  · intro nothing op member owes
    obtain ⟨-, -, old, new⟩ := nothing.none op member
    exact owes.elim old new
  · intro free
    refine ⟨?_, ?_, ?_⟩
    · intro slot op _ atSlot type
      obtain ⟨notNew, notPending⟩ := idle op (List.mem_of_getElem? atSlot)
      have state := (typed atSlot).single type
      simpa [notNew, notPending] using state
    · intro slot op atSlot type
      have member := List.mem_of_getElem? atSlot
      obtain ⟨notNew, notPending⟩ := idle op member
      have notOwed := free op member
      have notNull : op.state ≠ .null := by
        intro null
        rw [(typed atSlot).null.mpr null] at type
        cases type
      cases state : op.state <;> simp_all [OwesAck]
    · intro op member
      obtain ⟨notNew, notPending⟩ := idle op member
      exact ⟨notNew, notPending, fun old => free op member (Or.inl old),
        fun new => free op member (Or.inr new)⟩

/-- The state that `exo_operate` returns after `exo_init`. -/
theorem exoOperate_state {env : OperateEnv} {sys after : Sys} {state : ExoState}
    (ran : exoOperate env sys = .ok (state, after)) (on : sys.deviceState ≠ .uninitialized) :
    state = exoStateOf after.ops := by
  unfold exoOperate at ran
  split_ifs at ran with off
  · exact absurd off on
  · obtain ⟨ready, -, ran⟩ := Exec.bind_eq_ok.mp ran
    obtain ⟨received, -, ran⟩ := Exec.bind_eq_ok.mp ran
    obtain ⟨processed, -, ran⟩ := Exec.bind_eq_ok.mp ran
    cases ran
    rfl
  · obtain ⟨ready, -, ran⟩ := Exec.bind_eq_ok.mp ran
    obtain ⟨received, -, ran⟩ := Exec.bind_eq_ok.mp ran
    obtain ⟨processed, -, ran⟩ := Exec.bind_eq_ok.mp ran
    cases ran
    rfl

/-- In every reachable state, when `exo_operate` returns `EXO_IDLE`, nothing is outstanding
exactly when every acknowledgement that was owed could be sent. -/
theorem exoOperate_idle_iff {count : Nat} {heap : Mem} {sys after : Sys} {env : OperateEnv}
    (reached : SysSteps (powerOn count heap) sys)
    (ran : exoOperate env sys = .ok (.exoIdle, after)) :
    NothingOutstanding after.ops ↔ AcksSent env sys := by
  obtain ⟨off, rfl⟩ | ⟨on, ready, received, isReady, waiting, active⟩ := exoOperate_parts ran
  · rw [exoOperate, if_pos off] at ran
    cases ran
  · have steps := (exoOperate_steps ran).1.sysSteps on
    rw [nothingOutstanding_iff (allTyped_of_reached (reached.trans steps)).1
      (exoOperate_state ran on).symm]
    constructor
    · intro free other next isOther isNext slot op atSlot owes
      rw [isReady] at isOther
      cases isOther
      rw [waiting] at isNext
      cases isNext
      by_contra failed
      obtain ⟨final, isFinal, -, iff⟩ := exoActiveLoop_owesAck active atSlot
      have inRange := (List.getElem?_eq_some_iff.mp atSlot).1
      exact free final (List.mem_of_getElem? isFinal)
        ((iff (Nat.zero_le _) (by omega)).mpr ⟨owes, by simpa using failed⟩)
    · intro sent final member owes
      obtain ⟨slot, inRange, isFinal⟩ := List.getElem_of_mem member
      rw [LibSteps.ops_length (exoActiveLoop_callSteps active).libSteps] at inRange
      have atSlot := List.getElem?_eq_getElem inRange
      obtain ⟨next, isNext, -, iff⟩ := exoActiveLoop_owesAck active atSlot
      rw [List.getElem?_eq_some_iff] at isNext
      obtain ⟨_, isNext⟩ := isNext
      rw [isFinal] at isNext
      subst isNext
      obtain ⟨owed, failed⟩ := (iff (Nat.zero_le _) (by omega)).mp owes
      rw [sent ready received isReady waiting slot _ atSlot owed] at failed
      cases failed

/-- A subscription is acknowledged and released, and the device is activated. -/
def subscribedCalls : List UserCall :=
  [quietInit, .subscribe 1 1 3 8, quietOperate [],
    quietOperate [[0x60, 0x45, 0, 7, 0xFF] ++ List.replicate 40 0x31,
      [0x62, 0x45, 0, 8, 0x11, 0x22, 0x61, 0x05, 0xFF, 0x78]], .opDone 1]

/-- A notification arrives, and sends succeed or fail. -/
def notifiedEnv (sendOk : Bool) : OperateEnv :=
  ⟨10, [arrives [0x42, 0x45, 0, 99, 0x11, 0x22, 0x61, 0x06, 0xFF, 0x79]], 10,
    fun _ => ⟨quietBuffer [], 0x2211, sendOk, 10, 0⟩⟩

/-- The acknowledgement cannot be sent, and `exo_operate` returns `EXO_IDLE`. -/
theorem exoOperate_idle_unacked : ∃ sys after,
    run (powerOn 2 quietHeap) subscribedCalls = .ok sys ∧
      exoOperate (notifiedEnv false) sys = .ok (.exoIdle, after) ∧
      after.ops.map (·.state) = [.null, .subAckNew] ∧ ¬ NothingOutstanding after.ops := by
  have computed : (run (powerOn 2 quietHeap) subscribedCalls >>= fun sys =>
      (exoOperate (notifiedEnv false) sys).map fun result =>
        (result.1, result.2.ops.map (·.state))) = .ok (.exoIdle, [.null, .subAckNew]) := by
    decide +kernel
  obtain ⟨sys, ran, computed⟩ := Exec.bind_eq_ok.mp computed
  obtain ⟨⟨state, after⟩, operated, values⟩ := Exec.map_eq_ok.mp computed
  simp only [Prod.mk.injEq] at values
  obtain ⟨rfl, states⟩ := values
  refine ⟨sys, after, ran, operated, states, fun nothing => ?_⟩
  have owed : ExoRequestState.subAckNew ∈ after.ops.map (·.state) := by
    rw [states]
    decide
  obtain ⟨op, member, state⟩ := List.mem_map.mp owed
  exact (nothing.none op member).2.2.2 state

/-- With a send that succeeds, nothing is outstanding. -/
theorem exoOperate_idle_iff_acked : ∃ sys after,
    run (powerOn 2 quietHeap) subscribedCalls = .ok sys ∧
      exoOperate (notifiedEnv true) sys = .ok (.exoIdle, after) ∧
      (NothingOutstanding after.ops ↔ AcksSent (notifiedEnv true) sys) ∧
      NothingOutstanding after.ops := by
  have computed : (run (powerOn 2 quietHeap) subscribedCalls >>= fun sys =>
      (exoOperate (notifiedEnv true) sys).map fun result => result.1) = .ok .exoIdle := by
    decide +kernel
  obtain ⟨sys, ran, computed⟩ := Exec.bind_eq_ok.mp computed
  obtain ⟨⟨state, after⟩, operated, isIdle⟩ := Exec.map_eq_ok.mp computed
  have isIdle : state = .exoIdle := isIdle
  subst isIdle
  have exactly := exoOperate_idle_iff (run_steps ran) operated
  exact ⟨sys, after, ran, operated, exactly, exactly.mpr fun _ _ _ _ _ _ _ _ => rfl⟩

end ExositeCoap.Exosite
