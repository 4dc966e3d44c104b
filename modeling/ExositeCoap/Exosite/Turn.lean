import ExositeCoap.Exosite.Idle
import ExositeCoap.Exosite.Queue
import ExositeCoap.Exosite.Retry

/-!
# One call of `exo_operate` for a read or write

A datagram may end the request.  What remains is looked at once, in the pass over the slots:
it is sent, sent again, given up or left alone, as `Visit` says.
-/

namespace ExositeCoap.Exosite

open Lib Wire Coap

/-- What the pass over the slots does to a read or write. -/
inductive Visit (now : UInt64) (env : SlotEnv) (op : ExoOp) : ExoOp → Prop where
  | finished (state : exoIsOpFinished op = true) : Visit now env op op
  | early (state : op.state = .pending) (early : now < op.timeout) : Visit now env op op
  | unsent (failed : env.sendOk = false) : Visit now env op op
  | first {mid : UInt16} {token : UInt64} (state : op.state = .new) :
      Visit now env op { op with state := .pending, timeout := env.time + 4000000, mid, token }
  | again (state : op.state = .pending) (overdue : op.timeout ≤ now)
      (few : op.retries < coapMaxRetransmit) :
      Visit now env op { op with retries := op.retries + 1,
                                 timeout := env.time + (op.retries + 1).toUInt64 * 1000000 +
                                   env.jitter % 1500000 }
  | gaveUp (state : op.state = .pending) (overdue : op.timeout ≤ now)
      (spent : ¬ op.retries < coapMaxRetransmit) : Visit now env op { op with state := .error }

/-- A finished request stays as it is. -/
theorem Visit.eq_of_finished {now : UInt64} {env : SlotEnv} {op next : ExoOp}
    (visit : Visit now env op next) (finished : exoIsOpFinished op = true) : next = op := by
  simp only [exoIsOpFinished, Bool.or_eq_true, decide_eq_true_eq] at finished
  cases visit with
  | first state => simp [state] at finished
  | again state => simp [state] at finished
  | gaveUp state => simp [state] at finished
  | _ => rfl

/-- Only `exo_init` switches the library off. -/
theorem call_stays_on {action : UserCall} {sys after : Sys} (called : call sys action = .ok after)
    (other : ∀ env vendor model serial, action ≠ .init env vendor model serial)
    (on : sys.deviceState ≠ .uninitialized) : after.deviceState ≠ .uninitialized := by
  cases action with
  | init env vendor model serial => exact absurd rfl (other env vendor model serial)
  | memory =>
      cases called
      exact on
  | operate env =>
      obtain ⟨⟨state, result⟩, operated, same⟩ := Exec.bind_eq_ok.mp called
      cases same
      exact LibSteps.deviceState (exoOperate_steps operated).1 on
  | _ =>
      obtain ⟨op, -, same⟩ := Exec.bind_eq_ok.mp called
      cases same
      exact on

section Slots

variable {sys after : Sys} {slot : Nat} {op : ExoOp}

/-! ## Datagrams -/

/-- A datagram leaves a read or write as it is, or ends it. -/
theorem Reaction.ends {rx : Received} {i : Nat} {old : ExoOp} (isOld : sys.ops[i]? = some old)
    (reaction : Reaction rx sys i old after) (typed : AllTyped sys) (positive : 1 ≤ slot)
    (atSlot : sys.ops[slot]? = some op) (type : Answerable op) :
    after.ops[slot]? = some op ∨ ∃ next, after.ops[slot]? = some next ∧
      exoIsOpFinished next = true := by
  have replaced : ∀ {changed : ExoOp}, (i = slot → exoIsOpFinished changed = true) →
      (sys.ops.set i changed)[slot]? = some op ∨
        ∃ next, (sys.ops.set i changed)[slot]? = some next ∧ exoIsOpFinished next = true := by
    intro changed ends
    have found := @getElem?_setOp sys i slot changed op atSlot
    rw [Sys.setOp_ops] at found
    by_cases same : i = slot
    · rw [if_pos same] at found
      exact Or.inr ⟨changed, found, ends same⟩
    · rw [if_neg same] at found
      exact Or.inl found
  have other : i = slot → old.type = .activate → False := by
    rintro rfl activate
    rw [isOld] at atSlot
    cases atSlot
    rcases type with type | type <;> simp [activate] at type
  cases reaction with
  | ignored => exact Or.inl atSlot
  | emptied => exact Or.inl atSlot
  | denied => exact replaced fun _ => rfl
  | rejected => exact replaced fun _ => rfl
  | notified before =>
      refine replaced ?_
      rintro rfl
      rw [isOld] at atSlot
      cases atSlot
      have subscribed := (typed isOld).subscribed (by simp [before])
      rcases type with type | type <;> simp [subscribed] at type
  | written => exact replaced fun _ => rfl
  | delivered => exact replaced fun _ => rfl
  | activated _ activate => exact replaced fun same => (other same activate).elim
  | notActivated _ activate => exact replaced fun same => (other same activate).elim
  | refused => exact replaced fun _ => rfl
  | reactivated =>
      have zero : 0 ≠ slot := by omega
      rw [Sys.setOp_ops, List.getElem?_set_ne zero]
      exact replaced fun _ => rfl
  | notFound => exact replaced fun _ => rfl
  | reset => exact replaced fun _ => rfl

/-- Until its turn in the pass over the slots, a read or write only ends. -/
theorem exoHandleDatagram_ends {rx : Received} {goOn : Bool}
    (ran : exoHandleDatagram rx sys = .ok (goOn, after)) (typed : AllTyped sys)
    (positive : 1 ≤ slot) (atSlot : sys.ops[slot]? = some op) (type : Answerable op) :
    after.ops[slot]? = some op ∨ ∃ next, after.ops[slot]? = some next ∧
      exoIsOpFinished next = true := by
  cases exoHandleDatagram_cases ran with
  | invalid => exact Or.inl atSlot
  | @taken events _ _ result _ _ isOld _ round =>
      exact @Reaction.ends (sys.logged events) result _ _ _ _ _ isOld
        (reaction_of_round round).2 typed positive atSlot type
  | reset => exact Or.inl atSlot
  | dropped => exact Or.inl atSlot

theorem exoProcessWaitingDatagrams_ends {datagrams : List Received}
    (ran : exoProcessWaitingDatagrams sys datagrams = .ok after) (typed : AllTyped sys)
    (positive : 1 ≤ slot) (atSlot : sys.ops[slot]? = some op) (type : Answerable op) :
    ∃ next, after.ops[slot]? = some next ∧ SameRequest op next ∧
      (next = op ∨ exoIsOpFinished next = true) := by
  have steps := (exoProcessWaitingDatagrams_callSteps ran).libSteps
  obtain ⟨same, isSame, request⟩ := LibSteps.sameRequest steps typed positive atSlot
  refine ⟨same, isSame, request, ?_⟩
  have ends : AllTyped after ∧ (after.ops[slot]? = some op ∨
      ∃ next, after.ops[slot]? = some next ∧ exoIsOpFinished next = true) := by
    refine @exoProcessWaitingDatagrams_rule _ _ _ (fun state => AllTyped state ∧
      (state.ops[slot]? = some op ∨
        ∃ next, state.ops[slot]? = some next ∧ exoIsOpFinished next = true)) ran
      ⟨typed, Or.inl atSlot⟩ ?_
    rintro arrival goOn next - handled ⟨isTyped, stays | ⟨done, isDone, finished⟩⟩
    · exact ⟨LibSteps.allTyped (exoHandleDatagram_steps handled) isTyped,
        exoHandleDatagram_ends handled isTyped positive stays type⟩
    · exact ⟨LibSteps.allTyped (exoHandleDatagram_steps handled) isTyped,
        Or.inr ⟨done, LibSteps.frozen (exoHandleDatagram_steps handled) positive isDone finished,
          finished⟩⟩
  rw [isSame] at ends
  obtain ⟨-, same | ⟨next, isNext, finished⟩⟩ := ends
  · exact Or.inl (Option.some.inj same)
  · rw [Option.some.inj isNext]
    exact Or.inr finished

/-! ## The turn -/

/-- Reads and writes have builders. -/
theorem exoBuildRequest_some {env : SlotEnv} {result : Option (Request × CoapPdu)}
    (type : Answerable op) (built : exoBuildRequest env sys op = .ok result) :
    ∃ request pdu, result = some (request, pdu) := by
  unfold exoBuildRequest at built
  rcases type with type | type
  · rw [type] at built
    obtain ⟨text, -, built⟩ := Exec.bind_eq_ok.mp built
    obtain ⟨⟨err, pdu⟩, -, built⟩ := Exec.bind_eq_ok.mp built
    cases built
    exact ⟨_, pdu, rfl⟩
  · rw [type] at built
    obtain ⟨text, -, built⟩ := Exec.bind_eq_ok.mp built
    obtain ⟨value, -, built⟩ := Exec.bind_eq_ok.mp built
    obtain ⟨⟨err, pdu⟩, -, built⟩ := Exec.bind_eq_ok.mp built
    cases built
    exact ⟨_, pdu, rfl⟩

theorem exoSendNew_visit {env : SlotEnv} {now : UInt64} (atSlot : sys.ops[slot]? = some op)
    (type : Answerable op) (state : op.state = .new) (ran : exoSendNew env sys slot op = .ok after) :
    ∃ next, after.ops[slot]? = some next ∧ Visit now env op next := by
  obtain ⟨result, built, ran⟩ := Exec.bind_eq_ok.mp ran
  obtain ⟨request, pdu, rfl⟩ := exoBuildRequest_some type built
  obtain ⟨datagram, -, ran⟩ := Exec.bind_eq_ok.mp ran
  split_ifs at ran with sends
  · obtain ⟨mid, -, ran⟩ := Exec.bind_eq_ok.mp ran
    obtain ⟨token, -, ran⟩ := Exec.bind_eq_ok.mp ran
    cases ran
    refine ⟨_, @getElem?_setOp (sys.sentRequest slot true request datagram _) slot slot _ op
      atSlot, ?_⟩
    rw [if_pos rfl]
    exact .first state
  · cases ran
    exact ⟨op, atSlot, .unsent (Bool.eq_false_of_not_eq_true sends)⟩

/-- A retransmission moves the timeout. -/
theorem exoSendAgain_visit {env : SlotEnv} {now : UInt64} (atSlot : sys.ops[slot]? = some op)
    (type : Answerable op) (state : op.state = .pending) (overdue : op.timeout ≤ now)
    (few : op.retries < coapMaxRetransmit)
    (ran : exoSendAgain env sys slot op = .ok after) :
    ∃ next, after.ops[slot]? = some next ∧ Visit now env op next := by
  obtain ⟨result, built, ran⟩ := Exec.bind_eq_ok.mp ran
  obtain ⟨request, pdu, rfl⟩ := exoBuildRequest_some type built
  obtain ⟨⟨midErr, withMid⟩, -, ran⟩ := Exec.bind_eq_ok.mp ran
  obtain ⟨⟨tokenErr, again⟩, -, ran⟩ := Exec.bind_eq_ok.mp ran
  obtain ⟨datagram, -, ran⟩ := Exec.bind_eq_ok.mp ran
  split_ifs at ran with sends
  · cases ran
    refine ⟨_, @getElem?_setOp (sys.sentRequest slot false request datagram _) slot slot _ op
      atSlot, ?_⟩
    rw [if_pos rfl]
    exact .again state overdue few
  · cases ran
    exact ⟨op, atSlot, .unsent (Bool.eq_false_of_not_eq_true sends)⟩

theorem exoTimedOut_answerable (env : SlotEnv) (sys : Sys) (i : Nat) (type : Answerable op) :
    exoTimedOut env sys i op =
      if op.retries < coapMaxRetransmit then exoSendAgain env sys i op
      else return sys.setOp i { op with state := .error } := by
  unfold exoTimedOut
  split
  next => rfl
  next => rfl
  next other => rcases type with type | type <;> simp [other] at type
  next other => rcases type with type | type <;> simp [other] at type
  next other => rcases type with type | type <;> simp [other] at type

theorem exoProcessOp_visit {now : UInt64} {env : SlotEnv} (atSlot : sys.ops[slot]? = some op)
    (typed : WellTyped slot op) (type : Answerable op)
    (ran : exoProcessOp now env sys slot op = .ok after) :
    ∃ next, after.ops[slot]? = some next ∧ Visit now env op next := by
  have states := typed.single type
  simp only [List.mem_cons, List.not_mem_nil, or_false] at states
  unfold exoProcessOp at ran
  rcases states with state | state | state | state <;> simp only [state] at ran
  · exact exoSendNew_visit atSlot type state ran
  · split_ifs at ran with overdue
    · rw [exoTimedOut_answerable env sys slot type] at ran
      split_ifs at ran with few
      · exact exoSendAgain_visit atSlot type state overdue few ran
      · cases ran
        refine ⟨_, getElem?_setOp atSlot, ?_⟩
        rw [if_pos rfl]
        exact .gaveUp state overdue few
    · cases ran
      exact ⟨op, atSlot, .early state (UInt64.not_le.mp overdue)⟩
  · cases ran
    exact ⟨op, atSlot, .finished (by simp [exoIsOpFinished, state])⟩
  · cases ran
    exact ⟨op, atSlot, .finished (by simp [exoIsOpFinished, state])⟩

/-- The slots before it do not touch an op. -/
theorem exoActiveLoop_before {now : UInt64} {envs : Nat → SlotEnv} {left : Nat}
    (ran : exoActiveLoop now envs sys left 0 = .ok after) (later : left ≤ slot) :
    after.ops[slot]? = sys.ops[slot]? := by
  refine @exoActiveLoop_rule _ _ _ _ _
    (fun turn state => turn ≤ slot → state.ops[slot]? = sys.ops[slot]?) _ ran (fun _ => rfl) ?_
    (by omega)
  intro state after turn current _ processed before less
  exact ((exoProcessOp_cases processed).ops_other (by omega)).trans (before (by omega))

/-- Nor do those behind it. -/
theorem exoActiveLoop_behind {now : UInt64} {envs : Nat → SlotEnv} {left i : Nat}
    (ran : exoActiveLoop now envs sys left i = .ok after) (earlier : slot < i) :
    after.ops[slot]? = sys.ops[slot]? := by
  refine (@exoActiveLoop_rule _ _ _ _ _
    (fun turn state => slot < turn ∧ state.ops[slot]? = sys.ops[slot]?) _ ran ⟨earlier, rfl⟩ ?_).2
  rintro state after turn current _ processed ⟨less, before⟩
  exact ⟨Nat.lt_succ_of_lt less,
    ((exoProcessOp_cases processed).ops_other (Nat.ne_of_lt less)).trans before⟩

theorem exoActiveLoop_add (now : UInt64) (envs : Nat → SlotEnv) (sys : Sys)
    (left more i : Nat) :
    exoActiveLoop now envs sys (left + more) i =
      exoActiveLoop now envs sys left i >>= fun next =>
        exoActiveLoop now envs next more (i + left) := by
  induction left generalizing sys i with
  | zero => rw [Nat.zero_add]; rfl
  | succ left ih =>
      rw [Nat.succ_add, exoActiveLoop, exoActiveLoop]
      cases sys.ops[i]? with
      | none => rfl
      | some op =>
          dsimp only
          cases processed : exoProcessOp now (envs i) sys i op with
          | error trap => rfl
          | ok next =>
              rw [Exec.ok_bind, Exec.ok_bind, ih next (i + 1)]
              rw [Nat.add_right_comm i 1 left, Nat.add_assoc i left 1]

/-- The turn of a slot in the pass over the slots is all that happens to its op. -/
theorem exoActiveLoop_split {now : UInt64} {envs : Nat → SlotEnv} {left : Nat}
    (ran : exoActiveLoop now envs sys left 0 = .ok after) (inRange : slot < left) :
    ∃ turn op next, exoActiveLoop now envs sys slot 0 = .ok turn ∧ turn.ops[slot]? = some op ∧
      turn.ops[slot]? = sys.ops[slot]? ∧ exoProcessOp now (envs slot) turn slot op = .ok next ∧
        after.ops[slot]? = next.ops[slot]? ∧ LibSteps next after := by
  obtain ⟨more, split⟩ := Nat.exists_eq_add_of_lt inRange
  rw [split, Nat.add_assoc, exoActiveLoop_add] at ran
  obtain ⟨turn, isTurn, ran⟩ := Exec.bind_eq_ok.mp ran
  rw [Nat.zero_add, exoActiveLoop] at ran
  cases atSlot : turn.ops[slot]? with
  | none =>
      rw [atSlot] at ran
      cases ran
  | some op =>
      rw [atSlot] at ran
      obtain ⟨next, processed, ran⟩ := Exec.bind_eq_ok.mp ran
      exact ⟨turn, op, next, isTurn, atSlot,
        exoActiveLoop_before isTurn (Nat.le_refl slot), processed,
        exoActiveLoop_behind ran (Nat.lt_succ_self slot), (exoActiveLoop_callSteps ran).libSteps⟩

/-- What the pass over the slots does to a read or write. -/
theorem exoActiveLoop_visit {now : UInt64} {envs : Nat → SlotEnv} {left : Nat}
    (ran : exoActiveLoop now envs sys left 0 = .ok after) (inRange : slot < left)
    (atSlot : sys.ops[slot]? = some op) (typed : WellTyped slot op) (type : Answerable op) :
    ∃ next, after.ops[slot]? = some next ∧ Visit now (envs slot) op next := by
  obtain ⟨turn, found, given, -, isFound, before, processed, same, -⟩ :=
    exoActiveLoop_split ran inRange
  rw [before, atSlot] at isFound
  cases isFound
  obtain ⟨next, isNext, visit⟩ := exoProcessOp_visit (before.trans atSlot) typed type processed
  exact ⟨next, same.trans isNext, visit⟩

/-- Slot 0 is not that of the op. -/
theorem exoReady_other {time : UInt64} (ran : exoReady time sys = .ok after) (positive : 1 ≤ slot) :
    after.ops[slot]? = sys.ops[slot]? := by
  obtain rfl | ⟨first, -, rfl⟩ := exoReady_cases ran
  · rfl
  · exact List.getElem?_set_ne (by omega)

/-- When its turn comes, a read or write is as it was before, or finished. -/
theorem Operation.turn_ends {operation : Operation} {turn : Sys}
    (isTurn : operation.turn slot = .ok turn) (typed : AllTyped operation.before)
    (positive : 1 ≤ slot) (atSlot : operation.before.ops[slot]? = some op)
    (type : Answerable op) :
    ∃ next, turn.ops[slot]? = some next ∧ (next = op ∨ exoIsOpFinished next = true) := by
  obtain ⟨ready, isReady, isTurn⟩ := Exec.bind_eq_ok.mp isTurn
  obtain ⟨received, waiting, active⟩ := Exec.bind_eq_ok.mp isTurn
  have isTyped : AllTyped ready := LibSteps.allTyped (exoReady_callSteps isReady).libSteps typed
  obtain ⟨next, isNext, -, ends⟩ := exoProcessWaitingDatagrams_ends waiting isTyped positive
    ((exoReady_other isReady positive).trans atSlot) type
  exact ⟨next, (exoActiveLoop_before active (Nat.le_refl slot)).trans isNext, ends⟩

/-- `exo_operate` for a read or write: a datagram may end it, and then it has its turn. -/
theorem exoOperate_visit {env : OperateEnv} {state : ExoState}
    (ran : exoOperate env sys = .ok (state, after)) (on : sys.deviceState ≠ .uninitialized)
    (typed : AllTyped sys) (positive : 1 ≤ slot) (atSlot : sys.ops[slot]? = some op)
    (type : Answerable op) :
    ∃ middle next, SameRequest op middle ∧ (middle = op ∨ exoIsOpFinished middle = true) ∧
      Visit env.now (env.slots slot) middle next ∧ after.ops[slot]? = some next := by
  obtain ⟨off, -⟩ | ⟨-, ready, received, isReady, waiting, active⟩ := exoOperate_parts ran
  · exact absurd off on
  · have first := (exoReady_other isReady positive).trans atSlot
    have isTyped : AllTyped ready :=
      LibSteps.allTyped (exoReady_callSteps isReady).libSteps typed
    obtain ⟨middle, isMiddle, request, stays⟩ :=
      exoProcessWaitingDatagrams_ends waiting isTyped positive first type
    have typedLater := LibSteps.allTyped
      (exoProcessWaitingDatagrams_callSteps waiting).libSteps isTyped isMiddle
    obtain ⟨next, isNext, visit⟩ := exoActiveLoop_visit active
      (List.getElem?_eq_some_iff.mp isMiddle).1 isMiddle typedLater (request.answerable type)
    exact ⟨middle, next, request, stays, visit, isNext⟩

end Slots

end ExositeCoap.Exosite
