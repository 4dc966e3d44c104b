import ExositeCoap.Exosite.Routing

/-!
# What happens to a request

From one call that queues a request in a slot to the next, its op and the datagrams that
go out for it change in few ways (`Progress`), whatever else the system does.  What each of
them keeps holds after a run (`run_inSlot`).
-/

namespace ExositeCoap.Exosite

open Lib Wire Coap

/-- The datagrams that went out for the request in `slot` since the user queued it. -/
def transmitted (slot : Nat) : List Event → List (List UInt8)
  | [] => []
  | .queued i :: rest => if i = slot then [] else transmitted slot rest
  | .sent (.request i _ _) datagram true :: rest =>
    if i = slot then datagram :: transmitted slot rest else transmitted slot rest
  | _ :: rest => transmitted slot rest

/-- The call queues a request in `slot`. -/
def UserCall.Queues (slot : Nat) : UserCall → Prop
  | .write i _ _ => i = slot
  | .read i _ _ _ => i = slot
  | .subscribe i _ _ _ => i = slot
  | _ => False

/-- Requests of the user that end with one answer. -/
def Answerable (op : ExoOp) : Prop := op.type = .read ∨ op.type = .write

theorem SameRequest.answerable {op next : ExoOp} (same : SameRequest op next)
    (type : Answerable op) : Answerable next := by
  unfold Answerable
  rw [same.type]
  exact type

/-- The request of the op is to be sent, or waits for its answer. -/
def Outstanding (op : ExoOp) : Prop := Answerable op ∧ (op.state = .new ∨ op.state = .pending)

/-- The op holds no subscription, and a new one has a type. -/
structure Single (op : ExoOp) : Prop where
  type : op.type ≠ .subscribe
  state : op.state ∉ [ExoRequestState.subscribed, .subAck, .subAckNew]
  typed : op.state = .new → op.type ≠ .null

/-- What can happen to an op, and to the datagrams sent for it, until the next request is
queued in its slot. -/
inductive Progress (sent : List (List UInt8)) (op : ExoOp) : List (List UInt8) → ExoOp → Prop where
  | idle : Progress sent op sent op
  | sent {datagram : List UInt8} {mid : UInt16} {token timeout : UInt64}
      (state : op.state = .new) (carries : Carries datagram mid) :
      Progress sent op (datagram :: sent) { op with state := .pending, timeout, mid, token }
  | resent {datagram : List UInt8} {timeout : UInt64} (waits : Waits op)
      (few : op.retries < coapMaxRetransmit) (carries : Carries datagram op.mid) :
      Progress sent op (datagram :: sent) { op with retries := op.retries + 1, timeout }
  /-- answered, given up or initialised -/
  | ended {next : ExoOp} (state : next.state = .null ∨ exoIsOpFinished next)
      (type : next.type = op.type ∨ next.type = .null)
      (retries : next.retries = op.retries ∨ next.retries = 0) : Progress sent op sent next
  /-- what only happens to other ops than reads and writes -/
  | other {next : ExoOp} (kind : ¬ Single op) (retries : next.retries = op.retries)
      (done : ¬ Outstanding next) : Progress sent op sent next

/-- The system changes, and nothing but progress is made in `slot`. -/
def Advances (slot : Nat) (sys after : Sys) : Prop :=
  ∀ op, sys.ops[slot]? = some op → ∃ next, after.ops[slot]? = some next ∧
    Progress (transmitted slot sys.log) op (transmitted slot after.log) next

/-- What holds of the op in `slot` and of the datagrams that went out for it. -/
def InSlot (holds : List (List UInt8) → ExoOp → Prop) (slot : Nat) (sys : Sys) : Prop :=
  ∃ op, sys.ops[slot]? = some op ∧ holds (transmitted slot sys.log) op

/-- Below the limit the counter does not wrap. -/
theorem retries_succ {op : ExoOp} (few : op.retries < coapMaxRetransmit) :
    (op.retries + 1).toNat = op.retries.toNat + 1 := by
  have less : op.retries.toNat < 4 := few
  rw [UInt8.toNat_add]
  exact Nat.mod_eq_of_lt (by change op.retries.toNat + 1 < 256; omega)

/-- Replaced by an op in the state `EXO_REQUEST_ERROR`. -/
theorem Progress.failed {sent : List (List UInt8)} {op : ExoOp} :
    Progress sent op sent { op with state := .error } :=
  .ended (Or.inr rfl) (Or.inl rfl) (Or.inl rfl)

theorem Progress.released {sent : List (List UInt8)} {op : ExoOp} :
    Progress sent op sent exoOpInit :=
  .ended (Or.inl rfl) (Or.inr rfl) (Or.inr rfl)

/-- A subscription goes on. -/
theorem Progress.subscription {sent : List (List UInt8)} {op next : ExoOp}
    (kind : op.type = .subscribe) (type : next.type = op.type)
    (retries : next.retries = op.retries) : Progress sent op sent next := by
  refine .other (fun single => single.type kind) retries ?_
  rintro ⟨read | write, -⟩
  · rw [type, kind] at read
    cases read
  · rw [type, kind] at write
    cases write

/-! ## Datagrams of a request -/

section Datagrams

variable {sys : Sys}

/-- The datagram of a first transmission carries the id that the op will keep, and that
of a retransmission the one that it keeps. -/
theorem carries_of_sent {env : SlotEnv} {op : ExoOp} {request : Request} {pdu : CoapPdu}
    {datagram : List UInt8} {mid : UInt16}
    (built : exoBuildRequest env sys op = .ok (some (request, pdu)))
    (bytes : pdu.mem.slice 0 pdu.len = .ok datagram) (isMid : coapGetMid pdu = .ok mid) :
    Carries datagram mid :=
  carries_of_slice bytes (exoBuildRequest_mid built).1 isMid

theorem carries_of_resent {env : SlotEnv} {op : ExoOp} {request : Request}
    {pdu withMid again : CoapPdu} {midErr tokenErr : CoapError} {datagram : List UInt8}
    (built : exoBuildRequest env sys op = .ok (some (request, pdu)))
    (setMid : coapSetMid pdu op.mid = .ok (midErr, withMid))
    (setToken : coapSetToken withMid op.token.toNat op.tkl.toNat = .ok (tokenErr, again))
    (bytes : again.mem.slice 0 again.len = .ok datagram) : Carries datagram op.mid := by
  obtain ⟨floor, message, simulates, -⟩ := exoBuildRequest_spec built
  obtain ⟨_, _, isMid, -, first⟩ := simulates.setMid op.mid
  rw [isMid] at setMid
  cases setMid
  obtain ⟨_, _, next, isToken, -, second, mid⟩ := first.setToken op.token op.tkl
  rw [isToken] at setToken
  cases setToken
  refine carries_of_slice bytes second.holds.four_le ?_
  rw [second.holds.coapGetMid_eq, mid]

end Datagrams

/-! ## The steps -/

section Steps

variable {sys after : Sys} {slot : Nat}

/-- Neither the op in the slot nor what was sent for it changes. -/
theorem advances_of_same (ops : after.ops[slot]? = sys.ops[slot]?)
    (log : transmitted slot after.log = transmitted slot sys.log) : Advances slot sys after := by
  intro op atSlot
  rw [log]
  exact ⟨op, ops.trans atSlot, .idle⟩

/-- The op in slot `i` is replaced. -/
theorem advances_of_replaced {i : Nat} {old changed : ExoOp} (isOld : sys.ops[i]? = some old)
    (ops : after.ops = sys.ops.set i changed)
    (other : i ≠ slot → transmitted slot after.log = transmitted slot sys.log)
    (here : i = slot →
      Progress (transmitted slot sys.log) old (transmitted slot after.log) changed) :
    Advances slot sys after := by
  by_cases same : i = slot
  · subst same
    intro op atSlot
    rw [isOld] at atSlot
    cases atSlot
    have found := @getElem?_setOp sys i i changed _ isOld
    rw [Sys.setOp_ops, ← ops, if_pos rfl] at found
    exact ⟨changed, found, here rfl⟩
  · refine advances_of_same ?_ (other same)
    rw [ops, List.getElem?_set_ne same]

/-- The op in slot `i` is replaced, and nothing is sent. -/
theorem advances_of_set {i : Nat} {old changed : ExoOp} (isOld : sys.ops[i]? = some old)
    (ops : after.ops = sys.ops.set i changed)
    (log : transmitted slot after.log = transmitted slot sys.log)
    (here : i = slot → Progress (transmitted slot sys.log) old (transmitted slot sys.log) changed) :
    Advances slot sys after := by
  refine advances_of_replaced isOld ops (fun _ => log) ?_
  rw [log]
  exact here

/-- A datagram ends a single request, or changes nothing. -/
theorem Reaction.advances {rx : Received} {i : Nat} {op : ExoOp} (isOp : sys.ops[i]? = some op)
    (reaction : Reaction rx sys i op after) (positive : 1 ≤ slot) : Advances slot sys after := by
  have failed : Advances slot sys (sys.setOp i { op with state := .error }) :=
    advances_of_set isOp rfl rfl fun _ => .failed
  cases reaction with
  | ignored => exact advances_of_same rfl rfl
  | denied => exact failed
  | emptied => exact advances_of_same rfl rfl
  | rejected => exact failed
  | notified before acks =>
      refine advances_of_set isOp rfl rfl fun _ => .other ?_ rfl ?_
      · intro single
        exact single.state (by simp [before])
      · rintro ⟨-, state⟩
        rcases acks with rfl | rfl <;> simp at state
  | written =>
      exact advances_of_set isOp rfl rfl fun _ => .ended (Or.inr rfl) (Or.inl rfl) (Or.inl rfl)
  | delivered =>
      exact advances_of_set isOp rfl rfl fun _ => .ended (Or.inr rfl) (Or.inl rfl) (Or.inl rfl)
  | activated => exact advances_of_set isOp rfl rfl fun _ => .released
  | notActivated => exact advances_of_set isOp rfl rfl fun _ => .released
  | refused => exact failed
  | reactivated =>
      intro found isFound
      obtain ⟨next, isNext, progress⟩ := failed found isFound
      refine ⟨next, ?_, progress⟩
      rw [Sys.setOp_ops, List.getElem?_set_ne (by omega)]
      exact isNext
  | notFound =>
      intro found isFound
      exact failed found isFound
  | reset => exact failed

theorem SlotStep.advances {env : SlotEnv} {i : Nat} {op : ExoOp} (isOp : sys.ops[i]? = some op)
    (step : SlotStep env sys i op after) : Advances slot sys after := by
  cases step with
  | idle => exact advances_of_same rfl rfl
  | unexpectedNew state type =>
      refine advances_of_set isOp rfl rfl fun _ => .other ?_ rfl ?_
      · intro single
        exact single.typed state type
      · rintro ⟨answerable, -⟩
        simp [Answerable] at answerable
  | unexpectedWait => exact advances_of_same rfl rfl
  | @sent request pdu datagram mid token state built bytes isMid =>
      refine advances_of_replaced isOp rfl (fun different => if_neg different) fun same => ?_
      have log : transmitted slot (sys.sentRequest i true request datagram true).log =
          datagram :: transmitted slot sys.log := if_pos same
      rw [Sys.setOp_log, log]
      exact .sent state (carries_of_sent built bytes isMid)
  | unsent => exact advances_of_same rfl rfl
  | @resent request pdu withMid again midErr tokenErr datagram timeout waits type retries built
      setMid setToken bytes =>
      refine advances_of_replaced isOp rfl (fun different => if_neg different) fun same => ?_
      have log : transmitted slot (sys.sentRequest i false request datagram true).log =
          datagram :: transmitted slot sys.log := if_pos same
      rw [Sys.setOp_log, log]
      exact .resent waits retries (carries_of_resent built setMid setToken bytes)
  | unresent => exact advances_of_same rfl rfl
  | gaveUp => exact advances_of_set isOp rfl rfl fun _ => .failed
  | renewed waits type =>
      exact advances_of_set isOp rfl rfl fun _ => .subscription type rfl rfl
  | acked isState =>
      refine advances_of_set isOp rfl rfl fun _ => .other ?_ rfl ?_
      · intro single
        rcases isState with ⟨before, -⟩ | ⟨before, -⟩ <;> exact single.state (by simp [before])
      · rintro ⟨-, state⟩
        rcases isState with ⟨-, rfl⟩ | ⟨-, rfl⟩ <;> simp at state
  | unacked => exact advances_of_same rfl rfl

theorem LibStep.advances (step : LibStep sys after) (positive : 1 ≤ slot) :
    Advances slot sys after := by
  cases step with
  | react isOp _ reaction => exact reaction.advances isOp positive
  | passed => exact advances_of_same rfl rfl
  | handled => exact advances_of_same rfl rfl
  | replied => exact advances_of_same rfl rfl
  | slot isOp step => exact step.advances isOp
  | activate isFirst => exact advances_of_set isFirst rfl rfl fun zero => absurd zero (by omega)

/-- A call other than `exo_operate` that does not queue a request in this slot. -/
theorem call_advances {action : UserCall} (ran : call sys action = .ok after)
    (user : ∀ env, action ≠ .operate env) (other : ¬ action.Queues slot) :
    Advances slot sys after := by
  cases action with
  | init env vendor model serial =>
      cases ran
      refine advances_of_same ?_ ?_
      · rw [(exoInit_frame env vendor model serial sys).1]
      · unfold exoInit
        dsimp only
        split_ifs <;> rfl
  | write i =>
      obtain ⟨op, found, ran⟩ := Exec.bind_eq_ok.mp ran
      cases ran
      exact advances_of_set (opAt_eq_ok found) rfl (if_neg other) fun same => absurd same other
  | read i =>
      obtain ⟨op, found, ran⟩ := Exec.bind_eq_ok.mp ran
      cases ran
      exact advances_of_set (opAt_eq_ok found) rfl (if_neg other) fun same => absurd same other
  | subscribe i =>
      obtain ⟨op, found, ran⟩ := Exec.bind_eq_ok.mp ran
      cases ran
      exact advances_of_set (opAt_eq_ok found) rfl (if_neg other) fun same => absurd same other
  | opInit i =>
      obtain ⟨op, found, ran⟩ := Exec.bind_eq_ok.mp ran
      cases ran
      exact advances_of_set (opAt_eq_ok found) rfl rfl fun _ => .released
  | opDone i =>
      obtain ⟨op, found, ran⟩ := Exec.bind_eq_ok.mp ran
      cases ran
      refine advances_of_set (opAt_eq_ok found) rfl rfl fun _ => ?_
      unfold exoOpDone
      split_ifs with type
      · exact .subscription type rfl rfl
      · exact .released
  | memory heap =>
      cases ran
      exact advances_of_same rfl rfl
  | operate env => exact absurd rfl (user env)

end Steps

/-! ## Runs -/

section Runs

variable {holds : List (List UInt8) → ExoOp → Prop} {sys after : Sys} {slot : Nat}
  (keeps : ∀ {sent sent' : List (List UInt8)} {op next : ExoOp},
    Progress sent op sent' next → holds sent op → holds sent' next)

include keeps

theorem InSlot.advance (inSlot : InSlot holds slot sys) (advances : Advances slot sys after) :
    InSlot holds slot after := by
  obtain ⟨op, atSlot, held⟩ := inSlot
  obtain ⟨next, isNext, progress⟩ := advances op atSlot
  exact ⟨next, isNext, keeps progress held⟩

theorem InSlot.libSteps (inSlot : InSlot holds slot sys) (steps : LibSteps sys after)
    (positive : 1 ≤ slot) : InSlot holds slot after := by
  induction steps with
  | refl => exact inSlot
  | tail _ step ih => exact ih.advance keeps (step.advances positive)

/-- A call of the user that does not queue a request in this slot. -/
theorem call_inSlot {action : UserCall} (inSlot : InSlot holds slot sys)
    (ran : call sys action = .ok after) (other : ¬ action.Queues slot) (positive : 1 ≤ slot) :
    InSlot holds slot after := by
  by_cases isOperate : ∃ env, action = .operate env
  · obtain ⟨env, rfl⟩ := isOperate
    obtain ⟨⟨state, next⟩, operated, ran⟩ := Exec.bind_eq_ok.mp ran
    cases ran
    exact inSlot.libSteps keeps (exoOperate_steps operated).1 positive
  · exact inSlot.advance keeps
      (call_advances ran (fun env same => isOperate ⟨env, same⟩) other)

/-- What progress keeps holds after every run that does not queue a request in the slot. -/
theorem run_inSlot {calls : List UserCall} (inSlot : InSlot holds slot sys)
    (ran : run sys calls = .ok after) (others : ∀ action ∈ calls, ¬ action.Queues slot)
    (positive : 1 ≤ slot) : InSlot holds slot after := by
  induction calls generalizing sys with
  | nil =>
      cases ran
      exact inSlot
  | cons action rest ih =>
      obtain ⟨next, called, ran⟩ := Exec.bind_eq_ok.mp ran
      refine ih ?_ ran fun other member => others other (List.mem_cons_of_mem _ member)
      exact call_inSlot keeps inSlot called (others action List.mem_cons_self) positive

end Runs

end ExositeCoap.Exosite
