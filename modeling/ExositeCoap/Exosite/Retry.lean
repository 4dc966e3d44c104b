import ExositeCoap.Exosite.Arrivals
import ExositeCoap.Exosite.Budget

/-!
# When a request is given up

`exo_process_active_ops` gives up an overdue read or write whose counter has reached
`COAP_MAX_RETRANSMIT`.  `exo_read` and `exo_write` take over the counter as they find it, so
the number of datagrams that went out by then depends on what they find
(`giveUp_length`): the request has its full budget exactly when that is zero.
-/

namespace ExositeCoap.Exosite

open Lib Wire Coap

/-- The counter of the op for which the call queues a read or write in `slot`. -/
def UserCall.takesOver (slot : Nat) (sys : Sys) : UserCall → List UInt8
  | .write i _ _ => if i = slot then (sys.ops[i]?.map (·.retries)).toList else []
  | .read i _ _ _ => if i = slot then (sys.ops[i]?.map (·.retries)).toList else []
  | _ => []

/-- The counters that the reads and writes in `slot` start from, newest first. -/
def counters (slot : Nat) (sys : Sys) (older : List UInt8) : List UserCall → List UInt8
  | [] => older
  | first :: rest =>
    match call sys first with
    | .ok next => counters slot next (first.takesOver slot sys ++ older) rest
    | .error _ => older

/-- How much of the counter a read or write that is not yet answered has used, when `found`
are the counters that the requests of its slot started from. -/
structure Spent (found : List UInt8) (sent : List (List UInt8)) (op : ExoOp) : Prop where
  bound : op.retries.toNat ≤ coapMaxRetransmit.toNat
  new : Answerable op → op.state = .new → found.head? = some op.retries ∧ sent = []
  pending : Answerable op → op.state = .pending →
    ∃ start, found.head? = some start ∧ sent.length + start.toNat = 1 + op.retries.toNat

/-! ## The op -/

section Spent

variable {found : List UInt8} {sent sent' : List (List UInt8)} {op next : ExoOp}

/-- Nothing is asked of an op without an unanswered read or write but that its counter is
in range. -/
theorem Spent.of_done (bound : op.retries.toNat ≤ coapMaxRetransmit.toNat)
    (done : ¬ Outstanding op) : Spent found sent op :=
  ⟨bound, fun type state => absurd ⟨type, Or.inl state⟩ done,
    fun type state => absurd ⟨type, Or.inr state⟩ done⟩

/-- Every transmission but the first uses up one retry, and nothing else does. -/
theorem Spent.progress (progress : Progress sent op sent' next) (spent : Spent found sent op) :
    Spent found sent' next := by
  cases progress with
  | idle => exact spent
  | sent state =>
      refine ⟨spent.bound, ?_, fun type _ => ?_⟩
      · rintro - ⟨⟩
      · obtain ⟨start, rfl⟩ := spent.new type state
        exact ⟨op.retries, start, rfl⟩
  | resent waits few =>
      have next := retries_succ few
      have less : op.retries.toNat < coapMaxRetransmit.toNat := few
      refine ⟨?_, fun type state => ?_, fun type state => ?_⟩
      · rw [next]
        exact less
      · rcases waits with other | other
        · rw [state] at other
          cases other
        · rw [state] at other
          cases other
      · obtain ⟨start, isStart, count⟩ := spent.pending type state
        refine ⟨start, isStart, ?_⟩
        rw [next, List.length_cons]
        omega
  | ended state _ retries =>
      refine .of_done ?_ ?_
      · rcases retries with same | zero
        · rw [same]
          exact spent.bound
        · rw [zero]
          exact Nat.zero_le _
      · rintro ⟨-, new | pending⟩
        · simp [exoIsOpFinished, new] at state
        · simp [exoIsOpFinished, pending] at state
  | other _ retries done =>
      refine .of_done ?_ done
      rw [retries]
      exact spent.bound

end Spent

/-! ## Runs -/

section Runs

variable {slot : Nat} {sys after : Sys} {found : List UInt8}

theorem spent_queued {op : ExoOp} {type : ExoRequestType} {aliasPtr valuePtr valueMax : Nat}
    (atSlot : sys.ops[slot]? = some op) (bound : op.retries.toNat ≤ coapMaxRetransmit.toNat)
    (isFound : type ≠ .subscribe → found.head? = some op.retries) :
    InSlot (Spent found) slot
      ((sys.setOp slot (op.queue type aliasPtr valuePtr valueMax)).record (.queued slot)) := by
  refine ⟨_, getElem?_setOp atSlot, ?_⟩
  rw [if_pos rfl, Sys.record_log, transmitted, if_pos rfl]
  refine ⟨bound, fun answerable _ => ⟨isFound ?_, rfl⟩, ?_⟩
  · rintro rfl
    simp [Answerable, ExoOp.queue] at answerable
  · rintro - ⟨⟩

/-- A call of the user, with the counter that it takes over. -/
theorem call_spent {action : UserCall} (spent : InSlot (Spent found) slot sys)
    (ran : call sys action = .ok after) (positive : 1 ≤ slot) :
    InSlot (Spent (action.takesOver slot sys ++ found)) slot after := by
  obtain ⟨op, atSlot, held⟩ := spent
  have queued : ∀ {type : ExoRequestType} {aliasPtr valuePtr valueMax : Nat},
      (type ≠ .subscribe → action.takesOver slot sys = [op.retries]) →
      (sys.opAt slot >>= fun other => pure ((sys.setOp slot
        (other.queue type aliasPtr valuePtr valueMax)).record (.queued slot))) = .ok after →
      InSlot (Spent (action.takesOver slot sys ++ found)) slot after := by
    intro type aliasPtr valuePtr valueMax takes ran
    obtain ⟨other, isOther, ran⟩ := Exec.bind_eq_ok.mp ran
    rw [opAt_eq_ok isOther] at atSlot
    cases atSlot
    cases ran
    refine spent_queued (opAt_eq_ok isOther) held.bound fun single => ?_
    rw [takes single]
    rfl
  by_cases queues : action.Queues slot
  · cases action with
    | write i =>
        cases queues
        refine queued (fun _ => ?_) ran
        rw [UserCall.takesOver, if_pos rfl, atSlot]
        rfl
    | read i =>
        cases queues
        refine queued (fun _ => ?_) ran
        rw [UserCall.takesOver, if_pos rfl, atSlot]
        rfl
    | subscribe i =>
        cases queues
        exact queued (fun other => absurd rfl other) ran
    | _ => exact queues.elim
  · have nothing : action.takesOver slot sys = [] := by
      cases action with
      | write => exact if_neg queues
      | read => exact if_neg queues
      | _ => rfl
    rw [nothing]
    exact call_inSlot Spent.progress ⟨op, atSlot, held⟩ ran queues positive

theorem run_spent {calls : List UserCall} (spent : InSlot (Spent found) slot sys)
    (ran : run sys calls = .ok after) (positive : 1 ≤ slot) :
    InSlot (Spent (counters slot sys found calls)) slot after := by
  induction calls generalizing sys found with
  | nil =>
      cases ran
      exact spent
  | cons action rest ih =>
      obtain ⟨next, called, ran⟩ := Exec.bind_eq_ok.mp ran
      rw [counters, called]
      exact ih (call_spent spent called positive) ran

theorem spent_powerOn {count : Nat} {heap : Mem} (inRange : slot < count) :
    InSlot (Spent []) slot (powerOn count heap) := by
  refine ⟨exoOpInit, List.getElem?_replicate_of_lt inRange, .of_done (Nat.zero_le _) ?_⟩
  rintro ⟨type, -⟩
  simp [Answerable, exoOpInit] at type

end Runs

/-! ## Giving up -/

/-- The state in which `exo_process_active_ops` comes to `slot`. -/
def Operation.turn (operation : Operation) (slot : Nat) : Exec Sys := do
  let ready ← exoReady operation.env.time operation.before
  let received ← exoProcessWaitingDatagrams ready operation.env.datagrams
  exoActiveLoop operation.env.now operation.env.slots received slot 0

/-- On its turn, a pending read or write in `slot` moves to `EXO_REQUEST_ERROR`. -/
def GivesUp (slot : Nat) (operation : Operation) (turn : Sys) : Prop :=
  operation.before.deviceState ≠ .uninitialized ∧ operation.turn slot = .ok turn ∧
    ∃ op after failed, turn.ops[slot]? = some op ∧ Answerable op ∧ op.state = .pending ∧
      exoProcessOp operation.env.now (operation.env.slots slot) turn slot op = .ok after ∧
        after.ops[slot]? = some failed ∧ failed.state = .error

section GiveUp

variable {slot : Nat} {operation : Operation} {sys after turn : Sys}

theorem Operation.turn_steps (isTurn : operation.turn slot = .ok turn) :
    CallSteps operation.before turn := by
  obtain ⟨ready, isReady, isTurn⟩ := Exec.bind_eq_ok.mp isTurn
  obtain ⟨received, waiting, active⟩ := Exec.bind_eq_ok.mp isTurn
  exact ((exoReady_callSteps isReady).trans (exoProcessWaitingDatagrams_callSteps waiting)).trans
    (exoActiveLoop_callSteps active)

/-- A retransmission does not change the state of the op. -/
theorem exoSendAgain_state {env : SlotEnv} {i : Nat} {op : ExoOp} (isOp : sys.ops[i]? = some op)
    (ran : exoSendAgain env sys i op = .ok after) :
    ∃ next, after.ops[i]? = some next ∧ next.state = op.state := by
  obtain ⟨result, -, ran⟩ := Exec.bind_eq_ok.mp ran
  cases result with
  | none =>
      cases ran
      exact ⟨op, isOp, rfl⟩
  | some result =>
      obtain ⟨request, pdu⟩ := result
      obtain ⟨⟨midErr, withMid⟩, -, ran⟩ := Exec.bind_eq_ok.mp ran
      obtain ⟨⟨tokenErr, again⟩, -, ran⟩ := Exec.bind_eq_ok.mp ran
      obtain ⟨datagram, -, ran⟩ := Exec.bind_eq_ok.mp ran
      split_ifs at ran
      · cases ran
        refine ⟨_, @getElem?_setOp (sys.sentRequest i false request datagram _) i i _ op isOp, ?_⟩
        rw [if_pos rfl]
      · cases ran
        exact ⟨op, isOp, rfl⟩

/-- A pending read or write is only given up when its retries are used up. -/
theorem exhausted_of_error {now : UInt64} {env : SlotEnv} {i : Nat} {op failed : ExoOp}
    (isOp : sys.ops[i]? = some op) (type : Answerable op) (state : op.state = .pending)
    (ran : exoProcessOp now env sys i op = .ok after) (isFailed : after.ops[i]? = some failed)
    (error : failed.state = .error) : coapMaxRetransmit.toNat ≤ op.retries.toNat := by
  by_contra few
  have kept : ∃ next, after.ops[i]? = some next ∧ next.state = op.state := by
    rw [exoProcessOp, state] at ran
    dsimp only at ran
    split_ifs at ran
    · have less : op.retries < coapMaxRetransmit := Nat.lt_of_not_le few
      have again : exoSendAgain env sys i op = .ok after := by
        rcases type with type | type
        · rw [exoTimedOut, type] at ran
          exact (if_pos less).symm.trans ran
        · rw [exoTimedOut, type] at ran
          exact (if_pos less).symm.trans ran
      exact exoSendAgain_state isOp again
    · cases ran
      exact ⟨op, isOp, rfl⟩
  obtain ⟨next, isNext, same⟩ := kept
  rw [isFailed] at isNext
  cases isNext
  rw [error, state] at same
  cases same

/-- By the time a read or write is given up, as many datagrams have gone out for it as the
counter left room for when it was queued. -/
theorem giveUp_length {count : Nat} {heap : Mem} {front : List UserCall} (positive : 1 ≤ slot)
    (ran : run (powerOn count heap) front = .ok operation.before)
    (givesUp : GivesUp slot operation turn) :
    ∃ start, (counters slot (powerOn count heap) [] front).head? = some start ∧
      (transmitted slot turn.log).length + start.toNat = 1 + coapMaxRetransmit.toNat := by
  obtain ⟨on, isTurn, op, after, failed, atSlot, type, state, processed, isFailed, error⟩ := givesUp
  have steps : LibSteps operation.before turn := (Operation.turn_steps isTurn).libSteps
  have inRange : slot < count := by
    have length := (run_steps ran).ops_length
    rw [← steps.ops_length, powerOn, List.length_replicate] at length
    exact length ▸ (List.getElem?_eq_some_iff.mp atSlot).1
  obtain ⟨other, isOther, spent⟩ :=
    (run_spent (spent_powerOn inRange) ran positive).libSteps Spent.progress steps positive
  rw [atSlot] at isOther
  cases isOther
  obtain ⟨start, isStart, length⟩ := spent.pending type state
  refine ⟨start, isStart, ?_⟩
  rw [length, Nat.le_antisymm spent.bound
    (exhausted_of_error atSlot type state processed isFailed error)]

/-- A read or write is given up after exactly `1 + COAP_MAX_RETRANSMIT` datagrams if and only
if the counter was zero when it was queued; so all of them are when no call of `exo_read` or
`exo_write` finds another counter. -/
theorem giveUp_full_iff {count : Nat} {heap : Mem} {front : List UserCall} (positive : 1 ≤ slot)
    (ran : run (powerOn count heap) front = .ok operation.before)
    (givesUp : GivesUp slot operation turn) :
    ((transmitted slot turn.log).length = 1 + coapMaxRetransmit.toNat ↔
      (counters slot (powerOn count heap) [] front).head? = some 0) ∧
    ((∀ start ∈ counters slot (powerOn count heap) [] front, start = 0) →
      (transmitted slot turn.log).length = 1 + coapMaxRetransmit.toNat) := by
  obtain ⟨start, isStart, length⟩ := giveUp_length positive ran givesUp
  have full : (transmitted slot turn.log).length = 1 + coapMaxRetransmit.toNat ↔ start = 0 := by
    rw [← UInt8.toNat_inj]
    change _ ↔ start.toNat = 0
    omega
  refine ⟨?_, fun zero => full.mpr (zero start (List.mem_of_head? isStart))⟩
  rw [full, isStart, Option.some_inj]

end GiveUp

/-- What `operateAt` meets. -/
def envAt (time : UInt64) : OperateEnv :=
  ⟨time, [], time, fun _ => ⟨quietBuffer [], 0x2211, true, time, 0⟩⟩

/-- A read that is never answered, up to its last retransmission. -/
def unanswered : List UserCall :=
  [quietInit, .read 1 1 3 8] ++ [0, 5000000, 10000000, 15000000, 20000000].map operateAt

/-- Given up and queued again without `exo_op_done`, the same read is sent once more. -/
def queuedAgain : List UserCall := unanswered ++ [operateAt 30000000, .read 1 1 3 8,
  operateAt 40000000]

/-- What shows when slot 1 has its turn after these calls: the device, the op before and after,
and how many datagrams went out. -/
def turnAt (calls : List UserCall) (time : UInt64) :
    Exec (ExoDeviceState × ExoRequestType × ExoRequestState × Option ExoRequestState × Nat) := do
  let before ← run (powerOn 2 quietHeap) calls
  let turn ← Operation.turn ⟨before, envAt time⟩ 1
  let op ← turn.opAt 1
  let after ← exoProcessOp time ((envAt time).slots 1) turn 1 op
  return (before.deviceState, op.type, op.state, after.ops[1]?.map (·.state),
    (transmitted 1 turn.log).length)

theorem givesUp_of_turnAt {calls : List UserCall} {time : UInt64} {count : Nat}
    (computed : turnAt calls time = .ok (.initialized, .read, .pending, some .error, count)) :
    ∃ before turn, run (powerOn 2 quietHeap) calls = .ok before ∧
      GivesUp 1 ⟨before, envAt time⟩ turn ∧ (transmitted 1 turn.log).length = count := by
  obtain ⟨before, ran, computed⟩ := Exec.bind_eq_ok.mp computed
  obtain ⟨turn, isTurn, computed⟩ := Exec.bind_eq_ok.mp computed
  obtain ⟨op, isOp, computed⟩ := Exec.bind_eq_ok.mp computed
  obtain ⟨after, processed, values⟩ := Exec.bind_eq_ok.mp computed
  simp only [Exec.pure_eq_ok, Except.ok.injEq, Prod.mk.injEq, Option.map_eq_some_iff] at values
  obtain ⟨device, type, state, ⟨failed, isFailed, error⟩, length⟩ := values
  refine ⟨before, turn, ran, ⟨?_, isTurn, op, after, failed, opAt_eq_ok isOp, Or.inl type, state,
    processed, isFailed, error⟩, length⟩
  simp [device]

/-- A read that finds a zero counter and is never answered goes out five times. -/
theorem giveUp_full_iff_unanswered : ∃ operation turn,
    run (powerOn 2 quietHeap) unanswered = .ok operation.before ∧ GivesUp 1 operation turn ∧
      ((transmitted 1 turn.log).length = 1 + coapMaxRetransmit.toNat ↔
        (counters 1 (powerOn 2 quietHeap) [] unanswered).head? = some 0) ∧
      (transmitted 1 turn.log).length = 1 + coapMaxRetransmit.toNat := by
  have computed : turnAt unanswered 30000000 =
      .ok (.initialized, .read, .pending, some .error, 5) := by decide +kernel
  have zero : ∀ start ∈ counters 1 (powerOn 2 quietHeap) [] unanswered, start = 0 := by
    decide +kernel
  obtain ⟨before, turn, ran, givesUp, -⟩ := givesUp_of_turnAt computed
  obtain ⟨exact, full⟩ := @giveUp_full_iff 1 ⟨before, envAt 30000000⟩ turn 2 quietHeap unanswered
    (Nat.le_refl 1) ran givesUp
  exact ⟨_, turn, ran, givesUp, exact, full zero⟩

/-- A read that has been given up and is queued again, without `exo_op_done`, is given up
after a single datagram. -/
theorem giveUp_queuedAgain : ¬ ∀ (count : Nat) (heap : Mem) (slot : Nat)
    (front : List UserCall) (operation : Operation) (turn : Sys), 1 ≤ slot →
      run (powerOn count heap) front = .ok operation.before → GivesUp slot operation turn →
        (transmitted slot turn.log).length = 1 + coapMaxRetransmit.toNat := by
  intro full
  have computed : turnAt queuedAgain 50000000 =
      .ok (.initialized, .read, .pending, some .error, 1) := by decide +kernel
  obtain ⟨before, turn, ran, givesUp, single⟩ := givesUp_of_turnAt computed
  have five := full 2 quietHeap 1 queuedAgain ⟨before, envAt 50000000⟩ turn (Nat.le_refl 1) ran
    givesUp
  rw [single] at five
  exact absurd five (by decide)

end ExositeCoap.Exosite
