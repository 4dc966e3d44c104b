import ExositeCoap.Exosite.Progress

/-!
# How often a request is sent

A read or write that the user queues goes out once for the first time, and again as long
as `retries` is below `COAP_MAX_RETRANSMIT`.  The counter is not reset when the request is
queued, so it may start anywhere; what was sent since and what the counter shows go
together (`Budget`), and every transmission carries the message id that the op keeps.
-/

namespace ExositeCoap.Exosite

open Lib Wire Coap

/-- What has been sent for an op whose counter was at `start` when it was queued. -/
inductive Budget (start : UInt8) : (sent : List (List UInt8)) → ExoOp → Prop where
  | queued {op : ExoOp} (state : op.state = .new) (type : Answerable op)
      (retries : op.retries = start) : Budget start [] op
  | pending {sent : List (List UInt8)} {op : ExoOp} (state : op.state = .pending)
      (type : Answerable op) (count : sent.length + start.toNat ≤ 1 + op.retries.toNat)
      (bound : op.retries.toNat ≤ max start.toNat 4)
      (mids : ∀ datagram ∈ sent, Carries datagram op.mid) : Budget start sent op
  | ended {sent : List (List UInt8)} {op : ExoOp} {mid : UInt16}
      (state : op.state = .null ∨ exoIsOpFinished op) (type : op.type ≠ .subscribe)
      (count : sent.length ≤ 5) (bound : op.retries.toNat ≤ max start.toNat 4)
      (mids : ∀ datagram ∈ sent, Carries datagram mid) : Budget start sent op

/-- The budget of the op in `slot`, with what the log says was sent for it. -/
def Within (start : UInt8) (slot : Nat) (sys : Sys) : Prop :=
  ∃ op, sys.ops[slot]? = some op ∧ Budget start (transmitted slot sys.log) op

/-! ## The op -/

section Budget

variable {start : UInt8} {sent : List (List UInt8)} {op : ExoOp}

theorem Budget.retries_le (budget : Budget start sent op) :
    op.retries.toNat ≤ max start.toNat 4 := by
  cases budget with
  | queued _ _ retries =>
      rw [retries]
      exact Nat.le_max_left _ _
  | pending _ _ _ bound => exact bound
  | ended _ _ _ bound => exact bound

theorem Budget.length_le (budget : Budget start sent op) : sent.length ≤ 5 := by
  cases budget with
  | queued => exact Nat.zero_le _
  | pending _ _ count bound => omega
  | ended _ _ count => exact count

theorem Budget.mid (budget : Budget start sent op) :
    ∃ mid, ∀ datagram ∈ sent, Carries datagram mid := by
  cases budget with
  | queued => exact ⟨0, by simp⟩
  | pending _ _ _ _ mids => exact ⟨_, mids⟩
  | ended _ _ _ _ mids => exact ⟨_, mids⟩

/-- The op is answered, given up or initialised. -/
theorem Budget.ends (budget : Budget start sent op) {next : ExoOp}
    (state : next.state = .null ∨ exoIsOpFinished next) (type : next.type ≠ .subscribe)
    (retries : next.retries = op.retries ∨ next.retries = 0) : Budget start sent next := by
  obtain ⟨mid, mids⟩ := budget.mid
  refine .ended state type budget.length_le ?_ mids
  rcases retries with same | zero
  · rw [same]
    exact budget.retries_le
  · rw [zero]
    exact Nat.zero_le _

/-- A new op has sent nothing. -/
theorem Budget.of_new (budget : Budget start sent op) (state : op.state = .new) :
    Answerable op ∧ op.retries = start ∧ sent = [] := by
  cases budget with
  | queued _ type retries => exact ⟨type, retries, rfl⟩
  | pending other =>
      rw [state] at other
      cases other
  | ended other => simp [exoIsOpFinished, state] at other

theorem Answerable.single (type : Answerable op) (state : op.state = .new ∨ op.state = .pending) :
    Single op := by
  refine ⟨?_, ?_, fun _ => ?_⟩
  · rcases type with type | type <;> simp [type]
  · rcases state with state | state <;> simp [state]
  · rcases type with type | type <;> simp [type]

theorem Budget.single (budget : Budget start sent op) : Single op := by
  cases budget with
  | queued state type => exact type.single (Or.inl state)
  | pending state type => exact type.single (Or.inr state)
  | ended state type =>
      refine ⟨type, ?_, fun new => ?_⟩
      · intro subscription
        rcases state with state | finished
        · simp [state] at subscription
        · simp only [List.mem_cons, List.not_mem_nil, or_false] at subscription
          rcases subscription with state | state | state <;>
            simp [exoIsOpFinished, state] at finished
      · simp [exoIsOpFinished, new] at state

/-- The first transmission. -/
theorem Budget.transmit {datagram : List UInt8} {mid : UInt16} {token timeout : UInt64}
    (budget : Budget start sent op) (state : op.state = .new) (carries : Carries datagram mid) :
    Budget start (datagram :: sent) { op with state := .pending, timeout, mid, token } := by
  have bound := budget.retries_le
  obtain ⟨type, retries, rfl⟩ := budget.of_new state
  refine .pending rfl type ?_ bound (by simpa using carries)
  rw [retries, List.length_singleton]

/-- One more transmission uses up one retry. -/
theorem Budget.retransmit {datagram : List UInt8} {timeout : UInt64}
    (budget : Budget start sent op) (waits : Waits op) (few : op.retries < coapMaxRetransmit)
    (carries : Carries datagram op.mid) :
    Budget start (datagram :: sent) { op with retries := op.retries + 1, timeout } := by
  have less : op.retries.toNat < 4 := few
  have next := retries_succ few
  cases budget with
  | queued state =>
      rcases waits with other | other
      · rw [state] at other
        cases other
      · rw [state] at other
        cases other
  | pending state type count bound mids =>
      refine .pending state type ?_ ?_ ?_
      · dsimp only
        rw [next, List.length_cons]
        omega
      · dsimp only
        rw [next]
        omega
      · intro other member
        rcases List.mem_cons.mp member with rfl | member
        · exact carries
        · exact mids other member
  | ended state => rcases waits with other | other <;> simp [exoIsOpFinished, other] at state

/-- Progress keeps the budget. -/
theorem Budget.progress {sent' : List (List UInt8)} {next : ExoOp}
    (progress : Progress sent op sent' next) (budget : Budget start sent op) :
    Budget start sent' next := by
  cases progress with
  | idle => exact budget
  | sent state carries => exact budget.transmit state carries
  | resent waits few carries => exact budget.retransmit waits few carries
  | ended state type retries =>
      refine budget.ends state ?_ retries
      rcases type with same | null
      · rw [same]
        exact budget.single.type
      · simp [null]
  | other kind => exact absurd budget.single kind

end Budget

/-! ## Runs -/

section Runs

variable {start : UInt8} {sys after : Sys} {slot : Nat}

theorem run_within {calls : List UserCall} (ran : run sys calls = .ok after)
    (others : ∀ action ∈ calls, ¬ action.Queues slot) (positive : 1 ≤ slot)
    (within : Within start slot sys) : Within start slot after :=
  run_inSlot Budget.progress within ran others positive

/-- A read or write that is queued starts with an empty budget. -/
theorem within_queued {op : ExoOp} {type : ExoRequestType} {aliasPtr valuePtr valueMax : Nat}
    (atSlot : sys.ops[slot]? = some op) (isType : type = .read ∨ type = .write) :
    Within op.retries slot
      ((sys.setOp slot (op.queue type aliasPtr valuePtr valueMax)).record (.queued slot)) := by
  refine ⟨_, getElem?_setOp atSlot, ?_⟩
  rw [if_pos rfl, Sys.record_log, transmitted, if_pos rfl]
  exact .queued rfl isType rfl

theorem call_queues {action : UserCall} {op : ExoOp} (atSlot : sys.ops[slot]? = some op)
    (isRequest : (∃ aliasPtr valuePtr, action = .write slot aliasPtr valuePtr) ∨
      ∃ aliasPtr valuePtr valueMax, action = .read slot aliasPtr valuePtr valueMax)
    (ran : call sys action = .ok after) : Within op.retries slot after := by
  obtain ⟨aliasPtr, valuePtr, rfl⟩ | ⟨aliasPtr, valuePtr, valueMax, rfl⟩ := isRequest
  · obtain ⟨found, isFound, ran⟩ := Exec.bind_eq_ok.mp ran
    rw [opAt_eq_ok isFound] at atSlot
    cases atSlot
    cases ran
    exact within_queued (opAt_eq_ok isFound) (Or.inr rfl)
  · obtain ⟨found, isFound, ran⟩ := Exec.bind_eq_ok.mp ran
    rw [opAt_eq_ok isFound] at atSlot
    cases atSlot
    cases ran
    exact within_queued (opAt_eq_ok isFound) (Or.inl rfl)

/-- From a call of `exo_read` or `exo_write` on an op until another request is queued in its
slot, at most `1 + COAP_MAX_RETRANSMIT` datagrams go out for it, all with one message id, and
its counter stays within the larger of its value at the call and `COAP_MAX_RETRANSMIT`. -/
theorem transmissions_bounded {queued : Sys} {action : UserCall} {calls : List UserCall}
    {op : ExoOp} (positive : 1 ≤ slot) (atSlot : sys.ops[slot]? = some op)
    (isRequest : (∃ aliasPtr valuePtr, action = .write slot aliasPtr valuePtr) ∨
      ∃ aliasPtr valuePtr valueMax, action = .read slot aliasPtr valuePtr valueMax)
    (called : call sys action = .ok queued) (ran : run queued calls = .ok after)
    (others : ∀ other ∈ calls, ¬ other.Queues slot) :
    (transmitted slot after.log).length ≤ 1 + coapMaxRetransmit.toNat ∧
    (∃ mid, ∀ datagram ∈ transmitted slot after.log, Carries datagram mid) ∧
    ∀ next, after.ops[slot]? = some next →
      next.retries.toNat ≤ max op.retries.toNat coapMaxRetransmit.toNat := by
  obtain ⟨found, isFound, budget⟩ :=
    run_within ran others positive (call_queues atSlot isRequest called)
  refine ⟨budget.length_le, budget.mid, fun next isNext => ?_⟩
  rw [isFound] at isNext
  cases isNext
  exact budget.retries_le

end Runs

/-- `exo_operate` at some time, with nothing to receive. -/
def operateAt (time : UInt64) : UserCall :=
  .operate ⟨time, [], time, fun _ => ⟨quietBuffer [], 0x2211, true, time, 0⟩⟩

/-- A read that is never answered goes out five times. -/
theorem transmissions_bounded_read : ∃ sys queued after,
    run (powerOn 2 quietHeap) [quietInit] = .ok sys ∧ sys.ops[1]? = some exoOpInit ∧
      call sys (.read 1 1 3 8) = .ok queued ∧
      run queued ([0, 5000000, 10000000, 15000000, 20000000, 30000000].map operateAt) = .ok after ∧
      (transmitted 1 after.log).length = 5 ∧
      (∃ mid, ∀ datagram ∈ transmitted 1 after.log, Carries datagram mid) ∧
      ∀ next, after.ops[1]? = some next →
        next.retries.toNat ≤ max exoOpInit.retries.toNat coapMaxRetransmit.toNat := by
  have computed : (run (powerOn 2 quietHeap) [quietInit] >>= fun sys =>
      call sys (.read 1 1 3 8) >>= fun queued =>
        (run queued ([0, 5000000, 10000000, 15000000, 20000000, 30000000].map operateAt)).map
          fun after => (sys.ops, (transmitted 1 after.log).length)) =
      .ok ([exoOpInit, exoOpInit], 5) := by decide +kernel
  obtain ⟨sys, started, computed⟩ := Exec.bind_eq_ok.mp computed
  obtain ⟨queued, called, computed⟩ := Exec.bind_eq_ok.mp computed
  obtain ⟨after, ran, values⟩ := Exec.map_eq_ok.mp computed
  simp only [Prod.mk.injEq] at values
  obtain ⟨ops, count⟩ := values
  have atSlot : sys.ops[1]? = some exoOpInit := by
    rw [ops]
    rfl
  have others : ∀ other ∈ [0, 5000000, 10000000, 15000000, 20000000, 30000000].map operateAt,
      ¬ other.Queues 1 := by
    intro other member
    obtain ⟨time, -, rfl⟩ := List.mem_map.mp member
    exact id
  obtain ⟨-, mid, retries⟩ := transmissions_bounded (Nat.le_refl 1) atSlot
    (Or.inr ⟨1, 3, 8, rfl⟩) called ran others
  exact ⟨sys, queued, after, started, atSlot, called, ran, count, mid, retries⟩

end ExositeCoap.Exosite
