import ExositeCoap.Exosite.Good
import ExositeCoap.Exosite.Turn
import ExositeCoap.Lib.Deadline

/-!
# How long a request takes

A read or write is a task that `exo_operate` polls: every transmission and giving up are its
steps, and the timeout says when the next one is due.  So it finishes when `exo_operate` is
called often enough, and the server has some time to answer before it is given up.
-/

namespace ExositeCoap.Exosite

open Lib Wire Coap

/-- The transmissions that are left of a request, and giving up. -/
def ExoOp.task (op : ExoOp) : Task :=
  if op.state = .new then ⟨2 + (coapMaxRetransmit.toNat - op.retries.toNat), 0⟩
  else if op.state = .pending then
    ⟨1 + (coapMaxRetransmit.toNat - op.retries.toNat), op.timeout.toNat⟩
  else ⟨0, 0⟩

/-- Four seconds after the first transmission, one second more after each of the others, and
some jitter. -/
def retrySchedule (reliable : Prop) : Schedule where
  pause := fun rank => if rank = 5 then 4000000 else (5 - rank) * 1000000
  patience := 5500000
  reliable := reliable

/-- A call of `exo_operate` as the op in `slot` sees it. -/
def OperateEnv.poll (env : OperateEnv) (slot : Nat) : Poll :=
  ⟨env.now.toNat, (env.slots slot).time.toNat⟩

/-- The calls of `exo_operate` in a sequence of calls. -/
def polls (slot : Nat) (calls : List UserCall) : List Poll :=
  calls.flatMap fun
    | .operate env => [env.poll slot]
    | _ => []

/-- The clock is far from its end. Where it matters, datagrams can be sent, and the library
is not switched off. -/
def UserCall.Serves (reliable : Prop) (slot : Nat) : UserCall → Prop
  | .operate env => (reliable → (env.slots slot).sendOk = true) ∧
    (env.slots slot).time.toNat + 5500000 < 2 ^ 64
  | .init env _ _ _ => reliable → env.palOk = true ∧ env.retrieved ≤ 1 ∧ env.sockOk = true
  | _ => True

/-! ## One call -/

section Visits

variable {reliable : Prop} {env : OperateEnv} {slot : Nat} {op next : ExoOp}

theorem task_finished (finished : exoIsOpFinished op = true) : op.task = ⟨0, 0⟩ := by
  simp only [exoIsOpFinished, Bool.or_eq_true, decide_eq_true_eq] at finished
  unfold ExoOp.task
  rcases finished with state | state <;> simp [state]

theorem task_new (state : op.state = .new) :
    op.task = ⟨2 + (coapMaxRetransmit.toNat - op.retries.toNat), 0⟩ := if_pos state

theorem task_pending (state : op.state = .pending) :
    op.task = ⟨1 + (coapMaxRetransmit.toNat - op.retries.toNat), op.timeout.toNat⟩ := by
  unfold ExoOp.task
  rw [if_neg (by rw [state]; decide), if_pos state]

/-- The timeout after the first transmission. -/
theorem firstTimeout_toNat {time : UInt64} (room : time.toNat + 5500000 < 2 ^ 64) :
    (time + 4000000).toNat = time.toNat + 4000000 := by
  rw [UInt64.toNat_add]
  exact Nat.mod_eq_of_lt (by change _ + 4000000 < 2 ^ 64; omega)

/-- The timeout after a retransmission. -/
theorem timeout_toNat {time jitter : UInt64} {retries : UInt8} (few : retries.toNat ≤ 4)
    (room : time.toNat + 5500000 < 2 ^ 64) :
    time.toNat + retries.toNat * 1000000 ≤
        (time + retries.toUInt64 * 1000000 + jitter % 1500000).toNat ∧
      (time + retries.toUInt64 * 1000000 + jitter % 1500000).toNat ≤ time.toNat + 5500000 := by
  have small : jitter.toNat % 1500000 < 1500000 := Nat.mod_lt _ (by decide)
  have product : (retries.toUInt64 * 1000000).toNat = retries.toNat * 1000000 := by
    rw [UInt64.toNat_mul, UInt8.toNat_toUInt64]
    exact Nat.mod_eq_of_lt (by change retries.toNat * 1000000 < 2 ^ 64; omega)
  have rest : (jitter % 1500000).toNat = jitter.toNat % 1500000 := UInt64.toNat_mod _ _
  have first : (time + retries.toUInt64 * 1000000).toNat =
      time.toNat + retries.toNat * 1000000 := by
    rw [UInt64.toNat_add, product]
    exact Nat.mod_eq_of_lt (by omega)
  have whole : (time + retries.toUInt64 * 1000000 + jitter % 1500000).toNat =
      time.toNat + retries.toNat * 1000000 + jitter.toNat % 1500000 := by
    rw [UInt64.toNat_add, first, rest]
    exact Nat.mod_eq_of_lt (by omega)
  omega

/-- The turn of a request is a poll of its task. -/
theorem Visit.serves (visit : Visit env.now (env.slots slot) op next)
    (serves : UserCall.Serves reliable slot (.operate env)) :
    (env.poll slot).Serves (retrySchedule reliable) op.task next.task := by
  obtain ⟨sends, room⟩ := serves
  cases visit with
  | finished state =>
      rw [task_finished state]
      exact .rests fun _ => Or.inl rfl
  | early state early =>
      rw [task_pending state]
      exact .rests fun _ => Or.inr early
  | unsent failed =>
      refine .rests fun isReliable => ?_
      rw [sends isReliable] at failed
      cases failed
  | first state =>
      rw [task_new state, task_pending rfl]
      have timeout := firstTimeout_toNat room
      have limit : coapMaxRetransmit.toNat = 4 := rfl
      refine .steps (Nat.zero_le _) ?_ ?_ ?_
      · dsimp only
        omega
      · simp only [retrySchedule, OperateEnv.poll, timeout, limit]
        split_ifs <;> omega
      · simp only [retrySchedule, OperateEnv.poll, timeout]
        omega
  | again state overdue few =>
      have moved : ∀ (retries : UInt8) (timeout : UInt64),
          ExoOp.task { op with retries, timeout } =
            ⟨1 + (coapMaxRetransmit.toNat - retries.toNat), timeout.toNat⟩ :=
        fun _ _ => task_pending state
      rw [task_pending state, moved]
      have limit : coapMaxRetransmit.toNat = 4 := rfl
      have more := retries_succ few
      have less : op.retries.toNat < 4 := few
      obtain ⟨lower, upper⟩ := @timeout_toNat (env.slots slot).time (env.slots slot).jitter
        (op.retries + 1) (by omega) room
      generalize (env.slots slot).time + (op.retries + 1).toUInt64 * 1000000 +
        (env.slots slot).jitter % 1500000 = timeout at lower upper ⊢
      refine .steps overdue ?_ ?_ ?_
      · dsimp only
        omega
      · simp only [retrySchedule, OperateEnv.poll, limit, more] at lower ⊢
        have rank : 1 + (4 - (op.retries.toNat + 1)) = 4 - op.retries.toNat := by omega
        have steps : 5 - (4 - op.retries.toNat) = op.retries.toNat + 1 := by omega
        rw [rank, steps, if_neg (by omega)]
        exact lower
      · exact upper
  | gaveUp state overdue spent =>
      rw [@task_finished { op with state := .error } rfl]
      exact .finishes rfl (Nat.zero_le _)

/-- A call of `exo_operate` is a poll of the task of every read and write. -/
theorem exoOperate_serves {sys after : Sys} {state : ExoState}
    (ran : exoOperate env sys = .ok (state, after)) (on : sys.deviceState ≠ .uninitialized)
    (typed : AllTyped sys) (positive : 1 ≤ slot) (atSlot : sys.ops[slot]? = some op)
    (type : Answerable op) (serves : UserCall.Serves reliable slot (.operate env)) :
    ∃ next, after.ops[slot]? = some next ∧
      (env.poll slot).Serves (retrySchedule reliable) op.task next.task := by
  obtain ⟨middle, next, -, same | finished, visit, isNext⟩ :=
    exoOperate_visit ran on typed positive atSlot type
  · subst same
    exact ⟨next, isNext, visit.serves serves⟩
  · refine ⟨next, isNext, ?_⟩
    rw [visit.eq_of_finished finished, task_finished finished]
    exact .finishes rfl (Nat.zero_le _)

/-- A call of `exo_operate` that leaves a new request pending has sent it. -/
theorem exoOperate_sends_new {sys after : Sys} {state : ExoState}
    (ran : exoOperate env sys = .ok (state, after)) (on : sys.deviceState ≠ .uninitialized)
    (typed : AllTyped sys) (positive : 1 ≤ slot) (atSlot : sys.ops[slot]? = some op)
    (type : Answerable op) (new : op.state = .new) (isNext : after.ops[slot]? = some next)
    (pending : next.state = .pending) :
    Answerable next ∧ next.retries = op.retries ∧
      next.timeout = (env.slots slot).time + 4000000 := by
  obtain ⟨middle, found, -, same | finished, visit, isFound⟩ :=
    exoOperate_visit ran on typed positive atSlot type
  · subst same
    rw [isNext] at isFound
    cases isFound
    cases visit with
    | first => exact ⟨type, rfl, rfl⟩
    | again other => simp [new] at other
    | _ => simp [new] at pending
  · rw [visit.eq_of_finished finished, isNext] at isFound
    cases isFound
    simp [exoIsOpFinished, pending] at finished

/-- A request with a fresh counter is given up after its timeout and ten seconds at the
earliest. -/
theorem earliest_fresh (pending : op.state = .pending) (fresh : op.retries = 0) :
    op.task.earliest (retrySchedule False) = op.timeout.toNat + 10000000 := by
  have rank : 1 + (coapMaxRetransmit.toNat - op.retries.toNat) = 5 := by
    rw [fresh]
    rfl
  have sum : ∑ rank ∈ Finset.Ico 1 5, (retrySchedule False).pause rank = 10000000 := rfl
  rw [task_pending pending, Task.earliest, rank, sum]

/-- A request whose retransmissions are spent is given up after its timeout. -/
theorem earliest_spent (pending : op.state = .pending)
    (spent : ¬ op.retries < coapMaxRetransmit) :
    op.task.earliest (retrySchedule False) = op.timeout.toNat := by
  have used : coapMaxRetransmit.toNat - op.retries.toNat = 0 :=
    Nat.sub_eq_zero_of_le (Nat.not_lt.mp spent)
  rw [task_pending pending, Task.earliest, used]
  simp

end Visits

/-- A request that is given up is overdue, and its retransmissions are spent. -/
theorem GivesUp.spent {slot : Nat} {operation : Operation} {turn : Sys} {op : ExoOp}
    (givesUp : GivesUp slot operation turn) (typed : AllTyped operation.before)
    (positive : 1 ≤ slot) (atSlot : operation.before.ops[slot]? = some op)
    (type : Answerable op) :
    op.state = .pending ∧ op.timeout ≤ operation.env.now ∧
      ¬ op.retries < coapMaxRetransmit := by
  obtain ⟨-, isTurn, last, next, failed, isLast, -, waits, processed, isFailed, error⟩ := givesUp
  have same : last = op := by
    obtain ⟨found, isFound, same | finished⟩ :=
      Operation.turn_ends isTurn typed positive atSlot type
    · rw [isLast] at isFound
      cases isFound
      exact same
    · rw [isLast] at isFound
      cases isFound
      simp [exoIsOpFinished, waits] at finished
  subst same
  obtain ⟨found, isFound, visit⟩ := exoProcessOp_visit isLast (typed atSlot) type processed
  rw [isFailed] at isFound
  cases isFound
  cases visit with
  | gaveUp _ overdue spent => exact ⟨waits, overdue, spent⟩
  | first other => simp [waits] at other
  | again => simp [waits] at error
  | _ => simp [waits] at error

/-! ## Runs -/

section Runs

variable {reliable : Prop} {slot : Nat} {sys after : Sys} {op : ExoOp}

/-- A call that is not about the slot keeps its request. -/
theorem call_sameRequest {action : UserCall} (ran : call sys action = .ok after)
    (typed : AllTyped sys) (positive : 1 ≤ slot) (atSlot : sys.ops[slot]? = some op)
    (elsewhere : action.Elsewhere slot) :
    ∃ next, after.ops[slot]? = some next ∧ SameRequest op next := by
  cases action with
  | operate env =>
      obtain ⟨⟨state, result⟩, operated, ran⟩ := Exec.bind_eq_ok.mp ran
      cases ran
      exact LibSteps.sameRequest (exoOperate_steps operated).1 typed positive atSlot
  | _ => exact ⟨op, call_elsewhere ran atSlot elsewhere (by rintro _ ⟨⟩), .refl op⟩

/-- The library stays on. -/
theorem call_on {action : UserCall} (ran : call sys action = .ok after) (isReliable : reliable)
    (on : sys.deviceState ≠ .uninitialized) (serves : action.Serves reliable slot) :
    after.deviceState ≠ .uninitialized := by
  cases action with
  | init env vendor model serial =>
      cases ran
      obtain ⟨pal, retrieved, sock⟩ := serves isReliable
      have known : ¬ env.retrieved > 1 := Nat.not_lt.mpr retrieved
      simp [exoInit, pal, known, sock, Sys.record]
  | _ => exact call_stays_on ran (by rintro _ _ _ _ ⟨⟩) on

/-- A call of the user, and what it is as a poll. -/
theorem call_serving {action : UserCall} (ran : call sys action = .ok after)
    (on : reliable → sys.deviceState ≠ .uninitialized) (typed : AllTyped sys)
    (positive : 1 ≤ slot) (atSlot : sys.ops[slot]? = some op) (type : Answerable op)
    (elsewhere : action.Elsewhere slot) (serves : action.Serves reliable slot) :
    ∃ next, after.ops[slot]? = some next ∧ SameRequest op next ∧
      Serving (retrySchedule reliable) (polls slot [action]) op.task next.task := by
  obtain ⟨next, isNext, request⟩ := call_sameRequest ran typed positive atSlot elsewhere
  refine ⟨next, isNext, request, ?_⟩
  cases action with
  | operate env =>
      obtain ⟨⟨state, result⟩, operated, ran⟩ := Exec.bind_eq_ok.mp ran
      cases ran
      refine .cons ?_ .nil
      by_cases isOn : sys.deviceState = .uninitialized
      · rw [(exoOperate_steps operated).2 isOn, atSlot] at isNext
        cases isNext
        exact .rests fun isReliable => absurd isOn (on isReliable)
      · obtain ⟨other, isOther, served⟩ :=
          exoOperate_serves operated isOn typed positive atSlot type serves
        rw [isNext] at isOther
        cases isOther
        exact served
  | _ =>
      rw [call_elsewhere ran atSlot elsewhere (by rintro _ ⟨⟩)] at isNext
      cases isNext
      exact .nil

/-- A run polls the task of a request once for each call of `exo_operate`. -/
theorem run_serving {calls : List UserCall} (ran : run sys calls = .ok after)
    (on : reliable → sys.deviceState ≠ .uninitialized) (typed : AllTyped sys)
    (positive : 1 ≤ slot) (atSlot : sys.ops[slot]? = some op) (type : Answerable op)
    (elsewhere : ∀ action ∈ calls, action.Elsewhere slot)
    (serves : ∀ action ∈ calls, action.Serves reliable slot) :
    ∃ final, after.ops[slot]? = some final ∧ SameRequest op final ∧ AllTyped after ∧
      Serving (retrySchedule reliable) (polls slot calls) op.task final.task := by
  induction calls generalizing sys op with
  | nil =>
      cases ran
      exact ⟨op, atSlot, .refl op, typed, .nil⟩
  | cons action rest ih =>
      obtain ⟨next, called, ran⟩ := Exec.bind_eq_ok.mp ran
      have here := serves action List.mem_cons_self
      obtain ⟨middle, isMiddle, request, first⟩ := call_serving called on typed positive atSlot
        type (elsewhere action List.mem_cons_self) here
      obtain ⟨final, isFinal, later, isTyped, others⟩ := ih ran
        (fun isReliable => call_on called isReliable (on isReliable) here)
        (call_allTyped called typed) isMiddle (request.answerable type)
        (fun other member => elsewhere other (List.mem_cons_of_mem _ member))
        (fun other member => serves other (List.mem_cons_of_mem _ member))
      have split : polls slot (action :: rest) = polls slot [action] ++ polls slot rest := by
        rw [polls, polls, polls, List.flatMap_cons, List.flatMap_cons, List.flatMap_nil,
          List.append_nil]
      rw [split]
      exact ⟨final, isFinal, request.trans later, isTyped, first.append others⟩

end Runs

section Times

variable {count slot : Nat} {heap : Mem} {start calls : List UserCall} {sys after : Sys}
  {op : ExoOp}

theorem allTyped_of_run (reached : run (powerOn count heap) start = .ok sys) : AllTyped sys :=
  (allTyped_of_reached (run_steps reached)).1

/-- A read or write with a fresh counter is given up 14 seconds after its first transmission
at the earliest. -/
theorem giveUp_patient {env : OperateEnv} {operation : Operation} {turn before : Sys}
    {queued : ExoOp} {state : ExoState}
    (reached : run (powerOn count heap) start = .ok before)
    (on : before.deviceState ≠ .uninitialized) (positive : 1 ≤ slot)
    (isQueued : before.ops[slot]? = some queued) (type : Answerable queued)
    (new : queued.state = .new) (fresh : queued.retries = 0)
    (sent : exoOperate env before = .ok (state, sys)) (atSlot : sys.ops[slot]? = some op)
    (pending : op.state = .pending) (ran : run sys calls = .ok operation.before)
    (elsewhere : ∀ action ∈ calls, action.Elsewhere slot)
    (serves : ∀ action ∈ .operate env :: calls, action.Serves False slot)
    (forwards : ∀ poll ∈ polls slot calls, poll.now ≤ poll.time)
    (givesUp : GivesUp slot operation turn) :
    (env.slots slot).time.toNat + 14000000 ≤ operation.env.now.toNat := by
  have typed : AllTyped before := allTyped_of_run reached
  -- the first transmission sets the timeout
  obtain ⟨answerable, counter, timeout⟩ :=
    exoOperate_sends_new sent on typed positive isQueued type new atSlot pending
  have start := earliest_fresh pending (counter.trans fresh)
  rw [timeout, firstTimeout_toNat (serves _ List.mem_cons_self).2] at start
  -- the request at the end of the calls, and when it is given up
  obtain ⟨final, isFinal, request, typedLater, serving⟩ := @run_serving False _ _ _ _ _ ran
    (fun impossible => impossible.elim)
    (LibSteps.allTyped (exoOperate_steps sent).1 typed) positive atSlot answerable elsewhere
    fun action member => serves action (List.mem_cons_of_mem _ member)
  obtain ⟨waits, overdue, spent⟩ :=
    givesUp.spent typedLater positive isFinal (request.answerable answerable)
  have due := earliest_spent waits spent
  have later := serving.earliest_le forwards (by rw [task_pending waits]; simp)
  have reached : final.timeout.toNat ≤ operation.env.now.toNat := overdue
  omega

end Times

/-- A read is queued. -/
def queuedRead : List UserCall := [quietInit, .read 1 1 3 8]

theorem run_queuedRead : ∃ sys, run (powerOn 2 quietHeap) queuedRead = .ok sys ∧
    sys.deviceState ≠ .uninitialized ∧ sys.ops[1]? = some (exoRead exoOpInit 1 3 8) := by
  have computed : (run (powerOn 2 quietHeap) queuedRead).map (fun sys =>
      (sys.deviceState, sys.ops[1]?)) = .ok (.initialized, some (exoRead exoOpInit 1 3 8)) := by
    decide +kernel
  obtain ⟨sys, ran, values⟩ := Exec.map_eq_ok.mp computed
  simp only [Prod.mk.injEq] at values
  exact ⟨sys, ran, by simp [values.1], values.2⟩

theorem serves_operateAt {reliable : Prop} {slot : Nat} {times : List UInt64}
    (early : ∀ time ∈ times, time.toNat + 5500000 < 2 ^ 64) :
    ∀ action ∈ times.map operateAt, action.Elsewhere slot ∧ action.Serves reliable slot := by
  intro action member
  obtain ⟨time, isTime, rfl⟩ := List.mem_map.mp member
  exact ⟨trivial, fun _ => rfl, early time isTime⟩

/-- Five transmissions without jitter, one at a time as soon as it is due: the read is given
up after exactly 14 seconds. -/
theorem giveUp_patient_tight : ∃ operation turn,
    run (powerOn 2 quietHeap)
        (queuedRead ++ [0, 4000000, 5000000, 7000000, 10000000].map operateAt) =
      .ok operation.before ∧ GivesUp 1 operation turn ∧ operation.env.now = 14000000 ∧
        0 + 14000000 ≤ operation.env.now.toNat := by
  have computed : turnAt (queuedRead ++ [0, 4000000, 5000000, 7000000, 10000000].map operateAt)
      14000000 = .ok (.initialized, .read, .pending, some .error, 5) := by decide +kernel
  obtain ⟨before, turn, whole, givesUp, -⟩ := givesUp_of_turnAt computed
  obtain ⟨sys, reached, on, atSlot⟩ := run_queuedRead
  obtain ⟨next, called, ran⟩ := Exec.bind_eq_ok.mp (run_split reached whole)
  obtain ⟨⟨state, result⟩, operated, same⟩ := Exec.bind_eq_ok.mp called
  cases same
  have pending : (run (powerOn 2 quietHeap) (queuedRead ++ [operateAt 0])).map (fun next =>
      next.ops[1]?.map (·.state)) = .ok (some .pending) := by decide +kernel
  obtain ⟨other, first, isState⟩ := Exec.map_eq_ok.mp pending
  have sent : run sys [operateAt 0] = .ok result := by
    rw [run, called]
    rfl
  have isOther := run_split reached first
  rw [sent] at isOther
  cases isOther
  obtain ⟨op, isOp, waits⟩ := Option.map_eq_some_iff.mp isState
  have both := @serves_operateAt False 1 [0, 4000000, 5000000, 7000000, 10000000]
    (by simp)
  refine ⟨_, turn, whole, givesUp, rfl, ?_⟩
  exact @giveUp_patient 2 1 quietHeap queuedRead
    ([4000000, 5000000, 7000000, 10000000].map operateAt) _ op (envAt 0) ⟨before, envAt 14000000⟩
    turn sys _ state reached on (Nat.le_refl 1) atSlot (Or.inl rfl) rfl rfl operated isOp waits
    ran (fun action member => (both action (List.mem_cons_of_mem _ member)).1)
    (fun action member => (both action member).2) (by decide) givesUp

end ExositeCoap.Exosite
