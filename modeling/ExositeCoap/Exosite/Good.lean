import ExositeCoap.Exosite.Cik
import ExositeCoap.Exosite.Outcome

/-!
# Evidence of an accepted CIK

`device_state` becomes `GOOD` when an activation request is answered with a CIK, and when a
response is 4.04.  For a request of the user the latter says that the server accepts the CIK
and only the dataport is missing.  The branch does not look at the type of the op, though,
and a 4.04 to the activation request itself does the same.
-/

namespace ExositeCoap.Exosite

open Lib Wire Coap

/-! ## The parts of a run -/

/-- What changes the system in one go during a run, with the datagram that is handled, if
there is one. -/
inductive RunPart (start : Sys) (calls : List UserCall) : Option Arrival → Sys → Sys → Prop where
  /-- a call other than `exo_operate` -/
  | user {front back : List UserCall} {action : UserCall} {sys next : Sys}
      (split : calls = front ++ action :: back) (ran : run start front = .ok sys)
      (other : action.operation sys = []) (called : call sys action = .ok next) :
      RunPart start calls none sys next
  /-- the look of `exo_operate` at slot 0 -/
  | ready {operation : Operation} {ready : Sys} (member : operation ∈ operations start calls)
      (on : operation.before.deviceState ≠ .uninitialized)
      (isReady : exoReady operation.env.time operation.before = .ok ready) :
      RunPart start calls none operation.before ready
  /-- a round of the receive loop -/
  | handled {arrival : Arrival} {goOn : Bool} {next : Sys}
      (member : arrival ∈ arrivals start calls)
      (ran : exoHandleDatagram arrival.rx arrival.before = .ok (goOn, next)) :
      RunPart start calls (some arrival) arrival.before next
  /-- the pass over the active ops -/
  | active {operation : Operation} {ready received after : Sys}
      (member : operation ∈ operations start calls)
      (on : operation.before.deviceState ≠ .uninitialized)
      (isReady : exoReady operation.env.time operation.before = .ok ready)
      (waiting : exoProcessWaitingDatagrams ready operation.env.datagrams = .ok received)
      (ran : exoProcessActiveOps operation.env.now operation.env.slots received = .ok after) :
      RunPart start calls none received after

/-- The parts of a run one after another. -/
abbrev RunParts (start : Sys) (calls : List UserCall) :=
  Relation.ReflTransGen fun sys after => ∃ source, RunPart start calls source sys after

section Parts

variable {start sys after : Sys} {calls : List UserCall}

theorem exoProcessWaitingDatagrams_parts {datagrams : List Received}
    (members : ∀ arrival ∈ waitingArrivals sys datagrams, arrival ∈ arrivals start calls)
    (ran : exoProcessWaitingDatagrams sys datagrams = .ok after) :
    RunParts start calls sys after := by
  refine @exoProcessWaitingDatagrams_rule _ _ _ (RunParts start calls sys) ran .refl ?_
  intro arrival goOn next member handled parts
  exact parts.tail ⟨_, .handled (members arrival member) handled⟩

/-- A call consists of its parts. -/
theorem call_parts {front back : List UserCall} {action : UserCall}
    (split : calls = front ++ action :: back) (ran : run start front = .ok sys)
    (called : call sys action = .ok after) : RunParts start calls sys after := by
  cases action with
  | operate env =>
      have member : ⟨sys, env⟩ ∈ operations start calls := by
        rw [split]
        exact mem_operations ran
      obtain ⟨⟨state, result⟩, operated, same⟩ := Exec.bind_eq_ok.mp called
      cases same
      obtain ⟨-, rfl⟩ | ⟨on, ready, received, isReady, waiting, active⟩ :=
        exoOperate_parts operated
      · exact .refl
      · have arrived : ∀ arrival ∈ waitingArrivals ready env.datagrams,
            arrival ∈ arrivals start calls := by
          intro arrival isArrival
          refine List.mem_flatMap.mpr ⟨_, member, ?_⟩
          rw [Operation.arrivals, if_neg on, isReady]
          exact isArrival
        exact .head ⟨_, .ready member on isReady⟩
          ((exoProcessWaitingDatagrams_parts arrived waiting).tail
            ⟨_, .active member on isReady waiting active⟩)
  | _ => exact .single ⟨_, .user split ran rfl called⟩

/-- A run consists of its parts. -/
theorem run_parts (ran : run start calls = .ok after) : RunParts start calls start after := by
  have later : ∀ {back front : List UserCall} {sys : Sys}, calls = front ++ back →
      run start front = .ok sys → run sys back = .ok after → RunParts start calls sys after := by
    intro back
    induction back with
    | nil =>
        intro front sys _ _ rest
        cases rest
        exact .refl
    | cons action back ih =>
        intro front sys split before rest
        obtain ⟨next, called, rest⟩ := Exec.bind_eq_ok.mp rest
        refine (call_parts split before called).trans
          (@ih (front ++ [action]) next ?_ (run_concat before called) rest)
        rw [split, List.append_assoc, List.singleton_append]
  exact @later calls [] start rfl rfl ran

theorem RunPart.sysSteps {source : Option Arrival} (part : RunPart start calls source sys after) :
    SysSteps sys after := by
  cases part with
  | user _ _ _ called => exact (call_runSteps called).sysSteps
  | ready _ on isReady => exact ((exoReady_callSteps isReady).runSteps on).sysSteps
  | handled member ran =>
      obtain ⟨operation, -, isArrival⟩ := List.mem_flatMap.mp member
      obtain ⟨on, steps⟩ := Operation.arrivals_reached isArrival
      exact (exoHandleDatagram_steps ran).sysSteps (steps.libSteps.deviceState on)
  | active _ on isReady waiting ran =>
      have steps := (exoReady_callSteps isReady).trans (exoProcessWaitingDatagrams_callSteps waiting)
      exact ((exoActiveLoop_callSteps ran).runSteps
        ((CallSteps.libSteps steps).deviceState on)).sysSteps

/-- What every part of a run keeps holds at its end. -/
theorem run_rule {holds : Sys → Prop} (ran : run start calls = .ok after) (first : holds start)
    (keeps : ∀ {source : Option Arrival} {sys next : Sys}, SysSteps start sys →
      RunPart start calls source sys next → holds sys → holds next) : holds after := by
  have both : SysSteps start after ∧ holds after := by
    have parts := run_parts ran
    clear ran
    induction parts with
    | refl => exact ⟨.refl, first⟩
    | tail _ step ih =>
        obtain ⟨source, part⟩ := step
        exact ⟨ih.1.trans part.sysSteps, keeps ih.1 part ih.2⟩
  exact both.2

/-- A run goes on from any state on its way. -/
theorem run_split {front back : List UserCall} {middle : Sys} (before : run start front = .ok middle)
    (ran : run start (front ++ back) = .ok after) : run middle back = .ok after := by
  induction front generalizing start with
  | nil =>
      cases before
      exact ran
  | cons action rest ih =>
      obtain ⟨next, called, before⟩ := Exec.bind_eq_ok.mp before
      rw [List.cons_append, run, called] at ran
      exact ih before ran

/-- From the state in which a datagram is handled the run goes on to its end. -/
theorem arrivals_rest {arrival : Arrival} (ran : run start calls = .ok after)
    (member : arrival ∈ arrivals start calls) : SysSteps arrival.before after := by
  obtain ⟨operation, isOperation, isArrival⟩ := List.mem_flatMap.mp member
  obtain ⟨on, reached⟩ := Operation.arrivals_reached isArrival
  obtain ⟨front, back, rfl, before⟩ := operations_split isOperation
  obtain ⟨middle, called, rest⟩ := Exec.bind_eq_ok.mp (run_split before ran)
  obtain ⟨⟨state, result⟩, operated, same⟩ := Exec.bind_eq_ok.mp called
  cases same
  obtain ⟨off, -⟩ | ⟨-, ready, received, isReady, waiting, active⟩ := exoOperate_parts operated
  · exact absurd off on
  · rw [Operation.arrivals, if_neg on, isReady] at isArrival
    obtain ⟨goOn, next, handled, later⟩ := waitingArrivals_handled waiting isArrival
    have steps : CallSteps arrival.before result :=
      .head (.received handled) (later.trans (exoActiveLoop_callSteps active))
    exact ((steps.runSteps (reached.libSteps.deviceState on)).sysSteps).trans (run_steps rest)

end Parts

/-! ## Evidence -/

/-- The datagram is a 4.04 response, and the op in `slot` is the first one that waits for
it. -/
structure Arrival.NotFound (arrival : Arrival) (slot : Nat) (op : ExoOp) : Prop where
  isAck : IsAck arrival.rx
  code : coapGetCode arrival.rx.pdu = .ok ccNotFound
  atSlot : arrival.before.ops[slot]? = some op
  awaited : AwaitedBy arrival.rx op
  first : ∀ j other, j < slot → arrival.before.ops[j]? = some other → ¬ AwaitedBy arrival.rx other

/-- The datagram brings a CIK for the activation request, or a 4.04 for a request that
carried the CIK. -/
inductive Arrival.Evidence (arrival : Arrival) : Prop where
  | cik {slot : Nat} {bytes : List UInt8} (installs : arrival.Installs slot bytes)
  | accepted {slot : Nat} {op : ExoOp} (notFound : arrival.NotFound slot op)
      (type : op.type = .read ∨ op.type = .write ∨ op.type = .subscribe)

section Device

variable {sys after : Sys}

theorem SlotStep.deviceState {env : SlotEnv} {i : Nat} {op : ExoOp}
    (step : SlotStep env sys i op after) : after.deviceState = sys.deviceState := by
  cases step <;> rfl

end Device

section Responses

variable {arrival : Arrival} {slot : Nat} {op : ExoOp}

theorem class_of_notFound {rx : Received} (code : coapGetCode rx.pdu = .ok ccNotFound) :
    coapGetCodeClass rx.pdu = .ok 4 := by
  rw [coapGetCodeClass, code]
  rfl

/-- The op that a 4.04 response reaches is the first one that waits for it. -/
theorem Arrival.NotFound.op_eq {other : Nat} {found : ExoOp}
    (notFound : arrival.NotFound slot op) (again : arrival.NotFound other found) : found = op := by
  rcases Nat.lt_trichotomy slot other with before | rfl | behind
  · exact absurd notFound.awaited (again.first slot op before notFound.atSlot)
  · have same := again.atSlot
    rw [notFound.atSlot] at same
    exact (Option.some.inj same).symm
  · exact absurd again.awaited (notFound.first other found behind again.atSlot)

/-- A 4.04 response makes the device state `GOOD`, whatever it answers. -/
theorem Arrival.NotFound.handled (notFound : arrival.NotFound slot op) :
    ∃ next, exoHandleDatagram arrival.rx arrival.before = .ok (true, next) ∧
      next.deviceState = .good := by
  have isAck := notFound.isAck
  obtain ⟨token, isToken⟩ := (readsHeader_of_valid isAck.valid).token
  obtain ⟨result, round, good⟩ : ∃ result,
      exoMatchOp arrival.rx arrival.before slot op = .ok (true, result) ∧
        result.deviceState = .good := by
    have isClass := class_of_notFound notFound.code
    have failed : (4 : Nat) ≠ 2 := by decide
    have other : ccNotFound ≠ ccUnauthorized := by decide
    simp only [exoMatchOp, exoRefused, isToken, isAck.type, notFound.awaited.mid,
      notFound.awaited.state, isClass, notFound.code, failed, other, Exec.ok_bind,
      Exec.pure_eq_ok, if_true, if_false, and_self]
    exact ⟨_, rfl, rfl⟩
  have takes : ∀ taken next, exoMatchOp arrival.rx arrival.before slot op = .ok (taken, next) →
      taken = true := by
    intro taken next ran
    rw [round] at ran
    cases ran
    rfl
  have pass : ∀ k other, k < slot → arrival.before.ops[k]? = some other →
      exoMatchOp arrival.rx arrival.before k other = .ok (false, arrival.before) :=
    fun k other before isOther => exoMatchOp_unawaited isAck (notFound.first k other before isOther)
  exact ⟨result.record (.handled arrival.before.ops arrival.rx.pdu),
    (exoHandleDatagram_round isAck.valid notFound.atSlot pass takes).mpr
      ⟨rfl, result, round, rfl⟩, good⟩

end Responses

/-! ## Runs -/

section Runs

variable {arrival : Arrival} {calls : List UserCall}

end Runs

end ExositeCoap.Exosite
