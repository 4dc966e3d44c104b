import ExositeCoap.Exosite.System

/-!
# What is handled in a run

The calls of `exo_operate` in a run and the datagrams that they handle, each with the
state it meets.  Both lists include what has no result: a call or a datagram on which
the library faults is the last one.
-/

namespace ExositeCoap.Exosite

open Lib Wire Coap

/-- A call of `exo_operate`, and the state before. -/
structure Operation where
  before : Sys
  env : OperateEnv

/-- A datagram that is taken from the socket, and the state before. -/
structure Arrival where
  before : Sys
  rx : Received

/-- The datagrams that `exo_process_waiting_datagrams` handles. -/
def waitingArrivals (sys : Sys) : List Received → List Arrival
  | [] => []
  | rx :: rest => ⟨sys, rx⟩ ::
    match exoHandleDatagram rx sys with
    | .ok (true, next) => waitingArrivals next rest
    | _ => []

/-- The datagrams that a call of `exo_operate` handles. -/
def Operation.arrivals (operation : Operation) : List Arrival :=
  if operation.before.deviceState = .uninitialized then []
  else
    match exoReady operation.env.time operation.before with
    | .ok ready => waitingArrivals ready operation.env.datagrams
    | .error _ => []

/-- What a single call of the user is. -/
def UserCall.operation (sys : Sys) : UserCall → List Operation
  | .operate env => [⟨sys, env⟩]
  | _ => []

/-- The calls of `exo_operate` in a sequence of calls. -/
def operations (sys : Sys) : List UserCall → List Operation
  | [] => []
  | first :: rest => first.operation sys ++
    match call sys first with
    | .ok next => operations next rest
    | .error _ => []

/-- The datagrams that are handled in a sequence of calls. -/
def arrivals (sys : Sys) (calls : List UserCall) : List Arrival :=
  (operations sys calls).flatMap Operation.arrivals

section Reached

variable {sys start : Sys} {calls : List UserCall}

theorem waitingArrivals_reached {datagrams : List Received} {arrival : Arrival}
    (member : arrival ∈ waitingArrivals sys datagrams) : CallSteps sys arrival.before := by
  induction datagrams generalizing sys with
  | nil => cases member
  | cons rx rest ih =>
      rcases List.mem_cons.mp member with rfl | later
      · exact .refl
      · split at later
        · rename_i next handled
          exact .head (.received handled) (ih later)
        · cases later

/-- When the receive loop returns, each datagram has been handled on the way. -/
theorem waitingArrivals_handled {datagrams : List Received} {after : Sys} {arrival : Arrival}
    (ran : exoProcessWaitingDatagrams sys datagrams = .ok after)
    (member : arrival ∈ waitingArrivals sys datagrams) :
    ∃ goOn next, exoHandleDatagram arrival.rx arrival.before = .ok (goOn, next) ∧
      CallSteps next after := by
  induction datagrams generalizing sys with
  | nil => cases member
  | cons rx rest ih =>
      obtain ⟨⟨goOn, next⟩, handled, ran⟩ := Exec.bind_eq_ok.mp ran
      rw [waitingArrivals, handled] at member
      rcases List.mem_cons.mp member with rfl | later
      · refine ⟨goOn, next, handled, ?_⟩
        cases goOn with
        | true => exact exoProcessWaitingDatagrams_callSteps ran
        | false =>
            cases ran
            exact .refl
      · cases goOn with
        | true => exact ih ran later
        | false => cases later

/-- What every datagram keeps that is handled holds after the receive loop. -/
theorem exoProcessWaitingDatagrams_rule {datagrams : List Received} {after : Sys}
    {holds : Sys → Prop} (ran : exoProcessWaitingDatagrams sys datagrams = .ok after)
    (start : holds sys)
    (each : ∀ {arrival : Arrival} {goOn : Bool} {next : Sys},
      arrival ∈ waitingArrivals sys datagrams →
        exoHandleDatagram arrival.rx arrival.before = .ok (goOn, next) →
          holds arrival.before → holds next) : holds after := by
  induction datagrams generalizing sys with
  | nil =>
      cases ran
      exact start
  | cons rx rest ih =>
      obtain ⟨⟨goOn, next⟩, handled, ran⟩ := Exec.bind_eq_ok.mp ran
      have first : holds next :=
        @each ⟨sys, rx⟩ _ _ (by simp [waitingArrivals]) handled start
      cases goOn with
      | false =>
          cases ran
          exact first
      | true =>
          refine ih ran first fun member => each ?_
          rw [waitingArrivals, handled]
          exact List.mem_cons_of_mem _ member

theorem Operation.arrivals_reached {operation : Operation} {arrival : Arrival}
    (member : arrival ∈ operation.arrivals) :
    operation.before.deviceState ≠ .uninitialized ∧
      CallSteps operation.before arrival.before := by
  unfold Operation.arrivals at member
  split_ifs at member with off
  · cases member
  · refine ⟨off, ?_⟩
    split at member
    · rename_i ready isReady
      exact (exoReady_callSteps isReady).trans (waitingArrivals_reached member)
    · cases member

/-- A call of `exo_operate` that stands in the run. -/
theorem mem_operations {front back : List UserCall} {env : OperateEnv}
    (ran : run start front = .ok sys) :
    ⟨sys, env⟩ ∈ operations start (front ++ .operate env :: back) := by
  induction front generalizing start with
  | nil =>
      cases ran
      exact List.mem_append_left _ List.mem_cons_self
  | cons first rest ih =>
      obtain ⟨next, called, ran⟩ := Exec.bind_eq_ok.mp ran
      rw [List.cons_append, operations, called]
      exact List.mem_append_right _ (ih ran)

/-- A call of `exo_operate` in the run follows a part of the run. -/
theorem operations_split {operation : Operation} (member : operation ∈ operations start calls) :
    ∃ front back, calls = front ++ .operate operation.env :: back ∧
      run start front = .ok operation.before := by
  induction calls generalizing start with
  | nil => cases member
  | cons first rest ih =>
      rcases List.mem_append.mp member with here | later
      · cases first with
        | operate env =>
            rw [List.mem_singleton.mp here]
            exact ⟨[], rest, rfl, rfl⟩
        | _ => cases here
      · cases called : call start first with
        | error trap =>
            rw [called] at later
            cases later
        | ok next =>
            rw [called] at later
            obtain ⟨front, back, rfl, ran⟩ := ih later
            refine ⟨first :: front, back, rfl, ?_⟩
            rw [run, called]
            exact ran

/-- A call of `exo_operate` starts in a state that is reached. -/
theorem operations_reached {operation : Operation} (member : operation ∈ operations start calls) :
    RunSteps start operation.before := by
  obtain ⟨front, back, -, ran⟩ := operations_split member
  exact run_runSteps ran

/-- A datagram is handled in a state that is reached. -/
theorem arrivals_reached {arrival : Arrival} (member : arrival ∈ arrivals start calls) :
    RunSteps start arrival.before := by
  obtain ⟨operation, isOperation, isArrival⟩ := List.mem_flatMap.mp member
  obtain ⟨on, steps⟩ := Operation.arrivals_reached isArrival
  exact (operations_reached isOperation).trans (steps.runSteps on)

/-- One more call at the end of a run. -/
theorem run_concat {front : List UserCall} {action : UserCall} {next : Sys}
    (ran : run start front = .ok sys) (called : call sys action = .ok next) :
    run start (front ++ [action]) = .ok next := by
  induction front generalizing start with
  | nil =>
      cases ran
      rw [List.nil_append, run, called]
      rfl
  | cons first rest ih =>
      obtain ⟨middle, isMiddle, ran⟩ := Exec.bind_eq_ok.mp ran
      rw [List.cons_append, run, isMiddle]
      exact ih ran

/-- One more call adds at most an operation. -/
theorem operations_concat {front : List UserCall} (ran : run start front = .ok sys)
    (action : UserCall) :
    operations start (front ++ [action]) = operations start front ++ action.operation sys := by
  induction front generalizing start with
  | nil =>
      cases ran
      simp only [List.nil_append, operations]
      cases call sys action <;> simp
  | cons first rest ih =>
      obtain ⟨next, called, ran⟩ := Exec.bind_eq_ok.mp ran
      rw [List.cons_append, operations, operations, called]
      dsimp only
      rw [ih ran, List.append_assoc]

/-- The datagrams of a run are those of its first call and those of the rest. -/
theorem arrivals_cons {first : UserCall} {rest : List UserCall} {next : Sys}
    (called : call sys first = .ok next) :
    arrivals sys (first :: rest) =
      (first.operation sys).flatMap Operation.arrivals ++ arrivals next rest := by
  rw [arrivals, operations, called, List.flatMap_append]
  rfl

/-- The first datagram that waits is handled after the look at slot 0. -/
theorem mem_arrivals {front back : List UserCall} {env : OperateEnv} {ready : Sys}
    {rx : Received} {rest : List Received} (ran : run start front = .ok sys)
    (on : sys.deviceState ≠ .uninitialized) (isReady : exoReady env.time sys = .ok ready)
    (waiting : env.datagrams = rx :: rest) :
    ⟨ready, rx⟩ ∈ arrivals start (front ++ .operate env :: back) := by
  refine List.mem_flatMap.mpr ⟨⟨sys, env⟩, mem_operations ran, ?_⟩
  rw [Operation.arrivals, if_neg on, isReady]
  dsimp only
  rw [waiting]
  exact List.mem_cons_self

end Reached

end ExositeCoap.Exosite
