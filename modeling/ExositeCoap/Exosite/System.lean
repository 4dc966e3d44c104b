import Mathlib.Logic.Relation
import ExositeCoap.Exosite.Active
import ExositeCoap.Exosite.Handling

/-!
# Runs of the system

`exo_init`, `exo_operate` and whole runs of calls by the user.  Everything that
`exo_operate` does to the system is a sequence of `LibStep`s (`exoOperate_steps`), so
a property of all runs needs one look at each kind of step and at each call.
-/

namespace ExositeCoap.Exosite

open Lib Wire Coap

/-! ## Initialisation and operation -/

/-- What the platform answers during `exo_init`. -/
structure InitEnv where
  palOk : Bool
  rand : UInt16
  /-- result of `exopal_retrieve_cik`, and the array that it leaves -/
  retrieved : Nat
  cik : List UInt8
  cik_length : cik.length = cikLength + 1
  sockOk : Bool

def exoInit (env : InitEnv) (vendor model serial : Nat) (sys : Sys) : ExoError × Sys :=
  let sys := { sys with deviceState := .uninitialized }
  if !env.palOk then (.exoFatalErrorPal, sys)
  else
    let sys := { sys with messageIdCounter := env.rand, serial, vendor, model, cik := env.cik }
    if env.retrieved > 1 then (.exoFatalErrorPal, sys)
    else
      let sys := { sys with cik := sys.cik.set cikLength 0 }
      if !env.sockOk then (.exoFatalErrorPal, sys)
      else (.exoOk, { sys with deviceState := .initialized }.record .initialised)

/-- What the platform answers during `exo_operate`. -/
structure OperateEnv where
  /-- time of the look at slot 0 -/
  time : UInt64
  datagrams : List Received
  /-- time at the start of `exo_process_active_ops` -/
  now : UInt64
  slots : Nat → SlotEnv

/-- Without a known CIK, slot 0 is used for activation. -/
def exoActivateFirst (time : UInt64) (sys : Sys) : Exec Sys :=
  match sys.ops[0]? with
  | none => throw .fault
  | some first =>
    if first.state = .null ∨ first.timeout < time then
      return sys.setOp 0 (exoActivate first)
    else
      return sys

/-- The result of `exo_operate`. -/
def exoStateOf (ops : List ExoOp) : ExoState :=
  if ops.any (·.state = .new) then .exoBusy
  else if ops.any (·.state = .pending) then .exoWaiting
  else .exoIdle

/-- `exo_operate`. -/
def exoOperate (env : OperateEnv) (sys : Sys) : Exec (ExoState × Sys) := do
  if sys.deviceState = .uninitialized then
    return (.exoError, sys)
  let sys ←
    if sys.deviceState = .good then pure sys else exoActivateFirst env.time sys
  let sys ← exoProcessWaitingDatagrams sys env.datagrams
  let sys ← exoProcessActiveOps env.now env.slots sys
  return (exoStateOf sys.ops, sys)

/-! ## Runs -/

/-- A call of the library, or a change that the user makes to its own memory. -/
inductive UserCall where
  | init (env : InitEnv) (vendor model serial : Nat)
  | write (slot aliasPtr valuePtr : Nat)
  | read (slot aliasPtr valuePtr valueMax : Nat)
  | subscribe (slot aliasPtr valuePtr valueMax : Nat)
  | opInit (slot : Nat)
  | opDone (slot : Nat)
  | memory (heap : Mem)
  | operate (env : OperateEnv)

/-- The op in a slot of the array. -/
def Sys.opAt (sys : Sys) (slot : Nat) : Exec ExoOp :=
  match sys.ops[slot]? with
  | none => throw .fault
  | some op => return op

def call (sys : Sys) : UserCall → Exec Sys
  | .init env vendor model serial => return (exoInit env vendor model serial sys).2
  | .write slot aliasPtr valuePtr => do
    let op ← sys.opAt slot
    return (sys.setOp slot (exoWrite op aliasPtr valuePtr)).record (.queued slot)
  | .read slot aliasPtr valuePtr valueMax => do
    let op ← sys.opAt slot
    return (sys.setOp slot (exoRead op aliasPtr valuePtr valueMax)).record (.queued slot)
  | .subscribe slot aliasPtr valuePtr valueMax => do
    let op ← sys.opAt slot
    return (sys.setOp slot (exoSubscribe op aliasPtr valuePtr valueMax)).record (.queued slot)
  | .opInit slot => do
    let _ ← sys.opAt slot
    return sys.setOp slot exoOpInit
  | .opDone slot => do
    let op ← sys.opAt slot
    return (sys.setOp slot (exoOpDone op)).record (.released slot op)
  | .memory heap => return { sys with heap }
  | .operate env => do return (← exoOperate env sys).2

/-- A sequence of calls. -/
def run (sys : Sys) : List UserCall → Exec Sys
  | [] => return sys
  | first :: rest => do run (← call sys first) rest

/-- The system before the first call: the ops initialised by `exo_op_init`. -/
def powerOn (count : Nat) (heap : Mem) : Sys :=
  ⟨List.replicate (cikLength + 1) 0, 0, 0, 0, 0, .uninitialized,
    List.replicate count exoOpInit, heap, []⟩

/-! ## Steps of the library -/

/-- One change that the library makes to the system. -/
inductive LibStep : Sys → Sys → Prop where
  /-- the op in slot `i` takes a datagram -/
  | react {rx : Received} {sys after : Sys} {i : Nat} {op : ExoOp}
      (atSlot : sys.ops[i]? = some op) (takes : Takes rx op)
      (reaction : Reaction rx sys i op after) : LibStep sys after
  /-- a pending op without type is passed over -/
  | passed {sys : Sys} {i : Nat} {op : ExoOp} (atSlot : sys.ops[i]? = some op)
      (state : op.state = .pending) (type : op.type = .null) :
      LibStep sys (sys.record (.unexpected i))
  /-- a valid datagram has been handled without a reply -/
  | handled {rx : Received} {sys : Sys} {ops : List ExoOp}
      (unanswered : (∃ op ∈ ops, Takes rx op) ∨ coapGetType rx.pdu ≠ .ok .con) :
      LibStep sys (sys.record (.handled ops rx.pdu))
  /-- a confirmable message that no op takes is answered with a reset -/
  | replied {rx : Received} {sys : Sys} {datagram : List UInt8} {ok : Bool}
      (unmatched : ∀ op ∈ sys.ops, Takes rx op → op.state = .pending ∧ op.type = .null) :
      LibStep sys ((sys.record (.handled sys.ops rx.pdu)).record
        (.sent (.rst sys.ops rx.pdu) datagram ok))
  /-- slot `i` is processed -/
  | slot {env : SlotEnv} {sys after : Sys} {i : Nat} {op : ExoOp}
      (atSlot : sys.ops[i]? = some op) (step : SlotStep env sys i op after) :
      LibStep sys after
  /-- slot 0 is used for activation -/
  | activate {sys : Sys} {first : ExoOp} {time : UInt64} (atSlot : sys.ops[0]? = some first)
      (free : first.state = .null ∨ first.timeout < time) :
      LibStep sys (sys.setOp 0 (exoActivate first))

/-- Steps of the library. -/
abbrev LibSteps := Relation.ReflTransGen LibStep

section Steps

variable {sys after : Sys}

/-- Log entries for impossible ops are steps of their own. -/
theorem logged_steps {events : List Event} (unexpected : TracesSkipped sys events) :
    LibSteps sys (sys.logged events) := by
  induction events with
  | nil => exact .refl
  | cons event rest ih =>
      obtain ⟨slot, op, rfl, atSlot, state, type⟩ := unexpected event List.mem_cons_self
      exact (ih fun other member => unexpected other (List.mem_cons_of_mem _ member)).tail
        (.passed atSlot state type)

theorem exoHandleDatagram_steps {rx : Received} {goOn : Bool}
    (ran : exoHandleDatagram rx sys = .ok (goOn, after)) : LibSteps sys after := by
  cases exoHandleDatagram_cases ran with
  | invalid => exact .refl
  | taken _ traces atSlot _ round =>
      obtain ⟨takes, reaction⟩ := reaction_of_round round
      exact ((logged_steps traces).tail (.react atSlot takes reaction)).tail
        (.handled (Or.inl ⟨_, List.mem_of_getElem? atSlot, takes⟩))
  | @reset events _ _ _ _ _ datagram _ traces unmatched =>
      exact (logged_steps traces).tail
        (@LibStep.replied rx (sys.logged events) datagram rx.sendOk unmatched)
  | dropped _ traces _ isKind notCon =>
      refine (logged_steps traces).tail (.handled (Or.inr ?_))
      rw [isKind]
      exact fun same => notCon (Except.ok.inj same)

theorem exoActivateFirst_cases {time : UInt64} (ran : exoActivateFirst time sys = .ok after) :
    ∃ first, sys.ops[0]? = some first ∧
      (((first.state = .null ∨ first.timeout < time) ∧
          after = sys.setOp 0 (exoActivate first)) ∨
        (¬ (first.state = .null ∨ first.timeout < time) ∧ after = sys)) := by
  unfold exoActivateFirst at ran
  cases atSlot : sys.ops[0]? with
  | none =>
      rw [atSlot] at ran
      cases ran
  | some first =>
      rw [atSlot] at ran
      dsimp only at ran
      split_ifs at ran with free
      · cases ran
        exact ⟨first, rfl, Or.inl ⟨free, rfl⟩⟩
      · cases ran
        exact ⟨first, rfl, Or.inr ⟨free, rfl⟩⟩

theorem exoActivateFirst_steps {time : UInt64}
    (ran : exoActivateFirst time sys = .ok after) : LibSteps sys after := by
  obtain ⟨first, atSlot, ⟨free, rfl⟩ | ⟨-, rfl⟩⟩ := exoActivateFirst_cases ran
  · exact .single (.activate atSlot free)
  · exact .refl

/-! ### Functions that `exo_operate` calls

`LibStep` keeps of each function what most statements need; `CallStep` keeps the call
itself. -/

/-- One of the functions that `exo_operate` calls. -/
inductive CallStep (sys : Sys) : Sys → Prop where
  | received {rx : Received} {goOn : Bool} {after : Sys}
      (ran : exoHandleDatagram rx sys = .ok (goOn, after)) : CallStep sys after
  | processed {now : UInt64} {env : SlotEnv} {i : Nat} {op : ExoOp} {after : Sys}
      (atSlot : sys.ops[i]? = some op) (ran : exoProcessOp now env sys i op = .ok after) :
      CallStep sys after
  | activated {time : UInt64} {after : Sys} (ran : exoActivateFirst time sys = .ok after) :
      CallStep sys after

abbrev CallSteps := Relation.ReflTransGen CallStep

theorem CallStep.libSteps (step : CallStep sys after) : LibSteps sys after := by
  cases step with
  | received ran => exact exoHandleDatagram_steps ran
  | processed atSlot ran => exact .single (.slot atSlot (exoProcessOp_cases ran))
  | activated ran => exact exoActivateFirst_steps ran

theorem CallSteps.libSteps (steps : CallSteps sys after) : LibSteps sys after := by
  induction steps with
  | refl => exact .refl
  | tail _ step ih => exact ih.trans step.libSteps

theorem exoProcessWaitingDatagrams_callSteps {datagrams : List Received}
    (ran : exoProcessWaitingDatagrams sys datagrams = .ok after) : CallSteps sys after := by
  induction datagrams generalizing sys with
  | nil =>
      cases ran
      exact .refl
  | cons rx rest ih =>
      obtain ⟨⟨goOn, next⟩, handled, ran⟩ := Exec.bind_eq_ok.mp ran
      have step : CallStep sys next := .received handled
      cases goOn with
      | true => exact .head step (ih ran)
      | false =>
          cases ran
          exact .single step

theorem exoActiveLoop_callSteps {now : UInt64} {envs : Nat → SlotEnv} {left i : Nat}
    (ran : exoActiveLoop now envs sys left i = .ok after) : CallSteps sys after := by
  refine @exoActiveLoop_rule _ _ _ _ _ (fun _ state => CallSteps sys state) _ ran .refl ?_
  intro state next i op atSlot processed steps
  exact steps.tail (.processed atSlot processed)

/-- The look at slot 0 with which `exo_operate` starts. -/
def exoReady (time : UInt64) (sys : Sys) : Exec Sys :=
  if sys.deviceState = .good then pure sys else exoActivateFirst time sys

theorem exoReady_cases {time : UInt64} (ran : exoReady time sys = .ok after) :
    after = sys ∨ ∃ first, sys.ops[0]? = some first ∧ after = sys.setOp 0 (exoActivate first) := by
  unfold exoReady at ran
  split_ifs at ran
  · cases ran
    exact Or.inl rfl
  · obtain ⟨first, atSlot, ⟨-, same⟩ | ⟨-, same⟩⟩ := exoActivateFirst_cases ran
    · exact Or.inr ⟨first, atSlot, same⟩
    · exact Or.inl same

theorem exoReady_callSteps {time : UInt64} (ran : exoReady time sys = .ok after) :
    CallSteps sys after := by
  unfold exoReady at ran
  split_ifs at ran
  · cases ran
    exact .refl
  · exact .single (.activated ran)

/-- The three parts of `exo_operate`, which does nothing at all before a successful
`exo_init`. -/
theorem exoOperate_parts {env : OperateEnv} {state : ExoState}
    (ran : exoOperate env sys = .ok (state, after)) :
    (sys.deviceState = .uninitialized ∧ after = sys) ∨
      (sys.deviceState ≠ .uninitialized ∧ ∃ ready received, exoReady env.time sys = .ok ready ∧
        exoProcessWaitingDatagrams ready env.datagrams = .ok received ∧
          exoProcessActiveOps env.now env.slots received = .ok after) := by
  unfold exoOperate at ran
  split_ifs at ran with off good
  · cases ran
    exact Or.inl ⟨off, rfl⟩
  · rw [Exec.pure_eq_ok, Exec.ok_bind] at ran
    obtain ⟨received, waiting, ran⟩ := Exec.bind_eq_ok.mp ran
    obtain ⟨processed, active, ran⟩ := Exec.bind_eq_ok.mp ran
    cases ran
    exact Or.inr ⟨off, sys, received, if_pos good, waiting, active⟩
  · obtain ⟨ready, activated, ran⟩ := Exec.bind_eq_ok.mp ran
    obtain ⟨received, waiting, ran⟩ := Exec.bind_eq_ok.mp ran
    obtain ⟨processed, active, ran⟩ := Exec.bind_eq_ok.mp ran
    cases ran
    exact Or.inr ⟨off, ready, received, (if_neg good).trans activated, waiting, active⟩

/-- `exo_operate` does nothing but call these functions. -/
theorem exoOperate_callSteps {env : OperateEnv} {state : ExoState}
    (ran : exoOperate env sys = .ok (state, after)) :
    CallSteps sys after ∧ (sys.deviceState = .uninitialized → after = sys) := by
  obtain ⟨-, rfl⟩ | ⟨on, ready, received, isReady, waiting, active⟩ := exoOperate_parts ran
  · exact ⟨.refl, fun _ => rfl⟩
  · exact ⟨((exoReady_callSteps isReady).trans (exoProcessWaitingDatagrams_callSteps waiting)).trans
      (exoActiveLoop_callSteps active), fun off => absurd off on⟩

/-- `exo_operate` does nothing but steps of the library. -/
theorem exoOperate_steps {env : OperateEnv} {state : ExoState}
    (ran : exoOperate env sys = .ok (state, after)) :
    LibSteps sys after ∧ (sys.deviceState = .uninitialized → after = sys) :=
  (exoOperate_callSteps ran).imp_left CallSteps.libSteps

end Steps

/-! ## Steps of the whole system -/

/-- One call of the user other than `exo_operate`. -/
inductive UserStep : Sys → Sys → Prop where
  | initFailed {sys : Sys} {counter : UInt16} {cik : List UInt8} {vendor model serial : Nat}
      (length : cik.length = sys.cik.length ∨ cik.length = cikLength + 1) :
      UserStep sys { sys with deviceState := .uninitialized, messageIdCounter := counter,
                              cik, vendor, model, serial }
  | initialised {sys : Sys} {counter : UInt16} {cik : List UInt8} {vendor model serial : Nat}
      (length : cik.length = cikLength + 1) :
      UserStep sys ({ sys with deviceState := .initialized, messageIdCounter := counter,
                               cik, vendor, model, serial }.record .initialised)
  | queued {sys : Sys} {slot : Nat} {op : ExoOp} {type : ExoRequestType}
      {aliasPtr valuePtr valueMax : Nat} (atSlot : sys.ops[slot]? = some op)
      (isType : type = .write ∨ type = .read ∨ type = .subscribe) :
      UserStep sys
        ((sys.setOp slot (op.queue type aliasPtr valuePtr valueMax)).record (.queued slot))
  | opInit {sys : Sys} {slot : Nat} {op : ExoOp} (atSlot : sys.ops[slot]? = some op) :
      UserStep sys (sys.setOp slot exoOpInit)
  | opDone {sys : Sys} {slot : Nat} {op : ExoOp} (atSlot : sys.ops[slot]? = some op) :
      UserStep sys ((sys.setOp slot (exoOpDone op)).record (.released slot op))
  | memory {sys : Sys} (heap : Mem) : UserStep sys { sys with heap }

/-- One step of the system. The library only acts after a successful `exo_init`. -/
inductive SysStep : Sys → Sys → Prop where
  | lib {sys after : Sys} (on : sys.deviceState ≠ .uninitialized) (step : LibStep sys after) :
      SysStep sys after
  | user {sys after : Sys} (step : UserStep sys after) : SysStep sys after

abbrev SysSteps := Relation.ReflTransGen SysStep

/-- The library does not switch itself off. -/
theorem LibStep.deviceState {sys after : Sys} (step : LibStep sys after)
    (on : sys.deviceState ≠ .uninitialized) : after.deviceState ≠ .uninitialized := by
  cases step with
  | react _ _ reaction =>
      cases reaction with
      | activated => exact nofun
      | notFound => exact nofun
      | _ => exact on
  | slot _ step => cases step <;> exact on
  | _ => exact on

theorem LibSteps.sysSteps {sys after : Sys} (steps : LibSteps sys after)
    (on : sys.deviceState ≠ .uninitialized) : SysSteps sys after := by
  induction steps using Relation.ReflTransGen.head_induction_on with
  | refl => exact .refl
  | head step _ ih => exact .head (.lib on step) (ih (step.deviceState on))

/-- One step of the system, with the functions of the library as they are called. -/
inductive RunStep : Sys → Sys → Prop where
  | lib {sys after : Sys} (on : sys.deviceState ≠ .uninitialized) (step : CallStep sys after) :
      RunStep sys after
  | user {sys after : Sys} (step : UserStep sys after) : RunStep sys after

abbrev RunSteps := Relation.ReflTransGen RunStep

theorem LibSteps.deviceState {sys after : Sys} (steps : LibSteps sys after)
    (on : sys.deviceState ≠ .uninitialized) : after.deviceState ≠ .uninitialized := by
  induction steps with
  | refl => exact on
  | tail _ step ih => exact step.deviceState ih

theorem CallSteps.runSteps {sys after : Sys} (steps : CallSteps sys after)
    (on : sys.deviceState ≠ .uninitialized) : RunSteps sys after := by
  induction steps using Relation.ReflTransGen.head_induction_on with
  | refl => exact .refl
  | head step _ ih => exact .head (.lib on step) (ih (step.libSteps.deviceState on))

theorem RunSteps.sysSteps {sys after : Sys} (steps : RunSteps sys after) : SysSteps sys after := by
  induction steps with
  | refl => exact .refl
  | tail _ step ih =>
      cases step with
      | lib on step => exact ih.trans (step.libSteps.sysSteps on)
      | user step => exact ih.tail (.user step)

theorem exoInit_step (env : InitEnv) (vendor model serial : Nat) (sys : Sys) :
    UserStep sys (exoInit env vendor model serial sys).2 := by
  unfold exoInit
  dsimp only
  have size : (env.cik.set cikLength 0).length = cikLength + 1 := by
    rw [List.length_set, env.cik_length]
  split_ifs
  · exact .initFailed (Or.inl rfl)
  · exact .initFailed (Or.inr env.cik_length)
  · exact .initFailed (Or.inr size)
  · exact .initialised size

/-- `exo_init` touches neither the ops nor the memory of the user. -/
theorem exoInit_frame (env : InitEnv) (vendor model serial : Nat) (sys : Sys) :
    (exoInit env vendor model serial sys).2.ops = sys.ops ∧
      (exoInit env vendor model serial sys).2.heap = sys.heap := by
  unfold exoInit
  dsimp only
  split_ifs <;> exact ⟨rfl, rfl⟩

theorem opAt_eq_ok {sys : Sys} {slot : Nat} {op : ExoOp} (found : sys.opAt slot = .ok op) :
    sys.ops[slot]? = some op := by
  unfold Sys.opAt at found
  cases atSlot : sys.ops[slot]? with
  | none =>
      rw [atSlot] at found
      cases found
  | some other =>
      rw [atSlot] at found
      cases found
      rfl

theorem call_runSteps {sys after : Sys} {action : UserCall}
    (ran : call sys action = .ok after) : RunSteps sys after := by
  cases action with
  | init env vendor model serial =>
      cases ran
      exact .single (.user (exoInit_step env vendor model serial sys))
  | write slot =>
      obtain ⟨op, found, ran⟩ := Exec.bind_eq_ok.mp ran
      cases ran
      exact .single (.user (.queued (opAt_eq_ok found) (Or.inl rfl)))
  | read slot =>
      obtain ⟨op, found, ran⟩ := Exec.bind_eq_ok.mp ran
      cases ran
      exact .single (.user (.queued (opAt_eq_ok found) (Or.inr (Or.inl rfl))))
  | subscribe slot =>
      obtain ⟨op, found, ran⟩ := Exec.bind_eq_ok.mp ran
      cases ran
      exact .single (.user (.queued (opAt_eq_ok found) (Or.inr (Or.inr rfl))))
  | opInit slot =>
      obtain ⟨op, found, ran⟩ := Exec.bind_eq_ok.mp ran
      cases ran
      exact .single (.user (.opInit (opAt_eq_ok found)))
  | opDone slot =>
      obtain ⟨op, found, ran⟩ := Exec.bind_eq_ok.mp ran
      cases ran
      exact .single (.user (.opDone (opAt_eq_ok found)))
  | memory heap =>
      cases ran
      exact .single (.user (.memory heap))
  | operate env =>
      obtain ⟨⟨state, next⟩, operated, ran⟩ := Exec.bind_eq_ok.mp ran
      cases ran
      obtain ⟨steps, off⟩ := exoOperate_callSteps operated
      by_cases isOff : sys.deviceState = .uninitialized
      · rw [off isOff]
      · exact steps.runSteps isOff

theorem run_runSteps {sys after : Sys} {calls : List UserCall}
    (ran : run sys calls = .ok after) : RunSteps sys after := by
  induction calls generalizing sys with
  | nil =>
      cases ran
      exact .refl
  | cons action rest ih =>
      obtain ⟨next, called, ran⟩ := Exec.bind_eq_ok.mp ran
      exact (call_runSteps called).trans (ih ran)

/-- A run is a sequence of steps. -/
theorem run_steps {sys after : Sys} {calls : List UserCall}
    (ran : run sys calls = .ok after) : SysSteps sys after :=
  (run_runSteps ran).sysSteps

/-- What every step keeps holds in every state that is reached. -/
theorem SysSteps.invariant {holds : Sys → Prop} {sys after : Sys}
    (keeps : ∀ {sys after}, SysStep sys after → holds sys → holds after)
    (steps : SysSteps sys after) (start : holds sys) : holds after := by
  induction steps with
  | refl => exact start
  | tail _ step ih => exact keeps step ih

/-! ## A quiet platform

Concrete answers of the platform: sends succeed, the clock stands still. -/

/-- A stack buffer that starts with `bytes`. -/
def quietBuffer (bytes : List UInt8) : Buffer where
  pdu := ⟨0x1000, bytes.take minimumDatagramSize ++ List.replicate minimumDatagramSize 0,
    min minimumDatagramSize bytes.length, minimumDatagramSize⟩
  max_eq := rfl
  mapped := by
    rw [List.length_append, List.length_replicate]
    exact Nat.le_add_left _ _
  bounded := by
    rw [List.length_append, List.length_replicate, List.length_take]
    unfold minimumDatagramSize
    omega

/-- The datagram `bytes` arrives. -/
def arrives (bytes : List UInt8) : Received where
  toBuffer := quietBuffer bytes
  fits := Nat.min_le_left _ _
  placed := by
    refine ⟨(quietBuffer bytes).mapped, Nat.succ_pos _, ?_⟩
    have small : (quietBuffer bytes).pdu.mem.length ≤ 1152 := by
      simp only [quietBuffer, minimumDatagramSize, List.length_append, List.length_take,
        List.length_replicate]
      omega
    have place : (quietBuffer bytes).pdu.buf = 0x1000 := rfl
    omega
  time := 10
  rand := 0
  sendOk := true
  wideShift := id

/-- `exo_operate` with some datagrams waiting. -/
def quietOperate (datagrams : List (List UInt8)) : UserCall :=
  .operate ⟨10, datagrams.map arrives, 10, fun _ => ⟨quietBuffer [], 0x2211, true, 10, 0⟩⟩

/-- `exo_init` succeeds, the first message id is 7. -/
def quietInit : UserCall := .init ⟨true, 7, 0, List.replicate 41 0x30, rfl, true⟩ 1 1 1

/-- The string "a" at address 1, and a buffer at address 3. -/
def quietHeap : Mem := [0, 0x61, 0] ++ List.replicate 10 0

end ExositeCoap.Exosite
