import ExositeCoap.Exosite.Answer
import ExositeCoap.Exosite.Discipline
import ExositeCoap.Exosite.Room
import ExositeCoap.Exosite.Turn

/-!
# Values that the user finds

When a read or a subscription is found to have a value, its buffer holds the payload of a
datagram that was accepted for it.  Between the datagram and the user's look lie other
datagrams, other slots and other calls; none of them touches the value, as long as every slot
has buffers of its own, the user does not write to them and no datagram without payload
strays to them (`run_delivers`).
-/

namespace ExositeCoap.Exosite

open Lib Wire Coap

/-! ## Buffers of their own -/

/-- The value buffer of every op lies in the bytes that its slot owns. -/
def OwnBuffers (owner : Nat → Option Nat) (sys : Sys) : Prop :=
  ∀ slot op, sys.ops[slot]? = some op → op.valueMax ≤ 2 ^ 63 ∧
    ((op.type = .read ∨ op.type = .subscribe) →
      ∀ address, InValue op address → owner address = some slot)

/-- The user gives the op a buffer that its slot owns, and writes to no byte with an owner. -/
def UserCall.Tidy (owner : Nat → Option Nat) (sys : Sys) : UserCall → Prop
  | .read slot _ valuePtr valueMax | .subscribe slot _ valuePtr valueMax =>
    valueMax ≤ 2 ^ 63 ∧ ∀ address, valuePtr ≠ 0 → valuePtr ≤ address →
      address < valuePtr + valueMax → owner address = some slot
  | .memory heap => ∀ address, owner address ≠ none → heap[address]? = sys.heap[address]?
  | .init _ _ _ _ | .write _ _ _ | .opInit _ | .opDone _ | .operate _ => True

/-- All calls of the run are like this. -/
def TidyRun (owner : Nat → Option Nat) (start : Sys) (calls : List UserCall) : Prop :=
  ∀ front action back sys, calls = front ++ action :: back → run start front = .ok sys →
    action.Tidy owner sys

theorem TidyRun.concat {owner : Nat → Option Nat} {start sys : Sys} {calls : List UserCall}
    {action : UserCall} (tidy : TidyRun owner start calls) (ran : run start calls = .ok sys)
    (last : action.Tidy owner sys) : TidyRun owner start (calls ++ [action]) := by
  intro front other back before split isBefore
  rcases List.eq_nil_or_concat back with rfl | ⟨rest, final, rfl⟩
  · obtain ⟨rfl, same⟩ := List.append_inj' split rfl
    cases same
    rw [ran] at isBefore
    cases isBefore
    exact last
  · rw [List.concat_eq_append, ← List.cons_append, ← List.append_assoc] at split
    exact tidy front other rest before (List.append_inj' split rfl).1 isBefore

/-! ## Evidence of values -/

/-- The datagram brought these bytes for the op in `slot`, which took it. -/
structure Arrival.Brings (arrival : Arrival) (slot : Nat) (op : ExoOp) (bytes : List UInt8) :
    Prop where
  valid : coapValidatePkt arrival.rx.pdu = .ok .ceNone
  success : coapGetCodeClass arrival.rx.pdu = .ok 2
  taken : ∃ old, arrival.before.ops[slot]? = some old ∧ Takes arrival.rx old ∧ SameRequest old op
  genuine : Genuine arrival.rx.pdu op bytes
  place : op.valuePtr ≠ 0

/-- Every value that an op of the user has was brought by a datagram of the run, and is in
the buffer of the op. -/
def Delivered (start : Sys) (calls : List UserCall) (sys : Sys) : Prop :=
  ∀ slot op, 1 ≤ slot → sys.ops[slot]? = some op → HasValue op →
    ∃ arrival ∈ arrivals start calls, ∃ bytes, arrival.Brings slot op bytes ∧
      sys.heap.slice op.valuePtr (bytes.length + 1) = .ok (bytes ++ [0]) ∧
        exchanged slot arrival.before.log ⊆ exchanged slot sys.log

section Values

variable {owner : Nat → Option Nat} {start sys after : Sys} {calls : List UserCall} {slot : Nat}
  {op next : ExoOp}

theorem OwnBuffers.setOp (own : OwnBuffers owner sys) {i : Nat} {changed : ExoOp}
    (small : changed.valueMax ≤ 2 ^ 63) (inside : (changed.type = .read ∨
      changed.type = .subscribe) → ∀ address, InValue changed address → owner address = some i) :
    OwnBuffers owner (sys.setOp i changed) := by
  intro slot op atSlot
  obtain ⟨rfl, rfl⟩ | ⟨-, kept⟩ := of_getElem?_setOp atSlot
  · exact ⟨small, inside⟩
  · exact own slot op kept

/-- The library moves no buffer. -/
theorem LibStep.ownBuffers (step : LibStep sys after) (own : OwnBuffers owner sys) :
    OwnBuffers owner after := by
  intro slot next isNext
  obtain ⟨op, atSlot, rfl | change⟩ := step.op_origin isNext
  · exact own slot _ atSlot
  · obtain ⟨small, inside⟩ := own slot op atSlot
    cases change with
    | released => exact ⟨Nat.zero_le _, by simp [exoOpInit]⟩
    | activated => exact ⟨Nat.zero_le _, by simp [exoActivate, ExoOp.queue]⟩
    | untyped => exact ⟨small, by simp⟩
    | _ => exact ⟨small, inside⟩

theorem LibSteps.ownBuffers (steps : LibSteps sys after) (own : OwnBuffers owner sys) :
    OwnBuffers owner after := by
  induction steps with
  | refl => exact own
  | tail _ step ih => exact step.ownBuffers ih

theorem call_ownBuffers {action : UserCall} (called : call sys action = .ok after)
    (tidy : action.Tidy owner sys) (own : OwnBuffers owner sys) : OwnBuffers owner after := by
  cases action with
  | init env vendor model serial =>
      cases called
      rw [OwnBuffers, (exoInit_frame env vendor model serial sys).1]
      exact own
  | write i =>
      obtain ⟨found, -, same⟩ := Exec.bind_eq_ok.mp called
      cases same
      exact @OwnBuffers.setOp _ sys own i _ (Nat.zero_le _) (by simp [exoWrite, ExoOp.queue])
  | read i aliasPtr valuePtr valueMax =>
      obtain ⟨found, -, same⟩ := Exec.bind_eq_ok.mp called
      cases same
      exact @OwnBuffers.setOp _ sys own i _ tidy.1 fun _ address inside =>
        tidy.2 address inside.1 inside.2.1 inside.2.2
  | subscribe i aliasPtr valuePtr valueMax =>
      obtain ⟨found, -, same⟩ := Exec.bind_eq_ok.mp called
      cases same
      exact @OwnBuffers.setOp _ sys own i _ tidy.1 fun _ address inside =>
        tidy.2 address inside.1 inside.2.1 inside.2.2
  | opInit i =>
      obtain ⟨found, -, same⟩ := Exec.bind_eq_ok.mp called
      cases same
      exact own.setOp (Nat.zero_le _) (by simp [exoOpInit])
  | opDone i =>
      obtain ⟨found, isFound, same⟩ := Exec.bind_eq_ok.mp called
      cases same
      obtain ⟨small, inside⟩ := own i found (opAt_eq_ok isFound)
      unfold exoOpDone
      split_ifs
      · exact @OwnBuffers.setOp _ sys own i _ small inside
      · exact @OwnBuffers.setOp _ sys own i _ (Nat.zero_le _) (by simp [exoOpInit])
  | memory heap =>
      cases called
      exact own
  | operate env =>
      obtain ⟨⟨state, result⟩, operated, same⟩ := Exec.bind_eq_ok.mp called
      cases same
      exact (exoOperate_steps operated).1.ownBuffers own

/-- The user leaves the bytes alone that have an owner. -/
theorem call_keeps {action : UserCall} {address : Nat} (other : action.operation sys = [])
    (called : call sys action = .ok after) (tidy : action.Tidy owner sys)
    (owned : owner address ≠ none) : after.heap[address]? = sys.heap[address]? := by
  cases action with
  | operate => cases other
  | init env vendor model serial =>
      cases called
      rw [(exoInit_frame env vendor model serial sys).2]
  | memory heap =>
      cases called
      exact tidy address owned
  | _ =>
      obtain ⟨found, -, same⟩ := Exec.bind_eq_ok.mp called
      cases same
      rfl

/-! ## Datagrams -/

/-- An op that has a value waits for no datagram. -/
theorem HasValue.not_receives (has : HasValue op) : ¬ Receives op := by
  rintro (state | ⟨state, -⟩) <;> simp [HasValue, state] at has

/-- Whatever the other ops receive, the bytes that the slot owns stay, unless the datagram
strays to them. -/
theorem Arrival.heap_owned {arrival : Arrival} {goOn : Bool} {address : Nat}
    (ran : exoHandleDatagram arrival.rx arrival.before = .ok (goOn, after))
    (own : OwnBuffers owner arrival.before) (typed : AllTyped arrival.before)
    (strays : ¬ arrival.Strays address) (atSlot : arrival.before.ops[slot]? = some op)
    (has : HasValue op) (mine : owner address = some slot) :
    after.heap[address]? = arrival.before.heap[address]? := by
  refine (Arrival.heap_cases ran).resolve_right (not_or.mpr ⟨?_, strays⟩)
  rintro ⟨i, other, copies, inside⟩
  have receives := copies.copies.receives
  have type : other.type = .read ∨ other.type = .subscribe := by
    rcases receives with state | ⟨-, type⟩
    · exact Or.inr ((typed copies.atSlot).subscribed (by simp [state]))
    · exact type
  have owned := (own i other copies.atSlot).2 type address inside
  rw [mine] at owned
  cases owned
  have same := copies.atSlot
  rw [atSlot] at same
  cases same
  exact has.not_receives receives

/-- A value is new together with the state. -/
theorem OpChange.moved (change : OpChange slot op next) (has : HasValue next) :
    SameRequest op next ∧ next.state ≠ op.state := by
  cases change with
  | failed => simp [HasValue] at has
  | notified before acks =>
      refine ⟨⟨rfl, rfl, rfl, rfl⟩, ?_⟩
      rcases acks with rfl | rfl <;> simp [before]
  | succeeded before => exact ⟨⟨rfl, rfl, rfl, rfl⟩, by simp [before]⟩
  | released => simp [HasValue, exoOpInit] at has
  | activated => simp [HasValue, exoActivate, ExoOp.queue] at has
  | sent => simp [HasValue] at has
  | resent waits => rcases waits with state | state <;> simp [HasValue, state] at has
  | renewed => simp [HasValue] at has
  | acked isState =>
      refine ⟨⟨rfl, rfl, rfl, rfl⟩, ?_⟩
      rcases isState with ⟨before, rfl⟩ | ⟨before, rfl⟩ <;> simp [before]
  | untyped => simp [HasValue] at has

/-- A datagram that brings a value is of class 2. -/
theorem success_of_value {rx : Received} {i : Nat} (valid : coapValidatePkt rx.pdu = .ok .ceNone)
    (round : exoMatchOp rx sys i op = .ok (true, after)) (isNext : after.ops[slot]? = some next)
    (has : HasValue next) (new : sys.ops[slot]? ≠ some next) :
    coapGetCodeClass rx.pdu = .ok 2 := by
  have failed : (sys.setOp i { op with state := .error }).ops[slot]? ≠ some next := by
    intro found
    obtain ⟨-, rfl⟩ | ⟨-, kept⟩ := of_getElem?_setOp found
    · simp [HasValue] at has
    · exact new kept
  obtain ⟨takes, -⟩ := reaction_of_round round
  cases takes with
  | notification isKind isMessage =>
      obtain ⟨-, -, notified⟩ := exoMatchOp_notified isKind isMessage round
      obtain ⟨deliverable, -⟩ | ⟨-, -, same | set⟩ := exoNotified_spec valid notified
      · rw [coapGetCodeClass, deliverable.content]
        rfl
      · exact absurd (same ▸ isNext) new
      · rw [set] at isNext
        exact absurd isNext failed
  | response isKind =>
      obtain ⟨codeClass, isClass⟩ := exoMatchOp_class isKind round
      by_cases success : codeClass = 2
      · rw [isClass, success]
      · refine absurd (exoRefused_kept (exoMatchOp_refused isKind isClass success round) isNext ?_)
          new
        rcases has.2 with state | state | state <;> simp [state]
  | reset isKind =>
      rw [exoMatchOp_rst isKind round] at isNext
      exact absurd isNext failed

/-- A value is only put where there is a buffer. -/
theorem Reaction.place {rx : Received} {i : Nat} (reaction : Reaction rx sys i op after)
    (isNext : after.ops[slot]? = some next) (has : HasValue next)
    (new : sys.ops[slot]? ≠ some next) : op.valuePtr ≠ 0 := by
  have placed : ∀ {heap : Mem}, storePayload rx.pdu sys.heap op = .ok (.stored heap) →
      op.valuePtr ≠ 0 := by
    intro heap store
    obtain ⟨_, _, _, _, -, -, -, -, first, -⟩ := storePayload_stored store
    exact userStore_ne_null first
  have replaced : ∀ {result : Sys} {changed : ExoOp}, result.ops = sys.ops →
      (result.setOp i changed).ops[slot]? = some next → HasValue changed := by
    intro result changed same found
    obtain ⟨-, rfl⟩ | ⟨-, kept⟩ := of_getElem?_setOp found
    · exact has
    · rw [same] at kept
      exact absurd kept new
  have failed : (sys.setOp i { op with state := .error }).ops[slot]? ≠ some next := by
    intro found
    simpa [HasValue] using replaced rfl found
  cases reaction with
  | ignored => exact absurd isNext new
  | emptied => exact absurd isNext new
  | notified _ _ _ store => exact placed store
  | delivered _ _ store => exact placed store
  | written _ type => simpa [HasValue, type] using replaced rfl isNext
  | @activated _ _ bytes =>
      have impossible := @replaced ({ sys with cik := bytes ++ [0], deviceState := .good }.record
        (.storedCik (bytes ++ [0]))) _ rfl isNext
      simp [HasValue, exoOpInit] at impossible
  | notActivated =>
      have impossible := replaced rfl isNext
      simp [HasValue, exoOpInit] at impossible
  | reactivated =>
      obtain ⟨-, rfl⟩ | ⟨-, kept⟩ := of_getElem?_setOp isNext
      · simp [HasValue, exoActivate, ExoOp.queue] at has
      · exact absurd kept failed
  | _ => exact absurd isNext failed

/-- A datagram brings the value that an op has, or leaves the op and its value alone. -/
theorem Arrival.delivered {arrival : Arrival} {goOn : Bool}
    (ran : exoHandleDatagram arrival.rx arrival.before = .ok (goOn, after))
    (own : OwnBuffers owner arrival.before) (typed : AllTyped arrival.before)
    (strays : ∀ address, owner address = some slot → ¬ arrival.Strays address)
    (isNext : after.ops[slot]? = some next) (has : HasValue next) :
    (arrival.before.ops[slot]? = some next ∧ ∀ address, owner address = some slot →
      after.heap[address]? = arrival.before.heap[address]?) ∨
    ∃ bytes, arrival.Brings slot next bytes ∧
      after.heap.slice next.valuePtr (bytes.length + 1) = .ok (bytes ++ [0]) := by
  cases exoHandleDatagram_cases ran with
  | invalid => exact Or.inl ⟨isNext, fun _ _ => rfl⟩
  | reset => exact Or.inl ⟨isNext, fun _ _ => rfl⟩
  | dropped => exact Or.inl ⟨isNext, fun _ _ => rfl⟩
  | @taken events i op result valid _ atSlot _ round =>
      obtain ⟨takes, reaction⟩ := reaction_of_round round
      have atLogged : (arrival.before.logged events).ops[i]? = some op := atSlot
      obtain ⟨before, isBefore, rfl | change⟩ :=
        (LibStep.react atLogged takes reaction).op_origin isNext
      · exact Or.inl ⟨isBefore, fun address mine =>
          Arrival.heap_owned ran own typed (strays address mine) isBefore has mine⟩
      · obtain ⟨same, moved⟩ := change.moved has
        obtain ⟨rfl, bytes, genuine, copied⟩ := reaction.hasValue valid (own i op atSlot).1
          atLogged isBefore isNext has moved
        have new : (arrival.before.logged events).ops[slot]? ≠ some next := by
          rw [isBefore]
          rintro ⟨⟩
          exact moved rfl
        have loaded := Mem.slice_of_store copied
        rw [List.length_append, List.length_singleton, ← same.valuePtr] at loaded
        have room : bytes.length + 1 ≤ next.valueMax := same.valueMax ▸ genuine.room
        have place : next.valuePtr ≠ 0 := same.valuePtr ▸ reaction.place isNext has new
        exact Or.inr ⟨bytes, ⟨valid, success_of_value valid round isNext has new,
          ⟨op, isBefore, takes, same⟩, ⟨genuine.has, genuine.nonempty, room⟩, place⟩, loaded⟩

/-! ## Runs -/

/-- On its turn an op gets no value that it does not have. -/
theorem SlotStep.hasValue {env : SlotEnv} (step : SlotStep env sys slot op after)
    (isOp : sys.ops[slot]? = some op) (isNext : after.ops[slot]? = some next)
    (has : HasValue next) : HasValue op := by
  have replaced : ∀ {result : Sys} {changed : ExoOp}, result.ops = sys.ops →
      (result.setOp slot changed).ops[slot]? = some next → changed = next := by
    intro result changed same found
    have here := @getElem?_setOp result slot slot changed op (same ▸ isOp)
    rw [if_pos rfl, found] at here
    exact (Option.some.inj here).symm
  have still : sys.ops[slot]? = some next → HasValue op := by
    intro found
    rw [isOp] at found
    cases found
    exact has
  cases step with
  | idle => exact still isNext
  | unexpectedWait => exact still isNext
  | unsent => exact still isNext
  | unresent => exact still isNext
  | unacked => exact still isNext
  | unexpectedNew => simp [HasValue, ← replaced rfl isNext] at has
  | @sent request _ datagram =>
      simp [HasValue, ← @replaced (sys.sentRequest slot true request datagram true) _ rfl isNext]
        at has
  | @resent request _ _ _ _ _ datagram =>
      have same := @replaced (sys.sentRequest slot false request datagram true) _ rfl isNext
      subst same
      exact has
  | gaveUp => simp [HasValue, ← replaced rfl isNext] at has
  | renewed => simp [HasValue, ← replaced rfl isNext] at has
  | @acked datagram state isState =>
      have same := @replaced (sys.record (.sent (.ack slot) datagram true)) _ rfl isNext
      subst same
      exact ⟨has.1, Or.inr (isState.imp And.left And.left)⟩

theorem exoActiveLoop_delivered {now : UInt64} {envs : Nat → SlotEnv} {left : Nat}
    (ran : exoActiveLoop now envs sys left 0 = .ok after) (inRange : slot < left)
    (isNext : after.ops[slot]? = some next) (has : HasValue next) :
    ∃ op, sys.ops[slot]? = some op ∧ HasValue op ∧ SameRequest op next := by
  obtain ⟨turn, op, given, -, isOp, before, processed, same, -⟩ := exoActiveLoop_split ran inRange
  rw [same] at isNext
  have step := exoProcessOp_cases processed
  obtain ⟨found, isFound, request⟩ := step.sameRequest isOp isOp
  rw [isNext] at isFound
  cases isFound
  exact ⟨op, before.symm.trans isOp, step.hasValue isOp isNext has, request⟩

theorem RunPart.delivered {source : Option Arrival} (typed : AllTyped sys)
    (own : OwnBuffers owner sys) (tidy : TidyRun owner start calls)
    (strays : ∀ arrival ∈ arrivals start calls, ∀ address, owner address ≠ none →
      ¬ arrival.Strays address)
    (part : RunPart start calls source sys after) (delivered : Delivered start calls sys) :
    Delivered start calls after := by
  intro slot op later isOp has
  have kept : ∀ {old : ExoOp}, sys.ops[slot]? = some old → HasValue old → SameRequest old op →
      (∀ address, owner address = some slot → after.heap[address]? = sys.heap[address]?) →
        exchanged slot sys.log ⊆ exchanged slot after.log →
          ∃ arrival ∈ arrivals start calls, ∃ bytes, arrival.Brings slot op bytes ∧
            after.heap.slice op.valuePtr (bytes.length + 1) = .ok (bytes ++ [0]) ∧
              exchanged slot arrival.before.log ⊆ exchanged slot after.log := by
    intro old atSlot hasOld same memory grown
    obtain ⟨arrival, member, bytes, brings, loaded, older⟩ := delivered slot old later atSlot hasOld
    obtain ⟨first, isFirst, takes, request⟩ := brings.taken
    have room : bytes.length + 1 ≤ op.valueMax := same.valueMax ▸ brings.genuine.room
    refine ⟨arrival, member, bytes, ⟨brings.valid, brings.success,
      ⟨first, isFirst, takes, request.trans same⟩, ⟨brings.genuine.has, brings.genuine.nonempty,
        room⟩, same.valuePtr ▸ brings.place⟩, ?_, List.Subset.trans older grown⟩
    rw [same.valuePtr]
    refine Mem.slice_congr loaded fun address lower upper => memory address ?_
    have inside := brings.genuine.room
    exact (own slot old atSlot).2 hasOld.1 address
      ⟨same.valuePtr ▸ brings.place, lower, by rw [← same.valueMax]; omega⟩
  cases part with
  | user split before other called =>
      obtain ⟨atSlot, unqueued⟩ := call_kept other called isOp (by
        rcases has.2 with state | state | state <;> simp [state])
      refine kept atSlot has (.refl op) (fun address mine => ?_) unqueued.exchanged_subset
      exact call_keeps other called (tidy _ _ _ _ split before) (by simp [mine])
  | ready _ _ isReady =>
      rw [exoReady_other isReady later] at isOp
      exact kept isOp has (.refl op) (fun _ _ => by rw [exoReady_heap isReady])
        ((exoReady_callSteps isReady).libSteps.exchanged_subset slot)
  | handled member ran =>
      have grown := (exoHandleDatagram_steps ran).exchanged_subset slot
      obtain ⟨atSlot, memory⟩ | ⟨bytes, brings, loaded⟩ := Arrival.delivered ran own typed
        (fun address mine => strays _ member address (by simp [mine])) isOp has
      · exact kept atSlot has (.refl op) memory grown
      · exact ⟨_, member, bytes, brings, loaded, grown⟩
  | active _ _ _ _ ran =>
      have steps := (exoActiveLoop_callSteps ran).libSteps
      have inRange : slot < sys.ops.length := by
        rw [← steps.ops_length]
        exact (List.getElem?_eq_some_iff.mp isOp).1
      obtain ⟨old, atSlot, hasOld, same⟩ := exoActiveLoop_delivered ran inRange isOp has
      exact kept atSlot hasOld same (fun _ _ => by rw [exoActiveLoop_heap ran])
        (steps.exchanged_subset slot)

/-- The ops keep to their own buffers in every part of a tidy run. -/
theorem RunPart.ownBuffers {source : Option Arrival} (tidy : TidyRun owner start calls)
    (part : RunPart start calls source sys after) (own : OwnBuffers owner sys) :
    OwnBuffers owner after := by
  cases part with
  | user split before _ called => exact call_ownBuffers called (tidy _ _ _ _ split before) own
  | ready _ _ isReady => exact (exoReady_callSteps isReady).libSteps.ownBuffers own
  | handled _ ran => exact (exoHandleDatagram_steps ran).ownBuffers own
  | active _ _ _ _ ran => exact (exoActiveLoop_callSteps ran).libSteps.ownBuffers own

theorem run_delivered {count : Nat} {heap : Mem}
    (ran : run (powerOn count heap) calls = .ok after)
    (tidy : TidyRun owner (powerOn count heap) calls)
    (strays : ∀ arrival ∈ arrivals (powerOn count heap) calls, ∀ address, owner address ≠ none →
      ¬ arrival.Strays address) :
    Delivered (powerOn count heap) calls after := by
  have fresh : ∀ (slot : Nat) op, (powerOn count heap).ops[slot]? = some op → op = exoOpInit :=
    fun slot op atSlot => List.eq_of_mem_replicate (List.mem_of_getElem? atSlot)
  refine (@run_rule _ _ _ (fun sys => OwnBuffers owner sys ∧
    Delivered (powerOn count heap) calls sys) ran ⟨?_, ?_⟩ ?_).2
  · intro slot op atSlot
    rw [fresh slot op atSlot]
    exact ⟨Nat.zero_le _, by simp [exoOpInit]⟩
  · intro slot op _ atSlot has
    rw [fresh slot op atSlot] at has
    simp [HasValue, exoOpInit] at has
  · rintro source sys next reached part ⟨own, delivered⟩
    exact ⟨part.ownBuffers tidy own,
      part.delivered (allTyped_of_reached reached).1 own tidy strays delivered⟩

end Values

/-! ## The result -/

/-- A read or subscription of the user that has a value has it from a datagram of class 2 that
it took, and finds exactly the payload of that datagram and a zero in its buffer.  If that was
a response, it was served for a datagram that had gone out for this request. -/
theorem run_delivers {serves : List UInt8 → List UInt8 → Prop} {owner : Nat → Option Nat}
    {count : Nat} {heap : Mem} {calls : List UserCall} {after : Sys}
    (ran : run (powerOn count heap) calls = .ok after)
    (once : after.log.count .initialised ≤ 1) (few : builtCount after.log ≤ 65536)
    (honest : ∀ arrival ∈ arrivals (powerOn count heap) calls, arrival.Honest serves)
    (tidy : TidyRun owner (powerOn count heap) calls)
    (strays : ∀ arrival ∈ arrivals (powerOn count heap) calls, ∀ address, owner address ≠ none →
      ¬ arrival.Strays address) {slot : Nat} {op : ExoOp}
    (later : 1 ≤ slot) (atSlot : after.ops[slot]? = some op) (has : HasValue op) :
    ∃ arrival ∈ arrivals (powerOn count heap) calls, ∃ bytes, arrival.Brings slot op bytes ∧
      after.heap.slice op.valuePtr (bytes.length + 1) = .ok (bytes ++ [0]) ∧
        (IsAck arrival.rx → AnswerTo serves after.log slot op.type arrival.rx.pdu.packet) := by
  obtain ⟨arrival, member, bytes, brings, loaded, grown⟩ := run_delivered ran tidy strays slot op
    later atSlot has
  refine ⟨arrival, member, bytes, brings, loaded, fun isAck => ?_⟩
  obtain ⟨old, isOld, takes, same⟩ := brings.taken
  rw [same.type]
  exact (answerTo_of_run ran once few member (honest arrival member) isAck later isOld
    (isAck.takes_iff.mp takes)).mono grown

/-- The read of the run above finds its value, slot 1 owning the buffer behind address 3. -/
theorem run_delivers_read : ∃ after op, run (powerOn 2 quietHeap) answeredCalls = .ok after ∧
    after.ops[1]? = some op ∧ ∃ arrival ∈ arrivals (powerOn 2 quietHeap) answeredCalls, ∃ bytes,
      arrival.Brings 1 op bytes ∧
        after.heap.slice op.valuePtr (bytes.length + 1) = .ok (bytes ++ [0]) := by
  have computed : (run (powerOn 2 quietHeap) answeredCalls).map (fun after =>
      (after.ops[1]?, after.log.count .initialised, builtCount after.log)) =
        .ok (some { sentRead with state := .success }, 1, 2) := by decide +kernel
  obtain ⟨after, ran, values⟩ := Exec.map_eq_ok.mp computed
  simp only [Prod.mk.injEq] at values
  obtain ⟨atSlot, once, few⟩ := values
  have tidy : TidyRun (fun address => if 3 ≤ address ∧ address < 11 then some 1 else none)
      (powerOn 2 quietHeap) answeredCalls := by
    intro front action back sys split _
    have member : action ∈ answeredCalls := by
      rw [split]
      exact List.mem_append_right _ List.mem_cons_self
    simp only [answeredCalls, readCalls, quietInit, quietOperate, List.cons_append,
      List.nil_append, List.mem_cons, List.not_mem_nil, or_false] at member
    rcases member with rfl | rfl | rfl | rfl
    · trivial
    · exact ⟨by decide, fun address _ lower upper => if_pos ⟨lower, by omega⟩⟩
    · trivial
    · trivial
  have payloads : ((arrivals (powerOn 2 quietHeap) answeredCalls).all fun arrival =>
      coapGetPayload arrival.rx.pdu = .ok ⟨1, some 5⟩) = true := by decide +kernel
  have strays : ∀ arrival ∈ arrivals (powerOn 2 quietHeap) answeredCalls, ∀ address,
      (if 3 ≤ address ∧ address < 11 then some 1 else none) ≠ (none : Option Nat) →
        ¬ arrival.Strays address := by
    intro arrival member address _
    have got := of_decide_eq_true (List.all_eq_true.mp payloads arrival member)
    exact Arrival.not_strays got (by decide)
  obtain ⟨arrival, member, bytes, brings, loaded, -⟩ := run_delivers ran (by omega) (by omega)
    answeredCalls_honest tidy strays (Nat.le_refl 1) atSlot ⟨Or.inl rfl, Or.inl rfl⟩
  exact ⟨after, _, ran, atSlot, arrival, member, bytes, brings, loaded⟩

end ExositeCoap.Exosite
