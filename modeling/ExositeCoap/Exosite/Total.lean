import ExositeCoap.Exosite.Layout

/-!
# Runs that do not trap

Every function of the library returns when the memory of the user is laid out, every
valid datagram is a message, and the ops of the calls exist.  So such runs never end in
an access outside mapped memory or in a loop without end.
-/

namespace ExositeCoap.Exosite

open Lib Wire Coap

section Functions

variable {layout : Layout} {sys : Sys} {i : Nat} {op : ExoOp}

/-! ## Datagrams -/

section Datagrams

variable {rx : Received} {message : Message}

/-- The buffer of an op that receives. -/
theorem Laid.mapped (laid : Laid layout sys) (atSlot : sys.ops[i]? = some op)
    (type : op.type = .read ∨ op.type = .subscribe) :
    Mapped sys.heap op.valuePtr op.valueMax :=
  laid.fits.mapped _ _ ((laid.covers op (List.mem_of_getElem? atSlot)).buffer type)

theorem exoAnswered_returns (legible : Legible rx.pdu message)
    (valid : coapValidatePkt rx.pdu = .ok .ceNone)
    (mapped : op.type = .read ∨ op.type = .subscribe →
      Mapped sys.heap op.valuePtr op.valueMax) : (exoAnswered rx sys i op).Returns := by
  have received : op.type = .read ∨ op.type = .subscribe → (exoAnswered rx sys i op).Returns :=
    fun asks => (exoAnswered_returns_iff asks).mpr
      ⟨legible.storePayload_returns valid (mapped asks), fun _ _ _ => legible.readsOptions⟩
  cases type : op.type with
  | read => exact received (Or.inl type)
  | subscribe => exact received (Or.inr type)
  | activate =>
      obtain ⟨payload, got, -⟩ := legible.payload
      exact (exoAnswered_activate_returns_iff valid type).mpr ⟨payload, got⟩
  | _ =>
      simp only [exoAnswered, type]
      exact Exec.returns_ok _

theorem exoRefused_returns (legible : Legible rx.pdu message) (some : 0 < sys.ops.length) :
    Exec.Returns (exoRefused rx sys i op) := by
  rw [exoRefused, legible.observes.code, Exec.ok_bind]
  have first : 0 < (sys.setOp i { op with state := .error }).ops.length := by
    rw [Sys.setOp_ops, List.length_set]
    exact some
  split_ifs
  · rw [List.getElem?_eq_getElem first]
    dsimp only
    split_ifs <;> exact Exec.returns_ok _
  · exact Exec.returns_ok _
  · exact Exec.returns_ok _

theorem exoMatchOp_returns (legible : Legible rx.pdu message)
    (valid : coapValidatePkt rx.pdu = .ok .ceNone) (laid : Laid layout sys)
    (atSlot : sys.ops[i]? = some op) : Exec.Returns (exoMatchOp rx sys i op) := by
  have observes := legible.observes
  have some := (List.getElem?_eq_some_iff.mp atSlot).1
  have notified : Exec.Returns (if op.state = .subscribed ∧
      leValue message.token = op.token.toNat then do return (true, ← exoNotified rx sys i op)
      else return (false, sys)) := by
    split_ifs with taking
    · have type := (laid.typed atSlot).subscribed (by simp [taking.1])
      have stores := legible.storePayload_returns valid (laid.mapped atSlot (Or.inr type))
      exact Exec.Returns.bind
        (exoNotified_returns observes.code observes.mid legible.readsOptions stores)
        fun _ _ => Exec.returns_ok _
    · exact Exec.returns_ok _
  rw [exoMatchOp, observes.token, observes.mid, observes.kind]
  simp only [Exec.ok_bind]
  cases message.kind with
  | con => exact notified
  | non => exact notified
  | ack =>
      dsimp only
      split_ifs
      · rw [coapGetCodeClass, observes.code, Exec.ok_bind, Exec.pure_eq_ok, Exec.ok_bind]
        split_ifs
        · exact exoAnswered_returns legible valid (laid.mapped atSlot)
        · exact Exec.Returns.bind (exoRefused_returns legible (by omega))
            fun _ _ => Exec.returns_ok _
      · exact Exec.returns_ok _
  | rst =>
      dsimp only
      split_ifs <;> exact Exec.returns_ok _

theorem exoScan_returns (legible : Legible rx.pdu message)
    (valid : coapValidatePkt rx.pdu = .ok .ceNone) (laid : Laid layout sys) {left : Nat}
    (inRange : i + left = sys.ops.length) : Exec.Returns (exoScan rx sys left i) := by
  induction left generalizing i with
  | zero => exact Exec.returns_ok _
  | succ left ih =>
      have atSlot := List.getElem?_eq_getElem (show i < sys.ops.length by omega)
      rw [exoScan, atSlot]
      refine Exec.Returns.bind (exoMatchOp_returns legible valid laid atSlot) fun result matched => ?_
      obtain ⟨taken, next⟩ := result
      obtain ⟨rfl, -⟩ | ⟨rfl, -, rfl⟩ | ⟨-, pending, null, -⟩ := exoMatchOp_cases matched
      · exact Exec.returns_ok _
      · exact ih (by omega)
      · exact absurd null ((laid.typed atSlot).of_waits (Or.inr pending))

theorem exoHandleDatagram_returns (orderly : Orderly rx) (laid : Laid layout sys) :
    Exec.Returns (exoHandleDatagram rx sys) := by
  refine Exec.Returns.bind (coapValidatePkt_returns orderly.readable) fun status valid => ?_
  split_ifs with failed
  · exact Exec.returns_ok _
  · rw [not_not] at failed
    subst failed
    obtain ⟨message, legible⟩ := orderly.legible valid
    have observes := legible.observes
    refine Exec.Returns.bind (exoScan_returns legible valid laid (Nat.zero_add _)) fun result _ => ?_
    obtain ⟨matched, after⟩ := result
    cases matched with
    | true => exact Exec.returns_ok _
    | false =>
        simp only [Bool.false_eq_true, if_false, observes.kind, Exec.ok_bind]
        split_ifs
        · obtain ⟨err, reply, datagram, built, bytes⟩ :=
            @exoBuildMsgRst_returns rx message.mid (leValue message.token) _
              legible.encodable.token_le
          simp only [observes.tkl, observes.mid, observes.token, Exec.ok_bind, built, bytes]
          exact Exec.returns_ok _
        · exact Exec.returns_ok _

theorem exoProcessWaitingDatagrams_returns {datagrams : List Received}
    (orderly : ∀ rx ∈ datagrams, Orderly rx) (on : sys.deviceState ≠ .uninitialized)
    (laid : Laid layout sys) : Exec.Returns (exoProcessWaitingDatagrams sys datagrams) := by
  induction datagrams generalizing sys with
  | nil => exact Exec.returns_ok _
  | cons rx rest ih =>
      refine Exec.Returns.bind (exoHandleDatagram_returns (orderly rx List.mem_cons_self) laid)
        fun result handled => ?_
      obtain ⟨goOn, next⟩ := result
      have steps := exoHandleDatagram_steps handled
      cases goOn with
      | true =>
          exact ih (fun other member => orderly other (List.mem_cons_of_mem _ member))
            (LibSteps.deviceState steps on) (LibSteps.laid steps on laid).1
      | false => exact Exec.returns_ok _

end Datagrams

/-! ## Slots -/

section Slots

variable {env : SlotEnv}

/-- A builder for a request returns, whether or not the request fits. -/
theorem buildMsg_returns (env : SlotEnv) (code : UInt8) (mid : UInt16) (rand : UInt64)
    {options : List Opt} (payload : Option (List UInt8)) (ascending : Ascending 0 options)
    (positive : ∀ option ∈ options, 1 ≤ option.num) :
    Exec.Returns (buildMsg env.pdu (requestCalls code mid rand options payload)) := by
  obtain ⟨err, after, -, built, -⟩ :=
    buildRequest_spec env.toBuffer code mid rand payload ascending positive
  exact ⟨_, built⟩

theorem buildAdded_returns (env : SlotEnv) (code : UInt8) (mid : UInt16) (rand : UInt64)
    (request : Request) (payload : Option (List UInt8)) :
    Exec.Returns (buildMsg env.pdu (requestCalls code mid rand request.added payload)) :=
  buildMsg_returns env code mid rand payload request.ascending_added request.positive_added

/-- The builders read strings of the layout only. -/
theorem exoBuildRequest_returns (env : SlotEnv) (laid : Laid layout sys)
    (on : sys.deviceState ≠ .uninitialized) (covers : layout.Covers op) :
    Exec.Returns (exoBuildRequest env sys op) := by
  have text {address : Nat} (isString : layout.strings address) :
      Exec.Returns (cString sys.heap address) := by
    obtain ⟨text, isText, -⟩ := laid.fits.terminated address isString
    exact ⟨text, isText⟩
  unfold exoBuildRequest
  split
  next type =>
    refine Exec.Returns.bind (text (covers.resource (Or.inl type))) fun aliasText _ => ?_
    exact Exec.Returns.bind (buildAdded_returns env _ _ _ ⟨.read, aliasText, [], sys.cik⟩ _)
      fun _ _ => Exec.returns_ok _
  next type =>
    refine Exec.Returns.bind (text (covers.resource (Or.inr (Or.inr type)))) fun aliasText _ => ?_
    exact Exec.Returns.bind (buildAdded_returns env _ _ _ ⟨.subscribe, aliasText, [], sys.cik⟩ _)
      fun _ _ => Exec.returns_ok _
  next type =>
    refine Exec.Returns.bind (text (covers.resource (Or.inr (Or.inl type)))) fun aliasText _ => ?_
    refine Exec.Returns.bind (text (covers.value type)) fun valueText _ => ?_
    exact Exec.Returns.bind
      (buildAdded_returns env _ _ _ ⟨.write, aliasText, valueText, sys.cik⟩ _)
      fun _ _ => Exec.returns_ok _
  next =>
    obtain ⟨vendor, model, serial⟩ := laid.statics on
    refine Exec.Returns.bind (text vendor) fun vendorText _ => ?_
    refine Exec.Returns.bind (text model) fun modelText _ => ?_
    refine Exec.Returns.bind (text serial) fun serialText _ => ?_
    exact Exec.Returns.bind (buildMsg_returns env _ _ _ _
      (by simp [Ascending, conUriPath, optionText_length]) (by simp [conUriPath]))
      fun _ _ => Exec.returns_ok _
  next => exact Exec.returns_ok _

variable (laid : Laid layout sys) (on : sys.deviceState ≠ .uninitialized)
  (covers : layout.Covers op)

include laid on covers

theorem exoSendNew_returns (env : SlotEnv) : Exec.Returns (exoSendNew env sys i op) := by
  refine Exec.Returns.bind (exoBuildRequest_returns env laid on covers) fun result built => ?_
  cases result with
  | none => exact Exec.returns_ok _
  | some result =>
      obtain ⟨request, pdu⟩ := result
      obtain ⟨floor, message, simulates, -⟩ := exoBuildRequest_spec built
      have observes := simulates.observes
      dsimp only
      rw [simulates.slice_eq, Exec.ok_bind, observes.mid, observes.token]
      split_ifs <;> exact Exec.returns_ok _

theorem exoSendAgain_returns (env : SlotEnv) : Exec.Returns (exoSendAgain env sys i op) := by
  refine Exec.Returns.bind (exoBuildRequest_returns env laid on covers) fun result built => ?_
  cases result with
  | none => exact Exec.returns_ok _
  | some result =>
      obtain ⟨request, pdu⟩ := result
      obtain ⟨floor, message, simulates, -⟩ := exoBuildRequest_spec built
      obtain ⟨midErr, withMid, setMid, -, simulatesMid⟩ := simulates.setMid op.mid
      obtain ⟨tokenErr, again, next, setToken, -, simulatesToken, -⟩ :=
        simulatesMid.setToken op.token op.tkl
      dsimp only
      rw [setMid, Exec.ok_bind]
      dsimp only
      rw [setToken, Exec.ok_bind]
      dsimp only
      rw [simulatesToken.slice_eq, Exec.ok_bind]
      split_ifs <;> exact Exec.returns_ok _

theorem exoProcessOp_returns (now : UInt64) (env : SlotEnv) :
    Exec.Returns (exoProcessOp now env sys i op) := by
  have timedOut : Exec.Returns (exoTimedOut env sys i op) := by
    have again : Exec.Returns (if op.retries < coapMaxRetransmit then exoSendAgain env sys i op
        else return sys.setOp i { op with state := .error }) := by
      split_ifs
      · exact exoSendAgain_returns laid on covers env
      · exact Exec.returns_ok _
    unfold exoTimedOut
    split
    · exact again
    · exact again
    · exact again
    · exact Exec.returns_ok _
    · exact Exec.returns_ok _
  have waiting : Exec.Returns (if op.timeout ≤ now then exoTimedOut env sys i op
      else return sys) := by
    split_ifs
    · exact timedOut
    · exact Exec.returns_ok _
  unfold exoProcessOp
  cases op.state with
  | new => exact exoSendNew_returns laid on covers env
  | subscribed => exact waiting
  | pending => exact waiting
  | subAckNew => exact ⟨_, exoSendAck_eq env sys i op⟩
  | subAck => exact ⟨_, exoSendAck_eq env sys i op⟩
  | null => exact Exec.returns_ok _
  | success => exact Exec.returns_ok _
  | error => exact Exec.returns_ok _

omit covers in
theorem exoActiveLoop_returns (now : UInt64) (envs : Nat → SlotEnv) {left : Nat}
    (inRange : i + left = sys.ops.length) :
    Exec.Returns (exoActiveLoop now envs sys left i) := by
  induction left generalizing sys i with
  | zero => exact Exec.returns_ok _
  | succ left ih =>
      have atSlot := List.getElem?_eq_getElem (show i < sys.ops.length by omega)
      have covers := laid.covers _ (List.mem_of_getElem? atSlot)
      rw [exoActiveLoop, atSlot]
      refine Exec.Returns.bind (exoProcessOp_returns laid on covers now (envs i))
        fun next processed => ?_
      have step : LibStep sys next := .slot atSlot (exoProcessOp_cases processed)
      refine ih (step.laid on laid) (step.deviceState on) ?_
      rw [step.ops_length]
      omega

end Slots

/-! ## Calls -/

/-- `exo_operate` needs slot 0. -/
theorem exoOperate_returns {env : OperateEnv} (orderly : ∀ rx ∈ env.datagrams, Orderly rx)
    (laid : Laid layout sys) (some : 0 < sys.ops.length) :
    ∃ state after, exoOperate env sys = .ok (state, after) ∧ Laid layout after ∧
      ∀ address, ¬ layout.Writable address → after.heap[address]? = sys.heap[address]? := by
  by_cases off : sys.deviceState = .uninitialized
  · refine ⟨.exoError, sys, ?_, laid, fun _ _ => rfl⟩
    rw [exoOperate, if_pos off]
    rfl
  · have ready : Exec.Returns (exoReady env.time sys) := by
      unfold exoReady
      split_ifs
      · exact Exec.returns_ok _
      · rw [exoActivateFirst, List.getElem?_eq_getElem some]
        dsimp only
        split_ifs <;> exact Exec.returns_ok _
    have whole : Exec.Returns (exoOperate env sys) := by
      have same : exoOperate env sys = (do
          let ready ← exoReady env.time sys
          let received ← exoProcessWaitingDatagrams ready env.datagrams
          let processed ← exoProcessActiveOps env.now env.slots received
          return (exoStateOf processed.ops, processed)) := by
        rw [exoOperate, if_neg off, exoReady]
        split_ifs <;> rfl
      rw [same]
      refine Exec.Returns.bind ready fun ready isReady => ?_
      have first := (exoReady_callSteps isReady).libSteps
      have isOn := LibSteps.deviceState first off
      have firstLaid := (LibSteps.laid first off laid).1
      refine Exec.Returns.bind (exoProcessWaitingDatagrams_returns orderly isOn firstLaid)
        fun received waiting => ?_
      have second := (exoProcessWaitingDatagrams_callSteps waiting).libSteps
      refine Exec.Returns.bind (exoActiveLoop_returns (LibSteps.laid second isOn firstLaid).1
        (LibSteps.deviceState second isOn) _ _ (Nat.zero_add _)) fun _ _ => Exec.returns_ok _
    obtain ⟨⟨state, after⟩, ran⟩ := whole
    exact ⟨state, after, ran, LibSteps.laid (exoOperate_steps ran).1 off laid⟩

end Functions

/-! ## Runs -/

/-- The call names an op of the array, and strings and buffers of the layout; what the user
writes to its memory fits the layout, and the datagrams are orderly. -/
def Layout.Allows (layout : Layout) (count : Nat) : UserCall → Prop
  | .init _ vendor model serial =>
    layout.strings vendor ∧ layout.strings model ∧ layout.strings serial
  | .write slot aliasPtr valuePtr =>
    slot < count ∧ layout.strings aliasPtr ∧ layout.strings valuePtr
  | .read slot aliasPtr valuePtr valueMax | .subscribe slot aliasPtr valuePtr valueMax =>
    slot < count ∧ layout.strings aliasPtr ∧ layout.buffers valuePtr valueMax
  | .opInit slot | .opDone slot => slot < count
  | .memory heap => layout.Fits heap
  | .operate env => ∀ rx ∈ env.datagrams, Orderly rx

/-- The memory as the user last wrote it. -/
def userMemory (heap : Mem) : List UserCall → Mem
  | [] => heap
  | .memory written :: rest => userMemory written rest
  | _ :: rest => userMemory heap rest

section Runs

variable {layout : Layout} {sys : Sys} {count : Nat}

theorem opAt_returns {slot : Nat} (inRange : slot < sys.ops.length) :
    ∃ op, sys.opAt slot = .ok op ∧ sys.ops[slot]? = some op := by
  refine ⟨_, ?_, List.getElem?_eq_getElem inRange⟩
  rw [Sys.opAt, List.getElem?_eq_getElem inRange]
  rfl

theorem Laid.setOp (laid : Laid layout sys) {slot : Nat} {op : ExoOp} (typed : WellTyped slot op)
    (covers : layout.Covers op) : Laid layout (sys.setOp slot op) :=
  ⟨AllTyped.setOp laid.typed typed, fun other member =>
    (List.mem_or_eq_of_mem_set member).elim (laid.covers other) fun same => same ▸ covers,
    laid.statics, laid.fits⟩

theorem Laid.record (laid : Laid layout sys) (event : Event) : Laid layout (sys.record event) :=
  ⟨laid.typed, laid.covers, laid.statics, laid.fits⟩

/-- A request is queued. -/
theorem Laid.queue (laid : Laid layout sys) {slot : Nat} {op : ExoOp} {type : ExoRequestType}
    {aliasPtr valuePtr valueMax : Nat} (typed : type = .write ∨ type = .read ∨ type = .subscribe)
    (resource : layout.strings aliasPtr) (value : type = .write → layout.strings valuePtr)
    (buffer : type ≠ .write → layout.buffers valuePtr valueMax) :
    Laid layout ((sys.setOp slot (op.queue type aliasPtr valuePtr valueMax)).record
      (.queued slot)) := by
  refine (laid.setOp (wellTyped_queue ?_ ?_) ⟨fun _ => resource, value, ?_⟩).record _
  · rcases typed with rfl | rfl | rfl <;> decide
  · rintro rfl
    simp at typed
  · rintro (rfl | rfl) <;> exact buffer (by decide)

/-- Only `exo_init` switches the library on, after it has set the static pointers. -/
theorem exoInit_statics {env : InitEnv} {vendor model serial : Nat}
    (strings : layout.strings vendor ∧ layout.strings model ∧ layout.strings serial)
    (on : (exoInit env vendor model serial sys).2.deviceState ≠ .uninitialized) :
    layout.strings (exoInit env vendor model serial sys).2.vendor ∧
      layout.strings (exoInit env vendor model serial sys).2.model ∧
      layout.strings (exoInit env vendor model serial sys).2.serial := by
  unfold exoInit at on ⊢
  dsimp only at on ⊢
  split_ifs at on ⊢
  · exact absurd rfl on
  · exact strings
  · exact strings
  · exact strings

/-- What a call leaves: the layout, the ops, and outside the buffers what the user wrote. -/
structure Served (layout : Layout) (heap : Mem) (sys after : Sys) : Prop where
  laid : Laid layout after
  length : after.ops.length = sys.ops.length
  outside : ∀ address, ¬ layout.Writable address → after.heap[address]? = heap[address]?

theorem call_returns {action : UserCall} (laid : Laid layout sys) (some : 0 < sys.ops.length)
    (allowed : layout.Allows sys.ops.length action) :
    ∃ after, call sys action = .ok after ∧
      Served layout (userMemory sys.heap [action]) sys after := by
  cases action with
  | init env vendor model serial =>
      obtain ⟨ops, heap⟩ := exoInit_frame env vendor model serial sys
      refine ⟨_, rfl, ⟨?_, ?_, exoInit_statics allowed, ?_⟩, congrArg List.length ops, ?_⟩
      · unfold AllTyped
        rw [ops]
        exact laid.typed
      · rw [ops]
        exact laid.covers
      · rw [heap]
        exact laid.fits
      · rw [heap]
        exact fun _ _ => rfl
  | write slot aliasPtr valuePtr =>
      obtain ⟨inRange, resource, value⟩ := allowed
      obtain ⟨op, found, -⟩ := opAt_returns inRange
      refine ⟨_, by rw [call, found, Exec.ok_bind]; rfl, laid.queue (Or.inl rfl) resource
        (fun _ => value) (fun other => absurd rfl other), ?_, fun _ _ => rfl⟩
      exact List.length_set
  | read slot aliasPtr valuePtr valueMax =>
      obtain ⟨inRange, resource, buffer⟩ := allowed
      obtain ⟨op, found, -⟩ := opAt_returns inRange
      refine ⟨_, by rw [call, found, Exec.ok_bind]; rfl, laid.queue (Or.inr (Or.inl rfl)) resource
        (by rintro ⟨⟩) (fun _ => buffer), ?_, fun _ _ => rfl⟩
      exact List.length_set
  | subscribe slot aliasPtr valuePtr valueMax =>
      obtain ⟨inRange, resource, buffer⟩ := allowed
      obtain ⟨op, found, -⟩ := opAt_returns inRange
      refine ⟨_, by rw [call, found, Exec.ok_bind]; rfl, laid.queue (Or.inr (Or.inr rfl)) resource
        (by rintro ⟨⟩) (fun _ => buffer), ?_, fun _ _ => rfl⟩
      exact List.length_set
  | opInit slot =>
      obtain ⟨op, found, -⟩ := opAt_returns allowed
      refine ⟨_, by rw [call, found, Exec.ok_bind]; rfl,
        laid.setOp (wellTyped_exoOpInit slot) (Layout.covers_exoOpInit layout), ?_,
        fun _ _ => rfl⟩
      exact List.length_set
  | opDone slot =>
      obtain ⟨op, found, atSlot⟩ := opAt_returns allowed
      have covers := laid.covers op (List.mem_of_getElem? atSlot)
      refine ⟨_, by rw [call, found, Exec.ok_bind]; rfl,
        (laid.setOp (wellTyped_exoOpDone slot op) covers.exoOpDone).record _, ?_,
        fun _ _ => rfl⟩
      exact List.length_set
  | memory heap =>
      exact ⟨_, rfl, ⟨laid.typed, laid.covers, laid.statics, allowed⟩, rfl, fun _ _ => rfl⟩
  | operate env =>
      obtain ⟨state, after, ran, isLaid, outside⟩ := exoOperate_returns allowed laid some
      refine ⟨after, by rw [call, ran, Exec.ok_bind]; rfl, isLaid, ?_, outside⟩
      exact LibSteps.ops_length (exoOperate_steps ran).1

theorem run_served {calls : List UserCall} {heap : Mem} (laid : Laid layout sys)
    (some : 0 < sys.ops.length)
    (same : ∀ address, ¬ layout.Writable address → sys.heap[address]? = heap[address]?)
    (allowed : ∀ action ∈ calls, layout.Allows sys.ops.length action) :
    ∃ after, run sys calls = .ok after ∧ Served layout (userMemory heap calls) sys after := by
  induction calls generalizing sys heap with
  | nil => exact ⟨sys, rfl, laid, rfl, same⟩
  | cons action rest ih =>
      obtain ⟨next, called, served⟩ := call_returns laid some (allowed action List.mem_cons_self)
      have still : ∀ address, ¬ layout.Writable address →
          next.heap[address]? = (userMemory heap [action])[address]? := by
        intro address outside
        rw [served.outside address outside]
        cases action with
        | memory => rfl
        | _ => exact same address outside
      obtain ⟨after, ran, final⟩ := ih served.laid (by rw [served.length]; exact some) still
        fun other member => by
          rw [served.length]
          exact allowed other (List.mem_cons_of_mem _ member)
      have later : userMemory heap (action :: rest) =
          userMemory (userMemory heap [action]) rest := by cases action <;> rfl
      refine ⟨after, by rw [run, called, Exec.ok_bind]; exact ran, final.laid,
        final.length.trans served.length, ?_⟩
      rw [later]
      exact final.outside

/-- As long as the datagrams are orderly, a program that keeps to a layout never traps,
whatever else the platform answers and whatever is left on the stack, and finds its memory
outside the buffers, all strings included, as it last wrote it. -/
theorem run_returns (layout : Layout) {heap : Mem} {calls : List UserCall} (some : 0 < count)
    (fits : layout.Fits heap) (allowed : ∀ action ∈ calls, layout.Allows count action) :
    ∃ after, run (powerOn count heap) calls = .ok after ∧ layout.Fits after.heap ∧
      ∀ address, ¬ layout.Writable address →
        after.heap[address]? = (userMemory heap calls)[address]? := by
  have length : (powerOn count heap).ops.length = count := List.length_replicate
  have laid : Laid layout (powerOn count heap) := by
    refine ⟨allTyped_powerOn count heap, fun op member => ?_, fun on => absurd rfl on, fits⟩
    rw [List.eq_of_mem_replicate member]
    exact Layout.covers_exoOpInit layout
  obtain ⟨after, ran, served⟩ := @run_served _ _ calls heap laid (by rw [length]; exact some)
    (fun _ _ => rfl) (by rw [length]; exact allowed)
  exact ⟨after, ran, served.laid.fits, served.outside⟩

end Runs

/-- The string at address 1 and the buffer behind it. -/
def quietLayout : Layout := ⟨fun address => address = 1, fun start size => start = 3 ∧ size = 8⟩

theorem quietLayout_fits : quietLayout.Fits quietHeap := by
  constructor
  · rintro address rfl
    refine ⟨[0x61], rfl, fun place _ upper => ?_⟩
    rintro ⟨start, size, ⟨rfl, rfl⟩, lower, -⟩
    rw [List.length_singleton] at upper
    omega
  · rintro start size ⟨rfl, rfl⟩
    exact ⟨by decide, by decide, by decide⟩

/-- A message that arrives. -/
theorem orderly_arrives {bytes : List UInt8} (message : Message) (encoded : message.encode = bytes)
    (short : bytes.length ≤ minimumDatagramSize) (encodable : message.Encodable)
    (nonzero : ∀ option ∈ message.options, option.num ≠ 0)
    (observe : message.payload = none ∨ message.options = [] ∨
      ∃ option ∈ message.options, conObserve ≤ option.num) : Orderly (arrives bytes) where
  readable := by
    have room : minimumDatagramSize + bytes.length ≤ (arrives bytes).pdu.mem.length := by
      simp only [arrives, quietBuffer, List.length_append, List.length_replicate,
        List.length_take]
      omega
    have length : (arrives bytes).pdu.len = min minimumDatagramSize bytes.length := rfl
    have front : minimumDatagramSize = 576 := rfl
    exact ⟨by omega, by omega⟩
  legible := by
    refine fun _ => ⟨message, ?_, encodable, nonzero, observe⟩
    rw [encoded]
    simp only [arrives, quietBuffer, CoapPdu.packet, Nat.min_eq_right short,
      List.take_of_length_le short, List.take_left]

/-- A read with its answer. -/
theorem run_returns_read : ∃ after, run (powerOn 2 quietHeap) [quietInit, .read 1 1 3 8,
    quietOperate [], quietOperate [[0x60, 0x45, 0, 8, 0xFF, 0x78]]] = .ok after ∧
      after.heap[1]? = some 0x61 := by
  obtain ⟨after, ran, -, outside⟩ := @run_returns 2 quietLayout quietHeap [quietInit,
    .read 1 1 3 8, quietOperate [], quietOperate [[0x60, 0x45, 0, 8, 0xFF, 0x78]]]
    (by decide) quietLayout_fits (by
      have answer : Orderly (arrives [0x60, 0x45, 0, 8, 0xFF, 0x78]) :=
        orderly_arrives ⟨.ack, 0x45, 8, [], [], some [0x78]⟩ rfl (by decide)
          ⟨by decide, trivial⟩ (by simp) (Or.inr (Or.inl rfl))
      simp only [List.forall_mem_cons, Layout.Allows, quietInit, quietOperate, quietLayout]
      simp [answer])
  refine ⟨after, ran, outside 1 ?_⟩
  rintro ⟨start, size, ⟨rfl, rfl⟩, lower, -⟩
  omega

end ExositeCoap.Exosite
