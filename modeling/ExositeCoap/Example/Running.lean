import ExositeCoap.Example.Program
import ExositeCoap.Exosite.Exchange
import ExositeCoap.Exosite.Total

/-!
# What the example program keeps true

Every slot has its duty: what the program asks for in it, and where the strings and the array
for this lie.  Between its calls the ops are what their duties say, the constants are in place,
and all requests that were sent are for some duty (`Running`).
-/

namespace ExositeCoap.Example

open Lib Wire Coap Exosite

/-! ## Duties -/

/-- What a slot is for. -/
structure Duty where
  type : ExoRequestType
  aliasPtr : Nat
  aliasText : List UInt8
  /-- an array of `main`, and its size -/
  valuePtr : Nat
  size : Nat
  valueMax : Nat
  /-- the values that are written -/
  values : List UInt8 → Prop

namespace Places

def commandDuty (places : Places) : Duty :=
  ⟨.subscribe, places.command, commandText, places.readStr, 32, 32, fun text => text = []⟩

def uptimeDuty (places : Places) : Duty :=
  ⟨.write, places.uptime, uptimeText, places.loopStr, 16, 0,
    fun text => ∃ loopcount, loopcount % 100 = 0 ∧ text = (decimal loopcount).take 14⟩

def errorcountDuty (places : Places) : Duty :=
  ⟨.write, places.errorcount, errorcountText, places.errorStr, 16, 0,
    fun text => text = (decimal 0).take 14⟩

/-- The slots from 1 on; slot 0 is left to the library. -/
def duty (places : Places) : Nat → Option Duty
  | 1 => some places.commandDuty
  | 2 => some places.uptimeDuty
  | 3 => some places.errorcountDuty
  | _ => none

end Places

/-- The request is one that the slot is for. -/
structure Duty.Asks (duty : Duty) (request : Request) : Prop where
  type : request.type = duty.type
  aliasText : request.aliasText = duty.aliasText
  value : duty.values request.valueText

/-- The op asks for what the slot is for. -/
structure Duty.Fills (duty : Duty) (heap : Mem) (op : ExoOp) : Prop where
  type : op.type = duty.type
  aliasPtr : op.aliasPtr = duty.aliasPtr
  valuePtr : op.valuePtr = duty.valuePtr
  valueMax : op.valueMax = duty.valueMax
  value : duty.type = .write → ∃ text, cString heap duty.valuePtr = .ok text ∧ duty.values text

/-- The constants are in memory and the arrays are mapped, all apart from each other. -/
structure Places.Ready (places : Places) (heap : Mem) : Prop where
  literals : ∀ literal ∈ places.literals, cString heap literal.1 = .ok literal.2
  arrays : ∀ slot duty, places.duty slot = some duty →
    duty.valuePtr ≠ 0 ∧ duty.valuePtr + duty.size ≤ heap.length
  apart : ∀ literal ∈ places.literals, ∀ slot duty, places.duty slot = some duty →
    literal.1 + literal.2.length < duty.valuePtr ∨ duty.valuePtr + duty.size ≤ literal.1
  disjoint : ∀ i j left right, i ≠ j → places.duty i = some left → places.duty j = some right →
    left.valuePtr + left.size ≤ right.valuePtr ∨ right.valuePtr + right.size ≤ left.valuePtr

section Duties

variable {places : Places} {slot : Nat} {duty : Duty} {heap after : Mem} {text : List UInt8}

theorem duty_cases (isDuty : places.duty slot = some duty) :
    (slot = 1 ∧ duty = places.commandDuty) ∨ (slot = 2 ∧ duty = places.uptimeDuty) ∨
      (slot = 3 ∧ duty = places.errorcountDuty) := by
  unfold Places.duty at isDuty
  split at isDuty <;> simp_all

theorem duty_slot (isDuty : places.duty slot = some duty) : 1 ≤ slot ∧ slot < opCount := by
  obtain ⟨rfl, -⟩ | ⟨rfl, -⟩ | ⟨rfl, -⟩ := duty_cases isDuty <;> decide

theorem duty_literal (isDuty : places.duty slot = some duty) :
    (duty.aliasPtr, duty.aliasText) ∈ places.literals := by
  obtain ⟨-, rfl⟩ | ⟨-, rfl⟩ | ⟨-, rfl⟩ := duty_cases isDuty <;>
    simp [Places.literals, Places.commandDuty, Places.uptimeDuty, Places.errorcountDuty]

theorem duty_alias (isDuty : places.duty slot = some duty) : duty.aliasText.length ≤ 10 := by
  obtain ⟨-, rfl⟩ | ⟨-, rfl⟩ | ⟨-, rfl⟩ := duty_cases isDuty
  · exact (by decide : commandText.length ≤ 10)
  · exact (by decide : uptimeText.length ≤ 10)
  · exact (by decide : errorcountText.length ≤ 10)

/-- Only the subscription has a buffer. -/
theorem duty_type (isDuty : places.duty slot = some duty) :
    (slot = 1 ∧ duty = places.commandDuty) ∨
      (slot ≠ 1 ∧ duty.type = .write ∧ duty.size = 16 ∧ duty.valueMax = 0) := by
  obtain here | ⟨rfl, rfl⟩ | ⟨rfl, rfl⟩ := duty_cases isDuty
  · exact Or.inl here
  · exact Or.inr ⟨by decide, rfl, rfl, rfl⟩
  · exact Or.inr ⟨by decide, rfl, rfl, rfl⟩

/-- The values have room in their arrays. -/
theorem duty_length (isDuty : places.duty slot = some duty) (value : duty.values text) :
    text.length ≤ 14 := by
  have printed : ∀ number, ((decimal number).take 14).length ≤ 14 := by
    intro number
    rw [List.length_take]
    exact Nat.min_le_left _ _
  obtain ⟨-, rfl⟩ | ⟨-, rfl⟩ | ⟨-, rfl⟩ := duty_cases isDuty
  · rw [value]
    exact Nat.zero_le _
  · obtain ⟨loopcount, -, rfl⟩ := value
    exact printed loopcount
  · rw [value]
    exact printed 0

namespace Places.Ready

theorem aliasText (ready : places.Ready heap) (isDuty : places.duty slot = some duty) :
    cString heap duty.aliasPtr = .ok duty.aliasText :=
  ready.literals _ (duty_literal isDuty)

/-- Writing to an array leaves everything ready. -/
theorem of_writes (ready : places.Ready heap) (isDuty : places.duty slot = some duty)
    (length : after.length = heap.length)
    (same : ∀ address : Nat, address < duty.valuePtr ∨ duty.valuePtr + duty.size ≤ address →
      after[address]? = heap[address]?) : places.Ready after := by
  refine ⟨fun literal member => ?_, fun i other isOther => ?_, ready.apart, ready.disjoint⟩
  · have apart := ready.apart literal member slot duty isDuty
    exact cString_congr (ready.literals literal member) fun place lower upper =>
      same place (by omega)
  · rw [length]
    exact ready.arrays i other isOther

/-- Writing to an array leaves the texts in the others. -/
theorem text_kept (ready : places.Ready heap) {i : Nat} {other : Duty}
    (isDuty : places.duty slot = some duty) (isOther : places.duty i = some other)
    (different : i ≠ slot) (isText : cString heap other.valuePtr = .ok text)
    (short : text.length < other.size)
    (same : ∀ address : Nat, address < duty.valuePtr ∨ duty.valuePtr + duty.size ≤ address →
      after[address]? = heap[address]?) : cString after other.valuePtr = .ok text := by
  have apart := ready.disjoint i slot other duty different isOther isDuty
  exact cString_congr isText fun place lower upper => same place (by omega)

end Places.Ready

end Duties

/-! ## Between the calls -/

/-- The strings and the buffer of the program. -/
def Places.layout (places : Places) (heap : Mem) : Layout where
  strings address := (∃ literal ∈ places.literals, literal.1 = address) ∨
    ∃ slot duty text, places.duty slot = some duty ∧ duty.type = .write ∧
      duty.valuePtr = address ∧ cString heap address = .ok text ∧ duty.values text
  buffers start size := start = places.readStr ∧ size = 32

/-- The op is what its slot is for, and so is all that went out for it. -/
structure Duty.Served (duty : Duty) (sys : Sys) (slot : Nat) (op : ExoOp) : Prop where
  fills : duty.Fills sys.heap op
  asks : ∀ request datagram, (request, datagram) ∈ exchanged slot sys.log → duty.Asks request ∧
    (duty.type = .write → cString sys.heap duty.valuePtr = .ok request.valueText)

/-- The program has a use for the request. -/
def Places.Meant (places : Places) (slot : Nat) (request : Request) : Prop :=
  (slot = 0 ∧ request.type = .activate) ∨
    ∃ duty, places.duty slot = some duty ∧ duty.Asks request

/-- What the program keeps true. -/
structure Running (places : Places) (sys : Sys) : Prop where
  count : sys.ops.length = opCount
  typed : AllTyped sys
  ready : places.Ready sys.heap
  statics : sys.deviceState ≠ .uninitialized →
    sys.vendor = places.vendor ∧ sys.model = places.model ∧ sys.serial = places.serial
  first : ∀ op, sys.ops[0]? = some op → op.type = .null ∨ op.type = .activate
  later : ∀ slot op, 1 ≤ slot → sys.ops[slot]? = some op → op.type ≠ .null →
    ∃ duty, places.duty slot = some duty ∧ duty.Served sys slot op
  meant : ∀ slot first request datagram ok,
    Event.sent (.request slot first request) datagram ok ∈ sys.log → places.Meant slot request

section Calls

variable {places : Places} {slot : Nat} {duty : Duty} {heap start : Mem} {sys after : Sys}

theorem writable_layout {address : Nat} (writable : (places.layout heap).Writable address) :
    places.readStr ≤ address ∧ address < places.readStr + 32 := by
  obtain ⟨start, size, ⟨rfl, rfl⟩, lower, upper⟩ := writable
  exact ⟨lower, upper⟩

theorem Places.Ready.fits (ready : places.Ready heap) : (places.layout heap).Fits heap := by
  have isCommand : places.duty 1 = some places.commandDuty := rfl
  refine ⟨?_, ?_⟩
  · rintro address (⟨literal, member, rfl⟩ | ⟨slot, duty, text, isDuty, type, rfl, isText, value⟩)
    · have apart := ready.apart literal member 1 _ isCommand
      refine ⟨literal.2, ready.literals literal member, fun place lower upper writable => ?_⟩
      have inside := writable_layout writable
      change _ < places.readStr ∨ places.readStr + 32 ≤ _ at apart
      omega
    · obtain ⟨-, rfl⟩ | ⟨other, -, size, -⟩ := duty_type isDuty
      · cases type
      · have apart := ready.disjoint slot 1 duty _ other isDuty isCommand
        have short := duty_length isDuty value
        refine ⟨text, isText, fun place lower upper writable => ?_⟩
        have inside := writable_layout writable
        change _ ≤ places.readStr ∨ places.readStr + 32 ≤ _ at apart
        omega
  · rintro start size ⟨rfl, rfl⟩
    obtain ⟨place, mapped⟩ := ready.arrays 1 _ isCommand
    exact ⟨place, by decide, mapped⟩

/-- Seen from the library, the program keeps to its layout. -/
theorem Running.laid (running : Running places sys) : Laid (places.layout sys.heap) sys := by
  refine ⟨running.typed, fun op member => ?_, fun on => ?_, running.ready.fits⟩
  · obtain ⟨slot, inRange, isOp⟩ := List.getElem_of_mem member
    have atSlot : sys.ops[slot]? = some op := List.getElem?_eq_some_iff.mpr ⟨inRange, isOp⟩
    by_cases null : op.type = .null
    · constructor <;> simp [null]
    · by_cases zero : slot = 0
      · subst zero
        have activate := (running.first op atSlot).resolve_left null
        constructor <;> simp [activate]
      · obtain ⟨duty, isDuty, served⟩ := running.later slot op (by omega) atSlot null
        obtain ⟨type, aliasPtr, valuePtr, valueMax, value⟩ := served.fills
        refine ⟨fun _ => ?_, fun isWrite => ?_, fun isRead => ?_⟩
        · rw [aliasPtr]
          exact Or.inl ⟨_, duty_literal isDuty, rfl⟩
        · rw [type] at isWrite
          obtain ⟨text, isText, isValue⟩ := value isWrite
          exact Or.inr ⟨slot, duty, text, isDuty, isWrite, valuePtr.symm, valuePtr ▸ isText, isValue⟩
        · obtain ⟨-, rfl⟩ | ⟨-, isWrite, -⟩ := duty_type isDuty
          · exact ⟨valuePtr, valueMax⟩
          · simp [type, isWrite] at isRead
  · obtain ⟨vendor, model, serial⟩ := running.statics on
    rw [vendor, model, serial]
    exact ⟨Or.inl ⟨_, List.mem_cons_self, rfl⟩,
      Or.inl ⟨_, List.mem_cons_of_mem _ List.mem_cons_self, rfl⟩,
      Or.inl ⟨_, List.mem_cons_of_mem _ (List.mem_cons_of_mem _ List.mem_cons_self), rfl⟩⟩

/-- What goes out for an op is what its slot is for. -/
theorem Duty.Fills.asks {op : ExoOp} {env : SlotEnv} {request : Request} {datagram : List UInt8}
    {first : Bool} (fills : duty.Fills sys.heap op) (isDuty : places.duty slot = some duty)
    (ready : places.Ready sys.heap) (transmits : Transmits env sys op request datagram first) :
    duty.Asks request ∧
      (duty.type = .write → cString sys.heap duty.valuePtr = .ok request.valueText) := by
  have isType := transmits.type.trans fills.type
  have user : op.type ≠ .activate := by
    rw [fills.type]
    obtain ⟨-, rfl⟩ | ⟨-, isWrite, -⟩ := duty_type isDuty
    · simp [Places.commandDuty]
    · simp [isWrite]
  obtain ⟨aliasText, value⟩ := transmits.texts user
  rw [fills.aliasPtr, ready.aliasText isDuty] at aliasText
  rw [fills.type, fills.valuePtr] at value
  obtain ⟨-, rfl⟩ | ⟨-, isWrite, -⟩ := duty_type isDuty
  · exact ⟨⟨isType, (Except.ok.inj aliasText).symm, value⟩, fun other => by cases other⟩
  · rw [if_pos isWrite] at value
    obtain ⟨text, isText, isValue⟩ := fills.value isWrite
    have same : text = request.valueText := Except.ok.inj (isText.symm.trans value)
    exact ⟨⟨isType, (Except.ok.inj aliasText).symm, same ▸ isValue⟩, fun _ => value⟩

/-- The program has a use for what the library transmits. -/
theorem Running.transmitted (running : Running places sys) {slot : Nat} {env : SlotEnv} {op : ExoOp}
    {request : Request} {datagram : List UInt8} {first : Bool} (atSlot : sys.ops[slot]? = some op)
    (transmits : Transmits env sys op request datagram first) :
    places.Meant slot request ∧ ∀ {duty : Duty}, 1 ≤ slot → places.duty slot = some duty →
      duty.Asks request ∧
        (duty.type = .write → cString sys.heap duty.valuePtr = .ok request.valueText) := by
  have some : op.type ≠ .null := by
    cases transmits with
    | first state => exact fun null => by simp [(running.typed atSlot).null.mp null] at state
    | again waits => exact (running.typed atSlot).of_waits waits
  by_cases zero : slot = 0
  · subst zero
    refine ⟨Or.inl ⟨rfl, transmits.type.trans ?_⟩, fun later => absurd later (by decide)⟩
    exact (running.first op atSlot).resolve_left some
  · obtain ⟨duty, isDuty, served⟩ := running.later slot op (by omega) atSlot some
    have asks := served.fills.asks isDuty running.ready transmits
    refine ⟨Or.inr ⟨duty, isDuty, asks.1⟩, fun {other} _ isOther => ?_⟩
    rw [isDuty] at isOther
    cases isOther
    exact asks

/-- The first slot is for the activation only. -/
theorem Running.first_lib (running : Running places sys) (step : LibStep sys after) {next : ExoOp}
    (isNext : after.ops[0]? = some next) : next.type = .null ∨ next.type = .activate := by
  obtain ⟨op, atSlot, rfl | change⟩ := step.op_origin isNext
  · exact running.first _ atSlot
  · have before := running.first op atSlot
    cases change with
    | released => exact Or.inl rfl
    | activated => exact Or.inr rfl
    | untyped => exact Or.inl rfl
    | _ => exact before

/-- The program has a use for every request of the library. -/
theorem Running.meant_lib (running : Running places sys) (step : LibStep sys after) {slot : Nat}
    {first ok : Bool} {request : Request} {datagram : List UInt8}
    (logged : .sent (.request slot first request) datagram ok ∈ after.log) :
    places.Meant slot request := by
  obtain ⟨events, logs, grown⟩ := step.logs
  rw [grown] at logged
  rcases List.mem_append.mp logged with new | old
  · cases logs with
    | requested _ atSlot transmits =>
        simp only [List.mem_cons, Event.sent.injEq, Cause.request.injEq, reduceCtorEq,
          List.not_mem_nil, or_false] at new
        obtain ⟨⟨rfl, rfl, rfl⟩, rfl, rfl⟩ := new
        exact (running.transmitted atSlot transmits).1
    | _ => simp at new
  · exact running.meant slot first request datagram ok old

/-- The values that the program sends are only written by itself. -/
theorem Running.text_lib (running : Running places sys)
    (outside : ∀ address : Nat, address < places.commandDuty.valuePtr ∨
      places.commandDuty.valuePtr + places.commandDuty.size ≤ address →
        after.heap[address]? = sys.heap[address]?) {slot : Nat} {duty : Duty} {text : List UInt8}
    (isDuty : places.duty slot = some duty) (isWrite : duty.type = .write)
    (isText : cString sys.heap duty.valuePtr = .ok text) (value : duty.values text) :
    cString after.heap duty.valuePtr = .ok text := by
  have isCommand : places.duty 1 = some places.commandDuty := rfl
  obtain ⟨-, rfl⟩ | ⟨other, -, size, -⟩ := duty_type isDuty
  · cases isWrite
  · have short := duty_length isDuty value
    exact running.ready.text_kept isCommand isDuty other isText (by omega) outside

/-- The library keeps true what the program keeps true. -/
theorem Running.lib (running : Running places sys) (on : sys.deviceState ≠ .uninitialized)
    (laid : Laid (places.layout start) sys) (step : LibStep sys after) :
    Running places after := by
  have isCommand : places.duty 1 = some places.commandDuty := rfl
  have statics := step.statics
  have outside : ∀ address : Nat, address < places.commandDuty.valuePtr ∨
      places.commandDuty.valuePtr + places.commandDuty.size ≤ address →
        after.heap[address]? = sys.heap[address]? := by
    intro address apart
    refine step.outside laid fun writable => ?_
    have inside := writable_layout writable
    change address < places.readStr ∨ places.readStr + 32 ≤ address at apart
    omega
  refine ⟨step.ops_length.trans running.count, step.allTyped running.typed,
    running.ready.of_writes isCommand statics.length outside, fun _ => ?_,
    fun next isNext => running.first_lib step isNext, fun slot next later isNext some => ?_,
    fun slot first request datagram ok logged => running.meant_lib step logged⟩
  · rw [statics.vendor, statics.model, statics.serial]
    exact running.statics on
  · obtain ⟨op, atSlot, origin⟩ := step.op_origin isNext
    have same : SameRequest op next := by
      rcases origin with rfl | change
      · exact .refl _
      · exact change.sameRequest (running.typed atSlot) later
    rw [same.type] at some
    obtain ⟨duty, isDuty, fills, asks⟩ := running.later slot op later atSlot some
    refine ⟨duty, isDuty, ⟨same.type.trans fills.type, same.aliasPtr.trans fills.aliasPtr,
      same.valuePtr.trans fills.valuePtr, same.valueMax.trans fills.valueMax, fun isWrite => ?_⟩,
      fun request datagram member => ?_⟩
    · obtain ⟨text, isText, value⟩ := fills.value isWrite
      exact ⟨text, running.text_lib outside isDuty isWrite isText value, value⟩
    · have old : duty.Asks request ∧
          (duty.type = .write → cString sys.heap duty.valuePtr = .ok request.valueText) := by
        obtain old | ⟨env, found, first, isFound, transmits⟩ := step.exchanged slot member
        · exact asks request datagram old
        · exact (running.transmitted isFound transmits).2 later isDuty
      exact ⟨old.1, fun isWrite =>
        running.text_lib outside isDuty isWrite (old.2 isWrite) old.1.value⟩

/-- `exo_init` leaves the array as it is, and the program true to itself. -/
theorem running_init (ready : places.Ready heap) (env : InitEnv) :
    Running places
      (exoInit env places.vendor places.model places.serial (powerOn opCount heap)).2 := by
  obtain ⟨ops, memory⟩ :=
    exoInit_frame env places.vendor places.model places.serial (powerOn opCount heap)
  have fresh : ∀ (slot : Nat) op, (powerOn opCount heap).ops[slot]? = some op → op = exoOpInit :=
    fun slot op atSlot => List.eq_of_mem_replicate (List.mem_of_getElem? atSlot)
  rw [← ops] at fresh
  refine ⟨by rw [ops]; rfl, fun {slot op} atSlot => fresh slot op atSlot ▸ wellTyped_exoOpInit slot,
    by rw [memory]; exact ready, fun on => ?_, fun op atSlot => Or.inl (fresh 0 op atSlot ▸ rfl),
    fun slot op _ atSlot some => absurd (fresh slot op atSlot ▸ rfl) some, ?_⟩
  · unfold exoInit at on ⊢
    dsimp only at on ⊢
    split_ifs at on ⊢
    · exact absurd rfl on
    · exact ⟨rfl, rfl, rfl⟩
    · exact ⟨rfl, rfl, rfl⟩
    · exact ⟨rfl, rfl, rfl⟩
  · intro slot first request datagram ok logged
    unfold exoInit at logged
    dsimp only at logged
    split_ifs at logged <;> simp [powerOn] at logged

theorem Running.operate (running : Running places sys) {env : OperateEnv}
    (orderly : ∀ rx ∈ env.datagrams, Orderly rx) :
    ∃ state after, exoOperate env sys = .ok (state, after) ∧ Running places after := by
  have some : 0 < sys.ops.length := by
    rw [running.count]
    decide
  obtain ⟨state, after, ran, -⟩ := exoOperate_returns orderly running.laid some
  obtain ⟨steps, off⟩ := exoOperate_steps ran
  refine ⟨state, after, ran, ?_⟩
  by_cases on : sys.deviceState = .uninitialized
  · rw [off on]
    exact running
  · clear ran off
    induction steps with
    | refl => exact running
    | tail steps step ih =>
        exact ih.lib (LibSteps.deviceState steps on) (LibSteps.laid steps on running.laid).1 step

/-- The program changes one op and one array. -/
theorem Running.user (running : Running places sys) {op : ExoOp} {events : List Event}
    (typed : WellTyped slot op) (ready : places.Ready heap) (later : 1 ≤ slot)
    (kept : ∀ i duty text, i ≠ slot → places.duty i = some duty → duty.type = .write →
      cString sys.heap duty.valuePtr = .ok text → duty.values text →
        cString heap duty.valuePtr = .ok text)
    (other : ∀ i, i ≠ slot → exchanged i (events ++ sys.log) = exchanged i sys.log)
    (silent : ∀ cause datagram ok, Event.sent cause datagram ok ∉ events)
    (changed : op.type ≠ .null → ∃ duty, places.duty slot = some duty ∧ duty.Fills heap op ∧
      ∀ request datagram, (request, datagram) ∈ exchanged slot (events ++ sys.log) →
        duty.Asks request ∧
          (duty.type = .write → cString heap duty.valuePtr = .ok request.valueText)) :
    Running places { (sys.setOp slot op).logged events with heap } := by
  refine ⟨List.length_set.trans running.count, AllTyped.setOp running.typed typed, ready,
    running.statics, fun first isFirst => ?_, fun i found upper isFound some => ?_,
    fun i first request datagram ok logged => ?_⟩
  · obtain ⟨rfl, -⟩ | ⟨-, old⟩ := of_getElem?_setOp isFirst
    · cases later
    · exact running.first first old
  · obtain ⟨rfl, rfl⟩ | ⟨different, old⟩ := of_getElem?_setOp isFound
    · obtain ⟨duty, isDuty, fills, asks⟩ := changed some
      exact ⟨duty, isDuty, fills, asks⟩
    · obtain ⟨duty, isDuty, ⟨type, aliasPtr, valuePtr, valueMax, value⟩, asks⟩ :=
        running.later i found upper old some
      refine ⟨duty, isDuty, ⟨type, aliasPtr, valuePtr, valueMax, fun isWrite => ?_⟩, ?_⟩
      · obtain ⟨text, isText, isValue⟩ := value isWrite
        exact ⟨text, kept i duty text different.symm isDuty isWrite isText isValue, isValue⟩
      · intro request datagram member
        have before : (request, datagram) ∈ exchanged i (events ++ sys.log) := member
        rw [other i different.symm] at before
        obtain ⟨asked, same⟩ := asks request datagram before
        exact ⟨asked, fun isWrite =>
          kept i duty _ different.symm isDuty isWrite (same isWrite) asked.value⟩
  · rcases List.mem_append.mp logged with new | old
    · exact absurd new (silent _ datagram ok)
    · exact running.meant i first request datagram ok old

/-- A number is printed to the array of a slot and queued to be written. -/
theorem Running.write (running : Running places sys) (isDuty : places.duty slot = some duty)
    (isWrite : duty.type = .write) {number : UInt64}
    (value : duty.values ((decimal number).take 14)) :
    ∃ heap after, printNumber sys.heap duty.valuePtr number = .ok heap ∧
      (∀ address : Nat, places.readStr ≤ address → address < places.readStr + 32 →
        heap[address]? = sys.heap[address]?) ∧
      call { sys with heap } (.write slot duty.aliasPtr duty.valuePtr) = .ok after ∧
      Running places after := by
  obtain ⟨-, rfl⟩ | ⟨different, -, size, valueMax⟩ := duty_type isDuty
  · cases isWrite
  obtain ⟨place, mapped⟩ := running.ready.arrays slot duty isDuty
  rw [size] at mapped
  obtain ⟨heap, printed, length, isText, outside⟩ := printNumber_spec place mapped number
  rw [← size] at outside
  have isCommand : places.duty 1 = some places.commandDuty := rfl
  obtain ⟨op, found, atSlot⟩ := @opAt_returns { sys with heap } slot
    (by rw [running.count]; exact (duty_slot isDuty).2)
  refine ⟨heap, _, printed, fun address lower upper => outside address ?_,
    by rw [call, found, Exec.ok_bind]; rfl, ?_⟩
  · have apart := running.ready.disjoint slot 1 duty _ different isDuty isCommand
    change _ ≤ places.readStr ∨ places.readStr + 32 ≤ _ at apart
    omega
  · refine @Running.user places slot heap sys running (exoWrite op duty.aliasPtr duty.valuePtr)
      [.queued slot] (wellTyped_queue (by decide) (by rintro ⟨⟩))
      (running.ready.of_writes isDuty length outside) (duty_slot isDuty).1 ?_
      (fun i other => if_neg fun same => other same.symm) (by simp) ?_
    · intro i found text other isFound isOther isOld isValue
      obtain ⟨-, rfl⟩ | ⟨-, -, otherSize, -⟩ := duty_type isFound
      · cases isOther
      · have short := duty_length isFound isValue
        exact running.ready.text_kept isDuty isFound other isOld (by omega) outside
    · refine fun _ => ⟨duty, isDuty, ⟨isWrite.symm, rfl, rfl, valueMax.symm,
        fun _ => ⟨_, isText, value⟩⟩, fun request datagram member => ?_⟩
      have none : exchanged slot ([Event.queued slot] ++ sys.log) = [] := if_pos rfl
      rw [none] at member
      cases member

theorem Running.subscribe (running : Running places sys) :
    ∃ after, call sys (.subscribe 1 places.command places.readStr 32) = .ok after ∧
      Running places after := by
  obtain ⟨op, found, atSlot⟩ := @opAt_returns sys 1 (by rw [running.count]; decide)
  refine ⟨_, by rw [call, found, Exec.ok_bind]; rfl, ?_⟩
  refine @Running.user places 1 sys.heap sys running (exoSubscribe op places.command places.readStr 32)
    [.queued 1] (wellTyped_queue (by decide) (by rintro ⟨⟩)) running.ready (Nat.le_refl 1)
    (fun _ _ _ _ _ _ isText _ => isText) (fun i other => if_neg fun same => other same.symm)
    (by simp) ?_
  refine fun _ => ⟨places.commandDuty, rfl, ⟨rfl, rfl, rfl, rfl, by rintro ⟨⟩⟩,
    fun request datagram member => ?_⟩
  have none : exchanged 1 ([Event.queued 1] ++ sys.log) = [] := if_pos rfl
  rw [none] at member
  cases member

theorem Running.opDone (running : Running places sys) (later : 1 ≤ slot) (inRange : slot < opCount) :
    ∃ after, call sys (.opDone slot) = .ok after ∧ Running places after := by
  obtain ⟨op, found, atSlot⟩ := @opAt_returns sys slot (by rw [running.count]; exact inRange)
  refine ⟨_, by rw [call, found, Exec.ok_bind]; rfl, ?_⟩
  refine @Running.user places slot sys.heap sys running (exoOpDone op) [.released slot op]
    (wellTyped_exoOpDone slot op) running.ready later (fun _ _ _ _ _ _ isText _ => isText)
    (fun _ _ => rfl) (by simp) ?_
  unfold exoOpDone
  split_ifs with type
  · intro some
    obtain ⟨duty, isDuty, served⟩ := running.later slot op later atSlot some
    obtain ⟨isType, aliasPtr, valuePtr, valueMax, value⟩ := served.fills
    exact ⟨duty, isDuty, ⟨isType, aliasPtr, valuePtr, valueMax, value⟩, served.asks⟩
  · exact fun some => absurd rfl some

end Calls

end ExositeCoap.Example
