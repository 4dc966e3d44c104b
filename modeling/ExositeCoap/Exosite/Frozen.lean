import ExositeCoap.Exosite.Room

/-!
# Finished ops

The library changes the fields of ops that wait for something, and the memory of the
user through ops that wait for a datagram.  So an op that has finished keeps all its
fields until the user takes it up again, whatever happens in the other slots.  It keeps
its value as well, unless a datagram without payload strays to it: the zero for another
op, whose pointer leads into the buffer although it has none itself.
-/

namespace ExositeCoap.Exosite

open Lib Wire Coap

section Steps

variable {sys after : Sys} {slot address : Nat} {op next : ExoOp}

/-- The library does not move or enlarge value buffers. -/
theorem OpChange.inValue (change : OpChange slot op next) (inside : InValue next address) :
    InValue op address := by
  cases change with
  | released => exact absurd rfl inside.1
  | activated => exact absurd rfl inside.1
  | _ => exact inside

/-- A finished op is not written to. -/
theorem CopiesInto.not_finished {rx : Received} (copies : CopiesInto rx op) :
    exoIsOpFinished op = false := by
  cases copies with
  | notification _ _ state => simp [exoIsOpFinished, state]
  | response _ state => simp [exoIsOpFinished, state]

theorem OpChange.not_finished (change : OpChange slot op next) (later : 1 ≤ slot) :
    exoIsOpFinished op = false := by
  cases change with
  | failed waits => rcases waits with state | state <;> simp [exoIsOpFinished, state]
  | resent waits => rcases waits with state | state <;> simp [exoIsOpFinished, state]
  | renewed waits => rcases waits with state | state <;> simp [exoIsOpFinished, state]
  | notified before => simp [exoIsOpFinished, before]
  | succeeded before => simp [exoIsOpFinished, before]
  | released before => simp [exoIsOpFinished, before]
  | activated first => omega
  | sent before => simp [exoIsOpFinished, before]
  | acked isState =>
      rcases isState with ⟨before, -⟩ | ⟨before, -⟩ <;> simp [exoIsOpFinished, before]
  | untyped before => simp [exoIsOpFinished, before]

/-- The address lies in no value buffer but perhaps that of the op in `slot`. -/
def Apart (sys : Sys) (slot address : Nat) : Prop :=
  ∀ i other, i ≠ slot → sys.ops[i]? = some other → ¬ InValue other address

/-- Another op is put in another slot. -/
theorem Apart.setOp (apart : Apart sys slot address) {i : Nat} {changed : ExoOp}
    (outside : i ≠ slot → ¬ InValue changed address) :
    Apart (sys.setOp i changed) slot address := by
  intro j other different atSlot
  obtain ⟨rfl, rfl⟩ | ⟨-, old⟩ := of_getElem?_setOp atSlot
  · exact outside different
  · exact apart j other different old

theorem LibStep.apart (step : LibStep sys after) (apart : Apart sys slot address) :
    Apart after slot address := by
  intro i other different atSlot inside
  obtain ⟨before, isBefore, rfl | change⟩ := step.op_origin atSlot
  · exact apart i other different isBefore inside
  · exact apart i before different isBefore (change.inValue inside)

theorem LibSteps.apart (steps : LibSteps sys after) (apart : Apart sys slot address) :
    Apart after slot address := by
  induction steps with
  | refl => exact apart
  | tail _ step ih => exact step.apart ih

theorem LibStep.frozen (step : LibStep sys after) (later : 1 ≤ slot)
    (atSlot : sys.ops[slot]? = some op) (finished : exoIsOpFinished op = true) :
    after.ops[slot]? = some op := by
  obtain ⟨next, isNext, rfl | change⟩ := step.op_change atSlot
  · exact isNext
  · rw [change.not_finished later] at finished
    cases finished

/-- Steps of the library keep a finished op. -/
theorem LibSteps.frozen (steps : LibSteps sys after) (later : 1 ≤ slot)
    (atSlot : sys.ops[slot]? = some op) (finished : exoIsOpFinished op = true) :
    after.ops[slot]? = some op := by
  induction steps with
  | refl => exact atSlot
  | tail _ step ih => exact step.frozen later ih finished

end Steps

/-! ## The value -/

/-- The datagram strays to a byte that is not zero. -/
def Arrival.Clears (arrival : Arrival) (address : Nat) : Prop :=
  arrival.Strays address ∧ arrival.before.heap[address]? ≠ some 0

section Values

variable {sys after : Sys} {slot address : Nat} {op : ExoOp}

/-- Only the buffers of the other ops are written to. -/
theorem Arrival.not_reaches {arrival : Arrival} (atSlot : arrival.before.ops[slot]? = some op)
    (finished : exoIsOpFinished op = true) (apart : Apart arrival.before slot address) :
    ¬ arrival.Reaches address := by
  rintro ⟨i, other, copies, inside⟩
  refine apart i other ?_ copies.atSlot inside
  rintro rfl
  rw [copies.atSlot] at atSlot
  cases atSlot
  rw [copies.copies.not_finished] at finished
  cases finished

/-- A byte that the datagram is not copied to stays exactly when it is not cleared. -/
theorem Arrival.keeps_iff {arrival : Arrival} {goOn : Bool}
    (ran : exoHandleDatagram arrival.rx arrival.before = .ok (goOn, after))
    (unreached : ¬ arrival.Reaches address) :
    after.heap[address]? = arrival.before.heap[address]? ↔ ¬ arrival.Clears address := by
  constructor
  · rintro same ⟨strays, byte⟩
    rw [← same, strays.zero ran] at byte
    exact byte rfl
  · intro clears
    obtain same | reaches | strays := Arrival.heap_cases ran
    · exact same
    · exact absurd reaches unreached
    · have byte := Classical.not_not.mp fun byte => clears ⟨strays, byte⟩
      rw [strays.zero ran, byte]

/-- Once zero, such a byte remains zero. -/
theorem exoProcessWaitingDatagrams_zero {datagrams : List Received}
    (ran : exoProcessWaitingDatagrams sys datagrams = .ok after)
    (unreached : ∀ arrival ∈ waitingArrivals sys datagrams, ¬ arrival.Reaches address)
    (byte : sys.heap[address]? = some 0) : after.heap[address]? = some 0 := by
  refine @exoProcessWaitingDatagrams_rule _ _ _ (fun state => state.heap[address]? = some 0) ran
    byte ?_
  intro arrival goOn next member handled zero
  obtain same | reaches | strays := @Arrival.heap_cases _ _ _ address handled
  · exact same.trans zero
  · exact absurd reaches (unreached arrival member)
  · exact strays.zero handled

theorem exoProcessWaitingDatagrams_keeps_iff {datagrams : List Received}
    (ran : exoProcessWaitingDatagrams sys datagrams = .ok after)
    (unreached : ∀ arrival ∈ waitingArrivals sys datagrams, ¬ arrival.Reaches address) :
    after.heap[address]? = sys.heap[address]? ↔
      ∀ arrival ∈ waitingArrivals sys datagrams, ¬ arrival.Clears address := by
  induction datagrams generalizing sys with
  | nil =>
      cases ran
      exact iff_of_true rfl (List.forall_mem_nil _)
  | cons rx rest ih =>
      obtain ⟨⟨goOn, next⟩, handled, ran⟩ := Exec.bind_eq_ok.mp ran
      have first := @Arrival.keeps_iff next address ⟨sys, rx⟩ goOn handled
        (unreached _ List.mem_cons_self)
      rw [waitingArrivals, handled] at unreached ⊢
      cases goOn with
      | false =>
          cases ran
          simpa using first
      | true =>
          have later := fun arrival member => unreached arrival (List.mem_cons_of_mem _ member)
          have remaining := ih ran later
          rw [List.forall_mem_cons, ← first, ← remaining]
          constructor
          · intro same
            by_contra differs
            -- the first datagram has made it zero, and zero it has remained
            obtain unchanged | reaches | strays := @Arrival.heap_cases ⟨sys, rx⟩ _ _ address handled
            · exact differs ⟨unchanged, same.trans unchanged.symm⟩
            · exact unreached _ List.mem_cons_self reaches
            · have zero := strays.zero handled
              have still := exoProcessWaitingDatagrams_zero ran later zero
              have byte : next.heap[address]? = sys.heap[address]? :=
                zero.trans (still.symm.trans same)
              exact differs ⟨byte, still.trans zero.symm⟩
          · rintro ⟨byte, rest⟩
            exact rest.trans byte

theorem exoOperate_keeps_iff {env : OperateEnv} {state : ExoState}
    (ran : exoOperate env sys = .ok (state, after)) (later : 1 ≤ slot)
    (atSlot : sys.ops[slot]? = some op) (finished : exoIsOpFinished op = true)
    (apart : Apart sys slot address) :
    after.heap[address]? = sys.heap[address]? ↔
      ∀ arrival ∈ Operation.arrivals ⟨sys, env⟩, ¬ arrival.Clears address := by
  have unreached : ∀ arrival ∈ Operation.arrivals ⟨sys, env⟩, ¬ arrival.Reaches address := by
    intro arrival member
    have steps := (Operation.arrivals_reached member).2.libSteps
    exact Arrival.not_reaches (steps.frozen later atSlot finished) finished (steps.apart apart)
  obtain ⟨off, rfl⟩ | ⟨on, ready, received, isReady, waiting, active⟩ := exoOperate_parts ran
  · rw [Operation.arrivals, if_pos off]
    exact iff_of_true rfl (List.forall_mem_nil _)
  · have handled : Operation.arrivals ⟨sys, env⟩ = waitingArrivals ready env.datagrams := by
      rw [Operation.arrivals, if_neg on, isReady]
    rw [handled] at unreached ⊢
    rw [exoActiveLoop_heap active, ← exoReady_heap isReady]
    exact exoProcessWaitingDatagrams_keeps_iff waiting unreached

end Values

/-! ## Runs -/

namespace UserCall

/-- The call is not about the op in `slot`. -/
def Elsewhere (slot : Nat) : UserCall → Prop
  | .write i _ _ | .read i _ _ _ | .subscribe i _ _ _ | .opInit i | .opDone i => i ≠ slot
  | .init _ _ _ _ | .memory _ | .operate _ => True

/-- The user neither changes the byte at `address`, which is as in `start`, nor makes
it part of a value buffer. -/
def Spares (address : Nat) (start : Mem) : UserCall → Prop
  | .read _ _ valuePtr valueMax | .subscribe _ _ valuePtr valueMax =>
    valuePtr ≠ 0 → valuePtr ≤ address → valuePtr + valueMax ≤ address
  | .memory heap => heap[address]? = start[address]?
  | .init _ _ _ _ | .write _ _ _ | .opInit _ | .opDone _ | .operate _ => True

end UserCall

/-- The op in `slot` and its value are the same after every call. -/
structure StaysFrozen (start : Sys) (calls : List UserCall) (slot : Nat) (op : ExoOp) : Prop where
  fields : ∀ front back after, calls = front ++ back → run start front = .ok after →
    after.ops[slot]? = some op
  value : ∀ front back after, calls = front ++ back → run start front = .ok after →
    ∀ address, InValue op address → after.heap[address]? = start.heap[address]?

section Runs

variable {sys after : Sys} {slot address : Nat} {op : ExoOp}

/-- A buffer that the user names in a call that spares the address. -/
theorem not_inValue_queue {type : ExoRequestType} {aliasPtr valuePtr valueMax : Nat}
    (spares : valuePtr ≠ 0 → valuePtr ≤ address → valuePtr + valueMax ≤ address) :
    ¬ InValue (op.queue type aliasPtr valuePtr valueMax) address := by
  rintro ⟨place, lower, upper⟩
  exact absurd (spares place lower) (Nat.not_le.mpr upper)

theorem inValue_exoOpDone (inside : InValue (exoOpDone op) address) : InValue op address := by
  unfold exoOpDone at inside
  split_ifs at inside
  · exact inside
  · exact absurd rfl inside.1

/-- The user changes another op, without making the address part of its buffer. -/
theorem setOp_elsewhere {i : Nat} {other changed : ExoOp} (isOther : sys.ops[i]? = some other)
    (elsewhere : i ≠ slot) (atSlot : sys.ops[slot]? = some op) :
    (sys.setOp i changed).ops[slot]? = some op ∧
      ∀ address, (¬ InValue other address → ¬ InValue changed address) →
        Apart sys slot address → Apart (sys.setOp i changed) slot address := by
  refine ⟨?_, fun address outside apart => apart.setOp fun _ => ?_⟩
  · rw [getElem?_setOp atSlot, if_neg elsewhere]
  · exact outside (apart i other elsewhere isOther)

/-- A call about another op keeps the op. What it does to a byte outside the buffers of
the others is what the datagrams do that it handles. -/
theorem call_frozen {action : UserCall} {start : Mem} (ran : call sys action = .ok after)
    (later : 1 ≤ slot) (atSlot : sys.ops[slot]? = some op)
    (finished : exoIsOpFinished op = true) (elsewhere : action.Elsewhere slot) :
    after.ops[slot]? = some op ∧ ∀ address, Apart sys slot address →
      action.Spares address start → sys.heap[address]? = start[address]? →
        Apart after slot address ∧ (after.heap[address]? = start[address]? ↔
          ∀ arrival ∈ (action.operation sys).flatMap Operation.arrivals,
            ¬ arrival.Clears address) := by
  cases action with
  | init env vendor model serial =>
      cases ran
      obtain ⟨ops, heap⟩ := exoInit_frame env vendor model serial sys
      unfold Apart
      rw [ops, heap]
      exact ⟨atSlot, fun address apart _ same => ⟨apart, iff_of_true same nofun⟩⟩
  | write i aliasPtr valuePtr =>
      obtain ⟨other, found, ran⟩ := Exec.bind_eq_ok.mp ran
      cases ran
      obtain ⟨isOp, stillApart⟩ := setOp_elsewhere (opAt_eq_ok found) elsewhere atSlot
      exact ⟨isOp, fun address apart _ same =>
        ⟨stillApart address (fun _ => not_inValue_queue fun _ => id) apart,
          iff_of_true same nofun⟩⟩
  | read i aliasPtr valuePtr valueMax =>
      obtain ⟨other, found, ran⟩ := Exec.bind_eq_ok.mp ran
      cases ran
      obtain ⟨isOp, stillApart⟩ := setOp_elsewhere (opAt_eq_ok found) elsewhere atSlot
      exact ⟨isOp, fun address apart spares same =>
        ⟨stillApart address (fun _ => not_inValue_queue spares) apart,
          iff_of_true same nofun⟩⟩
  | subscribe i aliasPtr valuePtr valueMax =>
      obtain ⟨other, found, ran⟩ := Exec.bind_eq_ok.mp ran
      cases ran
      obtain ⟨isOp, stillApart⟩ := setOp_elsewhere (opAt_eq_ok found) elsewhere atSlot
      exact ⟨isOp, fun address apart spares same =>
        ⟨stillApart address (fun _ => not_inValue_queue spares) apart,
          iff_of_true same nofun⟩⟩
  | opInit i =>
      obtain ⟨other, found, ran⟩ := Exec.bind_eq_ok.mp ran
      cases ran
      obtain ⟨isOp, stillApart⟩ := setOp_elsewhere (opAt_eq_ok found) elsewhere atSlot
      exact ⟨isOp, fun address apart _ same =>
        ⟨stillApart address (fun _ inside => inside.1 rfl) apart,
          iff_of_true same nofun⟩⟩
  | opDone i =>
      obtain ⟨other, found, ran⟩ := Exec.bind_eq_ok.mp ran
      cases ran
      obtain ⟨isOp, stillApart⟩ := setOp_elsewhere (opAt_eq_ok found) elsewhere atSlot
      exact ⟨isOp, fun address apart _ same =>
        ⟨stillApart address (fun outside inside => outside (inValue_exoOpDone inside)) apart,
          iff_of_true same nofun⟩⟩
  | memory heap =>
      cases ran
      exact ⟨atSlot, fun address apart spares _ => ⟨apart, iff_of_true spares nofun⟩⟩
  | operate env =>
      obtain ⟨⟨state, next⟩, operated, ran⟩ := Exec.bind_eq_ok.mp ran
      cases ran
      have steps := (exoOperate_steps operated).1
      refine ⟨steps.frozen later atSlot finished, fun address apart _ same => ?_⟩
      have keeps := exoOperate_keeps_iff operated later atSlot finished apart
      rw [← same]
      simpa [UserCall.operation] using ⟨steps.apart apart, keeps⟩

theorem run_fields_frozen {calls : List UserCall} (ran : run sys calls = .ok after)
    (later : 1 ≤ slot) (atSlot : sys.ops[slot]? = some op)
    (finished : exoIsOpFinished op = true)
    (elsewhere : ∀ action ∈ calls, action.Elsewhere slot) : after.ops[slot]? = some op := by
  induction calls generalizing sys with
  | nil =>
      cases ran
      exact atSlot
  | cons action rest ih =>
      obtain ⟨next, called, ran⟩ := Exec.bind_eq_ok.mp ran
      have kept := (@call_frozen _ _ _ _ _ [] called later atSlot finished
        (elsewhere action List.mem_cons_self)).1
      exact ih ran kept fun other member => elsewhere other (List.mem_cons_of_mem _ member)

/-- A byte outside the buffers of the others stays throughout a run exactly when no
datagram clears it. The byte is compared with that at the start of the whole run. -/
theorem run_byte_iff {calls : List UserCall} {start : Mem} (ran : run sys calls = .ok after)
    (later : 1 ≤ slot) (atSlot : sys.ops[slot]? = some op)
    (finished : exoIsOpFinished op = true)
    (elsewhere : ∀ action ∈ calls, action.Elsewhere slot) (apart : Apart sys slot address)
    (spares : ∀ action ∈ calls, action.Spares address start)
    (same : sys.heap[address]? = start[address]?) :
    (∀ front back mid, calls = front ++ back → run sys front = .ok mid →
      mid.heap[address]? = start[address]?) ↔
    ∀ arrival ∈ arrivals sys calls, ¬ arrival.Clears address := by
  induction calls generalizing sys with
  | nil =>
      refine iff_of_true (fun front back mid isSplit ranFront => ?_) nofun
      obtain ⟨rfl, rfl⟩ := List.append_eq_nil_iff.mp isSplit.symm
      cases ranFront
      exact same
  | cons action rest ih =>
      obtain ⟨next, called, ran⟩ := Exec.bind_eq_ok.mp ran
      obtain ⟨kept, memory⟩ := call_frozen called later atSlot finished
        (elsewhere action List.mem_cons_self)
      obtain ⟨stillApart, first⟩ := memory address apart (spares action List.mem_cons_self) same
      have remaining := ih ran kept
        (fun other member => elsewhere other (List.mem_cons_of_mem _ member)) stillApart
        fun other member => spares other (List.mem_cons_of_mem _ member)
      rw [arrivals_cons called, List.forall_mem_append, ← first]
      constructor
      · intro stays
        have byte := stays [action] rest next rfl (by rw [run, called]; rfl)
        refine ⟨byte, (remaining byte).mp fun front back mid isSplit ranFront => ?_⟩
        refine stays (action :: front) back mid (by rw [isSplit]; rfl) ?_
        rw [run, called]
        exact ranFront
      · rintro ⟨byte, clears⟩ front back mid isSplit ranFront
        cases front with
        | nil =>
            cases ranFront
            exact same
        | cons other front =>
            obtain ⟨rfl, isRest⟩ := List.cons_eq_cons.mp isSplit
            rw [run, called] at ranFront
            exact (remaining byte).mpr clears front back mid isRest ranFront

/-- A finished op keeps all its fields and its value as long as the user makes no call
about it and leaves the value alone, exactly when no datagram clears a byte of the value, of
all that are handled by the calls that return. -/
theorem run_frozen_iff {calls : List UserCall} (later : 1 ≤ slot)
    (atSlot : sys.ops[slot]? = some op) (finished : exoIsOpFinished op = true)
    (elsewhere : ∀ action ∈ calls, action.Elsewhere slot)
    (apart : ∀ address, InValue op address → Apart sys slot address)
    (spares : ∀ action ∈ calls, ∀ address, InValue op address → action.Spares address sys.heap) :
    StaysFrozen sys calls slot op ↔
      ∀ front back after, calls = front ++ back → run sys front = .ok after →
        ∀ arrival ∈ arrivals sys front, ∀ address, InValue op address →
          ¬ arrival.Clears address := by
  have elsewhereFront : ∀ {front back : List UserCall}, calls = front ++ back →
      ∀ action ∈ front, action.Elsewhere slot := fun {front back} isSplit action member =>
    elsewhere action (isSplit ▸ List.mem_append_left back member)
  have bytes : ∀ {front back : List UserCall} {after : Sys}, calls = front ++ back →
      run sys front = .ok after → ∀ address, InValue op address → _ :=
    fun {front back after} isSplit ran address inside =>
      run_byte_iff ran later atSlot finished (elsewhereFront isSplit) (apart address inside)
        (fun action member => spares action (isSplit ▸ List.mem_append_left back member) address
          inside) rfl
  constructor
  · intro stays front back after isSplit ran arrival member address inside
    refine (bytes isSplit ran address inside).mp (fun first rest mid isFront ranFirst => ?_) arrival
      member
    exact stays.value first (rest ++ back) mid (by rw [isSplit, isFront, List.append_assoc])
      ranFirst address inside
  · intro clears
    refine ⟨fun front back after isSplit ran => ?_,
      fun front back after isSplit ran address inside => ?_⟩
    · exact run_fields_frozen ran later atSlot finished (elsewhereFront isSplit)
    · exact (bytes isSplit ran address inside).mpr
        (fun arrival member => clears front back after isSplit ran arrival member address inside)
        front [] after (List.append_nil front).symm ran

end Runs

/-- A read whose value has arrived at address 3. -/
def deliveredRead : ExoOp := { sentRead with valueMax := 5, state := .success }

/-- Another read, which is pending. -/
def otherRead (valuePtr valueMax : Nat) : ExoOp := { sentRead with mid := 9, valuePtr, valueMax }

/-- The user reads to address 3 and to another one, and the value of the first read
arrives. -/
def deliveredCalls (valuePtr valueMax : Nat) : List UserCall :=
  [quietInit, .read 1 1 3 5, .read 2 1 valuePtr valueMax, quietOperate [],
    quietOperate [[0x60, 0x45, 0, 8, 0xFF, 0x61, 0x62, 0x63]]]

theorem apart_otherRead {sys : Sys} {valuePtr valueMax : Nat}
    (ops : sys.ops = [sentActivation, deliveredRead, otherRead valuePtr valueMax])
    (behind : valueMax = 0 ∨ 8 ≤ valuePtr) {address : Nat}
    (inside : InValue deliveredRead address) : Apart sys 1 address := by
  have upper : address < 8 := inside.2.2
  rintro i other different isOther ⟨place, start, beyond⟩
  rw [ops] at isOther
  match i with
  | 0 =>
      cases isOther
      exact place rfl
  | 1 => exact different rfl
  | 2 =>
      cases isOther
      simp only [otherRead] at start beyond
      omega
  | i + 3 => cases isOther

/-- The other read has no buffer, and a pointer to the last byte of the value. It is
answered without a payload. -/
theorem not_staysFrozen_strayZero : ∃ sys,
    run (powerOn 3 quietHeap) (deliveredCalls 5 0) = .ok sys ∧
      sys.ops[1]? = some deliveredRead ∧ exoIsOpFinished deliveredRead = true ∧
      (∀ address, InValue deliveredRead address → Apart sys 1 address) ∧
        ¬ StaysFrozen sys [quietOperate [[0x60, 0x45, 0, 9]]] 1 deliveredRead := by
  have computed : (run (powerOn 3 quietHeap) (deliveredCalls 5 0) >>= fun sys =>
      (run sys [quietOperate [[0x60, 0x45, 0, 9]]]).map fun after =>
        (sys.ops, sys.heap[5]?, after.heap[5]?)) =
      .ok ([sentActivation, deliveredRead, otherRead 5 0], some 0x63, some 0) := by
    decide +kernel
  obtain ⟨sys, ran, computed⟩ := Exec.bind_eq_ok.mp computed
  obtain ⟨after, answered, values⟩ := Exec.map_eq_ok.mp computed
  simp only [Prod.mk.injEq] at values
  obtain ⟨ops, before, zero⟩ := values
  refine ⟨sys, ran, by rw [ops]; rfl, rfl, fun _ => apart_otherRead ops (Or.inl rfl), ?_⟩
  intro stays
  have same := stays.value _ [] after (List.append_nil _).symm answered 5 (by decide)
  rw [before, zero] at same
  cases same

/-- The other read has a buffer behind the value, and gets the value "b". -/
theorem run_frozen_iff_otherRead : ∃ sys after,
    run (powerOn 3 quietHeap) (deliveredCalls 8 5) = .ok sys ∧
      run sys [quietOperate [[0x60, 0x45, 0, 9, 0xFF, 0x62]]] = .ok after ∧
        StaysFrozen sys [quietOperate [[0x60, 0x45, 0, 9, 0xFF, 0x62]]] 1 deliveredRead := by
  have computed : (run (powerOn 3 quietHeap) (deliveredCalls 8 5) >>= fun sys =>
      (run sys [quietOperate [[0x60, 0x45, 0, 9, 0xFF, 0x62]]]).map fun _ =>
        (sys.ops, (arrivals sys [quietOperate [[0x60, 0x45, 0, 9, 0xFF, 0x62]]]).map
          fun arrival => coapGetPayload arrival.rx.pdu)) =
      .ok ([sentActivation, deliveredRead, otherRead 8 5], [.ok ⟨1, some 5⟩]) := by
    decide +kernel
  obtain ⟨sys, ran, computed⟩ := Exec.bind_eq_ok.mp computed
  obtain ⟨after, answered, values⟩ := Exec.map_eq_ok.mp computed
  simp only [Prod.mk.injEq] at values
  obtain ⟨ops, payloads⟩ := values
  refine ⟨sys, after, ran, answered, (run_frozen_iff (Nat.le_refl 1) (by rw [ops]; rfl)
    rfl (by simp [quietOperate, UserCall.Elsewhere])
    (fun _ => apart_otherRead ops (Or.inr (Nat.le_refl 8)))
    (by simp [quietOperate, UserCall.Spares])).mpr ?_⟩
  intro front back reached isSplit _ arrival member address _ clears
  obtain ⟨rfl, -⟩ | ⟨rfl, -⟩ := List.append_eq_singleton_iff.mp isSplit.symm
  · cases member
  have got := List.mem_map_of_mem (f := fun arrival => coapGetPayload arrival.rx.pdu) member
  rw [payloads] at got
  exact Arrival.not_strays (List.mem_singleton.mp got) (by decide) clears.1

end ExositeCoap.Exosite
