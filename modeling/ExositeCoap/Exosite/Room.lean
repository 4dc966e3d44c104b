import ExositeCoap.Exosite.Arrivals
import ExositeCoap.Exosite.Deliver

/-!
# Stores through the pointers of the user

`exo_process_waiting_datagrams` stores through `op[i].value` for a payload that the op
is to receive.  The stores stay within `value_max` bytes of a buffer unless there is no
payload: then a zero is written to the first byte, whatever the buffer is.
-/

namespace ExositeCoap.Exosite

open Lib Wire Coap

/-! ## The stores -/

/-- The stores through `op[i].value`, each with its index. -/
def valueWrites (pdu : CoapPdu) (op : ExoOp) (payload : CoapPayload) :
    Exec (List (Nat × List UInt8)) :=
  if payload.len = 0 then return [(0, [0])]
  else if (payload.len + 1) % 2 ^ 64 > op.valueMax ∨ op.valuePtr = 0 then return []
  else
    match payload.val with
    | none => throw .fault
    | some pos => do return [(0, ← pdu.mem.slice pos payload.len), (payload.len, [0])]

/-- The memory after some stores through `op[i].value`. -/
def ExoOp.storeAll (op : ExoOp) (heap : Mem) : List (Nat × List UInt8) → Exec Mem
  | [] => return heap
  | (index, bytes) :: rest => do
    op.storeAll (← userStore heap (op.valuePtr + index) bytes) rest

/-- The copy of a payload makes these stores and no others, whatever the memory is. -/
theorem storePayload_eq_storeAll (pdu : CoapPdu) (heap : Mem) (op : ExoOp) :
    storePayload pdu heap op = (do
      let payload ← coapGetPayload pdu
      let writes ← valueWrites pdu op payload
      let after ← op.storeAll heap writes
      return if payload.len = 0 then .empty after
        else if writes = [] then .rejected else .stored after) := by
  unfold storePayload
  refine congrArg _ (funext fun payload => ?_)
  unfold valueWrites
  split_ifs with none tooLong
  · simp only [Exec.pure_eq_ok, Exec.ok_bind, ExoOp.storeAll, Nat.add_zero, bind_assoc]
  · simp [ExoOp.storeAll]
  · cases payload.val with
    | none => rfl
    | some pos => simp [ExoOp.storeAll, bind_assoc]

/-- The stores for the payload of the packet make `after` of the memory. -/
def Stores (pdu : CoapPdu) (op : ExoOp) (heap after : Mem) : Prop :=
  ∃ payload writes, coapGetPayload pdu = .ok payload ∧ valueWrites pdu op payload = .ok writes ∧
    op.storeAll heap writes = .ok after

theorem storePayload_stores {pdu : CoapPdu} {heap after : Mem} {op : ExoOp}
    {result : StoreResult} (store : storePayload pdu heap op = .ok result)
    (isResult : result = .empty after ∨ result = .stored after) : Stores pdu op heap after := by
  rw [storePayload_eq_storeAll] at store
  obtain ⟨payload, got, store⟩ := Exec.bind_eq_ok.mp store
  obtain ⟨writes, isWrites, store⟩ := Exec.bind_eq_ok.mp store
  obtain ⟨final, stores, store⟩ := Exec.bind_eq_ok.mp store
  have same : final = after := by
    cases store
    split_ifs at isResult <;> simp at isResult
    · exact isResult
    · exact isResult
  rw [same] at stores
  exact ⟨payload, writes, got, isWrites, stores⟩

/-- A store stays in the buffer that the user gave. -/
def WriteInside (op : ExoOp) (write : Nat × List UInt8) : Prop :=
  op.valuePtr ≠ 0 ∧ write.1 + write.2.length ≤ op.valueMax

/-- Stores that stay inside change no byte outside. -/
theorem ExoOp.storeAll_getElem? {op : ExoOp} {heap after : Mem}
    {writes : List (Nat × List UInt8)} (stored : op.storeAll heap writes = .ok after)
    (inside : ∀ write ∈ writes, WriteInside op write) {address : Nat}
    (outside : ¬ (op.valuePtr ≤ address ∧ address < op.valuePtr + op.valueMax)) :
    after[address]? = heap[address]? := by
  induction writes generalizing heap with
  | nil =>
      cases stored
      rfl
  | cons write rest ih =>
      obtain ⟨middle, first, stored⟩ := Exec.bind_eq_ok.mp stored
      have bound := (inside write List.mem_cons_self).2
      rw [ih stored fun other member => inside other (List.mem_cons_of_mem _ member)]
      exact userStore_getElem? first (by omega)

/-- The stores stay inside unless an empty payload meets a buffer without any byte. -/
theorem valueWrites_inside_iff {rx : Received} {op : ExoOp} {payload : CoapPayload}
    (valid : coapValidatePkt rx.pdu = .ok .ceNone)
    (got : coapGetPayload rx.pdu = .ok payload) :
    (∀ writes, valueWrites rx.pdu op payload = .ok writes →
        ∀ write ∈ writes, WriteInside op write) ↔
      payload.len ≠ 0 ∨ (op.valuePtr ≠ 0 ∧ 1 ≤ op.valueMax) := by
  unfold valueWrites
  split_ifs with none tooLong
  · constructor
    · intro inside
      exact Or.inr (inside _ rfl _ List.mem_cons_self)
    · rintro (some | room) writes isWrites write member
      · exact absurd none some
      · cases isWrites
        rw [List.mem_singleton.mp member]
        exact room
  · simp [none]
  · refine iff_of_true ?_ (Or.inl none)
    intro writes isWrites
    rw [not_or, Nat.not_lt] at tooLong
    have small := (Received.gotPayload valid got).len_lt rx.fits rx.placed rx.bounded
    rw [Nat.mod_eq_of_lt small] at tooLong
    cases place : payload.val with
    | none =>
        rw [place] at isWrites
        cases isWrites
    | some pos =>
        rw [place] at isWrites
        obtain ⟨bytes, loaded, isWrites⟩ := Exec.bind_eq_ok.mp isWrites
        cases isWrites
        have size := Mem.slice_length loaded
        intro write member
        simp only [List.mem_cons, List.not_mem_nil, or_false] at member
        rcases member with rfl | rfl
        · exact ⟨tooLong.2, by simp only; omega⟩
        · exact ⟨tooLong.2, tooLong.1⟩

/-! ## Datagrams whose payload is copied -/

/-- The op takes the datagram, and its payload is to be copied: a notification with
content, or the answer to a read or a subscription. -/
inductive CopiesInto (rx : Received) (op : ExoOp) : Prop where
  | notification {kind : CoapType} (type : coapGetType rx.pdu = .ok kind)
      (isMessage : kind = .con ∨ kind = .non) (state : op.state = .subscribed)
      (token : coapGetToken rx.pdu = .ok op.token.toNat)
      (content : coapGetCode rx.pdu = .ok ccContent)
  | response (type : coapGetType rx.pdu = .ok .ack) (state : op.state = .pending)
      (mid : coapGetMid rx.pdu = .ok op.mid) (success : coapGetCodeClass rx.pdu = .ok 2)
      (asks : op.type = .read ∨ op.type = .subscribe)

section Match

variable {rx : Received} {sys after : Sys} {i : Nat} {op : ExoOp}

theorem exoNotified_heap (ran : exoNotified rx sys i op = .ok after)
    (other : coapGetCode rx.pdu ≠ .ok ccContent) : after.heap = sys.heap := by
  obtain ⟨code, isCode, ran⟩ := Exec.bind_eq_ok.mp ran
  have notContent : code ≠ ccContent := by
    rintro rfl
    exact other isCode
  rw [if_neg notContent] at ran
  obtain ⟨codeClass, -, ran⟩ := Exec.bind_eq_ok.mp ran
  split_ifs at ran <;> cases ran <;> rfl

theorem exoAnswered_heap {taken : Bool} (ran : exoAnswered rx sys i op = .ok (taken, after))
    (state : op.state = .pending) (other : ¬ (op.type = .read ∨ op.type = .subscribe)) :
    after.heap = sys.heap := by
  obtain ⟨-, reaction⟩ | ⟨-, -, rfl⟩ := exoAnswered_cases state ran
  · cases reaction with
    | emptied receives =>
        rcases receives with subscribed | ⟨-, asks⟩
        · simp [state] at subscribed
        · exact absurd asks other
    | notified subscribed => simp [state] at subscribed
    | delivered _ asks => exact absurd asks other
    | _ => rfl
  · rfl

theorem exoRefused_heap (ran : exoRefused rx sys i op = .ok after) :
    after.heap = sys.heap := by
  obtain ⟨code, -, ran⟩ := Exec.bind_eq_ok.mp ran
  split_ifs at ran
  · split at ran
    · cases ran
    · split_ifs at ran <;> cases ran <;> rfl
  · cases ran
    rfl
  · cases ran
    rfl

/-- Otherwise the memory stays as it is. -/
theorem exoMatchOp_heap (ran : exoMatchOp rx sys i op = .ok (true, after))
    (other : ¬ CopiesInto rx op) : after.heap = sys.heap := by
  obtain ⟨token, isToken, ran⟩ := Exec.bind_eq_ok.mp ran
  obtain ⟨mid, isMid, ran⟩ := Exec.bind_eq_ok.mp ran
  obtain ⟨kind, isKind, ran⟩ := Exec.bind_eq_ok.mp ran
  have notification : kind = .con ∨ kind = .non →
      (if op.state = .subscribed ∧ token = op.token.toNat then do
        return (true, ← exoNotified rx sys i op)
      else return (false, sys)) = Except.ok (true, after) → after.heap = sys.heap := by
    intro isMessage ran
    split_ifs at ran with taking
    · obtain ⟨result, notified, ran⟩ := Exec.bind_eq_ok.mp ran
      cases ran
      rw [taking.2] at isToken
      exact exoNotified_heap notified fun content =>
        other (.notification isKind isMessage taking.1 isToken content)
    · cases ran
  cases kind with
  | con => exact notification (Or.inl rfl) ran
  | non => exact notification (Or.inr rfl) ran
  | ack =>
      dsimp only at ran
      split_ifs at ran with taking
      · obtain ⟨codeClass, isClass, ran⟩ := Exec.bind_eq_ok.mp ran
        rw [← taking.2] at isMid
        split_ifs at ran with success
        · rw [success] at isClass
          exact exoAnswered_heap ran taking.1 fun asks =>
            other (.response isKind taking.1 isMid isClass asks)
        · obtain ⟨result, refused, ran⟩ := Exec.bind_eq_ok.mp ran
          cases ran
          exact exoRefused_heap refused
      · cases ran
  | rst =>
      dsimp only at ran
      split_ifs at ran
      · cases ran
        rfl
      · cases ran

/-- Without payload, a zero is stored. -/
theorem storePayload_of_empty {payload : CoapPayload} (got : coapGetPayload rx.pdu = .ok payload)
    (empty : payload.len = 0) {heap : Mem} :
    storePayload rx.pdu heap op = (do return .empty (← userStore heap op.valuePtr [0])) := by
  rw [storePayload, got, Exec.ok_bind, if_pos empty]

theorem exoMatchOp_empty (copies : CopiesInto rx op) {payload : CoapPayload}
    (got : coapGetPayload rx.pdu = .ok payload) (empty : payload.len = 0)
    (round : exoMatchOp rx sys i op = .ok (true, after)) :
    userStore sys.heap op.valuePtr [0] = .ok after.heap := by
  cases copies with
  | notification type isMessage _ _ content =>
      obtain ⟨-, -, ran⟩ := exoMatchOp_notified type isMessage round
      rw [exoNotified, content, Exec.ok_bind, if_pos rfl] at ran
      obtain ⟨seq, -, ran⟩ := Exec.bind_eq_ok.mp ran
      rw [storePayload_of_empty got empty, bind_assoc] at ran
      obtain ⟨heap, stored, ran⟩ := Exec.bind_eq_ok.mp ran
      cases ran
      exact stored
  | response type _ _ success asks =>
      have ran := exoMatchOp_answered type success round
      rcases asks with asks | asks
      all_goals
        rw [exoAnswered, asks] at ran
        dsimp only at ran
        rw [storePayload_of_empty got empty, bind_assoc] at ran
        obtain ⟨heap, stored, ran⟩ := Exec.bind_eq_ok.mp ran
        cases ran
        exact stored

theorem CopiesInto.takes (copies : CopiesInto rx op) : Takes rx op := by
  cases copies with
  | notification type isMessage state token => exact .notification type isMessage state token
  | response type state mid => exact .response type state mid

theorem CopiesInto.receives (copies : CopiesInto rx op) : Receives op := by
  cases copies with
  | notification _ _ state => exact Or.inl state
  | response _ state _ _ asks => exact Or.inr ⟨state, asks⟩

/-- The op does not leave the datagram to the others. -/
theorem CopiesInto.not_skips (copies : CopiesInto rx op) : ¬ Skips rx op := by
  intro skips
  obtain ⟨pending, untyped⟩ := skips copies.takes
  cases copies with
  | notification _ _ state => simp [state] at pending
  | response _ _ _ _ asks => simp [untyped] at asks

/-- Ops that skip the datagram do not get it. -/
theorem CopiesInto.passes (copies : CopiesInto rx op) {other : ExoOp} (skips : Skips rx other) :
    exoMatchOp rx sys i other ≠ .ok (true, after) := by
  intro round
  obtain ⟨takes, -⟩ := reaction_of_round round
  obtain ⟨pending, untyped⟩ := skips takes
  cases copies with
  | notification type isMessage =>
      have subscribed := ((takes_message type isMessage).mp takes).1
      simp [pending] at subscribed
  | response type _ _ success =>
      have ran := exoMatchOp_answered type success round
      rw [exoAnswered, untyped] at ran
      cases ran

end Match

/-- The payload of the datagram is to be copied into the buffer of the op in `slot`. -/
structure Arrival.Copies (arrival : Arrival) (slot : Nat) (op : ExoOp) : Prop where
  valid : coapValidatePkt arrival.rx.pdu = .ok .ceNone
  atSlot : arrival.before.ops[slot]? = some op
  first : ∀ j other, j < slot → arrival.before.ops[j]? = some other → Skips arrival.rx other
  copies : CopiesInto arrival.rx op

/-- The handling of a datagram changes the memory only by the stores for an op that the
payload is copied to. -/
theorem Arrival.heap_change {arrival : Arrival} {goOn : Bool} {after : Sys}
    (ran : exoHandleDatagram arrival.rx arrival.before = .ok (goOn, after)) :
    after.heap = arrival.before.heap ∨ ∃ slot op, arrival.Copies slot op ∧
      Stores arrival.rx.pdu op arrival.before.heap after.heap := by
  cases exoHandleDatagram_cases ran with
  | @taken events slot op result valid _ atSlot first round =>
      by_cases copies : CopiesInto arrival.rx op
      · obtain ⟨-, reaction⟩ := reaction_of_round round
        have isCopied : arrival.Copies slot op := ⟨valid, atSlot, first, copies⟩
        cases reaction with
        | emptied _ store =>
            exact Or.inr ⟨slot, op, isCopied, storePayload_stores store (Or.inl rfl)⟩
        | notified _ _ _ store =>
            exact Or.inr ⟨slot, op, isCopied, storePayload_stores store (Or.inr rfl)⟩
        | delivered _ _ store =>
            exact Or.inr ⟨slot, op, isCopied, storePayload_stores store (Or.inr rfl)⟩
        | _ => exact Or.inl rfl
      · have same := exoMatchOp_heap round copies
        exact Or.inl same
  | _ => exact Or.inl rfl

/-! ## Runs -/

/-- All stores for the datagram are inside the buffer of the op. -/
def Arrival.WritesInside (arrival : Arrival) : Prop :=
  ∀ slot op payload writes, arrival.Copies slot op →
    coapGetPayload arrival.rx.pdu = .ok payload →
    valueWrites arrival.rx.pdu op payload = .ok writes → ∀ write ∈ writes, WriteInside op write

/-- If the datagram is copied, it has a payload or the buffer has a byte. -/
def Arrival.HasRoom (arrival : Arrival) : Prop :=
  ∀ slot op payload, arrival.Copies slot op → coapGetPayload arrival.rx.pdu = .ok payload →
    payload.len ≠ 0 ∨ (op.valuePtr ≠ 0 ∧ 1 ≤ op.valueMax)

theorem Arrival.writesInside_iff (arrival : Arrival) :
    arrival.WritesInside ↔ arrival.HasRoom := by
  constructor
  · intro inside slot op payload copies got
    exact (valueWrites_inside_iff copies.valid got).mp fun writes =>
      inside slot op payload writes copies got
  · intro room slot op payload writes copies got
    exact (valueWrites_inside_iff copies.valid got).mpr (room slot op payload copies got) writes

/-- The address is in a buffer that the datagram is copied to. -/
def Arrival.Reaches (arrival : Arrival) (address : Nat) : Prop :=
  ∃ slot op, arrival.Copies slot op ∧ InValue op address

/-- The zero that is stored for an empty payload goes to `address`, which is not in the
buffer of the op. -/
def Arrival.Strays (arrival : Arrival) (address : Nat) : Prop :=
  ∃ slot op payload, arrival.Copies slot op ∧ coapGetPayload arrival.rx.pdu = .ok payload ∧
    payload.len = 0 ∧ op.valuePtr = address ∧ ¬ InValue op address

/-- Nothing strays that has a payload. -/
theorem Arrival.not_strays {arrival : Arrival} {payload : CoapPayload}
    (got : coapGetPayload arrival.rx.pdu = .ok payload) (some : payload.len ≠ 0) {address : Nat} :
    ¬ arrival.Strays address := by
  rintro ⟨slot, op, other, -, isOther, empty, -⟩
  rw [got] at isOther
  cases isOther
  exact some empty

theorem Arrival.HasRoom.not_strays {arrival : Arrival} (room : arrival.HasRoom) {address : Nat} :
    ¬ arrival.Strays address := by
  rintro ⟨slot, op, payload, copies, got, empty, rfl, outside⟩
  obtain some | ⟨place, size⟩ := room slot op payload copies got
  · exact some empty
  · exact outside ⟨place, Nat.le_refl _, by omega⟩

section Handled

variable {arrival : Arrival} {goOn : Bool} {after : Sys} {address : Nat}

/-- The byte at an address changes only if the datagram is copied there or strays. -/
theorem Arrival.heap_cases
    (ran : exoHandleDatagram arrival.rx arrival.before = .ok (goOn, after)) :
    after.heap[address]? = arrival.before.heap[address]? ∨ arrival.Reaches address ∨
      arrival.Strays address := by
  obtain same | ⟨slot, op, copies, payload, writes, got, isWrites, stores⟩ :=
    Arrival.heap_change ran
  · exact Or.inl (by rw [same])
  by_cases value : InValue op address
  · exact Or.inr (Or.inl ⟨slot, op, copies, value⟩)
  by_cases room : payload.len ≠ 0 ∨ (op.valuePtr ≠ 0 ∧ 1 ≤ op.valueMax)
  · have inside := (valueWrites_inside_iff copies.valid got).mpr room writes isWrites
    left
    cases writes with
    | nil => rw [← Except.ok.inj stores]
    | cons write rest =>
        have place := (inside write List.mem_cons_self).1
        exact ExoOp.storeAll_getElem? stores inside fun within => value ⟨place, within⟩
  · have empty : payload.len = 0 := by omega
    rw [valueWrites, if_pos empty] at isWrites
    cases isWrites
    obtain ⟨stored, first, stores⟩ := Exec.bind_eq_ok.mp stores
    rw [← Except.ok.inj stores]
    by_cases here : op.valuePtr = address
    · exact Or.inr (Or.inr ⟨slot, op, payload, copies, got, empty, here, value⟩)
    · exact Or.inl (userStore_getElem? first (by simp only [List.length_singleton]; omega))

/-- The op that a datagram is copied to gets it. -/
theorem Arrival.Copies.round {slot : Nat} {op : ExoOp} (copies : arrival.Copies slot op)
    (ran : exoHandleDatagram arrival.rx arrival.before = .ok (goOn, after)) :
    ∃ events result, exoMatchOp arrival.rx (arrival.before.logged events) slot op =
      .ok (true, result) ∧ after.heap = result.heap := by
  have member := List.mem_of_getElem? copies.atSlot
  have notSkipped := copies.copies.not_skips
  cases exoHandleDatagram_cases ran with
  | invalid isStatus failed =>
      rw [copies.valid] at isStatus
      cases isStatus
      exact absurd rfl failed
  | @taken events taker other result _ _ isOther first round =>
      rcases Nat.lt_trichotomy taker slot with before | rfl | behind
      · exact absurd round (copies.copies.passes (copies.first taker other before isOther))
      · rw [copies.atSlot] at isOther
        cases isOther
        exact ⟨events, result, round, rfl⟩
      · exact absurd (first slot op behind copies.atSlot) notSkipped
  | reset _ _ unmatched => exact absurd (unmatched op member) notSkipped
  | dropped _ _ unmatched => exact absurd (unmatched op member) notSkipped

/-- A byte that a datagram strays to is zero afterwards. -/
theorem Arrival.Strays.zero (strays : arrival.Strays address)
    (ran : exoHandleDatagram arrival.rx arrival.before = .ok (goOn, after)) :
    after.heap[address]? = some 0 := by
  obtain ⟨slot, op, payload, copies, got, empty, rfl, -⟩ := strays
  obtain ⟨events, result, round, same⟩ := copies.round ran
  have stored := exoMatchOp_empty copies.copies got empty round
  rw [userStore, if_neg (userStore_ne_null stored)] at stored
  rw [same, Mem.store_getElem? stored]
  simp

end Handled

theorem Arrival.HasRoom.reaches {arrival : Arrival} {goOn : Bool} {after : Sys} {address : Nat}
    (room : arrival.HasRoom)
    (ran : exoHandleDatagram arrival.rx arrival.before = .ok (goOn, after))
    (changed : after.heap[address]? ≠ arrival.before.heap[address]?) :
    arrival.Reaches address :=
  ((Arrival.heap_cases ran).resolve_left changed).resolve_right room.not_strays

section Memory

variable {sys after : Sys} {address : Nat}

theorem exoReady_heap {time : UInt64} (ran : exoReady time sys = .ok after) :
    after.heap = sys.heap := by
  obtain rfl | ⟨first, -, rfl⟩ := exoReady_cases ran
  · rfl
  · rfl

theorem SlotStep.heap {env : SlotEnv} {i : Nat} {op : ExoOp}
    (step : SlotStep env sys i op after) : after.heap = sys.heap := by
  cases step <;> rfl

theorem exoActiveLoop_heap {now : UInt64} {envs : Nat → SlotEnv} {left i : Nat}
    (ran : exoActiveLoop now envs sys left i = .ok after) : after.heap = sys.heap := by
  refine @exoActiveLoop_rule _ _ _ _ _ (fun _ state => state.heap = sys.heap) _ ran rfl ?_
  intro state next i op atSlot processed same
  exact (exoProcessOp_cases processed).heap.trans same

/-- A byte that the received datagrams change lies in one of the buffers. -/
theorem exoProcessWaitingDatagrams_heap {datagrams : List Received}
    (ran : exoProcessWaitingDatagrams sys datagrams = .ok after)
    (room : ∀ arrival ∈ waitingArrivals sys datagrams, arrival.HasRoom)
    (changed : after.heap[address]? ≠ sys.heap[address]?) :
    ∃ arrival ∈ waitingArrivals sys datagrams, arrival.Reaches address := by
  by_contra none
  refine changed (@exoProcessWaitingDatagrams_rule _ _ _
    (fun state => state.heap[address]? = sys.heap[address]?) ran rfl ?_)
  intro arrival goOn next member handled same
  by_contra differs
  rw [← same] at differs
  exact none ⟨arrival, member, (room arrival member).reaches handled differs⟩

end Memory

/-- What the library writes to the memory of the user in a sequence of calls. -/
structure RespectsBuffers (start : Sys) (calls : List UserCall) : Prop where
  /-- all stores, whether they succeed or not -/
  stores : ∀ arrival ∈ arrivals start calls, arrival.WritesInside
  /-- all bytes that have changed after a call of `exo_operate` -/
  memory : ∀ operation ∈ operations start calls, ∀ state after,
    exoOperate operation.env operation.before = .ok (state, after) →
    ∀ address : Nat, after.heap[address]? ≠ operation.before.heap[address]? →
      ∃ arrival ∈ operation.arrivals, arrival.Reaches address

/-- In a run the library stays within the buffers of the user exactly when each datagram
that is to be copied has a payload or meets a buffer with at least one byte. -/
theorem run_respectsBuffers_iff (count : Nat) (heap : Mem) (calls : List UserCall) :
    RespectsBuffers (powerOn count heap) calls ↔
      ∀ arrival ∈ arrivals (powerOn count heap) calls, arrival.HasRoom := by
  constructor
  · intro respects arrival member
    exact arrival.writesInside_iff.mp (respects.stores arrival member)
  · intro room
    refine ⟨fun arrival member => arrival.writesInside_iff.mpr (room arrival member), ?_⟩
    intro operation isOperation state after ran address changed
    obtain ⟨-, rfl⟩ | ⟨on, ready, received, isReady, waiting, active⟩ := exoOperate_parts ran
    · exact absurd rfl changed
    · have handled : operation.arrivals = waitingArrivals ready operation.env.datagrams := by
        rw [Operation.arrivals, if_neg on, isReady]
      rw [exoActiveLoop_heap active, ← exoReady_heap isReady] at changed
      rw [handled]
      refine exoProcessWaitingDatagrams_heap waiting (fun arrival member => ?_) changed
      exact room arrival (List.mem_flatMap.mpr ⟨operation, isOperation, handled ▸ member⟩)

/-- A read without buffer is answered with 2.05 and no payload: a zero is stored through
the null pointer. -/
theorem not_respectsBuffers_nullRead : ¬ RespectsBuffers (powerOn 2 quietHeap)
    [quietInit, .read 1 1 0 8, quietOperate [], quietOperate [[0x60, 0x45, 0, 8]]] := by
  have computed : (run (powerOn 2 quietHeap)
      [quietInit, .read 1 1 0 8, quietOperate []] >>= fun sys =>
      (exoReady 10 sys).map fun ready => (sys.deviceState, ready.ops)) =
      .ok (.initialized, [sentActivation, { sentRead with valuePtr := 0 }]) := by decide +kernel
  obtain ⟨sys, ran, isReady⟩ := Exec.bind_eq_ok.mp computed
  obtain ⟨ready, isReady, values⟩ := Exec.map_eq_ok.mp isReady
  simp only [Prod.mk.injEq] at values
  obtain ⟨on, ops⟩ := values
  intro respects
  have member := @mem_arrivals _ _ _ [] ⟨10, [arrives [0x60, 0x45, 0, 8]], 10,
    fun _ => ⟨quietBuffer [], 0x2211, true, 10, 0⟩⟩ _ _ _ ran (by rw [on]; decide) isReady rfl
  have inside := Arrival.writesInside_iff _ |>.mp (respects.stores _ member)
  have isAck : IsAck (arrives [0x60, 0x45, 0, 8]) := ⟨by decide +kernel, by decide +kernel⟩
  have mid : coapGetMid (arrives [0x60, 0x45, 0, 8]).pdu = .ok 8 := by decide +kernel
  have success : coapGetCodeClass (arrives [0x60, 0x45, 0, 8]).pdu = .ok 2 := by decide +kernel
  have none : coapGetPayload (arrives [0x60, 0x45, 0, 8]).pdu = .ok ⟨0, none⟩ := by
    decide +kernel
  have copies : Arrival.Copies ⟨ready, arrives [0x60, 0x45, 0, 8]⟩ 1
      { sentRead with valuePtr := 0 } := by
    refine ⟨isAck.valid, by rw [ops]; rfl, ?_, .response isAck.type rfl mid success (Or.inl rfl)⟩
    intro j other before isOther takes
    obtain rfl : j = 0 := by omega
    rw [ops] at isOther
    cases isOther
    have awaited := (isAck.takes_iff.mp takes).mid
    rw [mid] at awaited
    cases awaited
  exact absurd (inside 1 _ _ copies none) (by decide)

end ExositeCoap.Exosite
