import ExositeCoap.Coap.Behind
import ExositeCoap.Exosite.Room

/-!
# What an acknowledgement does

The handling of a response to a write, a read or a subscription in two parts: what it
makes of the op and of the buffer depends on the datagram and the op alone
(`ackOutcome`), and the outcome is then written to the system (`Outcome.apply`).
-/

namespace ExositeCoap.Exosite

open Lib Wire Coap

/-! ## The parts -/

/-- What is to be stored for a payload, without the terminating zero; nothing when the
payload is turned down. -/
def delivery (pdu : CoapPdu) (op : ExoOp) : Exec (Option (List UInt8)) := do
  let payload ← coapGetPayload pdu
  if payload.len = 0 then
    return some []
  else if (payload.len + 1) % 2 ^ 64 > op.valueMax ∨ op.valuePtr = 0 then
    return none
  else
    match payload.val with
    | none => throw .fault
    | some pos => do return some (← pdu.mem.slice pos payload.len)

/-- The op after its value has been stored. -/
def exoDelivered (rx : Received) (op : ExoOp) : Exec ExoOp := do
  if op.type = .subscribe then
    let timeout ← subscriptionTimeout rx
    let obsSeq ← observeSeq rx op.obsSeq
    return { op with state := .success, obsSeq, timeout }
  else
    return { op with state := .success }

/-- What a response does besides. -/
inductive Aside where
  | nothing
  /-- slot 0 is used for activation, if it is free -/
  | unauthorized
  /-- the CIK was accepted -/
  | notFound
  deriving DecidableEq, Repr

/-- What a response makes of the op that waits for it. -/
structure Outcome where
  op : ExoOp
  /-- what is stored in the buffer of the op -/
  text : Option (List UInt8)
  aside : Aside
  deriving DecidableEq, Repr

def ackOutcome (rx : Received) (op : ExoOp) : Exec Outcome := do
  if (← coapGetCodeClass rx.pdu) = 2 then
    if op.type = .write then
      return ⟨{ op with state := .success }, none, .nothing⟩
    else
      match ← delivery rx.pdu op with
      | none => return ⟨{ op with state := .error }, none, .nothing⟩
      | some [] => return ⟨op, some [], .nothing⟩
      | some bytes => return ⟨← exoDelivered rx op, some bytes, .nothing⟩
  else
    let code ← coapGetCode rx.pdu
    return ⟨{ op with state := .error }, none,
      if code = ccUnauthorized then .unauthorized
      else if code = ccNotFound then .notFound else .nothing⟩

/-- What becomes of slot 0. -/
def Aside.first (aside : Aside) (time : UInt64) (first : ExoOp) : ExoOp :=
  match aside with
  | .unauthorized =>
    if first.type = .null ∨ first.timeout < time then exoActivate first else first
  | _ => first

def Aside.device (aside : Aside) (state : ExoDeviceState) : ExoDeviceState :=
  match aside with
  | .notFound => .good
  | _ => state

/-- The memory after the outcome. -/
def Outcome.stores (outcome : Outcome) (heap : Mem) : Exec Mem :=
  match outcome.text with
  | none => .ok heap
  | some bytes => userStore heap outcome.op.valuePtr (bytes ++ [0])

/-- The system after the outcome. -/
def Outcome.apply (outcome : Outcome) (time : UInt64) (slot : Nat) (sys : Sys) (heap : Mem) : Sys :=
  { sys with
    heap
    ops := (sys.ops.set slot outcome.op).modify 0 (outcome.aside.first time)
    deviceState := outcome.aside.device sys.deviceState }

/-! ## The parts make up the handling -/

theorem storePayload_eq_delivery (pdu : CoapPdu) (heap : Mem) (op : ExoOp) :
    storePayload pdu heap op = (do
      match ← delivery pdu op with
      | none => return .rejected
      | some bytes =>
        let after ← userStore heap op.valuePtr (bytes ++ [0])
        return if bytes = [] then .empty after else .stored after) := by
  unfold storePayload delivery
  rw [bind_assoc]
  refine congrArg _ (funext fun payload => ?_)
  split_ifs with none tooLong
  · rfl
  · rfl
  · cases payload.val with
    | none => rfl
    | some pos =>
        dsimp only
        cases loaded : pdu.mem.slice pos payload.len with
        | error trap => rfl
        | ok bytes =>
            have size := Mem.slice_length loaded
            have nonempty : bytes ≠ [] := by
              rintro rfl
              exact none size.symm
            have place : op.valuePtr ≠ 0 := fun null => tooLong (Or.inr null)
            have behind : op.valuePtr + bytes.length ≠ 0 := by omega
            simp only [Exec.ok_bind, Exec.pure_eq_ok, userStore, place, behind, if_false,
              nonempty, ← size]
            rw [← Mem.store_bind_store, bind_assoc]

section Handled

variable {rx : Received} {sys after : Sys} {slot : Nat} {op : ExoOp}

/-- The requests from slot 1 on. -/
def IsRequest (op : ExoOp) : Prop := op.type = .write ∨ op.type = .read ∨ op.type = .subscribe

theorem setOp_eq_apply (sys : Sys) (slot : Nat) (op : ExoOp) (text : Option (List UInt8))
    (time : UInt64) (heap : Mem) :
    { sys with heap }.setOp slot op = Outcome.apply ⟨op, text, .nothing⟩ time slot sys heap := by
  have same : Aside.nothing.first time = id := rfl
  rw [Outcome.apply, same, List.modify_id]
  rfl

theorem exoRefused_eq (inRange : slot < sys.ops.length) {code : UInt8}
    (isCode : coapGetCode rx.pdu = .ok code) :
    exoRefused rx sys slot op = .ok (Outcome.apply ⟨{ op with state := .error }, none,
      if code = ccUnauthorized then .unauthorized
      else if code = ccNotFound then .notFound else .nothing⟩ rx.time slot sys sys.heap) := by
  have size : 0 < (sys.ops.set slot { op with state := .error }).length := by
    rw [List.length_set]
    omega
  simp only [exoRefused, isCode, Exec.ok_bind, Outcome.apply, Sys.setOp]
  generalize sys.ops.set slot { op with state := .error } = ops at size
  obtain ⟨first, rest, rfl⟩ := List.exists_cons_of_length_pos size
  simp only [List.getElem?_cons_zero, List.modify_zero_cons, List.set_cons_zero]
  split_ifs with unauthorized free notFound
  · simp [Aside.first, Aside.device, free]
  · simp [Aside.first, Aside.device, free]
  · rfl
  · rfl

/-- The answers to a read and to a subscription differ in the op only. -/
theorem exoAnswered_eq (asks : op.type = .read ∨ op.type = .subscribe) :
    exoAnswered rx sys slot op = (do
      match ← storePayload rx.pdu sys.heap op with
      | .empty heap => return (true, { sys with heap })
      | .rejected => return (true, sys.setOp slot { op with state := .error })
      | .stored heap => return (true, { sys with heap }.setOp slot (← exoDelivered rx op))) := by
  cases stored : storePayload rx.pdu sys.heap op with
  | error trap => rcases asks with type | type <;> simp [exoAnswered, type, stored]
  | ok result =>
      rcases asks with type | type
      · cases result <;> simp [exoAnswered, exoDelivered, type, stored]
      · cases result <;> simp [exoAnswered, exoDelivered, type, stored]

/-- A delivered op has only changed its state, its timeout and its sequence number. -/
theorem exoDelivered_cases {next : ExoOp} (ran : exoDelivered rx op = .ok next) :
    ∃ obsSeq timeout, next = { op with state := .success, obsSeq, timeout } := by
  unfold exoDelivered at ran
  split_ifs at ran
  · obtain ⟨timeout, -, ran⟩ := Exec.bind_eq_ok.mp ran
    obtain ⟨obsSeq, -, ran⟩ := Exec.bind_eq_ok.mp ran
    cases ran
    exact ⟨obsSeq, timeout, rfl⟩
  · cases ran
    exact ⟨op.obsSeq, op.timeout, rfl⟩

/-- First the stores, then the change of the op: both have to return. -/
theorem stored_iff {next : Exec ExoOp} {bytes : List UInt8} {taken : Bool} {time : UInt64}
    (place : ∀ changed, next = .ok changed → changed.valuePtr = op.valuePtr) :
    (do
      let heap ← userStore sys.heap op.valuePtr (bytes ++ [0])
      let changed ← next
      return (true, { sys with heap }.setOp slot changed)) = Except.ok (taken, after) ↔
    taken = true ∧ ∃ outcome heap,
      (do return (⟨← next, some bytes, .nothing⟩ : Outcome)) = Except.ok outcome ∧
        outcome.stores sys.heap = .ok heap ∧ after = outcome.apply time slot sys heap := by
  constructor
  · intro ran
    obtain ⟨heap, stored, ran⟩ := Exec.bind_eq_ok.mp ran
    obtain ⟨changed, isChanged, ran⟩ := Exec.bind_eq_ok.mp ran
    cases ran
    refine ⟨rfl, ⟨changed, some bytes, .nothing⟩, heap, ?_, ?_, setOp_eq_apply _ _ _ _ _ _⟩
    · rw [isChanged]
      rfl
    · rw [Outcome.stores, place changed isChanged]
      exact stored
  · rintro ⟨rfl, outcome, heap, isOutcome, stored, rfl⟩
    obtain ⟨changed, isChanged, isOutcome⟩ := Exec.bind_eq_ok.mp isOutcome
    cases isOutcome
    rw [Outcome.stores, place changed isChanged] at stored
    dsimp only at stored
    rw [stored, isChanged, ← setOp_eq_apply]
    rfl

theorem exoAnswered_iff (isRequest : IsRequest op) (atSlot : sys.ops[slot]? = some op)
    (success : coapGetCodeClass rx.pdu = .ok 2) {taken : Bool} :
    exoAnswered rx sys slot op = .ok (taken, after) ↔ taken = true ∧
      ∃ outcome heap, ackOutcome rx op = .ok outcome ∧ outcome.stores sys.heap = .ok heap ∧
        after = outcome.apply rx.time slot sys heap := by
  have unchanged : ∀ heap, { sys with heap }.setOp slot op = ({ sys with heap } : Sys) := by
    intro heap
    obtain ⟨inRange, isOp⟩ := List.getElem?_eq_some_iff.mp atSlot
    rw [Sys.setOp, ← isOp, List.set_getElem_self]
  simp only [ackOutcome, success, Exec.ok_bind, if_true]
  by_cases isWrite : op.type = .write
  · have answered : exoAnswered rx sys slot op =
        .ok (true, sys.setOp slot { op with state := .success }) := by
      simp only [exoAnswered, isWrite, Exec.pure_eq_ok]
    rw [if_pos isWrite, answered]
    simp [Outcome.stores, ← setOp_eq_apply, eq_comm]
  · rw [if_neg isWrite, exoAnswered_eq (isRequest.resolve_left isWrite),
      storePayload_eq_delivery]
    cases delivery rx.pdu op with
    | error trap => simp
    | ok text =>
        cases text with
        | none => simp [Outcome.stores, ← setOp_eq_apply, eq_comm]
        | some bytes =>
            cases bytes with
            | nil =>
                have same := @stored_iff sys after slot op (.ok op) [] taken rx.time
                  (by rintro changed ⟨⟩; rfl)
                simp only [Exec.ok_bind, unchanged, bind_assoc, if_true, Exec.pure_eq_ok] at same ⊢
                exact same
            | cons byte rest =>
                have same := @stored_iff sys after slot op (exoDelivered rx op) (byte :: rest)
                  taken rx.time (by
                    intro changed delivered
                    obtain ⟨obsSeq, timeout, rfl⟩ := exoDelivered_cases delivered
                    rfl)
                simp only [Exec.ok_bind, bind_assoc, if_false, reduceCtorEq,
                  Exec.pure_eq_ok] at same ⊢
                exact same

theorem ackOutcome_refused {code : UInt8} (isCode : coapGetCode rx.pdu = .ok code)
    (failed : code.toNat / 32 ≠ 2) :
    ackOutcome rx op = .ok ⟨{ op with state := .error }, none,
      if code = ccUnauthorized then .unauthorized
      else if code = ccNotFound then .notFound else .nothing⟩ := by
  simp only [ackOutcome, coapGetCodeClass, isCode, Exec.ok_bind, Exec.pure_eq_ok, failed, if_false]

/-- The response can be handled: it is no answer, or the request needs no payload, or the
payload can be taken. -/
inductive CanHandle (pdu : CoapPdu) (heap : Mem) (op : ExoOp) : Prop where
  | refusal (failed : coapGetCodeClass pdu ≠ .ok 2)
  | write (type : op.type = .write)
  | payload {payload : CoapPayload} (got : coapGetPayload pdu = .ok payload)
      (empty : payload.len = 0 → op.valuePtr ≠ 0 ∧ op.valuePtr < heap.length)
      (full : payload.len ≠ 0 → RoomFor op payload →
        Copyable pdu heap op payload ∧ (op.type = .subscribe → ReadsOptions pdu))

theorem exoAnswered_canHandle_iff (valid : coapValidatePkt rx.pdu = .ok .ceNone)
    (success : coapGetCodeClass rx.pdu = .ok 2) (isRequest : IsRequest op) :
    (exoAnswered rx sys slot op).Returns ↔ CanHandle rx.pdu sys.heap op := by
  by_cases type : op.type = .write
  · refine iff_of_true ?_ (.write type)
    simp only [exoAnswered, type]
    exact Exec.returns_ok _
  · rw [exoAnswered_returns_iff (isRequest.resolve_left type)]
    constructor
    · rintro ⟨⟨result, store⟩, options⟩
      obtain ⟨payload, got, -⟩ := Exec.bind_eq_ok.mp store
      obtain ⟨empty, copies⟩ := (storePayload_returns_iff valid got).mp ⟨result, store⟩
      refine .payload got empty fun present room => ⟨copies present room, fun subscribes => ?_⟩
      obtain ⟨heap, stored⟩ :=
        (storePayload_stored_iff valid got).mpr ⟨present, room, copies present room⟩
      exact options heap stored subscribes
    · intro handles
      cases handles with
      | refusal failed => exact absurd success failed
      | write other => exact absurd other type
      | payload got empty full =>
          refine ⟨(storePayload_returns_iff valid got).mpr
            ⟨empty, fun present room => (full present room).1⟩, fun heap stored => ?_⟩
          obtain ⟨present, room, -⟩ := (storePayload_stored_iff valid got).mp ⟨heap, stored⟩
          exact (full present room).2

/-- The outcome of an acknowledgement is there, and what it stores can be stored. -/
theorem ackOutcome_returns_iff (isAck : IsAck rx) (isRequest : IsRequest op) {heap : Mem} :
    (∃ outcome after, ackOutcome rx op = .ok outcome ∧ outcome.stores heap = .ok after) ↔
      CanHandle rx.pdu heap op := by
  obtain ⟨code, isCode⟩ := (readsHeader_of_valid isAck.valid).code
  by_cases success : coapGetCodeClass rx.pdu = .ok 2
  · obtain ⟨sys, rfl, atSlot⟩ : ∃ sys : Sys, sys.heap = heap ∧ sys.ops[0]? = some op :=
      ⟨{ powerOn 0 heap with ops := [op] }, rfl, rfl⟩
    have answered := fun taken after =>
      @exoAnswered_iff rx sys after 0 op isRequest atSlot success taken
    rw [← @exoAnswered_canHandle_iff rx sys 0 op isAck.valid success isRequest]
    constructor
    · rintro ⟨outcome, after, isOutcome, stored⟩
      exact ⟨_, (answered true _).mpr ⟨rfl, outcome, after, isOutcome, stored, rfl⟩⟩
    · rintro ⟨⟨taken, after⟩, ran⟩
      obtain ⟨-, outcome, stored, isOutcome, stores, -⟩ := (answered taken after).mp ran
      exact ⟨outcome, stored, isOutcome, stores⟩
  · refine iff_of_true ⟨_, heap, ackOutcome_refused isCode ?_, rfl⟩ (.refusal success)
    rintro isTwo
    rw [coapGetCodeClass, isCode] at success
    exact success (congrArg Except.ok isTwo)

/-- Only the size of the memory counts. -/
theorem CanHandle.of_length {pdu : CoapPdu} {heap other : Mem} (handles : CanHandle pdu heap op)
    (same : other.length = heap.length) : CanHandle pdu other op := by
  cases handles with
  | refusal failed => exact .refusal failed
  | write type => exact .write type
  | payload got empty full =>
      rw [← same] at empty
      refine .payload got empty fun present room => ?_
      obtain ⟨⟨source, target⟩, options⟩ := full present room
      rw [← same] at target
      exact ⟨⟨source, target⟩, options⟩

theorem Outcome.stores_length {outcome : Outcome} {heap result : Mem}
    (stored : outcome.stores heap = .ok result) : result.length = heap.length := by
  unfold Outcome.stores at stored
  split at stored
  · cases stored
    rfl
  · rw [userStore, if_neg (userStore_ne_null stored)] at stored
    exact Mem.store_length stored

/-- The acknowledgements with a payload for the op. -/
theorem IsAck.copiesInto_iff (isAck : IsAck rx) : CopiesInto rx op ↔ AwaitedBy rx op ∧
    coapGetCodeClass rx.pdu = .ok 2 ∧ (op.type = .read ∨ op.type = .subscribe) := by
  constructor
  · intro copies
    cases copies with
    | notification type isMessage =>
        rw [isAck.type] at type
        cases type
        simp at isMessage
    | response _ state mid success asks => exact ⟨⟨state, mid⟩, success, asks⟩
  · exact fun ⟨awaited, success, asks⟩ =>
      .response isAck.type awaited.state awaited.mid success asks

/-! ### The search for the op -/

theorem exoMatchOp_awaited (isAck : IsAck rx) (awaited : AwaitedBy rx op)
    (isRequest : IsRequest op) (atSlot : sys.ops[slot]? = some op) {taken : Bool} :
    exoMatchOp rx sys slot op = .ok (taken, after) ↔ taken = true ∧
      ∃ outcome heap, ackOutcome rx op = .ok outcome ∧ outcome.stores sys.heap = .ok heap ∧
        after = outcome.apply rx.time slot sys heap := by
  have header := readsHeader_of_valid isAck.valid
  obtain ⟨token, isToken⟩ := header.token
  obtain ⟨code, isCode⟩ := header.code
  have isClass : coapGetCodeClass rx.pdu = .ok (code.toNat / 32) := by
    rw [coapGetCodeClass, isCode]
    rfl
  simp only [exoMatchOp, isToken, awaited.mid, isAck.type, Exec.ok_bind, awaited.state,
    and_self, if_true, isClass]
  by_cases success : code.toNat / 32 = 2
  · rw [if_pos success]
    rw [success] at isClass
    exact exoAnswered_iff isRequest atSlot isClass
  · have inRange := (List.getElem?_eq_some_iff.mp atSlot).1
    rw [if_neg success, exoRefused_eq inRange isCode, ackOutcome_refused isCode success]
    simp [Outcome.stores, eq_comm]

/-- An acknowledgement that no op waits for. -/
theorem exoHandleDatagram_unawaited (isAck : IsAck rx)
    (others : ∀ (k : Nat) other, sys.ops[k]? = some other → ¬ AwaitedBy rx other) :
    exoHandleDatagram rx sys = .ok (false, sys.record (.handled sys.ops rx.pdu)) := by
  have scan := @exoScan_pass rx sys 0 0 sys.ops.length (by omega) fun k other _ _ isOther =>
    exoMatchOp_unawaited isAck (others k other isOther)
  rw [Nat.add_zero] at scan
  rw [exoHandleDatagram, isAck.valid, Exec.ok_bind, if_neg (by simp), scan, exoScan,
    Exec.pure_eq_ok, Exec.ok_bind, isAck.type]
  rfl

/-- An acknowledgement that exactly one request waits for. -/
theorem exoHandleDatagram_awaited (isAck : IsAck rx) (awaited : AwaitedBy rx op)
    (isRequest : IsRequest op) (atSlot : sys.ops[slot]? = some op)
    (others : ∀ k other, k ≠ slot → sys.ops[k]? = some other → ¬ AwaitedBy rx other)
    {goOn : Bool} :
    exoHandleDatagram rx sys = .ok (goOn, after) ↔ goOn = true ∧
      ∃ outcome heap, ackOutcome rx op = .ok outcome ∧ outcome.stores sys.heap = .ok heap ∧
        after = (outcome.apply rx.time slot sys heap).record (.handled sys.ops rx.pdu) := by
  rw [exoHandleDatagram_round isAck.valid atSlot
    (fun k other before isOther => exoMatchOp_unawaited isAck (others k other (by omega) isOther))
    (fun _ _ round => ((exoMatchOp_awaited isAck awaited isRequest atSlot).mp round).1)]
  simp only [exoMatchOp_awaited isAck awaited isRequest atSlot, true_and]
  constructor
  · rintro ⟨rfl, result, ⟨outcome, heap, isOutcome, stored, rfl⟩, rfl⟩
    exact ⟨rfl, outcome, heap, isOutcome, stored, rfl⟩
  · rintro ⟨rfl, outcome, heap, isOutcome, stored, rfl⟩
    exact ⟨rfl, _, ⟨outcome, heap, isOutcome, stored, rfl⟩, rfl⟩

end Handled

/-! ## The outcomes -/

section Outcomes

variable {rx : Received} {op : ExoOp} {outcome : Outcome}

/-- The outcomes, one by one. -/
inductive AckOutcome (rx : Received) (op : ExoOp) : Outcome → Prop where
  | written (success : coapGetCodeClass rx.pdu = .ok 2) (type : op.type = .write) :
      AckOutcome rx op ⟨{ op with state := .success }, none, .nothing⟩
  | rejected (success : coapGetCodeClass rx.pdu = .ok 2) (type : op.type ≠ .write)
      (text : delivery rx.pdu op = .ok none) :
      AckOutcome rx op ⟨{ op with state := .error }, none, .nothing⟩
  | emptied (success : coapGetCodeClass rx.pdu = .ok 2) (type : op.type ≠ .write)
      (text : delivery rx.pdu op = .ok (some [])) : AckOutcome rx op ⟨op, some [], .nothing⟩
  | delivered {bytes : List UInt8} {next : ExoOp} (success : coapGetCodeClass rx.pdu = .ok 2)
      (type : op.type ≠ .write) (text : delivery rx.pdu op = .ok (some bytes))
      (nonempty : bytes ≠ []) (isNext : exoDelivered rx op = .ok next) :
      AckOutcome rx op ⟨next, some bytes, .nothing⟩
  | refused {code : UInt8} (isCode : coapGetCode rx.pdu = .ok code)
      (failed : coapGetCodeClass rx.pdu ≠ .ok 2) :
      AckOutcome rx op ⟨{ op with state := .error }, none,
        if code = ccUnauthorized then .unauthorized
        else if code = ccNotFound then .notFound else .nothing⟩

theorem ackOutcome_iff : ackOutcome rx op = .ok outcome ↔ AckOutcome rx op outcome := by
  constructor
  · intro ran
    obtain ⟨codeClass, isClass, ran⟩ := Exec.bind_eq_ok.mp ran
    split_ifs at ran with success isWrite
    · cases ran
      exact .written (success ▸ isClass) isWrite
    · obtain ⟨text, isText, ran⟩ := Exec.bind_eq_ok.mp ran
      cases text with
      | none =>
          cases ran
          exact .rejected (success ▸ isClass) isWrite isText
      | some bytes =>
          cases bytes with
          | nil =>
              cases ran
              exact .emptied (success ▸ isClass) isWrite isText
          | cons byte rest =>
              obtain ⟨next, isNext, ran⟩ := Exec.bind_eq_ok.mp ran
              cases ran
              exact .delivered (success ▸ isClass) isWrite isText nofun isNext
    · obtain ⟨code, isCode, ran⟩ := Exec.bind_eq_ok.mp ran
      cases ran
      refine .refused isCode ?_
      rw [isClass]
      exact fun same => success (Except.ok.inj same)
  · intro isOutcome
    cases isOutcome with
    | written success type => simp [ackOutcome, success, type]
    | rejected success type text => simp [ackOutcome, success, type, text]
    | emptied success type text => simp [ackOutcome, success, type, text]
    | @delivered bytes next success type text nonempty isNext =>
        obtain ⟨byte, rest, rfl⟩ := List.exists_cons_of_ne_nil nonempty
        simp [ackOutcome, success, type, text, isNext]
    | @refused code isCode failed =>
        refine ackOutcome_refused isCode fun success => failed ?_
        rw [coapGetCodeClass, isCode, ← success]
        rfl

/-- Nothing is stored but an empty text or the payload of the packet. -/
theorem delivery_genuine (valid : coapValidatePkt rx.pdu = .ok .ceNone) {bytes : List UInt8}
    (text : delivery rx.pdu op = .ok (some bytes)) :
    (bytes = [] ∧ ∃ payload, coapGetPayload rx.pdu = .ok payload ∧ payload.len = 0) ∨
      (Genuine rx.pdu op bytes ∧ op.valuePtr ≠ 0) := by
  obtain ⟨payload, got, text⟩ := Exec.bind_eq_ok.mp text
  split_ifs at text with none tooLong
  · cases text
    exact Or.inl ⟨rfl, payload, got, none⟩
  · cases text
  · have kinds := Received.gotPayload valid got
    rw [not_or, Nat.not_lt,
      Nat.mod_eq_of_lt (kinds.len_lt rx.fits rx.placed rx.bounded)] at tooLong
    have bounded := rx.bounded
    cases kinds with
    | none => exact absurd rfl none
    | @found found has =>
        obtain ⟨copied, loaded, text⟩ := Exec.bind_eq_ok.mp text
        cases text
        rw [has.slice rx.fits rx.placed] at loaded
        cases loaded
        exact Or.inr ⟨⟨has, Nat.one_le_iff_ne_zero.mpr none, tooLong.1⟩, tooLong.2⟩
    | behind wrapped =>
        obtain ⟨copied, loaded, -⟩ := Exec.bind_eq_ok.mp text
        unfold Mem.slice at loaded
        split_ifs at loaded with mapped
        dsimp only at mapped
        omega

theorem delivery_of_empty {payload : CoapPayload} (got : coapGetPayload rx.pdu = .ok payload)
    (empty : payload.len = 0) : delivery rx.pdu op = .ok (some []) := by
  rw [delivery, got, Exec.ok_bind, if_pos empty]
  rfl

theorem delivery_of_genuine {bytes : List UInt8} (valid : coapValidatePkt rx.pdu = .ok .ceNone)
    (genuine : Genuine rx.pdu op bytes) (place : op.valuePtr ≠ 0) :
    delivery rx.pdu op = .ok (some bytes) := by
  have long := ((coapValidatePkt_eq_none rx.fits rx.placed).mp valid).len_ge
  have got := genuine.has.coapGetPayload_eq rx.fits rx.placed long
  have small := (Received.gotPayload valid got).len_lt rx.fits rx.placed rx.bounded
  have nonempty := genuine.nonempty
  have room := genuine.room
  dsimp only at small
  simp only [delivery, got, Exec.ok_bind, show ¬ bytes.length = 0 by omega,
    Nat.mod_eq_of_lt small, show ¬ (bytes.length + 1 > op.valueMax ∨ op.valuePtr = 0) by omega,
    if_false, genuine.has.slice rx.fits rx.placed, Exec.pure_eq_ok]

/-- A response with content stores what is delivered. -/
theorem ackOutcome_delivery (isAck : IsAck rx)
    (copies : CopiesInto rx op) (ran : ackOutcome rx op = .ok outcome) :
    delivery rx.pdu op = .ok outcome.text ∧
      (outcome.op.state = .pending ↔ outcome.text = some []) := by
  obtain ⟨awaited, success, asks⟩ := isAck.copiesInto_iff.mp copies
  cases ackOutcome_iff.mp ran with
  | written _ type => simp [type] at asks
  | refused _ failed => exact absurd success failed
  | rejected _ _ text => exact ⟨text, by simp⟩
  | emptied _ _ text => exact ⟨text, iff_of_true awaited.state rfl⟩
  | delivered _ _ text nonempty isNext =>
      obtain ⟨obsSeq, timeout, rfl⟩ := exoDelivered_cases isNext
      exact ⟨text, by simp [nonempty]⟩

/-- An empty text is delivered exactly when there is no payload. -/
theorem delivery_eq_nil_iff {text : Option (List UInt8)}
    (isText : delivery rx.pdu op = .ok text) :
    ∃ payload, coapGetPayload rx.pdu = .ok payload ∧ (text = some [] ↔ payload.len = 0) := by
  obtain ⟨payload, got, ran⟩ := Exec.bind_eq_ok.mp isText
  refine ⟨payload, got, ?_⟩
  split_ifs at ran with empty tooLong
  · cases ran
    exact iff_of_true rfl empty
  · cases ran
    exact iff_of_false (by simp) empty
  · cases place : payload.val with
    | none =>
        rw [place] at ran
        cases ran
    | some pos =>
        rw [place] at ran
        obtain ⟨bytes, loaded, ran⟩ := Exec.bind_eq_ok.mp ran
        cases ran
        rw [Option.some.injEq, ← List.length_eq_zero_iff, Mem.slice_length loaded]

/-- A response with content leaves the request pending exactly when there is no payload. -/
theorem ackOutcome_pending_iff (isAck : IsAck rx)
    (copies : CopiesInto rx op) (ran : ackOutcome rx op = .ok outcome) :
    ∃ payload, coapGetPayload rx.pdu = .ok payload ∧
      (outcome.op.state = .pending ↔ payload.len = 0) := by
  obtain ⟨text, pending⟩ := ackOutcome_delivery isAck copies ran
  obtain ⟨payload, got, empty⟩ := delivery_eq_nil_iff text
  exact ⟨payload, got, pending.trans empty⟩

end Outcomes

end ExositeCoap.Exosite
