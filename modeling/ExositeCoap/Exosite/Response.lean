import ExositeCoap.Exosite.Copying
import ExositeCoap.Exosite.System

/-!
# Handling responses

What an acknowledgement does to the ops: nothing, unless a pending op has its message
id; then that op reacts (`exoHandleDatagram_ack`).  A response without payload does not
end a read or a subscription.
-/

namespace ExositeCoap.Exosite

open Lib Wire Coap

section Acks

variable {rx : Received} {sys after : Sys} {slot : Nat} {op : ExoOp}

/-- The datagram is a valid acknowledgement. -/
structure IsAck (rx : Received) : Prop where
  valid : coapValidatePkt rx.pdu = .ok .ceNone
  type : coapGetType rx.pdu = .ok .ack

/-- The op waits for the acknowledgement. -/
structure AwaitedBy (rx : Received) (op : ExoOp) : Prop where
  state : op.state = .pending
  mid : coapGetMid rx.pdu = .ok op.mid

theorem IsAck.takes_iff (isAck : IsAck rx) : Takes rx op ↔ AwaitedBy rx op := by
  rw [takes_ack isAck.type]
  exact ⟨fun ⟨state, mid⟩ => ⟨state, mid⟩, fun awaited => ⟨awaited.state, awaited.mid⟩⟩

/-- An acknowledgement makes one op react that waits for it, or none does and only the
log changes. -/
theorem exoHandleDatagram_ack {goOn : Bool} (isAck : IsAck rx)
    (ran : exoHandleDatagram rx sys = .ok (goOn, after)) :
    ∃ events, (after = (sys.logged events).record (.handled sys.ops rx.pdu) ∧
        ∀ op ∈ sys.ops, AwaitedBy rx op → op.type = .null) ∨
      ∃ slot op result, sys.ops[slot]? = some op ∧ AwaitedBy rx op ∧
        Reaction rx (sys.logged events) slot op result ∧
          after = result.record (.handled sys.ops rx.pdu) := by
  cases exoHandleDatagram_cases ran with
  | invalid isStatus failed =>
      rw [isAck.valid] at isStatus
      cases isStatus
      exact absurd rfl failed
  | @taken events slot op result _ _ atSlot _ round =>
      obtain ⟨takes, reaction⟩ := reaction_of_round round
      exact ⟨events,
        Or.inr ⟨slot, op, result, atSlot, isAck.takes_iff.mp takes, reaction, rfl⟩⟩
  | reset _ _ _ isCon =>
      rw [isAck.type] at isCon
      cases isCon
  | @dropped events _ _ _ unmatched =>
      exact ⟨events, Or.inl ⟨rfl, fun op member awaited =>
        (unmatched op member (isAck.takes_iff.mpr awaited)).2⟩⟩

/-- A valid response of class 2 to the request in `slot` and to no other. -/
structure Answers (rx : Received) (sys : Sys) (slot : Nat) (op : ExoOp) : Prop where
  isAck : IsAck rx
  success : coapGetCodeClass rx.pdu = .ok 2
  atSlot : sys.ops[slot]? = some op
  typed : op.type ≠ .null
  awaited : AwaitedBy rx op
  unique : ∀ i other, i ≠ slot → sys.ops[i]? = some other → ¬ AwaitedBy rx other

/-- The request in `slot` is no longer pending. -/
def Ended (sys : Sys) (slot : Nat) : Prop :=
  ∃ op, sys.ops[slot]? = some op ∧ op.state ≠ .pending

theorem ended_setOp {changed : ExoOp} (atSlot : sys.ops[slot]? = some op)
    (ended : changed.state ≠ .pending) : Ended (sys.setOp slot changed) slot := by
  refine ⟨changed, ?_, ended⟩
  rw [Sys.setOp_ops, List.getElem?_set_self (List.getElem?_eq_some_iff.mp atSlot).1]

/-- What the reaction of a pending op to a response of class 2 leaves. -/
theorem Reaction.ended_iff (reaction : Reaction rx sys slot op after)
    (atSlot : sys.ops[slot]? = some op) (state : op.state = .pending) (isAck : IsAck rx)
    (success : coapGetCodeClass rx.pdu = .ok 2) :
    Ended after slot ↔ op.type = .write ∨ op.type = .activate ∨
      ∃ payload, coapGetPayload rx.pdu = .ok payload ∧ payload.len ≠ 0 := by
  cases reaction with
  | emptied receives store =>
      obtain ⟨payload, isPayload, empty, -⟩ := storePayload_empty store
      constructor
      · rintro ⟨found, isFound, ended⟩
        rw [show sys.ops[slot]? = some found from isFound] at atSlot
        cases atSlot
        exact absurd state ended
      · rintro (type | type | ⟨other, isOther, nonempty⟩)
        · simp [Receives, state, type] at receives
        · simp [Receives, state, type] at receives
        · rw [isPayload] at isOther
          cases isOther
          exact absurd empty nonempty
  | rejected receives store =>
      have nonempty := storePayload_nonempty store (by simp)
      exact iff_of_true (ended_setOp atSlot (by simp)) (Or.inr (Or.inr nonempty))
  | written _ type => exact iff_of_true (ended_setOp atSlot (by simp)) (Or.inl type)
  | @delivered heap _ _ _ _ store =>
      have nonempty := storePayload_nonempty store (by simp)
      exact iff_of_true (@ended_setOp { sys with heap } _ _ _ atSlot (by simp))
        (Or.inr (Or.inr nonempty))
  | @activated _ _ bytes _ type =>
      exact iff_of_true
        (@ended_setOp ({ sys with cik := bytes ++ [0], deviceState := .good }.record
          (.storedCik (bytes ++ [0]))) _ _ _ atSlot (by simp [exoOpInit]))
        (Or.inr (Or.inl type))
  | notActivated _ type =>
      exact iff_of_true (ended_setOp atSlot (by simp [exoOpInit])) (Or.inr (Or.inl type))
  | ignored subscribed => simp [state] at subscribed
  | denied subscribed => simp [state] at subscribed
  | notified subscribed => simp [state] at subscribed
  | refused _ failed => exact absurd success failed
  | reactivated _ failed => exact absurd success failed
  | notFound _ failed => exact absurd success failed
  | reset _ type =>
      rw [isAck.type] at type
      cases type

/-- The op whose response is handled. -/
theorem exoHandleDatagram_ended {goOn : Bool} (answers : Answers rx sys slot op)
    (ran : exoHandleDatagram rx sys = .ok (goOn, after)) :
    Ended after slot ↔ op.type = .write ∨ op.type = .activate ∨
      ∃ payload, coapGetPayload rx.pdu = .ok payload ∧ payload.len ≠ 0 := by
  obtain ⟨events, ⟨-, unmatched⟩ | ⟨i, other, result, isOther, awaited, reaction, rfl⟩⟩ :=
    exoHandleDatagram_ack answers.isAck ran
  · exact absurd (unmatched op (List.mem_of_getElem? answers.atSlot) answers.awaited)
      answers.typed
  · have same : i = slot := by
      by_contra different
      exact answers.unique i other different isOther awaited
    subst same
    have isOp := answers.atSlot
    rw [isOther] at isOp
    cases isOp
    exact reaction.ended_iff isOther awaited.state answers.isAck answers.success

/-- An op that does not wait for the acknowledgement lets it pass. -/
theorem exoMatchOp_unawaited (isAck : IsAck rx) (other : ¬ AwaitedBy rx op) :
    exoMatchOp rx sys slot op = .ok (false, sys) := by
  have header := readsHeader_of_valid isAck.valid
  obtain ⟨token, isToken⟩ := header.token
  obtain ⟨mid, isMid⟩ := header.mid
  have notTaken : ¬ (op.state = .pending ∧ op.mid = mid) := by
    rintro ⟨state, rfl⟩
    exact other ⟨state, isMid⟩
  simp only [exoMatchOp, isToken, isMid, isAck.type, Exec.ok_bind, notTaken, if_false,
    Exec.pure_eq_ok]

/-- A response of class 2 is an answer for the op that waits for it. -/
theorem Answers.exoMatchOp_eq (answers : Answers rx sys slot op) :
    exoMatchOp rx sys slot op = exoAnswered rx sys slot op := by
  obtain ⟨token, isToken⟩ := (readsHeader_of_valid answers.isAck.valid).token
  simp only [exoMatchOp, isToken, answers.awaited.mid, answers.isAck.type, Exec.ok_bind,
    answers.awaited.state, and_self, if_true, answers.success]

/-- The handling returns exactly when the answer can be dealt with. -/
theorem Answers.returns_iff (answers : Answers rx sys slot op) :
    (exoHandleDatagram rx sys).Returns ↔ (exoAnswered rx sys slot op).Returns := by
  have takes : ∀ taken result, exoMatchOp rx sys slot op = .ok (taken, result) → taken = true := by
    intro taken result ran
    rw [answers.exoMatchOp_eq] at ran
    obtain ⟨isTaken, -⟩ | ⟨-, null, -⟩ := exoAnswered_cases answers.awaited.state ran
    · exact isTaken
    · exact absurd null answers.typed
  have pass : ∀ k other, k < slot → sys.ops[k]? = some other →
      exoMatchOp rx sys k other = .ok (false, sys) := fun k other before isOther =>
    exoMatchOp_unawaited answers.isAck (answers.unique k other (by omega) isOther)
  constructor
  · rintro ⟨⟨goOn, after⟩, ran⟩
    obtain ⟨-, result, taken, -⟩ :=
      (exoHandleDatagram_round answers.isAck.valid answers.atSlot pass takes).mp ran
    rw [answers.exoMatchOp_eq] at taken
    exact ⟨_, taken⟩
  · rintro ⟨⟨taken, result⟩, ran⟩
    rw [← answers.exoMatchOp_eq] at ran
    obtain rfl := takes taken result ran
    exact ⟨_, (exoHandleDatagram_round answers.isAck.valid answers.atSlot pass takes).mpr
      ⟨rfl, result, ran, rfl⟩⟩

/-- The response ends the request: it has a payload, unless the request needs none, and
what is done with the payload does not fault. -/
inductive EndedBy (rx : Received) (heap : Mem) (op : ExoOp) : Prop where
  | write (type : op.type = .write)
  | activate {payload : CoapPayload} (type : op.type = .activate)
      (got : coapGetPayload rx.pdu = .ok payload)
  /-- turned down -/
  | rejected {payload : CoapPayload} (asks : op.type = .read ∨ op.type = .subscribe)
      (got : coapGetPayload rx.pdu = .ok payload) (present : payload.len ≠ 0)
      (tooLong : ¬ RoomFor op payload)
  /-- delivered -/
  | stored {payload : CoapPayload} (asks : op.type = .read ∨ op.type = .subscribe)
      (got : coapGetPayload rx.pdu = .ok payload) (present : payload.len ≠ 0)
      (room : RoomFor op payload) (copyable : Copyable rx.pdu heap op payload)
      (options : op.type = .subscribe → ReadsOptions rx.pdu)

/-- The answer to a read or a subscription with a payload. -/
theorem endedBy_iff_of_asks (valid : coapValidatePkt rx.pdu = .ok .ceNone)
    (asks : op.type = .read ∨ op.type = .subscribe) :
    EndedBy rx sys.heap op ↔ (exoAnswered rx sys slot op).Returns ∧
      ∃ payload, coapGetPayload rx.pdu = .ok payload ∧ payload.len ≠ 0 := by
  rw [exoAnswered_returns_iff asks]
  constructor
  · intro ended
    cases ended with
    | write type => simp [type] at asks
    | activate type => simp [type] at asks
    | rejected _ got present tooLong =>
        have rejected : storePayload rx.pdu sys.heap op = .ok .rejected :=
          (storePayload_rejected_iff valid got).mpr ⟨present, tooLong⟩
        refine ⟨⟨⟨_, rejected⟩, fun heap stored => ?_⟩, _, got, present⟩
        rw [rejected] at stored
        cases stored
    | stored _ got present room copyable options =>
        obtain ⟨after, stored⟩ := (storePayload_stored_iff valid got).mpr ⟨present, room, copyable⟩
        exact ⟨⟨⟨_, stored⟩, fun _ _ => options⟩, _, got, present⟩
  · rintro ⟨⟨⟨result, store⟩, options⟩, payload, got, present⟩
    cases result with
    | empty after =>
        exact absurd ((storePayload_empty_iff got).mp ⟨after, store⟩).1 present
    | rejected =>
        exact .rejected asks got present ((storePayload_rejected_iff valid got).mp store).2
    | stored after =>
        obtain ⟨-, room, copyable⟩ := (storePayload_stored_iff valid got).mp ⟨after, store⟩
        exact .stored asks got present room copyable (options after store)

/-- A successful response is handled and ends its request exactly when that is a write, an
activation whose response can be read, or when the response has a payload that is turned
down or can be delivered. -/
theorem exoHandleDatagram_ends_iff (answers : Answers rx sys slot op) :
    (∃ goOn after, exoHandleDatagram rx sys = .ok (goOn, after) ∧ Ended after slot) ↔
      EndedBy rx sys.heap op := by
  have handled : (∃ goOn after, exoHandleDatagram rx sys = .ok (goOn, after) ∧ Ended after slot) ↔
      (exoAnswered rx sys slot op).Returns ∧ (op.type = .write ∨ op.type = .activate ∨
        ∃ payload, coapGetPayload rx.pdu = .ok payload ∧ payload.len ≠ 0) := by
    rw [← answers.returns_iff]
    constructor
    · rintro ⟨goOn, after, ran, ended⟩
      exact ⟨⟨_, ran⟩, (exoHandleDatagram_ended answers ran).mp ended⟩
    · rintro ⟨⟨⟨goOn, after⟩, ran⟩, ends⟩
      exact ⟨goOn, after, ran, (exoHandleDatagram_ended answers ran).mpr ends⟩
  rw [handled]
  have valid := answers.isAck.valid
  cases type : op.type with
  | write =>
      refine iff_of_true ⟨?_, Or.inl rfl⟩ (.write type)
      simp only [exoAnswered, type]
      exact Exec.returns_ok _
  | activate =>
      rw [exoAnswered_activate_returns_iff valid type, and_iff_left (Or.inr (Or.inl rfl))]
      constructor
      · rintro ⟨payload, got⟩
        exact .activate type got
      · intro ended
        cases ended with
        | write other => simp [type] at other
        | activate _ got => exact ⟨_, got⟩
        | rejected _ got => exact ⟨_, got⟩
        | stored _ got => exact ⟨_, got⟩
  | read =>
      rw [@endedBy_iff_of_asks _ _ slot _ valid (Or.inl type)]
      simp
  | subscribe =>
      rw [@endedBy_iff_of_asks _ _ slot _ valid (Or.inr type)]
      simp
  | null => exact absurd type answers.typed

end Acks

/-- The user reads into the buffer at address 3, and the request is sent. -/
def readCalls : List UserCall := [quietInit, .read 1 1 3 8, quietOperate []]

def sentActivation : ExoOp := ⟨.activate, .pending, 0, 0, 0, 7, 0, 0, 0x2211, 4000010, 0⟩

def sentRead : ExoOp := ⟨.read, .pending, 1, 3, 8, 8, 0, 0, 0x2211, 4000010, 0⟩

/-- Acknowledgements of class 2 with message id 8. -/
theorem answers_sentRead {bytes : List UInt8} {sys : Sys}
    (ops : sys.ops = [sentActivation, sentRead])
    (valid : coapValidatePkt (arrives bytes).pdu = .ok .ceNone)
    (type : coapGetType (arrives bytes).pdu = .ok .ack)
    (success : coapGetCodeClass (arrives bytes).pdu = .ok 2)
    (mid : coapGetMid (arrives bytes).pdu = .ok 8) : Answers (arrives bytes) sys 1 sentRead := by
  refine ⟨⟨valid, type⟩, success, by rw [ops]; rfl, by decide, ⟨rfl, mid⟩, ?_⟩
  intro i other different isOther awaited
  rw [ops] at isOther
  match i with
  | 0 =>
      cases isOther
      have same := awaited.mid
      rw [mid] at same
      cases same
  | 1 => exact different rfl
  | i + 2 => cases isOther

/-- The read is answered with 2.05 and no payload, and stays pending. -/
theorem not_ended_emptyContent : ∃ sys after,
    run (powerOn 2 quietHeap) readCalls = .ok sys ∧
      Answers (arrives [0x60, 0x45, 0, 8]) sys 1 sentRead ∧
      exoHandleDatagram (arrives [0x60, 0x45, 0, 8]) sys = .ok (true, after) ∧
        ¬ Ended after 1 := by
  have computed : (run (powerOn 2 quietHeap) readCalls >>= fun sys =>
      (exoHandleDatagram (arrives [0x60, 0x45, 0, 8]) sys).map fun result =>
        (sys.ops, result.1, result.2.ops)) =
      .ok ([sentActivation, sentRead], true, [sentActivation, sentRead]) := by decide +kernel
  obtain ⟨sys, ran, handled⟩ := Exec.bind_eq_ok.mp computed
  obtain ⟨⟨goOn, after⟩, handled, values⟩ := Exec.map_eq_ok.mp handled
  simp only [Prod.mk.injEq] at values
  obtain ⟨before, rfl, ops⟩ := values
  refine ⟨sys, after, ran, ?_, handled, ?_⟩
  · exact answers_sentRead before (by decide +kernel) (by decide +kernel) (by decide +kernel)
      (by decide +kernel)
  · rintro ⟨op, isOp, ended⟩
    rw [ops] at isOp
    cases isOp
    exact ended rfl

/-- The read is answered with "x". -/
theorem exoHandleDatagram_ends_iff_content : ∃ sys goOn after,
    run (powerOn 2 quietHeap) readCalls = .ok sys ∧
      exoHandleDatagram (arrives [0x60, 0x45, 0, 8, 0xFF, 0x78]) sys = .ok (goOn, after) ∧
        Ended after 1 := by
  have computed : (run (powerOn 2 quietHeap) readCalls).map (fun sys => (sys.ops, sys.heap)) =
      .ok ([sentActivation, sentRead], quietHeap) := by decide +kernel
  obtain ⟨sys, ran, values⟩ := Exec.map_eq_ok.mp computed
  simp only [Prod.mk.injEq] at values
  obtain ⟨before, heap⟩ := values
  have answers : Answers (arrives [0x60, 0x45, 0, 8, 0xFF, 0x78]) sys 1 sentRead :=
    answers_sentRead before (by decide +kernel) (by decide +kernel) (by decide +kernel)
      (by decide +kernel)
  have got : coapGetPayload (arrives [0x60, 0x45, 0, 8, 0xFF, 0x78]).pdu = .ok ⟨1, some 5⟩ := by
    decide +kernel
  have ended : EndedBy (arrives [0x60, 0x45, 0, 8, 0xFF, 0x78]) sys.heap sentRead := by
    refine .stored (Or.inl rfl) got (by decide) ⟨by decide, by decide⟩ ⟨?_, ?_⟩ nofun
    · exact Or.inr ⟨5, rfl, by decide +kernel⟩
    · rw [heap]
      decide +kernel
  obtain ⟨goOn, after, handled, ends⟩ := (exoHandleDatagram_ends_iff answers).mpr ended
  exact ⟨sys, goOn, after, ran, handled, ends⟩

end ExositeCoap.Exosite
