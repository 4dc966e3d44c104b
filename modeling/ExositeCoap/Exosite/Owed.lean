import ExositeCoap.Exosite.Discipline
import ExositeCoap.Exosite.Routing

/-!
# Replies that are owed

Acknowledgements and resets are sent for messages that were received.  An op that has a
notification to acknowledge owes one reply, under the id of that message, and gets out of
debt by sending it.  So no message is answered twice, and no reply is made up, over a whole
run (`run_replies`).
-/

namespace ExositeCoap.Exosite

open Lib Wire Coap

/-- The entry tells of a confirmable or non-confirmable message with this id. -/
def Event.asks (mid : UInt16) : Event → Bool
  | .handled _ pdu =>
    (coapGetType pdu = .ok .con || coapGetType pdu = .ok .non) && coapGetMid pdu = .ok mid
  | _ => false

instance (datagram : List UInt8) (mid : UInt16) : Decidable (Carries datagram mid) :=
  inferInstanceAs (Decidable (_ = _))

/-- The entry tells of an acknowledgement or a reset with this message id that went out. -/
def Event.replies (mid : UInt16) : Event → Bool
  | .sent (.ack _) datagram ok | .sent (.rst _ _) datagram ok => ok && Carries datagram mid
  | _ => false

/-- The op has to acknowledge the message with this id. -/
def ExoOp.owes (mid : UInt16) (op : ExoOp) : Bool :=
  (op.state = .subAck || op.state = .subAckNew) && op.mid = mid

/-- No more has been paid, or is left to be paid, than the messages asked for. -/
def Balanced (mid : UInt16) (sys : Sys) : Prop :=
  sys.log.countP (Event.replies mid) + sys.ops.countP (ExoOp.owes mid) ≤
    sys.log.countP (Event.asks mid)

section Balance

variable {mid : UInt16} {sys after : Sys} {i : Nat} {op changed : ExoOp}

/-! ## Ops and entries -/

theorem ExoOp.owes_eq_true : op.owes mid = true ↔ Acks op ∧ op.mid = mid := by
  simp [ExoOp.owes, Acks]

/-- An op that owes nothing adds nothing. -/
theorem owed_setOp_le (owes : changed.owes mid = false) :
    (sys.setOp i changed).ops.countP (ExoOp.owes mid) ≤ sys.ops.countP (ExoOp.owes mid) := by
  rcases Nat.lt_or_ge i sys.ops.length with inRange | outside
  · rw [Sys.setOp_ops, List.countP_set inRange, owes]
    simp only [Bool.false_eq_true, if_false]
    omega
  · rw [Sys.setOp_ops, List.set_eq_of_length_le outside]

/-- Any op adds at most one. -/
theorem owed_setOp_le_succ :
    (sys.setOp i changed).ops.countP (ExoOp.owes mid) ≤
      sys.ops.countP (ExoOp.owes mid) + 1 := by
  rcases Nat.lt_or_ge i sys.ops.length with inRange | outside
  · rw [Sys.setOp_ops, List.countP_set inRange]
    split_ifs <;> omega
  · rw [Sys.setOp_ops, List.set_eq_of_length_le outside]
    exact Nat.le_succ _

/-- An op that pays owes one less. -/
theorem owed_setOp_paid (atSlot : sys.ops[i]? = some op) (owed : op.owes mid = true)
    (paid : changed.owes mid = false) :
    (sys.setOp i changed).ops.countP (ExoOp.owes mid) + 1 =
      sys.ops.countP (ExoOp.owes mid) := by
  obtain ⟨inRange, isOp⟩ := List.getElem?_eq_some_iff.mp atSlot
  have some : 0 < sys.ops.countP (ExoOp.owes mid) :=
    List.countP_pos_iff.mpr ⟨op, List.mem_of_getElem? atSlot, owed⟩
  rw [Sys.setOp_ops, List.countP_set inRange, isOp, owed, paid]
  simp only [if_true, Bool.false_eq_true, if_false]
  omega

theorem Balanced.setOp (balanced : Balanced mid sys) (owes : changed.owes mid = false) :
    Balanced mid (sys.setOp i changed) :=
  Nat.le_trans (Nat.add_le_add_left (owed_setOp_le owes) _) balanced

theorem Balanced.record {event : Event} (balanced : Balanced mid sys)
    (quiet : event.replies mid = false) : Balanced mid (sys.record event) := by
  unfold Balanced at balanced ⊢
  rw [Sys.record_log, List.countP_cons, List.countP_cons, quiet, Sys.record_ops]
  simp only [Bool.false_eq_true, if_false]
  split_ifs <;> omega

theorem Balanced.logged {events : List Event} (balanced : Balanced mid sys)
    (traces : TracesSkipped sys events) : Balanced mid (sys.logged events) := by
  have quiet : events.countP (Event.replies mid) = 0 := by
    refine List.countP_eq_zero.mpr fun event member => ?_
    obtain ⟨slot, op, rfl, -⟩ := traces event member
    exact Bool.false_ne_true
  unfold Balanced at balanced ⊢
  change (events ++ sys.log).countP _ + sys.ops.countP _ ≤ (events ++ sys.log).countP _
  rw [List.countP_append, List.countP_append, quiet]
  omega

/-- Sending a request neither pays nor asks. -/
theorem Balanced.sentRequest {slot : Nat} {first ok : Bool} {request : Request}
    {datagram : List UInt8} (balanced : Balanced mid sys) :
    Balanced mid (sys.sentRequest slot first request datagram ok) :=
  @Balanced.record _ _ (.sent (.request slot first request) datagram ok)
    (@Balanced.record _ { sys with messageIdCounter := sys.messageIdCounter + 1 }
      (.built slot request) balanced rfl) rfl

/-- A message is handled: there may be one more reply, or one more debt. -/
theorem Balanced.asked {rx : Received} {ops : List ExoOp} {kind : CoapType}
    (balanced : Balanced mid sys) (isKind : coapGetType rx.pdu = .ok kind)
    (isMessage : kind = .con ∨ kind = .non) (isMid : coapGetMid rx.pdu = .ok mid) :
    sys.log.countP (Event.replies mid) + sys.ops.countP (ExoOp.owes mid) + 1 ≤
      (sys.record (.handled ops rx.pdu)).log.countP (Event.asks mid) := by
  have asks : (Event.handled ops rx.pdu).asks mid = true := by
    rcases isMessage with rfl | rfl <;> simp [Event.asks, isKind, isMid]
  rw [Sys.record_log, List.countP_cons, asks, if_pos rfl]
  exact Nat.succ_le_succ balanced

/-! ## Received datagrams -/

/-- Only notifications are left to be acknowledged. -/
theorem Reaction.balanced {rx : Received} (reaction : Reaction rx sys i op after)
    (pending : op.state = .pending) (balanced : Balanced mid sys) : Balanced mid after := by
  have failed : ({ op with state := .error } : ExoOp).owes mid = false := by simp [ExoOp.owes]
  cases reaction with
  | ignored => exact balanced
  | emptied => exact balanced
  | denied => exact balanced.setOp failed
  | rejected => exact balanced.setOp failed
  | refused => exact balanced.setOp failed
  | reset => exact balanced.setOp failed
  | notFound => exact @Balanced.setOp mid { sys with deviceState := .good } i _ balanced failed
  | notified state =>
      rw [pending] at state
      cases state
  | written => exact balanced.setOp (by simp [ExoOp.owes])
  | @delivered heap =>
      exact @Balanced.setOp mid { sys with heap } i _ balanced (by simp [ExoOp.owes])
  | notActivated => exact balanced.setOp (by simp [ExoOp.owes, exoOpInit])
  | reactivated =>
      exact (balanced.setOp failed).setOp (by simp [ExoOp.owes, exoActivate, ExoOp.queue])
  | @activated _ _ bytes =>
      exact (@Balanced.record mid { sys with cik := bytes ++ [0], deviceState := .good }
        (.storedCik (bytes ++ [0])) balanced rfl).setOp (by simp [ExoOp.owes, exoOpInit])

/-- A notification that is left to be acknowledged is one more debt, under its own id. -/
theorem exoNotified_balanced {rx : Received} {kind : CoapType} {ops : List ExoOp}
    (valid : coapValidatePkt rx.pdu = .ok .ceNone) (isKind : coapGetType rx.pdu = .ok kind)
    (isMessage : kind = .con ∨ kind = .non) (ran : exoNotified rx sys i op = .ok after)
    (balanced : Balanced mid sys) : Balanced mid (after.record (.handled ops rx.pdu)) := by
  have kept : ∀ {result : List ExoOp}, after.ops = result → after.log = sys.log →
      result.countP (ExoOp.owes mid) ≤ sys.ops.countP (ExoOp.owes mid) →
        Balanced mid (after.record (.handled ops rx.pdu)) := by
    intro result sameOps sameLog fewer
    refine Balanced.record ?_ rfl
    rw [Balanced, sameOps, sameLog]
    exact Nat.le_trans (Nat.add_le_add_left fewer _) balanced
  obtain ⟨-, found, changed, isMid, same, -, set, log⟩ | ⟨-, log, same | set⟩ :=
    exoNotified_spec valid ran
  · by_cases here : found = mid
    · subst here
      have paid := @Balanced.asked found sys rx ops kind balanced isKind isMessage isMid
      have debt := @owed_setOp_le_succ found sys i changed
      rw [Balanced, Sys.record_ops, set, Sys.record_log, log]
      rw [Sys.record_log] at paid
      rw [Sys.setOp_ops] at debt
      have quiet : (Event.handled ops rx.pdu :: sys.log).countP (Event.replies found) =
          sys.log.countP (Event.replies found) := List.countP_cons_of_neg Bool.false_ne_true
      omega
    · refine kept set log (@owed_setOp_le mid sys i changed ?_)
      rw [Bool.eq_false_iff]
      exact fun owes => here (same.symm.trans (ExoOp.owes_eq_true.mp owes).2)
  · exact kept same log (Nat.le_refl _)
  · exact kept set log (@owed_setOp_le mid sys i _ (by simp [ExoOp.owes]))

/-- A message that is encoded carries its id. -/
theorem carries_encode {message : Message} (small : message.encode.length < 2 ^ 63)
    {found : UInt16} : Carries message.encode found ↔ message.mid = found := by
  have isMid := @CoapPdu.Holds.coapGetMid_eq
    ⟨1, message.encode, message.encode.length, message.encode.length⟩ message
    ⟨List.take_length, Nat.le_refl _, Nat.le_refl _, small⟩
  rw [Carries, isMid]
  exact ⟨Except.ok.inj, congrArg _⟩

theorem carries_ackMessage {found other : UInt16} :
    Carries (ackMessage found).encode other ↔ found = other :=
  carries_encode (by simp [Message.encode_length, Message.body_length, ackMessage, encodeOptions,
    Message.payloadBytes])

theorem carries_rstMessage {found other : UInt16} {token : UInt64} {tkl : UInt8} :
    Carries (rstMessage found token tkl).encode other ↔ found = other := by
  refine carries_encode ?_
  have short := tkl.toNat_lt
  simp only [Message.encode_length, Message.body_length, rstMessage, encodeOptions,
    Message.payloadBytes, leBytes_length, List.length_nil]
  omega

theorem exoHandleDatagram_balanced {rx : Received} {goOn : Bool}
    (ran : exoHandleDatagram rx sys = .ok (goOn, after)) (balanced : Balanced mid sys) :
    Balanced mid after := by
  cases exoHandleDatagram_cases ran with
  | invalid => exact balanced
  | dropped _ traces => exact (balanced.logged traces).record rfl
  | @taken _ slot op _ valid traces atSlot _ round =>
      obtain ⟨takes, reaction⟩ := reaction_of_round round
      cases takes with
      | notification isKind isMessage =>
          obtain ⟨-, -, notified⟩ := exoMatchOp_notified isKind isMessage round
          exact exoNotified_balanced valid isKind isMessage notified (balanced.logged traces)
      | response _ state => exact (reaction.balanced state (balanced.logged traces)).record rfl
      | reset isKind =>
          rw [exoMatchOp_rst isKind round]
          exact ((balanced.logged traces).setOp (by simp [ExoOp.owes])).record rfl
  | @reset events found token tkl _ _ _ valid traces _ isCon isTkl isMid _ built bytes =>
      have short := tkl_le_of_valid valid isTkl
      rw [rst_datagram short built bytes]
      have before := balanced.logged traces
      by_cases here : found = mid
      · subst here
        have paid := @Balanced.asked found _ rx sys.ops .con before isCon (Or.inl rfl) isMid
        rw [Balanced, Sys.record_log, Sys.record_log, Sys.record_ops, Sys.record_ops,
          List.countP_cons, List.countP_cons_of_neg Bool.false_ne_true,
          List.countP_cons_of_neg Bool.false_ne_true]
        rw [Sys.record_log] at paid
        split_ifs <;> omega
      · refine (before.record rfl).record ?_
        simp only [Event.replies, carries_rstMessage, here, decide_false, Bool.and_false]

/-! ## Slots -/

theorem exoProcessOp_balanced {now : UInt64} {env : SlotEnv} (atSlot : sys.ops[i]? = some op)
    (ran : exoProcessOp now env sys i op = .ok after) (balanced : Balanced mid sys) :
    Balanced mid after := by
  by_cases acks : op.state = .subAck ∨ op.state = .subAckNew
  · rw [exoProcessOp_eq_ack now acks, exoSendAck_eq] at ran
    cases ran
    cases env.sendOk with
    | false => exact balanced.record rfl
    | true =>
        have paid : ({ op with state := if op.state = .subAck then .subscribed else .success } :
            ExoOp).owes mid = false := by
          rcases acks with state | state <;> simp [ExoOp.owes, state]
        by_cases here : op.mid = mid
        · have less := owed_setOp_paid atSlot (ExoOp.owes_eq_true.mpr ⟨acks, here⟩) paid
          have replies : (Event.sent (.ack i) (ackMessage op.mid).encode true).replies mid =
              true := by
            simp only [Event.replies, carries_ackMessage, here, decide_true, Bool.and_true]
          rw [Sys.setOp_ops] at less
          unfold Balanced at balanced ⊢
          rw [if_pos rfl, Sys.setOp_log, Sys.record_log, List.countP_cons, replies, if_pos rfl,
            List.countP_cons_of_neg Bool.false_ne_true, Sys.setOp_ops, Sys.record_ops]
          omega
        · refine (balanced.record ?_).setOp paid
          simp only [Event.replies, carries_ackMessage, here, decide_false, Bool.and_false]
  · cases exoProcessOp_cases ran with
    | idle => exact balanced
    | unexpectedNew state => exact (balanced.setOp (by simp [ExoOp.owes, state])).record rfl
    | unexpectedWait => exact balanced.record rfl
    | sent => exact balanced.sentRequest.setOp (by simp [ExoOp.owes])
    | unsent => exact balanced.sentRequest
    | resent waits =>
        refine balanced.sentRequest.setOp ?_
        rcases waits with state | state <;> simp [ExoOp.owes, state]
    | unresent => exact balanced.sentRequest
    | gaveUp => exact balanced.setOp (by simp [ExoOp.owes])
    | renewed => exact balanced.setOp (by simp [ExoOp.owes])
    | acked isState => exact absurd (isState.imp And.left And.left) acks
    | unacked state => exact absurd state acks

/-! ## Runs -/

theorem RunStep.balanced (step : RunStep sys after) (balanced : Balanced mid sys) :
    Balanced mid after := by
  cases step with
  | lib _ step =>
      cases step with
      | received ran => exact exoHandleDatagram_balanced ran balanced
      | processed atSlot ran => exact exoProcessOp_balanced atSlot ran balanced
      | activated ran =>
          obtain ⟨first, -, ⟨-, rfl⟩ | ⟨-, rfl⟩⟩ := exoActivateFirst_cases ran
          · exact balanced.setOp (by simp [ExoOp.owes, exoActivate, ExoOp.queue])
          · exact balanced
  | user step =>
      cases step with
      | initFailed => exact balanced
      | initialised => exact Balanced.record balanced rfl
      | queued => exact (balanced.setOp (by simp [ExoOp.owes, ExoOp.queue])).record rfl
      | opInit => exact balanced.setOp (by simp [ExoOp.owes, exoOpInit])
      | opDone =>
          refine (balanced.setOp ?_).record rfl
          unfold exoOpDone
          split_ifs <;> simp [ExoOp.owes, exoOpInit]
      | memory => exact balanced

/-- Over a whole run, at most as many acknowledgements and resets with a message id go out
as confirmable and non-confirmable messages with this id have been handled, less those that
are still to be acknowledged. -/
theorem run_replies {count : Nat} {heap : Mem} {calls : List UserCall}
    (ran : run (powerOn count heap) calls = .ok after) (mid : UInt16) :
    after.log.countP (Event.replies mid) + after.ops.countP (ExoOp.owes mid) ≤
      after.log.countP (Event.asks mid) := by
  have steps := run_runSteps ran
  have start : Balanced mid (powerOn count heap) := by
    have none : (powerOn count heap).ops.countP (ExoOp.owes mid) = 0 := by
      refine List.countP_eq_zero.mpr fun op member => ?_
      rw [List.eq_of_mem_replicate member]
      simp [ExoOp.owes, exoOpInit]
    rw [Balanced, none]
    exact Nat.le_refl _
  clear ran
  induction steps with
  | refl => exact start
  | tail _ step ih => exact step.balanced ih

end Balance

/-- A notification is acknowledged once. -/
theorem run_replies_once : ∃ after,
    run (powerOn 2 quietHeap) (subscribeCalls ++ [.opDone 1, quietOperate [notification]]) =
      .ok after ∧ after.log.countP (Event.replies 99) = 1 ∧
        1 ≤ after.log.countP (Event.asks 99) := by
  have computed : (run (powerOn 2 quietHeap)
      (subscribeCalls ++ [.opDone 1, quietOperate [notification]])).map (fun after =>
        after.log.countP (Event.replies 99)) = .ok 1 := by decide +kernel
  obtain ⟨after, ran, paid⟩ := Exec.map_eq_ok.mp computed
  have balanced := run_replies ran 99
  exact ⟨after, ran, paid, by omega⟩

end ExositeCoap.Exosite
