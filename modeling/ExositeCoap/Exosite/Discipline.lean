import Mathlib.Data.Nat.Find
import ExositeCoap.Exosite.Arrivals
import ExositeCoap.Exosite.Deliver
import ExositeCoap.Exosite.Reply

/-!
# Replies to received messages

A confirmable message is answered with a reset at once, or an op is left to acknowledge
it.  The op is left to acknowledge exactly the notifications whose value it has stored,
confirmable or not; other notifications for a subscribed op get no reply.
-/

namespace ExositeCoap.Exosite

open Lib Wire Coap

/-- The op has a notification to acknowledge. -/
def Acks (op : ExoOp) : Prop := op.state = .subAck ∨ op.state = .subAckNew

/-- The op in `slot` has got a notification to acknowledge. -/
structure NewAck (before after : Sys) (slot : Nat) (op : ExoOp) : Prop where
  atSlot : after.ops[slot]? = some op
  acks : Acks op
  new : ∀ old, before.ops[slot]? = some old → ¬ Acks old

/-- The datagrams that were sent. -/
def sentDatagrams (events : List Event) : List (List UInt8) :=
  events.filterMap fun event =>
    match event with
    | .sent _ datagram _ => some datagram
    | _ => none

/-- Exactly these datagrams have been sent. -/
def Sends (before after : Sys) (datagrams : List (List UInt8)) : Prop :=
  ∃ events, after.log = events ++ before.log ∧ sentDatagrams events = datagrams

/-- One op is left to acknowledge the message with this id, and it will. -/
def LeavesAck (before after : Sys) (mid : UInt16) : Prop :=
  ∃ slot op, NewAck before after slot op ∧ op.mid = mid ∧
    (∀ other next, NewAck before after other next → other = slot) ∧
    ∀ now env sys, ∃ next, exoProcessOp now env sys slot op = .ok next ∧
      next.log = .sent (.ack slot) (ackMessage mid).encode env.sendOk :: sys.log

/-- A confirmable message has got exactly one reply, with its message id; another one has
got none. -/
structure Replied (rx : Received) (before after : Sys) : Prop where
  con : ∀ mid, coapGetType rx.pdu = .ok .con → coapGetMid rx.pdu = .ok mid →
    (∃ token tkl, Sends before after [(rstMessage mid token tkl).encode] ∧
      ∀ slot op, ¬ NewAck before after slot op) ∨
    (Sends before after [] ∧ LeavesAck before after mid)
  other : ∀ kind, coapGetType rx.pdu = .ok kind → kind ≠ .con →
    Sends before after [] ∧ ∀ slot op, ¬ NewAck before after slot op

/-- A confirmable message is handled without a trap and gets its reply; another one gets
none, if it is handled at all. -/
structure Disciplined (rx : Received) (before : Sys) : Prop where
  returns : coapGetType rx.pdu = .ok .con → (exoHandleDatagram rx before).Returns
  replied : ∀ goOn after, exoHandleDatagram rx before = .ok (goOn, after) →
    Replied rx before after

/-! ## When messages get their reply -/

/-- The first subscribed op that has the token of the message. -/
structure Arrival.Notified (arrival : Arrival) (slot : Nat) (op : ExoOp) : Prop where
  atSlot : arrival.before.ops[slot]? = some op
  state : op.state = .subscribed
  token : coapGetToken arrival.rx.pdu = .ok op.token.toNat
  first : ∀ j other, j < slot → arrival.before.ops[j]? = some other →
    other.state = .subscribed → coapGetToken arrival.rx.pdu ≠ .ok other.token.toNat

/-- The message has content that the op has room for, and it can be read and copied. -/
structure Deliverable (rx : Received) (heap : Mem) (op : ExoOp) : Prop where
  content : coapGetCode rx.pdu = .ok ccContent
  options : ReadsOptions rx.pdu
  text : ∃ payload, coapGetPayload rx.pdu = .ok payload ∧ payload.len ≠ 0 ∧
    RoomFor op payload ∧ Copyable rx.pdu heap op payload

/-- A confirmable notification can be delivered, another one cannot. -/
structure Arrival.Answerable (arrival : Arrival) : Prop where
  con : coapGetType arrival.rx.pdu = .ok .con → ∀ slot op, arrival.Notified slot op →
    Deliverable arrival.rx arrival.before.heap op
  non : coapGetType arrival.rx.pdu = .ok .non → ∀ slot op, arrival.Notified slot op →
    ¬ Deliverable arrival.rx arrival.before.heap op

section Notifications

variable {rx : Received} {sys after : Sys} {i : Nat} {op : ExoOp}

/-- A notification is left to be acknowledged exactly when it is deliverable. -/
theorem exoNotified_spec (valid : coapValidatePkt rx.pdu = .ok .ceNone)
    (ran : exoNotified rx sys i op = .ok after) :
    (Deliverable rx sys.heap op ∧ ∃ mid changed, coapGetMid rx.pdu = .ok mid ∧
      changed.mid = mid ∧ Acks changed ∧ after.ops = sys.ops.set i changed ∧
        after.log = sys.log) ∨
    (¬ Deliverable rx sys.heap op ∧ after.log = sys.log ∧
      (after.ops = sys.ops ∨ after.ops = sys.ops.set i { op with state := .error })) := by
  obtain ⟨code, isCode, ran⟩ := Exec.bind_eq_ok.mp ran
  split_ifs at ran with content
  · rw [content] at isCode
    obtain ⟨newSeq, observes, ran⟩ := Exec.bind_eq_ok.mp ran
    obtain ⟨result, store, ran⟩ := Exec.bind_eq_ok.mp ran
    -- what is deliverable is stored
    have unsuited : (∀ heap, result ≠ .stored heap) → ¬ Deliverable rx sys.heap op := by
      rintro other ⟨-, -, payload, got, storable⟩
      obtain ⟨heap, stored⟩ := (storePayload_stored_iff valid got).mpr storable
      rw [store] at stored
      exact other heap (Except.ok.inj stored)
    cases result with
    | empty heap =>
        cases ran
        exact Or.inr ⟨unsuited nofun, rfl, Or.inl rfl⟩
    | rejected =>
        cases ran
        exact Or.inr ⟨unsuited nofun, rfl, Or.inr rfl⟩
    | stored heap =>
        obtain ⟨payload, got, -⟩ := storePayload_nonempty store nofun
        have storable := (storePayload_stored_iff valid got).mp ⟨heap, store⟩
        obtain ⟨mid, isMid, ran⟩ := Exec.bind_eq_ok.mp ran
        obtain ⟨timeout, expires, ran⟩ := Exec.bind_eq_ok.mp ran
        have options := (readsOptions_iff 0).mpr ⟨⟨_, observes⟩, _, expires⟩
        have deliverable : Deliverable rx sys.heap op := ⟨isCode, options, payload, got, storable⟩
        split_ifs at ran
        · cases ran
          exact Or.inl ⟨deliverable, mid, _, isMid, rfl, Or.inr rfl, rfl, rfl⟩
        · cases ran
          exact Or.inl ⟨deliverable, mid, _, isMid, rfl, Or.inl rfl, rfl, rfl⟩
  · have unsuited : ¬ Deliverable rx sys.heap op := by
      rintro ⟨isContent, -⟩
      rw [isCode] at isContent
      exact content (Except.ok.inj isContent)
    obtain ⟨codeClass, -, ran⟩ := Exec.bind_eq_ok.mp ran
    split_ifs at ran
    · cases ran
      exact Or.inr ⟨unsuited, rfl, Or.inr rfl⟩
    · cases ran
      exact Or.inr ⟨unsuited, rfl, Or.inl rfl⟩

end Notifications

/-! ## What is sent and what is left -/

section Replies

variable {rx : Received} {before after : Sys} {slot i : Nat} {op changed : ExoOp}

theorem sentDatagrams_skipped {events : List Event} (traces : TracesSkipped before events) :
    sentDatagrams events = [] := by
  refine List.filterMap_eq_nil_iff.mpr fun event member => ?_
  obtain ⟨slot, op, rfl, -⟩ := traces event member
  rfl

/-- Handling a datagram that an op takes sends nothing. -/
theorem sends_taken {events : List Event} {result : Sys} (traces : TracesSkipped before events)
    (round : exoMatchOp rx (before.logged events) i op = .ok (true, result)) :
    Sends before (result.record (.handled before.ops rx.pdu)) [] := by
  have none := sentDatagrams_skipped traces
  obtain ⟨-, reaction⟩ := reaction_of_round round
  cases reaction with
  | @activated _ _ bytes =>
      refine ⟨.handled before.ops rx.pdu :: .storedCik (bytes ++ [0]) :: events, rfl, ?_⟩
      simpa [sentDatagrams] using none
  | _ =>
      refine ⟨.handled before.ops rx.pdu :: events, rfl, ?_⟩
      simpa [sentDatagrams] using none

theorem Sends.unique {datagrams others : List (List UInt8)} (sends : Sends before after datagrams)
    (also : Sends before after others) : datagrams = others := by
  obtain ⟨events, grown, rfl⟩ := sends
  obtain ⟨more, alsoGrown, rfl⟩ := also
  rw [grown] at alsoGrown
  rw [List.append_cancel_right alsoGrown]

theorem not_newAck_of_same (same : after.ops = before.ops) : ¬ NewAck before after slot op := by
  intro new
  exact new.new op (same ▸ new.atSlot) new.acks

/-- An op that is put in a slot is the only one that can be new. -/
theorem newAck_set (set : after.ops = before.ops.set i changed)
    (new : NewAck before after slot op) : i = slot ∧ op = changed := by
  have atSlot := new.atSlot
  rw [set] at atSlot
  rcases of_getElem?_setOp (show (before.setOp i changed).ops[slot]? = some op from atSlot) with
    here | ⟨-, old⟩
  · exact here
  · exact absurd new.acks (new.new op old)

theorem not_newAck_of_set (set : after.ops = before.ops.set i changed) (quiet : ¬ Acks changed) :
    ¬ NewAck before after slot op := by
  intro new
  obtain ⟨-, rfl⟩ := newAck_set set new
  exact quiet new.acks

theorem leavesAck_of_set {mid : UInt16} {old : ExoOp} (atSlot : before.ops[i]? = some old)
    (state : old.state = .subscribed) (set : after.ops = before.ops.set i changed)
    (isMid : changed.mid = mid) (acks : Acks changed) : LeavesAck before after mid := by
  have inRange := (List.getElem?_eq_some_iff.mp atSlot).1
  refine ⟨i, changed, ⟨?_, acks, ?_⟩, isMid, fun other next new => (newAck_set set new).1.symm, ?_⟩
  · rw [set, List.getElem?_set_self inRange]
  · intro other isOther
    rw [atSlot] at isOther
    cases isOther
    simp [Acks, state]
  · intro now env sys
    refine ⟨_, (exoProcessOp_eq_ack now acks).trans (exoSendAck_eq env sys i changed), ?_⟩
    rw [isMid]
    cases env.sendOk <;> rfl

/-- No response leaves anything to acknowledge. -/
theorem Reaction.not_newAck (reaction : Reaction rx before i op after)
    (pending : op.state = .pending) {next : ExoOp} : ¬ NewAck before after slot next := by
  have failed : ∀ {result : Sys}, result.ops = before.ops.set i { op with state := .error } →
      ¬ NewAck before result slot next :=
    fun set => not_newAck_of_set set (by simp [Acks])
  cases reaction with
  | ignored => exact not_newAck_of_same rfl
  | emptied => exact not_newAck_of_same rfl
  | denied => exact failed rfl
  | rejected => exact failed rfl
  | refused => exact failed rfl
  | notFound => exact failed rfl
  | reset => exact failed rfl
  | notified state => simp [pending] at state
  | written => exact not_newAck_of_set rfl (by simp [Acks])
  | delivered => exact not_newAck_of_set rfl (by simp [Acks])
  | activated => exact not_newAck_of_set rfl (by simp [Acks, exoOpInit])
  | notActivated => exact not_newAck_of_set rfl (by simp [Acks, exoOpInit])
  | reactivated =>
      intro new
      rcases of_getElem?_setOp new.atSlot with ⟨-, isNext⟩ | ⟨-, old⟩
      · have acks := new.acks
        simp [isNext, Acks, exoActivate, ExoOp.queue] at acks
      · exact failed rfl ⟨old, new.acks, new.new⟩

end Replies

/-! ## Runs -/

section Arrivals

variable {arrival : Arrival} {after : Sys}

/-- There is at most one op that is notified. -/
theorem Arrival.Notified.unique {slot other : Nat} {op next : ExoOp}
    (notified : arrival.Notified slot op) (also : arrival.Notified other next) : op = next := by
  rcases Nat.lt_trichotomy slot other with before | rfl | behind
  · exact absurd notified.token (also.first slot op before notified.atSlot notified.state)
  · have same := notified.atSlot
    rw [also.atSlot] at same
    exact (Option.some.inj same).symm
  · exact absurd also.token (notified.first other next behind also.atSlot also.state)

/-- A notification for an op has got its reply exactly when a confirmable one is
deliverable and another one is not. -/
theorem Arrival.replied_of_notified {kind : CoapType} {events : List Event} {slot : Nat}
    {op : ExoOp} {result : Sys} (valid : coapValidatePkt arrival.rx.pdu = .ok .ceNone)
    (isKind : coapGetType arrival.rx.pdu = .ok kind) (isMessage : kind = .con ∨ kind = .non)
    (notified : arrival.Notified slot op) (traces : TracesSkipped arrival.before events)
    (round : exoMatchOp arrival.rx (arrival.before.logged events) slot op = .ok (true, result))
    (isAfter : after = result.record (.handled arrival.before.ops arrival.rx.pdu)) :
    Replied arrival.rx arrival.before after ↔
      (kind = .con ↔ Deliverable arrival.rx arrival.before.heap op) := by
  have sends : Sends arrival.before after [] := isAfter ▸ sends_taken traces round
  obtain ⟨-, -, ran⟩ := exoMatchOp_notified isKind isMessage round
  have ops : after.ops = result.ops := by rw [isAfter, Sys.record_ops]
  have heap : (arrival.before.logged events).heap = arrival.before.heap := rfl
  have spec := exoNotified_spec valid ran
  rw [heap] at spec
  obtain ⟨deliverable, mid, changed, isMid, sameMid, acks, set, -⟩ | ⟨unsuited, -, quiet⟩ := spec
  · have leaves : LeavesAck arrival.before after mid :=
      leavesAck_of_set notified.atSlot notified.state (ops.trans set) sameMid acks
    rw [iff_true_right deliverable]
    constructor
    · intro replied
      rcases isMessage with isCon | rfl
      · exact isCon
      · obtain ⟨i, next, new, -⟩ := leaves
        exact absurd new ((replied.other _ isKind nofun).2 i next)
    · rintro rfl
      refine ⟨fun other _ isOther => Or.inr ⟨sends, ?_⟩, fun other isOther notCon => ?_⟩
      · rw [isMid] at isOther
        cases isOther
        exact leaves
      · rw [isKind] at isOther
        cases isOther
        exact absurd rfl notCon
  · have none : ∀ i next, ¬ NewAck arrival.before after i next := by
      intro i next
      rcases quiet with same | set
      · exact not_newAck_of_same (ops.trans same)
      · exact not_newAck_of_set (ops.trans set) (by simp [Acks])
    rw [iff_false_right unsuited]
    constructor
    · rintro replied rfl
      obtain ⟨mid, isMid⟩ : ∃ mid, coapGetMid arrival.rx.pdu = .ok mid := by
        obtain ⟨token, -, round⟩ := Exec.bind_eq_ok.mp round
        obtain ⟨mid, isMid, -⟩ := Exec.bind_eq_ok.mp round
        exact ⟨mid, isMid⟩
      rcases replied.con mid isKind isMid with ⟨token, tkl, sent, -⟩ | ⟨-, i, next, new, -⟩
      · cases sent.unique sends
      · exact none i next new
    · intro notCon
      refine ⟨fun mid isCon => ?_, fun _ _ _ => ⟨sends, none⟩⟩
      rw [isKind] at isCon
      cases isCon
      exact absurd rfl notCon

/-- The first op that does not skip the message is notified. -/
theorem Arrival.notified_of_first {kind : CoapType} {slot : Nat} {op : ExoOp}
    (isKind : coapGetType arrival.rx.pdu = .ok kind) (isMessage : kind = .con ∨ kind = .non)
    (atSlot : arrival.before.ops[slot]? = some op) (state : op.state = .subscribed)
    (token : coapGetToken arrival.rx.pdu = .ok op.token.toNat)
    (first : ∀ j other, j < slot → arrival.before.ops[j]? = some other →
      Skips arrival.rx other) : arrival.Notified slot op := by
  refine ⟨atSlot, state, token, ?_⟩
  intro j other before isOther subscribed sameToken
  have pending := (first j other before isOther
    (.notification isKind isMessage subscribed sameToken)).1
  rw [subscribed] at pending
  cases pending

theorem Arrival.answerable_iff_of_notified {kind : CoapType} {slot : Nat} {op : ExoOp}
    (isKind : coapGetType arrival.rx.pdu = .ok kind) (isMessage : kind = .con ∨ kind = .non)
    (notified : arrival.Notified slot op) :
    (kind = .con ↔ Deliverable arrival.rx arrival.before.heap op) ↔ arrival.Answerable := by
  constructor
  · intro exactly
    refine ⟨fun isCon i next also => ?_, fun isNon i next also => ?_⟩
    · rw [isKind] at isCon
      rw [← notified.unique also]
      exact exactly.mp (Except.ok.inj isCon)
    · rw [isKind] at isNon
      rw [← notified.unique also, ← exactly, Except.ok.inj isNon]
      decide
  · intro answerable
    rcases isMessage with rfl | rfl
    · exact iff_of_true rfl (answerable.con isKind slot op notified)
    · exact iff_of_false nofun (answerable.non isKind slot op notified)

/-- Messages that no op takes notify none. -/
theorem Arrival.not_notified {kind : CoapType} {slot : Nat} {op : ExoOp}
    (isKind : coapGetType arrival.rx.pdu = .ok kind) (isMessage : kind = .con ∨ kind = .non)
    (unmatched : ∀ op ∈ arrival.before.ops, Skips arrival.rx op) : ¬ arrival.Notified slot op := by
  intro notified
  have pending := (unmatched op (List.mem_of_getElem? notified.atSlot)
    (.notification isKind isMessage notified.state notified.token)).1
  rw [notified.state] at pending
  cases pending

/-- Messages of other types. -/
theorem Arrival.answerable_of_other {kind : CoapType}
    (isKind : coapGetType arrival.rx.pdu = .ok kind) (notCon : kind ≠ .con)
    (notNon : kind ≠ .non) : arrival.Answerable := by
  constructor
  · intro isCon
    rw [isKind] at isCon
    exact absurd (Except.ok.inj isCon) notCon
  · intro isNon
    rw [isKind] at isNon
    exact absurd (Except.ok.inj isNon) notNon

theorem replied_of_none {rx : Received} {before : Sys} {kind : CoapType}
    (isKind : coapGetType rx.pdu = .ok kind) (notCon : kind ≠ .con)
    (sends : Sends before after []) (none : ∀ slot op, ¬ NewAck before after slot op) :
    Replied rx before after := by
  refine ⟨fun mid isCon => ?_, fun _ _ _ => ⟨sends, none⟩⟩
  rw [isKind] at isCon
  exact absurd (Except.ok.inj isCon) notCon

/-- The reply to a message that is handled is as it should be exactly when a confirmable
notification is deliverable, and another one is not. -/
theorem Arrival.replied_iff {goOn : Bool} (valid : coapValidatePkt arrival.rx.pdu = .ok .ceNone)
    (ran : exoHandleDatagram arrival.rx arrival.before = .ok (goOn, after)) :
    Replied arrival.rx arrival.before after ↔ arrival.Answerable := by
  cases exoHandleDatagram_cases ran with
  | invalid isStatus failed =>
      rw [valid] at isStatus
      cases isStatus
      exact absurd rfl failed
  | @taken events slot op result _ traces atSlot first round =>
      obtain ⟨takes, reaction⟩ := reaction_of_round round
      cases takes with
      | @notification kind isKind isMessage state token =>
          have notified := Arrival.notified_of_first isKind isMessage atSlot state token first
          rw [Arrival.replied_of_notified valid isKind isMessage notified traces round rfl,
            Arrival.answerable_iff_of_notified isKind isMessage notified]
      | response isKind state =>
          refine iff_of_true (replied_of_none isKind nofun (sends_taken traces round) ?_)
            (Arrival.answerable_of_other isKind nofun nofun)
          exact fun i next new => reaction.not_newAck state ⟨new.atSlot, new.acks, new.new⟩
      | reset isKind =>
          refine iff_of_true (replied_of_none isKind nofun (sends_taken traces round) ?_)
            (Arrival.answerable_of_other isKind nofun nofun)
          rw [exoMatchOp_rst isKind round]
          exact fun i next => not_newAck_of_set rfl (by simp [Acks])
  | @reset events mid token tkl _ _ _ _ traces unmatched isCon isTkl isMid isToken built bytes =>
      have datagram := rst_datagram (tkl_le_of_valid valid isTkl) built bytes
      refine iff_of_true ⟨?_, fun kind isKind notCon => ?_⟩ ⟨fun _ slot op => ?_, fun isNon => ?_⟩
      · intro other _ isOther
        rw [isMid] at isOther
        cases isOther
        refine Or.inl ⟨UInt64.ofNat token, UInt8.ofNat tkl, ⟨_ :: _ :: events, rfl, ?_⟩,
          fun _ _ => not_newAck_of_same rfl⟩
        have none := sentDatagrams_skipped traces
        simp only [sentDatagrams] at none
        simp [sentDatagrams, none, datagram]
      · rw [isCon] at isKind
        exact absurd (Except.ok.inj isKind).symm notCon
      · exact fun notified => absurd notified (Arrival.not_notified isCon (Or.inl rfl) unmatched)
      · rw [isCon] at isNon
        cases isNon
  | @dropped events kind _ traces unmatched isKind notCon =>
      have none := sentDatagrams_skipped traces
      have sends : Sends arrival.before ((arrival.before.logged events).record
          (.handled arrival.before.ops arrival.rx.pdu)) [] :=
        ⟨.handled arrival.before.ops arrival.rx.pdu :: events, rfl,
          by simpa [sentDatagrams] using none⟩
      refine iff_of_true
        (replied_of_none isKind notCon sends fun _ _ => not_newAck_of_same rfl)
        ⟨fun isCon => ?_, fun isNon slot op => ?_⟩
      · rw [isKind] at isCon
        exact absurd (Except.ok.inj isCon) notCon
      · exact fun notified => absurd notified (Arrival.not_notified isNon (Or.inr rfl) unmatched)

/-- What an op does with a message. -/
theorem exoMatchOp_message {rx : Received} {sys : Sys} {i : Nat} {op : ExoOp} {kind : CoapType}
    {token : Nat} (valid : coapValidatePkt rx.pdu = .ok .ceNone)
    (isKind : coapGetType rx.pdu = .ok kind) (isMessage : kind = .con ∨ kind = .non)
    (isToken : coapGetToken rx.pdu = .ok token) :
    exoMatchOp rx sys i op = if op.state = .subscribed ∧ token = op.token.toNat then do
      return (true, ← exoNotified rx sys i op) else return (false, sys) := by
  obtain ⟨mid, isMid⟩ := (readsHeader_of_valid valid).mid
  rw [exoMatchOp, isToken, isMid, isKind]
  rcases isMessage with rfl | rfl <;> rfl

/-- Some op is notified first, or none is notified. -/
theorem Arrival.notified_or (arrival : Arrival) : (∃ slot op, arrival.Notified slot op) ∨
    ∀ (k : Nat) other, arrival.before.ops[k]? = some other → other.state = .subscribed →
      coapGetToken arrival.rx.pdu ≠ .ok other.token.toNat := by
  classical
  by_cases some : ∃ slot : Nat, ∃ op, arrival.before.ops[slot]? = some op ∧
      op.state = .subscribed ∧ coapGetToken arrival.rx.pdu = .ok op.token.toNat
  · obtain ⟨op, atSlot, state, token⟩ := Nat.find_spec some
    refine Or.inl ⟨Nat.find some, op, atSlot, state, token, ?_⟩
    intro j other before isOther subscribed same
    exact Nat.find_min some before ⟨other, isOther, subscribed, same⟩
  · exact Or.inr fun k other isOther subscribed same => some ⟨k, other, isOther, subscribed, same⟩

/-- A message is handled if it is deliverable to the op that it notifies. -/
theorem Arrival.returns_of_deliverable {kind : CoapType}
    (valid : coapValidatePkt arrival.rx.pdu = .ok .ceNone)
    (isKind : coapGetType arrival.rx.pdu = .ok kind) (isMessage : kind = .con ∨ kind = .non)
    (deliverable : ∀ slot op, arrival.Notified slot op →
      Deliverable arrival.rx arrival.before.heap op) :
    (exoHandleDatagram arrival.rx arrival.before).Returns := by
  have header := readsHeader_of_valid valid
  obtain ⟨token, isToken⟩ := header.token
  have passed : ∀ {k : Nat} {other : ExoOp}, (other.state = .subscribed →
      coapGetToken arrival.rx.pdu ≠ .ok other.token.toNat) →
      exoMatchOp arrival.rx arrival.before k other = .ok (false, arrival.before) := by
    intro k other differs
    rw [exoMatchOp_message valid isKind isMessage isToken, if_neg]
    · rfl
    · rintro ⟨subscribed, rfl⟩
      exact differs subscribed isToken
  obtain ⟨slot, op, notified⟩ | none := arrival.notified_or
  · obtain ⟨content, options, payload, got, storable⟩ := deliverable slot op notified
    obtain ⟨mid, isMid⟩ := header.mid
    obtain ⟨heap, stored⟩ := (storePayload_stored_iff valid got).mpr storable
    obtain ⟨result, ran⟩ := @exoNotified_returns arrival.rx arrival.before slot op _ _ content isMid
      options ⟨_, stored⟩
    have same : token = op.token.toNat := by
      have isOp := notified.token
      rw [isToken] at isOp
      exact Except.ok.inj isOp
    have round : exoMatchOp arrival.rx arrival.before slot op = .ok (true, result) := by
      rw [exoMatchOp_message valid isKind isMessage isToken, if_pos ⟨notified.state, same⟩, ran]
      rfl
    refine ⟨_, (exoHandleDatagram_round valid notified.atSlot
      (fun k other before isOther => passed (notified.first k other before isOther))
      (fun taken next also => ?_)).mpr ⟨rfl, result, round, rfl⟩⟩
    rw [round] at also
    cases also
    rfl
  · obtain ⟨after, ran⟩ := exoHandleDatagram_unmatched valid
      fun k other isOther => passed (none k other isOther)
    exact ⟨_, ran⟩

theorem Arrival.disciplined_iff (valid : coapValidatePkt arrival.rx.pdu = .ok .ceNone) :
    Disciplined arrival.rx arrival.before ↔ arrival.Answerable := by
  constructor
  · intro disciplined
    cases ran : exoHandleDatagram arrival.rx arrival.before with
    | ok result => exact (Arrival.replied_iff valid ran).mp (disciplined.replied _ _ ran)
    | error trap =>
        have traps : ¬ (exoHandleDatagram arrival.rx arrival.before).Returns := by
          rintro ⟨result, returned⟩
          rw [ran] at returned
          cases returned
        constructor
        · exact fun isCon => absurd (disciplined.returns isCon) traps
        · intro isNon slot op notified deliverable
          refine traps (Arrival.returns_of_deliverable valid isNon (Or.inr rfl) ?_)
          intro other next also
          rw [← notified.unique also]
          exact deliverable
  · intro answerable
    refine ⟨fun isCon => ?_, fun goOn after ran => (Arrival.replied_iff valid ran).mpr answerable⟩
    exact Arrival.returns_of_deliverable valid isCon (Or.inl rfl) (answerable.con isCon)

end Arrivals

/-- In a run, the replies to all valid datagrams are as they should be exactly when each
confirmable notification for a subscribed op can be delivered, and no other one can. -/
theorem run_disciplined_iff (count : Nat) (heap : Mem) (calls : List UserCall) :
    (∀ arrival ∈ arrivals (powerOn count heap) calls,
      coapValidatePkt arrival.rx.pdu = .ok .ceNone → Disciplined arrival.rx arrival.before) ↔
    ∀ arrival ∈ arrivals (powerOn count heap) calls,
      coapValidatePkt arrival.rx.pdu = .ok .ceNone → arrival.Answerable := by
  constructor
  · intro disciplined arrival member valid
    exact (Arrival.disciplined_iff valid).mp (disciplined arrival member valid)
  · intro answerable arrival member valid
    exact (Arrival.disciplined_iff valid).mpr (answerable arrival member valid)

/-- The subscription of `subscribeCalls`, waiting for notifications. -/
def waitingSubscription : ExoOp :=
  ⟨.subscribe, .subscribed, 1, 3, 8, 8, 120, 0, 0x2211, 120000010, 0⟩

/-- A confirmable notification without payload arrives and gets no reply. -/
theorem not_disciplined_emptyNotification : ¬ ∀ arrival ∈ arrivals (powerOn 2 quietHeap)
    (subscribeCalls ++ [.opDone 1, quietOperate [[0x42, 0x45, 0, 99, 0x11, 0x22]]]),
      coapValidatePkt arrival.rx.pdu = .ok .ceNone →
        Disciplined arrival.rx arrival.before := by
  have computed : (run (powerOn 2 quietHeap) (subscribeCalls ++ [.opDone 1]) >>= fun sys =>
      (exoReady 10 sys).map fun ready => (sys.deviceState, ready.ops)) =
      .ok (.initialized, [sentActivation, waitingSubscription]) := by decide +kernel
  obtain ⟨sys, ran, computed⟩ := Exec.bind_eq_ok.mp computed
  obtain ⟨ready, isReady, values⟩ := Exec.map_eq_ok.mp computed
  simp only [Prod.mk.injEq] at values
  obtain ⟨on, ops⟩ := values
  have member := @mem_arrivals _ _ _ [] ⟨10, [arrives [0x42, 0x45, 0, 99, 0x11, 0x22]], 10,
    fun _ => ⟨quietBuffer [], 0x2211, true, 10, 0⟩⟩ _ _ _ ran (by rw [on]; decide) isReady rfl
  have valid : coapValidatePkt (arrives [0x42, 0x45, 0, 99, 0x11, 0x22]).pdu = .ok .ceNone := by
    decide +kernel
  have isCon : coapGetType (arrives [0x42, 0x45, 0, 99, 0x11, 0x22]).pdu = .ok .con := by
    decide +kernel
  have token : coapGetToken (arrives [0x42, 0x45, 0, 99, 0x11, 0x22]).pdu = .ok 0x2211 := by
    decide +kernel
  have none : coapGetPayload (arrives [0x42, 0x45, 0, 99, 0x11, 0x22]).pdu = .ok ⟨0, none⟩ := by
    decide +kernel
  have notified : Arrival.Notified ⟨ready, arrives [0x42, 0x45, 0, 99, 0x11, 0x22]⟩ 1
      waitingSubscription := by
    refine ⟨by rw [ops]; rfl, rfl, token, ?_⟩
    intro j other before isOther subscribed
    obtain rfl : j = 0 := by omega
    rw [ops] at isOther
    cases isOther
    cases subscribed
  intro disciplined
  have answerable := (Arrival.disciplined_iff valid).mp (disciplined _ member valid)
  obtain ⟨payload, got, nonempty, -⟩ := (answerable.con isCon 1 _ notified).text
  rw [none] at got
  cases got
  exact nonempty rfl

end ExositeCoap.Exosite
