import ExositeCoap.Exosite.Log

/-!
# Resets of notifications

A confirmable message is answered with a reset when no subscribed op has its token.
An op leaves the state `SUBSCRIBED` with every notification and comes back only when
that is acknowledged, or when the user releases the op; a notification that arrives in
between is reset although the subscription is live.
-/

namespace ExositeCoap.Exosite

open Lib Wire Coap

/-- The op stands for a subscription that the platform knows. -/
def Live (op : ExoOp) : Prop :=
  op.type = .subscribe ∧
    op.state ∈ [ExoRequestState.subscribed, .subAck, .subAckNew, .success]

/-- A confirmable notification with content for a live subscription. -/
def Notifies (ops : List ExoOp) (pdu : CoapPdu) : Prop :=
  coapGetType pdu = .ok .con ∧ coapGetCode pdu = .ok ccContent ∧
    ∃ op ∈ ops, Live op ∧ coapGetToken pdu = .ok op.token.toNat

instance (op : ExoOp) : Decidable (Live op) := inferInstanceAs (Decidable (_ ∧ _))

instance (ops : List ExoOp) (pdu : CoapPdu) : Decidable (Notifies ops pdu) :=
  inferInstanceAs (Decidable (_ ∧ _))

/-- Some subscribed op has the token of the message. -/
def Recognised (ops : List ExoOp) (pdu : CoapPdu) : Prop :=
  ∃ op ∈ ops, op.state = .subscribed ∧ coapGetToken pdu = .ok op.token.toNat

instance (ops : List ExoOp) (pdu : CoapPdu) : Decidable (Recognised ops pdu) :=
  inferInstanceAs (Decidable (∃ op ∈ ops, _ ∧ _))

/-- A confirmable message is taken by subscribed ops. -/
theorem recognised_iff_takes {rx : Received} {ops : List ExoOp}
    (isCon : coapGetType rx.pdu = .ok .con) :
    Recognised ops rx.pdu ↔ ∃ op ∈ ops, Takes rx op := by
  simp only [Recognised, takes_message isCon (Or.inl rfl)]

/-- The log of a run: resets answer messages that no subscribed op recognised, and
every such message got its reset. -/
structure RepliesLogged (log : List Event) : Prop where
  unrecognised : ∀ {ops pdu datagram ok}, Event.sent (.rst ops pdu) datagram ok ∈ log →
    coapGetType pdu = .ok .con → Event.handled ops pdu ∈ log ∧ ¬ Recognised ops pdu
  replied : ∀ {ops pdu}, Event.handled ops pdu ∈ log → coapGetType pdu = .ok .con →
    Recognised ops pdu ∨ ∃ datagram ok, Event.sent (.rst ops pdu) datagram ok ∈ log

section Log

variable {sys after : Sys}

/-- Entries of other kinds do not matter. -/
theorem RepliesLogged.cons {log : List Event} {event : Event} (logged : RepliesLogged log)
    (noReset : ∀ ops pdu datagram ok, event ≠ .sent (.rst ops pdu) datagram ok)
    (answered : ∀ ops pdu, event = .handled ops pdu → coapGetType pdu = .ok .con →
      Recognised ops pdu) : RepliesLogged (event :: log) where
  unrecognised := by
    intro ops pdu datagram ok member isCon
    rcases List.mem_cons.mp member with same | old
    · exact absurd same.symm (noReset ops pdu datagram ok)
    · exact (logged.unrecognised old isCon).imp_left (List.mem_cons_of_mem _)
  replied := by
    intro ops pdu member isCon
    rcases List.mem_cons.mp member with same | old
    · exact Or.inl (answered ops pdu same.symm isCon)
    · refine (logged.replied old isCon).imp_right ?_
      rintro ⟨datagram, ok, sent⟩
      exact ⟨datagram, ok, List.mem_cons_of_mem _ sent⟩

/-- Entries that are neither resets nor handled datagrams. -/
theorem RepliesLogged.cons_other {log : List Event} {event : Event} (logged : RepliesLogged log)
    (noReset : ∀ ops pdu datagram ok, event ≠ .sent (.rst ops pdu) datagram ok)
    (notHandled : ∀ ops pdu, event ≠ .handled ops pdu) : RepliesLogged (event :: log) :=
  logged.cons noReset fun ops pdu same => absurd same (notHandled ops pdu)

theorem Logs.repliesLogged {events : List Event} (logs : Logs sys events)
    (logged : RepliesLogged sys.log) : RepliesLogged (events ++ sys.log) := by
  cases logs with
  | nothing => exact logged
  | storedCik => exact logged.cons_other nofun nofun
  | unexpected => exact logged.cons_other nofun nofun
  | acked => exact logged.cons_other nofun nofun
  | @requested _ slot _ request =>
      have built := @RepliesLogged.cons_other _ (.built slot request) logged nofun nofun
      exact built.cons_other nofun nofun
  | handled unanswered =>
      refine logged.cons nofun ?_
      intro ops pdu same isCon
      cases same
      rcases unanswered with taken | notCon
      · exact (recognised_iff_takes isCon).mpr taken
      · exact absurd isCon notCon
  | @replied rx datagram ok unmatched =>
      have unknown : coapGetType rx.pdu = .ok .con → ¬ Recognised sys.ops rx.pdu := by
        rintro isCon ⟨op, member, state, token⟩
        have impossible := (unmatched op member
          (.notification isCon (Or.inl rfl) state token)).1
        rw [state] at impossible
        cases impossible
      constructor
      · intro ops pdu bytes sendOk member isCon
        rcases List.mem_cons.mp member with same | old
        · cases same
          exact ⟨List.mem_cons_of_mem _ List.mem_cons_self, unknown isCon⟩
        · rcases List.mem_cons.mp old with same | old
          · cases same
          · exact (logged.unrecognised old isCon).imp_left fun handled =>
              List.mem_cons_of_mem _ (List.mem_cons_of_mem _ handled)
      · intro ops pdu member isCon
        rcases List.mem_cons.mp member with same | old
        · cases same
        · rcases List.mem_cons.mp old with same | old
          · cases same
            exact Or.inr ⟨datagram, ok, List.mem_cons_self⟩
          · apply (logged.replied old isCon).imp_right
            rintro ⟨bytes, sendOk, sent⟩
            exact ⟨bytes, sendOk, List.mem_cons_of_mem _ (List.mem_cons_of_mem _ sent)⟩

theorem SysStep.repliesLogged (step : SysStep sys after) (logged : RepliesLogged sys.log) :
    RepliesLogged after.log := by
  cases step with
  | lib _ step =>
      obtain ⟨events, logs, grown⟩ := step.logs
      rw [grown]
      exact logs.repliesLogged logged
  | user step =>
      cases step with
      | initialised => exact logged.cons_other nofun nofun
      | queued => exact logged.cons_other nofun nofun
      | opDone => exact logged.cons_other nofun nofun
      | _ => exact logged

theorem run_repliesLogged {count : Nat} {heap : Mem} {calls : List UserCall}
    (ran : run (powerOn count heap) calls = .ok after) : RepliesLogged after.log := by
  apply @SysSteps.invariant (fun sys => RepliesLogged sys.log) _ _ SysStep.repliesLogged
    (run_steps ran)
  constructor
  · rintro _ _ _ _ ⟨⟩
  · rintro _ _ ⟨⟩

/-- In a run, no notification of a live subscription is answered with a reset exactly
when each of them finds a subscribed op with its token. -/
theorem run_notifies_iff {count : Nat} {heap : Mem} {calls : List UserCall}
    (ran : run (powerOn count heap) calls = .ok after) :
    (∀ ops pdu datagram ok, Event.sent (.rst ops pdu) datagram ok ∈ after.log →
      ¬ Notifies ops pdu) ↔
    ∀ ops pdu, Event.handled ops pdu ∈ after.log → Notifies ops pdu → Recognised ops pdu := by
  have logged : RepliesLogged after.log := run_repliesLogged ran
  constructor
  · intro never ops pdu handled notifies
    rcases logged.replied handled notifies.1 with recognised | ⟨datagram, ok, sent⟩
    · exact recognised
    · exact absurd notifies (never ops pdu datagram ok sent)
  · intro always ops pdu datagram ok sent notifies
    obtain ⟨handled, unknown⟩ := logged.unrecognised sent notifies.1
    exact unknown (always ops pdu handled notifies)

end Log

/-- A subscription that has got its first value, which the user has not looked at. -/
def subscribeCalls : List UserCall :=
  [quietInit, .subscribe 1 1 3 8, quietOperate [], quietOperate [[0x60, 0x45, 0, 8, 0xFF, 0x78]]]

/-- A notification for it. -/
def notification : List UInt8 := [0x42, 0x45, 0, 99, 0x11, 0x22, 0xFF, 0x79]

/-- The entry is a reset of a notification for a live subscription. -/
def Event.resetsLive : Event → Bool
  | .sent (.rst ops pdu) _ _ => decide (Notifies ops pdu)
  | _ => false

/-- The notification arrives before the user calls `exo_op_done`, and is reset. -/
theorem not_notifies_early : ∃ after,
    run (powerOn 2 quietHeap) (subscribeCalls ++ [quietOperate [notification]]) = .ok after ∧
      ∃ ops pdu datagram ok, Event.sent (.rst ops pdu) datagram ok ∈ after.log ∧
        Notifies ops pdu := by
  have computed : (run (powerOn 2 quietHeap)
      (subscribeCalls ++ [quietOperate [notification]])).map
        (fun after => after.log.any Event.resetsLive) = .ok true := by decide +kernel
  obtain ⟨after, ran, found⟩ := Exec.map_eq_ok.mp computed
  obtain ⟨event, member, resets⟩ := List.any_eq_true.mp found
  unfold Event.resetsLive at resets
  split at resets
  · exact ⟨after, ran, _, _, _, _, member, of_decide_eq_true resets⟩
  · cases resets

/-- After `exo_op_done` the notification is taken and acknowledged. -/
theorem run_notifies_iff_released : ∃ after,
    run (powerOn 2 quietHeap) (subscribeCalls ++ [.opDone 1, quietOperate [notification]]) =
      .ok after ∧
      ∀ ops pdu datagram ok, Event.sent (.rst ops pdu) datagram ok ∈ after.log →
        ¬ Notifies ops pdu := by
  have computed : (run (powerOn 2 quietHeap)
      (subscribeCalls ++ [.opDone 1, quietOperate [notification]])).map
        (fun after => after.log.all fun event => match event with
          | .handled ops pdu => decide (Notifies ops pdu → Recognised ops pdu)
          | _ => true) = .ok true := by decide +kernel
  obtain ⟨after, ran, all⟩ := Exec.map_eq_ok.mp computed
  refine ⟨after, ran, (run_notifies_iff ran).mpr ?_⟩
  intro ops pdu handled
  exact of_decide_eq_true (List.all_eq_true.mp all _ handled)

end ExositeCoap.Exosite
