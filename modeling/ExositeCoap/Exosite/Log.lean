import ExositeCoap.Exosite.System

/-!
# What a step writes to the log

The log of a run says what the library sent and why.  `LibStep.logs` lists the entries
that a single step of the library can make; facts about the datagrams of whole runs are
derived from it.
-/

namespace ExositeCoap.Exosite

open Lib Wire Coap

/-- The token length field of a datagram. -/
def tokenLength (datagram : List UInt8) : Nat := (datagram.headD 0).toNat % 16

theorem tokenLength_encode {message : Message} (encodable : message.Encodable) :
    tokenLength message.encode = message.token.length := by
  have bound := encodable.token_le
  have first := CoapPdu.Holds.first_toNat encodable.token_le
  change (UInt8.ofNat (64 + message.kind.bits * 16 + message.token.length)).toNat % 16 = _
  omega

/-- The datagram of a request for `op`: as it was built, or with the old message id and
token when it is sent again. -/
inductive Transmits (env : SlotEnv) (sys : Sys) (op : ExoOp) (request : Request)
    (datagram : List UInt8) : (first : Bool) → Prop where
  | first {pdu : CoapPdu} (state : op.state = .new)
      (built : exoBuildRequest env sys op = .ok (some (request, pdu)))
      (bytes : pdu.mem.slice 0 pdu.len = .ok datagram) :
      Transmits env sys op request datagram true
  | again {pdu withMid again : CoapPdu} {midErr tokenErr : CoapError} (waits : Waits op)
      (type : SentAgain op) (built : exoBuildRequest env sys op = .ok (some (request, pdu)))
      (setMid : coapSetMid pdu op.mid = .ok (midErr, withMid))
      (setToken : coapSetToken withMid op.token.toNat op.tkl.toNat = .ok (tokenErr, again))
      (bytes : again.mem.slice 0 again.len = .ok datagram) :
      Transmits env sys op request datagram false

/-- The entries that one step of the library makes, newest first. -/
inductive Logs (sys : Sys) : List Event → Prop where
  | nothing : Logs sys []
  | storedCik (cik : List UInt8) : Logs sys [.storedCik cik]
  /-- an op without type that is about to do something -/
  | unexpected {slot : Nat} {op : ExoOp} (atSlot : sys.ops[slot]? = some op)
      (state : op.state ≠ .null) (type : op.type = .null) : Logs sys [.unexpected slot]
  | handled {rx : Received} {ops : List ExoOp}
      (unanswered : (∃ op ∈ ops, Takes rx op) ∨ coapGetType rx.pdu ≠ .ok .con) :
      Logs sys [.handled ops rx.pdu]
  | replied {rx : Received} {datagram : List UInt8} {ok : Bool}
      (unmatched : ∀ op ∈ sys.ops, Takes rx op → op.state = .pending ∧ op.type = .null) :
      Logs sys [.sent (.rst sys.ops rx.pdu) datagram ok, .handled sys.ops rx.pdu]
  | requested {env : SlotEnv} {slot : Nat} {op : ExoOp} {request : Request}
      {datagram : List UInt8} {first : Bool} (ok : Bool) (atSlot : sys.ops[slot]? = some op)
      (transmits : Transmits env sys op request datagram first) :
      Logs sys [.sent (.request slot first request) datagram ok, .built slot request]
  | acked (slot : Nat) (datagram : List UInt8) (ok : Bool) :
      Logs sys [.sent (.ack slot) datagram ok]

section Log

variable {sys after : Sys}

theorem SlotStep.logs {env : SlotEnv} {i : Nat} {op : ExoOp} (atSlot : sys.ops[i]? = some op)
    (step : SlotStep env sys i op after) :
    ∃ events, Logs sys events ∧ after.log = events ++ sys.log := by
  cases step with
  | unexpectedNew state type =>
      exact ⟨_, .unexpected atSlot (by simp [state]) type, rfl⟩
  | unexpectedWait waits type =>
      have state : op.state ≠ .null := by
        rcases waits with state | state <;> simp [state]
      exact ⟨_, .unexpected atSlot state type, rfl⟩
  | sent state built bytes => exact ⟨_, .requested true atSlot (.first state built bytes), rfl⟩
  | unsent state built bytes => exact ⟨_, .requested false atSlot (.first state built bytes), rfl⟩
  | resent waits type _ built setMid setToken bytes =>
      exact ⟨_, .requested true atSlot (.again waits type built setMid setToken bytes), rfl⟩
  | unresent waits type built setMid setToken bytes =>
      exact ⟨_, .requested false atSlot (.again waits type built setMid setToken bytes), rfl⟩
  | acked => exact ⟨_, .acked _ _ _, rfl⟩
  | unacked => exact ⟨_, .acked _ _ _, rfl⟩
  | _ => exact ⟨_, .nothing, rfl⟩

/-- A step of the library makes entries of these kinds, and forgets none. -/
theorem LibStep.logs (step : LibStep sys after) :
    ∃ events, Logs sys events ∧ after.log = events ++ sys.log := by
  cases step with
  | react _ _ reaction =>
      cases reaction with
      | activated => exact ⟨_, .storedCik _, rfl⟩
      | _ => exact ⟨_, .nothing, rfl⟩
  | passed atSlot state type => exact ⟨_, .unexpected atSlot (by simp [state]) type, rfl⟩
  | handled unanswered => exact ⟨_, .handled unanswered, rfl⟩
  | replied unmatched => exact ⟨_, .replied unmatched, rfl⟩
  | slot atSlot step => exact step.logs atSlot
  | activate => exact ⟨_, .nothing, rfl⟩

/-- Only `exo_init` makes entries of its kind. -/
theorem LibStep.count_initialised (step : LibStep sys after) :
    after.log.count .initialised = sys.log.count .initialised := by
  obtain ⟨events, logs, grown⟩ := step.logs
  rw [grown, List.count_append]
  cases logs <;> simp

/-- The log only grows. -/
theorem SysStep.log_subset (step : SysStep sys after) : sys.log ⊆ after.log := by
  cases step with
  | lib _ step =>
      obtain ⟨events, -, grown⟩ := step.logs
      rw [grown]
      exact List.subset_append_right _ _
  | user step => cases step <;> simp

/-- The library writes to the front of the log. -/
theorem LibSteps.log_suffix (steps : LibSteps sys after) : sys.log <:+ after.log := by
  induction steps with
  | refl => exact List.suffix_rfl
  | tail _ step ih =>
      obtain ⟨events, -, grown⟩ := step.logs
      exact ih.trans ⟨events, grown.symm⟩

/-- So does everything that happens in a run. -/
theorem SysSteps.log_suffix (steps : SysSteps sys after) : sys.log <:+ after.log := by
  induction steps with
  | refl => exact List.suffix_rfl
  | tail _ step ih =>
      refine ih.trans ?_
      cases step with
      | lib _ step => exact LibSteps.log_suffix (.single step)
      | user step =>
          cases step with
          | initialised => exact ⟨[_], rfl⟩
          | queued => exact ⟨[_], rfl⟩
          | opDone => exact ⟨[_], rfl⟩
          | _ => exact ⟨[], rfl⟩

end Log

end ExositeCoap.Exosite
