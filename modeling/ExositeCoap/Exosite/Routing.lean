import ExositeCoap.Exosite.Frozen
import ExositeCoap.Exosite.Response
import ExositeCoap.Exosite.Typing

/-!
# Message ids of pending requests

Every request that is built takes a message id from a 16-bit counter, and a pending op
keeps the id of its first request.  Counting the requests built since then tells the
pending ops apart (`Numbered`), as long as the counter has not come round; so an
acknowledgement reaches the op that it answers, and no other.
-/

namespace ExositeCoap.Exosite

open Lib Wire Coap

/-! ## Requests in the log -/

/-- Number of requests built since the last first transmission from `slot`. -/
def builtSince (slot : Nat) : List Event → Nat
  | [] => 0
  | .sent (.request i true _) _ true :: rest => if i = slot then 0 else builtSince slot rest
  | .built _ _ :: rest => builtSince slot rest + 1
  | _ :: rest => builtSince slot rest

/-- The last datagram that went out from `slot` as a first transmission. -/
def firstRequest (slot : Nat) : List Event → Option (List UInt8)
  | [] => none
  | .sent (.request i true _) datagram true :: rest =>
    if i = slot then some datagram else firstRequest slot rest
  | _ :: rest => firstRequest slot rest

/-- The message id of the datagram, read with the getter of the library. -/
def Carries (datagram : List UInt8) (mid : UInt16) : Prop :=
  coapGetMid ⟨1, datagram, datagram.length, datagram.length⟩ = .ok mid

theorem carries_of_slice {pdu : CoapPdu} {datagram : List UInt8} {mid : UInt16}
    (bytes : pdu.mem.slice 0 pdu.len = .ok datagram) (long : 4 ≤ pdu.len)
    (isMid : coapGetMid pdu = .ok mid) : Carries datagram mid := by
  have same : ∀ {address byte}, address < pdu.len → pdu.mem.read address = .ok byte →
      Mem.read datagram address = .ok byte := by
    intro address byte inside loaded
    unfold Mem.slice at bytes
    split_ifs at bytes
    cases bytes
    rw [Mem.read_eq_ok] at loaded ⊢
    rw [List.drop_zero, List.getElem?_take_of_lt inside]
    exact loaded
  obtain ⟨high, readHigh, isMid⟩ := Exec.bind_eq_ok.mp isMid
  obtain ⟨low, readLow, isMid⟩ := Exec.bind_eq_ok.mp isMid
  unfold Carries coapGetMid
  rw [same (by omega) readHigh, Exec.ok_bind, same (by omega) readLow, Exec.ok_bind]
  exact isMid

/-! ## What a step does to the numbering -/

/-- The op in `slot` is pending, with message id `mid`. -/
def Pending (sys : Sys) (slot : Nat) (mid : UInt16) : Prop :=
  ∃ op, sys.ops[slot]? = some op ∧ op.state = .pending ∧ op.mid = mid

/-- What a step does, as far as message ids are concerned. -/
inductive Numbers (sys after : Sys) : Prop where
  /-- some requests are built, and no op becomes pending -/
  | keeps {more : Nat} (built : ∀ slot, builtSince slot after.log = builtSince slot sys.log + more)
      (request : ∀ slot, firstRequest slot after.log = firstRequest slot sys.log)
      (counter : after.messageIdCounter = sys.messageIdCounter + UInt16.ofNat more)
      (pending : ∀ slot mid, Pending after slot mid → Pending sys slot mid)
  /-- a request is built, and goes out from slot `i` for the first time -/
  | sent {i : Nat} {datagram : List UInt8} (reset : builtSince i after.log = 0)
      (built : ∀ slot, slot ≠ i → builtSince slot after.log = builtSince slot sys.log + 1)
      (newest : firstRequest i after.log = some datagram)
      (carries : Carries datagram sys.messageIdCounter)
      (request : ∀ slot, slot ≠ i → firstRequest slot after.log = firstRequest slot sys.log)
      (counter : after.messageIdCounter = sys.messageIdCounter + 1)
      (isMid : ∀ mid, Pending after i mid → mid = sys.messageIdCounter)
      (pending : ∀ slot mid, slot ≠ i → Pending after slot mid → Pending sys slot mid)

section Steps

variable {sys after : Sys}

/-- An op is replaced by one that is not pending, or pending with the same id. -/
theorem pending_of_setOp {i slot : Nat} {op changed : ExoOp} {mid : UInt16}
    (isOp : sys.ops[i]? = some op)
    (keeps : changed.state = .pending → op.state = .pending ∧ op.mid = changed.mid)
    (pending : Pending (sys.setOp i changed) slot mid) : Pending sys slot mid := by
  obtain ⟨found, isFound, state, isMid⟩ := pending
  obtain ⟨rfl, rfl⟩ | ⟨-, old⟩ := of_getElem?_setOp isFound
  · obtain ⟨before, same⟩ := keeps state
    exact ⟨op, isOp, before, same.trans isMid⟩
  · exact ⟨found, old, state, isMid⟩

/-- A step that builds nothing and makes no op pending. -/
theorem Numbers.quiet (built : ∀ slot, builtSince slot after.log = builtSince slot sys.log)
    (request : ∀ slot, firstRequest slot after.log = firstRequest slot sys.log)
    (counter : after.messageIdCounter = sys.messageIdCounter)
    (pending : ∀ slot mid, Pending after slot mid → Pending sys slot mid) :
    Numbers sys after :=
  @Numbers.keeps _ _ 0 built request (by rw [counter]; exact (UInt16.add_zero _).symm) pending

theorem Reaction.numbers {rx : Received} {i : Nat} {op : ExoOp}
    (atSlot : sys.ops[i]? = some op) (reaction : Reaction rx sys i op after) :
    Numbers sys after := by
  have replaced : ∀ {changed : ExoOp}, changed.state ≠ .pending →
      ∀ slot mid, Pending (sys.setOp i changed) slot mid → Pending sys slot mid :=
    fun ended slot mid => pending_of_setOp atSlot fun state => absurd state ended
  cases reaction with
  | ignored => exact .quiet (fun _ => rfl) (fun _ => rfl) rfl fun _ _ => id
  | emptied => exact .quiet (fun _ => rfl) (fun _ => rfl) rfl fun _ _ => id
  | notified before acks =>
      refine .quiet (fun _ => rfl) (fun _ => rfl) rfl (replaced ?_)
      rcases acks with rfl | rfl <;> simp
  | activated =>
      exact .quiet (fun _ => rfl) (fun _ => rfl) rfl (replaced (by simp [exoOpInit]))
  | notActivated =>
      exact .quiet (fun _ => rfl) (fun _ => rfl) rfl (replaced (by simp [exoOpInit]))
  | reactivated _ _ _ atZero =>
      refine .quiet (fun _ => rfl) (fun _ => rfl) rfl fun slot mid pending => ?_
      exact replaced (by simp) slot mid
        (pending_of_setOp atZero (by simp [exoActivate, ExoOp.queue]) pending)
  | _ => exact .quiet (fun _ => rfl) (fun _ => rfl) rfl (replaced (by simp))

/-- The message id of a request that was just built. -/
theorem exoBuildRequest_mid {env : SlotEnv} {op : ExoOp} {request : Request} {pdu : CoapPdu}
    (built : exoBuildRequest env sys op = .ok (some (request, pdu))) :
    4 ≤ pdu.len ∧ coapGetMid pdu = .ok sys.messageIdCounter := by
  obtain ⟨floor, message, simulates, builtFor⟩ := exoBuildRequest_spec built
  refine ⟨?_, builtFor.mid ▸ simulates.holds.coapGetMid_eq⟩
  rw [simulates.holds.len_eq, Message.encode_length]
  omega

theorem SlotStep.numbers {env : SlotEnv} {i : Nat} {op : ExoOp}
    (atSlot : sys.ops[i]? = some op) (step : SlotStep env sys i op after) :
    Numbers sys after := by
  cases step with
  | idle => exact .quiet (fun _ => rfl) (fun _ => rfl) rfl fun _ _ => id
  | unexpectedNew state =>
      refine .quiet (fun _ => rfl) (fun _ => rfl) rfl fun slot mid pending => ?_
      exact pending_of_setOp atSlot (by simp [state]) pending
  | unexpectedWait => exact .quiet (fun _ => rfl) (fun _ => rfl) rfl fun _ _ => id
  | @sent _ _ datagram _ _ _ built bytes isMid =>
      obtain ⟨long, sameMid⟩ := exoBuildRequest_mid built
      rw [sameMid] at isMid
      cases isMid
      refine @Numbers.sent _ _ i datagram (if_pos rfl) ?_ (if_pos rfl)
        (carries_of_slice bytes long sameMid) ?_ rfl ?_ ?_
      · exact fun slot different => if_neg different.symm
      · exact fun slot different => if_neg different.symm
      · rintro mid ⟨found, isFound, -, isMid⟩
        obtain ⟨-, rfl⟩ | ⟨different, -⟩ := of_getElem?_setOp isFound
        · exact isMid.symm
        · exact absurd rfl different
      · rintro slot mid different ⟨found, isFound, state, isMid⟩
        obtain ⟨same, -⟩ | ⟨-, old⟩ := of_getElem?_setOp isFound
        · exact absurd same.symm different
        · exact ⟨found, old, state, isMid⟩
  | unsent => exact @Numbers.keeps _ _ 1 (fun _ => rfl) (fun _ => rfl) rfl fun _ _ => id
  | resent =>
      refine @Numbers.keeps _ _ 1 (fun _ => rfl) (fun _ => rfl) rfl fun slot mid pending => ?_
      exact pending_of_setOp atSlot (by exact fun state => ⟨state, rfl⟩) pending
  | unresent => exact @Numbers.keeps _ _ 1 (fun _ => rfl) (fun _ => rfl) rfl fun _ _ => id
  | gaveUp =>
      refine .quiet (fun _ => rfl) (fun _ => rfl) rfl fun slot mid pending => ?_
      exact pending_of_setOp atSlot (by simp) pending
  | renewed =>
      refine .quiet (fun _ => rfl) (fun _ => rfl) rfl fun slot mid pending => ?_
      exact pending_of_setOp atSlot (by simp) pending
  | acked isState =>
      refine .quiet (fun _ => rfl) (fun _ => rfl) rfl fun slot mid pending => ?_
      refine pending_of_setOp atSlot ?_ pending
      rcases isState with ⟨-, rfl⟩ | ⟨-, rfl⟩ <;> simp
  | unacked => exact .quiet (fun _ => rfl) (fun _ => rfl) rfl fun _ _ => id

theorem LibStep.numbers (step : LibStep sys after) : Numbers sys after := by
  cases step with
  | react atSlot _ reaction => exact reaction.numbers atSlot
  | slot atSlot step => exact step.numbers atSlot
  | activate atSlot =>
      refine .quiet (fun _ => rfl) (fun _ => rfl) rfl fun slot mid pending => ?_
      exact pending_of_setOp atSlot (by simp [exoActivate, ExoOp.queue]) pending
  | _ => exact .quiet (fun _ => rfl) (fun _ => rfl) rfl fun _ _ => id

/-! ## The invariant -/

/-- Pending ops and the message ids of their requests. -/
structure Numbered (sys : Sys) : Prop where
  started : sys.deviceState ≠ .uninitialized → sys.log.count .initialised ≠ 0
  silent : sys.log.count .initialised = 0 → ∀ slot mid, ¬ Pending sys slot mid
  /-- a pending op is as far behind the counter as requests were built since; the
  counter that counts is the one before `exo_init` failed, if it did -/
  behind : sys.log.count .initialised ≤ 1 → ∃ counter : UInt16,
    (sys.deviceState ≠ .uninitialized → counter = sys.messageIdCounter) ∧
      ∀ slot mid, Pending sys slot mid →
        (mid.toNat + 1 + builtSince slot sys.log) % 65536 = counter.toNat
  /-- different ops were sent at different times -/
  apart : ∀ i j left right, i ≠ j → Pending sys i left → Pending sys j right →
    builtSince i sys.log ≠ builtSince j sys.log
  request : ∀ slot mid, Pending sys slot mid →
    ∃ datagram, firstRequest slot sys.log = some datagram ∧ Carries datagram mid

theorem Numbered.lib (numbered : Numbered sys) (step : LibStep sys after)
    (on : sys.deviceState ≠ .uninitialized) : Numbered after := by
  have inits := step.count_initialised
  have begun := numbered.started on
  refine ⟨fun _ => by rwa [inits], fun none => absurd (inits ▸ none) begun, ?_, ?_, ?_⟩
  · intro once
    rw [inits] at once
    obtain ⟨counter, current, distance⟩ := numbered.behind once
    refine ⟨after.messageIdCounter, fun _ => rfl, ?_⟩
    intro slot mid pending
    rw [current on] at distance
    cases step.numbers with
    | keeps built _ next old =>
        have before := distance slot mid (old slot mid pending)
        rw [built, next, UInt16.toNat_add, ← before, UInt16.toNat_ofNat']
        omega
    | @sent i _ reset built _ _ _ next isMid old =>
        rw [next, UInt16.toNat_add]
        by_cases same : slot = i
        · subst same
          rw [isMid mid pending, reset]
          rfl
        · have before := distance slot mid (old slot mid same pending)
          rw [built slot same, ← before]
          change _ = (_ + 1) % 65536
          omega
  · intro i j left right different first second
    cases step.numbers with
    | keeps built _ _ old =>
        have before := numbered.apart i j left right different (old i left first)
          (old j right second)
        rw [built, built]
        omega
    | @sent k _ reset built _ _ _ _ _ old =>
        by_cases isFirst : i = k
        · subst isFirst
          rw [reset, built j different.symm]
          omega
        · by_cases isSecond : j = k
          · subst isSecond
            rw [reset, built i different]
            omega
          · have before := numbered.apart i j left right different
              (old i left isFirst first) (old j right isSecond second)
            rw [built i isFirst, built j isSecond]
            omega
  · intro slot mid pending
    cases step.numbers with
    | keeps _ request _ old =>
        rw [request]
        exact numbered.request slot mid (old slot mid pending)
    | @sent i datagram _ _ newest carries request _ isMid old =>
        by_cases same : slot = i
        · subst same
          rw [isMid mid pending]
          exact ⟨datagram, newest, carries⟩
        · rw [request slot same]
          exact numbered.request slot mid (old slot mid same pending)

/-- A call of the user that queues or releases an op. -/
theorem Numbered.quiet (numbered : Numbered sys)
    (built : ∀ slot, builtSince slot after.log = builtSince slot sys.log)
    (request : ∀ slot, firstRequest slot after.log = firstRequest slot sys.log)
    (inits : after.log.count .initialised = sys.log.count .initialised)
    (device : after.deviceState = sys.deviceState)
    (counter : after.messageIdCounter = sys.messageIdCounter)
    (pending : ∀ slot mid, Pending after slot mid → Pending sys slot mid) : Numbered after := by
  constructor
  · rw [device, inits]
    exact numbered.started
  · rw [inits]
    exact fun none slot mid isPending => numbered.silent none slot mid (pending slot mid isPending)
  · rw [inits, device, counter]
    intro once
    obtain ⟨current, isCurrent, distance⟩ := numbered.behind once
    refine ⟨current, isCurrent, fun slot mid isPending => ?_⟩
    rw [built]
    exact distance slot mid (pending slot mid isPending)
  · intro i j left right different first second
    rw [built, built]
    exact numbered.apart i j left right different (pending i left first) (pending j right second)
  · intro slot mid isPending
    rw [request]
    exact numbered.request slot mid (pending slot mid isPending)

theorem Numbered.user (numbered : Numbered sys) (step : UserStep sys after) :
    Numbered after := by
  cases step with
  | initFailed =>
      refine ⟨fun on => absurd rfl on, numbered.silent, ?_, numbered.apart, numbered.request⟩
      intro once
      obtain ⟨counter, -, distance⟩ := numbered.behind once
      exact ⟨counter, fun on => absurd rfl on, distance⟩
  | @initialised counter =>
      have inits : (Event.initialised :: sys.log).count .initialised =
          sys.log.count .initialised + 1 := List.count_cons_self
      refine ⟨fun _ => ?_, fun none => ?_, fun once => ?_, numbered.apart, numbered.request⟩
      · rw [Sys.record_log, inits]
        exact Nat.succ_ne_zero _
      · rw [Sys.record_log, inits] at none
        cases none
      · -- nothing was sent before the first initialisation
        rw [Sys.record_log, inits] at once
        exact ⟨counter, fun _ => rfl, fun slot mid pending =>
          absurd pending (numbered.silent (by omega) slot mid)⟩
  | queued atSlot =>
      refine numbered.quiet (fun _ => rfl) (fun _ => rfl) (by simp) rfl rfl
        fun slot mid pending => ?_
      exact pending_of_setOp atSlot (by simp [ExoOp.queue]) pending
  | opInit atSlot =>
      refine numbered.quiet (fun _ => rfl) (fun _ => rfl) rfl rfl rfl fun slot mid pending => ?_
      exact pending_of_setOp atSlot (by simp [exoOpInit]) pending
  | opDone atSlot =>
      refine numbered.quiet (fun _ => rfl) (fun _ => rfl) (by simp) rfl rfl
        fun slot mid pending => ?_
      refine pending_of_setOp atSlot (fun state => ?_) pending
      unfold exoOpDone at state
      split_ifs at state
      cases state
  | memory => exact ⟨numbered.started, numbered.silent, numbered.behind, numbered.apart,
      numbered.request⟩

theorem numbered_powerOn (count : Nat) (heap : Mem) : Numbered (powerOn count heap) := by
  have none : ∀ slot mid, ¬ Pending (powerOn count heap) slot mid := by
    rintro slot mid ⟨op, atSlot, state, -⟩
    have isInit : op = exoOpInit := List.eq_of_mem_replicate (List.mem_of_getElem? atSlot)
    rw [isInit] at state
    cases state
  exact ⟨fun on => absurd rfl on, fun _ => none,
    fun _ => ⟨0, fun on => absurd rfl on, fun slot mid pending => absurd pending (none slot mid)⟩,
    fun i _ left _ _ pending => absurd pending (none i left),
    fun slot mid pending => absurd pending (none slot mid)⟩

theorem SysStep.numbered (step : SysStep sys after) (numbered : Numbered sys) :
    Numbered after := by
  cases step with
  | lib on step => exact numbered.lib step on
  | user step => exact numbered.user step

/-! ## Routing -/

/-- While the counter has not come round, pending ops have different message ids. -/
theorem Numbered.mid_ne (numbered : Numbered sys) (once : sys.log.count .initialised ≤ 1)
    (recent : ∀ slot mid, Pending sys slot mid → builtSince slot sys.log < 65536)
    {i j : Nat} {left right : UInt16} (different : i ≠ j) (first : Pending sys i left)
    (second : Pending sys j right) : left ≠ right := by
  rintro rfl
  obtain ⟨counter, -, distance⟩ := numbered.behind once
  have apart := numbered.apart i j left left different first second
  have leftDistance := distance i left first
  have rightDistance := distance j left second
  have leftRecent := recent i left first
  have rightRecent := recent j left second
  omega

/-- What handling a valid acknowledgement changes. -/
inductive Routes (rx : Received) (sys after : Sys) : Prop where
  /-- no op waits for it, and nothing changes -/
  | unmatched (none : ∀ op ∈ sys.ops, ¬ AwaitedBy rx op) (ops : after.ops = sys.ops)
      (heap : after.heap = sys.heap) (cik : after.cik = sys.cik)
      (deviceState : after.deviceState = sys.deviceState)
  /-- one op waits for it, whose first request had this message id; other ops and
  buffers stay, but for slot 0 when the code is 4.01 -/
  | matched {slot : Nat} {op : ExoOp} {datagram : List UInt8}
      (atSlot : sys.ops[slot]? = some op) (awaited : AwaitedBy rx op)
      (request : firstRequest slot sys.log = some datagram) (carries : Carries datagram op.mid)
      (unique : ∀ i other, sys.ops[i]? = some other → AwaitedBy rx other → i = slot)
      (ops : ∀ i, i ≠ slot → (i = 0 → coapGetCode rx.pdu ≠ .ok ccUnauthorized) →
        after.ops[i]? = sys.ops[i]?)
      (heap : ∀ address, ¬ Touches rx.pdu op address →
        after.heap[address]? = sys.heap[address]?)
      (buffers : ∀ i other address, i ≠ slot → sys.ops[i]? = some other →
        InValue other address → ¬ InValue op address →
          after.heap[address]? = sys.heap[address]?)

/-- A reaction changes only the op that reacts, and slot 0 when the code is 4.01. -/
theorem Reaction.ops {rx : Received} {slot i : Nat} {op : ExoOp}
    (reaction : Reaction rx sys slot op after) (other : i ≠ slot)
    (authorised : i = 0 → coapGetCode rx.pdu ≠ .ok ccUnauthorized) :
    after.ops[i]? = sys.ops[i]? := by
  cases reaction with
  | ignored => rfl
  | emptied => rfl
  | reactivated _ _ code =>
      have notZero : i ≠ 0 := fun zero => authorised zero code
      simp only [Sys.setOp_ops]
      rw [List.getElem?_set_ne notZero.symm, List.getElem?_set_ne other.symm]
  | _ => exact List.getElem?_set_ne other.symm

end Steps

section Acks

variable {sys : Sys} {count : Nat} {heap : Mem}

/-- The routing of an acknowledgement, whatever its payload does to the buffers of other
ops. -/
theorem Numbered.routes {rx : Received} {goOn : Bool} {after : Sys} (numbered : Numbered sys)
    (typed : AllTyped sys)
    (distinct : ∀ i j left right, i ≠ j → Pending sys i left → Pending sys j right → left ≠ right)
    (isAck : IsAck rx) (ran : exoHandleDatagram rx sys = .ok (goOn, after))
    (buffers : ∀ other ∈ sys.ops, ∀ address, InValue other address →
      after.heap[address]? = sys.heap[address]? ∨
        ∃ op ∈ sys.ops, AwaitedBy rx op ∧ InValue op address) :
    Routes rx sys after := by
  have unique : ∀ (i j : Nat) op other, sys.ops[i]? = some op → AwaitedBy rx op →
      sys.ops[j]? = some other → AwaitedBy rx other → i = j := by
    intro i j op other isOp awaited isOther waits
    by_contra different
    have same := awaited.mid
    rw [waits.mid] at same
    exact distinct j i other.mid op.mid (Ne.symm different) ⟨other, isOther, waits.state, rfl⟩
      ⟨op, isOp, awaited.state, rfl⟩ (Except.ok.inj same)
  obtain ⟨events, ⟨rfl, unmatched⟩ | ⟨slot, op, result, atSlot, awaited, reaction, rfl⟩⟩ :=
    exoHandleDatagram_ack isAck ran
  · refine .unmatched ?_ rfl rfl rfl rfl
    intro op member awaited
    obtain ⟨slot, inRange, isOp⟩ := List.getElem_of_mem member
    exact (typed (List.getElem?_eq_some_iff.mpr ⟨inRange, isOp⟩)).of_waits
      (Or.inr awaited.state) (unmatched op member awaited)
  · obtain ⟨datagram, request, carries⟩ :=
      numbered.request slot op.mid ⟨op, atSlot, awaited.state, rfl⟩
    refine .matched atSlot awaited request carries
      (fun i other isOther waits => unique i slot other op isOther waits atSlot awaited)
      (fun i other authorised => reaction.ops other authorised) ?_ ?_
    · intro address outside
      exact (reaction.heap address).resolve_right fun inside => outside inside.2
    · intro i other address different isOther inside outside
      obtain same | ⟨taker, member, waits, value⟩ :=
        buffers other (List.mem_of_getElem? isOther) address inside
      · exact same
      · obtain ⟨j, inRange, isTaker⟩ := List.getElem_of_mem member
        have isTaker := List.getElem?_eq_some_iff.mpr ⟨inRange, isTaker⟩
        have here := unique j slot taker op isTaker waits atSlot awaited
        rw [here, atSlot] at isTaker
        cases isTaker
        exact absurd value outside

/-- In every reachable state after one successful `exo_init`, as long as fewer than
65536 requests were built since the oldest pending op was first sent, pending ops have
different message ids, and an acknowledgement is routed to the op that it answers,
exactly when it does not clear a byte in the buffer of an op. -/
theorem reached_routes_iff (reached : SysSteps (powerOn count heap) sys)
    (once : sys.log.count .initialised = 1)
    (recent : ∀ slot mid, Pending sys slot mid → builtSince slot sys.log < 65536) :
    (∀ i j left right, i ≠ j → Pending sys i left → Pending sys j right → left ≠ right) ∧
    ∀ rx goOn after, IsAck rx → exoHandleDatagram rx sys = .ok (goOn, after) →
      (Routes rx sys after ↔ ∀ other ∈ sys.ops, ∀ address, InValue other address →
        ¬ Arrival.Clears ⟨sys, rx⟩ address) := by
  have numbered := reached.invariant SysStep.numbered (numbered_powerOn count heap)
  have distinct : ∀ i j left right, i ≠ j → Pending sys i left → Pending sys j right →
      left ≠ right :=
    fun i j left right different => numbered.mid_ne (by omega) recent different
  refine ⟨distinct, ?_⟩
  intro rx goOn after isAck ran
  constructor
  · rintro routes other member address inside ⟨strays, nonzero⟩
    have zero := strays.zero ran
    obtain ⟨slot, op, payload, copies, -, -, -, outside⟩ := strays
    have awaits := isAck.takes_iff.mp copies.copies.takes
    suffices same : after.heap[address]? = sys.heap[address]? from nonzero (same ▸ zero)
    cases routes with
    | unmatched none => exact absurd awaits (none op (List.mem_of_getElem? copies.atSlot))
    | @matched matched taken _ isTaken _ _ _ unique _ _ buffers =>
        have here := unique slot op copies.atSlot awaits
        subst here
        rw [copies.atSlot] at isTaken
        cases isTaken
        obtain ⟨i, inRange, isOther⟩ := List.getElem_of_mem member
        have isOther := List.getElem?_eq_some_iff.mpr ⟨inRange, isOther⟩
        refine buffers i other address ?_ isOther inside outside
        rintro rfl
        rw [copies.atSlot] at isOther
        cases isOther
        exact outside inside
  · intro clears
    refine numbered.routes (allTyped_of_reached reached).1 distinct isAck ran ?_
    intro other member address inside
    obtain same | ⟨slot, op, copies, value⟩ | strays := @Arrival.heap_cases ⟨sys, rx⟩ _ _ address ran
    · exact Or.inl same
    · exact Or.inr ⟨op, List.mem_of_getElem? copies.atSlot,
        isAck.takes_iff.mp copies.copies.takes, value⟩
    · have byte := Classical.not_not.mp fun byte => clears other member address inside ⟨strays, byte⟩
      exact Or.inl ((strays.zero ran).trans byte.symm)

theorem builtSince_le_length (slot : Nat) (log : List Event) :
    builtSince slot log ≤ log.length := by
  fun_induction builtSince slot log with
  | case1 => exact Nat.le_refl _
  | case2 => exact Nat.zero_le _
  | case3 => exact Nat.le_succ_of_le (by assumption)
  | case4 => exact Nat.succ_le_succ (by assumption)
  | case5 => exact Nat.le_succ_of_le (by assumption)

end Acks

/-- The user reads to address 3 and, without a buffer, to address 5; the requests are
sent. -/
def strayReads : List UserCall := [quietInit, .read 1 1 3 5, .read 2 1 5 0, quietOperate []]

/-- The string "a" at address 1, and other bytes behind it. -/
def markedHeap : Mem := [0, 0x61, 0] ++ List.replicate 10 0x78

theorem recent_of_log {sys : Sys} (short : sys.log.length < 65536) (slot : Nat) (mid : UInt16)
    (_ : Pending sys slot mid) : builtSince slot sys.log < 65536 :=
  (builtSince_le_length slot sys.log).trans_lt short

/-- The read without buffer is answered without a payload, and the zero goes to the buffer
of the other read. -/
theorem not_routes_strayZero : ∃ sys after,
    run (powerOn 3 markedHeap) strayReads = .ok sys ∧ sys.log.count .initialised = 1 ∧
      (∀ slot mid, Pending sys slot mid → builtSince slot sys.log < 65536) ∧
      IsAck (arrives [0x60, 0x45, 0, 9]) ∧
      exoHandleDatagram (arrives [0x60, 0x45, 0, 9]) sys = .ok (true, after) ∧
        ¬ Routes (arrives [0x60, 0x45, 0, 9]) sys after := by
  have computed : (run (powerOn 3 markedHeap) strayReads >>= fun sys =>
      (exoHandleDatagram (arrives [0x60, 0x45, 0, 9]) sys).map fun result =>
        (sys.ops, (sys.log.count .initialised, sys.log.length), result.1,
          sys.heap[5]?, result.2.heap[5]?)) =
      .ok ([sentActivation, { sentRead with valueMax := 5 }, otherRead 5 0], (1, 9), true,
        some 0x78, some 0) := by decide +kernel
  obtain ⟨sys, ran, handled⟩ := Exec.bind_eq_ok.mp computed
  obtain ⟨⟨goOn, after⟩, handled, values⟩ := Exec.map_eq_ok.mp handled
  simp only [Prod.mk.injEq] at values
  obtain ⟨ops, ⟨once, short⟩, rfl, before, zero⟩ := values
  have changed : after.heap[5]? ≠ sys.heap[5]? := by
    rw [before, zero]
    decide
  refine ⟨sys, after, ran, once, recent_of_log (by omega), ⟨by decide +kernel, by decide +kernel⟩,
    handled, fun routes => ?_⟩
  have mid : coapGetMid (arrives [0x60, 0x45, 0, 9]).pdu = .ok 9 := by decide +kernel
  cases routes with
  | unmatched _ _ same => exact changed (by rw [same])
  | @matched slot op _ atSlot awaited _ _ _ _ _ buffers =>
      have isMid := awaited.mid
      rw [mid] at isMid
      rw [ops] at atSlot buffers
      match slot with
      | 0 =>
          cases atSlot
          cases isMid
      | 1 =>
          cases atSlot
          cases isMid
      | 2 =>
          cases atSlot
          exact changed (buffers 1 _ 5 (by decide) rfl (by decide) (by decide))
      | slot + 3 => cases atSlot

/-- A read and the activation request are pending; the read is answered. -/
theorem reached_routes_iff_read : ∃ sys after,
    run (powerOn 2 quietHeap) readCalls = .ok sys ∧ Pending sys 0 7 ∧ Pending sys 1 8 ∧
      exoHandleDatagram (arrives [0x60, 0x45, 0, 8, 0xFF, 0x78]) sys = .ok (true, after) ∧
        Routes (arrives [0x60, 0x45, 0, 8, 0xFF, 0x78]) sys after := by
  have computed : (run (powerOn 2 quietHeap) readCalls >>= fun sys =>
      (exoHandleDatagram (arrives [0x60, 0x45, 0, 8, 0xFF, 0x78]) sys).map fun result =>
        (sys.ops, sys.log.count .initialised, sys.log.length, result.1)) =
          .ok ([sentActivation, sentRead], 1, 6, true) := by decide +kernel
  obtain ⟨sys, ran, handled⟩ := Exec.bind_eq_ok.mp computed
  obtain ⟨⟨goOn, after⟩, handled, values⟩ := Exec.map_eq_ok.mp handled
  simp only [Prod.mk.injEq] at values
  obtain ⟨ops, once, short, rfl⟩ := values
  obtain ⟨-, routes⟩ := reached_routes_iff (run_steps ran) once (recent_of_log (by omega))
  refine ⟨sys, after, ran, ⟨sentActivation, by rw [ops]; rfl, rfl, rfl⟩,
    ⟨sentRead, by rw [ops]; rfl, rfl, rfl⟩, handled,
    (routes _ _ _ ⟨by decide +kernel, by decide +kernel⟩ handled).mpr ?_⟩
  have got : coapGetPayload (arrives [0x60, 0x45, 0, 8, 0xFF, 0x78]).pdu = .ok ⟨1, some 5⟩ := by
    decide +kernel
  intro _ _ address _ clears
  exact @Arrival.not_strays ⟨sys, _⟩ ⟨1, some 5⟩ got (by decide) address clears.1

end ExositeCoap.Exosite
