import ExositeCoap.Exosite.Typing

/-!
# Whole requests

`exo_process_active_ops` does not look at what the builders return, and sends whatever
is in the buffer.  The datagram is the whole request when that fits in the buffer
(`RequestsLogged`); otherwise options or the payload are missing, and the answer of the
platform to what is left is taken for success all the same.
-/

namespace ExositeCoap.Exosite

open Lib Wire Coap

/-- Wherever the datagram is received, the getters deliver the options and the payload
of the request, with a CIK of 40 bytes. -/
structure Whole (datagram : List UInt8) (request : Request) : Prop where
  cik : (request.cik.take cikLength).length = cikLength
  decodes : ∃ message : Message, message.options = request.options ∧
    message.payload = request.payload ∧
      ∀ pdu : CoapPdu, pdu.packet = datagram → pdu.len ≤ pdu.max →
        pdu.max ≤ pdu.mem.length → pdu.mem.length < 2 ^ 63 → Observes pdu message

theorem whole_of_simulates {max floor : Nat} {pdu : CoapPdu} {message : Message}
    {datagram : List UInt8} {request : Request} (simulates : Simulates max floor pdu message)
    (bytes : pdu.mem.slice 0 pdu.len = .ok datagram)
    (cik : request.cik.length = cikLength + 1) (options : message.options = request.options)
    (payload : message.payload = request.payload) : Whole datagram request where
  cik := by
    rw [List.length_take, cik]
    exact Nat.min_eq_left (Nat.le_succ _)
  decodes := by
    refine ⟨message, options, payload, fun other isDatagram inside mapped bounded => ?_⟩
    have holds : other.Holds message :=
      ⟨isDatagram.trans (simulates.datagram_eq bytes), inside, mapped, bounded⟩
    exact holds.observes simulates.encodable simulates.nonzero

section Requests

variable {env : SlotEnv} {sys : Sys} {op : ExoOp} {request : Request} {datagram : List UInt8}

/-- Every transmission of a request that fits is whole. Message id and token may be
replaced, the rest stays. -/
theorem Transmits.whole {first : Bool} (transmits : Transmits env sys op request datagram first)
    (cik : sys.cik.length = cikLength + 1) (typed : request.type ≠ .activate)
    (fits : request.Fits) : Whole datagram request := by
  cases transmits with
  | first _ built bytes =>
      obtain ⟨floor, message, simulates, builtFor⟩ := exoBuildRequest_spec built
      obtain ⟨options, payload⟩ := builtFor.whole (builtFor.type ▸ typed) fits
      exact whole_of_simulates simulates bytes (builtFor.cik ▸ cik) options payload
  | again _ _ built setMid setToken bytes =>
      obtain ⟨floor, message, simulates, builtFor⟩ := exoBuildRequest_spec built
      obtain ⟨options, payload⟩ := builtFor.whole (builtFor.type ▸ typed) fits
      obtain ⟨next, first, midOptions, midPayload⟩ :=
        simulates.keepsBody (.setMid op.mid) trivial trivial setMid rfl rfl
      obtain ⟨last, second, tokenOptions, tokenPayload⟩ :=
        first.keepsBody (.setToken op.token op.tkl) trivial trivial setToken rfl rfl
      exact whole_of_simulates second bytes (builtFor.cik ▸ cik)
        (tokenOptions.trans (midOptions.trans options))
        (tokenPayload.trans (midPayload.trans payload))

end Requests

/-! ## The log of requests -/

/-- Entries about requests. -/
def Event.isRequest : Event → Bool
  | .built _ _ | .sent (.request _ _ _) _ _ => true
  | _ => false

/-- Requests in the log: what is built is sent, and what is sent is the whole request
when that fits. -/
structure RequestsLogged (sys : Sys) : Prop where
  cik : sys.cik.length = cikLength + 1
  sent : ∀ {slot first request datagram ok},
    Event.sent (.request slot first request) datagram ok ∈ sys.log →
      Event.built slot request ∈ sys.log ∧
        (request.type ≠ .activate → request.Fits → Whole datagram request)
  built : ∀ {slot request}, Event.built slot request ∈ sys.log → ∃ first datagram ok,
    Event.sent (.request slot first request) datagram ok ∈ sys.log

section Log

variable {sys after : Sys}

/-- Steps that neither build nor send a request. -/
theorem RequestsLogged.other (logged : RequestsLogged sys) (events : List Event)
    (grown : after.log = events ++ sys.log) (cik : after.cik.length = cikLength + 1)
    (others : ∀ event ∈ events, event.isRequest = false) : RequestsLogged after := by
  have old : ∀ {event : Event}, event.isRequest = true → event ∈ after.log → event ∈ sys.log := by
    intro event isRequest member
    rw [grown] at member
    refine (List.mem_append.mp member).resolve_left fun new => ?_
    rw [others event new] at isRequest
    cases isRequest
  refine ⟨cik, fun member => ?_, fun member => ?_⟩
  · rw [grown]
    exact (logged.sent (old rfl member)).imp_left (List.mem_append_right _)
  · rw [grown]
    obtain ⟨first, datagram, ok, sent⟩ := logged.built (old rfl member)
    exact ⟨first, datagram, ok, List.mem_append_right _ sent⟩

/-- A request is built and sent. -/
theorem RequestsLogged.request (logged : RequestsLogged sys) {slot : Nat} {first ok : Bool}
    {request : Request} {datagram : List UInt8}
    (whole : request.type ≠ .activate → request.Fits → Whole datagram request)
    (grown : after.log =
      [.sent (.request slot first request) datagram ok, .built slot request] ++ sys.log)
    (cik : after.cik.length = cikLength + 1) : RequestsLogged after where
  cik := cik
  sent := by
    intro i again other bytes success member
    rw [grown] at member ⊢
    rcases List.mem_cons.mp member with same | member
    · cases same
      exact ⟨List.mem_cons_of_mem _ List.mem_cons_self, whole⟩
    · rcases List.mem_cons.mp member with same | old
      · cases same
      · exact (logged.sent old).imp_left fun built =>
          List.mem_cons_of_mem _ (List.mem_cons_of_mem _ built)
  built := by
    intro i other member
    rw [grown] at member ⊢
    rcases List.mem_cons.mp member with same | member
    · cases same
    · rcases List.mem_cons.mp member with same | old
      · cases same
        exact ⟨first, datagram, ok, List.mem_cons_self⟩
      · obtain ⟨again, bytes, success, sent⟩ := logged.built old
        exact ⟨again, bytes, success, List.mem_cons_of_mem _ (List.mem_cons_of_mem _ sent)⟩

/-- A CIK has 40 bytes and a terminating zero. -/
theorem LibStep.cik_length (step : LibStep sys after) (length : sys.cik.length = cikLength + 1) :
    after.cik.length = cikLength + 1 := by
  cases step with
  | react _ _ reaction =>
      cases reaction with
      | activated _ _ _ _ _ copied =>
          change (_ ++ [(0 : UInt8)]).length = cikLength + 1
          rw [List.length_append, Mem.slice_length copied]
          rfl
      | _ => exact length
  | slot _ step => cases step <;> exact length
  | _ => exact length

theorem LibStep.requestsLogged (step : LibStep sys after) (logged : RequestsLogged sys) :
    RequestsLogged after := by
  have cik := step.cik_length logged.cik
  obtain ⟨events, logs, grown⟩ := step.logs
  cases logs with
  | requested ok _ transmits => exact logged.request (transmits.whole logged.cik) grown cik
  | _ => exact logged.other _ grown cik (by simp [Event.isRequest])

theorem SysStep.requestsLogged (step : SysStep sys after) (logged : RequestsLogged sys) :
    RequestsLogged after := by
  cases step with
  | lib _ step => exact step.requestsLogged logged
  | user step =>
      cases step with
      | initFailed length =>
          refine logged.other [] rfl ?_ (by simp)
          rcases length with same | length
          · exact same.trans logged.cik
          · exact length
      | initialised length => exact logged.other [_] rfl length (by simp [Event.isRequest])
      | queued => exact logged.other [_] rfl logged.cik (by simp [Event.isRequest])
      | opDone => exact logged.other [_] rfl logged.cik (by simp [Event.isRequest])
      | opInit => exact logged.other [] rfl logged.cik (by simp)
      | memory => exact logged.other [] rfl logged.cik (by simp)

/-! ## Ops that were sent -/

/-- The requests that went out from `slot` since the user last queued one there. -/
def sentSince (slot : Nat) : List Event → List Request
  | [] => []
  | .queued i :: rest => if i = slot then [] else sentSince slot rest
  | .sent (.request i true request) _ true :: rest =>
    if i = slot then request :: sentSince slot rest else sentSince slot rest
  | _ :: rest => sentSince slot rest

/-- The op has left the state `NEW`. -/
def Begun (op : ExoOp) : Prop := op.state ≠ .null ∧ op.state ≠ .new

/-- Every op that has left the state `NEW` was sent. -/
def AllSent (sys : Sys) : Prop :=
  ∀ slot op, sys.ops[slot]? = some op → Begun op →
    ∃ request ∈ sentSince slot sys.log, request.type = op.type

/-- An op is replaced by one of the same type, or by one that has not begun. -/
theorem begun_of_setOp {i slot : Nat} {op changed next : ExoOp} (isOp : sys.ops[i]? = some op)
    (keeps : Begun changed → Begun op ∧ op.type = changed.type)
    (isNext : (sys.setOp i changed).ops[slot]? = some next) (begun : Begun next) :
    ∃ before, sys.ops[slot]? = some before ∧ Begun before ∧ before.type = next.type := by
  obtain ⟨rfl, rfl⟩ | ⟨-, old⟩ := of_getElem?_setOp isNext
  · exact ⟨op, isOp, keeps begun⟩
  · exact ⟨next, old, begun, rfl⟩

/-- No op begins, and the log does not forget requests. -/
theorem AllSent.keeps (sent : AllSent sys)
    (log : ∀ slot, sentSince slot sys.log ⊆ sentSince slot after.log)
    (ops : ∀ (slot : Nat) (next : ExoOp), after.ops[slot]? = some next → Begun next →
      ∃ op, sys.ops[slot]? = some op ∧ Begun op ∧ op.type = next.type) : AllSent after := by
  intro slot next isNext begun
  obtain ⟨op, isOp, before, type⟩ := ops slot next isNext begun
  obtain ⟨request, member, same⟩ := sent slot op isOp before
  exact ⟨request, log slot member, same.trans type⟩

theorem Waits.begun {op : ExoOp} (waits : Waits op) : Begun op := by
  rcases waits with state | state <;> simp [Begun, state]

theorem Reaction.allSent {rx : Received} {i : Nat} {op : ExoOp}
    (atSlot : sys.ops[i]? = some op) (takes : Takes rx op)
    (reaction : Reaction rx sys i op after) (sent : AllSent sys) : AllSent after := by
  have begun : Begun op := by
    cases takes with
    | notification _ _ state => exact Waits.begun (Or.inl state)
    | response _ state => exact Waits.begun (Or.inr state)
    | reset _ state => exact Waits.begun state.symm
  cases reaction with
  | ignored => exact sent
  | emptied => exact sent
  | activated =>
      refine sent.keeps (fun _ => List.Subset.refl _) fun slot next isNext => ?_
      exact begun_of_setOp atSlot (fun impossible => absurd rfl impossible.1) isNext
  | notActivated =>
      refine sent.keeps (fun _ => List.Subset.refl _) fun slot next isNext => ?_
      exact begun_of_setOp atSlot (fun impossible => absurd rfl impossible.1) isNext
  | reactivated _ _ _ atZero =>
      refine sent.keeps (fun _ => List.Subset.refl _) fun slot next isNext isBegun => ?_
      obtain ⟨middle, isMiddle, begunMiddle, type⟩ := begun_of_setOp atZero
        (fun impossible => absurd rfl impossible.2) isNext isBegun
      rw [← type]
      exact begun_of_setOp atSlot (by exact fun _ => ⟨begun, rfl⟩) isMiddle begunMiddle
  | _ =>
      refine sent.keeps (fun _ => List.Subset.refl _) fun slot next isNext => ?_
      exact begun_of_setOp atSlot (by exact fun _ => ⟨begun, rfl⟩) isNext

theorem SlotStep.allSent {env : SlotEnv} {i : Nat} {op : ExoOp}
    (atSlot : sys.ops[i]? = some op) (step : SlotStep env sys i op after)
    (sent : AllSent sys) : AllSent after := by
  cases step with
  | unexpectedNew state =>
      refine sent.keeps (fun _ => List.Subset.refl _) fun slot next isNext => ?_
      exact begun_of_setOp atSlot (by exact fun begun => absurd state begun.2) isNext
  | @sent request _ _ _ _ _ built =>
      -- the new request goes to the front of the list of its slot
      intro slot next isNext begun
      by_cases same : i = slot
      · subst same
        obtain ⟨-, rfl⟩ | ⟨different, -⟩ := of_getElem?_setOp isNext
        · obtain ⟨_, _, _, builtFor⟩ := exoBuildRequest_spec built
          exact ⟨request, by simp [Sys.sentRequest, sentSince], builtFor.type⟩
        · exact absurd rfl different
      · obtain ⟨isSlot, -⟩ | ⟨-, old⟩ := of_getElem?_setOp isNext
        · exact absurd isSlot same
        · obtain ⟨earlier, member, type⟩ := sent slot next old begun
          exact ⟨earlier, by simpa [Sys.sentRequest, sentSince, same] using member, type⟩
  | resent waits =>
      refine sent.keeps (fun _ => List.Subset.refl _) fun slot next isNext => ?_
      exact begun_of_setOp atSlot (by exact fun begun => ⟨begun, rfl⟩) isNext
  | gaveUp waits =>
      refine sent.keeps (fun _ => List.Subset.refl _) fun slot next isNext => ?_
      exact begun_of_setOp atSlot (by exact fun _ => ⟨waits.begun, rfl⟩) isNext
  | renewed waits =>
      refine sent.keeps (fun _ => List.Subset.refl _) fun slot next isNext => ?_
      exact begun_of_setOp atSlot (by exact fun _ => ⟨waits.begun, rfl⟩) isNext
  | acked isState =>
      have begun : Begun op := by
        rcases isState with ⟨state, -⟩ | ⟨state, -⟩ <;> simp [Begun, state]
      refine sent.keeps (fun _ => List.Subset.refl _) fun slot next isNext => ?_
      exact begun_of_setOp atSlot (by exact fun _ => ⟨begun, rfl⟩) isNext
  | _ => exact sent

theorem LibStep.allSent (step : LibStep sys after) (sent : AllSent sys) : AllSent after := by
  cases step with
  | react atSlot takes reaction => exact reaction.allSent atSlot takes sent
  | slot atSlot step => exact step.allSent atSlot sent
  | activate atSlot =>
      refine sent.keeps (fun _ => List.Subset.refl _) fun slot next isNext => ?_
      exact begun_of_setOp atSlot (fun impossible => absurd rfl impossible.2) isNext
  | _ => exact sent

/-- `exo_op_done` is not called on a subscription that waits to be sent. -/
def ReleasedSent (log : List Event) : Prop :=
  ∀ slot op, Event.released slot op ∈ log → op.type = .subscribe → op.state ≠ .new

theorem UserStep.allSent (step : UserStep sys after) (typed : AllTyped sys)
    (released : ReleasedSent after.log) (sent : AllSent sys) : AllSent after := by
  cases step with
  | @queued slot op type aliasPtr valuePtr valueMax atSlot =>
      intro i next isNext begun
      obtain ⟨-, rfl⟩ | ⟨different, old⟩ := of_getElem?_setOp isNext
      · exact absurd rfl begun.2
      · obtain ⟨request, member, same⟩ := sent i next old begun
        exact ⟨request, by simpa [sentSince, different] using member, same⟩
  | opInit atSlot =>
      refine sent.keeps (fun _ => List.Subset.refl _) fun slot next isNext => ?_
      exact begun_of_setOp atSlot (fun impossible => absurd rfl impossible.1) isNext
  | @opDone slot op atSlot =>
      refine sent.keeps (fun _ => List.Subset.refl _) fun i next isNext => ?_
      refine begun_of_setOp atSlot (fun begun => ?_) isNext
      unfold exoOpDone at begun ⊢
      split_ifs at begun ⊢ with type
      · have hasType : op.type ≠ .null := by simp [type]
        exact ⟨⟨fun null => hasType ((typed atSlot).null.mpr null),
          released slot op List.mem_cons_self type⟩, rfl⟩
      · exact absurd rfl begun.1
  | _ => exact sent

theorem allSent_of_reached {count : Nat} {heap : Mem}
    (reached : SysSteps (powerOn count heap) after) (released : ReleasedSent after.log) :
    AllSent after := by
  induction reached with
  | refl =>
      intro slot op atSlot begun
      have isInit : op = exoOpInit := List.eq_of_mem_replicate (List.mem_of_getElem? atSlot)
      rw [isInit] at begun
      exact absurd rfl begun.1
  | tail before step ih =>
      have sent := ih fun slot op member => released slot op (step.log_subset member)
      cases step with
      | lib _ step => exact step.allSent sent
      | user step => exact step.allSent (allTyped_of_reached before).1 released sent

/-- Every datagram for a read, write or subscription is the whole request, which fits
in a datagram, and success is reached only with such a request. -/
structure SendsWhole (sys : Sys) : Prop where
  datagrams : ∀ slot first request datagram ok,
    Event.sent (.request slot first request) datagram ok ∈ sys.log →
      request.type ≠ .activate → request.Fits ∧ Whole datagram request
  success : ∀ slot op, sys.ops[slot]? = some op → op.state = .success →
    ∃ request ∈ sentSince slot sys.log, request.type = op.type ∧ request.Fits

theorem mem_of_sentSince {slot : Nat} {request : Request} {log : List Event}
    (member : request ∈ sentSince slot log) :
    ∃ datagram, Event.sent (.request slot true request) datagram true ∈ log := by
  fun_induction sentSince slot log with
  | case1 => cases member
  | case2 => cases member
  | case3 i rest different ih =>
      obtain ⟨datagram, found⟩ := ih member
      exact ⟨datagram, List.mem_cons_of_mem _ found⟩
  | case4 newest datagram rest ih =>
      rcases List.mem_cons.mp member with rfl | old
      · exact ⟨datagram, List.mem_cons_self⟩
      · obtain ⟨earlier, found⟩ := ih old
        exact ⟨earlier, List.mem_cons_of_mem _ found⟩
  | case5 _ _ _ _ _ ih =>
      obtain ⟨datagram, found⟩ := ih member
      exact ⟨datagram, List.mem_cons_of_mem _ found⟩
  | case6 _ _ _ _ ih =>
      obtain ⟨datagram, found⟩ := ih member
      exact ⟨datagram, List.mem_cons_of_mem _ found⟩

theorem run_requestsLogged {count : Nat} {heap : Mem} {calls : List UserCall}
    (ran : run (powerOn count heap) calls = .ok after) : RequestsLogged after := by
  apply SysSteps.invariant SysStep.requestsLogged (run_steps ran)
  constructor
  · simp [powerOn]
  · rintro _ _ _ _ _ ⟨⟩
  · rintro _ _ ⟨⟩

/-- A run sends whole requests exactly when all the requests that are built fit in a
datagram. -/
theorem run_sendsWhole_iff {count : Nat} {heap : Mem} {calls : List UserCall}
    (ran : run (powerOn count heap) calls = .ok after) (released : ReleasedSent after.log) :
    SendsWhole after ↔ ∀ slot request, Event.built slot request ∈ after.log →
      request.type ≠ .activate → request.Fits := by
  have logged : RequestsLogged after := run_requestsLogged ran
  constructor
  · intro whole slot request built typed
    obtain ⟨first, datagram, ok, sent⟩ := logged.built built
    exact (whole.datagrams slot first request datagram ok sent typed).1
  · intro fits
    constructor
    · intro slot first request datagram ok sent typed
      obtain ⟨built, whole⟩ := logged.sent sent
      have fit := fits slot request built typed
      exact ⟨fit, whole typed fit⟩
    · intro slot op atSlot success
      obtain ⟨request, member, type⟩ := allSent_of_reached (run_steps ran) released slot op atSlot
        (by simp [Begun, success])
      obtain ⟨datagram, sent⟩ := mem_of_sentSince member
      have typed : request.type ≠ .activate := by
        rw [type]
        intro activate
        have state := (((allTyped_of_reached (run_steps ran)).1 atSlot).activate activate).2
        simp [success] at state
      exact ⟨request, member, type, fits slot request (logged.sent sent).1 typed⟩

end Log

/-- A value of 600 bytes at address 3, and its end. -/
def longValue : List UInt8 := List.replicate 600 0x62

def longHeap : Mem := [0, 0x61, 0] ++ longValue ++ [0]

/-- The value is written, and the platform answers 2.04. -/
def writeCalls : List UserCall :=
  [quietInit, .write 1 1 3, quietOperate [], quietOperate [[0x60, 0x44, 0, 8]]]

/-- The entry is a write of the long value by a datagram without payload. -/
def Event.dropsValue : Event → Bool
  | .sent (.request _ _ request) datagram _ =>
    request.type = .write && request.payload = some longValue &&
      coapGetPayload ⟨1, datagram, datagram.length, datagram.length⟩ = .ok ⟨0, none⟩ &&
        decide (datagram.length < 2 ^ 63)
  | _ => false

theorem not_whole_of_noPayload {request : Request} {datagram : List UInt8}
    (value : request.payload = some longValue)
    (none : coapGetPayload ⟨1, datagram, datagram.length, datagram.length⟩ = .ok ⟨0, none⟩)
    (bounded : datagram.length < 2 ^ 63) : ¬ Whole datagram request := by
  intro whole
  obtain ⟨message, -, payload, observes⟩ := whole.decodes
  obtain ⟨found, got, delivers⟩ := (observes ⟨1, datagram, datagram.length, datagram.length⟩
    (List.take_length) (Nat.le_refl _) (Nat.le_refl _) bounded).payload
  rw [none] at got
  cases got
  rw [payload, value] at delivers
  have length : 0 = longValue.length := delivers.1
  rw [longValue, List.length_replicate] at length
  omega

/-- The value is too long and left out; the write succeeds all the same. -/
theorem not_sendsWhole_longValue : ∃ after,
    run (powerOn 2 longHeap) writeCalls = .ok after ∧ ReleasedSent after.log ∧
      (after.ops.map fun op => (op.type, op.state)) =
        [(.activate, .pending), (.write, .success)] ∧
      (∃ slot first request datagram ok,
        Event.sent (.request slot first request) datagram ok ∈ after.log ∧
          request.type = .write ∧ ¬ Whole datagram request) ∧ ¬ SendsWhole after := by
  have computed : (run (powerOn 2 longHeap) writeCalls).map (fun after =>
      (after.log.any Event.dropsValue, after.log.any fun event => match event with
        | .released _ _ => true
        | _ => false, after.ops.map fun op => (op.type, op.state))) =
      .ok (true, false, [(.activate, .pending), (.write, .success)]) := by decide +kernel
  obtain ⟨after, ran, values⟩ := Exec.map_eq_ok.mp computed
  simp only [Prod.mk.injEq] at values
  obtain ⟨dropped, unreleased, states⟩ := values
  have broken : ∃ slot first request datagram ok,
      Event.sent (.request slot first request) datagram ok ∈ after.log ∧
        request.type = .write ∧ ¬ Whole datagram request := by
    obtain ⟨event, member, drops⟩ := List.any_eq_true.mp dropped
    unfold Event.dropsValue at drops
    split at drops
    · simp only [Bool.and_eq_true, decide_eq_true_eq] at drops
      obtain ⟨⟨⟨type, value⟩, noPayload⟩, bounded⟩ := drops
      exact ⟨_, _, _, _, _, member, type, not_whole_of_noPayload value noPayload bounded⟩
    · cases drops
  refine ⟨after, ran, ?_, states, broken, fun whole => ?_⟩
  · intro slot op member
    have absent := List.any_eq_false.mp unreleased _ member
    simp at absent
  · obtain ⟨slot, first, request, datagram, ok, sent, type, cut⟩ := broken
    exact cut (whole.datagrams slot first request datagram ok sent (by simp [type])).2

/-- A read of the short alias is sent whole. -/
theorem run_sendsWhole_iff_read : ∃ after,
    run (powerOn 2 quietHeap) [quietInit, .read 1 1 3 8, quietOperate []] = .ok after ∧
      ReleasedSent after.log ∧ SendsWhole after := by
  have computed : (run (powerOn 2 quietHeap) [quietInit, .read 1 1 3 8, quietOperate []]).map
      (fun after => after.log.all fun event => match event with
        | .released _ _ => false
        | .built _ request => decide request.Fits
        | _ => true) = .ok true := by decide +kernel
  obtain ⟨after, ran, checked⟩ := Exec.map_eq_ok.mp computed
  have released : ReleasedSent after.log := by
    intro slot op member
    have absent := List.all_eq_true.mp checked _ member
    cases absent
  refine ⟨after, ran, released, (run_sendsWhole_iff ran released).mpr ?_⟩
  intro slot request built _
  exact of_decide_eq_true (List.all_eq_true.mp checked _ built)

end ExositeCoap.Exosite
