import ExositeCoap.Lib.Exchange
import ExositeCoap.Exosite.Progress
import ExositeCoap.Exosite.Typing

/-!
# Requests and answers

Between the library and the platform lies a network that may lose, double, reorder and delay
datagrams, and an answer is told by its message id alone.  The library is a client in the
sense of `ClientStep` (`LibStep.client`), and therefore safe until the counter of message ids
comes round (`exchanging_of_reached`).
-/

namespace ExositeCoap.Exosite

open Lib Wire Coap

/-! ## What went out -/

/-- Number of requests that were built; each draws a message id. -/
def builtCount : List Event → Nat
  | [] => 0
  | .built _ _ :: rest => builtCount rest + 1
  | _ :: rest => builtCount rest

/-- The datagrams of requests that went out. -/
def requestsSent : List Event → List (List UInt8)
  | [] => []
  | .sent (.request _ _ _) datagram true :: rest => datagram :: requestsSent rest
  | _ :: rest => requestsSent rest

/-- The requests in `slot` and their datagrams that went out since the user queued the op. -/
def exchanged (slot : Nat) : List Event → List (Request × List UInt8)
  | [] => []
  | .queued i :: rest => if i = slot then [] else exchanged slot rest
  | .sent (.request i _ request) datagram true :: rest =>
    if i = slot then (request, datagram) :: exchanged slot rest else exchanged slot rest
  | _ :: rest => exchanged slot rest

/-- The library as a client: a pending op waits for its message id. -/
def network (counter : UInt16) (sys : Sys) : Client Nat UInt16 (List UInt8) where
  counter := counter
  drawn := builtCount sys.log
  waits := Pending sys
  mine slot := {datagram | ∃ request, (request, datagram) ∈ exchanged slot sys.log}
  sent := {datagram | datagram ∈ requestsSent sys.log}

/-- The message id behind another. -/
def nextMid (mid : UInt16) : UInt16 := mid + 1

theorem iterate_nextMid (count : Nat) (mid : UInt16) :
    nextMid^[count] mid = mid + UInt16.ofNat count := by
  induction count with
  | zero => exact (UInt16.add_zero mid).symm
  | succ count ih =>
      rw [Function.iterate_succ_apply', ih, nextMid, UInt16.ofNat_add, UInt16.add_assoc]
      rfl

/-- The counter of message ids comes round after 65536 steps. -/
theorem distinct_nextMid : Distinct nextMid 65536 := by
  intro mid count positive few back
  have same : nextMid^[count] mid = mid := back
  rw [iterate_nextMid] at same
  have value := congrArg UInt16.toNat same
  have bound := mid.toNat_lt
  rw [UInt16.toNat_add, UInt16.toNat_ofNat'] at value
  omega

theorem carries_unique (datagram : List UInt8) (left right : UInt16)
    (first : Carries datagram left) (second : Carries datagram right) : left = right :=
  Except.ok.inj (first.symm.trans second)

/-! ## The library is a client -/

section Steps

variable {sys after : Sys}

/-- Some requests are built, but nothing goes out, and no op becomes pending. -/
theorem clientStep_quiet (more : Nat) {counter later : UInt16}
    (isLater : later = nextMid^[more] counter)
    (built : builtCount after.log = builtCount sys.log + more)
    (sent : requestsSent after.log = requestsSent sys.log)
    (continues : ∀ slot mid, Pending after slot mid →
      Pending sys slot mid ∧ exchanged slot after.log = exchanged slot sys.log) :
    ClientStep nextMid Carries (network counter sys) (network later after) := by
  refine .quiet more isLater built ?_ ?_
  · simp only [network, sent]
  · intro slot mid pending
    obtain ⟨old, same⟩ := continues slot mid pending
    refine ⟨old, ?_⟩
    simp only [network, same]
    exact subset_rfl

/-- The op in slot `i` is replaced by one that is pending only if it was. -/
theorem pending_setOp {i slot : Nat} {op changed : ExoOp} {mid : UInt16}
    (isOp : sys.ops[i]? = some op) (ended : changed.state ≠ .pending)
    (pending : Pending (sys.setOp i changed) slot mid) : Pending sys slot mid :=
  pending_of_setOp isOp (fun state => absurd state ended) pending

/-- A datagram makes no op pending. -/
theorem Reaction.pending {rx : Received} {i slot : Nat} {op : ExoOp} {mid : UInt16}
    (atSlot : sys.ops[i]? = some op) (reaction : Reaction rx sys i op after)
    (pending : Pending after slot mid) : Pending sys slot mid := by
  cases reaction with
  | ignored => exact pending
  | emptied => exact pending
  | notified _ acks =>
      refine pending_setOp atSlot ?_ pending
      rcases acks with rfl | rfl <;> simp
  | activated => exact pending_setOp atSlot (by simp [exoOpInit]) pending
  | notActivated => exact pending_setOp atSlot (by simp [exoOpInit]) pending
  | reactivated _ _ _ atZero =>
      exact pending_setOp atSlot (by simp)
        (pending_setOp atZero (by simp [exoActivate, ExoOp.queue]) pending)
  | _ => exact pending_setOp atSlot (by simp) pending

theorem Reaction.client {rx : Received} {i : Nat} {op : ExoOp} (atSlot : sys.ops[i]? = some op)
    (reaction : Reaction rx sys i op after) :
    ClientStep nextMid Carries (network sys.messageIdCounter sys)
      (network after.messageIdCounter after) := by
  refine clientStep_quiet 0 ?_ ?_ ?_ fun slot mid pending => ⟨reaction.pending atSlot pending, ?_⟩
  all_goals cases reaction <;> rfl

/-- A request goes out: what the network and the slots have of it. -/
theorem exchanged_sentRequest {i : Nat} {first : Bool} {request : Request}
    {datagram : List UInt8} :
    requestsSent (sys.sentRequest i first request datagram true).log =
        datagram :: requestsSent sys.log ∧
      (∃ found, (found, datagram) ∈
        exchanged i (sys.sentRequest i first request datagram true).log) ∧
      ∀ slot, exchanged slot sys.log ⊆
        exchanged slot (sys.sentRequest i first request datagram true).log := by
  have log : ∀ slot, exchanged slot (sys.sentRequest i first request datagram true).log =
      if i = slot then (request, datagram) :: exchanged slot sys.log
        else exchanged slot sys.log := fun _ => rfl
  refine ⟨rfl, ⟨request, ?_⟩, fun slot => ?_⟩
  · rw [log, if_pos rfl]
    exact List.mem_cons_self
  · rw [log]
    split_ifs
    · exact List.subset_cons_self _ _
    · exact List.Subset.refl _

theorem SlotStep.client {env : SlotEnv} {i : Nat} {op : ExoOp} (atSlot : sys.ops[i]? = some op)
    (typed : WellTyped i op) (step : SlotStep env sys i op after) :
    ClientStep nextMid Carries (network sys.messageIdCounter sys)
      (network after.messageIdCounter after) := by
  have insert_sent : ∀ {datagram : List UInt8}, requestsSent after.log =
      datagram :: requestsSent sys.log →
      (network after.messageIdCounter after).sent =
        insert datagram (network sys.messageIdCounter sys).sent := by
    intro datagram sent
    ext other
    simp [network, sent]
  cases step with
  | idle => exact clientStep_quiet 0 rfl rfl rfl fun _ _ pending => ⟨pending, rfl⟩
  | unexpectedNew state =>
      refine clientStep_quiet 0 rfl rfl rfl fun slot mid pending => ⟨?_, rfl⟩
      exact pending_setOp atSlot (by simp [state]) pending
  | unexpectedWait => exact clientStep_quiet 0 rfl rfl rfl fun _ _ pending => ⟨pending, rfl⟩
  | @sent request pdu datagram mid _ _ built bytes isMid =>
      obtain ⟨long, sameMid⟩ := exoBuildRequest_mid built
      rw [sameMid] at isMid
      cases isMid
      obtain ⟨sent, mine, kept⟩ := @exchanged_sentRequest sys i true request datagram
      refine @ClientStep.first _ _ _ _ _ _ _ i datagram rfl rfl
        (carries_of_slice bytes long sameMid) (insert_sent sent) mine ?_ ?_
      · rintro mid ⟨found, isFound, -, isMid⟩
        obtain ⟨-, rfl⟩ | ⟨different, -⟩ := of_getElem?_setOp isFound
        · exact isMid.symm
        · exact absurd rfl different
      · rintro slot different mid ⟨found, isFound, state, isMid⟩
        obtain ⟨same, -⟩ | ⟨-, old⟩ := of_getElem?_setOp isFound
        · exact absurd same.symm different
        · exact ⟨⟨found, old, state, isMid⟩,
            fun other ⟨request, member⟩ => ⟨request, kept slot member⟩⟩
  | unsent => exact clientStep_quiet 1 rfl rfl rfl fun _ _ pending => ⟨pending, rfl⟩
  | @resent request pdu withMid again midErr tokenErr datagram timeout waits type _ built setMid
      setToken bytes =>
      obtain ⟨sent, mine, kept⟩ := @exchanged_sentRequest sys i false request datagram
      have state : op.state = .pending := by
        refine waits.resolve_left fun subscribed => ?_
        have isType := typed.subscribed (by simp [subscribed])
        simp [SentAgain, isType] at type
      refine @ClientStep.again _ _ _ _ _ _ _ i op.mid datagram rfl rfl ⟨op, atSlot, state, rfl⟩
        (carries_of_resent built setMid setToken bytes) (insert_sent sent) mine ?_
      intro slot mid pending
      exact ⟨pending_of_setOp atSlot (by exact fun waits => ⟨waits, rfl⟩) pending,
        fun other ⟨request, member⟩ => ⟨request, kept slot member⟩⟩
  | unresent => exact clientStep_quiet 1 rfl rfl rfl fun _ _ pending => ⟨pending, rfl⟩
  | gaveUp =>
      refine clientStep_quiet 0 rfl rfl rfl fun slot mid pending => ⟨?_, rfl⟩
      exact pending_setOp atSlot (by simp) pending
  | renewed =>
      refine clientStep_quiet 0 rfl rfl rfl fun slot mid pending => ⟨?_, rfl⟩
      exact pending_setOp atSlot (by simp) pending
  | acked isState =>
      refine clientStep_quiet 0 rfl rfl rfl fun slot mid pending => ⟨?_, rfl⟩
      refine pending_setOp atSlot ?_ pending
      rcases isState with ⟨-, rfl⟩ | ⟨-, rfl⟩ <;> simp
  | unacked => exact clientStep_quiet 0 rfl rfl rfl fun _ _ pending => ⟨pending, rfl⟩

/-- Every step of the library is one of a client. -/
theorem LibStep.client (step : LibStep sys after) (typed : AllTyped sys) :
    ClientStep nextMid Carries (network sys.messageIdCounter sys)
      (network after.messageIdCounter after) := by
  cases step with
  | react atSlot _ reaction => exact reaction.client atSlot
  | slot atSlot step => exact step.client atSlot (typed atSlot)
  | activate atSlot =>
      refine clientStep_quiet 0 rfl rfl rfl fun slot mid pending => ⟨?_, rfl⟩
      exact pending_setOp atSlot (by simp [exoActivate, ExoOp.queue]) pending
  | _ => exact clientStep_quiet 0 rfl rfl rfl fun _ _ pending => ⟨pending, rfl⟩

end Steps

/-! ## Runs -/

/-- Between `exo_init` and the moment when the counter comes round the client is safe. -/
structure Exchanging (sys : Sys) : Prop where
  started : sys.deviceState ≠ .uninitialized → sys.log.count .initialised ≠ 0
  silent : sys.log.count .initialised = 0 →
    requestsSent sys.log = [] ∧ ∀ slot mid, ¬ Pending sys slot mid
  /-- the counter that counts is the one before `exo_init` failed, if it did -/
  safe : sys.log.count .initialised ≤ 1 → builtCount sys.log ≤ 65536 → ∃ counter,
    (sys.deviceState ≠ .uninitialized → counter = sys.messageIdCounter) ∧
      Safe nextMid Carries (network counter sys)

section Runs

variable {sys after : Sys}

/-- A client that has not begun is safe. -/
theorem safe_of_silent {counter : UInt16} (sent : requestsSent sys.log = [])
    (idle : ∀ slot mid, ¬ Pending sys slot mid) :
    Safe nextMid Carries (network counter sys) := by
  have unused : ∀ mid, ¬ (network counter sys).InUse Carries mid := by
    rintro mid (⟨slot, pending⟩ | ⟨datagram, member, -⟩)
    · exact idle slot mid pending
    · simp [network, sent] at member
  exact ⟨fun mid used => absurd used (unused mid),
    fun slot _ mid pending => absurd pending (idle slot mid),
    fun slot mid _ pending => absurd pending (idle slot mid)⟩

theorem Exchanging.lib (exchanging : Exchanging sys) (typed : AllTyped sys)
    (on : sys.deviceState ≠ .uninitialized) (step : LibStep sys after) : Exchanging after := by
  have inits := step.count_initialised
  have begun := exchanging.started on
  refine ⟨fun _ => by rwa [inits], fun none => absurd (inits ▸ none) begun, fun once few => ?_⟩
  have client := step.client typed
  have fewer : builtCount sys.log ≤ builtCount after.log := client.drawn_le
  obtain ⟨counter, current, safe⟩ := exchanging.safe (by omega) (by omega)
  rw [current on] at safe
  exact ⟨after.messageIdCounter, fun _ => rfl,
    safe.step distinct_nextMid carries_unique few client⟩

/-- A call of the user that leaves the counter alone. -/
theorem Exchanging.quiet (exchanging : Exchanging sys)
    (device : after.deviceState = sys.deviceState)
    (counter : after.messageIdCounter = sys.messageIdCounter)
    (inits : after.log.count .initialised = sys.log.count .initialised)
    (built : builtCount after.log = builtCount sys.log)
    (sent : requestsSent after.log = requestsSent sys.log)
    (continues : ∀ slot mid, Pending after slot mid →
      Pending sys slot mid ∧ exchanged slot after.log = exchanged slot sys.log) :
    Exchanging after := by
  constructor
  · rw [device, inits]
    exact exchanging.started
  · rw [inits, sent]
    intro none
    obtain ⟨nothing, idle⟩ := exchanging.silent none
    exact ⟨nothing, fun slot mid pending => idle slot mid (continues slot mid pending).1⟩
  · rw [inits, device, counter]
    intro once few
    obtain ⟨current, isCurrent, safe⟩ := exchanging.safe once (built ▸ few)
    exact ⟨current, isCurrent, safe.step distinct_nextMid carries_unique few
      (clientStep_quiet 0 rfl built sent continues)⟩

theorem Exchanging.user (exchanging : Exchanging sys) (step : UserStep sys after) :
    Exchanging after := by
  cases step with
  | initFailed =>
      refine ⟨fun on => absurd rfl on, exchanging.silent, fun once few => ?_⟩
      obtain ⟨counter, -, safe⟩ := exchanging.safe once few
      exact ⟨counter, fun on => absurd rfl on, safe⟩
  | @initialised counter =>
      have inits : (Event.initialised :: sys.log).count .initialised =
          sys.log.count .initialised + 1 := List.count_cons_self
      refine ⟨fun _ => ?_, fun none => ?_, fun once _ => ?_⟩
      · rw [Sys.record_log, inits]
        exact Nat.succ_ne_zero _
      · rw [Sys.record_log, inits] at none
        cases none
      · -- nothing went out before the first initialisation
        rw [Sys.record_log, inits] at once
        obtain ⟨sent, idle⟩ := exchanging.silent (by omega)
        exact ⟨counter, fun _ => rfl, safe_of_silent sent idle⟩
  | @queued slot op _ _ _ _ atSlot =>
      refine exchanging.quiet rfl rfl (by simp) rfl rfl fun i mid pending => ⟨?_, if_neg ?_⟩
      · exact pending_setOp atSlot (by simp [ExoOp.queue]) pending
      · rintro rfl
        obtain ⟨next, isNext, state, -⟩ := pending
        rw [Sys.record_ops, getElem?_setOp atSlot, if_pos rfl] at isNext
        cases isNext
        cases state
  | opInit atSlot =>
      refine exchanging.quiet rfl rfl rfl rfl rfl fun i mid pending => ⟨?_, rfl⟩
      exact pending_setOp atSlot (by simp [exoOpInit]) pending
  | opDone atSlot =>
      refine exchanging.quiet rfl rfl (by simp) rfl rfl fun i mid pending => ⟨?_, rfl⟩
      refine pending_setOp atSlot ?_ pending
      unfold exoOpDone
      split_ifs <;> simp [exoOpInit]
  | memory =>
      exact exchanging.quiet rfl rfl rfl rfl rfl fun _ _ pending => ⟨pending, rfl⟩

theorem exchanging_powerOn (count : Nat) (heap : Mem) : Exchanging (powerOn count heap) := by
  have idle : ∀ slot mid, ¬ Pending (powerOn count heap) slot mid := by
    rintro slot mid ⟨op, atSlot, state, -⟩
    have isInit : op = exoOpInit := List.eq_of_mem_replicate (List.mem_of_getElem? atSlot)
    rw [isInit] at state
    cases state
  exact ⟨fun on => absurd rfl on, fun _ => ⟨rfl, idle⟩,
    fun _ _ => ⟨0, fun on => absurd rfl on, safe_of_silent rfl idle⟩⟩

theorem exchanging_of_reached {count : Nat} {heap : Mem}
    (reached : SysSteps (powerOn count heap) after) : AllTyped after ∧ Exchanging after := by
  refine @SysSteps.invariant (fun sys => AllTyped sys ∧ Exchanging sys) _ _ ?_ reached
    ⟨allTyped_powerOn count heap, exchanging_powerOn count heap⟩
  rintro sys after step ⟨typed, exchanging⟩
  cases step with
  | lib on step => exact ⟨step.allTyped typed, exchanging.lib typed on step⟩
  | user step => exact ⟨step.allTyped typed, exchanging.user step⟩

/-! ## Requests of the right kind -/

/-- What went out for an op asked for what the op asks for. -/
def AsksForIts (sys : Sys) : Prop :=
  ∀ slot op request datagram, 1 ≤ slot → sys.ops[slot]? = some op → op.type ≠ .null →
    (request, datagram) ∈ exchanged slot sys.log → request.type = op.type

theorem Transmits.type {env : SlotEnv} {op : ExoOp} {request : Request} {datagram : List UInt8}
    {first : Bool} (transmits : Transmits env sys op request datagram first) :
    request.type = op.type := by
  cases transmits with
  | first _ built => exact (exoBuildRequest_calls built).1
  | again _ _ built => exact (exoBuildRequest_calls built).1

/-- The strings of a request are those that the op points to. -/
theorem Transmits.texts {env : SlotEnv} {op : ExoOp} {request : Request} {datagram : List UInt8}
    {first : Bool} (transmits : Transmits env sys op request datagram first)
    (user : op.type ≠ .activate) : cString sys.heap op.aliasPtr = .ok request.aliasText ∧
      if op.type = .write then cString sys.heap op.valuePtr = .ok request.valueText
      else request.valueText = [] := by
  have texts : ∀ {pdu : CoapPdu}, exoBuildRequest env sys op = .ok (some (request, pdu)) →
      cString sys.heap op.aliasPtr = .ok request.aliasText ∧
        if op.type = .write then cString sys.heap op.valuePtr = .ok request.valueText
        else request.valueText = [] := by
    intro pdu built
    unfold exoBuildRequest at built
    split at built
    next type =>
      obtain ⟨aliasText, isText, built⟩ := Exec.bind_eq_ok.mp built
      obtain ⟨⟨err, result⟩, -, built⟩ := Exec.bind_eq_ok.mp built
      cases built
      exact ⟨isText, by simp [type]⟩
    next type =>
      obtain ⟨aliasText, isText, built⟩ := Exec.bind_eq_ok.mp built
      obtain ⟨⟨err, result⟩, -, built⟩ := Exec.bind_eq_ok.mp built
      cases built
      exact ⟨isText, by simp [type]⟩
    next type =>
      obtain ⟨aliasText, isText, built⟩ := Exec.bind_eq_ok.mp built
      obtain ⟨valueText, isValue, built⟩ := Exec.bind_eq_ok.mp built
      obtain ⟨⟨err, result⟩, -, built⟩ := Exec.bind_eq_ok.mp built
      cases built
      exact ⟨isText, by rw [if_pos type]; exact isValue⟩
    next type => exact absurd type user
    next => cases built
  cases transmits with
  | first _ built => exact texts built
  | again _ _ built => exact texts built

/-- A step of the library adds at most one request to those of a slot. -/
theorem LibStep.exchanged (step : LibStep sys after) (slot : Nat) {request : Request}
    {datagram : List UInt8} (member : (request, datagram) ∈ exchanged slot after.log) :
    (request, datagram) ∈ Exosite.exchanged slot sys.log ∨ ∃ env op first,
      sys.ops[slot]? = some op ∧ Transmits env sys op request datagram first := by
  obtain ⟨events, logs, grown⟩ := step.logs
  rw [grown] at member
  cases logs with
  | @requested _ i op found _ first ok atSlot transmits =>
      cases ok with
      | false => exact Or.inl member
      | true =>
          have log : (request, datagram) ∈ if i = slot then
              (found, _) :: Exosite.exchanged slot sys.log else Exosite.exchanged slot sys.log := member
          split_ifs at log with same
          · subst same
            rcases List.mem_cons.mp log with new | old
            · cases new
              exact Or.inr ⟨_, op, first, atSlot, transmits⟩
            · exact Or.inl old
          · exact Or.inl log
  | _ => exact Or.inl member

theorem AsksForIts.lib (asks : AsksForIts sys) (typed : AllTyped sys) (step : LibStep sys after) :
    AsksForIts after := by
  intro slot next request datagram later isNext some member
  obtain ⟨op, atSlot, origin⟩ := step.op_origin isNext
  have same : next.type = op.type := by
    rcases origin with rfl | change
    · rfl
    · exact (change.sameRequest (typed atSlot) later).type
  rw [same] at some ⊢
  obtain old | ⟨env, found, first, isFound, transmits⟩ := step.exchanged slot member
  · exact asks slot op request datagram later atSlot some old
  · rw [atSlot] at isFound
    cases isFound
    exact transmits.type

theorem AsksForIts.user (asks : AsksForIts sys) (step : UserStep sys after) :
    AsksForIts after := by
  intro slot next request datagram later isNext some member
  cases step with
  | initFailed => exact asks slot next request datagram later isNext some member
  | initialised => exact asks slot next request datagram later isNext some member
  | memory => exact asks slot next request datagram later isNext some member
  | @queued i _ _ _ _ _ atSlot =>
      have log : (request, datagram) ∈ if i = slot then [] else exchanged slot sys.log := member
      split_ifs at log with same
      · cases log
      · obtain ⟨here, -⟩ | ⟨-, old⟩ := of_getElem?_setOp isNext
        · exact absurd here same
        · exact asks slot next request datagram later old some log
  | opInit atSlot =>
      obtain ⟨rfl, rfl⟩ | ⟨-, old⟩ := of_getElem?_setOp isNext
      · exact absurd rfl some
      · exact asks slot next request datagram later old some member
  | @opDone _ op atSlot =>
      obtain ⟨rfl, rfl⟩ | ⟨-, old⟩ := of_getElem?_setOp isNext
      · unfold exoOpDone at some ⊢
        split_ifs at some ⊢ with type
        · exact asks _ op request datagram later atSlot (by simp [type]) member
        · exact absurd rfl some
      · exact asks slot next request datagram later old some member

theorem asksForIts_of_reached {count : Nat} {heap : Mem}
    (reached : SysSteps (powerOn count heap) after) : AsksForIts after := by
  have both : AllTyped after ∧ AsksForIts after := by
    refine @SysSteps.invariant (fun sys => AllTyped sys ∧ AsksForIts sys) _ _ ?_ reached
      ⟨allTyped_powerOn count heap, fun _ _ _ _ _ _ _ member => nomatch member⟩
    rintro sys after step ⟨typed, asks⟩
    cases step with
    | lib _ step => exact ⟨step.allTyped typed, asks.lib typed step⟩
    | user step => exact ⟨step.allTyped typed, asks.user step⟩
  exact both.2

end Runs

end ExositeCoap.Exosite
