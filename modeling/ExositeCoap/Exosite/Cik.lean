import ExositeCoap.Exosite.Arrivals
import ExositeCoap.Exosite.Deliver
import ExositeCoap.Exosite.Whole
import ExositeCoap.Lib.Trace

/-!
# The CIK

The CIK is retrieved by `exo_init` and replaced only by the answer to an activation
request, as a whole.  So every request that is built completely carries the CIK that was
installed last.
-/

namespace ExositeCoap.Exosite

open Lib Wire Coap

/-! ## Installing a CIK -/

/-- The datagram is the answer to the activation request in `slot`, with 40 bytes of
payload. -/
structure Arrival.Installs (arrival : Arrival) (slot : Nat) (bytes : List UInt8) : Prop where
  isAck : IsAck arrival.rx
  success : coapGetCodeClass arrival.rx.pdu = .ok 2
  awaited : ∃ op, arrival.before.ops[slot]? = some op ∧ AwaitedBy arrival.rx op ∧
    op.type = .activate
  first : ∀ j other, j < slot → arrival.before.ops[j]? = some other → Skips arrival.rx other
  payload : HasPayload arrival.rx.pdu bytes
  length : bytes.length = cikLength

/-- The log has grown, but no CIK was stored. -/
def StoresNoCik (before after : Sys) : Prop :=
  ∃ events, after.log = events ++ before.log ∧ ∀ cik, .storedCik cik ∉ events

/-- What a datagram does to the CIK. -/
inductive CikChange (arrival : Arrival) (after : Sys) : Prop where
  | installed {slot : Nat} {bytes : List UInt8} {events : List Event}
      (installs : arrival.Installs slot bytes) (cik : after.cik = bytes ++ [0])
      (deviceState : after.deviceState = .good) (released : after.ops[slot]? = some exoOpInit)
      (log : after.log = .handled arrival.before.ops arrival.rx.pdu ::
        .storedCik (bytes ++ [0]) :: (events ++ arrival.before.log))
      (once : ∀ cik, .storedCik cik ∉ events)
  | unchanged (other : ∀ slot bytes, ¬ arrival.Installs slot bytes)
      (cik : after.cik = arrival.before.cik) (log : StoresNoCik arrival.before after)

section Changes

variable {arrival : Arrival} {goOn : Bool} {after : Sys} {slot : Nat} {op : ExoOp}

theorem TracesSkipped.not_storedCik {sys : Sys} {events : List Event}
    (traces : TracesSkipped sys events) (cik : List UInt8) : .storedCik cik ∉ events := by
  intro member
  obtain ⟨slot, op, impossible, -⟩ := traces _ member
  cases impossible

/-- Reactions of ops other than pending activation requests. -/
theorem Reaction.keeps_cik {rx : Received} {sys : Sys} {i : Nat}
    (reaction : Reaction rx sys i op after) (other : ¬ (op.state = .pending ∧ op.type = .activate)) :
    after.cik = sys.cik ∧ after.log = sys.log := by
  cases reaction with
  | activated state type => exact absurd ⟨state, type⟩ other
  | _ => exact ⟨rfl, rfl⟩

/-- Datagrams of other types install nothing. -/
theorem Arrival.not_installs_of_type {kind : CoapType} {bytes : List UInt8}
    (isKind : coapGetType arrival.rx.pdu = .ok kind) (other : kind ≠ .ack) :
    ¬ arrival.Installs slot bytes := by
  intro installs
  have isAck := installs.isAck.type
  rw [isKind] at isAck
  exact other (Except.ok.inj isAck)

/-- The op that takes the datagram is the one that it installs a CIK for. -/
theorem Arrival.Installs.taker {i : Nat} {bytes : List UInt8}
    (installs : arrival.Installs slot bytes) (atSlot : arrival.before.ops[i]? = some op)
    (first : ∀ j other, j < i → arrival.before.ops[j]? = some other → Skips arrival.rx other)
    (takes : Takes arrival.rx op) (typed : op.type ≠ .null) : op.type = .activate := by
  obtain ⟨found, isFound, awaited, type⟩ := installs.awaited
  rcases Nat.lt_trichotomy i slot with before | rfl | behind
  · exact absurd (installs.first i op before atSlot takes).2 typed
  · rw [atSlot] at isFound
    cases isFound
    exact type
  · have null := (first slot found behind isFound (installs.isAck.takes_iff.mpr awaited)).2
    rw [type] at null
    cases null

/-- The answer to an activation request: 40 bytes are installed, anything else is not. -/
theorem exoAnswered_activate {rx : Received} {sys : Sys} {i : Nat}
    (valid : coapValidatePkt rx.pdu = .ok .ceNone) (type : op.type = .activate)
    (ran : exoAnswered rx sys i op = .ok (true, after)) :
    (∃ bytes, HasPayload rx.pdu bytes ∧ bytes.length = cikLength ∧
      after = ({ sys with cik := bytes ++ [0], deviceState := .good }.record
        (.storedCik (bytes ++ [0]))).setOp i exoOpInit) ∨
    (∃ payload, coapGetPayload rx.pdu = .ok payload ∧ payload.len ≠ cikLength) ∧
      after = sys.setOp i exoOpInit := by
  rw [exoAnswered, type] at ran
  obtain ⟨payload, got, ran⟩ := Exec.bind_eq_ok.mp ran
  split_ifs at ran with length
  · have kinds := Received.gotPayload valid got
    cases kinds with
    | none => cases length
    | behind wrapped =>
        have short : cikLength < 2 ^ 63 := by decide
        dsimp only at length
        omega
    | @found bytes has =>
        dsimp only at length ran
        rw [← length, has.slice rx.fits rx.placed, Exec.ok_bind] at ran
        cases ran
        exact Or.inl ⟨bytes, has, length, rfl⟩
  · cases ran
    exact Or.inr ⟨⟨payload, got, length⟩, rfl⟩

theorem Arrival.cikChange
    (ran : exoHandleDatagram arrival.rx arrival.before = .ok (goOn, after)) :
    CikChange arrival after := by
  cases exoHandleDatagram_cases ran with
  | invalid isStatus failed =>
      refine .unchanged (fun slot bytes installs => ?_) rfl ⟨[], rfl, nofun⟩
      rw [installs.isAck.valid] at isStatus
      cases isStatus
      exact failed rfl
  | reset _ traces _ isCon =>
      refine .unchanged (fun slot bytes => Arrival.not_installs_of_type isCon nofun) rfl
        ⟨_ :: _ :: _, rfl, ?_⟩
      simpa using traces.not_storedCik
  | dropped _ traces unmatched =>
      refine .unchanged (fun slot bytes installs => ?_) rfl ⟨_ :: _, rfl, ?_⟩
      · obtain ⟨op, isOp, awaited, type⟩ := installs.awaited
        have null := (unmatched op (List.mem_of_getElem? isOp)
          (installs.isAck.takes_iff.mpr awaited)).2
        rw [type] at null
        cases null
      · simpa using traces.not_storedCik
  | @taken events i op result valid traces atSlot first round =>
      obtain ⟨takes, reaction⟩ := reaction_of_round round
      have quiet : ∀ cik, .storedCik cik ∉ .handled arrival.before.ops arrival.rx.pdu :: events := by
        simpa using traces.not_storedCik
      -- all cases but one leave the CIK alone
      have unchanged : (∀ slot bytes, ¬ arrival.Installs slot bytes) →
          result.cik = arrival.before.cik ∧ result.log = (arrival.before.logged events).log →
          CikChange arrival (result.record (.handled arrival.before.ops arrival.rx.pdu)) := by
        rintro other ⟨cik, log⟩
        exact .unchanged other cik ⟨_ :: events, congrArg (_ :: ·) log, quiet⟩
      cases takes with
      | @notification kind isKind isMessage state =>
          refine unchanged (fun slot bytes => Arrival.not_installs_of_type isKind ?_)
            (reaction.keeps_cik fun both => ?_)
          · rcases isMessage with rfl | rfl <;> nofun
          · rw [state] at both
            cases both.1
      | reset isKind =>
          have same := exoMatchOp_rst isKind round
          refine unchanged (fun slot bytes => Arrival.not_installs_of_type isKind nofun) ?_
          rw [same]
          exact ⟨rfl, rfl⟩
      | response isKind state mid =>
          have taker : Takes arrival.rx op := .response isKind state mid
          obtain ⟨codeClass, isClass⟩ := exoMatchOp_class isKind round
          by_cases success : codeClass = 2
          · subst success
            have answered := exoMatchOp_answered isKind isClass round
            have typed : op.type ≠ .null := by
              intro null
              rw [exoAnswered, null] at answered
              cases answered
            by_cases type : op.type = .activate
            · obtain ⟨bytes, has, length, rfl⟩ | ⟨⟨payload, got, length⟩, rfl⟩ :=
                exoAnswered_activate valid type answered
              · refine .installed ⟨⟨valid, isKind⟩, isClass, ⟨op, atSlot, ⟨state, mid⟩, type⟩,
                  first, has, length⟩ rfl rfl ?_ rfl traces.not_storedCik
                exact List.getElem?_set_self (List.getElem?_eq_some_iff.mp atSlot).1
              · refine unchanged (fun slot bytes installs => ?_) ⟨rfl, rfl⟩
                have long := ((coapValidatePkt_eq_none arrival.rx.fits arrival.rx.placed).mp
                  valid).len_ge
                rw [installs.payload.coapGetPayload_eq arrival.rx.fits arrival.rx.placed long] at got
                cases got
                exact length installs.length
            · exact unchanged
                (fun slot bytes installs => type (installs.taker atSlot first taker typed))
                (reaction.keeps_cik fun both => type both.2)
          · have refused := exoMatchOp_refused isKind isClass success round
            refine unchanged (fun slot bytes installs => ?_) ?_
            · have isTwo := installs.success
              rw [isClass] at isTwo
              exact success (Except.ok.inj isTwo)
            · obtain ⟨code, -, refused⟩ := Exec.bind_eq_ok.mp refused
              split_ifs at refused
              · split at refused
                · cases refused
                · split_ifs at refused <;> cases refused <;> exact ⟨rfl, rfl⟩
              · cases refused
                exact ⟨rfl, rfl⟩
              · cases refused
                exact ⟨rfl, rfl⟩

/-- Handling a datagram makes no entry about a request. -/
theorem Handling.logs_noRequest {rx : Received} {sys : Sys} (handling : Handling rx sys goOn after) :
    ∃ events, after.log = events ++ sys.log ∧ ∀ slot first request datagram ok,
      .sent (.request slot first request) datagram ok ∉ events := by
  have skipped : ∀ {events : List Event}, TracesSkipped sys events →
      ∀ slot first request datagram ok,
        .sent (.request slot first request) datagram ok ∉ events := by
    intro events traces slot first request datagram ok member
    obtain ⟨i, op, impossible, -⟩ := traces _ member
    cases impossible
  cases handling with
  | invalid => exact ⟨[], rfl, fun _ _ _ _ _ => nofun⟩
  | reset _ traces =>
      exact ⟨_ :: _ :: _, rfl, by simpa using skipped traces⟩
  | dropped _ traces => exact ⟨_ :: _, rfl, by simpa using skipped traces⟩
  | taken _ traces _ _ round =>
      obtain ⟨-, reaction⟩ := reaction_of_round round
      cases reaction with
      | activated => exact ⟨_ :: _ :: _, rfl, by simpa using skipped traces⟩
      | _ => exact ⟨_ :: _, rfl, by simpa using skipped traces⟩

end Changes

/-! ## Requests -/

/-- The builder that is called for a request. -/
def Request.build (request : Request) (pdu : CoapPdu) (mid : UInt16) (rand : UInt64) :
    Exec (ExoError × CoapPdu) :=
  match request.type with
  | .read => exoBuildMsgRead pdu mid rand request.cik request.aliasText
  | .subscribe => exoBuildMsgObserve pdu mid rand request.cik request.aliasText
  | .write => exoBuildMsgWrite pdu mid rand request.cik request.aliasText request.valueText
  | .activate | .null => throw .fault

/-- A builder returns `EXO_OK` for the request, whatever the buffer, the message id and
the token are. -/
def Request.BuiltOk (request : Request) : Prop :=
  ∃ (buffer : Buffer) (mid : UInt16) (rand : UInt64) (after : CoapPdu),
    request.build buffer.pdu mid rand = .ok (.exoOk, after)

/-- The datagram is a message with one Uri-Query option, the CIK. -/
def CarriesCik (cik : List UInt8) (datagram : List UInt8) : Prop :=
  ∃ message : Message, message.Encodable ∧ datagram = message.encode ∧
    message.options.filter (·.num = conUriQuery) = [⟨conUriQuery, cik⟩]

section Requests

variable {env : SlotEnv} {sys : Sys} {op : ExoOp} {request : Request} {pdu : CoapPdu}

/-- What is built for the op is built by that builder. -/
theorem exoBuildRequest_build (built : exoBuildRequest env sys op = .ok (some (request, pdu)))
    (typed : op.type ≠ .activate) :
    ∃ err, request.build env.pdu sys.messageIdCounter env.rand = .ok (err, pdu) := by
  unfold exoBuildRequest at built
  split at built
  next =>
    obtain ⟨aliasText, -, built⟩ := Exec.bind_eq_ok.mp built
    obtain ⟨⟨err, result⟩, ran, built⟩ := Exec.bind_eq_ok.mp built
    cases built
    exact ⟨err, ran⟩
  next =>
    obtain ⟨aliasText, -, built⟩ := Exec.bind_eq_ok.mp built
    obtain ⟨⟨err, result⟩, ran, built⟩ := Exec.bind_eq_ok.mp built
    cases built
    exact ⟨err, ran⟩
  next =>
    obtain ⟨aliasText, -, built⟩ := Exec.bind_eq_ok.mp built
    obtain ⟨valueText, -, built⟩ := Exec.bind_eq_ok.mp built
    obtain ⟨⟨err, result⟩, ran, built⟩ := Exec.bind_eq_ok.mp built
    cases built
    exact ⟨err, ran⟩
  next type => exact absurd type typed
  next => cases built

/-- The code of a request. -/
def Request.code (request : Request) : UInt8 := if request.type = .write then ccPost else ccGet

theorem Request.build_eq (request : Request) (pdu : CoapPdu) (mid : UInt16) (rand : UInt64)
    (user : request.type = .read ∨ request.type = .write ∨ request.type = .subscribe) :
    request.build pdu mid rand =
      buildMsg pdu (requestCalls request.code mid rand request.added request.payload) := by
  rcases user with type | type | type <;>
    simp [Request.build, Request.code, Request.added, Request.options, Request.payload, type,
      exoBuildMsgRead, exoBuildMsgWrite, exoBuildMsgObserve]

theorem Request.added_queries (request : Request) :
    request.added.filter (·.num = conUriQuery) =
      [⟨conUriQuery, request.cik.take cikLength⟩] := by
  unfold Request.added Request.options
  split_ifs <;> simp [dataportOptions, conUriQuery, conUriPath, conObserve]

/-- A request that is built with `EXO_OK` has all its options. -/
theorem Request.BuiltOk.options (builtOk : request.BuiltOk)
    (user : request.type = .read ∨ request.type = .write ∨ request.type = .subscribe)
    {buffer : Buffer} {mid : UInt16} {rand : UInt64} {err : ExoError}
    (built : request.build buffer.pdu mid rand = .ok (err, pdu)) :
    ∃ floor message, Simulates minimumDatagramSize floor pdu message ∧
      message.options = request.added := by
  obtain ⟨other, otherMid, otherRand, after, otherBuilt⟩ := builtOk
  rw [Request.build_eq request _ _ _ user] at built otherBuilt
  obtain ⟨otherErr, otherAfter, _, otherResult, -, -, -, otherFits, -⟩ :=
    buildRequest_spec other request.code otherMid otherRand request.payload
      request.ascending_added request.positive_added
  rw [otherResult] at otherBuilt
  cases otherBuilt
  obtain ⟨sameErr, result, message, isResult, ⟨floor, simulates⟩, -, -, fits, whole⟩ :=
    buildRequest_spec buffer request.code mid rand request.payload request.ascending_added
      request.positive_added
  rw [isResult] at built
  cases built
  -- the length depends neither on the message id nor on the token
  have size : (requestMessage request.code mid rand request.added request.payload).encode.length =
      (requestMessage request.code otherMid otherRand request.added
        request.payload).encode.length := by
    simp only [Message.encode_length, Message.body_length, requestMessage, leBytes_length]
  have ok := fits.mpr (size ▸ otherFits.mp rfl)
  refine ⟨floor, message, simulates, ?_⟩
  rw [whole ok]
  rfl

/-- Every transmission of such a request carries the CIK of the library. -/
theorem Transmits.carriesCik {datagram : List UInt8} {first : Bool}
    (transmits : Transmits env sys op request datagram first)
    (user : request.type = .read ∨ request.type = .write ∨ request.type = .subscribe)
    (builtOk : request.BuiltOk) : CarriesCik (sys.cik.take cikLength) datagram := by
  have carries : ∀ {built : CoapPdu} {message : Message},
      exoBuildRequest env sys op = .ok (some (request, built)) →
      message.options = request.added →
      message.options.filter (·.num = conUriQuery) =
        [(⟨conUriQuery, sys.cik.take cikLength⟩ : Opt)] := by
    intro built message isBuilt options
    obtain ⟨-, cik, -⟩ := exoBuildRequest_calls isBuilt
    rw [options, Request.added_queries, cik]
  have typed : ∀ {built}, exoBuildRequest env sys op = .ok (some (request, built)) →
      op.type ≠ .activate := by
    intro built isBuilt
    rw [← (exoBuildRequest_calls isBuilt).1]
    rcases user with type | type | type <;> simp [type]
  cases transmits with
  | first _ built bytes =>
      obtain ⟨err, isBuilt⟩ := exoBuildRequest_build built (typed built)
      obtain ⟨floor, message, simulates, options⟩ := builtOk.options user isBuilt
      exact ⟨message, simulates.encodable, simulates.datagram_eq bytes, carries built options⟩
  | again _ _ built setMid setToken bytes =>
      obtain ⟨err, isBuilt⟩ := exoBuildRequest_build built (typed built)
      obtain ⟨floor, message, simulates, options⟩ := builtOk.options user isBuilt
      obtain ⟨next, second, midOptions, -⟩ :=
        simulates.keepsBody (.setMid op.mid) trivial trivial setMid rfl rfl
      obtain ⟨last, third, tokenOptions, -⟩ :=
        second.keepsBody (.setToken op.token op.tkl) trivial trivial setToken rfl rfl
      exact ⟨last, third.encodable, third.datagram_eq bytes,
        carries built (tokenOptions.trans (midOptions.trans options))⟩

end Requests

/-! ## Runs -/

/-- The CIK that was stored last, newest entry first, or the initial one. -/
def latestCik (initial : List UInt8) : List Event → List UInt8
  | [] => initial
  | .storedCik cik :: _ => cik.take cikLength
  | _ :: older => latestCik initial older

/-- An entry about a request of the user that was built with `EXO_OK`: it carries the CIK
that was stored last. -/
def CarriesLatest (initial : List UInt8) (entry : Event) (older : List Event) : Prop :=
  ∀ slot first request datagram ok, entry = .sent (.request slot first request) datagram ok →
    (request.type = .read ∨ request.type = .write ∨ request.type = .subscribe) →
    request.BuiltOk → CarriesCik (latestCik initial older) datagram

/-- The CIK along a run that starts with the initial one; `events` is what has been
logged since, and `source` holds of the datagrams that were handled. -/
structure CikTrace (initial : List UInt8) (source : Arrival → Prop) (sys : Sys)
    (events : List Event) : Prop where
  length : (latestCik initial events).length = cikLength
  cik : sys.cik = latestCik initial events ++ [0]
  stored : ∀ cik, .storedCik cik ∈ events → ∃ arrival slot bytes, source arrival ∧
    arrival.Installs slot bytes ∧ cik = bytes ++ [0]
  requests : EachEntry (CarriesLatest initial) events

/-- The run goes on, with some more entries in the log. -/
def CikTrace.Continues (initial : List UInt8) (source : Arrival → Prop) (sys after : Sys)
    (events : List Event) : Prop :=
  ∃ more, after.log = more ++ sys.log ∧ CikTrace initial source after (more ++ events)

section Traces

variable {initial : List UInt8} {source : Arrival → Prop} {sys middle after : Sys}
  {events more : List Event}

theorem latestCik_append (none : ∀ cik, .storedCik cik ∉ more) :
    latestCik initial (more ++ events) = latestCik initial events := by
  induction more with
  | nil => rfl
  | cons event rest ih =>
      have kept := ih fun cik member => none cik (List.mem_cons_of_mem _ member)
      cases event with
      | storedCik cik => exact absurd List.mem_cons_self (none cik)
      | _ => exact kept

theorem CikTrace.Continues.trans (first : CikTrace.Continues initial source sys middle events)
    (second : ∀ {events}, CikTrace initial source middle events →
      CikTrace.Continues initial source middle after events) :
    CikTrace.Continues initial source sys after events := by
  obtain ⟨more, log, trace⟩ := first
  obtain ⟨newer, newerLog, final⟩ := second trace
  refine ⟨newer ++ more, ?_, ?_⟩
  · rw [newerLog, log, List.append_assoc]
  · rw [List.append_assoc]
    exact final

/-- Entries about neither a CIK nor a request. -/
theorem CikTrace.quiet (trace : CikTrace initial source sys events) (cik : after.cik = sys.cik)
    (log : after.log = more ++ sys.log) (none : ∀ cik, .storedCik cik ∉ more)
    (other : ∀ slot first request datagram ok,
      .sent (.request slot first request) datagram ok ∉ more) :
    CikTrace.Continues initial source sys after events := by
  refine ⟨more, log, ?_, ?_, ?_, ?_⟩
  · rw [latestCik_append none]
    exact trace.length
  · rw [latestCik_append none, cik]
    exact trace.cik
  · intro stored member
    exact trace.stored stored ((List.mem_append.mp member).resolve_left (none stored))
  · refine trace.requests.append fun entry member older => ?_
    rintro slot first request datagram ok rfl
    exact absurd member (other slot first request datagram ok)

/-- A datagram is handled. -/
theorem CikTrace.handled {arrival : Arrival} {goOn : Bool}
    (trace : CikTrace initial source arrival.before events) (isSource : source arrival)
    (ran : exoHandleDatagram arrival.rx arrival.before = .ok (goOn, after)) :
    CikTrace.Continues initial source arrival.before after events := by
  obtain ⟨grown, grownLog, noRequest⟩ := (exoHandleDatagram_cases ran).logs_noRequest
  cases Arrival.cikChange ran with
  | unchanged _ cik log =>
      obtain ⟨more, moreLog, none⟩ := log
      rw [grownLog] at moreLog
      obtain rfl := List.append_cancel_right moreLog
      exact trace.quiet cik grownLog none noRequest
  | @installed slot bytes rest installs cik _ _ log once =>
      have front : bytes.take cikLength = bytes := by
        rw [← installs.length, List.take_length]
      have newest : latestCik initial (.handled arrival.before.ops arrival.rx.pdu ::
          .storedCik (bytes ++ [0]) :: (rest ++ events)) = bytes := by
        rw [latestCik, latestCik, List.take_append_of_le_length (Nat.le_of_eq installs.length.symm),
          front]
        exact nofun
      refine ⟨.handled arrival.before.ops arrival.rx.pdu :: .storedCik (bytes ++ [0]) :: rest,
        log, ?_, ?_, ?_, ?_⟩
      · rw [List.cons_append, List.cons_append, newest]
        exact installs.length
      · rw [List.cons_append, List.cons_append, newest]
        exact cik
      · intro stored member
        rcases List.mem_append.mp member with new | old
        · simp only [List.mem_cons, reduceCtorEq, false_or, Event.storedCik.injEq] at new
          rcases new with rfl | new
          · exact ⟨arrival, slot, bytes, isSource, installs, rfl⟩
          · exact absurd new (once stored)
        · exact trace.stored stored old
      · refine trace.requests.append fun entry member older => ?_
        rintro i first request datagram ok rfl
        have same : .handled arrival.before.ops arrival.rx.pdu ::
            .storedCik (bytes ++ [0]) :: rest = grown :=
          List.append_cancel_right (log.symm.trans grownLog)
        exact absurd (same ▸ member) (noRequest i first request datagram ok)

/-- A request goes out, for the first time or again. -/
theorem CikTrace.requested {env : SlotEnv} {i : Nat} {op : ExoOp} {request : Request}
    {datagram : List UInt8} {first ok : Bool} (trace : CikTrace initial source sys events)
    (transmits : Transmits env sys op request datagram first) (cik : after.cik = sys.cik)
    (log : after.log =
      .sent (.request i first request) datagram ok :: .built i request :: sys.log) :
    CikTrace.Continues initial source sys after events := by
  refine ⟨[.sent (.request i first request) datagram ok, .built i request], log,
    trace.length, ?_, ?_, ?_⟩
  · rw [cik]
    exact trace.cik
  · intro stored member
    simp only [List.cons_append, List.nil_append, List.mem_cons, reduceCtorEq, false_or] at member
    exact trace.stored stored member
  · refine EachEntry.cons (EachEntry.cons trace.requests ?_) ?_
    · intro j again other bytes sent impossible
      cases impossible
    · intro j again other bytes sent same user builtOk
      cases same
      have carries := transmits.carriesCik user builtOk
      rw [trace.cik, List.take_append_of_le_length (Nat.le_of_eq trace.length.symm),
        ← trace.length, List.take_length] at carries
      exact carries

theorem CikTrace.processed {now : UInt64} {env : SlotEnv} {i : Nat} {op : ExoOp}
    (trace : CikTrace initial source sys events)
    (ran : exoProcessOp now env sys i op = .ok after) :
    CikTrace.Continues initial source sys after events := by
  have quiet : ∀ {result : Sys} {more : List Event}, result.cik = sys.cik →
      result.log = more ++ sys.log → (∀ cik, .storedCik cik ∉ more) →
      (∀ slot first request datagram ok,
        .sent (.request slot first request) datagram ok ∉ more) →
      CikTrace.Continues initial source sys result events := trace.quiet
  cases exoProcessOp_cases ran with
  | idle => exact @quiet _ [] rfl rfl (by simp) (by simp)
  | unexpectedNew => exact @quiet _ [_] rfl rfl (by simp) (by simp)
  | unexpectedWait => exact @quiet _ [_] rfl rfl (by simp) (by simp)
  | sent state built bytes => exact trace.requested (.first state built bytes) rfl rfl
  | unsent state built bytes => exact trace.requested (.first state built bytes) rfl rfl
  | resent waits type _ built setMid setToken bytes =>
      exact trace.requested (.again waits type built setMid setToken bytes) rfl rfl
  | unresent waits type built setMid setToken bytes =>
      exact trace.requested (.again waits type built setMid setToken bytes) rfl rfl
  | gaveUp => exact @quiet _ [] rfl rfl (by simp) (by simp)
  | renewed => exact @quiet _ [] rfl rfl (by simp) (by simp)
  | acked => exact @quiet _ [_] rfl rfl (by simp) (by simp)
  | unacked => exact @quiet _ [_] rfl rfl (by simp) (by simp)

theorem CikTrace.refl (trace : CikTrace initial source sys events) :
    CikTrace.Continues initial source sys sys events := ⟨[], rfl, trace⟩

theorem CikTrace.active {now : UInt64} {envs : Nat → SlotEnv} {left i : Nat}
    (trace : CikTrace initial source sys events)
    (ran : exoActiveLoop now envs sys left i = .ok after) :
    CikTrace.Continues initial source sys after events := by
  refine @exoActiveLoop_rule _ _ _ _ _
    (fun _ state => CikTrace.Continues initial source sys state events) _ ran trace.refl ?_
  intro state next i op atSlot processed first
  exact first.trans fun later => later.processed processed

theorem CikTrace.waiting {datagrams : List Received}
    (trace : CikTrace initial source sys events)
    (sources : ∀ arrival ∈ waitingArrivals sys datagrams, source arrival)
    (ran : exoProcessWaitingDatagrams sys datagrams = .ok after) :
    CikTrace.Continues initial source sys after events := by
  refine @exoProcessWaitingDatagrams_rule _ _ _
    (fun state => CikTrace.Continues initial source sys state events) ran trace.refl ?_
  intro arrival goOn next member handled first
  exact first.trans fun later => later.handled (sources arrival member) handled

theorem CikTrace.operated {operation : Operation} {state : ExoState}
    (trace : CikTrace initial source operation.before events)
    (sources : ∀ arrival ∈ operation.arrivals, source arrival)
    (ran : exoOperate operation.env operation.before = .ok (state, after)) :
    CikTrace.Continues initial source operation.before after events := by
  obtain ⟨-, rfl⟩ | ⟨on, ready, received, isReady, waiting, active⟩ := exoOperate_parts ran
  · exact trace.refl
  · rw [Operation.arrivals, if_neg on, isReady] at sources
    have first : CikTrace.Continues initial source operation.before ready events := by
      obtain rfl | ⟨found, -, rfl⟩ := exoReady_cases isReady
      · exact trace.refl
      · exact @CikTrace.quiet _ _ _ _ _ [] trace rfl rfl (by simp) (by simp)
    exact (first.trans fun later => later.waiting sources waiting).trans
      fun later => later.active active

/-- The call is not `exo_init`. -/
def UserCall.KeepsDevice : UserCall → Prop
  | .init _ _ _ _ => False
  | _ => True

theorem CikTrace.called {action : UserCall} (trace : CikTrace initial source sys events)
    (other : action.KeepsDevice)
    (sources : ∀ operation ∈ action.operation sys, ∀ arrival ∈ operation.arrivals, source arrival)
    (ran : call sys action = .ok after) : CikTrace.Continues initial source sys after events := by
  cases action with
  | init => cases other
  | write =>
      obtain ⟨op, -, ran⟩ := Exec.bind_eq_ok.mp ran
      cases ran
      exact @CikTrace.quiet _ _ _ _ _ [_] trace rfl rfl (by simp) (by simp)
  | read =>
      obtain ⟨op, -, ran⟩ := Exec.bind_eq_ok.mp ran
      cases ran
      exact @CikTrace.quiet _ _ _ _ _ [_] trace rfl rfl (by simp) (by simp)
  | subscribe =>
      obtain ⟨op, -, ran⟩ := Exec.bind_eq_ok.mp ran
      cases ran
      exact @CikTrace.quiet _ _ _ _ _ [_] trace rfl rfl (by simp) (by simp)
  | opInit =>
      obtain ⟨op, -, ran⟩ := Exec.bind_eq_ok.mp ran
      cases ran
      exact @CikTrace.quiet _ _ _ _ _ [] trace rfl rfl (by simp) (by simp)
  | opDone =>
      obtain ⟨op, -, ran⟩ := Exec.bind_eq_ok.mp ran
      cases ran
      exact @CikTrace.quiet _ _ _ _ _ [_] trace rfl rfl (by simp) (by simp)
  | memory =>
      cases ran
      exact @CikTrace.quiet _ _ _ _ _ [] trace rfl rfl (by simp) (by simp)
  | operate env =>
      obtain ⟨⟨state, result⟩, operated, same⟩ := Exec.bind_eq_ok.mp ran
      cases same
      exact @CikTrace.operated _ _ _ _ ⟨sys, env⟩ _ trace (sources _ List.mem_cons_self) operated

theorem CikTrace.ran {calls : List UserCall} (trace : CikTrace initial source sys events)
    (others : ∀ action ∈ calls, action.KeepsDevice)
    (sources : ∀ arrival ∈ arrivals sys calls, source arrival)
    (ran : run sys calls = .ok after) : CikTrace.Continues initial source sys after events := by
  induction calls generalizing sys events with
  | nil =>
      cases ran
      exact trace.refl
  | cons action rest ih =>
      obtain ⟨next, called, ran⟩ := Exec.bind_eq_ok.mp ran
      rw [arrivals, operations, called, List.flatMap_append] at sources
      have first := trace.called (others action List.mem_cons_self)
        (fun operation isOperation arrival member => sources arrival
          (List.mem_append_left _ (List.mem_flatMap.mpr ⟨operation, isOperation, member⟩))) called
      exact first.trans fun later => ih later
        (fun other member => others other (List.mem_cons_of_mem _ member))
        (fun arrival member => sources arrival (List.mem_append_right _ member)) ran

end Traces

/-- A successful `exo_init` ends the retrieved CIK with a zero. -/
theorem exoInit_cik {env : InitEnv} {vendor model serial : Nat} {sys start : Sys}
    (init : exoInit env vendor model serial sys = (.exoOk, start)) :
    start.cik = env.cik.set cikLength 0 := by
  unfold exoInit at init
  dsimp only at init
  split_ifs at init
  · cases init
  · cases init
  · cases init
  · cases init
    rfl

/-- After `exo_init`, the CIK is the one that was retrieved until an answer to an
activation request brings 40 bytes, which are then installed and stored as a whole; no
other datagram changes it. All requests that are built with `EXO_OK` carry the CIK that
was installed last. -/
theorem run_cik {env : InitEnv} {vendor model serial : Nat} {sys start after : Sys}
    {calls : List UserCall} (init : exoInit env vendor model serial sys = (.exoOk, start))
    (others : ∀ action ∈ calls, action.KeepsDevice) (ran : run start calls = .ok after) :
    (∀ arrival ∈ arrivals start calls, ∀ goOn next,
      exoHandleDatagram arrival.rx arrival.before = .ok (goOn, next) → CikChange arrival next) ∧
    ∃ events, after.log = events ++ start.log ∧
      CikTrace (env.cik.take cikLength) (· ∈ arrivals start calls) after events := by
  refine ⟨fun arrival _ goOn next => Arrival.cikChange, ?_⟩
  have installed : start.cik = env.cik.take cikLength ++ [0] := by
    rw [exoInit_cik init]
    have whole := List.take_append_drop cikLength env.cik
    have rest : (env.cik.drop cikLength).length = 1 := by
      rw [List.length_drop, env.cik_length]
      exact Nat.add_sub_cancel_left _ _
    obtain ⟨last, isLast⟩ := List.length_eq_one_iff.mp rest
    rw [isLast] at whole
    have place : cikLength = (env.cik.take cikLength).length := by
      rw [List.length_take, env.cik_length]
      decide
    conv_lhs => rw [← whole]
    rw [List.set_append_right _ _ (Nat.le_of_eq place.symm), ← place, Nat.sub_self]
    rfl
  have size : (env.cik.take cikLength).length = cikLength := by
    rw [List.length_take, env.cik_length]
    decide
  have trace : CikTrace (env.cik.take cikLength) (· ∈ arrivals start calls) start [] :=
    ⟨size, installed, nofun, .nil⟩
  obtain ⟨more, log, final⟩ := trace.ran others (fun arrival member => member) ran
  exact ⟨more, log, by rwa [List.append_nil] at final⟩

/-- A CIK of forty times "A". -/
def freshCik : List UInt8 := List.replicate 40 0x41

/-- The activation request is answered with a CIK. -/
theorem run_cik_activated : ∃ start after events,
    exoInit ⟨true, 7, 0, List.replicate 41 0x30, rfl, true⟩ 1 1 1 (powerOn 1 quietHeap) =
      (.exoOk, start) ∧
    run start [quietOperate [], quietOperate [[0x60, 0x45, 0, 7, 0xFF] ++ freshCik]] = .ok after ∧
      after.cik = freshCik ++ [0] ∧ after.deviceState = .good ∧
      CikTrace (List.replicate 40 0x30) (· ∈ arrivals start [quietOperate [],
        quietOperate [[0x60, 0x45, 0, 7, 0xFF] ++ freshCik]]) after events := by
  have computed : (run (exoInit ⟨true, 7, 0, List.replicate 41 0x30, rfl, true⟩ 1 1 1
      (powerOn 1 quietHeap)).2
      [quietOperate [], quietOperate [[0x60, 0x45, 0, 7, 0xFF] ++ freshCik]]).map
        (fun after => (after.cik, after.deviceState)) = .ok (freshCik ++ [0], .good) := by
    decide +kernel
  obtain ⟨after, ran, values⟩ := Exec.map_eq_ok.mp computed
  simp only [Prod.mk.injEq] at values
  obtain ⟨-, events, -, trace⟩ := @run_cik ⟨true, 7, 0, List.replicate 41 0x30, rfl, true⟩ 1 1 1
    (powerOn 1 quietHeap) _ _ _ rfl (by simp [quietOperate, UserCall.KeepsDevice]) ran
  exact ⟨_, after, events, rfl, ran, values.1, values.2, trace⟩

end ExositeCoap.Exosite
