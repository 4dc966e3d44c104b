import ExositeCoap.Coap.Reencode
import ExositeCoap.Exosite.Answer
import ExositeCoap.Exosite.Endpoint
import ExositeCoap.Exosite.Queue
import ExositeCoap.Exosite.Total

/-!
# Packets do not matter

The library is an endpoint for messages: a run in which every datagram is turned down or is a
message is a run of `Endpoint`, and they trap alike (`run_endpoint`).  So what lies in the
buffers behind a datagram, and what the stack held when a packet was built, has no influence
on anything that the user, the server or the platform can see (`run_blind`).
-/

namespace ExositeCoap.Exosite

open Lib Wire Coap

/-! ## Reading -/

/-- What the endpoint is handed for a datagram. -/
def Received.incoming (rx : Received) (message : Message) : Incoming :=
  ⟨message, rx.time, rx.rand, rx.sendOk, rx.wideShift⟩

section Reading

/-- In two lists that correspond, what is found corresponds. -/
theorem find?_of_forall₂ {α β : Type} {relates : α → β → Prop} {left : α → Bool} {right : β → Bool}
    (same : ∀ {first second}, relates first second → left first = right second) {xs : List α}
    {ys : List β} (related : List.Forall₂ relates xs ys) :
    Option.Rel relates (xs.find? left) (ys.find? right) := by
  induction related with
  | nil => exact .none
  | @cons first second _ _ here _ ih =>
      rw [List.find?_cons, List.find?_cons, same here]
      cases right second with
      | true => exact .some here
      | false => exact ih

variable {rx : Received} {message : Message} (legible : Legible rx.pdu message)

include legible

theorem Legible.searchFuel_gt : message.options.length < searchFuel rx.pdu := by
  have size := legible.holds.len_eq_body
  have short := length_le_encodeOptions 0 message.options
  rw [Message.body_length] at size
  rw [searchFuel]
  omega

/-- The search finds the first option with the number. -/
theorem Legible.search_some {num : Nat} {option : Opt}
    (first : message.options.find? (·.num = num) = some option) :
    ∃ span, coapGetOptionByNum rx.pdu (searchFuel rx.pdu) num 0 = .ok span ∧
      Delivers rx.pdu.mem span option := by
  have related := @find?_of_forall₂ _ _ _ (fun span : CoapOption => decide (span.num = num))
    (fun option : Opt => decide (option.num = num)) (fun delivers => by rw [delivers.num]) _ _
    legible.holds.optionsIn_deliver
  rw [first] at related
  cases isSpan : (optionsIn message).find? (·.num = num) with
  | none =>
      rw [isSpan] at related
      cases related
  | some span =>
      rw [isSpan] at related
      cases related with
      | some delivers =>
          have there : 0 < occurrences message num := by
            rw [occurrences, List.countP_pos_iff]
            exact ⟨option, List.mem_of_find?_eq_some first, by simpa using List.find?_some first⟩
          refine ⟨span, ?_, delivers⟩
          rw [legible.holds.search_found legible.encodable legible.nonzero legible.searchFuel_gt
            (by decide) there, searchLinearly, ← List.head?_eq_getElem?, List.head?_filter, isSpan,
            Option.getD_some]

theorem Legible.search_none {num : Nat} (positive : 0 < num)
    (absent : message.options.find? (·.num = num) = none) :
    coapGetOptionByNum rx.pdu (searchFuel rx.pdu) num 0 =
      .ok (if ∃ option ∈ message.options, num < option.num then ⟨0, 0, none⟩
        else finalOption rx.pdu message) := by
  have none : occurrences message num = 0 := by
    rw [occurrences, List.countP_eq_zero]
    exact List.find?_eq_none.mp absent
  exact legible.holds.search_absent legible.encodable legible.nonzero legible.searchFuel_gt
    positive (Or.inr none.le)

theorem Legible.timeout_eq : subscriptionTimeout rx = .ok (rx.incoming message).timeout := by
  unfold subscriptionTimeout Incoming.timeout Incoming.maxAge Incoming.option
  rw [show (rx.incoming message).message = message from rfl]
  cases found : message.options.find? (·.num = conMaxAge) with
  | none =>
      rw [legible.search_none (by decide) found]
      split_ifs with larger
      · rfl
      · rw [Exec.ok_bind, if_neg fun named => named.1 (finalOption_num rx.pdu message)]
        rfl
  | some option =>
      obtain ⟨span, searched, delivers⟩ := legible.search_some found
      obtain ⟨pos, isPos, loaded⟩ := delivers.value
      have number : span.num ≠ 0 := by
        rw [delivers.num, show option.num = conMaxAge by simpa using List.find?_some found]
        decide
      rw [searched, Exec.ok_bind, isPos]
      simp only [Option.map_some, delivers.len, number, ne_eq, not_false_eq_true, true_and]
      have place := Mem.drop_of_slice loaded
      rcases isValue : option.value with _ | ⟨seconds, _ | ⟨next, rest⟩⟩
      · rfl
      · rw [isValue] at place
        rw [List.length_singleton, if_pos rfl, Mem.read_of_drop place]
        rfl
      · rfl

theorem Legible.observe_eq (seed : UInt32) :
    observeSeq rx seed = .ok ((rx.incoming message).observe seed) := by
  unfold observeSeq Incoming.observe Incoming.option Incoming.text
  rw [show (rx.incoming message).message = message from rfl]
  cases found : message.options.find? (·.num = conObserve) with
  | some option =>
      obtain ⟨span, searched, delivers⟩ := legible.search_some found
      obtain ⟨pos, isPos, loaded⟩ := delivers.value
      rw [searched, Exec.ok_bind, isPos, delivers.len]
      exact observeLoop_eq (Mem.drop_of_slice loaded)
  | none =>
      rw [legible.search_none (by decide) found]
      split_ifs with larger empty empty
      · obtain ⟨option, member, -⟩ := larger
        rw [empty] at member
        cases member
      · rfl
      · -- no option stops the search before the payload
        cases text : message.payload with
        | none =>
            rw [finalOption, text]
            rfl
        | some bytes =>
            have atPayload := legible.holds.payloadIn_delivers
            rw [payloadIn, text, empty] at atPayload
            obtain ⟨-, pos, isPos, loaded⟩ := atPayload
            cases isPos
            simp only [finalOption, text, if_pos empty]
            exact observeLoop_eq (Mem.drop_of_slice loaded)
      · obtain none | none | ⟨option, member, large⟩ := legible.observe
        · rw [finalOption, none]
          rfl
        · exact absurd none empty
        · have other : ¬ option.num = conObserve := by
            simpa using List.find?_eq_none.mp found option member
          exact absurd ⟨option, member, by omega⟩ larger

theorem Legible.payload_eq : ∃ payload, coapGetPayload rx.pdu = .ok payload ∧
    payload.len = (rx.incoming message).text.length ∧
      (payload.len ≠ 0 → ∃ pos, payload.val = some pos ∧
        rx.pdu.mem.slice pos payload.len = .ok (rx.incoming message).text) := by
  obtain ⟨payload, got, delivers⟩ := legible.observes.payload
  refine ⟨payload, got, ?_⟩
  unfold Incoming.text
  rw [show (rx.incoming message).message = message from rfl]
  cases text : message.payload with
  | none =>
      rw [text] at delivers
      subst delivers
      exact ⟨rfl, fun present => absurd rfl present⟩
  | some bytes =>
      rw [text] at delivers
      obtain ⟨length, pos, isPos, loaded⟩ := delivers
      exact ⟨length, fun _ => ⟨pos, isPos, loaded⟩⟩

theorem Legible.delivery_eq (op : ExoOp) : delivery rx.pdu op =
    .ok (if (rx.incoming message).text = [] then some []
      else if (rx.incoming message).text.length + 1 > op.valueMax ∨ op.valuePtr = 0 then none
      else some (rx.incoming message).text) := by
  obtain ⟨payload, got, length, loads⟩ := legible.payload_eq
  obtain ⟨other, isOther, small, -⟩ := legible.payload
  rw [got] at isOther
  cases isOther
  have noWrap : (payload.len + 1) % 2 ^ 64 = payload.len + 1 := by
    refine Nat.mod_eq_of_lt ?_
    unfold minimumDatagramSize at small
    omega
  rw [delivery, got, Exec.ok_bind, noWrap, length]
  rw [length] at loads
  simp only [List.length_eq_zero_iff]
  split_ifs with none tooLong
  · rfl
  · rfl
  · obtain ⟨pos, isPos, loaded⟩ := loads (fun zero => none (List.length_eq_zero_iff.mp zero))
    rw [isPos]
    dsimp only
    rw [loaded]
    rfl

theorem Legible.storePayload_eq (heap : Mem) (op : ExoOp) :
    storePayload rx.pdu heap op = (rx.incoming message).storeText heap op := by
  rw [storePayload_eq_delivery, legible.delivery_eq, Exec.ok_bind, Incoming.storeText]
  split_ifs with none
  · rfl
  · rfl
  · simp only [none, if_false]

theorem Legible.exoDelivered_eq (op : ExoOp) :
    exoDelivered rx op = .ok ((rx.incoming message).delivered op) := by
  unfold exoDelivered Incoming.delivered
  split_ifs
  · rw [legible.timeout_eq, legible.observe_eq]
    rfl
  · rfl

end Reading

/-! ## What an endpoint shows -/

/-- What the platform is asked for. -/
def Event.effect : Event → Option Effect
  | .sent _ datagram ok => some (.send datagram ok)
  | .storedCik cik => some (.storeCik cik)
  | _ => none

/-- The library as an endpoint. -/
def Sys.endpoint (sys : Sys) : Endpoint :=
  ⟨sys.cik, sys.vendor, sys.model, sys.serial, sys.messageIdCounter, sys.deviceState, sys.ops,
    sys.heap, sys.log.filterMap Event.effect⟩

/-- The endpoint is in the state of the library. -/
abbrev Views (sys : Sys) (endpoint : Endpoint) : Prop := sys.endpoint = endpoint

/-! ## Receiving -/

section Receiving

variable {rx : Received} {message : Message} (legible : Legible rx.pdu message) {sys : Sys}
  {i : Nat} {op : ExoOp}

include legible

theorem exoNotified_agrees :
    Exec.Agree Views (exoNotified rx sys i op)
      (sys.endpoint.notified (rx.incoming message) i op) := by
  have observes := legible.observes
  unfold exoNotified Endpoint.notified
  simp only [observes.code, coapGetCodeClass, Exec.ok_bind, Exec.pure_eq_ok,
    show (rx.incoming message).message = message from rfl]
  split_ifs with content failed
  · rw [legible.observe_eq, Exec.ok_bind, legible.storePayload_eq]
    refine .after fun result _ => ?_
    cases result with
    | empty heap => exact .ok rfl
    | rejected => exact .ok rfl
    | stored heap =>
        dsimp only
        rw [observes.mid, Exec.ok_bind, legible.timeout_eq, Exec.ok_bind]
        unfold Incoming.renewed
        dsimp only
        split_ifs <;> exact .ok rfl
  · exact .ok rfl
  · exact .ok rfl

/-- The search for an op ends here, in this state. -/
abbrev ViewsTaken (result : Bool × Sys) (endpoint : Endpoint) : Prop :=
  result.1 = true ∧ result.2.endpoint = endpoint

theorem exoAnswered_agrees (type : op.type ≠ .null) :
    Exec.Agree ViewsTaken (exoAnswered rx sys i op)
      (sys.endpoint.answered (rx.incoming message) i op) := by
  have copied (asks : op.type = .read ∨ op.type = .subscribe) :
      Exec.Agree ViewsTaken (exoAnswered rx sys i op) (do
        return sys.endpoint.keep i op ((rx.incoming message).delivered op)
          (← (rx.incoming message).storeText sys.endpoint.heap op)) := by
    rw [exoAnswered_eq asks, legible.storePayload_eq]
    refine .after fun result _ => ?_
    cases result with
    | empty heap => exact .ok ⟨rfl, rfl⟩
    | rejected => exact .ok ⟨rfl, rfl⟩
    | stored heap =>
        dsimp only
        rw [legible.exoDelivered_eq]
        exact .ok ⟨rfl, rfl⟩
  cases isType : op.type with
  | null => exact absurd isType type
  | write =>
      simp only [exoAnswered, Endpoint.answered, isType]
      exact .ok ⟨rfl, rfl⟩
  | read =>
      simp only [Endpoint.answered, isType]
      exact copied (Or.inl isType)
  | subscribe =>
      simp only [Endpoint.answered, isType]
      exact copied (Or.inr isType)
  | activate =>
      obtain ⟨payload, got, length, loads⟩ := legible.payload_eq
      simp only [exoAnswered, Endpoint.answered, isType]
      rw [got, Exec.ok_bind, length]
      split_ifs with whole
      · obtain ⟨pos, isPos, loaded⟩ := loads (by rw [length, whole]; decide)
        rw [length, whole] at loaded
        rw [isPos]
        dsimp only
        rw [loaded]
        exact .ok ⟨rfl, rfl⟩
      · exact .ok ⟨rfl, rfl⟩

theorem exoRefused_agrees (inRange : i < sys.ops.length) :
    Exec.Agree Views (exoRefused rx sys i op)
      (.ok (sys.endpoint.refused (rx.incoming message) i op)) := by
  rw [exoRefused_eq inRange legible.observes.code]
  refine .ok ?_
  unfold Endpoint.refused
  rw [show (rx.incoming message).message = message from rfl]
  split_ifs with unauthorized notFound
  · rfl
  · rw [Outcome.apply, show Aside.notFound.first rx.time = id from rfl, List.modify_id]
    rfl
  · rw [Outcome.apply, show Aside.nothing.first rx.time = id from rfl, List.modify_id]
    rfl

/-- The op that recognises the message takes the datagram. -/
theorem exoMatchOp_taken (atSlot : sys.ops[i]? = some op)
    (type : op.state = .pending → op.type ≠ .null)
    (taken : (rx.incoming message).takenBy op = true) :
    Exec.Agree ViewsTaken (exoMatchOp rx sys i op)
      (sys.endpoint.react (rx.incoming message) i op) := by
  have observes := legible.observes
  have notified : op.state = .subscribed ∧ leValue message.token = op.token.toNat →
      Exec.Agree ViewsTaken (if op.state = .subscribed ∧ leValue message.token = op.token.toNat
        then do return (true, ← exoNotified rx sys i op) else return (false, sys))
        (sys.endpoint.notified (rx.incoming message) i op) := by
    intro recognised
    rw [if_pos recognised]
    exact (exoNotified_agrees legible).bind_left fun _ _ same => .ok ⟨rfl, same⟩
  unfold Incoming.takenBy at taken
  unfold exoMatchOp Endpoint.react
  simp only [show (rx.incoming message).message = message from rfl] at taken ⊢
  rw [observes.token, Exec.ok_bind, observes.mid, Exec.ok_bind, observes.kind, Exec.ok_bind]
  cases kind : message.kind with
  | con =>
      rw [kind] at taken
      exact notified (of_decide_eq_true taken)
  | non =>
      rw [kind] at taken
      exact notified (of_decide_eq_true taken)
  | ack =>
      rw [kind] at taken
      have recognised := of_decide_eq_true taken
      simp only [if_pos recognised, coapGetCodeClass, observes.code, Exec.ok_bind,
        Exec.pure_eq_ok]
      split_ifs
      · exact exoAnswered_agrees legible (type recognised.1)
      · exact (exoRefused_agrees legible (List.getElem?_eq_some_iff.mp atSlot).1).bind_left
          fun _ _ same => .ok ⟨rfl, same⟩
  | rst =>
      rw [kind] at taken
      dsimp only
      rw [if_pos (of_decide_eq_true taken)]
      exact .ok ⟨rfl, rfl⟩

/-- The other ops let it pass. -/
theorem exoMatchOp_passed (other : (rx.incoming message).takenBy op = false) :
    exoMatchOp rx sys i op = .ok (false, sys) := by
  have observes := legible.observes
  unfold Incoming.takenBy at other
  unfold exoMatchOp
  simp only [show (rx.incoming message).message = message from rfl] at other
  rw [observes.token, Exec.ok_bind, observes.mid, Exec.ok_bind, observes.kind, Exec.ok_bind]
  cases kind : message.kind <;> rw [kind] at other <;>
    exact if_neg (of_decide_eq_false other)

/-- The first op that recognises the message takes it. -/
theorem exoScan_taken (typed : AllTyped sys) {left slot : Nat}
    (inRange : i + left = sys.ops.length)
    (first : ((sys.ops.drop i).zipIdx i).find? (fun slot => (rx.incoming message).takenBy slot.1) =
      some (op, slot)) :
    Exec.Agree ViewsTaken (exoScan rx sys left i)
      (sys.endpoint.react (rx.incoming message) slot op) := by
  induction left generalizing i with
  | zero =>
      rw [List.drop_eq_nil_of_le (by omega)] at first
      cases first
  | succ left ih =>
      have here : i < sys.ops.length := by omega
      have atSlot := List.getElem?_eq_getElem here
      have asks : sys.ops[i].state = .pending → sys.ops[i].type ≠ .null :=
        fun pending => (typed atSlot).of_waits (Or.inr pending)
      rw [List.drop_eq_getElem_cons here, List.zipIdx_cons, List.find?_cons] at first
      rw [exoScan, atSlot]
      cases taken : (rx.incoming message).takenBy sys.ops[i] with
      | true =>
          rw [taken] at first
          cases first
          refine (exoMatchOp_taken legible atSlot asks taken).bind_left ?_
          rintro ⟨flag, after⟩ image ⟨rfl, same⟩
          exact .ok ⟨rfl, same⟩
      | false =>
          rw [taken] at first
          dsimp only
          rw [exoMatchOp_passed legible taken]
          exact ih (by omega) first

theorem exoScan_passed {left : Nat} (inRange : i + left = sys.ops.length)
    (none : ((sys.ops.drop i).zipIdx i).find? (fun slot => (rx.incoming message).takenBy slot.1) =
      none) : exoScan rx sys left i = .ok (false, sys) := by
  induction left generalizing i with
  | zero => rfl
  | succ left ih =>
      have here : i < sys.ops.length := by omega
      rw [List.drop_eq_getElem_cons here, List.zipIdx_cons, List.find?_cons] at none
      rw [exoScan, List.getElem?_eq_getElem here]
      cases taken : (rx.incoming message).takenBy sys.ops[i] with
      | true =>
          rw [taken] at none
          cases none
      | false =>
          rw [taken] at none
          dsimp only
          rw [exoMatchOp_passed legible taken]
          exact ih (by omega) none

/-- Whether the receive loop goes on, and from which state. -/
abbrev ViewsRound (result : Bool × Sys) (image : Bool × Endpoint) : Prop :=
  result.1 = image.1 ∧ result.2.endpoint = image.2

/-- A reset has the token of the message. -/
theorem Legible.rstMessage_eq :
    rstMessage message.mid (UInt64.ofNat (leValue message.token))
      (UInt8.ofNat message.token.length) =
        ⟨.rst, ccEmpty, message.mid, message.token, [], none⟩ := by
  have short := legible.encodable.token_le
  have length : (UInt8.ofNat message.token.length).toNat = message.token.length := by
    rw [UInt8.toNat_ofNat']
    omega
  have value : (UInt64.ofNat (leValue message.token)).toNat = leValue message.token := by
    rw [UInt64.toNat_ofNat', ← leBytes_leValue message.token, leValue_leBytes]
    have bound : (256 : Nat) ^ message.token.length ≤ 256 ^ 8 :=
      Nat.pow_le_pow_right (by decide) short
    have small := Nat.mod_lt (leValue message.token)
      (show 0 < 256 ^ message.token.length from Nat.pow_pos (by decide))
    omega
  rw [rstMessage, length, value, leBytes_leValue]

theorem exoHandleDatagram_agrees (typed : AllTyped sys) :
    Exec.Agree ViewsRound (exoHandleDatagram rx sys)
      (sys.endpoint.receive (rx.incoming message)) := by
  have observes := legible.observes
  have whole : 0 + sys.ops.length = sys.ops.length := Nat.zero_add _
  have ops : sys.endpoint.ops = (sys.ops.drop 0) := rfl
  rw [exoHandleDatagram, observes.valid, Exec.ok_bind, if_neg (not_not.mpr rfl), Endpoint.receive,
    ops]
  cases found : ((sys.ops.drop 0).zipIdx).find?
      (fun slot => (rx.incoming message).takenBy slot.1) with
  | some slot =>
      obtain ⟨op, i⟩ := slot
      refine (exoScan_taken legible typed whole found).bind ?_
      rintro ⟨flag, after⟩ image - ⟨rfl, same⟩
      exact .ok ⟨rfl, same⟩
  | none =>
      rw [exoScan_passed legible whole found, Exec.ok_bind]
      simp only [Bool.false_eq_true, if_false, observes.kind, Exec.ok_bind,
        show (rx.incoming message).message = message from rfl]
      split_ifs
      · have small : (UInt8.ofNat message.token.length).toNat ≤ 8 := by
          have short := legible.encodable.token_le
          rw [UInt8.toNat_ofNat']
          omega
        obtain ⟨err, reply, built, simulates⟩ := exoBuildMsgRst_spec rx.toBuffer message.mid
          (UInt64.ofNat (leValue message.token)) small
        rw [legible.rstMessage_eq] at simulates
        simp only [observes.tkl, observes.mid, observes.token, Exec.ok_bind, built,
          simulates.slice_eq]
        exact .ok ⟨rfl, rfl⟩
      · exact .ok ⟨rfl, rfl⟩

end Receiving

/-- What the endpoint is handed of a datagram: a message, or nothing when it is turned down. -/
def Reads (rx : Received) : Option Message → Prop
  | some message => Legible rx.pdu message
  | none => ∃ err, coapValidatePkt rx.pdu = .ok err ∧ err ≠ .ceNone

theorem exoProcessWaitingDatagrams_agrees {read : Received → Option Message} {sys : Sys}
    {datagrams : List Received} (typed : AllTyped sys)
    (reads : ∀ rx ∈ datagrams, Reads rx (read rx)) :
    Exec.Agree Views (exoProcessWaitingDatagrams sys datagrams)
      (sys.endpoint.receiveAll
        (datagrams.filterMap fun rx => (read rx).map rx.incoming)) := by
  induction datagrams generalizing sys with
  | nil => exact .ok rfl
  | cons rx rest ih =>
      have later := fun other member => reads other (List.mem_cons_of_mem rx member)
      have here := reads rx List.mem_cons_self
      rw [exoProcessWaitingDatagrams, List.filterMap_cons]
      cases isMessage : read rx with
      | none =>
          rw [isMessage] at here
          obtain ⟨err, valid, failed⟩ := here
          have ignored : exoHandleDatagram rx sys = .ok (true, sys) := by
            rw [exoHandleDatagram, valid, Exec.ok_bind, if_pos failed]
            rfl
          rw [ignored]
          exact ih typed later
      | some message =>
          rw [isMessage] at here
          refine (exoHandleDatagram_agrees here typed).bind ?_
          rintro ⟨goOn, after⟩ ⟨goOn, image⟩ handled ⟨rfl, rfl⟩
          dsimp only
          split_ifs
          · exact ih ((exoHandleDatagram_steps handled).allTyped typed) later
          · exact .ok rfl

/-! ## Sending -/

def SlotEnv.input (env : SlotEnv) : SlotInput := ⟨env.rand, env.sendOk, env.time, env.jitter⟩

/-- A builder leaves what there is room for, whatever the buffer held before. -/
theorem buildMsg_assembles (buffer : Buffer) (code : UInt8) (mid : UInt16) (rand : UInt64)
    {options : List Opt} (payload : Option (List UInt8)) (ascending : Ascending 0 options)
    (positive : ∀ option ∈ options, 1 ≤ option.num) :
    ∃ err after floor,
      buildMsg buffer.pdu (requestCalls code mid rand options payload) = .ok (err, after) ∧
      Simulates minimumDatagramSize floor after
        (Endpoint.assemble (requestMessage code mid rand [] none) options payload) := by
  obtain ⟨err, after, built, simulates, -⟩ := buildMsg_simulates buffer
    (inOrder_requestCalls code mid rand payload ascending positive)
    (payloadOnce_requestCalls code mid rand options payload)
  simp only [requestCalls, List.foldl_append, foldl_header] at simulates
  exact ⟨err, after, _, built, simulates⟩

section Sending

variable {sys : Sys} {i : Nat} {op : ExoOp}

/-- The packet is the message. -/
abbrev Packs (result : Option (Request × CoapPdu)) (image : Option Message) : Prop :=
  Option.Rel (fun built message =>
    ∃ floor, Simulates minimumDatagramSize floor built.2 message) result image

theorem exoBuildRequest_agrees (env : SlotEnv) (sys : Sys) (op : ExoOp) :
    Exec.Agree Packs (exoBuildRequest env sys op) (sys.endpoint.request env.rand op) := by
  have built (code : UInt8) (payload : Option (List UInt8)) {options : List Opt} (request : Request)
      (ascending : Ascending 0 options) (positive : ∀ option ∈ options, 1 ≤ option.num) :
      Exec.Agree Packs
        (do
          let result ← buildMsg env.pdu
            (requestCalls code sys.messageIdCounter env.rand options payload)
          return some (request, result.2))
        (.ok (some (Endpoint.assemble
          (requestMessage code sys.messageIdCounter env.rand [] none) options payload))) := by
    obtain ⟨err, after, floor, ran, simulates⟩ := buildMsg_assembles env.toBuffer code
      sys.messageIdCounter env.rand payload ascending positive
    rw [ran]
    exact .ok (.some ⟨floor, simulates⟩)
  unfold exoBuildRequest Endpoint.request
  cases op.type with
  | null => exact .ok .none
  | read =>
      refine .after fun aliasText _ => ?_
      exact built _ _ _ (ascending_dataportOptions (by decide) (optionText_length aliasText))
        (positive_dataportOptions _ _)
  | subscribe =>
      refine .after fun aliasText _ => ?_
      have ascending := @ascending_dataportOptions conObserve sys.cik (optionText aliasText)
        (by decide) (optionText_length aliasText)
      exact built _ _ _ ⟨by decide, by decide, by decide, ascending⟩
        (List.forall_mem_cons.mpr ⟨by decide, positive_dataportOptions _ _⟩)
  | write =>
      refine .after fun aliasText _ => ?_
      refine .after fun valueText _ => ?_
      exact built _ _ _ (ascending_dataportOptions (by decide) (optionText_length aliasText))
        (positive_dataportOptions _ _)
  | activate =>
      refine .after fun vendor _ => ?_
      refine .after fun model _ => ?_
      refine .after fun serial _ => ?_
      exact built _ _ _ (ascending_provisioning (optionText_length vendor)
        (optionText_length model) (optionText_length serial)) (by simp [conUriPath])

theorem exoSendNew_agrees (env : SlotEnv) :
    Exec.Agree Views (exoSendNew env sys i op) (sys.endpoint.sendNew env.input i op) := by
  refine (exoBuildRequest_agrees env sys op).bind ?_
  rintro result image - (⟨floor, simulates⟩ | _)
  · have observes := simulates.observes
    dsimp only
    rw [simulates.slice_eq, Exec.ok_bind, observes.mid, observes.token]
    unfold SlotEnv.input
    dsimp only
    split_ifs <;> exact .ok rfl
  · exact .ok rfl

theorem exoSendAgain_agrees (env : SlotEnv) :
    Exec.Agree Views (exoSendAgain env sys i op) (sys.endpoint.sendAgain env.input i op) := by
  refine (exoBuildRequest_agrees env sys op).bind ?_
  rintro result image - (⟨floor, simulates⟩ | _)
  · obtain ⟨midErr, withMid, setMid, -, patched⟩ := simulates.setMid op.mid
    obtain ⟨tokenErr, after, setToken, -, -, patched⟩ :=
      @Simulates.step _ _ _ _ (.setToken op.token op.tkl) patched trivial trivial
    dsimp only
    rw [setMid, Exec.ok_bind]
    dsimp only
    rw [show coapSetToken withMid op.token.toNat op.tkl.toNat = _ from setToken, Exec.ok_bind,
      patched.slice_eq, Exec.ok_bind]
    unfold SlotEnv.input
    dsimp only
    split_ifs <;> exact .ok rfl
  · exact .ok rfl

theorem exoTimedOut_agrees (env : SlotEnv) :
    Exec.Agree Views (exoTimedOut env sys i op) (sys.endpoint.timedOut env.input i op) := by
  unfold exoTimedOut Endpoint.timedOut
  cases op.type with
  | null => exact .ok rfl
  | subscribe => exact .ok rfl
  | _ =>
      dsimp only
      split_ifs
      · exact exoSendAgain_agrees env
      · exact .ok rfl

theorem exoProcessOp_agrees (now : UInt64) (env : SlotEnv) :
    Exec.Agree Views (exoProcessOp now env sys i op)
      (sys.endpoint.processOp env.input now i op) := by
  unfold exoProcessOp Endpoint.processOp
  have due : Exec.Agree Views
      (if op.timeout ≤ now then exoTimedOut env sys i op else return sys)
      (if op.timeout ≤ now then sys.endpoint.timedOut env.input i op
        else return sys.endpoint) := by
    split_ifs
    · exact exoTimedOut_agrees env
    · exact .ok rfl
  have acked : Exec.Agree Views (exoSendAck env sys i op)
      (.ok (sys.endpoint.sendAck env.input i op)) := by
    rw [exoSendAck_eq]
    unfold Endpoint.sendAck SlotEnv.input
    cases env.sendOk <;> exact .ok rfl
  cases op.state with
  | new => exact exoSendNew_agrees env
  | pending => exact due
  | subscribed => exact due
  | subAck => exact acked
  | subAckNew => exact acked
  | _ => exact .ok rfl

theorem exoActiveLoop_agrees (now : UInt64) (envs : Nat → SlotEnv) {left : Nat} :
    Exec.Agree Views (exoActiveLoop now envs sys left i)
      (Endpoint.processOps now (fun slot => (envs slot).input) sys.endpoint left i) := by
  induction left generalizing sys i with
  | zero => exact .ok rfl
  | succ left ih =>
      rw [exoActiveLoop, Endpoint.processOps, show sys.endpoint.ops = sys.ops from rfl]
      cases sys.ops[i]? with
      | none => exact .trap _
      | some op =>
          refine (exoProcessOp_agrees now (envs i)).bind ?_
          rintro next image - rfl
          exact ih

end Sending

/-! ## Runs -/

def OperateEnv.input (read : Received → Option Message) (env : OperateEnv) : OperateInput :=
  ⟨env.time, env.datagrams.filterMap fun rx => (read rx).map rx.incoming, env.now,
    fun slot => (env.slots slot).input⟩

/-- The call, when datagrams are read with `read`. -/
def UserCall.action (read : Received → Option Message) : UserCall → Action
  | .init env vendor model serial => .init env vendor model serial
  | .write slot aliasPtr valuePtr => .write slot aliasPtr valuePtr
  | .read slot aliasPtr valuePtr valueMax => .read slot aliasPtr valuePtr valueMax
  | .subscribe slot aliasPtr valuePtr valueMax => .subscribe slot aliasPtr valuePtr valueMax
  | .opInit slot => .opInit slot
  | .opDone slot => .opDone slot
  | .memory heap => .memory heap
  | .operate env => .operate (env.input read)

/-- The datagrams that wait for the call. -/
def UserCall.datagrams : UserCall → List Received
  | .operate env => env.datagrams
  | _ => []

section Runs

variable {read : Received → Option Message} {sys : Sys}

theorem exoInit_endpoint (env : InitEnv) (vendor model serial : Nat) (sys : Sys) :
    (exoInit env vendor model serial sys).2.endpoint =
      sys.endpoint.init env vendor model serial := by
  unfold exoInit Endpoint.init
  dsimp only
  split_ifs <;> rfl

theorem exoActivateFirst_agrees (time : UInt64) :
    Exec.Agree Views (exoActivateFirst time sys) (sys.endpoint.activateFirst time) := by
  rw [exoActivateFirst, Endpoint.activateFirst, show sys.endpoint.ops = sys.ops from rfl]
  cases sys.ops[0]? with
  | none => exact .trap _
  | some first =>
      dsimp only
      split_ifs <;> exact .ok rfl

/-- The result of `exo_operate`, and the state behind it. -/
abbrev ViewsResult (result : ExoState × Sys) (image : ExoState × Endpoint) : Prop :=
  result.1 = image.1 ∧ result.2.endpoint = image.2

theorem exoOperate_agrees {env : OperateEnv} (typed : AllTyped sys)
    (reads : ∀ rx ∈ env.datagrams, Reads rx (read rx)) :
    Exec.Agree ViewsResult (exoOperate env sys) (sys.endpoint.operate (env.input read)) := by
  have served (ready : Sys) (typed : AllTyped ready) :
      Exec.Agree ViewsResult
        (do
          let received ← exoProcessWaitingDatagrams ready env.datagrams
          let processed ← exoProcessActiveOps env.now env.slots received
          return (exoStateOf processed.ops, processed))
        (do
          let served ← ready.endpoint.receiveAll (env.input read).incoming
          let done ← Endpoint.processOps env.now (env.input read).slots served served.ops.length 0
          return (exoStateOf done.ops, done)) := by
    refine (exoProcessWaitingDatagrams_agrees typed reads).bind ?_
    rintro received image - rfl
    refine (exoActiveLoop_agrees env.now env.slots).bind ?_
    rintro processed image - rfl
    exact .ok ⟨rfl, rfl⟩
  rw [exoOperate, Endpoint.operate, show sys.endpoint.deviceState = sys.deviceState from rfl]
  split_ifs with off good
  · exact .ok ⟨rfl, rfl⟩
  · exact served sys typed
  · refine (exoActivateFirst_agrees env.time).bind ?_
    rintro ready image activated rfl
    exact served ready ((exoActivateFirst_steps activated).allTyped typed)

theorem call_agrees {action : UserCall} (typed : AllTyped sys)
    (reads : ∀ rx ∈ action.datagrams, Reads rx (read rx)) :
    Exec.Agree Views (call sys action) (sys.endpoint.call (action.action read)) := by
  have updated (slot : Nat) (change : ExoOp → ExoOp) (event : ExoOp → Sys → Sys)
      (silent : ∀ op next, (event op next).endpoint = next.endpoint) :
      Exec.Agree Views
        (do
          let op ← sys.opAt slot
          return event op (sys.setOp slot (change op)))
        (sys.endpoint.update slot change) := by
    rw [Sys.opAt, Endpoint.update, show sys.endpoint.ops = sys.ops from rfl]
    cases sys.ops[slot]? with
    | none => exact .trap _
    | some op => exact .ok (silent op _)
  cases action with
  | init env vendor model serial => exact .ok (exoInit_endpoint env vendor model serial sys)
  | write slot aliasPtr valuePtr =>
      exact updated slot (exoWrite · aliasPtr valuePtr) (fun _ next => next.record (.queued slot))
        fun _ _ => rfl
  | read slot aliasPtr valuePtr valueMax =>
      exact updated slot (exoRead · aliasPtr valuePtr valueMax)
        (fun _ next => next.record (.queued slot)) fun _ _ => rfl
  | subscribe slot aliasPtr valuePtr valueMax =>
      exact updated slot (exoSubscribe · aliasPtr valuePtr valueMax)
        (fun _ next => next.record (.queued slot)) fun _ _ => rfl
  | opInit slot => exact updated slot (fun _ => exoOpInit) (fun _ next => next) fun _ _ => rfl
  | opDone slot =>
      exact updated slot exoOpDone (fun op next => next.record (.released slot op))
        fun _ _ => rfl
  | memory heap => exact .ok rfl
  | operate env =>
      refine (exoOperate_agrees typed reads).bind ?_
      rintro result image - ⟨-, same⟩
      exact .ok same

theorem run_agrees {calls : List UserCall} (typed : AllTyped sys)
    (reads : ∀ rx ∈ calls.flatMap UserCall.datagrams, Reads rx (read rx)) :
    Exec.Agree Views (run sys calls) (sys.endpoint.run (calls.map (UserCall.action read))) := by
  induction calls generalizing sys with
  | nil => exact .ok rfl
  | cons action rest ih =>
      rw [List.flatMap_cons] at reads
      refine (call_agrees typed fun rx member => reads rx (List.mem_append_left _ member)).bind ?_
      rintro next image called rfl
      exact ih (call_allTyped called typed)
        fun rx member => reads rx (List.mem_append_right _ member)

theorem run_view {calls : List UserCall} (typed : AllTyped sys)
    (reads : ∀ rx ∈ calls.flatMap UserCall.datagrams, Reads rx (read rx)) :
    (run sys calls).map Sys.endpoint = sys.endpoint.run (calls.map (UserCall.action read)) :=
  Exec.agree_view_iff.mp (run_agrees typed reads)

/-- The library is an endpoint for messages: as long as every datagram is turned down or is a
legible message, it does for the datagrams what the endpoint does for the messages, in every
run, and traps where the endpoint traps. -/
theorem run_endpoint (count : Nat) (heap : Mem) {calls : List UserCall}
    (reads : ∀ rx ∈ calls.flatMap UserCall.datagrams, Reads rx (read rx)) :
    (run (powerOn count heap) calls).map Sys.endpoint =
      (Endpoint.powerOn count heap).run (calls.map (UserCall.action read)) :=
  run_view (allTyped_powerOn count heap) reads

end Runs

/-- The run with a read that is answered twice, as a run of the endpoint. -/
theorem run_endpoint_answered :
    (run (powerOn 2 quietHeap) answeredCalls).map Sys.endpoint =
      (Endpoint.powerOn 2 quietHeap).run
        (answeredCalls.map (UserCall.action fun _ => some ⟨.ack, 0x45, 8, [], [], some [0x78]⟩)) ∧
    ((Endpoint.powerOn 2 quietHeap).run
      (answeredCalls.map (UserCall.action fun _ =>
        some ⟨.ack, 0x45, 8, [], [], some [0x78]⟩))).map (fun endpoint =>
          (endpoint.ops[1]?.map (·.state), endpoint.heap[3]?)) =
            .ok (some .success, some 0x78) := by
  have legible : Legible (arrives [0x60, 0x45, 0, 8, 0xFF, 0x78]).pdu
      ⟨.ack, 0x45, 8, [], [], some [0x78]⟩ :=
    ⟨rfl, ⟨by decide, trivial⟩, by simp, Or.inr (Or.inl rfl)⟩
  refine ⟨run_endpoint 2 quietHeap fun rx member => ?_, by decide +kernel⟩
  have isAnswer : rx = arrives [0x60, 0x45, 0, 8, 0xFF, 0x78] := by
    simpa [answeredCalls, readCalls, quietInit, quietOperate, UserCall.datagrams] using member
  rw [isAnswer]
  exact legible

/-! ## What has no influence -/

/-- The same datagram at the same time; what lies behind it in the buffer may differ. -/
structure Received.Alike (rx other : Received) : Prop where
  packet : other.pdu.packet = rx.pdu.packet
  time : other.time = rx.time
  rand : other.rand = rx.rand
  sendOk : other.sendOk = rx.sendOk
  wideShift : other.wideShift = rx.wideShift

/-- The same call, but for what lies in the buffers behind the datagrams, and in those in which
packets are built. -/
inductive UserCall.Alike : UserCall → UserCall → Prop where
  | same (action : UserCall) : Alike action action
  | operate {env other : OperateEnv} (time : other.time = env.time) (now : other.now = env.now)
      (datagrams : List.Forall₂ Received.Alike env.datagrams other.datagrams)
      (slots : ∀ slot, (other.slots slot).input = (env.slots slot).input) :
      Alike (.operate env) (.operate other)

section Blind

open Classical in
/-- The message that a packet is, if it is one. -/
noncomputable def messageOf (rx : Received) : Option Message :=
  if found : ∃ message, Legible rx.pdu message then some found.choose else none

theorem reads_messageOf {rx : Received} (orderly : Orderly rx) : Reads rx (messageOf rx) := by
  unfold messageOf
  split_ifs with found
  · exact found.choose_spec
  · obtain ⟨err, valid⟩ := coapValidatePkt_returns orderly.readable
    refine ⟨err, valid, ?_⟩
    rintro rfl
    exact found (orderly.legible valid)

variable {rx other : Received}

/-- Whether a packet is a message, and which, depends on its bytes alone. -/
theorem legible_congr {pdu other : CoapPdu} (same : other.packet = pdu.packet) :
    Legible other = Legible pdu := by
  funext message
  refine propext ⟨fun legible => ?_, fun legible => ?_⟩
  · exact ⟨same.symm.trans legible.bytes, legible.encodable, legible.nonzero, legible.observe⟩
  · exact ⟨same.trans legible.bytes, legible.encodable, legible.nonzero, legible.observe⟩

theorem Received.Alike.incoming_eq (alike : rx.Alike other) :
    (messageOf other).map other.incoming = (messageOf rx).map rx.incoming := by
  have handed : other.incoming = rx.incoming := by
    funext message
    rw [Received.incoming, alike.time, alike.rand, alike.sendOk, alike.wideShift]
    rfl
  unfold messageOf
  rw [legible_congr alike.packet, handed]

theorem incoming_eq_of_alike {datagrams others : List Received}
    (alike : List.Forall₂ Received.Alike datagrams others) :
    others.filterMap (fun rx => (messageOf rx).map rx.incoming) =
      datagrams.filterMap fun rx => (messageOf rx).map rx.incoming := by
  induction alike with
  | nil => rfl
  | cons here _ ih => rw [List.filterMap_cons, List.filterMap_cons, here.incoming_eq, ih]

theorem UserCall.Alike.action_eq {action other : UserCall} (alike : action.Alike other) :
    other.action messageOf = action.action messageOf := by
  cases alike with
  | same => rfl
  | operate time now datagrams slots =>
      refine congrArg Action.operate ?_
      rw [OperateEnv.input, OperateEnv.input, time, now, incoming_eq_of_alike datagrams,
        funext slots]

/-- What is left on the stack has no influence: two runs with the same orderly datagrams, the
same calls and the same answers of the platform end alike, in what the user finds and in what has
been sent and stored, whatever lies behind the datagrams and in the buffers in which packets
are built. -/
theorem run_blind (count : Nat) (heap : Mem) {calls others : List UserCall}
    (alike : List.Forall₂ UserCall.Alike calls others)
    (orderly : ∀ rx ∈ (calls ++ others).flatMap UserCall.datagrams, Orderly rx) :
    (run (powerOn count heap) others).map Sys.endpoint =
      (run (powerOn count heap) calls).map Sys.endpoint := by
  have actions : others.map (UserCall.action messageOf) =
      calls.map (UserCall.action messageOf) := by
    clear orderly
    induction alike with
    | nil => rfl
    | cons here _ ih => rw [List.map_cons, List.map_cons, here.action_eq, ih]
  rw [List.flatMap_append] at orderly
  have typed : AllTyped (powerOn count heap) := allTyped_powerOn count heap
  rw [run_view typed fun rx member => reads_messageOf (orderly rx (List.mem_append_right _ member)),
    run_view typed fun rx member => reads_messageOf (orderly rx (List.mem_append_left _ member)),
    actions]

end Blind

/-- A buffer with other old contents than `quietBuffer`. -/
def noisyBuffer (bytes : List UInt8) : Buffer where
  pdu := ⟨0x2000, bytes.take minimumDatagramSize ++ List.replicate 600 0x5A,
    min minimumDatagramSize bytes.length, minimumDatagramSize⟩
  max_eq := rfl
  mapped := by
    rw [List.length_append, List.length_replicate]
    unfold minimumDatagramSize
    omega
  bounded := by
    rw [List.length_append, List.length_replicate, List.length_take]
    unfold minimumDatagramSize
    omega

/-- The answer to the read, in a noisy buffer. -/
def noisyAnswer : Received where
  toBuffer := noisyBuffer [0x60, 0x45, 0, 8, 0xFF, 0x78]
  fits := Nat.min_le_left _ _
  placed := ⟨(noisyBuffer _).mapped, by decide, by decide +kernel⟩
  time := 10
  rand := 0
  sendOk := true
  wideShift := id

def noisyOperate (datagrams : List Received) : UserCall :=
  .operate ⟨10, datagrams, 10, fun _ => ⟨noisyBuffer [], 0x2211, true, 10, 0⟩⟩

/-- The read above, on another stack. -/
theorem run_blind_noisy :
    (run (powerOn 2 quietHeap) [quietInit, .read 1 1 3 8, noisyOperate [],
      noisyOperate [noisyAnswer, noisyAnswer]]).map Sys.endpoint =
      (run (powerOn 2 quietHeap) answeredCalls).map Sys.endpoint := by
  have here : (arrives [0x60, 0x45, 0, 8, 0xFF, 0x78]).Alike noisyAnswer :=
    ⟨rfl, rfl, rfl, rfl, rfl⟩
  have legible : Legible noisyAnswer.pdu ⟨.ack, 0x45, 8, [], [], some [0x78]⟩ :=
    ⟨rfl, ⟨by decide, trivial⟩, by simp, Or.inr (Or.inl rfl)⟩
  have orderly : Orderly noisyAnswer := ⟨by decide +kernel, fun _ => ⟨_, legible⟩⟩
  have quiet : Orderly (arrives [0x60, 0x45, 0, 8, 0xFF, 0x78]) :=
    orderly_arrives ⟨.ack, 0x45, 8, [], [], some [0x78]⟩ rfl (by decide) ⟨by decide, trivial⟩
      (by simp) (Or.inr (Or.inl rfl))
  refine run_blind 2 quietHeap ?_ ?_
  · exact .cons (.same _) (.cons (.same _) (.cons
      (.operate rfl rfl .nil fun _ => rfl)
      (.cons (.operate rfl rfl (.cons here (.cons here .nil)) fun _ => rfl) .nil)))
  · intro rx member
    obtain rfl | rfl : rx = arrives [0x60, 0x45, 0, 8, 0xFF, 0x78] ∨ rx = noisyAnswer := by
      simpa [answeredCalls, readCalls, quietInit, quietOperate, noisyOperate,
        UserCall.datagrams] using member
    · exact quiet
    · exact orderly

end ExositeCoap.Exosite
