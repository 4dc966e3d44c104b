import ExositeCoap.Exosite.Encode
import ExositeCoap.Exosite.History

/-!
# Tokens of subscriptions

Notifications are told apart by their token alone, and the token of an observe request is
the low 16 bits of what `rand()` returns.  Nothing keeps two requests from drawing the same
bits, so all that holds is that the token of a subscription is that of its latest request.
-/

namespace ExositeCoap.Exosite

open Lib Wire Coap

/-! ## What the history tells -/

/-- What `rand()` returned for the latest observe request since the op in `slot` was queued. -/
def lastRequest (slot : Nat) : List Happening → Option UInt64
  | [] => none
  | .subscribed queued :: older => if queued = slot then none else lastRequest slot older
  | .requested sender rand _ :: older =>
    if sender = slot then some rand else lastRequest slot older
  | .received _ :: older => lastRequest slot older

/-- The datagram acknowledges the pending subscription in `slot`. -/
def Arrival.acknowledges (arrival : Arrival) (slot : Nat) : Bool :=
  arrival.before.ops[slot]?.any fun op =>
    decide (op.type = .subscribe ∧ op.state = .pending ∧
      coapValidatePkt arrival.rx.pdu = .ok .ceNone ∧ coapGetType arrival.rx.pdu = .ok .ack ∧
        coapGetMid arrival.rx.pdu = .ok op.mid ∧ coapGetCodeClass arrival.rx.pdu = .ok 2)

/-- The subscription in `slot` was acknowledged since it was queued. -/
def acknowledged (slot : Nat) : List Happening → Bool
  | [] => false
  | .subscribed queued :: older => decide (queued ≠ slot) && acknowledged slot older
  | .requested _ _ _ :: older => acknowledged slot older
  | .received arrival :: older => arrival.acknowledges slot || acknowledged slot older

/-- The op in `slot` is an acknowledged subscription. -/
structure Established (sys : Sys) (happened : List Happening) (slot : Nat) (op : ExoOp) :
    Prop where
  atSlot : sys.ops[slot]? = some op
  type : op.type = .subscribe
  state : op.state ∈ [ExoRequestState.subscribed, .subAck, .subAckNew, .success]
  acknowledged : acknowledged slot happened = true

/-- No two acknowledged subscriptions have the same token. -/
def TokensDistinct (sys : Sys) (happened : List Happening) : Prop :=
  ∀ i j first second, i ≠ j → Established sys happened i first →
    Established sys happened j second → first.token ≠ second.token

/-- The datagram is a message with the token that is drawn with `rand`. -/
def CarriesToken (rand : UInt64) (datagram : List UInt8) : Prop :=
  ∃ message : Message, message.Encodable ∧ datagram = message.encode ∧
    message.token = leBytes 2 rand.toNat

/-- A notification is stored in at most one op, which is subscribed; if this was
acknowledged, its latest observe request carried the token of the notification. -/
def Arrival.StoredByToken (arrival : Arrival) (older : List Happening) : Prop :=
  ∀ goOn after, exoHandleDatagram arrival.rx arrival.before = .ok (goOn, after) →
    after.ops = arrival.before.ops ∧ after.heap = arrival.before.heap ∨
      ∃ slot op, arrival.before.ops[slot]? = some op ∧ op.state = .subscribed ∧
        (∀ j, j ≠ slot → after.ops[j]? = arrival.before.ops[j]?) ∧
        (∀ address, ¬ Touches arrival.rx.pdu op address →
          after.heap[address]? = arrival.before.heap[address]?) ∧
        (acknowledged slot older = true → ∃ rand, lastRequest slot older = some rand ∧
          coapGetToken arrival.rx.pdu = .ok (rand.toNat % 2 ^ 16))

/-- Requests carry the token that is drawn for them, and notifications are stored by token. -/
def TokensRight (entry : Happening) (older : List Happening) : Prop :=
  (∀ slot rand datagram, entry = .requested slot rand datagram → CarriesToken rand datagram) ∧
  ∀ arrival kind, entry = .received arrival → coapGetType arrival.rx.pdu = .ok kind →
    kind = .con ∨ kind = .non → arrival.StoredByToken older

/-- A subscription that was requested has the token of its latest request. -/
structure KnowsRequest (slot : Nat) (happened : List Happening) (op : ExoOp) : Prop where
  pending : op.state = .pending → (lastRequest slot happened).isSome
  token : ∀ rand, lastRequest slot happened = some rand → op.token.toNat = rand.toNat % 2 ^ 16

/-- This holds of all subscriptions, and only requests are acknowledged. -/
structure TokensKnown (sys : Sys) (happened : List Happening) : Prop where
  requested : ∀ slot, acknowledged slot happened = true → (lastRequest slot happened).isSome
  known : ∀ (slot : Nat) (op : ExoOp), sys.ops[slot]? = some op → op.type = .subscribe →
    KnowsRequest slot happened op

/-! ## Steps -/

/-- The op has the same token as before and does not wait for a new response. -/
structure KeepsToken (op next : ExoOp) : Prop where
  type : next.type = op.type
  token : next.token = op.token
  pending : next.state = .pending → op.state = .pending

section Steps

variable {rx : Received} {sys after : Sys} {i : Nat} {op : ExoOp} {happened : List Happening}

theorem KeepsToken.refl (op : ExoOp) : KeepsToken op op := ⟨rfl, rfl, id⟩

theorem KnowsRequest.kept {slot : Nat} {next : ExoOp} (knows : KnowsRequest slot happened op)
    (keeps : KeepsToken op next) : KnowsRequest slot happened next where
  pending := fun waits => knows.pending (keeps.pending waits)
  token := fun rand isLast => keeps.token ▸ knows.token rand isLast

/-- What happens that is no request of the op. -/
theorem KnowsRequest.later {slot : Nat} {newer : List Happening}
    (knows : KnowsRequest slot happened op)
    (same : lastRequest slot newer = lastRequest slot happened) : KnowsRequest slot newer op where
  pending := fun waits => same ▸ knows.pending waits
  token := fun rand isLast => knows.token rand (same ▸ isLast)

theorem TokensKnown.of_kept (known : TokensKnown sys happened)
    (kept : KeepsSubscriptions KeepsToken sys after) : TokensKnown after happened := by
  refine ⟨known.requested, fun slot next isNext type => ?_⟩
  obtain other | ⟨op, atSlot, keeps⟩ := kept slot next isNext
  · exact absurd type other
  · exact (known.known slot op atSlot (keeps.type.symm.trans type)).kept keeps

theorem TokensKnown.of_ops (known : TokensKnown sys happened) (same : after.ops = sys.ops) :
    TokensKnown after happened :=
  known.of_kept (.of_ops KeepsToken.refl same)

/-- An op is replaced by one that is no subscription, or that keeps its token. -/
theorem TokensKnown.setOp {changed : ExoOp} (known : TokensKnown sys happened)
    (atSlot : sys.ops[i]? = some op) (ops : after.ops = sys.ops.set i changed)
    (keeps : changed.type ≠ .subscribe ∨ KeepsToken op changed) : TokensKnown after happened :=
  known.of_kept (.setOp KeepsToken.refl atSlot ops keeps)

theorem TokensKnown.reacted (known : TokensKnown sys happened) (atSlot : sys.ops[i]? = some op)
    (reaction : Reaction rx sys i op after) : TokensKnown after happened := by
  have failed : TokensKnown (sys.setOp i { op with state := .error }) happened :=
    known.setOp atSlot rfl (Or.inr ⟨rfl, rfl, nofun⟩)
  cases reaction with
  | ignored => exact known
  | emptied => exact known.of_ops rfl
  | notified _ acks =>
      refine known.setOp atSlot rfl (Or.inr ⟨rfl, rfl, ?_⟩)
      rcases acks with rfl | rfl <;> nofun
  | written => exact known.setOp atSlot rfl (Or.inr ⟨rfl, rfl, nofun⟩)
  | delivered => exact known.setOp atSlot rfl (Or.inr ⟨rfl, rfl, nofun⟩)
  | activated => exact known.setOp atSlot rfl (Or.inl (by simp [exoOpInit]))
  | notActivated => exact known.setOp atSlot rfl (Or.inl (by simp [exoOpInit]))
  | reactivated _ _ _ atZero =>
      exact failed.setOp atZero rfl (Or.inl (by simp [exoActivate, ExoOp.queue]))
  | notFound => exact failed.of_ops rfl
  | _ => exact failed

theorem TokensKnown.handled {goOn : Bool} (known : TokensKnown sys happened)
    (ran : exoHandleDatagram rx sys = .ok (goOn, after)) : TokensKnown after happened := by
  cases exoHandleDatagram_cases ran with
  | invalid => exact known
  | reset => exact known.of_ops rfl
  | dropped => exact known.of_ops rfl
  | @taken events slot op result _ _ atSlot _ round =>
      have logged : TokensKnown (sys.logged events) happened := known.of_ops rfl
      exact (logged.reacted atSlot (reaction_of_round round).2).of_ops rfl

/-- The token that a builder puts in a request. -/
theorem exoBuildRequest_token {env : SlotEnv} {request : Request} {pdu : CoapPdu}
    (built : exoBuildRequest env sys op = .ok (some (request, pdu))) :
    coapGetToken pdu = .ok (env.rand.toNat % 2 ^ 16) ∧
      ∀ datagram, pdu.mem.slice 0 pdu.len = .ok datagram → CarriesToken env.rand datagram := by
  obtain ⟨-, -, code, options, err, ran, -, ascending, positive, -⟩ :=
    exoBuildRequest_calls built
  obtain ⟨other, result, message, isResult, ⟨floor, simulates⟩, header, -⟩ :=
    buildRequest_spec env.toBuffer code sys.messageIdCounter env.rand request.payload ascending
      positive
  rw [isResult] at ran
  cases ran
  have token : message.token = leBytes 2 env.rand.toNat := header.token
  refine ⟨?_, fun datagram bytes =>
    ⟨message, simulates.encodable, simulates.datagram_eq bytes, token⟩⟩
  rw [simulates.observes.token, token, leValue_leBytes]
  rfl

/-- An observe request is sent and the op takes over its token, or there was none. -/
theorem exoSendNew_request {env : SlotEnv} (ran : exoSendNew env sys i op = .ok after)
    (state : op.state = .new) (type : op.type = .subscribe) :
    (∃ datagram timeout mid token, observeRequest env i op after =
        [.requested i env.rand datagram] ∧ CarriesToken env.rand datagram ∧
      token = UInt64.ofNat (env.rand.toNat % 2 ^ 16) ∧
      after.ops = sys.ops.set i { op with state := .pending, timeout, mid, token }) ∨
    observeRequest env i op after = [] ∧ after.ops = sys.ops := by
  obtain ⟨result, built, ran⟩ := Exec.bind_eq_ok.mp ran
  cases result with
  | none =>
      rw [exoBuildRequest_none built] at type
      cases type
  | some result =>
      obtain ⟨request, pdu⟩ := result
      obtain ⟨datagram, bytes, ran⟩ := Exec.bind_eq_ok.mp ran
      obtain ⟨isToken, carries⟩ := exoBuildRequest_token built
      cases ok : env.sendOk with
      | true =>
          simp only [ok, if_true, isToken, Exec.ok_bind] at ran
          obtain ⟨mid, -, ran⟩ := Exec.bind_eq_ok.mp ran
          cases ran
          refine Or.inl ⟨datagram, _, mid, _, ?_, carries datagram bytes, rfl, rfl⟩
          rw [observeRequest, if_pos ⟨state, type⟩]
          rfl
      | false =>
          simp only [ok, Bool.false_eq_true, if_false] at ran
          cases ran
          refine Or.inr ⟨?_, rfl⟩
          rw [observeRequest, if_pos ⟨state, type⟩]
          rfl

/-- Without a new observe request the tokens stay. -/
theorem TokensKnown.slotStep {env : SlotEnv} (known : TokensKnown sys happened)
    (atSlot : sys.ops[i]? = some op) (step : SlotStep env sys i op after)
    (other : ¬ (op.state = .new ∧ op.type = .subscribe)) : TokensKnown after happened := by
  cases step with
  | idle | unexpectedWait | unsent | unresent | unacked => exact known.of_ops rfl
  | unexpectedNew => exact known.setOp atSlot rfl (Or.inl (by simp))
  | sent state => exact known.setOp atSlot rfl (Or.inl fun type => other ⟨state, type⟩)
  | resent => exact known.setOp atSlot rfl (Or.inr ⟨rfl, rfl, id⟩)
  | gaveUp => exact known.setOp atSlot rfl (Or.inr ⟨rfl, rfl, nofun⟩)
  | renewed => exact known.setOp atSlot rfl (Or.inr ⟨rfl, rfl, nofun⟩)
  | acked isState =>
      refine known.setOp atSlot rfl (Or.inr ⟨rfl, rfl, ?_⟩)
      rcases isState with ⟨-, rfl⟩ | ⟨-, rfl⟩ <;> nofun

/-- The op that sends an observe request knows it. -/
theorem TokensKnown.requests {env : SlotEnv} {datagram : List UInt8} {timeout : UInt64}
    {mid : UInt16} (known : TokensKnown sys happened)
    (ops : after.ops = sys.ops.set i { op with
      state := .pending, timeout, mid, token := UInt64.ofNat (env.rand.toNat % 2 ^ 16) }) :
    TokensKnown after (.requested i env.rand datagram :: happened) := by
  constructor
  · intro slot isAcknowledged
    rw [lastRequest]
    split_ifs
    · rfl
    · exact known.requested slot isAcknowledged
  · intro slot next isNext type
    rw [ops] at isNext
    obtain ⟨rfl, rfl⟩ | ⟨different, old⟩ := @of_getElem?_setOp sys slot i _ next isNext
    · have latest : lastRequest i (.requested i env.rand datagram :: happened) = some env.rand :=
        if_pos rfl
      refine ⟨fun _ => by rw [latest]; rfl, fun rand isLast => ?_⟩
      rw [latest] at isLast
      cases isLast
      rw [UInt64.toNat_ofNat']
      omega
    · exact (known.known slot next old type).later (if_neg different)

theorem TokensKnown.processed {now : UInt64} {env : SlotEnv} (known : TokensKnown sys happened)
    (atSlot : sys.ops[i]? = some op) (ran : exoProcessOp now env sys i op = .ok after) :
    (∀ entry ∈ observeRequest env i op after, TokensRight entry happened) ∧
      TokensKnown after (observeRequest env i op after ++ happened) := by
  by_cases requests : op.state = .new ∧ op.type = .subscribe
  · obtain ⟨state, type⟩ := requests
    have sends : exoSendNew env sys i op = .ok after := by
      unfold exoProcessOp at ran
      rwa [state] at ran
    obtain ⟨datagram, timeout, mid, token, entries, carries, rfl, ops⟩ | ⟨none, ops⟩ :=
      exoSendNew_request sends state type
    · rw [entries]
      refine ⟨fun entry member => ?_, known.requests ops⟩
      rw [List.mem_singleton.mp member]
      refine ⟨?_, nofun⟩
      rintro slot rand bytes ⟨⟩
      exact carries
    · rw [none]
      exact ⟨by simp, known.of_ops ops⟩
  · have none : observeRequest env i op after = [] := if_neg requests
    rw [none]
    exact ⟨by simp, known.slotStep atSlot (exoProcessOp_cases ran) requests⟩

/-- The user queues a subscription, for which there is no request yet. -/
theorem TokensKnown.called {action : UserCall} (known : TokensKnown sys happened)
    (other : action.operation sys = []) (called : call sys action = .ok after) :
    TokensKnown after (action.history sys happened) := by
  obtain ⟨queued, aliasPtr, valuePtr, valueMax, op, rfl, atSlot, ops⟩ | ⟨same, kept⟩ :=
    @call_subscriptions sys happened action after other called
  · constructor
    · intro slot isAcknowledged
      rw [UserCall.history, acknowledged, Bool.and_eq_true, decide_eq_true_iff] at isAcknowledged
      rw [UserCall.history, lastRequest, if_neg isAcknowledged.1]
      exact known.requested slot isAcknowledged.2
    · intro slot next isNext type
      rw [ops] at isNext
      obtain ⟨rfl, rfl⟩ | ⟨different, old⟩ := @of_getElem?_setOp sys slot queued _ next isNext
      · refine ⟨by simp [exoSubscribe, ExoOp.queue], fun rand isLast => ?_⟩
        rw [UserCall.history, lastRequest, if_pos rfl] at isLast
        cases isLast
      · exact (known.known slot next old type).later (if_neg different)
  · rw [same]
    refine known.of_kept (kept.mono ?_)
    rintro op next (rfl | rfl)
    · exact .refl next
    · exact ⟨rfl, rfl, by rintro ⟨⟩⟩

/-- A notification is stored in the op whose token it has, and nowhere else. -/
theorem exoNotified_frame (ran : exoNotified rx sys i op = .ok after) :
    (∀ j, j ≠ i → after.ops[j]? = sys.ops[j]?) ∧
      ∀ address, ¬ Touches rx.pdu op address → after.heap[address]? = sys.heap[address]? := by
  have others : ∀ {changed : ExoOp} (j : Nat), j ≠ i →
      (sys.ops.set i changed)[j]? = sys.ops[j]? :=
    fun j different => List.getElem?_set_ne different.symm
  obtain ⟨code, -, ran⟩ := Exec.bind_eq_ok.mp ran
  split_ifs at ran
  · obtain ⟨newSeq, -, ran⟩ := Exec.bind_eq_ok.mp ran
    obtain ⟨result, store, ran⟩ := Exec.bind_eq_ok.mp ran
    cases result with
    | empty heap =>
        cases ran
        exact ⟨fun _ _ => rfl, fun _ => storePayload_getElem? rx.bounded (Or.inl store)⟩
    | rejected =>
        cases ran
        exact ⟨others, fun _ _ => rfl⟩
    | stored heap =>
        have stored := fun address =>
          @storePayload_getElem? _ _ _ _ rx.bounded (Or.inr store) address
        obtain ⟨mid, -, ran⟩ := Exec.bind_eq_ok.mp ran
        obtain ⟨timeout, -, ran⟩ := Exec.bind_eq_ok.mp ran
        split_ifs at ran <;> cases ran <;> exact ⟨others, stored⟩
  · obtain ⟨codeClass, -, ran⟩ := Exec.bind_eq_ok.mp ran
    split_ifs at ran
    · cases ran
      exact ⟨others, fun _ _ => rfl⟩
    · cases ran
      exact ⟨fun _ _ => rfl, fun _ _ => rfl⟩

theorem TokensKnown.storedByToken {arrival : Arrival} {kind : CoapType}
    (known : TokensKnown arrival.before happened) (typed : AllTyped arrival.before)
    (isKind : coapGetType arrival.rx.pdu = .ok kind) (isMessage : kind = .con ∨ kind = .non) :
    arrival.StoredByToken happened := by
  intro goOn after ran
  cases exoHandleDatagram_cases ran with
  | invalid => exact Or.inl ⟨rfl, rfl⟩
  | reset => exact Or.inl ⟨rfl, rfl⟩
  | dropped => exact Or.inl ⟨rfl, rfl⟩
  | @taken events slot op result _ _ atSlot _ round =>
      obtain ⟨state, isToken, notified⟩ := exoMatchOp_notified isKind isMessage round
      obtain ⟨others, heap⟩ := exoNotified_frame notified
      refine Or.inr ⟨slot, op, atSlot, state, others, heap, fun isAcknowledged => ?_⟩
      have type := (typed atSlot).subscribed (by simp [state])
      obtain ⟨rand, isLast⟩ := Option.isSome_iff_exists.mp (known.requested slot isAcknowledged)
      rw [isToken, (known.known slot op atSlot type).token rand isLast]
      exact ⟨rand, isLast, rfl⟩

/-- A response is only taken for the acknowledgement of a request that was sent. -/
theorem TokensKnown.received {arrival : Arrival} {goOn : Bool}
    (known : TokensKnown arrival.before happened)
    (ran : exoHandleDatagram arrival.rx arrival.before = .ok (goOn, after)) :
    TokensKnown after (.received arrival :: happened) := by
  obtain ⟨requested, later⟩ := known.handled ran
  refine ⟨fun slot isAcknowledged => ?_, fun slot op atSlot type =>
    (later slot op atSlot type).later rfl⟩
  rw [acknowledged, Bool.or_eq_true] at isAcknowledged
  rcases isAcknowledged with now | earlier
  · unfold Arrival.acknowledges at now
    cases atSlot : arrival.before.ops[slot]? with
    | none =>
        rw [atSlot] at now
        cases now
    | some op =>
        rw [atSlot, Option.any_some, decide_eq_true_iff] at now
        exact (known.known slot op atSlot now.1).pending now.2.1
  · exact requested slot earlier

end Steps

/-! ## Runs -/

theorem tokensRule :
    HistoryRule TokensRight TokensKnown fun arrival => AllTyped arrival.before where
  ready := fun ran known => known.of_kept (exoReady_subscriptions KeepsToken.refl ran)
  received := by
    intro arrival happened typed known
    refine ⟨⟨by simp, ?_⟩, fun goOn after ran => known.received ran⟩
    rintro other kind ⟨⟩ isKind isMessage
    exact known.storedByToken typed isKind isMessage
  processed := fun atSlot ran known => known.processed atSlot ran
  called := fun other called known => known.called other called
  subscribed := by simp [TokensRight]

/-- In every run, the token of an acknowledged subscription is the low 16 bits of what
`rand()` returned for its latest observe request, and two of them have the same token
exactly when these bits agree; each request carries these bits as its token, and
notifications are stored by token. -/
theorem run_tokens {count : Nat} {heap : Mem} {calls : List UserCall} {after : Sys}
    (ran : run (powerOn count heap) calls = .ok after) :
    (∀ slot op, Established after (history (powerOn count heap) [] calls) slot op →
      ∃ rand, lastRequest slot (history (powerOn count heap) [] calls) = some rand ∧
        op.token.toNat = rand.toNat % 2 ^ 16) ∧
    (∀ i j first second,
      Established after (history (powerOn count heap) [] calls) i first →
      Established after (history (powerOn count heap) [] calls) j second →
        ∃ firstRand secondRand,
          lastRequest i (history (powerOn count heap) [] calls) = some firstRand ∧
          lastRequest j (history (powerOn count heap) [] calls) = some secondRand ∧
            (first.token ≠ second.token ↔
              firstRand.toNat % 2 ^ 16 ≠ secondRand.toNat % 2 ^ 16)) ∧
    EachEntry TokensRight (history (powerOn count heap) [] calls) := by
  have start : TokensKnown (powerOn count heap) [] := by
    constructor
    · rintro slot ⟨⟩
    intro slot op atSlot type
    have isInit : op = exoOpInit := List.eq_of_mem_replicate (List.mem_of_getElem? atSlot)
    rw [isInit] at type
    cases type
  obtain ⟨each, final⟩ := tokensRule.run .nil start fun arrival member =>
    (allTyped_of_reached (arrivals_reached member).sysSteps).1
  have known := final after ran
  have drawn : ∀ slot op, Established after (history (powerOn count heap) [] calls) slot op →
      ∃ rand, lastRequest slot (history (powerOn count heap) [] calls) = some rand ∧
        op.token.toNat = rand.toNat % 2 ^ 16 := by
    intro slot op established
    obtain ⟨rand, isLast⟩ :=
      Option.isSome_iff_exists.mp (known.requested slot established.acknowledged)
    exact ⟨rand, isLast, (known.known slot op established.atSlot established.type).token rand isLast⟩
  refine ⟨drawn, fun i j first second isFirst isSecond => ?_, each⟩
  obtain ⟨firstRand, firstLast, firstToken⟩ := drawn i first isFirst
  obtain ⟨secondRand, secondLast, secondToken⟩ := drawn j second isSecond
  refine ⟨firstRand, secondRand, firstLast, secondLast, ?_⟩
  rw [Ne, ← UInt64.toNat_inj, firstToken, secondToken]

/-- Two subscriptions for which `rand()` returns the same are acknowledged. -/
def collidingCalls : List UserCall :=
  [quietInit, .subscribe 1 1 3 4, .subscribe 2 1 7 4, quietOperate [],
    quietOperate [[0x62, 0x45, 0, 8, 0x11, 0x22, 0x61, 5, 0xFF, 0x78],
      [0x62, 0x45, 0, 9, 0x11, 0x22, 0x61, 5, 0xFF, 0x79]]]

theorem collidingCalls_established : ∃ after first second,
    run (powerOn 3 quietHeap) collidingCalls = .ok after ∧
      Established after (history (powerOn 3 quietHeap) [] collidingCalls) 1 first ∧
      Established after (history (powerOn 3 quietHeap) [] collidingCalls) 2 second ∧
        first.token = second.token := by
  have computed : (run (powerOn 3 quietHeap) collidingCalls).map
      (fun after => (after.ops.drop 1).map fun op => (op.type, op.state, op.token)) =
        .ok [(.subscribe, .success, 0x2211), (.subscribe, .success, 0x2211)] := by decide +kernel
  have responses : acknowledged 1 (history (powerOn 3 quietHeap) [] collidingCalls) = true ∧
      acknowledged 2 (history (powerOn 3 quietHeap) [] collidingCalls) = true := by
    decide +kernel
  obtain ⟨after, ran, ops⟩ := Exec.map_eq_ok.mp computed
  obtain ⟨first, rest, isRest, isFirst, others⟩ := List.map_eq_cons_iff.mp ops
  obtain ⟨second, isSecond, values⟩ := List.map_eq_singleton_iff.mp others
  subst isSecond
  simp only [Prod.mk.injEq] at isFirst values
  have atFirst : after.ops[1]? = some first := by
    have found := congrArg (·[0]?) isRest
    rwa [List.getElem?_drop] at found
  have atSecond : after.ops[2]? = some second := by
    have found := congrArg (·[1]?) isRest
    rwa [List.getElem?_drop] at found
  refine ⟨after, first, second, ran, ⟨atFirst, isFirst.1, ?_, responses.1⟩,
    ⟨atSecond, values.1, ?_, responses.2⟩, isFirst.2.2.trans values.2.2.symm⟩
  · simp [isFirst.2.1]
  · simp [values.2.1]

/-- The two have the same token, and a notification is stored for the first of them. -/
theorem run_tokens_collide :
    (∃ after, run (powerOn 3 quietHeap) collidingCalls = .ok after ∧
      ¬ TokensDistinct after (history (powerOn 3 quietHeap) [] collidingCalls)) ∧
    (run (powerOn 3 quietHeap) (collidingCalls ++ [.opDone 1, .opDone 2,
        quietOperate [[0x42, 0x45, 0, 99, 0x11, 0x22, 0x61, 6, 0xFF, 0x7A]]])).map
      (fun after => ((after.heap.drop 3).take 8, after.ops.map (·.state))) =
        .ok ([0x7A, 0, 0, 0, 0x79, 0, 0, 0], [.pending, .success, .subscribed]) := by
  refine ⟨?_, by decide +kernel⟩
  obtain ⟨after, first, second, ran, isFirst, isSecond, same⟩ := collidingCalls_established
  exact ⟨after, ran, fun distinct => distinct 1 2 first second (by decide) isFirst isSecond same⟩

/-- What was drawn for the two agrees in the low 16 bits, which are their token. -/
theorem run_tokens_drawn : ∃ (after : Sys) (first second : ExoOp) (firstRand secondRand : UInt64),
    run (powerOn 3 quietHeap) collidingCalls = .ok after ∧
      lastRequest 1 (history (powerOn 3 quietHeap) [] collidingCalls) = some firstRand ∧
      lastRequest 2 (history (powerOn 3 quietHeap) [] collidingCalls) = some secondRand ∧
      first.token = second.token ∧ first.token.toNat = firstRand.toNat % 2 ^ 16 ∧
        (first.token ≠ second.token ↔ firstRand.toNat % 2 ^ 16 ≠ secondRand.toNat % 2 ^ 16) := by
  obtain ⟨after, first, second, ran, isFirst, isSecond, same⟩ := collidingCalls_established
  obtain ⟨drawn, distinct, -⟩ := run_tokens ran
  obtain ⟨firstRand, firstLast, token⟩ := drawn 1 first isFirst
  obtain ⟨other, secondRand, isOther, secondLast, iff⟩ := distinct 1 2 first second isFirst isSecond
  rw [firstLast] at isOther
  cases isOther
  exact ⟨after, first, second, firstRand, secondRand, ran, firstLast, secondLast, same, token, iff⟩

end ExositeCoap.Exosite
