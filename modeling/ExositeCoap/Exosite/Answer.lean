import ExositeCoap.Exosite.Exchange
import ExositeCoap.Exosite.Good

/-!
# Answers

What the network delivers is an answer to some datagram that has gone out, but it may come
late, twice or never.  All the same a read or write succeeds only by an answer to what went
out for this very request (`run_answered`).
-/

namespace ExositeCoap.Exosite

open Lib Wire Coap

theorem requestsLogged_of_reached {count : Nat} {heap : Mem} {sys : Sys}
    (reached : SysSteps (powerOn count heap) sys) : RequestsLogged sys := by
  refine reached.invariant SysStep.requestsLogged ⟨by simp [powerOn], ?_, ?_⟩
  · rintro _ _ _ _ _ ⟨⟩
  · rintro _ _ ⟨⟩

/-- The packet answers a datagram that went out for the request in `slot`, which is a whole
request of this type if it fits in a datagram. -/
def AnswerTo (serves : List UInt8 → List UInt8 → Prop) (log : List Event) (slot : Nat)
    (type : ExoRequestType) (packet : List UInt8) : Prop :=
  ∃ request datagram, (request, datagram) ∈ exchanged slot log ∧ request.type = type ∧
    (request.Fits → Whole datagram request) ∧ serves datagram packet

/-- A response is served for some datagram that has gone out, and carries its message id. -/
def Arrival.Honest (serves : List UInt8 → List UInt8 → Prop) (arrival : Arrival) : Prop :=
  IsAck arrival.rx → ∃ datagram ∈ requestsSent arrival.before.log, ∃ mid,
    Carries datagram mid ∧ coapGetMid arrival.rx.pdu = .ok mid ∧
      serves datagram arrival.rx.pdu.packet

section Answers

variable {serves : List UInt8 → List UInt8 → Prop} {sys after : Sys}

theorem mem_of_exchanged {slot : Nat} {request : Request} {datagram : List UInt8}
    {log : List Event} (member : (request, datagram) ∈ exchanged slot log) :
    ∃ first, Event.sent (.request slot first request) datagram true ∈ log := by
  fun_induction exchanged slot log with
  | case1 => cases member
  | case2 => cases member
  | case3 _ _ _ ih =>
      obtain ⟨first, found⟩ := ih member
      exact ⟨first, List.mem_cons_of_mem _ found⟩
  | case4 first _ _ _ ih =>
      rcases List.mem_cons.mp member with same | old
      · cases same
        exact ⟨first, List.mem_cons_self⟩
      · obtain ⟨earlier, found⟩ := ih old
        exact ⟨earlier, List.mem_cons_of_mem _ found⟩
  | case5 _ _ _ _ _ _ ih =>
      obtain ⟨first, found⟩ := ih member
      exact ⟨first, List.mem_cons_of_mem _ found⟩
  | case6 _ _ _ _ ih =>
      obtain ⟨first, found⟩ := ih member
      exact ⟨first, List.mem_cons_of_mem _ found⟩

/-- A response to which an op of the user listens answers what went out for this op. -/
theorem answerTo_of_awaited {count : Nat} {heap : Mem} {arrival : Arrival}
    (reached : SysSteps (powerOn count heap) arrival.before) (honest : arrival.Honest serves)
    (once : arrival.before.log.count .initialised ≤ 1)
    (few : builtCount arrival.before.log ≤ 65536) (isAck : IsAck arrival.rx) {slot : Nat}
    {op : ExoOp} (later : 1 ≤ slot) (atSlot : arrival.before.ops[slot]? = some op)
    (awaited : AwaitedBy arrival.rx op) :
    AnswerTo serves arrival.before.log slot op.type arrival.rx.pdu.packet := by
  obtain ⟨typed, exchanging⟩ := exchanging_of_reached reached
  obtain ⟨counter, -, safe⟩ := exchanging.safe once few
  obtain ⟨datagram, sent, mid, carries, isMid, serving⟩ := honest isAck
  rw [awaited.mid] at isMid
  cases isMid
  obtain ⟨request, member⟩ :=
    safe.mine slot op.mid datagram ⟨op, atSlot, awaited.state, rfl⟩ sent carries
  have some := (typed atSlot).of_waits (Or.inr awaited.state)
  have type := asksForIts_of_reached reached slot op request datagram later atSlot some member
  refine ⟨request, datagram, member, type, ?_, serving⟩
  obtain ⟨first, logged⟩ := mem_of_exchanged member
  refine ((requestsLogged_of_reached reached).sent logged).2 fun activate => ?_
  have zero := ((typed atSlot).activate (type.symm.trans activate)).1
  omega

end Answers

/-! ## Evidence of success -/

/-- The datagram makes the read or write in `slot` succeed. A read has its payload in the
buffer of the op. -/
structure Arrival.Succeeds (arrival : Arrival) (slot : Nat) (op : ExoOp) : Prop where
  isAck : IsAck arrival.rx
  success : coapGetCodeClass arrival.rx.pdu = .ok 2
  awaited : ∃ pending, arrival.before.ops[slot]? = some pending ∧
    AwaitedBy arrival.rx pending ∧ SameRequest pending op
  value : op.type = .read → op.valueMax ≤ 2 ^ 63 → ∃ goOn next bytes,
    exoHandleDatagram arrival.rx arrival.before = .ok (goOn, next) ∧
      Genuine arrival.rx.pdu op bytes ∧
        next.heap.slice op.valuePtr (bytes.length + 1) = .ok (bytes ++ [0])

/-- Every read or write of the user that has succeeded was answered, for what had gone out
for it by then. -/
def Evident (start : Sys) (calls : List UserCall) (sys : Sys) : Prop :=
  ∀ slot op, 1 ≤ slot → sys.ops[slot]? = some op → Answerable op → op.state = .success →
    ∃ arrival ∈ arrivals start calls, arrival.Succeeds slot op ∧
      exchanged slot arrival.before.log ⊆ exchanged slot sys.log

section Evidence

variable {start sys after : Sys} {calls : List UserCall}

/-- From the older log to the newer one, the user has queued nothing in the slot. -/
def Unqueued (slot : Nat) (older newer : List Event) : Prop :=
  ∃ events, newer = events ++ older ∧ .queued slot ∉ events

theorem Unqueued.refl (slot : Nat) (log : List Event) : Unqueued slot log log :=
  ⟨[], rfl, List.not_mem_nil⟩

theorem Unqueued.trans {slot : Nat} {first second third : List Event}
    (before : Unqueued slot first second) (later : Unqueued slot second third) :
    Unqueued slot first third := by
  obtain ⟨events, rfl, none⟩ := before
  obtain ⟨more, rfl, noMore⟩ := later
  refine ⟨more ++ events, (List.append_assoc _ _ _).symm, ?_⟩
  rw [List.mem_append, not_or]
  exact ⟨noMore, none⟩

/-- What went out stays in the log until the user queues the next request. -/
theorem Unqueued.exchanged_subset {slot : Nat} {older newer : List Event}
    (unqueued : Unqueued slot older newer) : exchanged slot older ⊆ exchanged slot newer := by
  obtain ⟨events, rfl, none⟩ := unqueued
  induction events with
  | nil => exact List.Subset.refl _
  | cons event rest ih =>
      rw [List.mem_cons, not_or] at none
      refine List.Subset.trans (ih none.2) ?_
      rw [List.cons_append]
      generalize rest ++ older = log
      rw [exchanged.eq_def slot (event :: log)]
      split
      next same => cases same
      next i _ same =>
        cases same
        have other : i ≠ slot := by
          rintro rfl
          exact none.1 rfl
        rw [if_neg other]
        exact List.Subset.refl _
      next same =>
        cases same
        split_ifs
        · exact List.subset_cons_self _ _
        · exact List.Subset.refl _
      next same =>
        cases same
        exact List.Subset.refl _

/-- The library queues nothing for the user. -/
theorem LibStep.unqueued (step : LibStep sys after) (slot : Nat) :
    Unqueued slot sys.log after.log := by
  obtain ⟨events, logs, grown⟩ := step.logs
  refine ⟨events, grown, ?_⟩
  cases logs <;> simp

theorem LibSteps.unqueued (steps : LibSteps sys after) (slot : Nat) :
    Unqueued slot sys.log after.log := by
  induction steps with
  | refl => exact .refl _ _
  | tail _ step ih => exact ih.trans (step.unqueued slot)

theorem LibSteps.exchanged_subset (steps : LibSteps sys after) (slot : Nat) :
    Exosite.exchanged slot sys.log ⊆ Exosite.exchanged slot after.log :=
  (LibSteps.unqueued steps slot).exchanged_subset

/-- The user only puts ops in the states `NULL`, `NEW` and `SUBSCRIBED`, and queues nothing
where an op is in another state. -/
theorem call_kept {action : UserCall} (other : action.operation sys = [])
    (called : call sys action = .ok after) {slot : Nat} {op : ExoOp}
    (isOp : after.ops[slot]? = some op)
    (state : op.state ≠ .null ∧ op.state ≠ .new ∧ op.state ≠ .subscribed) :
    sys.ops[slot]? = some op ∧ Unqueued slot sys.log after.log := by
  have replaced : ∀ {i : Nat} {changed : ExoOp}, (sys.setOp i changed).ops[slot]? = some op →
      (changed.state = .null ∨ changed.state = .new ∨ changed.state = .subscribed) →
        i ≠ slot ∧ sys.ops[slot]? = some op := by
    intro i changed found fresh
    obtain ⟨-, rfl⟩ | kept := of_getElem?_setOp found
    · rcases fresh with same | same | same <;> simp [same] at state
    · exact kept
  cases action with
  | operate => cases other
  | init env vendor model serial =>
      cases called
      refine ⟨(exoInit_frame env vendor model serial sys).1 ▸ isOp, ?_⟩
      unfold exoInit
      dsimp only
      split_ifs
      · exact .refl _ _
      · exact .refl _ _
      · exact .refl _ _
      · exact ⟨[.initialised], rfl, by simp⟩
  | memory =>
      cases called
      exact ⟨isOp, .refl _ _⟩
  | opInit i =>
      obtain ⟨found, -, same⟩ := Exec.bind_eq_ok.mp called
      cases same
      exact ⟨(replaced isOp (Or.inl rfl)).2, .refl _ _⟩
  | opDone i =>
      obtain ⟨found, -, same⟩ := Exec.bind_eq_ok.mp called
      cases same
      refine ⟨(replaced isOp ?_).2, [.released i found], rfl, by simp⟩
      unfold exoOpDone
      split_ifs <;> simp [exoOpInit]
  | _ =>
      obtain ⟨found, -, same⟩ := Exec.bind_eq_ok.mp called
      cases same
      obtain ⟨different, kept⟩ := replaced isOp (Or.inr (Or.inl rfl))
      exact ⟨kept, [.queued _], rfl, by simpa using different.symm⟩

/-- No slot makes a read or write succeed on its turn. -/
theorem SlotStep.succeeded {env : SlotEnv} {i slot : Nat} {op next : ExoOp}
    (typed : WellTyped i op) (step : SlotStep env sys i op after) (isNext : after.ops[slot]? = some next)
    (type : Answerable next) (success : next.state = .success) : sys.ops[slot]? = some next := by
  have replaced : ∀ {changed : ExoOp}, (sys.setOp i changed).ops[slot]? = some next →
      changed ≠ next → sys.ops[slot]? = some next := by
    intro changed found different
    obtain ⟨-, same⟩ | ⟨-, kept⟩ := of_getElem?_setOp found
    · exact absurd same.symm different
    · exact kept
  cases step with
  | idle => exact isNext
  | unexpectedWait => exact isNext
  | unsent => exact isNext
  | unresent => exact isNext
  | unacked => exact isNext
  | resent waits =>
      refine replaced isNext ?_
      rintro rfl
      rcases waits with state | state <;> simp [state] at success
  | unexpectedNew state =>
      refine replaced isNext ?_
      rintro rfl
      simp [state] at success
  | acked isState =>
      refine replaced isNext ?_
      rintro rfl
      have subscribe : op.type = .subscribe := by
        rcases isState with ⟨before, -⟩ | ⟨before, -⟩ <;> exact typed.subscribed (by simp [before])
      simp [Answerable, subscribe] at type
  | _ =>
      refine replaced isNext ?_
      rintro rfl
      simp at success

theorem exoActiveLoop_succeeded {now : UInt64} {envs : Nat → SlotEnv} {left i slot : Nat}
    {next : ExoOp} (typed : AllTyped sys) (ran : exoActiveLoop now envs sys left i = .ok after)
    (isNext : after.ops[slot]? = some next) (type : Answerable next)
    (success : next.state = .success) : sys.ops[slot]? = some next := by
  have held := @exoActiveLoop_rule _ _ _ _ _ (fun _ state => AllTyped state ∧
    (state.ops[slot]? = some next → sys.ops[slot]? = some next)) _ ran ⟨typed, id⟩ ?_
  · exact held.2 isNext
  · rintro state later j op atSlot processed ⟨typed, kept⟩
    have step := exoProcessOp_cases processed
    exact ⟨LibStep.allTyped (.slot atSlot step) typed,
      fun found => kept (step.succeeded (typed atSlot) found type success)⟩

/-- A refusal only puts ops in the states `ERROR` and `NEW`. -/
theorem exoRefused_kept {rx : Received} {i slot : Nat} {op next : ExoOp}
    (ran : exoRefused rx sys i op = .ok after) (isNext : after.ops[slot]? = some next)
    (state : next.state ≠ .error ∧ next.state ≠ .new) : sys.ops[slot]? = some next := by
  have failed : (sys.setOp i { op with state := .error }).ops[slot]? = some next →
      sys.ops[slot]? = some next := by
    intro found
    obtain ⟨-, rfl⟩ | ⟨-, kept⟩ := of_getElem?_setOp found
    · exact absurd rfl state.1
    · exact kept
  obtain ⟨code, -, ran⟩ := Exec.bind_eq_ok.mp ran
  split_ifs at ran
  · split at ran
    · cases ran
    · split_ifs at ran
      · cases ran
        obtain ⟨-, rfl⟩ | ⟨-, kept⟩ := of_getElem?_setOp isNext
        · exact absurd rfl state.2
        · exact failed kept
      · cases ran
        exact failed isNext
  · cases ran
    exact failed isNext
  · cases ran
    exact failed isNext

/-- A reaction makes a read or write succeed that was pending. -/
theorem Reaction.succeeded {rx : Received} {i slot : Nat} {op next : ExoOp}
    (reaction : Reaction rx sys i op after) (isNext : after.ops[slot]? = some next)
    (type : Answerable next) (success : next.state = .success) :
    sys.ops[slot]? = some next ∨ (i = slot ∧ op.state = .pending ∧ SameRequest op next ∧
      (op.type = .read → ∃ heap, storePayload rx.pdu sys.heap op = .ok (.stored heap) ∧
        after.heap = heap)) := by
  have replaced : ∀ {changed : ExoOp}, (sys.setOp i changed).ops[slot]? = some next →
      changed.state ≠ .success → sys.ops[slot]? = some next := by
    intro changed found ended
    obtain ⟨-, rfl⟩ | ⟨-, kept⟩ := of_getElem?_setOp found
    · exact absurd success ended
    · exact kept
  cases reaction with
  | ignored => exact Or.inl isNext
  | emptied => exact Or.inl isNext
  | notified _ acks =>
      refine Or.inl (replaced isNext ?_)
      rcases acks with rfl | rfl <;> simp
  | written state isWrite =>
      obtain ⟨here, rfl⟩ | ⟨-, kept⟩ := of_getElem?_setOp isNext
      · exact Or.inr ⟨here, state, ⟨rfl, rfl, rfl, rfl⟩, fun isRead => by simp [isWrite] at isRead⟩
      · exact Or.inl kept
  | @delivered heap _ _ state _ store =>
      obtain ⟨here, rfl⟩ | ⟨-, kept⟩ := @of_getElem?_setOp { sys with heap } _ _ _ _ isNext
      · exact Or.inr ⟨here, state, ⟨rfl, rfl, rfl, rfl⟩, fun _ => ⟨heap, store, rfl⟩⟩
      · exact Or.inl kept
  | activated => exact Or.inl (replaced isNext (by simp [exoOpInit]))
  | notActivated => exact Or.inl (replaced isNext (by simp [exoOpInit]))
  | reactivated =>
      obtain ⟨-, rfl⟩ | ⟨-, kept⟩ := of_getElem?_setOp isNext
      · cases success
      · exact Or.inl (replaced kept (by simp))
  | _ => exact Or.inl (replaced isNext (by simp))

/-- A datagram makes a read or write succeed only as the answer to it. -/
theorem Arrival.succeeded {arrival : Arrival} {goOn : Bool} {slot : Nat} {next : ExoOp}
    (ran : exoHandleDatagram arrival.rx arrival.before = .ok (goOn, after))
    (isNext : after.ops[slot]? = some next) (type : Exosite.Answerable next)
    (success : next.state = .success) :
    arrival.before.ops[slot]? = some next ∨ arrival.Succeeds slot next := by
  have handled := ran
  cases exoHandleDatagram_cases ran with
  | invalid => exact Or.inl isNext
  | reset => exact Or.inl isNext
  | dropped => exact Or.inl isNext
  | @taken events i op result valid _ atSlot _ round =>
      obtain ⟨takes, reaction⟩ := reaction_of_round round
      obtain kept | ⟨rfl, state, same, stored⟩ := reaction.succeeded isNext type success
      · exact Or.inl kept
      cases takes with
      | notification _ _ subscribed =>
          rw [state] at subscribed
          cases subscribed
      | reset isKind =>
          rw [exoMatchOp_rst isKind round] at isNext
          obtain ⟨-, rfl⟩ | ⟨different, -⟩ := of_getElem?_setOp isNext
          · cases success
          · exact absurd rfl different
      | response isKind _ mid =>
          obtain ⟨codeClass, isClass⟩ := exoMatchOp_class isKind round
          by_cases accepted : codeClass = 2
          · subst accepted
            refine Or.inr ⟨⟨valid, isKind⟩, isClass, ⟨op, atSlot, ⟨state, mid⟩, same⟩, ?_⟩
            intro isRead small
            obtain ⟨heap, store, rfl⟩ := stored (same.type.symm.trans isRead)
            obtain ⟨bytes, genuine, copied⟩ :=
              storePayload_genuine valid (same.valueMax ▸ small) store
            have loaded := Mem.slice_of_store copied
            rw [List.length_append, List.length_singleton] at loaded
            refine ⟨_, _, bytes, handled, ⟨genuine.has, genuine.nonempty, ?_⟩, ?_⟩
            · rw [same.valueMax]
              exact genuine.room
            · rw [same.valuePtr]
              exact loaded
          · have refused := exoMatchOp_refused isKind isClass accepted round
            exact Or.inl (@exoRefused_kept (arrival.before.logged events) _ _ _ _ _ _ refused
              isNext (by simp [success]))

/-! ## Runs -/

theorem RunPart.evident {source : Option Arrival} (typed : AllTyped sys)
    (part : RunPart start calls source sys after) (evident : Evident start calls sys) :
    Evident start calls after := by
  intro slot op later isOp type success
  have kept : sys.ops[slot]? = some op → exchanged slot sys.log ⊆ exchanged slot after.log →
      ∃ arrival ∈ arrivals start calls, arrival.Succeeds slot op ∧
        exchanged slot arrival.before.log ⊆ exchanged slot after.log := by
    intro atSlot grown
    obtain ⟨arrival, member, succeeds, older⟩ := evident slot op later atSlot type success
    exact ⟨arrival, member, succeeds, List.Subset.trans older grown⟩
  cases part with
  | user _ _ other called =>
      obtain ⟨atSlot, unqueued⟩ := call_kept other called isOp (by simp [success])
      exact kept atSlot unqueued.exchanged_subset
  | ready _ _ isReady =>
      obtain rfl | ⟨first, -, rfl⟩ := exoReady_cases isReady
      · exact kept isOp (List.Subset.refl _)
      · obtain ⟨-, rfl⟩ | ⟨-, atSlot⟩ := of_getElem?_setOp isOp
        · cases success
        · exact kept atSlot (List.Subset.refl _)
  | handled member ran =>
      have grown := (exoHandleDatagram_steps ran).exchanged_subset slot
      obtain atSlot | succeeds := Arrival.succeeded ran isOp type success
      · exact kept atSlot grown
      · exact ⟨_, member, succeeds, grown⟩
  | active _ _ _ _ ran =>
      exact kept (exoActiveLoop_succeeded typed ran isOp type success)
        ((exoActiveLoop_callSteps ran).libSteps.exchanged_subset slot)

theorem run_evident {count : Nat} {heap : Mem}
    (ran : run (powerOn count heap) calls = .ok after) :
    Evident (powerOn count heap) calls after := by
  refine run_rule ran ?_ fun reached part evident =>
    part.evident (allTyped_of_reached reached).1 evident
  intro slot op _ atSlot _ success
  have isInit : op = exoOpInit := List.eq_of_mem_replicate (List.mem_of_getElem? atSlot)
  rw [isInit] at success
  cases success

end Evidence

/-! ## The result -/

section Result

variable {serves : List UInt8 → List UInt8 → Prop} {sys after : Sys}

theorem builtCount_append (newer older : List Event) :
    builtCount older ≤ builtCount (newer ++ older) := by
  induction newer with
  | nil => exact Nat.le_refl _
  | cons event rest ih =>
      cases event with
      | built => exact Nat.le_succ_of_le ih
      | _ => exact ih

/-- What was answered by the time was answered by the end. -/
theorem AnswerTo.mono {newer older : List Event} {slot : Nat} {type : ExoRequestType}
    {packet : List UInt8} (answer : AnswerTo serves older slot type packet)
    (grown : exchanged slot older ⊆ exchanged slot newer) :
    AnswerTo serves newer slot type packet := by
  obtain ⟨request, datagram, member, rest⟩ := answer
  exact ⟨request, datagram, grown member, rest⟩

/-- What an op of the user listens to answers what went out for it. -/
theorem answerTo_of_run {count : Nat} {heap : Mem} {calls : List UserCall}
    (ran : run (powerOn count heap) calls = .ok after)
    (once : after.log.count .initialised ≤ 1) (few : builtCount after.log ≤ 65536)
    {arrival : Arrival} (member : arrival ∈ arrivals (powerOn count heap) calls)
    (honest : arrival.Honest serves) (isAck : IsAck arrival.rx) {slot : Nat} {op : ExoOp}
    (later : 1 ≤ slot) (atSlot : arrival.before.ops[slot]? = some op)
    (awaited : AwaitedBy arrival.rx op) :
    AnswerTo serves arrival.before.log slot op.type arrival.rx.pdu.packet := by
  obtain ⟨newer, split⟩ := (arrivals_rest ran member).log_suffix
  rw [← split] at once few
  rw [List.count_append] at once
  have fewer := builtCount_append newer arrival.before.log
  exact answerTo_of_awaited (arrivals_reached member).sysSteps honest (by omega) (by omega) isAck
    later atSlot awaited

/-- Whatever the network loses, doubles, reorders and delays, as long as responses are served
for datagrams that have gone out and fewer message ids are drawn than there are: every
response to which an op of the user listens answers what went out for this op since it was
queued, and a read or write succeeds only by such a response, which a read then has the
payload of. -/
theorem run_answered {count : Nat} {heap : Mem} {calls : List UserCall}
    (ran : run (powerOn count heap) calls = .ok after)
    (once : after.log.count .initialised ≤ 1) (few : builtCount after.log ≤ 65536)
    (honest : ∀ arrival ∈ arrivals (powerOn count heap) calls, arrival.Honest serves) :
    (∀ arrival ∈ arrivals (powerOn count heap) calls, IsAck arrival.rx →
      ∀ slot op, 1 ≤ slot → arrival.before.ops[slot]? = some op → AwaitedBy arrival.rx op →
        AnswerTo serves arrival.before.log slot op.type arrival.rx.pdu.packet) ∧
    ∀ slot op, 1 ≤ slot → after.ops[slot]? = some op → Answerable op → op.state = .success →
      ∃ arrival ∈ arrivals (powerOn count heap) calls, arrival.Succeeds slot op ∧
        AnswerTo serves after.log slot op.type arrival.rx.pdu.packet := by
  refine ⟨fun arrival member isAck slot op later atSlot awaited =>
    answerTo_of_run ran once few member (honest arrival member) isAck later atSlot awaited,
    fun slot op later atSlot type success => ?_⟩
  obtain ⟨arrival, member, succeeds, grown⟩ := run_evident ran slot op later atSlot type success
  obtain ⟨pending, isPending, awaited, same⟩ := succeeds.awaited
  refine ⟨arrival, member, succeeds, ?_⟩
  rw [same.type]
  exact (answerTo_of_run ran once few member (honest arrival member) succeeds.isAck later
    isPending awaited).mono grown

end Result

/-- The value "x", served for any request. -/
def serveX (datagram : List UInt8) : List UInt8 :=
  [0x60, 0x45] ++ (datagram.drop 2).take 2 ++ [0xFF, 0x78]

/-- A read is sent, and its answer comes twice. -/
def answeredCalls : List UserCall :=
  readCalls ++ [quietOperate [[0x60, 0x45, 0, 8, 0xFF, 0x78], [0x60, 0x45, 0, 8, 0xFF, 0x78]]]

/-- The answers were served for the read. -/
theorem answeredCalls_honest : ∀ arrival ∈ arrivals (powerOn 2 quietHeap) answeredCalls,
    arrival.Honest fun datagram packet => packet = serveX datagram := by
  have served : ((arrivals (powerOn 2 quietHeap) answeredCalls).all fun arrival =>
      (requestsSent arrival.before.log).any fun datagram =>
        coapGetMid ⟨1, datagram, datagram.length, datagram.length⟩ = .ok 8 ∧
          coapGetMid arrival.rx.pdu = .ok 8 ∧
            arrival.rx.pdu.packet = serveX datagram) = true := by decide +kernel
  intro arrival member _
  obtain ⟨datagram, sent, checked⟩ :=
    List.any_eq_true.mp (List.all_eq_true.mp served arrival member)
  obtain ⟨carries, isMid, serving⟩ := of_decide_eq_true checked
  exact ⟨datagram, sent, 8, carries, isMid, serving⟩

/-- The read succeeds by what was served for it. -/
theorem run_answered_read : ∃ (after : Sys) (arrival : Arrival) (op : ExoOp),
    run (powerOn 2 quietHeap) answeredCalls = .ok after ∧ after.ops[1]? = some op ∧
      op.state = .success ∧ arrival.Succeeds 1 op ∧
        AnswerTo (fun datagram packet => packet = serveX datagram) after.log 1 .read
          arrival.rx.pdu.packet := by
  have computed : (run (powerOn 2 quietHeap) answeredCalls).map (fun after =>
      (after.ops[1]?, after.log.count .initialised, builtCount after.log)) =
        .ok (some { sentRead with state := .success }, 1, 2) := by decide +kernel
  obtain ⟨after, ran, values⟩ := Exec.map_eq_ok.mp computed
  simp only [Prod.mk.injEq] at values
  obtain ⟨atSlot, once, few⟩ := values
  obtain ⟨-, evident⟩ := run_answered ran (by omega) (by omega) answeredCalls_honest
  obtain ⟨arrival, -, succeeds, answer⟩ := evident 1 _ (Nat.le_refl 1) atSlot (Or.inl rfl) rfl
  exact ⟨after, arrival, _, ran, atSlot, rfl, succeeds, answer⟩

end ExositeCoap.Exosite
