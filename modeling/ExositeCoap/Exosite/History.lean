import ExositeCoap.Exosite.Arrivals
import ExositeCoap.Exosite.OpChange
import ExositeCoap.Lib.Trace

/-!
# The history of subscriptions

What subscriptions depend on in a run, newest first: the calls of `exo_subscribe`, the
datagrams that are handled and the observe requests that are sent.  `HistoryRule.run` is
the induction over a run, part by part, for what holds of every entry of the history and of
the state that it leads to.
-/

namespace ExositeCoap.Exosite

open Lib Wire Coap

/-- An entry of the history. -/
inductive Happening where
  /-- `exo_subscribe` is called for the op in `slot` -/
  | subscribed (slot : Nat)
  | received (arrival : Arrival)
  /-- an observe request is sent, for which `rand()` has returned `rand` -/
  | requested (slot : Nat) (rand : UInt64) (datagram : List UInt8)

/-- The observe request that is sent when the op in slot `i` is processed. -/
def observeRequest (env : SlotEnv) (i : Nat) (op : ExoOp) (after : Sys) : List Happening :=
  if op.state = .new ∧ op.type = .subscribe then
    match after.log with
    | .sent (.request _ _ _) datagram true :: _ => [.requested i env.rand datagram]
    | _ => []
  else []

/-- The history of the loop over the slots, from slot `i` on. -/
def activeHistory (now : UInt64) (envs : Nat → SlotEnv) (sys : Sys) (older : List Happening) :
    (left i : Nat) → List Happening
  | 0, _ => older
  | left + 1, i =>
    match sys.ops[i]? with
    | none => older
    | some op =>
      match exoProcessOp now (envs i) sys i op with
      | .ok next => activeHistory now envs next (observeRequest (envs i) i op next ++ older) left
          (i + 1)
      | .error _ => older

/-- The history of a call of `exo_operate`. -/
def Operation.history (operation : Operation) (older : List Happening) : List Happening :=
  let handled := (operation.arrivals.map .received).reverse ++ older
  if operation.before.deviceState = .uninitialized then handled
  else
    match exoReady operation.env.time operation.before >>= fun ready =>
        exoProcessWaitingDatagrams ready operation.env.datagrams with
    | .ok sys => activeHistory operation.env.now operation.env.slots sys handled sys.ops.length 0
    | .error _ => handled

/-- The history of a single call of the user. -/
def UserCall.history (sys : Sys) (older : List Happening) : UserCall → List Happening
  | .subscribe slot _ _ _ => .subscribed slot :: older
  | .operate env => Operation.history ⟨sys, env⟩ older
  | _ => older

/-- The history of a sequence of calls. -/
def history (sys : Sys) (older : List Happening) : List UserCall → List Happening
  | [] => older
  | first :: rest =>
    match call sys first with
    | .ok next => history next (first.history sys older) rest
    | .error _ => first.history sys older

/-- What every part of a run keeps: `holds` of the entries, with the older ones, and `inv` of
the states. The datagrams are known to be in `source`. -/
structure HistoryRule (holds : Happening → List Happening → Prop)
    (inv : Sys → List Happening → Prop) (source : Arrival → Prop) : Prop where
  ready : ∀ {sys after : Sys} {happened : List Happening} {time : UInt64},
    exoReady time sys = .ok after → inv sys happened → inv after happened
  received : ∀ {arrival : Arrival} {happened : List Happening}, source arrival →
    inv arrival.before happened → holds (.received arrival) happened ∧
      ∀ goOn after, exoHandleDatagram arrival.rx arrival.before = .ok (goOn, after) →
        inv after (.received arrival :: happened)
  processed : ∀ {now : UInt64} {env : SlotEnv} {sys after : Sys} {i : Nat} {op : ExoOp}
    {happened : List Happening}, sys.ops[i]? = some op →
      exoProcessOp now env sys i op = .ok after → inv sys happened →
        (∀ entry ∈ observeRequest env i op after, holds entry happened) ∧
          inv after (observeRequest env i op after ++ happened)
  called : ∀ {sys after : Sys} {happened : List Happening} {action : UserCall},
    action.operation sys = [] → call sys action = .ok after → inv sys happened →
      inv after (action.history sys happened)
  subscribed : ∀ (slot : Nat) (happened : List Happening), holds (.subscribed slot) happened

section Members

variable {sys : Sys} {older : List Happening} {entry : Happening}

theorem observeRequest_cases (env : SlotEnv) (i : Nat) (op : ExoOp) (after : Sys) :
    observeRequest env i op after = [] ∨
      ∃ datagram, observeRequest env i op after = [.requested i env.rand datagram] := by
  unfold observeRequest
  split_ifs
  · split
    · exact Or.inr ⟨_, rfl⟩
    · exact Or.inl rfl
  · exact Or.inl rfl

theorem activeHistory_older {now : UInt64} {envs : Nat → SlotEnv} {left i : Nat}
    (member : entry ∈ older) : entry ∈ activeHistory now envs sys older left i := by
  induction left generalizing sys older i with
  | zero => exact member
  | succ left ih =>
      rw [activeHistory]
      split
      · exact member
      · split
        · exact ih (List.mem_append_right _ member)
        · exact member

theorem Operation.history_handled {operation : Operation}
    (member : entry ∈ (operation.arrivals.map .received).reverse ++ older) :
    entry ∈ operation.history older := by
  unfold Operation.history
  split_ifs
  · exact member
  · split
    · exact activeHistory_older member
    · exact member

theorem UserCall.history_older {action : UserCall} (member : entry ∈ older) :
    entry ∈ action.history sys older := by
  cases action with
  | subscribe => exact List.mem_cons_of_mem _ member
  | operate => exact Operation.history_handled (List.mem_append_right _ member)
  | _ => exact member

theorem history_older {calls : List UserCall} (member : entry ∈ older) :
    entry ∈ history sys older calls := by
  induction calls generalizing sys older with
  | nil => exact member
  | cons first rest ih =>
      rw [history]
      split
      · exact ih (UserCall.history_older member)
      · exact UserCall.history_older member

/-- The history tells of every datagram that is handled. -/
theorem mem_history {arrival : Arrival} {calls : List UserCall}
    (member : arrival ∈ arrivals sys calls) : .received arrival ∈ history sys older calls := by
  induction calls generalizing sys older with
  | nil => cases member
  | cons first rest ih =>
      rw [arrivals, operations, List.flatMap_append, List.mem_append] at member
      rw [history]
      rcases member with here | later
      · have newest : .received arrival ∈ first.history sys older := by
          obtain ⟨operation, isOperation, isArrival⟩ := List.mem_flatMap.mp here
          cases first with
          | operate env =>
              rw [List.mem_singleton.mp isOperation] at isArrival
              refine Operation.history_handled (List.mem_append_left _ ?_)
              rw [List.mem_reverse]
              exact List.mem_map_of_mem isArrival
          | _ => cases isOperation
        split
        · exact history_older newest
        · exact newest
      · cases called : call sys first with
        | error trap =>
            rw [called] at later
            cases later
        | ok next =>
            rw [called] at later
            exact ih later

end Members

/-! ## Subscriptions from state to state -/

/-- Every subscription was one before, and is related to what it was. -/
def KeepsSubscriptions (related : ExoOp → ExoOp → Prop) (sys after : Sys) : Prop :=
  ∀ (slot : Nat) (next : ExoOp), after.ops[slot]? = some next →
    next.type ≠ .subscribe ∨ ∃ op, sys.ops[slot]? = some op ∧ related op next

section Subscriptions

variable {related : ExoOp → ExoOp → Prop} {sys after : Sys}

theorem KeepsSubscriptions.mono {weaker : ExoOp → ExoOp → Prop}
    (keeps : KeepsSubscriptions related sys after)
    (implies : ∀ {op next}, related op next → weaker op next) :
    KeepsSubscriptions weaker sys after := by
  intro slot next isNext
  obtain other | ⟨op, atSlot, relates⟩ := keeps slot next isNext
  · exact Or.inl other
  · exact Or.inr ⟨op, atSlot, implies relates⟩

variable (refl : ∀ op, related op op)

include refl

theorem KeepsSubscriptions.of_ops (same : after.ops = sys.ops) :
    KeepsSubscriptions related sys after :=
  fun _ next isNext => Or.inr ⟨next, same ▸ isNext, refl next⟩

/-- An op is replaced by one that is no subscription, or that is related to it. -/
theorem KeepsSubscriptions.setOp {i : Nat} {op changed : ExoOp}
    (atSlot : sys.ops[i]? = some op) (ops : after.ops = sys.ops.set i changed)
    (relates : changed.type ≠ .subscribe ∨ related op changed) :
    KeepsSubscriptions related sys after := by
  intro slot next isNext
  rw [ops] at isNext
  obtain ⟨rfl, rfl⟩ | ⟨-, old⟩ := @of_getElem?_setOp sys slot i changed next isNext
  · exact relates.imp_right fun relates => ⟨op, atSlot, relates⟩
  · exact Or.inr ⟨next, old, refl next⟩

theorem exoReady_subscriptions {time : UInt64} (ran : exoReady time sys = .ok after) :
    KeepsSubscriptions related sys after := by
  obtain rfl | ⟨first, atSlot, rfl⟩ := exoReady_cases ran
  · exact .of_ops refl rfl
  · exact .setOp refl atSlot rfl (Or.inl (by simp [exoActivate, ExoOp.queue]))

end Subscriptions

/-- The user queues a subscription, or makes no op a subscription that was none before. -/
theorem call_subscriptions {action : UserCall} {after : Sys} (other : action.operation sys = [])
    (called : call sys action = .ok after) :
    (∃ slot aliasPtr valuePtr valueMax op,
      action = .subscribe slot aliasPtr valuePtr valueMax ∧ sys.ops[slot]? = some op ∧
        after.ops = sys.ops.set slot (exoSubscribe op aliasPtr valuePtr valueMax)) ∨
    action.history sys older = older ∧
      KeepsSubscriptions (fun op next => next = op ∨ next = { op with state := .subscribed })
        sys after := by
  have refl : ∀ op : ExoOp, op = op ∨ op = { op with state := .subscribed } :=
    fun _ => Or.inl rfl
  cases action with
  | operate => cases other
  | init env vendor model serial =>
      cases called
      exact Or.inr ⟨rfl, .of_ops refl (exoInit_frame env vendor model serial sys).1⟩
  | memory =>
      cases called
      exact Or.inr ⟨rfl, .of_ops refl rfl⟩
  | subscribe slot aliasPtr valuePtr valueMax =>
      obtain ⟨op, found, same⟩ := Exec.bind_eq_ok.mp called
      cases same
      exact Or.inl ⟨slot, aliasPtr, valuePtr, valueMax, op, rfl, opAt_eq_ok found, rfl⟩
  | write slot =>
      obtain ⟨op, found, same⟩ := Exec.bind_eq_ok.mp called
      cases same
      refine Or.inr ⟨rfl, .setOp refl (opAt_eq_ok found) rfl (Or.inl ?_)⟩
      simp [exoWrite, ExoOp.queue]
  | read slot =>
      obtain ⟨op, found, same⟩ := Exec.bind_eq_ok.mp called
      cases same
      refine Or.inr ⟨rfl, .setOp refl (opAt_eq_ok found) rfl (Or.inl ?_)⟩
      simp [exoRead, ExoOp.queue]
  | opInit slot =>
      obtain ⟨op, found, same⟩ := Exec.bind_eq_ok.mp called
      cases same
      refine Or.inr ⟨rfl, .setOp refl (opAt_eq_ok found) rfl (Or.inl ?_)⟩
      simp [exoOpInit]
  | opDone slot =>
      obtain ⟨op, found, same⟩ := Exec.bind_eq_ok.mp called
      cases same
      refine Or.inr ⟨rfl, .setOp refl (opAt_eq_ok found) rfl ?_⟩
      unfold exoOpDone
      split_ifs
      · exact Or.inr (Or.inr rfl)
      · exact Or.inl (by simp [exoOpInit])

/-! ## The induction -/

section Rule

variable {holds : Happening → List Happening → Prop} {inv : Sys → List Happening → Prop}
  {source : Arrival → Prop} {sys : Sys} {older : List Happening}

/-- The history of a part of a run, and the state it leads to if there is one. -/
def Keeps (holds : Happening → List Happening → Prop) (inv : Sys → List Happening → Prop)
    (happened : List Happening) (result : Exec Sys) : Prop :=
  EachEntry holds happened ∧ ∀ after, result = .ok after → inv after happened

variable (rule : HistoryRule holds inv source)

include rule

theorem HistoryRule.waiting {datagrams : List Received} (each : EachEntry holds older)
    (start : inv sys older) (sources : ∀ arrival ∈ waitingArrivals sys datagrams, source arrival) :
    Keeps holds inv (((waitingArrivals sys datagrams).map .received).reverse ++ older)
      (exoProcessWaitingDatagrams sys datagrams) := by
  induction datagrams generalizing sys older with
  | nil =>
      refine ⟨each, fun after ran => ?_⟩
      cases ran
      exact start
  | cons rx rest ih =>
      have isSource : source ⟨sys, rx⟩ := sources ⟨sys, rx⟩ (by simp [waitingArrivals])
      obtain ⟨newest, later⟩ := @HistoryRule.received _ _ _ rule ⟨sys, rx⟩ older isSource start
      rw [waitingArrivals, exoProcessWaitingDatagrams] at *
      cases ran : exoHandleDatagram rx sys with
      | error trap =>
          refine ⟨by simpa using each.cons newest, ?_⟩
          rintro after ⟨⟩
      | ok result =>
          obtain ⟨goOn, next⟩ := result
          rw [ran] at sources
          cases goOn with
          | false =>
              refine ⟨by simpa using each.cons newest, ?_⟩
              rintro after ⟨⟩
              simpa using later false next ran
          | true =>
              have kept := ih (each.cons newest) (later true next ran)
                (fun arrival member => sources arrival (List.mem_cons_of_mem _ member))
              simpa using kept

theorem HistoryRule.active {now : UInt64} {envs : Nat → SlotEnv} {left i : Nat}
    (each : EachEntry holds older) (start : inv sys older) :
    Keeps holds inv (activeHistory now envs sys older left i)
      (exoActiveLoop now envs sys left i) := by
  induction left generalizing sys older i with
  | zero =>
      refine ⟨each, fun after ran => ?_⟩
      cases ran
      exact start
  | succ left ih =>
      rw [activeHistory, exoActiveLoop]
      cases atSlot : sys.ops[i]? with
      | none =>
          refine ⟨each, ?_⟩
          rintro after ⟨⟩
      | some op =>
          dsimp only
          cases processed : exoProcessOp now (envs i) sys i op with
          | error trap =>
              refine ⟨each, ?_⟩
              rintro after ⟨⟩
          | ok next =>
              obtain ⟨entries, later⟩ := rule.processed atSlot processed start
              rw [Exec.ok_bind]
              refine ih ?_ later
              obtain none | ⟨datagram, sent⟩ := observeRequest_cases (envs i) i op next
              · rw [none]
                exact each
              · rw [sent] at entries ⊢
                exact each.cons (entries _ List.mem_cons_self)

theorem HistoryRule.operated {env : OperateEnv} (each : EachEntry holds older)
    (start : inv sys older)
    (sources : ∀ arrival ∈ Operation.arrivals ⟨sys, env⟩, source arrival) :
    Keeps holds inv (Operation.history ⟨sys, env⟩ older)
      ((exoOperate env sys).map (·.2)) := by
  unfold Operation.history Operation.arrivals at *
  split_ifs at * with off
  · refine ⟨each, fun after ran => ?_⟩
    rw [exoOperate, off] at ran
    cases ran
    exact start
  · dsimp only at *
    cases isReady : exoReady env.time sys with
    | error trap =>
        refine ⟨each, fun after ran => ?_⟩
        obtain ⟨⟨state, result⟩, ran, -⟩ := Exec.map_eq_ok.mp ran
        obtain ⟨impossible, -⟩ | ⟨-, ready, received, same, -⟩ := exoOperate_parts ran
        · exact absurd impossible off
        · rw [isReady] at same
          cases same
    | ok ready =>
        rw [isReady] at sources
        obtain ⟨right, later⟩ := rule.waiting each (rule.ready isReady start) sources
        rw [Exec.ok_bind]
        cases waiting : exoProcessWaitingDatagrams ready env.datagrams with
        | error trap =>
            refine ⟨right, fun after ran => ?_⟩
            obtain ⟨⟨state, result⟩, ran, -⟩ := Exec.map_eq_ok.mp ran
            obtain ⟨impossible, -⟩ | ⟨-, other, received, same, impossible, -⟩ :=
              exoOperate_parts ran
            · exact absurd impossible off
            · rw [isReady] at same
              cases same
              rw [waiting] at impossible
              cases impossible
        | ok received =>
            obtain ⟨entries, final⟩ := @HistoryRule.active _ _ _ _ _ rule env.now env.slots
              received.ops.length 0 right (later received waiting)
            refine ⟨entries, fun after ran => ?_⟩
            obtain ⟨⟨state, result⟩, operated, rfl⟩ := Exec.map_eq_ok.mp ran
            obtain ⟨impossible, -⟩ | ⟨-, other, found, same, isFound, active⟩ :=
              exoOperate_parts operated
            · exact absurd impossible off
            · rw [isReady] at same
              cases same
              rw [waiting] at isFound
              cases isFound
              exact final result active

theorem HistoryRule.ofCall {action : UserCall} (each : EachEntry holds older)
    (start : inv sys older)
    (sources : ∀ operation ∈ action.operation sys, ∀ arrival ∈ operation.arrivals, source arrival) :
    Keeps holds inv (action.history sys older) (call sys action) := by
  have user : action.operation sys = [] →
      ∀ after, call sys action = .ok after → inv after (action.history sys older) :=
    fun other after called => rule.called other called start
  cases action with
  | operate env =>
      obtain ⟨entries, final⟩ := rule.operated each start (sources ⟨sys, env⟩ List.mem_cons_self)
      refine ⟨entries, fun after called => final after ?_⟩
      obtain ⟨result, operated, same⟩ := Exec.bind_eq_ok.mp called
      cases same
      exact Exec.map_eq_ok.mpr ⟨result, operated, rfl⟩
  | subscribe slot => exact ⟨each.cons (rule.subscribed slot older), user rfl⟩
  | _ => exact ⟨each, user rfl⟩

/-- Every entry of the history is as it should be, and so is the state that the run leads
to. -/
theorem HistoryRule.run {calls : List UserCall} (each : EachEntry holds older)
    (start : inv sys older) (sources : ∀ arrival ∈ arrivals sys calls, source arrival) :
    Keeps holds inv (history sys older calls) (run sys calls) := by
  induction calls generalizing sys older with
  | nil =>
      refine ⟨each, fun after ran => ?_⟩
      cases ran
      exact start
  | cons first rest ih =>
      obtain ⟨entries, later⟩ := rule.ofCall each start fun operation isOperation arrival member =>
        sources arrival (List.mem_flatMap.mpr
          ⟨operation, List.mem_append_left _ isOperation, member⟩)
      rw [history, ExositeCoap.Exosite.run]
      cases called : call sys first with
      | error trap =>
          refine ⟨entries, ?_⟩
          rintro after ⟨⟩
      | ok next =>
          refine ih entries (later next called) fun arrival member => sources arrival ?_
          rw [arrivals, operations, called, List.flatMap_append]
          exact List.mem_append_right _ member

end Rule

end ExositeCoap.Exosite
