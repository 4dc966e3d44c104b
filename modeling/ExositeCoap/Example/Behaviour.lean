import ExositeCoap.Example.Running
import ExositeCoap.Exosite.Failure
import ExositeCoap.Exosite.Value

/-!
# What the example program does

The program is a run of the library, and none of its calls traps.  It sends nothing but what
its slots are for, and every line that it prints has its reason in the datagrams of the run
(`mainRun_behaves`).
-/

namespace ExositeCoap.Example

open Lib Wire Coap Exosite

/-! ## Lines -/

/-- What speaks for a line, given the calls of `exo_operate` so far. -/
inductive Evidence (places : Places) (seen : List Operation) : Line → Prop where
  /-- a datagram brought the command -/
  | got {arrival : Arrival} {op : ExoOp} {bytes : List UInt8}
      (member : arrival ∈ seen.flatMap Operation.arrivals) (brings : arrival.Brings 1 op bytes) :
      Evidence places seen (.got commandText (bytes.takeWhile fun byte => byte ≠ 0))
  /-- a write was answered, and only this value had gone out for it -/
  | set {slot : Nat} {duty : Duty} {arrival : Arrival} {op : ExoOp} {text : List UInt8}
      (isDuty : places.duty slot = some duty) (isWrite : duty.type = .write)
      (value : duty.values text) (member : arrival ∈ seen.flatMap Operation.arrivals)
      (succeeds : arrival.Succeeds slot op)
      (asks : ∀ request datagram, (request, datagram) ∈ exchanged slot arrival.before.log →
        duty.Asks request ∧ request.valueText = text) :
      Evidence places seen (.set duty.aliasText text)
  | failed {slot : Nat} {duty : Duty} {arrival : Arrival} {op : ExoOp}
      (isDuty : places.duty slot = some duty) (member : arrival ∈ seen.flatMap Operation.arrivals)
      (atSlot : arrival.before.ops[slot]? = some op) (fails : arrival.Fails op) :
      Evidence places seen (.error duty.aliasText 0)
  /-- only writes are given up -/
  | gaveUp {slot : Nat} {duty : Duty} {operation : Operation} {turn : Sys}
      (isDuty : places.duty slot = some duty) (isWrite : duty.type = .write)
      (member : operation ∈ seen) (givesUp : GivesUp slot operation turn) :
      Evidence places seen (.error duty.aliasText 0)

theorem Evidence.mono {places : Places} {seen more : List Operation} {line : Line}
    (evidence : Evidence places seen line) : Evidence places (seen ++ more) line := by
  have grown : seen.flatMap Operation.arrivals ⊆ (seen ++ more).flatMap Operation.arrivals := by
    rw [List.flatMap_append]
    exact List.subset_append_left _ _
  cases evidence with
  | got member brings => exact .got (grown member) brings
  | set isDuty isWrite value member succeeds asks =>
      exact .set isDuty isWrite value (grown member) succeeds asks
  | failed isDuty member atSlot fails => exact .failed isDuty (grown member) atSlot fails
  | gaveUp isDuty isWrite member givesUp =>
      exact .gaveUp isDuty isWrite (List.mem_append_left _ member) givesUp

/-! ## Calls of the library -/

/-- The buffer of the subscription belongs to its slot. -/
def Places.owner (places : Places) (address : Nat) : Option Nat :=
  if places.readStr ≤ address ∧ address < places.readStr + 32 then some 1 else none

/-- The program has got to this state by these calls. -/
structure History (places : Places) (heap : Mem) (seen : List Operation)
    (calls : List UserCall) (sys : Sys) : Prop where
  ran : run (powerOn opCount heap) calls = .ok sys
  operated : operations (powerOn opCount heap) calls = seen
  tidy : TidyRun places.owner (powerOn opCount heap) calls
  spared : ∀ arrival ∈ seen.flatMap Operation.arrivals, ∀ address, ¬ arrival.Strays address
  once : sys.log.count .initialised ≤ 1

section Calls

variable {places : Places} {heap : Mem} {seen : List Operation} {calls : List UserCall}
  {sys after : Sys}

theorem History.arrivals (history : History places heap seen calls sys) :
    arrivals (powerOn opCount heap) calls = seen.flatMap Operation.arrivals :=
  congrArg _ history.operated

theorem History.concat (history : History places heap seen calls sys) {action : UserCall}
    (called : call sys action = .ok after) (tidy : action.Tidy places.owner sys)
    (spared : ∀ arrival ∈ (action.operation sys).flatMap Operation.arrivals, ∀ address,
      ¬ arrival.Strays address)
    (once : after.log.count .initialised = sys.log.count .initialised) :
    History places heap (seen ++ action.operation sys) (calls ++ [action]) after := by
  refine ⟨run_concat history.ran called, by rw [operations_concat history.ran, history.operated],
    history.tidy.concat history.ran tidy, ?_, once ▸ history.once⟩
  rw [List.flatMap_append]
  exact List.forall_mem_append.mpr ⟨history.spared, spared⟩

/-- A call that is not one of `exo_operate`. -/
theorem History.other (history : History places heap seen calls sys) {action : UserCall}
    (called : call sys action = .ok after) (tidy : action.Tidy places.owner sys)
    (quiet : action.operation sys = [])
    (once : after.log.count .initialised = sys.log.count .initialised) :
    History places heap seen (calls ++ [action]) after := by
  have next := history.concat called tidy (by simp [quiet]) once
  rwa [quiet, List.append_nil] at next

end Calls

/-! ## The program -/

/-- What is true of the program whenever it calls the library or has returned from it. -/
structure Behaves (places : Places) (heap : Mem) (seen : List Operation)
    (calls : List UserCall) (main : Main) : Prop where
  history : History places heap seen calls main.sys
  running : Running places main.sys
  errorcount : main.errorcount = 0
  output : ∀ line ∈ main.output, Evidence places seen line

section Program

variable {places : Places} {heap : Mem} {seen : List Operation} {calls : List UserCall}
  {main : Main} {slot : Nat} {duty : Duty} {op : ExoOp}

/-- A number is printed and queued to be written. -/
theorem Behaves.write (behaves : Behaves places heap seen calls main)
    (isDuty : places.duty slot = some duty) (isWrite : duty.type = .write) {number : UInt64}
    (value : duty.values ((decimal number).take 14)) :
    ∃ printed middle sys more, printNumber main.sys.heap duty.valuePtr number = .ok printed ∧
      call main.sys (.memory printed) = .ok middle ∧
      call middle (.write slot duty.aliasPtr duty.valuePtr) = .ok sys ∧
      Behaves places heap seen more { main with sys } := by
  obtain ⟨printed, sys, isPrinted, outside, called, running⟩ :=
    behaves.running.write isDuty isWrite value
  have stored : call main.sys (.memory printed) = .ok { main.sys with heap := printed } := rfl
  have tidy : ∀ address, places.owner address ≠ none →
      printed[address]? = main.sys.heap[address]? := by
    intro address owned
    unfold Places.owner at owned
    split_ifs at owned with inside
    · exact outside address inside.1 inside.2
    · exact absurd rfl owned
  have once : sys.log.count .initialised = main.sys.log.count .initialised := by
    obtain ⟨found, -, same⟩ := Exec.bind_eq_ok.mp called
    cases same
    simp
  have first := behaves.history.other stored tidy rfl rfl
  exact ⟨printed, _, sys, _, isPrinted, stored, called, first.other called trivial rfl once,
    running, behaves.errorcount, behaves.output⟩

theorem Behaves.queueUptime (behaves : Behaves places heap seen calls main) :
    ∃ after more, queueUptime places main = .ok after ∧ Behaves places heap seen more after := by
  unfold Example.queueUptime
  split_ifs with hundred
  · obtain ⟨printed, middle, sys, more, isPrinted, stored, called, next⟩ :=
      @Behaves.write _ _ _ _ _ 2 _ behaves rfl rfl _ ⟨main.loopcount, hundred, rfl⟩
    have isPrinted : printNumber main.sys.heap places.loopStr main.loopcount = .ok printed :=
      isPrinted
    have called : call middle (.write 2 places.uptime places.loopStr) = .ok sys := called
    refine ⟨_, more, ?_, next⟩
    rw [isPrinted, Exec.ok_bind, stored, Exec.ok_bind, called]
    rfl
  · exact ⟨main, calls, rfl, behaves⟩

/-- The reason of the line about an op that has succeeded. -/
theorem Behaves.succeeded (behaves : Behaves places heap seen calls main) (later : 1 ≤ slot)
    (atSlot : main.sys.ops[slot]? = some op) (success : op.state = .success) :
    ∃ aliasText valueText, cString main.sys.heap op.aliasPtr = .ok aliasText ∧
      cString main.sys.heap op.valuePtr = .ok valueText ∧
      (op.type = .subscribe ∧
        Evidence places seen (.got aliasText valueText) ∨
      op.type = .write ∧
        Evidence places seen (.set aliasText valueText)) := by
  have some : op.type ≠ .null := by
    intro null
    have state := (behaves.running.typed atSlot).null.mp null
    simp [success] at state
  obtain ⟨duty, isDuty, fills, asks⟩ := behaves.running.later slot op later atSlot some
  have aliasText := behaves.running.ready.aliasText isDuty
  rw [← fills.aliasPtr] at aliasText
  have isType := fills.type
  obtain ⟨rfl, rfl⟩ | ⟨-, isWrite, -⟩ := duty_type isDuty
  · have subscribe : op.type = .subscribe := isType
    obtain ⟨arrival, member, bytes, brings, loaded, -⟩ :=
      run_delivered behaves.history.ran behaves.history.tidy
        (by
          rw [behaves.history.arrivals]
          exact fun arrival member address _ => behaves.history.spared arrival member address)
        1 op later atSlot ⟨Or.inr subscribe, Or.inl success⟩
    rw [behaves.history.arrivals] at member
    exact ⟨commandText, _, aliasText, cString_of_slice brings.place loaded,
      Or.inl ⟨subscribe, .got member brings⟩⟩
  · obtain ⟨text, isText, value⟩ := fills.value isWrite
    obtain ⟨arrival, member, succeeds, grown⟩ := run_evident behaves.history.ran slot op later
      atSlot (Or.inr (isType.trans isWrite)) success
    rw [behaves.history.arrivals] at member
    refine ⟨duty.aliasText, text, aliasText, fills.valuePtr ▸ isText,
      Or.inr ⟨isType.trans isWrite, .set isDuty isWrite value member succeeds ?_⟩⟩
    intro request datagram earlier
    obtain ⟨asked, isValue⟩ := asks request datagram (grown earlier)
    exact ⟨asked, Except.ok.inj ((isValue isWrite).symm.trans isText)⟩

/-- The reason of the line about an op that has failed. -/
theorem Behaves.failed (behaves : Behaves places heap seen calls main) (later : 1 ≤ slot)
    (atSlot : main.sys.ops[slot]? = some op) (error : op.state = .error) :
    ∃ aliasText, cString main.sys.heap op.aliasPtr = .ok aliasText ∧
      Evidence places seen (.error aliasText 0) := by
  have some : op.type ≠ .null := by
    intro null
    have state := (behaves.running.typed atSlot).null.mp null
    simp [error] at state
  obtain ⟨duty, isDuty, fills, -⟩ := behaves.running.later slot op later atSlot some
  have aliasText := behaves.running.ready.aliasText isDuty
  rw [← fills.aliasPtr] at aliasText
  refine ⟨duty.aliasText, aliasText, ?_⟩
  obtain ⟨arrival, member, old, isOld, -, fails⟩ |
    ⟨answerable, operation, member, turn, old, isOld, -, givesUp⟩ :=
      run_accounted behaves.history.ran slot op later atSlot error
  · rw [behaves.history.arrivals] at member
    exact .failed isDuty member isOld fails
  · rw [behaves.history.operated] at member
    obtain ⟨-, rfl⟩ | ⟨-, isWrite, -⟩ := duty_type isDuty
    · have subscribe : op.type = .subscribe := fills.type
      rcases answerable with other | other <;> simp [subscribe] at other
    · exact .gaveUp isDuty isWrite member givesUp

/-- One more line. -/
theorem Behaves.print (behaves : Behaves places heap seen calls main) {line : Line}
    (evidence : Evidence places seen line) :
    Behaves places heap seen calls { main with output := line :: main.output } :=
  ⟨behaves.history, behaves.running, behaves.errorcount, fun other member =>
    (List.mem_cons.mp member).elim (fun same => same ▸ evidence) (behaves.output other)⟩

theorem Behaves.reportOp (behaves : Behaves places heap seen calls main) (later : 1 ≤ slot)
    (atSlot : main.sys.ops[slot]? = some op) (finished : exoIsOpFinished op = true) :
    ∃ after more, reportOp places main op = .ok after ∧ Behaves places heap seen more after := by
  unfold Example.reportOp
  by_cases success : op.state = .success
  · obtain ⟨aliasText, valueText, isAlias, isValue, ⟨type, evidence⟩ | ⟨type, evidence⟩⟩ :=
      behaves.succeeded later atSlot success
    · refine ⟨_, calls, ?_, behaves.print evidence⟩
      rw [if_pos success, if_pos (Or.inr type), isAlias, Exec.ok_bind, isValue]
      rfl
    · refine ⟨_, calls, ?_, behaves.print evidence⟩
      rw [if_pos success, if_neg (by simp [type]), if_pos type, isAlias, Exec.ok_bind, isValue]
      rfl
  · have error : op.state = .error := by
      simpa [exoIsOpFinished, success] using finished
    obtain ⟨aliasText, isAlias, evidence⟩ := behaves.failed later atSlot error
    rw [← behaves.errorcount] at evidence
    have isDuty : places.duty 3 = some places.errorcountDuty := rfl
    obtain ⟨printed, middle, sys, more, isPrinted, stored, called, next⟩ :=
      @Behaves.write _ _ _ _ _ 3 _ (behaves.print evidence) isDuty rfl main.errorcount (by
        rw [behaves.errorcount]
        rfl)
    have isPrinted : printNumber main.sys.heap places.errorStr main.errorcount = .ok printed :=
      isPrinted
    have stored : call main.sys (.memory printed) = .ok middle := stored
    have called : call middle (.write 3 places.errorcount places.errorStr) = .ok sys := called
    refine ⟨_, more, ?_, next⟩
    rw [if_neg success, isAlias, Exec.ok_bind, isPrinted, Exec.ok_bind, stored, Exec.ok_bind, called]
    rfl

theorem Behaves.checkOp (behaves : Behaves places heap seen calls main) (later : 1 ≤ slot)
    (inRange : slot < opCount) :
    ∃ after more, checkOp places main slot = .ok after ∧ Behaves places heap seen more after := by
  obtain ⟨op, found, atSlot⟩ := @opAt_returns main.sys slot (by
    rw [behaves.running.count]
    exact inRange)
  unfold Example.checkOp
  rw [found, Exec.ok_bind]
  by_cases finished : exoIsOpFinished op = true
  · obtain ⟨reported, more, isReported, next⟩ := behaves.reportOp later atSlot finished
    obtain ⟨sys, called, running⟩ := next.running.opDone later inRange
    have once : sys.log.count .initialised = reported.sys.log.count .initialised := by
      obtain ⟨found, -, same⟩ := Exec.bind_eq_ok.mp called
      cases same
      simp
    refine ⟨{ reported with sys }, _, ?_, next.history.other called trivial rfl once, running,
      next.errorcount, next.output⟩
    rw [if_pos finished, isReported, Exec.ok_bind, called]
    rfl
  · exact ⟨main, calls, if_neg finished, behaves⟩

theorem Behaves.checkOps {left : Nat} (behaves : Behaves places heap seen calls main)
    (later : 1 ≤ slot) (inRange : slot + left = opCount) :
    ∃ after more, checkOps places main left slot = .ok after ∧
      Behaves places heap seen more after := by
  induction left generalizing slot calls main with
  | zero => exact ⟨main, calls, rfl, behaves⟩
  | succ left ih =>
      obtain ⟨next, some, checked, before⟩ := @Behaves.checkOp _ _ _ _ _ slot behaves later
        (by omega)
      obtain ⟨after, more, ran, rest⟩ := ih before (show 1 ≤ slot + 1 by omega) (by omega)
      exact ⟨after, more, by rw [Example.checkOps, checked, Exec.ok_bind]; exact ran, rest⟩

/-- One call of `exo_operate`, and what the program does about it. -/
theorem Behaves.step (behaves : Behaves places heap seen calls main) {env : OperateEnv}
    (orderly : ∀ rx ∈ env.datagrams, Orderly rx) :
    ∃ after more, mainStep places env main = .ok after ∧
      Behaves places heap (seen ++ [⟨main.sys, env⟩]) more after := by
  obtain ⟨state, sys, operated, running⟩ := behaves.running.operate orderly
  have called : call main.sys (.operate env) = .ok sys := by
    rw [call, operated, Exec.ok_bind]
    rfl
  have once : sys.log.count .initialised = main.sys.log.count .initialised := by
    have steps := (exoOperate_steps operated).1
    clear operated called running
    induction steps with
    | refl => rfl
    | tail _ step ih => exact step.count_initialised.trans ih
  have spared : ∀ arrival ∈ [(⟨main.sys, env⟩ : Operation)].flatMap Operation.arrivals,
      ∀ address, ¬ arrival.Strays address := by
    intro arrival member address
    rw [List.flatMap_singleton] at member
    obtain ⟨on, steps⟩ := Operation.arrivals_reached member
    exact (LibSteps.laid steps.libSteps on behaves.running.laid).1.not_strays
  have next : Behaves places heap (seen ++ [⟨main.sys, env⟩]) (calls ++ [.operate env])
      { main with sys } :=
    ⟨behaves.history.concat called trivial spared once, running, behaves.errorcount,
      fun line member => (behaves.output line member).mono⟩
  unfold mainStep
  rw [operated, Exec.ok_bind]
  dsimp only
  split_ifs
  · exact ⟨_, _, rfl, next⟩
  · obtain ⟨checked, more, isChecked, after⟩ :=
      @Behaves.checkOps _ _ _ _ _ 1 (opCount - 1) next (Nat.le_refl 1) rfl
    have counted : Behaves places heap (seen ++ [⟨main.sys, env⟩]) more
        { checked with loopcount := checked.loopcount + 1 } :=
      ⟨after.history, after.running, after.errorcount, after.output⟩
    rw [isChecked, Exec.ok_bind]
    exact counted.queueUptime

theorem Behaves.loop {later : List OperateEnv} (behaves : Behaves places heap seen calls main)
    (orderly : ∀ env ∈ later, ∀ rx ∈ env.datagrams, Orderly rx) :
    ∃ after more, mainLoop places main later = .ok after ∧
      Behaves places heap (seen ++ mainOperations places main later) more after := by
  induction later generalizing seen calls main with
  | nil =>
      rw [mainOperations, List.append_nil]
      exact ⟨main, calls, rfl, behaves⟩
  | cons env rest ih =>
      obtain ⟨next, some, stepped, before⟩ := behaves.step (orderly env List.mem_cons_self)
      obtain ⟨after, more, ran, final⟩ :=
        ih before fun other member => orderly other (List.mem_cons_of_mem _ member)
      rw [List.append_assoc, List.singleton_append] at final
      refine ⟨after, more, by rw [mainLoop, stepped, Exec.ok_bind]; exact ran, ?_⟩
      rw [mainOperations, stepped]
      exact final

/-- The program starts with a call of `exo_init`. -/
theorem History.init {env : InitEnv} {vendor model serial : Nat} {sys : Sys}
    (called : call (powerOn opCount heap) (.init env vendor model serial) = .ok sys)
    (once : sys.log.count .initialised ≤ 1) :
    History places heap [] [.init env vendor model serial] sys := by
  have empty : TidyRun places.owner (powerOn opCount heap) [] := by
    intro front action back _ split
    have length := congrArg List.length split
    rw [List.length_append, List.length_cons, List.length_nil] at length
    omega
  exact ⟨@run_concat _ _ [] _ _ rfl called, rfl, empty.concat rfl trivial, by simp, once⟩

/-- `exo_op_init` for an op that is like this already. -/
theorem opInit_fresh {sys : Sys} (fresh : sys.ops = List.replicate opCount exoOpInit)
    (inRange : slot < opCount) : call sys (.opInit slot) = .ok sys := by
  obtain ⟨op, found, -⟩ := @opAt_returns sys slot (by rw [fresh]; exact inRange)
  have same : sys.setOp slot exoOpInit = sys := by
    rw [Sys.setOp, fresh, List.set_replicate_self, ← fresh]
  rw [call, found, Exec.ok_bind, same]
  rfl

theorem History.opInits {slots : List Nat} {sys : Sys}
    (history : History places heap seen calls sys)
    (fresh : sys.ops = List.replicate opCount exoOpInit) (inRange : ∀ slot ∈ slots, slot < opCount) :
    History places heap seen (calls ++ slots.map .opInit) sys := by
  induction slots generalizing calls with
  | nil =>
      rw [List.map_nil, List.append_nil]
      exact history
  | cons slot slots ih =>
      have called := opInit_fresh fresh (inRange slot List.mem_cons_self)
      have next := ih (history.other called trivial rfl rfl) fun other member =>
        inRange other (List.mem_cons_of_mem _ member)
      rwa [List.append_assoc, List.singleton_append] at next

/-- The program up to its first call of `exo_operate`. -/
theorem behaves_start (ready : places.Ready heap) (env : InitEnv) :
    ∃ main calls, mainStart places env heap = .ok main ∧
      Behaves places heap [] calls main := by
  have running := running_init ready env
  have called : call (powerOn opCount heap) (.init env places.vendor places.model places.serial) =
      .ok (exoInit env places.vendor places.model places.serial (powerOn opCount heap)).2 := rfl
  have fresh := (exoInit_frame env places.vendor places.model places.serial
    (powerOn opCount heap)).1
  have once : (exoInit env places.vendor places.model places.serial
      (powerOn opCount heap)).2.log.count .initialised ≤ 1 := by
    unfold exoInit
    dsimp only
    split_ifs <;> simp [powerOn]
  have begun : History places heap [] _ _ := .init called once
  have history := @History.opInits _ _ _ _ [0, 1, 2, 3] _ begun fresh (by decide)
  obtain ⟨sys, subscribed, started⟩ := running.subscribe
  have final := history.other subscribed
    ⟨by decide, fun address _ lower upper => if_pos ⟨lower, upper⟩⟩ rfl (by
      obtain ⟨found, -, same⟩ := Exec.bind_eq_ok.mp subscribed
      cases same
      simp)
  obtain ⟨main, more, queued, behaves⟩ :=
    @Behaves.queueUptime places heap [] _ ⟨sys, 0, 0, []⟩ ⟨final, started, rfl, by simp⟩
  refine ⟨main, more, ?_, behaves⟩
  have ran : run (powerOn opCount heap) [.init env places.vendor places.model places.serial,
      .opInit 0, .opInit 1, .opInit 2, .opInit 3,
      .subscribe 1 places.command places.readStr 32] = .ok sys := final.ran
  rw [mainStart, ran, Exec.ok_bind]
  exact queued

theorem mainRun_returns (ready : places.Ready heap) (env : InitEnv) {envs : List OperateEnv}
    (orderly : ∀ env ∈ envs, ∀ rx ∈ env.datagrams, Orderly rx) :
    ∃ main calls, mainRun places env heap envs = .ok main ∧
      Behaves places heap (mainSeen places env heap envs) calls main := by
  obtain ⟨first, calls, started, before⟩ := behaves_start ready env
  obtain ⟨main, more, looped, behaves⟩ := before.loop orderly
  refine ⟨main, more, by rw [mainRun, started, Exec.ok_bind]; exact looped, ?_⟩
  rw [mainSeen, started]
  exact behaves

end Program

/-! ## The results -/

/-- As long as the datagrams are orderly, the program never traps, whatever else the platform
answers, and is a run of the library with the same calls of `exo_operate`.  It sends nothing
but what its slots are for, and there is a reason for every line that it prints. -/
theorem mainRun_behaves {places : Places} {heap : Mem} (ready : places.Ready heap) (env : InitEnv)
    {envs : List OperateEnv} (orderly : ∀ env ∈ envs, ∀ rx ∈ env.datagrams, Orderly rx) :
    ∃ main, mainRun places env heap envs = .ok main ∧
      (∃ calls, run (powerOn opCount heap) calls = .ok main.sys ∧
        operations (powerOn opCount heap) calls = mainSeen places env heap envs) ∧
      (∀ slot first request datagram ok,
        Event.sent (.request slot first request) datagram ok ∈ main.sys.log →
          places.Meant slot request) ∧
      ∀ line ∈ main.output, Evidence places (mainSeen places env heap envs) line := by
  obtain ⟨main, calls, ran, behaves⟩ := mainRun_returns ready env orderly
  exact ⟨main, ran, ⟨calls, behaves.history.ran, behaves.history.operated⟩, behaves.running.meant,
    behaves.output⟩

/-- The constants one behind the other from address 1 on, then the arrays. -/
def quietPlaces : Places := ⟨1, 9, 22, 26, 34, 41, 52, 84, 100⟩

def quietMemory : Mem :=
  quietPlaces.literals.foldr (fun literal rest => literal.2 ++ 0 :: rest) (List.replicate 64 0)
    |> List.cons 0

theorem quietPlaces_ready : quietPlaces.Ready quietMemory where
  literals := by decide +kernel
  arrays := by
    intro slot duty isDuty
    obtain ⟨-, rfl⟩ | ⟨-, rfl⟩ | ⟨-, rfl⟩ := duty_cases isDuty <;> decide +kernel
  apart := by
    intro literal member slot duty isDuty
    revert literal
    obtain ⟨-, rfl⟩ | ⟨-, rfl⟩ | ⟨-, rfl⟩ := duty_cases isDuty <;> decide +kernel
  disjoint := by
    intro i j left right different isLeft isRight
    obtain ⟨rfl, rfl⟩ | ⟨rfl, rfl⟩ | ⟨rfl, rfl⟩ := duty_cases isLeft <;>
      obtain ⟨rfl, rfl⟩ | ⟨rfl, rfl⟩ | ⟨rfl, rfl⟩ := duty_cases isRight <;>
      first | exact absurd rfl different | decide +kernel

/-- The platform answers for the activation, the subscription and the write. -/
def quietAnswers : List (List UInt8) :=
  [[0x60, 0x45, 0, 7, 0xFF] ++ List.replicate 40 0x61, [0x60, 0x45, 0, 8, 0x60, 0xFF, 0x78],
    [0x60, 0x44, 0, 9]]

def quietEnvs : List OperateEnv :=
  [[], quietAnswers].map fun datagrams =>
    ⟨10, datagrams.map arrives, 10, fun _ => ⟨quietBuffer [], 0x2211, true, 10, 0⟩⟩

def quietInitEnv : InitEnv := ⟨true, 7, 0, List.replicate 41 0x31, rfl, true⟩

theorem quietEnvs_orderly : ∀ env ∈ quietEnvs, ∀ rx ∈ env.datagrams, Orderly rx := by
  have activated : Orderly (arrives ([0x60, 0x45, 0, 7, 0xFF] ++ List.replicate 40 0x61)) :=
    orderly_arrives ⟨.ack, 0x45, 7, [], [], some (List.replicate 40 0x61)⟩ rfl (by decide)
      ⟨by decide, trivial⟩ (by simp) (Or.inr (Or.inl rfl))
  have subscribed : Orderly (arrives [0x60, 0x45, 0, 8, 0x60, 0xFF, 0x78]) :=
    orderly_arrives ⟨.ack, 0x45, 8, [], [⟨conObserve, []⟩], some [0x78]⟩ rfl (by decide)
      ⟨by decide, by decide, by decide, by decide, trivial⟩ (by simp [conObserve])
      (Or.inr (Or.inr ⟨_, List.mem_cons_self, Nat.le_refl _⟩))
  have written : Orderly (arrives [0x60, 0x44, 0, 9]) :=
    orderly_arrives ⟨.ack, 0x44, 9, [], [], none⟩ rfl (by decide) ⟨by decide, trivial⟩ (by simp)
      (Or.inl rfl)
  simp only [quietEnvs, quietAnswers, List.map_cons, List.map_nil, List.forall_mem_cons]
  exact ⟨by simp, ⟨activated, subscribed, written, by simp⟩, by simp⟩

/-- The program reports the command "x" and its first write, and there is a reason for both. -/
theorem mainRun_behaves_quiet : ∃ main,
    mainRun quietPlaces quietInitEnv quietMemory quietEnvs = .ok main ∧
      main.output = [.set uptimeText [0x30], .got commandText [0x78]] ∧
      ∀ line ∈ main.output,
        Evidence quietPlaces (mainSeen quietPlaces quietInitEnv quietMemory quietEnvs) line := by
  have computed : (mainRun quietPlaces quietInitEnv quietMemory quietEnvs).map Main.output =
      .ok [.set uptimeText [0x30], .got commandText [0x78]] := by decide +kernel
  obtain ⟨main, ran, output⟩ := Exec.map_eq_ok.mp computed
  obtain ⟨other, isOther, -, -, evidence⟩ :=
    mainRun_behaves quietPlaces_ready quietInitEnv quietEnvs_orderly
  rw [ran] at isOther
  cases isOther
  exact ⟨main, ran, output, evidence⟩

/-- A short request fits in a datagram. -/
theorem fits_of_short {request : Request} (aliasText : request.aliasText.length ≤ 100)
    (valueText : request.valueText.length ≤ 100) : request.Fits := by
  have ascending : Ascending 0 request.options := by
    unfold Request.options
    split_ifs
    · exact ⟨by decide, by decide, by decide, ascending_dataportOptions (by decide) (by omega)⟩
    · exact ascending_dataportOptions (by decide) (by omega)
  have length := encodeOptions_length_le ascending
  have cik : (request.cik.take cikLength).length ≤ 40 := by
    rw [List.length_take]
    exact Nat.min_le_left _ _
  have sum : (request.options.map fun option => 5 + option.value.length).sum ≤ 170 := by
    unfold Request.options dataportOptions
    split_ifs <;> simp only [List.map_cons, List.map_nil, List.sum_cons, List.sum_nil,
      List.length_cons, List.length_nil] <;> omega
  have payload : (Message.payloadBytes request.payload).length ≤ 101 := by
    unfold Request.payload Message.payloadBytes
    split_ifs <;> simp only [List.length_cons, List.length_nil] <;> omega
  unfold Request.Fits minimumDatagramSize
  omega

/-- If the datagrams are orderly, responses are served for datagrams that have gone out, and
fewer message ids are drawn than there are, the program says that a value is set only after a
whole write of this very value was served, with an answer of class 2. -/
theorem mainRun_sets {serves : List UInt8 → List UInt8 → Prop} {places : Places} {heap : Mem}
    (ready : places.Ready heap) {env : InitEnv} {envs : List OperateEnv}
    (orderly : ∀ env ∈ envs, ∀ rx ∈ env.datagrams, Orderly rx) {main : Main}
    (ran : mainRun places env heap envs = .ok main) (few : builtCount main.sys.log ≤ 65536)
    (honest : ∀ arrival ∈ (mainSeen places env heap envs).flatMap Operation.arrivals,
      arrival.Honest serves) {aliasText valueText : List UInt8}
    (printed : Line.set aliasText valueText ∈ main.output) :
    ∃ slot first request datagram, ∃ arrival ∈
      (mainSeen places env heap envs).flatMap Operation.arrivals,
      Event.sent (.request slot first request) datagram true ∈ main.sys.log ∧
        request.type = .write ∧ request.aliasText = aliasText ∧ request.valueText = valueText ∧
        Whole datagram request ∧ serves datagram arrival.rx.pdu.packet ∧
        coapGetCodeClass arrival.rx.pdu = .ok 2 := by
  obtain ⟨other, calls, isOther, behaves⟩ := mainRun_returns ready env orderly
  rw [ran] at isOther
  cases isOther
  cases behaves.output _ printed with
  | @set slot duty arrival op _ isDuty isWrite value member succeeds asks =>
      obtain ⟨pending, isPending, awaited, same⟩ := succeeds.awaited
      have inRun := member
      rw [← behaves.history.arrivals] at inRun
      obtain ⟨request, datagram, sent, -, whole, serving⟩ := answerTo_of_run behaves.history.ran
        behaves.history.once few inRun (honest arrival member) succeeds.isAck
        (duty_slot isDuty).1 isPending awaited
      obtain ⟨asked, isValue⟩ := asks request datagram sent
      have short : request.aliasText.length ≤ 100 := by
        rw [asked.aliasText]
        exact Nat.le_trans (duty_alias isDuty) (by decide)
      have room : request.valueText.length ≤ 100 :=
        Nat.le_trans (duty_length isDuty asked.value) (by decide)
      obtain ⟨first, logged⟩ := mem_of_exchanged sent
      have grown := (arrivals_rest behaves.history.ran inRun).log_suffix.subset
      exact ⟨slot, first, request, datagram, arrival, member, grown logged,
        asked.type.trans isWrite, asked.aliasText, isValue, whole (fits_of_short short room),
        serving, succeeds.success⟩

/-- The first write was served. -/
theorem mainRun_sets_quiet : ∃ main slot first request datagram,
    mainRun quietPlaces quietInitEnv quietMemory quietEnvs = .ok main ∧
      Event.sent (.request slot first request) datagram true ∈ main.sys.log ∧
      request.aliasText = uptimeText ∧ request.valueText = [0x30] ∧ Whole datagram request := by
  have computed : (mainRun quietPlaces quietInitEnv quietMemory quietEnvs).map (fun main =>
      (main.output, builtCount main.sys.log)) =
        .ok ([.set uptimeText [0x30], .got commandText [0x78]], 3) := by decide +kernel
  have served : (((mainSeen quietPlaces quietInitEnv quietMemory quietEnvs).flatMap
      Operation.arrivals).all fun arrival =>
        (requestsSent arrival.before.log).any fun datagram => [7, 8, 9].any fun mid =>
          coapGetMid ⟨1, datagram, datagram.length, datagram.length⟩ = .ok mid ∧
            coapGetMid arrival.rx.pdu = .ok mid ∧
            (datagram.drop 2).take 2 = (arrival.rx.pdu.packet.drop 2).take 2) = true := by
    decide +kernel
  obtain ⟨main, ran, values⟩ := Exec.map_eq_ok.mp computed
  simp only [Prod.mk.injEq] at values
  obtain ⟨output, few⟩ := values
  have honest : ∀ arrival ∈ (mainSeen quietPlaces quietInitEnv quietMemory quietEnvs).flatMap
      Operation.arrivals, arrival.Honest fun datagram packet =>
        (datagram.drop 2).take 2 = (packet.drop 2).take 2 := by
    intro arrival member _
    obtain ⟨datagram, sent, checked⟩ :=
      List.any_eq_true.mp (List.all_eq_true.mp served arrival member)
    obtain ⟨mid, -, same⟩ := List.any_eq_true.mp checked
    obtain ⟨carries, isMid, serving⟩ := of_decide_eq_true same
    exact ⟨datagram, sent, mid, carries, isMid, serving⟩
  obtain ⟨slot, first, request, datagram, arrival, -, sent, -, aliasText, valueText, whole, -⟩ :=
    mainRun_sets quietPlaces_ready quietEnvs_orderly ran (by omega) honest
      (by rw [output]; exact List.mem_cons_self)
  exact ⟨main, slot, first, request, datagram, ran, sent, aliasText, valueText, whole⟩

end ExositeCoap.Example
