import ExositeCoap.Exosite.Answer

/-!
# Devices with a file system

The platform layer for POSIX keeps the CIK in the file `cik`.  A device is the library
together with this file; when it loses power, only the file is left.  While storing and
reading works, the file holds the CIK that was installed last, in whatever session that was
(`device_remembers`).  Storing is no single step, though, and a device that has no file at all
never gets one (`device_silent`).
-/

namespace ExositeCoap.Exosite

open Lib Wire Coap

/-! ## The platform layer -/

/-- The contents of the file `cik`, if there is such a file. -/
abbrev CikFile := Option (List UInt8)

/-- What the system answers to `exopal_store_cik`. -/
structure StoreAnswer where
  /-- the file can be opened for writing, and is emptied -/
  opened : Bool
  /-- result of `fwrite` -/
  written : Nat
  /-- bytes that have reached the file when it is looked at next -/
  flushed : Nat
  flushed_le : flushed ≤ written

/-- `exopal_store_cik`; the file is only closed when all bytes were taken. -/
def exopalStoreCik (answer : StoreAnswer) (cik : List UInt8) (file : CikFile) : Nat × CikFile :=
  if !answer.opened then (2, file)
  else (if answer.written ≠ cikLength then 1 else 0, some ((cik.take cikLength).take answer.flushed))

/-- What the system answers to `exopal_retrieve_cik`. -/
structure RetrieveAnswer where
  opened : Bool
  /-- bytes that `fread` gets at most -/
  readable : Nat

/-- `exopal_retrieve_cik`, into an array that holds `cik`. -/
def exopalRetrieveCik (answer : RetrieveAnswer) (cik : List UInt8) (file : CikFile) :
    Nat × List UInt8 :=
  match file with
  | none => (2, cik)
  | some bytes =>
    if !answer.opened then (2, cik)
    else
      let got := (bytes.take cikLength).take answer.readable
      (if got.length ≠ cikLength then 1 else 0, got ++ cik.drop got.length)

/-- All bytes get into the file. -/
def StoreAnswer.Complete (answer : StoreAnswer) : Prop :=
  answer.opened = true ∧ cikLength ≤ answer.flushed

/-- All bytes are read, if the file can be opened. -/
def RetrieveAnswer.Complete (answer : RetrieveAnswer) : Prop := cikLength ≤ answer.readable

/-! ## Devices -/

/-- The library and the file, and what has happened so far, newest first. -/
structure Device where
  sys : Sys
  file : CikFile
  /-- the CIKs that were installed -/
  installed : List (List UInt8)
  /-- the datagrams that were handled -/
  handled : List Arrival

/-- The CIKs that are stored according to the log, newest first. -/
def storedCiks (events : List Event) : List (List UInt8) :=
  events.filterMap fun event =>
    match event with
    | .storedCik cik => some cik
    | _ => none

/-- The file after these CIKs were stored, the last one first. -/
def storeAll (answers : Nat → StoreAnswer) (file : CikFile) : List (List UInt8) → CikFile
  | [] => file
  | cik :: older => (exopalStoreCik (answers older.length) cik (storeAll answers file older)).2

/-- What happens to a device. The platform is `trusted` when it stores and reads completely. -/
inductive DeviceStep (trusted : Prop) : Device → Device → Prop where
  /-- power is lost, only the file is left -/
  | restart {device : Device} (count : Nat) (heap : Mem) :
      DeviceStep trusted device { device with sys := powerOn count heap }
  /-- `exo_init`; `exopal_init` of this platform cannot fail -/
  | init {device : Device} {env : InitEnv} (vendor model serial : Nat) {answer : RetrieveAnswer}
      (complete : trusted → answer.Complete) (palOk : env.palOk = true)
      (retrieved : (env.retrieved, env.cik) =
        exopalRetrieveCik answer device.sys.cik device.file) :
      DeviceStep trusted device
        { device with sys := (exoInit env vendor model serial device.sys).2 }
  /-- another call of the user -/
  | called {device : Device} {action : UserCall} {answers : Nat → StoreAnswer} {after : Sys}
      {events : List Event} (complete : trusted → ∀ index, (answers index).Complete)
      (other : action.KeepsDevice) (called : call device.sys action = .ok after)
      (logged : after.log = events ++ device.sys.log) :
      DeviceStep trusted device
        ⟨after, storeAll answers device.file (storedCiks events),
          storedCiks events ++ device.installed,
          ((action.operation device.sys).flatMap Operation.arrivals).reverse ++ device.handled⟩

abbrev DeviceSteps (trusted : Prop) := Relation.ReflTransGen (DeviceStep trusted)

/-- A device that is switched on for the first time. -/
def newDevice (count : Nat) (heap : Mem) (file : CikFile) : Device :=
  ⟨powerOn count heap, file, [], []⟩

/-- Every run of the library between two calls of `exo_init` is part of the life of a device,
for instance of one where nothing fails. -/
theorem deviceSteps_of_run {trusted : Prop} {device : Device} {calls : List UserCall} {after : Sys}
    (others : ∀ action ∈ calls, action.KeepsDevice) (ran : run device.sys calls = .ok after) :
    ∃ next, DeviceSteps trusted device next ∧ next.sys = after := by
  induction calls generalizing device with
  | nil =>
      cases ran
      exact ⟨device, .refl, rfl⟩
  | cons action rest ih =>
      obtain ⟨middle, called, ran⟩ := Exec.bind_eq_ok.mp ran
      obtain ⟨events, grown⟩ := (call_runSteps called).sysSteps.log_suffix
      have step : DeviceStep trusted device ⟨middle,
          storeAll (fun _ => ⟨true, 40, 40, Nat.le_refl 40⟩) device.file (storedCiks events),
          storedCiks events ++ device.installed,
          ((action.operation device.sys).flatMap Operation.arrivals).reverse ++ device.handled⟩ :=
        .called (fun _ _ => ⟨rfl, Nat.le_refl 40⟩) (others action List.mem_cons_self) called
          grown.symm
      obtain ⟨next, steps, same⟩ := @ih ⟨middle, _, _, _⟩
        (fun other member => others other (List.mem_cons_of_mem _ member)) ran
      exact ⟨next, .head step steps, same⟩

/-! ## Devices without a file -/

/-- The library is off, and has sent nothing. -/
structure Silent (device : Device) : Prop where
  file : device.file = none
  off : device.sys.deviceState = .uninitialized
  installed : device.installed = []
  unsent : ∀ cause datagram ok, .sent cause datagram ok ∉ device.sys.log

section Silence

variable {trusted : Prop} {device after : Device}

theorem exoInit_none {env : InitEnv} {vendor model serial : Nat} {sys : Sys}
    (failed : 1 < env.retrieved) :
    (exoInit env vendor model serial sys).2.deviceState = .uninitialized ∧
      (exoInit env vendor model serial sys).2.log = sys.log := by
  unfold exoInit
  dsimp only
  split_ifs <;> exact ⟨rfl, rfl⟩

/-- While the library is off, calls of the user do not reach the platform. -/
theorem call_off {action : UserCall} {sys next : Sys} (off : sys.deviceState = .uninitialized)
    (other : action.KeepsDevice) (called : call sys action = .ok next) :
    next.deviceState = .uninitialized ∧ next.cik = sys.cik ∧
      ∃ events, next.log = events ++ sys.log ∧ storedCiks events = [] ∧
        ∀ cause datagram ok, .sent cause datagram ok ∉ events := by
  cases action with
  | init => cases other
  | operate env =>
      obtain ⟨⟨state, result⟩, operated, same⟩ := Exec.bind_eq_ok.mp called
      cases same
      rw [(exoOperate_steps operated).2 off]
      exact ⟨off, rfl, [], rfl, rfl, by simp⟩
  | memory heap =>
      cases called
      exact ⟨off, rfl, [], rfl, rfl, by simp⟩
  | opInit slot =>
      obtain ⟨op, -, same⟩ := Exec.bind_eq_ok.mp called
      cases same
      exact ⟨off, rfl, [], rfl, rfl, by simp⟩
  | opDone slot =>
      obtain ⟨op, -, same⟩ := Exec.bind_eq_ok.mp called
      cases same
      exact ⟨off, rfl, [_], rfl, rfl, by simp⟩
  | _ =>
      obtain ⟨op, -, same⟩ := Exec.bind_eq_ok.mp called
      cases same
      exact ⟨off, rfl, [_], rfl, rfl, by simp⟩

theorem DeviceStep.silent (step : DeviceStep trusted device after) (silent : Silent device) :
    Silent after := by
  cases step with
  | restart => exact ⟨silent.file, rfl, silent.installed, by simp [powerOn]⟩
  | @init env vendor model serial answer _ _ retrieved =>
      rw [silent.file] at retrieved
      have code : env.retrieved = 2 := congrArg Prod.fst retrieved
      have failed : 1 < env.retrieved := by omega
      obtain ⟨off, log⟩ := @exoInit_none env vendor model serial device.sys failed
      refine ⟨silent.file, off, silent.installed, ?_⟩
      dsimp only
      rw [log]
      exact silent.unsent
  | @called action answers next events _ other called logged =>
      obtain ⟨off, -, more, grown, none, unsent⟩ := call_off silent.off other called
      rw [grown] at logged
      obtain rfl := List.append_cancel_right logged
      refine ⟨?_, off, ?_, ?_⟩
      · rw [none]
        exact silent.file
      · rw [none]
        exact silent.installed
      · intro cause datagram ok member
        dsimp only at member
        rw [grown] at member
        rcases List.mem_append.mp member with new | old
        · exact unsent cause datagram ok new
        · exact silent.unsent cause datagram ok old

end Silence

/-- A device that has no file `cik` to begin with never sends a datagram, so it is never
activated and never gets such a file, however often it is restarted and initialised; every
`exo_operate` returns `EXO_ERROR`. -/
theorem device_silent {trusted : Prop} {count : Nat} {heap : Mem} {device : Device}
    (steps : DeviceSteps trusted (newDevice count heap none) device) :
    Silent device ∧ ∀ env, exoOperate env device.sys = .ok (.exoError, device.sys) := by
  have silent : Silent device := by
    induction steps with
    | refl => exact ⟨rfl, rfl, rfl, by simp [newDevice, powerOn]⟩
    | tail _ step ih => exact step.silent ih
  refine ⟨silent, fun env => ?_⟩
  rw [exoOperate, if_pos silent.off]
  rfl

/-- Initialised without a file, a read is queued and never sent. -/
theorem device_silent_read : ∃ device, DeviceSteps True (newDevice 2 quietHeap none) device ∧
    device.sys.ops[1]? = some (exoRead exoOpInit 1 3 8) ∧ Silent device := by
  have step : DeviceStep True (newDevice 2 quietHeap none)
      { newDevice 2 quietHeap none with
        sys := (exoInit ⟨true, 8, 2, List.replicate 41 0, rfl, true⟩ 1 1 1
          (powerOn 2 quietHeap)).2 } :=
    @DeviceStep.init True (newDevice 2 quietHeap none)
      ⟨true, 8, 2, List.replicate 41 0, rfl, true⟩ 1 1 1 ⟨true, 40⟩ (fun _ => Nat.le_refl 40) rfl rfl
  have computed : (run (exoInit ⟨true, 8, 2, List.replicate 41 0, rfl, true⟩ 1 1 1
      (powerOn 2 quietHeap)).2 [.read 1 1 3 8, quietOperate [], quietOperate []]).map
        (fun after => after.ops[1]?) = .ok (some (exoRead exoOpInit 1 3 8)) := by decide +kernel
  obtain ⟨after, ran, queued⟩ := Exec.map_eq_ok.mp computed
  obtain ⟨device, steps, rfl⟩ := @deviceSteps_of_run True
    { newDevice 2 quietHeap none with
      sys := (exoInit ⟨true, 8, 2, List.replicate 41 0, rfl, true⟩ 1 1 1
        (powerOn 2 quietHeap)).2 } _ _ (by simp [quietOperate, UserCall.KeepsDevice]) ran
  exact ⟨device, .head step steps, queued, (device_silent (.head step steps)).1⟩

/-! ## Devices with a file -/

/-- The CIK that was installed last, or the one that the device had from the start. -/
def Device.current (factory : List UInt8) (device : Device) : List UInt8 :=
  match device.installed with
  | [] => factory
  | cik :: _ => cik.take cikLength

/-- The CIKs that these datagrams bring, one for each answer to an activation request with
40 bytes of payload; the newest is first in both lists. -/
inductive SentCiks : List Arrival → List (List UInt8) → Prop where
  | nil : SentCiks [] []
  | installs {arrival : Arrival} {older : List Arrival} {ciks : List (List UInt8)} {slot : Nat}
      {bytes : List UInt8} (sent : SentCiks older ciks) (installs : arrival.Installs slot bytes) :
      SentCiks (arrival :: older) ((bytes ++ [0]) :: ciks)
  | other {arrival : Arrival} {older : List Arrival} {ciks : List (List UInt8)}
      (sent : SentCiks older ciks) (other : ∀ slot bytes, ¬ arrival.Installs slot bytes) :
      SentCiks (arrival :: older) ciks

/-- What is left of a CIK that was installed, or of the first one. -/
def Device.Remnant (factory : List UInt8) (device : Device) (bytes : List UInt8) : Prop :=
  bytes = factory ∨ ∃ cik ∈ device.installed, bytes <+: cik.take cikLength

/-- The device remembers its CIK, if the platform is trusted; otherwise at most the end of
it is lost. -/
structure KeepsCik (trusted : Prop) (factory : List UInt8) (device : Device) : Prop where
  length : device.sys.cik.length = cikLength + 1
  remnant : ∃ bytes, device.file = some bytes ∧ device.Remnant factory bytes
  genuine : SentCiks device.handled device.installed
  file : trusted → device.file = some (device.current factory)
  cik : device.sys.deviceState ≠ .uninitialized → ∃ front : List UInt8,
    front.length = cikLength ∧ device.sys.cik = front ++ [0] ∧
      (trusted → front = (device.current factory).take cikLength)

/-! ## What is stored -/

section Stored

variable {sys middle after : Sys} {handled later : List Arrival} {events : List Event}

theorem SentCiks.append {newer older : List Arrival} {ciks olderCiks : List (List UInt8)}
    (sent : SentCiks newer ciks) (before : SentCiks older olderCiks) :
    SentCiks (newer ++ older) (ciks ++ olderCiks) := by
  induction sent with
  | nil => exact before
  | installs _ installs ih => exact ih.installs installs
  | other _ other ih => exact ih.other other

theorem SentCiks.length {newer : List Arrival} {ciks : List (List UInt8)}
    (sent : SentCiks newer ciks) {cik : List UInt8} (member : cik ∈ ciks) :
    cik.length = cikLength + 1 := by
  induction sent with
  | nil => cases member
  | installs _ installs ih =>
      rcases List.mem_cons.mp member with rfl | older
      · rw [List.length_append, installs.length]
        rfl
      · exact ih older
  | other _ _ ih => exact ih member

theorem storedCiks_append (newer older : List Event) :
    storedCiks (newer ++ older) = storedCiks newer ++ storedCiks older :=
  List.filterMap_append

theorem storedCiks_eq_nil (none : ∀ cik, .storedCik cik ∉ events) : storedCiks events = [] := by
  refine List.filterMap_eq_nil_iff.mpr fun event member => ?_
  cases event with
  | storedCik cik => exact absurd member (none cik)
  | _ => rfl

/-- What was stored since is what these datagrams brought. -/
def StoresSent (sys after : Sys) (handled : List Arrival) : Prop :=
  ∃ events, after.log = events ++ sys.log ∧ SentCiks handled.reverse (storedCiks events)

theorem StoresNoCik.storesSent (stores : StoresNoCik sys after) : StoresSent sys after [] := by
  obtain ⟨events, log, none⟩ := stores
  refine ⟨events, log, ?_⟩
  rw [storedCiks_eq_nil none]
  exact .nil

theorem StoresSent.trans (first : StoresSent sys middle handled)
    (second : StoresSent middle after later) : StoresSent sys after (handled ++ later) := by
  obtain ⟨older, log, sent⟩ := first
  obtain ⟨newer, newerLog, newerSent⟩ := second
  refine ⟨newer ++ older, ?_, ?_⟩
  · rw [newerLog, log, List.append_assoc]
  · rw [List.reverse_append, storedCiks_append]
    exact newerSent.append sent

/-- A datagram is handled. -/
theorem Arrival.storesSent {arrival : Arrival} {goOn : Bool}
    (ran : exoHandleDatagram arrival.rx arrival.before = .ok (goOn, after)) :
    StoresSent arrival.before after [arrival] := by
  cases Arrival.cikChange ran with
  | unchanged other _ log =>
      obtain ⟨events, grown, none⟩ := log
      refine ⟨events, grown, ?_⟩
      rw [storedCiks_eq_nil none]
      exact SentCiks.nil.other other
  | @installed slot bytes events installs _ _ _ log once =>
      refine ⟨_ :: _ :: events, log, ?_⟩
      have one : storedCiks (.handled arrival.before.ops arrival.rx.pdu ::
          .storedCik (bytes ++ [0]) :: events) = [bytes ++ [0]] :=
        congrArg ((bytes ++ [0]) :: ·) (storedCiks_eq_nil once)
      rw [one]
      exact SentCiks.nil.installs installs

theorem exoProcessWaitingDatagrams_storesSent {datagrams : List Received}
    (ran : exoProcessWaitingDatagrams sys datagrams = .ok after) :
    StoresSent sys after (waitingArrivals sys datagrams) := by
  induction datagrams generalizing sys with
  | nil =>
      cases ran
      exact ⟨[], rfl, .nil⟩
  | cons rx rest ih =>
      obtain ⟨⟨goOn, next⟩, handled, ran⟩ := Exec.bind_eq_ok.mp ran
      have first : StoresSent sys next [⟨sys, rx⟩] := @Arrival.storesSent _ ⟨sys, rx⟩ _ handled
      rw [waitingArrivals, handled]
      cases goOn with
      | true => exact first.trans (ih ran)
      | false =>
          cases ran
          exact first

/-- What goes out stores nothing. -/
theorem exoProcessActiveOps_storesNoCik {now : UInt64} {envs : Nat → SlotEnv}
    (ran : exoProcessActiveOps now envs sys = .ok after) : StoresNoCik sys after := by
  refine @exoActiveLoop_rule _ _ _ _ _ (fun _ state => StoresNoCik sys state) _ ran
    ⟨[], rfl, nofun⟩ ?_
  rintro state next i op - processed ⟨older, log, none⟩
  have grown : ∀ {events : List Event}, next.log = events ++ state.log →
      (∀ cik, .storedCik cik ∉ events) → StoresNoCik sys next := by
    intro events newer other
    refine ⟨events ++ older, ?_, fun cik member => ?_⟩
    · rw [newer, log, List.append_assoc]
    · rcases List.mem_append.mp member with new | old
      · exact other cik new
      · exact none cik old
  cases exoProcessOp_cases processed with
  | idle => exact @grown [] rfl (by simp)
  | unexpectedNew => exact @grown [_] rfl (by simp)
  | unexpectedWait => exact @grown [_] rfl (by simp)
  | sent => exact @grown [_, _] rfl (by simp)
  | unsent => exact @grown [_, _] rfl (by simp)
  | resent => exact @grown [_, _] rfl (by simp)
  | unresent => exact @grown [_, _] rfl (by simp)
  | gaveUp => exact @grown [] rfl (by simp)
  | renewed => exact @grown [] rfl (by simp)
  | acked => exact @grown [_] rfl (by simp)
  | unacked => exact @grown [_] rfl (by simp)

theorem exoOperate_storesSent {operation : Operation} {state : ExoState}
    (ran : exoOperate operation.env operation.before = .ok (state, after)) :
    StoresSent operation.before after operation.arrivals := by
  obtain ⟨off, rfl⟩ | ⟨on, ready, received, isReady, waiting, active⟩ := exoOperate_parts ran
  · rw [Operation.arrivals, if_pos off]
    exact ⟨[], rfl, .nil⟩
  · rw [Operation.arrivals, if_neg on, isReady]
    have first : StoresSent operation.before ready [] := by
      obtain rfl | ⟨found, -, rfl⟩ := exoReady_cases isReady <;> exact ⟨[], rfl, .nil⟩
    have sent := (first.trans (exoProcessWaitingDatagrams_storesSent waiting)).trans
      (exoProcessActiveOps_storesNoCik active).storesSent
    rwa [List.append_nil] at sent

/-- A call of the user stores what its datagrams bring. -/
theorem call_storesSent {action : UserCall} (other : action.KeepsDevice)
    (called : call sys action = .ok after) :
    StoresSent sys after ((action.operation sys).flatMap Operation.arrivals) := by
  cases action with
  | init => cases other
  | operate env =>
      obtain ⟨⟨state, result⟩, operated, same⟩ := Exec.bind_eq_ok.mp called
      cases same
      have sent := @exoOperate_storesSent _ ⟨sys, env⟩ _ operated
      simpa [UserCall.operation] using sent
  | memory heap =>
      cases called
      exact ⟨[], rfl, .nil⟩
  | opInit slot =>
      obtain ⟨op, -, same⟩ := Exec.bind_eq_ok.mp called
      cases same
      exact ⟨[], rfl, .nil⟩
  | _ =>
      obtain ⟨op, -, same⟩ := Exec.bind_eq_ok.mp called
      cases same
      exact ⟨[_], rfl, .nil⟩

end Stored

section Memory

variable {trusted : Prop} {factory : List UInt8} {device after : Device}

theorem exopalStoreCik_prefix (answer : StoreAnswer) (cik : List UInt8) (file : CikFile) :
    (exopalStoreCik answer cik file).2 = file ∨
      ∃ bytes, (exopalStoreCik answer cik file).2 = some bytes ∧ bytes <+: cik.take cikLength := by
  unfold exopalStoreCik
  split_ifs
  · exact Or.inl rfl
  all_goals exact Or.inr ⟨_, rfl, List.take_prefix _ _⟩

theorem StoreAnswer.Complete.stores {answer : StoreAnswer} (complete : answer.Complete)
    (cik : List UInt8) (file : CikFile) :
    (exopalStoreCik answer cik file).2 = some (cik.take cikLength) := by
  have short : (cik.take cikLength).length ≤ answer.flushed :=
    Nat.le_trans (by rw [List.length_take]; exact Nat.min_le_left _ _) complete.2
  rw [exopalStoreCik, complete.1, List.take_of_length_le short]
  rfl

/-- The file holds a part of one of the CIKs that were stored, or is as it was. -/
theorem storeAll_prefix (answers : Nat → StoreAnswer) (file : CikFile) (ciks : List (List UInt8)) :
    storeAll answers file ciks = file ∨
      ∃ cik ∈ ciks, ∃ bytes, storeAll answers file ciks = some bytes ∧
        bytes <+: cik.take cikLength := by
  induction ciks with
  | nil => exact Or.inl rfl
  | cons cik older ih =>
      obtain same | ⟨bytes, stored, front⟩ :=
        exopalStoreCik_prefix (answers older.length) cik (storeAll answers file older)
      · rw [storeAll, same]
        refine ih.imp_right ?_
        rintro ⟨found, member, rest⟩
        exact ⟨found, List.mem_cons_of_mem _ member, rest⟩
      · exact Or.inr ⟨cik, List.mem_cons_self, bytes, stored, front⟩

theorem latestCik_eq (initial : List UInt8) (events : List Event) :
    latestCik initial events =
      match storedCiks events with
      | [] => initial
      | cik :: _ => cik.take cikLength := by
  induction events with
  | nil => rfl
  | cons event rest ih => cases event <;> first | rfl | exact ih

/-- `exo_init` puts a zero behind the CIK. -/
theorem set_behind {front rest : List UInt8} (place : front.length = cikLength)
    (one : rest.length = 1) : (front ++ rest).set cikLength 0 = front ++ [0] := by
  obtain ⟨last, rfl⟩ := List.length_eq_one_iff.mp one
  rw [List.set_append_right _ _ (Nat.le_of_eq place), place, Nat.sub_self]
  rfl

/-- What is read back is the front of the file, if the file can be opened. -/
theorem RetrieveAnswer.Complete.retrieves {answer : RetrieveAnswer} (complete : answer.Complete)
    {cik bytes : List UInt8} (long : cikLength ≤ bytes.length)
    (length : cik.length = cikLength + 1) :
    exopalRetrieveCik answer cik (some bytes) = (2, cik) ∨
      (exopalRetrieveCik answer cik (some bytes)).2.set cikLength 0 =
        bytes.take cikLength ++ [0] := by
  cases opened : answer.opened with
  | false => exact Or.inl (by simp [exopalRetrieveCik, opened])
  | true =>
      have size : (bytes.take cikLength).length = cikLength := by
        rw [List.length_take]
        exact Nat.min_eq_left long
      have got : (bytes.take cikLength).take answer.readable = bytes.take cikLength :=
        List.take_of_length_le (by rw [size]; exact complete)
      right
      simp only [exopalRetrieveCik, opened, Bool.not_true, Bool.false_eq_true, if_false, got]
      refine set_behind size ?_
      rw [size, List.length_drop, length]
      exact Nat.add_sub_cancel_left _ _

theorem exoInit_cases (env : InitEnv) (vendor model serial : Nat) (sys : Sys)
    (length : sys.cik.length = cikLength + 1) :
    (exoInit env vendor model serial sys).2.cik.length = cikLength + 1 ∧
      ((exoInit env vendor model serial sys).2.deviceState ≠ .uninitialized →
        env.retrieved ≤ 1 ∧ (exoInit env vendor model serial sys).2.cik =
          env.cik.set cikLength 0) := by
  unfold exoInit
  dsimp only
  split_ifs with broken fatal offline
  · exact ⟨length, fun on => absurd rfl on⟩
  · exact ⟨env.cik_length, fun on => absurd rfl on⟩
  · exact ⟨List.length_set.trans env.cik_length, fun on => absurd rfl on⟩
  · exact ⟨List.length_set.trans env.cik_length, fun _ => ⟨Nat.not_lt.mp fatal, rfl⟩⟩

theorem KeepsCik.current_long (remembers : KeepsCik trusted factory device)
    (whole : cikLength ≤ factory.length) : cikLength ≤ (device.current factory).length := by
  unfold Device.current
  split
  · exact whole
  next cik older isInstalled =>
    have length := remembers.genuine.length (by
      rw [isInstalled]
      exact List.mem_cons_self)
    rw [List.length_take, length]
    decide

theorem InitEnv.cik_set (env : InitEnv) :
    (env.cik.take cikLength).length = cikLength ∧
      env.cik.set cikLength 0 = env.cik.take cikLength ++ [0] := by
  have size : (env.cik.take cikLength).length = cikLength := by
    rw [List.length_take, env.cik_length]
    exact Nat.min_eq_left (Nat.le_succ _)
  refine ⟨size, ?_⟩
  conv_lhs => rw [← List.take_append_drop cikLength env.cik]
  refine set_behind size ?_
  rw [List.length_drop, env.cik_length]
  exact Nat.add_sub_cancel_left _ _

/-- `exo_init` reads the CIK from the file. -/
theorem KeepsCik.init (remembers : KeepsCik trusted factory device) {env : InitEnv}
    {answer : RetrieveAnswer} (complete : trusted → answer.Complete)
    (retrieved : (env.retrieved, env.cik) = exopalRetrieveCik answer device.sys.cik device.file)
    (whole : cikLength ≤ factory.length) (vendor model serial : Nat) :
    KeepsCik trusted factory
      { device with sys := (exoInit env vendor model serial device.sys).2 } := by
  obtain ⟨length, started⟩ := exoInit_cases env vendor model serial device.sys remembers.length
  refine ⟨length, remembers.remnant, remembers.genuine, remembers.file, fun on => ?_⟩
  obtain ⟨opened, cik⟩ := started on
  obtain ⟨size, behind⟩ := env.cik_set
  refine ⟨_, size, cik.trans behind, fun trust => ?_⟩
  rw [remembers.file trust] at retrieved
  obtain failed | read :=
    (complete trust).retrieves (remembers.current_long whole) remembers.length
  · have code := congrArg Prod.fst (retrieved.trans failed)
    dsimp only at code
    omega
  · rw [← retrieved, behind] at read
    exact List.append_cancel_right read

section Calls

variable {action : UserCall} {answers : Nat → StoreAnswer} {next : Sys} {events : List Event}
  {handled : List Arrival}

/-- Storing leaves a remnant of a CIK, whatever the platform does. -/
theorem KeepsCik.stored_remnant (remembers : KeepsCik trusted factory device) :
    ∃ bytes, storeAll answers device.file (storedCiks events) = some bytes ∧
      Device.Remnant factory ⟨next, storeAll answers device.file (storedCiks events),
        storedCiks events ++ device.installed, handled⟩ bytes := by
  obtain same | ⟨found, member, bytes, stored, isFront⟩ :=
    storeAll_prefix answers device.file (storedCiks events)
  · obtain ⟨bytes, isFile, remnant⟩ := remembers.remnant
    refine ⟨bytes, same.trans isFile, remnant.imp_right ?_⟩
    rintro ⟨found, member, isFront⟩
    exact ⟨found, List.mem_append_right _ member, isFront⟩
  · exact ⟨bytes, stored, Or.inr ⟨found, List.mem_append_left _ member, isFront⟩⟩

/-- A call of the user stores what is installed. -/
theorem KeepsCik.called (remembers : KeepsCik trusted factory device)
    (complete : trusted → ∀ index, (answers index).Complete) (other : action.KeepsDevice)
    (called : call device.sys action = .ok next) (logged : next.log = events ++ device.sys.log)
    (genuine : SentCiks handled (storedCiks events ++ device.installed))
    (on : device.sys.deviceState ≠ .uninitialized) :
    KeepsCik trusted factory ⟨next, storeAll answers device.file (storedCiks events),
      storedCiks events ++ device.installed, handled⟩ := by
  obtain ⟨front, size, cik, same⟩ := remembers.cik on
  have trace : CikTrace front (fun _ => True) device.sys [] := ⟨size, cik, by simp, .nil⟩
  obtain ⟨more, grown, final⟩ := trace.called other (fun _ _ _ _ => trivial) called
  rw [grown] at logged
  obtain rfl := List.append_cancel_right logged
  rw [List.append_nil] at final
  refine ⟨?_, remembers.stored_remnant, genuine, fun trust => ?_,
    fun _ => ⟨_, final.length, final.cik, fun trust => ?_⟩⟩
  · rw [final.cik, List.length_append, final.length]
    rfl
  · dsimp only [Device.current]
    cases storedCiks more with
    | nil => exact remembers.file trust
    | cons newest older => exact (complete trust _).stores newest _
  · rw [latestCik_eq]
    dsimp only [Device.current]
    cases storedCiks more with
    | nil => exact same trust
    | cons newest older =>
        refine (List.take_of_length_le ?_).symm
        rw [List.length_take]
        exact Nat.min_le_left _ _

end Calls

theorem DeviceStep.remembers (step : DeviceStep trusted device after)
    (whole : cikLength ≤ factory.length) (remembers : KeepsCik trusted factory device) :
    KeepsCik trusted factory after := by
  cases step with
  | restart =>
      exact ⟨rfl, remembers.remnant, remembers.genuine, remembers.file, fun on => absurd rfl on⟩
  | init vendor model serial complete _ retrieved =>
      exact remembers.init complete retrieved whole vendor model serial
  | called complete other called logged =>
      obtain ⟨more, grown, sent⟩ := call_storesSent other called
      rw [grown] at logged
      obtain rfl := List.append_cancel_right logged
      have genuine := sent.append remembers.genuine
      by_cases off : device.sys.deviceState = .uninitialized
      · obtain ⟨still, cik, events, same, none, -⟩ := call_off off other called
        rw [grown] at same
        obtain rfl := List.append_cancel_right same
        rw [none] at genuine ⊢
        refine ⟨?_, remembers.remnant, genuine, remembers.file, fun on => absurd still on⟩
        rw [cik]
        exact remembers.length
      · exact remembers.called complete other called grown genuine off

end Memory

/-- Across restarts, a device that had a CIK to begin with remembers the one that a server
sent last: it is in the file, and the library uses it whenever it is on. What counts as sent
are the answers to activation requests among the datagrams that it has handled, in their
order. When storing or reading may fall short, the file still holds the front of some CIK
that was sent, or the first one. -/
theorem device_remembers {trusted : Prop} {count : Nat} {heap : Mem} {factory : List UInt8}
    {device : Device} (steps : DeviceSteps trusted (newDevice count heap (some factory)) device)
    (whole : cikLength ≤ factory.length) : KeepsCik trusted factory device := by
  induction steps with
  | refl =>
      exact ⟨rfl, ⟨factory, rfl, Or.inl rfl⟩, .nil, fun _ => rfl, fun on => absurd rfl on⟩
  | tail _ step ih => exact step.remembers whole ih

/-- After an activation and a restart, the file holds the new CIK. -/
theorem device_remembers_activated : ∃ device, DeviceSteps True
    (newDevice 1 quietHeap (some (List.replicate 40 0x30))) device ∧
      device.sys = powerOn 1 quietHeap ∧
        ∃ bytes, device.file = some bytes ∧ bytes.take cikLength = freshCik := by
  have step : DeviceStep True (newDevice 1 quietHeap (some (List.replicate 40 0x30)))
      { newDevice 1 quietHeap (some (List.replicate 40 0x30)) with
        sys := (exoInit ⟨true, 7, 0, List.replicate 40 0x30 ++ [0], rfl, true⟩ 1 1 1
          (powerOn 1 quietHeap)).2 } :=
    @DeviceStep.init True (newDevice 1 quietHeap (some (List.replicate 40 0x30)))
      ⟨true, 7, 0, List.replicate 40 0x30 ++ [0], rfl, true⟩ 1 1 1 ⟨true, 40⟩
      (fun _ => Nat.le_refl 40) rfl rfl
  have computed : (run (exoInit ⟨true, 7, 0, List.replicate 40 0x30 ++ [0], rfl, true⟩ 1 1 1
      (powerOn 1 quietHeap)).2
      [quietOperate [], quietOperate [[0x60, 0x45, 0, 7, 0xFF] ++ freshCik]]).map
        (fun after => (after.cik, after.deviceState)) = .ok (freshCik ++ [0], .good) := by
    decide +kernel
  obtain ⟨after, ran, values⟩ := Exec.map_eq_ok.mp computed
  simp only [Prod.mk.injEq] at values
  obtain ⟨device, steps, rfl⟩ := @deviceSteps_of_run True
    { newDevice 1 quietHeap (some (List.replicate 40 0x30)) with
      sys := (exoInit ⟨true, 7, 0, List.replicate 40 0x30 ++ [0], rfl, true⟩ 1 1 1
        (powerOn 1 quietHeap)).2 } _ _ (by simp [quietOperate, UserCall.KeepsDevice]) ran
  have remembers := device_remembers (.head step steps) (by decide)
  obtain ⟨front, -, cik, same⟩ := remembers.cik (by rw [values.2]; decide)
  rw [values.1] at cik
  refine ⟨_, .tail (.head step steps) (.restart 1 quietHeap), rfl, _, remembers.file trivial, ?_⟩
  rw [← same trivial]
  exact (List.append_cancel_right cik).symm

end ExositeCoap.Exosite
