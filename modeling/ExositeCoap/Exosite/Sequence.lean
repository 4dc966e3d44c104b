import ExositeCoap.Coap.Iterate
import ExositeCoap.Exosite.Handling
import ExositeCoap.Exosite.History
import ExositeCoap.Exosite.Typing

/-!
# Observe numbers

The number in the Observe option of a response or a notification decides whether the next
notification is new.  It is read by a loop that shifts by eight bits for the second byte, but
by sixteen for the third; and for a response the loop starts from the number that the op
already has, not from zero.
-/

namespace ExositeCoap.Exosite

open Lib Wire Coap

/-! ## The loop -/

/-- The unsigned number with these bytes, most significant byte first. -/
def beValue (bytes : List UInt8) : Nat :=
  bytes.foldl (fun value byte => value * 256 + byte.toNat) 0

/-- The loop over the bytes of the option, from index `j` on. -/
def joinBytes (wideShift : UInt32 → UInt32) : (j : Nat) → (seq : UInt32) → List UInt8 → UInt32
  | _, seq, [] => seq
  | j, seq, byte :: rest =>
    let shifted := if 8 * j < 32 then seq <<< UInt32.ofNat (8 * j) else wideShift seq
    joinBytes wideShift (j + 1) (shifted ||| byte.toUInt32) rest

/-- The value of the Observe option that the search finds in the datagram. -/
def observeValue (rx : Received) : Option (List UInt8) :=
  match coapGetOptionByNum rx.pdu (searchFuel rx.pdu) conObserve 0 with
  | .ok ⟨num, len, some pos⟩ =>
    if num = conObserve then (rx.pdu.mem.slice pos len).toOption else none
  | _ => none

/-- Started with `seed`, the loop reads the number in up to three bytes. -/
def ReadsExactly (seed : UInt32) : List UInt8 → Prop
  | [] => seed = 0
  | [first] => seed ||| first.toUInt32 = first.toUInt32
  | [first, _] => (seed ||| first.toUInt32).toNat % 2 ^ 24 = first.toNat
  | [first, second, _] => seed.toNat % 2 ^ 8 = 0 ∧ first = 0 ∧ second = 0
  | _ => False

section Loop

theorem observeLoop_eq {rx : Received} {pos j : Nat} {seq : UInt32} {bytes tail : List UInt8}
    (at_ : rx.pdu.mem.drop (pos + j) = bytes ++ tail) :
    observeLoop rx (some pos) bytes.length j seq = .ok (joinBytes rx.wideShift j seq bytes) := by
  induction bytes generalizing j seq with
  | nil => rfl
  | cons byte rest ih =>
      rw [List.length_cons, observeLoop, Mem.read_of_drop at_, Exec.ok_bind]
      exact ih (Mem.drop_succ_of_cons at_)

/-- What the loop computes for the Observe option of a datagram. -/
theorem observeSeq_eq {rx : Received} {value : List UInt8} (isValue : observeValue rx = some value)
    (seq : UInt32) : observeSeq rx seq = .ok (joinBytes rx.wideShift 0 seq value) := by
  unfold observeValue at isValue
  split at isValue
  next num len pos found =>
    split_ifs at isValue
    cases loaded : rx.pdu.mem.slice pos len with
    | error trap =>
        rw [loaded] at isValue
        cases isValue
    | ok bytes =>
        rw [loaded] at isValue
        obtain rfl : bytes = value := Option.some.inj isValue
        have size := Mem.slice_length loaded
        rw [observeSeq, found, Exec.ok_bind]
        dsimp only
        rw [← Mem.slice_length loaded]
        exact observeLoop_eq (Mem.drop_of_slice loaded)
  next => cases isValue

/-- A byte is added behind a shifted number. -/
theorem shiftLeft_or_toNat (seq : UInt32) (byte : UInt8) {bits : Nat} (byteWide : 8 ≤ bits)
    (narrow : bits < 32) : (seq <<< UInt32.ofNat bits ||| byte.toUInt32).toNat =
      seq.toNat % 2 ^ (32 - bits) * 2 ^ bits + byte.toNat := by
  have small : byte.toNat < 2 ^ bits :=
    Nat.lt_of_lt_of_le byte.toNat_lt (Nat.pow_le_pow_right (by decide) byteWide)
  have whole : (2 : Nat) ^ 32 = 2 ^ (32 - bits) * 2 ^ bits := by
    rw [← Nat.pow_add]
    congr 1
    omega
  have shift : (UInt32.ofNat bits).toNat % 32 = bits := by
    rw [UInt32.toNat_ofNat']
    omega
  rw [UInt32.toNat_or, UInt32.toNat_shiftLeft, shift, UInt8.toNat_toUInt32, Nat.shiftLeft_eq, whole,
    Nat.mul_mod_mul_right, ← Nat.shiftLeft_eq, Nat.shiftLeft_add_eq_or_of_lt small]

theorem byte_eq_zero {byte : UInt8} (zero : byte.toNat = 0) : byte = 0 :=
  UInt8.toNat_inj.mp zero

/-- When the loop reads the number that the bytes stand for. -/
theorem joinBytes_toNat_iff (wideShift : UInt32 → UInt32) (seed : UInt32) {value : List UInt8}
    (short : value.length ≤ 3) :
    (joinBytes wideShift 0 seed value).toNat = beValue value ↔ ReadsExactly seed value := by
  have start : seed <<< UInt32.ofNat 0 = seed := by simp
  match value, short with
  | [], _ => simp [joinBytes, beValue, ReadsExactly, ← UInt32.toNat_inj]
  | [first], _ => simp [joinBytes, beValue, ReadsExactly, ← UInt32.toNat_inj]
  | [first, second], _ =>
      have result := @shiftLeft_or_toNat (seed ||| first.toUInt32) second 8 (by decide) (by decide)
      have bound := first.toNat_lt
      simp only [joinBytes, beValue, ReadsExactly, List.foldl_cons, List.foldl_nil, start,
        Nat.mul_zero, Nat.zero_mul, Nat.zero_add, Nat.mul_one, Nat.reduceLT, if_true] at result ⊢
      rw [result]
      omega
  | [first, second, third], _ =>
      have two := @shiftLeft_or_toNat (seed ||| first.toUInt32) second 8 (by decide) (by decide)
      have three := @shiftLeft_or_toNat ((seed ||| first.toUInt32) <<< UInt32.ofNat 8 |||
        second.toUInt32) third 16 (by decide) (by decide)
      have first_lt := first.toNat_lt
      have second_lt := second.toNat_lt
      simp only [joinBytes, beValue, ReadsExactly, List.foldl_cons, List.foldl_nil, start,
        Nat.mul_zero, Nat.zero_mul, Nat.zero_add, Nat.reduceAdd, Nat.reduceMul, Nat.mul_one,
        Nat.reduceLT, if_true]
      rw [three, two]
      constructor
      · intro same
        have firstZero : first = 0 := byte_eq_zero (by omega)
        have secondZero : second = 0 := byte_eq_zero (by omega)
        subst firstZero secondZero
        refine ⟨?_, rfl, rfl⟩
        have unchanged : seed ||| (0 : UInt8).toUInt32 = seed := by simp
        rw [unchanged] at same
        simp only [UInt8.toNat_zero] at same
        omega
      · rintro ⟨zero, rfl, rfl⟩
        have unchanged : seed ||| (0 : UInt8).toUInt32 = seed := by simp
        rw [unchanged]
        simp only [UInt8.toNat_zero]
        omega

end Loop

/-! ## Accepted datagrams -/

/-- From one state of the op to the next, a notification or the response to an observe
request was accepted. -/
def Accepts (op next : ExoOp) : Prop :=
  (op.state = .subscribed ∧ (next.state = .subAck ∨ next.state = .subAckNew)) ∨
    (op.state = .pending ∧ op.type = .subscribe ∧ next.state = .success)

instance (op next : ExoOp) : Decidable (Accepts op next) := inferInstanceAs (Decidable (_ ∨ _))

/-- The op in `slot` before and after the datagram is handled, if it accepts it. -/
def Arrival.accepted (arrival : Arrival) (slot : Nat) : Option (ExoOp × ExoOp) :=
  match exoHandleDatagram arrival.rx arrival.before with
  | .error _ => none
  | .ok (_, after) =>
    match arrival.before.ops[slot]?, after.ops[slot]? with
    | some op, some next => if Accepts op next then some (op, next) else none
    | _, _ => none

/-- What the loop over the bytes of the option starts from. -/
def seqSeed (op : ExoOp) : UInt32 := if op.state = .subscribed then 0 else op.obsSeq

/-- The op asks for the same as before and has the same Observe number. -/
def SameSeq (op next : ExoOp) : Prop := next.type = op.type ∧ next.obsSeq = op.obsSeq

/-- What a datagram does to the Observe number of an op. -/
inductive SeqChange (rx : Received) (op next : ExoOp) : Prop where
  | kept (other : ¬ Accepts op next) (same : SameSeq op next)
  | ended (other : ¬ Accepts op next) (type : next.type ≠ .subscribe)
  | accepted (accepts : Accepts op next) (seq : observeSeq rx (seqSeed op) = .ok next.obsSeq)
      (flag : op.state = .subscribed → (next.state = .subAckNew ↔ op.obsSeq ≠ next.obsSeq))

section Changes

variable {rx : Received} {sys after : Sys} {i : Nat} {op next : ExoOp}

theorem SeqChange.of_state (state : next.state ≠ .subAck ∧ next.state ≠ .subAckNew ∧
    (next.state = .success → op.type ≠ .subscribe)) (same : SameSeq op next) :
    SeqChange rx op next := by
  refine .kept ?_ same
  rintro (⟨-, old | new⟩ | ⟨-, type, success⟩)
  · exact state.1 old
  · exact state.2.1 new
  · exact state.2.2 success type

theorem SeqChange.refl (rx : Received) (op : ExoOp) : SeqChange rx op op := by
  refine .kept ?_ ⟨rfl, rfl⟩
  rintro (⟨state, next⟩ | ⟨state, -, next⟩)
  · rw [state] at next
    simp at next
  · rw [state] at next
    cases next

/-- What a datagram does to the Observe numbers of all ops. -/
def SeqChanges (rx : Received) (sys after : Sys) : Prop :=
  ∀ (slot : Nat) (op : ExoOp), sys.ops[slot]? = some op →
    ∃ next, after.ops[slot]? = some next ∧ SeqChange rx op next

theorem SeqChanges.of_ops (same : after.ops = sys.ops) : SeqChanges rx sys after := by
  intro slot op atSlot
  rw [same]
  exact ⟨op, atSlot, .refl rx op⟩

theorem SeqChanges.of_set {changed : ExoOp} (atSlot : sys.ops[i]? = some op)
    (ops : after.ops = sys.ops.set i changed) (change : SeqChange rx op changed) :
    SeqChanges rx sys after := by
  intro slot old isOld
  rw [ops]
  by_cases here : i = slot
  · subst here
    rw [atSlot] at isOld
    cases isOld
    exact ⟨changed, List.getElem?_set_self (List.getElem?_eq_some_iff.mp atSlot).1, change⟩
  · exact ⟨old, (List.getElem?_set_ne here).trans isOld, .refl rx old⟩

theorem exoNotified_seqChanges (atSlot : sys.ops[i]? = some op) (state : op.state = .subscribed)
    (ran : exoNotified rx sys i op = .ok after) : SeqChanges rx sys after := by
  have failed : SeqChange rx op { op with state := .error } := .of_state (by simp) ⟨rfl, rfl⟩
  obtain ⟨code, -, ran⟩ := Exec.bind_eq_ok.mp ran
  split_ifs at ran with content
  · obtain ⟨newSeq, isSeq, ran⟩ := Exec.bind_eq_ok.mp ran
    obtain ⟨result, store, ran⟩ := Exec.bind_eq_ok.mp ran
    cases result with
    | empty heap =>
        cases ran
        exact .of_ops rfl
    | rejected =>
        cases ran
        exact .of_set atSlot rfl failed
    | stored heap =>
        obtain ⟨mid, isMid, ran⟩ := Exec.bind_eq_ok.mp ran
        obtain ⟨timeout, -, ran⟩ := Exec.bind_eq_ok.mp ran
        have seed : observeSeq rx (seqSeed op) = .ok newSeq := by
          rwa [seqSeed, if_pos state]
        split_ifs at ran with new
        · cases ran
          exact .of_set atSlot rfl (.accepted (Or.inl ⟨state, Or.inr rfl⟩) seed (by simp [new]))
        · cases ran
          rw [not_not] at new
          subst new
          exact .of_set atSlot rfl (.accepted (Or.inl ⟨state, Or.inl rfl⟩) seed (by simp))
  · obtain ⟨codeClass, -, ran⟩ := Exec.bind_eq_ok.mp ran
    split_ifs at ran
    · cases ran
      exact .of_set atSlot rfl failed
    · cases ran
      exact .of_ops rfl

theorem exoAnswered_seqChanges (atSlot : sys.ops[i]? = some op) (state : op.state = .pending)
    (ran : exoAnswered rx sys i op = .ok (true, after)) : SeqChanges rx sys after := by
  have failed : SeqChange rx op { op with state := .error } := .of_state (by simp) ⟨rfl, rfl⟩
  have released : SeqChange rx op exoOpInit := by
    refine .ended ?_ (by simp [exoOpInit])
    rintro (⟨-, next⟩ | ⟨-, -, next⟩) <;> simp [exoOpInit] at next
  unfold exoAnswered at ran
  split at ran
  next type =>
    cases ran
    exact .of_set atSlot rfl (.of_state (by simp [type]) ⟨rfl, rfl⟩)
  next type =>
    obtain ⟨result, store, ran⟩ := Exec.bind_eq_ok.mp ran
    cases result with
    | empty heap =>
        cases ran
        exact .of_ops rfl
    | rejected =>
        cases ran
        exact .of_set atSlot rfl failed
    | stored heap =>
        cases ran
        exact .of_set atSlot rfl (.of_state (by simp [type]) ⟨rfl, rfl⟩)
  next type =>
    obtain ⟨result, store, ran⟩ := Exec.bind_eq_ok.mp ran
    cases result with
    | empty heap =>
        cases ran
        exact .of_ops rfl
    | rejected =>
        cases ran
        exact .of_set atSlot rfl failed
    | stored heap =>
        obtain ⟨timeout, -, ran⟩ := Exec.bind_eq_ok.mp ran
        obtain ⟨obsSeq, isSeq, ran⟩ := Exec.bind_eq_ok.mp ran
        have seed : observeSeq rx (seqSeed op) = .ok obsSeq := by
          rwa [seqSeed, if_neg (by simp [state])]
        cases ran
        exact .of_set atSlot rfl (.accepted (Or.inr ⟨state, type, rfl⟩) seed (by simp [state]))
  next type =>
    obtain ⟨payload, isPayload, ran⟩ := Exec.bind_eq_ok.mp ran
    split_ifs at ran
    · cases place : payload.val with
      | none =>
          rw [place] at ran
          cases ran
      | some pos =>
          rw [place] at ran
          obtain ⟨bytes, -, ran⟩ := Exec.bind_eq_ok.mp ran
          cases ran
          exact .of_set atSlot rfl released
    · cases ran
      exact .of_set atSlot rfl released
  next => cases ran

theorem exoRefused_seqChanges (atSlot : sys.ops[i]? = some op)
    (ran : exoRefused rx sys i op = .ok after) : SeqChanges rx sys after := by
  have failed : SeqChanges rx sys (sys.setOp i { op with state := .error }) :=
    .of_set atSlot rfl (.of_state (by simp) ⟨rfl, rfl⟩)
  obtain ⟨code, -, ran⟩ := Exec.bind_eq_ok.mp ran
  split_ifs at ran
  · cases atZero : (sys.setOp i { op with state := .error }).ops[0]? with
    | none =>
        rw [atZero] at ran
        cases ran
    | some first =>
        rw [atZero] at ran
        dsimp only at ran
        split_ifs at ran
        · cases ran
          intro slot old isOld
          obtain ⟨next, isNext, change⟩ := failed slot old isOld
          refine ⟨_, getElem?_setOp isNext, ?_⟩
          split_ifs
          · refine .ended ?_ (by simp [exoActivate, ExoOp.queue])
            rintro (⟨-, next⟩ | ⟨-, -, next⟩) <;> simp [exoActivate, ExoOp.queue] at next
          · exact change
        · cases ran
          exact failed
  · cases ran
    exact failed
  · cases ran
    exact failed

/-- What a datagram does to the Observe numbers. -/
theorem exoHandleDatagram_seqChanges {goOn : Bool}
    (ran : exoHandleDatagram rx sys = .ok (goOn, after)) : SeqChanges rx sys after := by
  cases exoHandleDatagram_cases ran with
  | invalid => exact .of_ops rfl
  | reset => exact .of_ops rfl
  | dropped => exact .of_ops rfl
  | @taken events slot op result valid _ atSlot first round =>
      obtain ⟨takes, -⟩ := reaction_of_round round
      have changes : SeqChanges rx (sys.logged events) result := by
        cases takes with
        | notification isKind isMessage =>
            obtain ⟨state, -, notified⟩ := exoMatchOp_notified isKind isMessage round
            exact exoNotified_seqChanges atSlot state notified
        | reset isKind =>
            rw [exoMatchOp_rst isKind round]
            exact .of_set atSlot rfl (.of_state (by simp) ⟨rfl, rfl⟩)
        | response isKind state mid =>
            obtain ⟨codeClass, isClass⟩ := exoMatchOp_class isKind round
            by_cases success : codeClass = 2
            · subst success
              exact exoAnswered_seqChanges atSlot state (exoMatchOp_answered isKind isClass round)
            · exact exoRefused_seqChanges atSlot (exoMatchOp_refused isKind isClass success round)
      exact changes

end Changes

/-! ## Runs -/

/-- The Observe option of the datagram that the subscription in `slot` accepted last. -/
def lastObserve (slot : Nat) : List Happening → Option (List UInt8)
  | [] => none
  | .subscribed queued :: older => if queued = slot then none else lastObserve slot older
  | .requested _ _ _ :: older => lastObserve slot older
  | .received arrival :: older =>
    match arrival.accepted slot with
    | some _ => observeValue arrival.rx
    | none => lastObserve slot older

/-- An op that accepts a datagram takes over the number in its Observe option, and a
notification is new if its number differs from the last one of the subscription. -/
def NumbersRight (entry : Happening) (older : List Happening) : Prop :=
  ∀ arrival slot op next value, entry = .received arrival →
    arrival.accepted slot = some (op, next) → observeValue arrival.rx = some value →
      value.length ≤ 3 → next.obsSeq.toNat = beValue value ∧
        (op.state = .subscribed → ∀ last, lastObserve slot older = some last → last.length ≤ 3 →
          (next.state = .subAckNew ↔ beValue value ≠ beValue last))

/-- The loop reads the number in the Observe option of an accepted datagram. -/
def Arrival.ReadsNumber (arrival : Arrival) : Prop :=
  ∀ slot op next value, arrival.accepted slot = some (op, next) →
    observeValue arrival.rx = some value → value.length ≤ 3 → ReadsExactly (seqSeed op) value

/-- The ops of subscriptions know the number that they accepted last. -/
def Remembers (sys : Sys) (happened : List Happening) : Prop :=
  ∀ (slot : Nat) (op : ExoOp) (last : List UInt8), sys.ops[slot]? = some op →
    op.type = .subscribe → lastObserve slot happened = some last → last.length ≤ 3 →
      op.obsSeq.toNat = beValue last

section Runs

variable {sys after start : Sys} {older : List Happening} {arrival : Arrival} {slot : Nat}
  {op next : ExoOp} {value : List UInt8} {calls : List UserCall}

theorem Arrival.accepted_eq_some (accepted : arrival.accepted slot = some (op, next)) :
    ∃ goOn after, exoHandleDatagram arrival.rx arrival.before = .ok (goOn, after) ∧
      arrival.before.ops[slot]? = some op ∧ after.ops[slot]? = some next ∧ Accepts op next := by
  unfold Arrival.accepted at accepted
  split at accepted
  next => cases accepted
  next goOn after ran =>
    split at accepted
    next found other atSlot isNext =>
      split_ifs at accepted with accepts
      cases accepted
      exact ⟨goOn, after, ran, atSlot, isNext, accepts⟩
    next => cases accepted

theorem Arrival.accepted_of {goOn : Bool}
    (ran : exoHandleDatagram arrival.rx arrival.before = .ok (goOn, after))
    (atSlot : arrival.before.ops[slot]? = some op) (isNext : after.ops[slot]? = some next) :
    arrival.accepted slot = if Accepts op next then some (op, next) else none := by
  simp only [Arrival.accepted, ran, atSlot, isNext]

/-- What the op that accepts a datagram makes of its number. -/
theorem Arrival.accepted_seq (accepted : arrival.accepted slot = some (op, next))
    (isValue : observeValue arrival.rx = some value) :
    next.obsSeq = joinBytes arrival.rx.wideShift 0 (seqSeed op) value ∧
      (op.state = .subscribed → (next.state = .subAckNew ↔ op.obsSeq ≠ next.obsSeq)) := by
  obtain ⟨goOn, after, ran, atSlot, isNext, accepts⟩ := Arrival.accepted_eq_some accepted
  obtain ⟨found, isFound, change⟩ := exoHandleDatagram_seqChanges ran slot op atSlot
  rw [isNext] at isFound
  cases isFound
  cases change with
  | kept other => exact absurd accepts other
  | ended other => exact absurd accepts other
  | accepted _ seq flag =>
      rw [observeSeq_eq isValue] at seq
      exact ⟨(Except.ok.inj seq).symm, flag⟩

/-- The number that is stored is the one in the option, and a notification is compared with
it, exactly when the loop reads that number. -/
theorem Arrival.accepted_iff (accepted : arrival.accepted slot = some (op, next))
    (isValue : observeValue arrival.rx = some value) (short : value.length ≤ 3) :
    (next.obsSeq.toNat = beValue value ∧
      (op.state = .subscribed → (next.state = .subAckNew ↔ op.obsSeq.toNat ≠ beValue value))) ↔
        ReadsExactly (seqSeed op) value := by
  obtain ⟨seq, flag⟩ := Arrival.accepted_seq accepted isValue
  have reads := joinBytes_toNat_iff arrival.rx.wideShift (seqSeed op) short
  rw [← seq] at reads
  constructor
  · exact fun both => reads.mp both.1
  · intro exactly
    have same := reads.mpr exactly
    refine ⟨same, fun state => ?_⟩
    rw [flag state, ← same, Ne, ← UInt32.toNat_inj]

/-- Steps that keep the number of every subscription. -/
theorem Remembers.of_same (remembers : Remembers sys older)
    (same : KeepsSubscriptions SameSeq sys after) : Remembers after older := by
  intro slot next last isNext type isLast short
  obtain other | ⟨op, atSlot, sameType, sameSeq⟩ := same slot next isNext
  · exact absurd type other
  · rw [sameSeq]
    exact remembers slot op last atSlot (sameType.symm.trans type) isLast short

theorem Remembers.received {goOn : Bool} (remembers : Remembers arrival.before older)
    (reads : arrival.ReadsNumber)
    (ran : exoHandleDatagram arrival.rx arrival.before = .ok (goOn, after)) :
    Remembers after (.received arrival :: older) := by
  intro slot next last isNext type isLast short
  have inRange := (List.getElem?_eq_some_iff.mp isNext).1
  rw [LibSteps.ops_length (exoHandleDatagram_steps ran)] at inRange
  have atSlot := List.getElem?_eq_getElem inRange
  generalize arrival.before.ops[slot] = op at atSlot
  obtain ⟨found, isFound, change⟩ := exoHandleDatagram_seqChanges ran slot op atSlot
  rw [isNext] at isFound
  cases isFound
  have accepted := Arrival.accepted_of ran atSlot isNext
  cases change with
  | ended _ other => exact absurd type other
  | kept other same =>
      rw [lastObserve, accepted, if_neg other] at isLast
      rw [same.2]
      exact remembers slot op last atSlot (same.1.symm.trans type) isLast short
  | accepted accepts =>
      rw [if_pos accepts] at accepted
      rw [lastObserve, accepted] at isLast
      exact ((Arrival.accepted_iff accepted isLast short).mpr
        (reads slot op next last accepted isLast short)).1

/-- A datagram is handled as it should be. -/
theorem Remembers.numbersRight (remembers : Remembers arrival.before older)
    (typed : AllTyped arrival.before) (reads : arrival.ReadsNumber) :
    NumbersRight (.received arrival) older := by
  intro other slot op next value same accepted isValue short
  cases same
  obtain ⟨stored, flag⟩ := (Arrival.accepted_iff accepted isValue short).mpr
    (reads slot op next value accepted isValue short)
  refine ⟨stored, fun state last isLast lastShort => ?_⟩
  obtain ⟨-, -, -, atSlot, -, -⟩ := Arrival.accepted_eq_some accepted
  have type := (typed atSlot).subscribed (by simp [state])
  rw [flag state, remembers slot op last atSlot type isLast lastShort, ne_comm]

theorem SameSeq.refl (op : ExoOp) : SameSeq op op := ⟨rfl, rfl⟩

theorem Remembers.processed {env : SlotEnv} {i : Nat} (remembers : Remembers sys older)
    (atSlot : sys.ops[i]? = some op) (step : SlotStep env sys i op after) :
    Remembers after older := by
  cases step with
  | idle | unexpectedWait | unsent | unresent | unacked =>
      exact remembers.of_same (.of_ops SameSeq.refl rfl)
  | unexpectedNew => exact remembers.of_same (.setOp SameSeq.refl atSlot rfl (Or.inl (by simp)))
  | _ => exact remembers.of_same (.setOp SameSeq.refl atSlot rfl (Or.inr ⟨rfl, rfl⟩))

theorem Remembers.called {action : UserCall} (remembers : Remembers sys older)
    (other : action.operation sys = []) (called : call sys action = .ok after) :
    Remembers after (action.history sys older) := by
  obtain ⟨queued, aliasPtr, valuePtr, valueMax, op, rfl, atSlot, ops⟩ | ⟨same, kept⟩ :=
    @call_subscriptions sys older action after other called
  · intro slot next last isNext type isLast short
    rw [UserCall.history, lastObserve] at isLast
    split_ifs at isLast with another
    rw [ops, List.getElem?_set_ne another] at isNext
    exact remembers slot next last isNext type isLast short
  · rw [same]
    refine remembers.of_same (kept.mono ?_)
    rintro op next (rfl | rfl)
    · exact .refl next
    · exact ⟨rfl, rfl⟩

/-- Where the loop reads all numbers, the history is right and the ops remember it. -/
theorem numbersRule : HistoryRule NumbersRight Remembers
    fun arrival => AllTyped arrival.before ∧ arrival.ReadsNumber where
  ready := fun ran remembers => remembers.of_same (exoReady_subscriptions SameSeq.refl ran)
  received := fun ⟨typed, reads⟩ remembers =>
    ⟨remembers.numbersRight typed reads, fun _ _ ran => remembers.received reads ran⟩
  processed := by
    intro now env sys after i op happened atSlot ran remembers
    have later := remembers.processed atSlot (exoProcessOp_cases ran)
    obtain none | ⟨datagram, sent⟩ := observeRequest_cases env i op after
    · rw [none]
      exact ⟨by simp, later⟩
    · rw [sent]
      exact ⟨by simp [NumbersRight], later⟩
  called := fun other called remembers => remembers.called other called
  subscribed := by simp [NumbersRight]

/-- Only a loop that reads the number stores the right one. -/
theorem Arrival.readsNumber_of_numbersRight
    (right : EachEntry NumbersRight (history sys older calls))
    (member : arrival ∈ arrivals sys calls) : arrival.ReadsNumber := by
  intro slot op next value accepted isValue short
  obtain ⟨newer, before, split⟩ := List.append_of_mem (mem_history member)
  have stored :=
    (right newer _ before split arrival slot op next value rfl accepted isValue short).1
  rw [(Arrival.accepted_seq accepted isValue).1] at stored
  exact (joinBytes_toNat_iff arrival.rx.wideShift (seqSeed op) short).mp stored

end Runs

/-- For every datagram that an op accepts in any state, and for all of them in any run,
the Observe numbers are right exactly when the loop reads them. -/
theorem observeNumbers_iff (count : Nat) (heap : Mem) (calls : List UserCall) :
    (∀ (arrival : Arrival) slot op next value, arrival.accepted slot = some (op, next) →
      observeValue arrival.rx = some value → value.length ≤ 3 →
        ((next.obsSeq.toNat = beValue value ∧ (op.state = .subscribed →
          (next.state = .subAckNew ↔ op.obsSeq.toNat ≠ beValue value))) ↔
            ReadsExactly (seqSeed op) value)) ∧
    (EachEntry NumbersRight (history (powerOn count heap) [] calls) ↔
      ∀ arrival ∈ arrivals (powerOn count heap) calls, arrival.ReadsNumber) := by
  refine ⟨fun _ _ _ _ _ => Arrival.accepted_iff, ⟨?_, ?_⟩⟩
  · exact fun right arrival member => Arrival.readsNumber_of_numbersRight right member
  · intro reads
    refine (numbersRule.run .nil (fun _ _ _ _ _ impossible => by cases impossible) ?_).1
    intro arrival member
    have reached := (arrivals_reached member).sysSteps
    have typed : AllTyped arrival.before := (allTyped_of_reached reached).1
    exact ⟨typed, reads arrival member⟩

/-- The dataport "a" is subscribed, and the observe request with message id `mid` is answered
with an Observe number. -/
def subscribing (mid observe : UInt8) : List UserCall :=
  [.subscribe 1 1 3 8, quietOperate [],
    quietOperate [[0x62, 0x45, 0, mid, 0x11, 0x22, 0x61, observe, 0xFF, 0x78]], .opDone 1]

/-- The subscription starts with number 5. -/
def firstSubscription : List UserCall := quietInit :: subscribing 8 5

/-- It is queued once more, and starts with number 2. -/
def secondSubscription : List UserCall := firstSubscription ++ subscribing 9 2

/-- A notification with the number 256 in three bytes. -/
def threeByteNotification : List UInt8 :=
  [0x42, 0x45, 0, 99, 0x11, 0x22, 0x63, 0, 1, 0, 0xFF, 0x79]

/-- The response to an observe request, with number 2. -/
def secondResponse : List UInt8 := [0x62, 0x45, 0, 9, 0x11, 0x22, 0x61, 2, 0xFF, 0x78]

/-- A notification with number 7. -/
def laterNotification : List UInt8 := [0x42, 0x45, 0, 99, 0x11, 0x22, 0x61, 7, 0xFF, 0x79]

/-- What the op in slot 1 makes of a datagram that arrives behind some calls. -/
def acceptedBehind (front : List UserCall) (bytes : List UInt8) :
    Exec (ExoDeviceState × Option (UInt32 × UInt32)) := do
  let sys ← run (powerOn 2 quietHeap) front
  let ready ← exoReady 10 sys
  return (sys.deviceState, ((⟨ready, arrives bytes⟩ : Arrival).accepted 1).map
    fun both => (seqSeed both.1, both.2.obsSeq))

section Behind

variable {front : List UserCall} {bytes value : List UInt8} {seed seq : UInt32}

theorem acceptedBehind_cases
    (computed : acceptedBehind front bytes = .ok (.initialized, some (seed, seq))) :
    ∃ arrival op next, arrival ∈ arrivals (powerOn 2 quietHeap) (front ++ [quietOperate [bytes]]) ∧
      arrival.rx = arrives bytes ∧ arrival.accepted 1 = some (op, next) ∧ seqSeed op = seed ∧
        next.obsSeq = seq := by
  obtain ⟨sys, ran, computed⟩ := Exec.bind_eq_ok.mp computed
  obtain ⟨ready, isReady, computed⟩ := Exec.bind_eq_ok.mp computed
  simp only [Exec.pure_eq_ok, Except.ok.injEq, Prod.mk.injEq, Option.map_eq_some_iff] at computed
  obtain ⟨on, ⟨op, next⟩, accepted, isSeed, isSeq⟩ := computed
  exact ⟨_, op, next, mem_arrivals ran (by simp [on]) isReady rfl, rfl, accepted, isSeed, isSeq⟩

/-- A number that the loop does not read makes the run wrong. -/
theorem not_numbersRight
    (computed : acceptedBehind front bytes = .ok (.initialized, some (seed, seq)))
    (isValue : observeValue (arrives bytes) = some value) (short : value.length ≤ 3)
    (misread : ¬ ReadsExactly seed value) : ¬ EachEntry NumbersRight
      (history (powerOn 2 quietHeap) [] (front ++ [quietOperate [bytes]])) := by
  intro right
  obtain ⟨arrival, op, next, member, isRx, accepted, isSeed, -⟩ := acceptedBehind_cases computed
  rw [← isRx] at isValue
  rw [← isSeed] at misread
  exact misread (Arrival.readsNumber_of_numbersRight right member 1 op next value accepted isValue
    short)

end Behind

/-- The number 256 in three bytes is read as 65536; a second subscription that starts with
number 2 is left with 7, for the 5 of the first one, so that the notification with number 7
does not count as new. -/
theorem observeNumbers_misread :
    (¬ EachEntry NumbersRight (history (powerOn 2 quietHeap) []
      (firstSubscription ++ [quietOperate [threeByteNotification]])) ∧
        acceptedBehind firstSubscription threeByteNotification =
          .ok (.initialized, some (0, 65536))) ∧
    (¬ EachEntry NumbersRight (history (powerOn 2 quietHeap) []
      (firstSubscription ++ [.subscribe 1 1 3 8, quietOperate []] ++
        [quietOperate [secondResponse]])) ∧
      (run (powerOn 2 quietHeap) (secondSubscription ++ [quietOperate [laterNotification]])).map
        (fun after => after.ops.map fun op => (op.state, op.obsSeq)) =
          .ok [(.pending, 0), (.subscribed, 7)]) := by
  have three : acceptedBehind firstSubscription threeByteNotification =
      .ok (.initialized, some (0, 65536)) := by decide +kernel
  have second : acceptedBehind (firstSubscription ++ [.subscribe 1 1 3 8, quietOperate []])
      secondResponse = .ok (.initialized, some (5, 7)) := by decide +kernel
  have threeValue : observeValue (arrives threeByteNotification) = some [0, 1, 0] := by
    decide +kernel
  have secondValue : observeValue (arrives secondResponse) = some [2] := by decide +kernel
  refine ⟨⟨?_, three⟩, ?_, by decide +kernel⟩
  · exact not_numbersRight three threeValue (by decide) (by simp [ReadsExactly])
  · exact not_numbersRight second secondValue (by decide) (by simp [ReadsExactly]; decide)

/-- A notification with number 7 behind the first subscription is read exactly. -/
theorem observeNumbers_iff_later : ∃ (arrival : Arrival) (op next : ExoOp),
    arrival ∈ arrivals (powerOn 2 quietHeap) (firstSubscription ++
      [quietOperate [laterNotification]]) ∧
    arrival.accepted 1 = some (op, next) ∧ observeValue arrival.rx = some [7] ∧
      next.obsSeq.toNat = beValue [7] ∧
        (op.state = .subscribed → (next.state = .subAckNew ↔ op.obsSeq.toNat ≠ beValue [7])) := by
  have computed : acceptedBehind firstSubscription laterNotification =
      .ok (.initialized, some (0, 7)) := by decide +kernel
  have isValue : observeValue (arrives laterNotification) = some [7] := by decide +kernel
  obtain ⟨arrival, op, next, member, isRx, accepted, isSeed, -⟩ := acceptedBehind_cases computed
  rw [← isRx] at isValue
  refine ⟨arrival, op, next, member, accepted, isValue, ?_⟩
  refine ((observeNumbers_iff 2 quietHeap (firstSubscription ++
    [quietOperate [laterNotification]])).1 arrival 1 op next [7] accepted isValue
      (by decide)).mpr ?_
  rw [isSeed]
  simp [ReadsExactly]

end ExositeCoap.Exosite
