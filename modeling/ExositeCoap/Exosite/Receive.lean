import ExositeCoap.Exosite.Build

/-!
# Handling received datagrams

`exo_process_waiting_datagrams`.  Each valid datagram is offered to the ops in
order of their slots until one takes it; the reaction of that op is one of a few
kinds (`Reaction`).  `exoMatchOp_cases` and `exoScan_match` say so once, and all
later statements about received datagrams rest on them.
-/

namespace ExositeCoap.Exosite

open Lib Wire Coap

/-- A datagram in the receive buffer, with what the platform answers while it is
handled. The bytes behind the datagram are those left on the stack. -/
structure Received extends Buffer where
  fits : pdu.len ≤ pdu.max
  placed : pdu.Placed
  time : UInt64
  rand : UInt64
  sendOk : Bool
  /-- what shifts by 32 bits or more yield, which C leaves open -/
  wideShift : UInt32 → UInt32

/-- Enough rounds for every search through the options of a packet. -/
def searchFuel (pdu : CoapPdu) : Nat := 65536 * (pdu.len + 2)

/-! ## Parts of the branches -/

/-- What becomes of a payload that an op is to receive. -/
inductive StoreResult where
  /-- no payload: the buffer is made the empty string -/
  | empty (heap : Mem)
  /-- too long, or no buffer -/
  | rejected
  /-- copied, with a terminating zero -/
  | stored (heap : Mem)
  deriving DecidableEq, Repr

/-- The copy of the payload into `op[i].value`, which occurs three times. -/
def storePayload (pdu : CoapPdu) (heap : Mem) (op : ExoOp) : Exec StoreResult := do
  let payload ← coapGetPayload pdu
  if payload.len = 0 then
    return .empty (← userStore heap op.valuePtr [0])
  else if (payload.len + 1) % 2 ^ 64 > op.valueMax ∨ op.valuePtr = 0 then
    return .rejected
  else
    match payload.val with
    | none => throw .fault
    | some pos =>
      let heap ← userStore heap op.valuePtr (← pdu.mem.slice pos payload.len)
      return .stored (← userStore heap (op.valuePtr + payload.len) [0])

/-- The timeout of a subscription: Max-Age (default two minutes) from now, plus up
to one and a half seconds. -/
def subscriptionTimeout (rx : Received) : Exec UInt64 := do
  let opt ← coapGetOptionByNum rx.pdu (searchFuel rx.pdu) conMaxAge 0
  let maxAge : UInt8 ←
    if opt.num ≠ 0 ∧ opt.len = 1 then
      match opt.val with
      | none => throw .fault
      | some pos => rx.pdu.mem.read pos
    else pure 120
  return rx.time + maxAge.toUInt64 * 1000000 + rx.rand % 1500000

/-- The loop over the bytes of the Observe option, from index `j` on. -/
def observeLoop (rx : Received) (val : Ptr) : (left j : Nat) → (seq : UInt32) → Exec UInt32
  | 0, _, seq => pure seq
  | left + 1, j, seq => do
    let byte ←
      match val with
      | none => throw .fault
      | some pos => rx.pdu.mem.read (pos + j)
    let shifted := if 8 * j < 32 then seq <<< UInt32.ofNat (8 * j) else rx.wideShift seq
    observeLoop rx val left (j + 1) (shifted ||| byte.toUInt32)

/-- The Observe number of the datagram, starting from `seq`. The option need not
be there. -/
def observeSeq (rx : Received) (seq : UInt32) : Exec UInt32 := do
  let opt ← coapGetOptionByNum rx.pdu (searchFuel rx.pdu) conObserve 0
  observeLoop rx opt.val opt.len 0 seq

/-! ## The branches -/

/-- A notification for the subscribed op in slot `i`. -/
def exoNotified (rx : Received) (sys : Sys) (i : Nat) (op : ExoOp) : Exec Sys := do
  if (← coapGetCode rx.pdu) = ccContent then
    let newSeq ← observeSeq rx 0
    match ← storePayload rx.pdu sys.heap op with
    | .empty heap => return { sys with heap }
    | .rejected => return sys.setOp i { op with state := .error }
    | .stored heap =>
      let mid ← coapGetMid rx.pdu
      let timeout ← subscriptionTimeout rx
      if op.obsSeq ≠ newSeq then
        return { sys with heap }.setOp i
          { op with mid, state := .subAckNew, obsSeq := newSeq, timeout }
      else
        return { sys with heap }.setOp i { op with mid, state := .subAck, timeout }
  else if (← coapGetCodeClass rx.pdu) ≠ 2 then
    return sys.setOp i { op with state := .error }
  else
    return sys

/-- A response of class 2 to the pending op in slot `i`; the flag says whether the
loop over the ops is left. -/
def exoAnswered (rx : Received) (sys : Sys) (i : Nat) (op : ExoOp) : Exec (Bool × Sys) := do
  match op.type with
  | .write => return (true, sys.setOp i { op with state := .success })
  | .read =>
    match ← storePayload rx.pdu sys.heap op with
    | .empty heap => return (true, { sys with heap })
    | .rejected => return (true, sys.setOp i { op with state := .error })
    | .stored heap => return (true, { sys with heap }.setOp i { op with state := .success })
  | .subscribe =>
    match ← storePayload rx.pdu sys.heap op with
    | .empty heap => return (true, { sys with heap })
    | .rejected => return (true, sys.setOp i { op with state := .error })
    | .stored heap =>
      let timeout ← subscriptionTimeout rx
      let obsSeq ← observeSeq rx op.obsSeq
      return (true, { sys with heap }.setOp i { op with state := .success, obsSeq, timeout })
  | .activate =>
    let payload ← coapGetPayload rx.pdu
    if payload.len = cikLength then
      match payload.val with
      | none => throw .fault
      | some pos =>
        let cik := (← rx.pdu.mem.slice pos cikLength) ++ [0]
        return (true, ({ sys with cik, deviceState := .good }.record (.storedCik cik)).setOp i
          exoOpInit)
    else
      -- state := ERROR, at once overwritten by exo_op_init
      return (true, sys.setOp i exoOpInit)
  | .null => return (false, sys.record (.unexpected i)) -- pending null request? shouldn't be possible

/-- A response of another class to the pending op in slot `i`. -/
def exoRefused (rx : Received) (sys : Sys) (i : Nat) (op : ExoOp) : Exec Sys := do
  let sys := sys.setOp i { op with state := .error }
  let code ← coapGetCode rx.pdu
  if code = ccUnauthorized then
    match sys.ops[0]? with
    | none => throw .fault
    | some first =>
      if first.type = .null ∨ first.timeout < rx.time then
        return sys.setOp 0 (exoActivate first)
      else
        return sys
  else if code = ccNotFound then
    return { sys with deviceState := .good }
  else
    return sys

/-- One round of the loop over the ops. The flag says whether the loop is left. -/
def exoMatchOp (rx : Received) (sys : Sys) (i : Nat) (op : ExoOp) : Exec (Bool × Sys) := do
  let token ← coapGetToken rx.pdu
  let mid ← coapGetMid rx.pdu
  match ← coapGetType rx.pdu with
  | .con | .non =>
    if op.state = .subscribed ∧ token = op.token.toNat then
      return (true, ← exoNotified rx sys i op)
    else
      return (false, sys)
  | .ack =>
    if op.state = .pending ∧ op.mid = mid then
      if (← coapGetCodeClass rx.pdu) = 2 then
        exoAnswered rx sys i op
      else
        return (true, ← exoRefused rx sys i op)
    else
      return (false, sys)
  | .rst =>
    if (op.state = .pending ∨ op.state = .subscribed) ∧ op.mid = mid ∧
        op.token.toNat = token then
      return (true, sys.setOp i { op with state := .error })
    else
      return (false, sys)

/-- The loop over the ops, from slot `i` on. -/
def exoScan (rx : Received) (sys : Sys) : (left i : Nat) → Exec (Bool × Sys)
  | 0, _ => return (false, sys)
  | left + 1, i =>
    match sys.ops[i]? with
    | none => throw .fault
    | some op => do
      let (taken, sys) ← exoMatchOp rx sys i op
      if taken then return (true, sys) else exoScan rx sys left (i + 1)

/-- One round of the receive loop. The flag says whether it goes on. -/
def exoHandleDatagram (rx : Received) (sys : Sys) : Exec (Bool × Sys) := do
  if (← coapValidatePkt rx.pdu) ≠ .ceNone then
    return (true, sys) -- Invalid Packet, Ignore
  let (matched, after) ← exoScan rx sys sys.ops.length 0
  let after := after.record (.handled sys.ops rx.pdu)
  if matched then
    return (true, after)
  else if (← coapGetType rx.pdu) = .con then
    -- we don't recognize message, reply RST
    let tkl ← coapGetTkl rx.pdu
    let (_, reply) ← exoBuildMsgRst rx.pdu (← coapGetMid rx.pdu)
      (UInt64.ofNat (← coapGetToken rx.pdu)) (UInt8.ofNat tkl)
    let datagram ← reply.mem.slice 0 reply.len
    return (false, after.record (.sent (.rst sys.ops rx.pdu) datagram rx.sendOk))
  else
    return (false, after)

/-- `exo_process_waiting_datagrams`, for the datagrams that `exopal_udp_recv`
delivers. After one that no op takes, the others have to wait for the next call. -/
def exoProcessWaitingDatagrams (sys : Sys) : List Received → Exec Sys
  | [] => pure sys
  | rx :: rest => do
    let (goOn, sys) ← exoHandleDatagram rx sys
    if goOn then exoProcessWaitingDatagrams sys rest else return sys

/-! ## What a copied payload touches -/

/-- The address lies in the value buffer of the op. -/
def InValue (op : ExoOp) (address : Nat) : Prop :=
  op.valuePtr ≠ 0 ∧ op.valuePtr ≤ address ∧ address < op.valuePtr + op.valueMax

instance (op : ExoOp) (address : Nat) : Decidable (InValue op address) :=
  inferInstanceAs (Decidable (_ ∧ _))

/-- The copy of the payload may write to the address. Without payload that is the first
byte of the value, whether the buffer has one or not. -/
def Touches (pdu : CoapPdu) (op : ExoOp) (address : Nat) : Prop :=
  InValue op address ∨ (address = op.valuePtr ∧
    ∃ payload, coapGetPayload pdu = .ok payload ∧ payload.len = 0)

/-- If the buffer has a byte, nothing else is written to. -/
theorem Touches.inValue {pdu : CoapPdu} {op : ExoOp} {address : Nat}
    (touches : Touches pdu op address) (place : op.valuePtr ≠ 0) (some : 1 ≤ op.valueMax) :
    InValue op address := by
  obtain inside | ⟨rfl, -⟩ := touches
  · exact inside
  · exact ⟨place, Nat.le_refl _, by omega⟩

theorem userStore_ne_null {heap result : Mem} {address : Nat} {bytes : List UInt8}
    (stored : userStore heap address bytes = .ok result) : address ≠ 0 := by
  rintro rfl
  cases stored

theorem userStore_getElem? {heap result : Mem} {address : Nat} {bytes : List UInt8}
    (stored : userStore heap address bytes = .ok result) {other : Nat}
    (outside : other < address ∨ address + bytes.length ≤ other) :
    result[other]? = heap[other]? := by
  unfold userStore at stored
  split_ifs at stored
  exact Mem.store_getElem?_of_outside stored outside

section StorePayload

variable {pdu : CoapPdu} {heap after : Mem} {op : ExoOp}

/-- The ways in which the copy of a payload returns. -/
inductive StoresPayload (pdu : CoapPdu) (heap : Mem) (op : ExoOp) : StoreResult → Prop where
  | empty {payload : CoapPayload} {after : Mem} (got : coapGetPayload pdu = .ok payload)
      (absent : payload.len = 0) (terminated : userStore heap op.valuePtr [0] = .ok after) :
      StoresPayload pdu heap op (.empty after)
  | rejected {payload : CoapPayload} (got : coapGetPayload pdu = .ok payload)
      (present : payload.len ≠ 0)
      (tooLong : (payload.len + 1) % 2 ^ 64 > op.valueMax ∨ op.valuePtr = 0) :
      StoresPayload pdu heap op .rejected
  | stored {payload : CoapPayload} {pos : Nat} {bytes : List UInt8} {middle after : Mem}
      (got : coapGetPayload pdu = .ok payload) (present : payload.len ≠ 0)
      (val : payload.val = some pos) (fits : (payload.len + 1) % 2 ^ 64 ≤ op.valueMax)
      (loaded : pdu.mem.slice pos payload.len = .ok bytes)
      (copied : userStore heap op.valuePtr bytes = .ok middle)
      (terminated : userStore middle (op.valuePtr + payload.len) [0] = .ok after) :
      StoresPayload pdu heap op (.stored after)

theorem storePayload_cases {result : StoreResult}
    (store : storePayload pdu heap op = .ok result) : StoresPayload pdu heap op result := by
  obtain ⟨payload, got, store⟩ := Exec.bind_eq_ok.mp store
  split_ifs at store with absent tooLong
  · obtain ⟨after, terminated, store⟩ := Exec.bind_eq_ok.mp store
    cases store
    exact .empty got absent terminated
  · cases store
    exact .rejected got absent tooLong
  · cases val : payload.val with
    | none =>
        rw [val] at store
        cases store
    | some pos =>
        rw [val] at store
        obtain ⟨bytes, loaded, store⟩ := Exec.bind_eq_ok.mp store
        obtain ⟨middle, copied, store⟩ := Exec.bind_eq_ok.mp store
        obtain ⟨after, terminated, store⟩ := Exec.bind_eq_ok.mp store
        cases store
        have fits := Nat.le_of_not_lt fun long => tooLong (Or.inl long)
        exact .stored got absent val fits loaded copied terminated

theorem storePayload_empty (store : storePayload pdu heap op = .ok (.empty after)) :
    ∃ payload, coapGetPayload pdu = .ok payload ∧ payload.len = 0 ∧
      userStore heap op.valuePtr [0] = .ok after := by
  cases storePayload_cases store with
  | empty got absent terminated => exact ⟨_, got, absent, terminated⟩

/-- Anything else needs a payload. -/
theorem storePayload_nonempty {result : StoreResult}
    (store : storePayload pdu heap op = .ok result) (nonempty : ∀ heap, result ≠ .empty heap) :
    ∃ payload, coapGetPayload pdu = .ok payload ∧ payload.len ≠ 0 := by
  cases storePayload_cases store with
  | empty => exact absurd rfl (nonempty _)
  | rejected got present => exact ⟨_, got, present⟩
  | stored got present => exact ⟨_, got, present⟩

theorem storePayload_stored (store : storePayload pdu heap op = .ok (.stored after)) :
    ∃ payload pos bytes middle, coapGetPayload pdu = .ok payload ∧ payload.val = some pos ∧
      (payload.len + 1) % 2 ^ 64 ≤ op.valueMax ∧ pdu.mem.slice pos payload.len = .ok bytes ∧
      userStore heap op.valuePtr bytes = .ok middle ∧
      userStore middle (op.valuePtr + payload.len) [0] = .ok after := by
  cases storePayload_cases store with
  | stored got _ val fits loaded copied terminated =>
      exact ⟨_, _, _, _, got, val, fits, loaded, copied, terminated⟩

theorem storePayload_rejected (store : storePayload pdu heap op = .ok .rejected) :
    ∃ payload, coapGetPayload pdu = .ok payload ∧ payload.len ≠ 0 ∧
      (op.valueMax < (payload.len + 1) % 2 ^ 64 ∨ op.valuePtr = 0) := by
  cases storePayload_cases store with
  | rejected got present tooLong => exact ⟨_, got, present, tooLong⟩

/-- A payload is copied into the value buffer of the op and nowhere else. -/
theorem storePayload_getElem? (bounded : pdu.mem.length < 2 ^ 63)
    (store : storePayload pdu heap op = .ok (.empty after) ∨
      storePayload pdu heap op = .ok (.stored after))
    {address : Nat} (outside : ¬ Touches pdu op address) : after[address]? = heap[address]? := by
  rcases store with empty | stored
  · obtain ⟨payload, got, absent, stored⟩ := storePayload_empty empty
    have other : address ≠ op.valuePtr :=
      fun same => outside (Or.inr ⟨same, payload, got, absent⟩)
    exact userStore_getElem? stored (by rw [List.length_singleton]; omega)
  · obtain ⟨payload, pos, bytes, middle, -, -, fits, loaded, first, second⟩ :=
      storePayload_stored stored
    have place := userStore_ne_null first
    have beyond : ¬ InValue op address := fun inside => outside (Or.inl inside)
    unfold InValue at beyond
    have size := Mem.slice_length loaded
    have small : payload.len < 2 ^ 63 := by
      unfold Mem.slice at loaded
      split_ifs at loaded with mapped
      omega
    rw [userStore_getElem? second (by rw [List.length_singleton]; omega),
      userStore_getElem? first (by omega)]

end StorePayload

/-! ## What an op does with a datagram -/

/-- The op takes the datagram: it is a notification, a response or a reset for it. -/
inductive Takes (rx : Received) (op : ExoOp) : Prop where
  | notification {kind : CoapType} (type : coapGetType rx.pdu = .ok kind)
      (isMessage : kind = .con ∨ kind = .non) (state : op.state = .subscribed)
      (token : coapGetToken rx.pdu = .ok op.token.toNat)
  | response (type : coapGetType rx.pdu = .ok .ack) (state : op.state = .pending)
      (mid : coapGetMid rx.pdu = .ok op.mid)
  | reset (type : coapGetType rx.pdu = .ok .rst)
      (state : op.state = .pending ∨ op.state = .subscribed)
      (mid : coapGetMid rx.pdu = .ok op.mid)
      (token : coapGetToken rx.pdu = .ok op.token.toNat)

section Takes

variable {rx : Received} {op : ExoOp} {kind : CoapType}

theorem takes_message (isKind : coapGetType rx.pdu = .ok kind)
    (isMessage : kind = .con ∨ kind = .non) :
    Takes rx op ↔ op.state = .subscribed ∧ coapGetToken rx.pdu = .ok op.token.toNat := by
  constructor
  · intro takes
    cases takes with
    | notification _ _ state token => exact ⟨state, token⟩
    | response type =>
        rw [isKind] at type
        cases type
        simp at isMessage
    | reset type =>
        rw [isKind] at type
        cases type
        simp at isMessage
  · exact fun ⟨state, token⟩ => .notification isKind isMessage state token

theorem takes_ack (isKind : coapGetType rx.pdu = .ok .ack) :
    Takes rx op ↔ op.state = .pending ∧ coapGetMid rx.pdu = .ok op.mid := by
  constructor
  · intro takes
    cases takes with
    | notification type isMessage =>
        rw [isKind] at type
        cases type
        simp at isMessage
    | response _ state mid => exact ⟨state, mid⟩
    | reset type =>
        rw [isKind] at type
        cases type
  · exact fun ⟨state, mid⟩ => .response isKind state mid

theorem takes_rst (isKind : coapGetType rx.pdu = .ok .rst) :
    Takes rx op ↔ (op.state = .pending ∨ op.state = .subscribed) ∧
      coapGetMid rx.pdu = .ok op.mid ∧ coapGetToken rx.pdu = .ok op.token.toNat := by
  constructor
  · intro takes
    cases takes with
    | notification type isMessage =>
        rw [isKind] at type
        cases type
        simp at isMessage
    | response type =>
        rw [isKind] at type
        cases type
    | reset _ state mid token => exact ⟨state, mid, token⟩
  · exact fun ⟨state, mid, token⟩ => .reset isKind state mid token

end Takes

/-- The op copies payloads: it is subscribed, or a read or subscription waits for
its first response. -/
def Receives (op : ExoOp) : Prop :=
  op.state = .subscribed ∨
    (op.state = .pending ∧ (op.type = .read ∨ op.type = .subscribe))

/-- The reaction of the op in slot `i` to a datagram that it takes. -/
inductive Reaction (rx : Received) (sys : Sys) (i : Nat) (op : ExoOp) : Sys → Prop where
  /-- a notification of class 2 without content -/
  | ignored (state : op.state = .subscribed) : Reaction rx sys i op sys
  /-- a notification of another class -/
  | denied (state : op.state = .subscribed) :
      Reaction rx sys i op (sys.setOp i { op with state := .error })
  /-- content without payload, the state stays -/
  | emptied {heap : Mem} (receives : Receives op)
      (store : storePayload rx.pdu sys.heap op = .ok (.empty heap)) :
      Reaction rx sys i op { sys with heap }
  /-- content that does not fit the buffer -/
  | rejected (receives : Receives op)
      (store : storePayload rx.pdu sys.heap op = .ok .rejected) :
      Reaction rx sys i op (sys.setOp i { op with state := .error })
  /-- content of a notification -/
  | notified {heap : Mem} {mid : UInt16} {state : ExoRequestState} {obsSeq : UInt32}
      {timeout : UInt64} (before : op.state = .subscribed)
      (acks : state = .subAck ∨ state = .subAckNew) (isMid : coapGetMid rx.pdu = .ok mid)
      (store : storePayload rx.pdu sys.heap op = .ok (.stored heap)) :
      Reaction rx sys i op
        ({ sys with heap }.setOp i { op with mid, state, obsSeq, timeout })
  /-- the answer to a write -/
  | written (state : op.state = .pending) (type : op.type = .write) :
      Reaction rx sys i op (sys.setOp i { op with state := .success })
  /-- the answer to a read or a subscription -/
  | delivered {heap : Mem} {obsSeq : UInt32} {timeout : UInt64}
      (state : op.state = .pending) (type : op.type = .read ∨ op.type = .subscribe)
      (store : storePayload rx.pdu sys.heap op = .ok (.stored heap)) :
      Reaction rx sys i op
        ({ sys with heap }.setOp i { op with state := .success, obsSeq, timeout })
  /-- a CIK for the activation request -/
  | activated {payload : CoapPayload} {pos : Nat} {bytes : List UInt8}
      (state : op.state = .pending) (type : op.type = .activate)
      (isPayload : coapGetPayload rx.pdu = .ok payload) (length : payload.len = cikLength)
      (place : payload.val = some pos) (copied : rx.pdu.mem.slice pos cikLength = .ok bytes) :
      Reaction rx sys i op (({ sys with cik := bytes ++ [0], deviceState := .good }.record
        (.storedCik (bytes ++ [0]))).setOp i exoOpInit)
  /-- something else for the activation request -/
  | notActivated (state : op.state = .pending) (type : op.type = .activate) :
      Reaction rx sys i op (sys.setOp i exoOpInit)
  /-- a response of another class -/
  | refused (state : op.state = .pending) (failed : coapGetCodeClass rx.pdu ≠ .ok 2) :
      Reaction rx sys i op (sys.setOp i { op with state := .error })
  /-- 4.01: the activation starts over in slot 0 -/
  | reactivated {first : ExoOp} (state : op.state = .pending)
      (failed : coapGetCodeClass rx.pdu ≠ .ok 2)
      (code : coapGetCode rx.pdu = .ok ccUnauthorized)
      (atZero : (sys.ops.set i { op with state := .error })[0]? = some first)
      (free : first.type = .null ∨ first.timeout < rx.time) :
      Reaction rx sys i op
        ((sys.setOp i { op with state := .error }).setOp 0 (exoActivate first))
  /-- 4.04: the CIK is known -/
  | notFound (state : op.state = .pending) (failed : coapGetCodeClass rx.pdu ≠ .ok 2)
      (code : coapGetCode rx.pdu = .ok ccNotFound) :
      Reaction rx sys i op
        { sys.setOp i { op with state := .error } with deviceState := .good }
  /-- a reset -/
  | reset (state : op.state = .pending ∨ op.state = .subscribed)
      (type : coapGetType rx.pdu = .ok .rst) :
      Reaction rx sys i op (sys.setOp i { op with state := .error })

section Reactions

variable {rx : Received} {sys after : Sys} {i : Nat} {op : ExoOp}

theorem exoNotified_cases (state : op.state = .subscribed)
    (ran : exoNotified rx sys i op = .ok after) : Reaction rx sys i op after := by
  obtain ⟨code, -, ran⟩ := Exec.bind_eq_ok.mp ran
  split_ifs at ran with content
  · obtain ⟨newSeq, -, ran⟩ := Exec.bind_eq_ok.mp ran
    obtain ⟨result, store, ran⟩ := Exec.bind_eq_ok.mp ran
    cases result with
    | empty heap =>
        cases ran
        exact .emptied (Or.inl state) store
    | rejected =>
        cases ran
        exact .rejected (Or.inl state) store
    | stored heap =>
        obtain ⟨mid, isMid, ran⟩ := Exec.bind_eq_ok.mp ran
        obtain ⟨timeout, -, ran⟩ := Exec.bind_eq_ok.mp ran
        split_ifs at ran
        · cases ran
          exact .notified state (Or.inr rfl) isMid store
        · cases ran
          exact .notified state (Or.inl rfl) isMid store
  · obtain ⟨codeClass, -, ran⟩ := Exec.bind_eq_ok.mp ran
    split_ifs at ran
    · cases ran
      exact .denied state
    · cases ran
      exact .ignored state

/-- Either the op reacts, or it is the impossible pending op without type. -/
theorem exoAnswered_cases {taken : Bool} (state : op.state = .pending)
    (ran : exoAnswered rx sys i op = .ok (taken, after)) :
    (taken = true ∧ Reaction rx sys i op after) ∨
      (taken = false ∧ op.type = .null ∧ after = sys.record (.unexpected i)) := by
  unfold exoAnswered at ran
  split at ran
  next type =>
    cases ran
    exact Or.inl ⟨rfl, .written state type⟩
  next type =>
    obtain ⟨result, store, ran⟩ := Exec.bind_eq_ok.mp ran
    have receives : Receives op := Or.inr ⟨state, Or.inl type⟩
    cases result with
    | empty heap =>
        cases ran
        exact Or.inl ⟨rfl, .emptied receives store⟩
    | rejected =>
        cases ran
        exact Or.inl ⟨rfl, .rejected receives store⟩
    | stored heap =>
        cases ran
        exact Or.inl ⟨rfl, .delivered state (Or.inl type) store⟩
  next type =>
    obtain ⟨result, store, ran⟩ := Exec.bind_eq_ok.mp ran
    have receives : Receives op := Or.inr ⟨state, Or.inr type⟩
    cases result with
    | empty heap =>
        cases ran
        exact Or.inl ⟨rfl, .emptied receives store⟩
    | rejected =>
        cases ran
        exact Or.inl ⟨rfl, .rejected receives store⟩
    | stored heap =>
        obtain ⟨timeout, -, ran⟩ := Exec.bind_eq_ok.mp ran
        obtain ⟨obsSeq, -, ran⟩ := Exec.bind_eq_ok.mp ran
        cases ran
        exact Or.inl ⟨rfl, .delivered state (Or.inr type) store⟩
  next type =>
    obtain ⟨payload, isPayload, ran⟩ := Exec.bind_eq_ok.mp ran
    split_ifs at ran with length
    · cases place : payload.val with
      | none =>
          rw [place] at ran
          cases ran
      | some pos =>
          rw [place] at ran
          obtain ⟨bytes, copied, ran⟩ := Exec.bind_eq_ok.mp ran
          cases ran
          exact Or.inl ⟨rfl, .activated state type isPayload length place copied⟩
    · cases ran
      exact Or.inl ⟨rfl, .notActivated state type⟩
  next type =>
    cases ran
    exact Or.inr ⟨rfl, type, rfl⟩

theorem exoRefused_cases (state : op.state = .pending)
    (failed : coapGetCodeClass rx.pdu ≠ .ok 2)
    (ran : exoRefused rx sys i op = .ok after) : Reaction rx sys i op after := by
  obtain ⟨code, isCode, ran⟩ := Exec.bind_eq_ok.mp ran
  split_ifs at ran with unauthorized missing
  · rw [unauthorized] at isCode
    cases atZero : (sys.setOp i { op with state := .error }).ops[0]? with
    | none =>
        rw [atZero] at ran
        cases ran
    | some first =>
        rw [atZero] at ran
        dsimp only at ran
        split_ifs at ran with free
        · cases ran
          exact .reactivated state failed isCode atZero free
        · cases ran
          exact .refused state failed
  · cases ran
    rw [missing] at isCode
    exact .notFound state failed isCode
  · cases ran
    exact .refused state failed

/-- One round of the loop over the ops. -/
theorem exoMatchOp_cases {taken : Bool} (ran : exoMatchOp rx sys i op = .ok (taken, after)) :
    (taken = true ∧ Takes rx op ∧ Reaction rx sys i op after) ∨
    (taken = false ∧ ¬ Takes rx op ∧ after = sys) ∨
    (taken = false ∧ op.state = .pending ∧ op.type = .null ∧
      after = sys.record (.unexpected i)) := by
  obtain ⟨token, isToken, ran⟩ := Exec.bind_eq_ok.mp ran
  obtain ⟨mid, isMid, ran⟩ := Exec.bind_eq_ok.mp ran
  obtain ⟨kind, isKind, ran⟩ := Exec.bind_eq_ok.mp ran
  have notification : kind = .con ∨ kind = .non →
      (if op.state = .subscribed ∧ token = op.token.toNat then do
        return (true, ← exoNotified rx sys i op)
      else return (false, sys)) = Except.ok (taken, after) →
      (taken = true ∧ Takes rx op ∧ Reaction rx sys i op after) ∨
        (taken = false ∧ ¬ Takes rx op ∧ after = sys) := by
    intro isMessage ran
    split_ifs at ran with taking
    · obtain ⟨result, notified, ran⟩ := Exec.bind_eq_ok.mp ran
      cases ran
      rw [taking.2] at isToken
      exact Or.inl ⟨rfl, .notification isKind isMessage taking.1 isToken,
        exoNotified_cases taking.1 notified⟩
    · cases ran
      refine Or.inr ⟨rfl, ?_, rfl⟩
      rw [takes_message isKind isMessage, isToken, Except.ok.injEq]
      exact taking
  cases kind with
  | con => exact (notification (Or.inl rfl) ran).imp_right Or.inl
  | non => exact (notification (Or.inr rfl) ran).imp_right Or.inl
  | ack =>
      dsimp only at ran
      split_ifs at ran with taking
      · obtain ⟨codeClass, isClass, ran⟩ := Exec.bind_eq_ok.mp ran
        rw [← taking.2] at isMid
        have takes : Takes rx op := .response isKind taking.1 isMid
        split_ifs at ran with success
        · obtain ⟨isTaken, reaction⟩ | ⟨isTaken, type, same⟩ :=
            exoAnswered_cases taking.1 ran
          · exact Or.inl ⟨isTaken, takes, reaction⟩
          · exact Or.inr (Or.inr ⟨isTaken, taking.1, type, same⟩)
        · obtain ⟨result, refused, ran⟩ := Exec.bind_eq_ok.mp ran
          cases ran
          have failed : coapGetCodeClass rx.pdu ≠ .ok 2 := by
            rw [isClass]
            exact fun same => success (Except.ok.inj same)
          exact Or.inl ⟨rfl, takes, exoRefused_cases taking.1 failed refused⟩
      · cases ran
        refine Or.inr (Or.inl ⟨rfl, ?_, rfl⟩)
        rw [takes_ack isKind, isMid, Except.ok.injEq, @eq_comm _ mid]
        exact taking
  | rst =>
      dsimp only at ran
      split_ifs at ran with taking
      · cases ran
        rw [← taking.2.1] at isMid
        rw [← taking.2.2] at isToken
        exact Or.inl ⟨rfl, .reset isKind taking.1 isMid isToken, .reset taking.1 isKind⟩
      · cases ran
        refine Or.inr (Or.inl ⟨rfl, ?_, rfl⟩)
        rw [takes_rst isKind, isMid, isToken, Except.ok.injEq, Except.ok.injEq, @eq_comm _ mid,
          @eq_comm _ token]
        exact taking

/-- A reaction changes the memory only where the payload is copied for an op that
receives. -/
theorem Reaction.heap (reaction : Reaction rx sys i op after) (address : Nat) :
    after.heap[address]? = sys.heap[address]? ∨ (Receives op ∧ Touches rx.pdu op address) := by
  by_cases touches : Touches rx.pdu op address
  · cases reaction with
    | emptied receives => exact Or.inr ⟨receives, touches⟩
    | notified state => exact Or.inr ⟨Or.inl state, touches⟩
    | delivered state type => exact Or.inr ⟨Or.inr ⟨state, type⟩, touches⟩
    | _ => exact Or.inl rfl
  · cases reaction with
    | emptied _ store =>
        exact Or.inl (storePayload_getElem? rx.bounded (Or.inl store) touches)
    | notified _ _ _ store =>
        exact Or.inl (storePayload_getElem? rx.bounded (Or.inr store) touches)
    | delivered _ _ store =>
        exact Or.inl (storePayload_getElem? rx.bounded (Or.inr store) touches)
    | _ => exact Or.inl rfl

/-- An op that does not take the datagram, or that is passed over: pending without a
type, which should be impossible. -/
def Skips (rx : Received) (op : ExoOp) : Prop :=
  Takes rx op → op.state = .pending ∧ op.type = .null

/-- Log entries for ops that were passed over. -/
def TracesSkipped (sys : Sys) (events : List Event) : Prop :=
  ∀ event ∈ events, ∃ slot op, event = .unexpected slot ∧ sys.ops[slot]? = some op ∧
    op.state = .pending ∧ op.type = .null

/-- The loop over the ops: the first op that takes the datagram gets it, or none does. -/
theorem exoScan_match {left : Nat} {taken : Bool}
    (ran : exoScan rx sys left i = .ok (taken, after)) :
    ∃ events, TracesSkipped sys events ∧
      ((taken = false ∧ after = sys.logged events ∧
        ∀ slot op, i ≤ slot → slot < i + left → sys.ops[slot]? = some op → Skips rx op) ∨
      (taken = true ∧ ∃ slot op, i ≤ slot ∧ slot < i + left ∧ sys.ops[slot]? = some op ∧
        (∀ j other, i ≤ j → j < slot → sys.ops[j]? = some other → Skips rx other) ∧
          exoMatchOp rx (sys.logged events) slot op = .ok (true, after))) := by
  induction left generalizing sys i with
  | zero =>
      cases ran
      exact ⟨[], nofun, Or.inl ⟨rfl, rfl, fun slot _ lower upper => by omega⟩⟩
  | succ left ih =>
      rw [exoScan] at ran
      cases atSlot : sys.ops[i]? with
      | none =>
          rw [atSlot] at ran
          cases ran
      | some op =>
          rw [atSlot] at ran
          obtain ⟨⟨isTaken, next⟩, round, remaining⟩ := Exec.bind_eq_ok.mp ran
          clear ran
          -- what the remaining rounds tell about slots from `i` on
          have extend : Skips rx op → ∀ {limit : Nat},
              (∀ slot op, i + 1 ≤ slot → slot < limit → sys.ops[slot]? = some op → Skips rx op) →
              ∀ slot op, i ≤ slot → slot < limit → sys.ops[slot]? = some op → Skips rx op := by
            intro here limit later slot other lower upper isOther
            by_cases first : slot = i
            · rw [first, atSlot] at isOther
              cases isOther
              exact here
            · exact later slot other (by omega) upper isOther
          cases isTaken with
          | true =>
              cases remaining
              exact ⟨[], nofun, Or.inr ⟨rfl, i, op, Nat.le_refl _, by omega, atSlot,
                fun j _ lower upper => by omega, round⟩⟩
          | false =>
              have shift : i + (left + 1) = i + 1 + left := by omega
              obtain ⟨impossible, -⟩ | ⟨-, skips, rfl⟩ | ⟨-, state, type, rfl⟩ :=
                exoMatchOp_cases round
              · cases impossible
              · have here : Skips rx op := fun takes => absurd takes skips
                obtain ⟨events, traces, ⟨isTaken, result, rest⟩ |
                  ⟨isTaken, slot, other, lower, upper, isOther, rest, match_⟩⟩ := ih remaining
                · exact ⟨events, traces, Or.inl ⟨isTaken, result, shift ▸ extend here rest⟩⟩
                · exact ⟨events, traces, Or.inr ⟨isTaken, slot, other, by omega, by omega, isOther,
                    extend here rest, match_⟩⟩
              · have here : Skips rx op := fun _ => ⟨state, type⟩
                obtain ⟨events, traces, found⟩ := ih remaining
                have both : (sys.record (.unexpected i)).logged events =
                    sys.logged (events ++ [.unexpected i]) := by simp [Sys.logged, Sys.record]
                have traced : TracesSkipped sys (events ++ [.unexpected i]) := by
                  intro event member
                  rcases List.mem_append.mp member with old | new
                  · exact traces event old
                  · exact ⟨i, op, List.mem_singleton.mp new, atSlot, state, type⟩
                rw [both] at found
                obtain ⟨isTaken, result, rest⟩ |
                  ⟨isTaken, slot, other, lower, upper, isOther, rest, match_⟩ := found
                · exact ⟨_, traced, Or.inl ⟨isTaken, result, shift ▸ extend here rest⟩⟩
                · exact ⟨_, traced, Or.inr ⟨isTaken, slot, other, by omega, by omega, isOther,
                    extend here rest, match_⟩⟩

end Reactions

end ExositeCoap.Exosite
