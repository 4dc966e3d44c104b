import ExositeCoap.Coap.Setters

/-!
# Operations and the user's calls

The data of `src/exosite.h` and `src/exosite.c`, and the calls by which the user
queues, initialises and releases operations.  The memory of the user is one block,
in which aliases, values and read buffers lie at the addresses that the ops hold.
What the library asks of the platform is written to a log, newest entry first.
-/

namespace ExositeCoap.Exosite

open Lib Coap

/-- `exo_error`, as far as it is returned. -/
inductive ExoError where
  | exoOk
  | exoGeneralError
  | exoFatalErrorPal
  deriving DecidableEq, Repr

/-- `exo_state`, as far as it is returned. -/
inductive ExoState where
  | exoIdle
  | exoWaiting
  | exoBusy
  | exoError
  deriving DecidableEq, Repr

/-- `exo_device_state`. -/
inductive ExoDeviceState where
  | uninitialized
  | initialized
  | good
  | badCik
  deriving DecidableEq, Repr

/-- `exo_request_type`. -/
inductive ExoRequestType where
  | null
  | write
  | read
  | subscribe
  | activate
  deriving DecidableEq, Repr

/-- `exo_request_state`. -/
inductive ExoRequestState where
  | null
  | new
  | pending
  | subscribed
  | subAck
  | subAckNew
  | success
  | error
  deriving DecidableEq, Repr

/-- `exo_op`. The pointers are addresses in the memory of the user, zero is
`NULL`. -/
structure ExoOp where
  type : ExoRequestType
  state : ExoRequestState
  aliasPtr : Nat
  valuePtr : Nat
  valueMax : Nat
  mid : UInt16
  obsSeq : UInt32
  tkl : UInt8
  token : UInt64
  timeout : UInt64
  retries : UInt8
  deriving DecidableEq, Repr

/-- `MINIMUM_DATAGRAM_SIZE`. -/
def minimumDatagramSize : Nat := 576

/-- `CIK_LENGTH`. -/
def cikLength : Nat := 40

/-- `COAP_MAX_RETRANSMIT`. -/
def coapMaxRetransmit : UInt8 := 4

/-! ## Queueing and releasing -/

/-- Common part of the calls that queue a request: `retries`, `timeout`, `token`
and the rest stay as they are. -/
def ExoOp.queue (op : ExoOp) (type : ExoRequestType) (aliasPtr valuePtr valueMax : Nat) : ExoOp :=
  { op with type, state := .new, aliasPtr, valuePtr, valueMax, mid := 0 }

def exoWrite (op : ExoOp) (aliasPtr valuePtr : Nat) : ExoOp :=
  op.queue .write aliasPtr valuePtr 0

def exoRead (op : ExoOp) (aliasPtr valuePtr valueMax : Nat) : ExoOp :=
  op.queue .read aliasPtr valuePtr valueMax

def exoSubscribe (op : ExoOp) (aliasPtr valuePtr valueMax : Nat) : ExoOp :=
  op.queue .subscribe aliasPtr valuePtr valueMax

def exoActivate (op : ExoOp) : ExoOp := op.queue .activate 0 0 0

/-- `exo_op_init`: every field is set. -/
def exoOpInit : ExoOp := ⟨.null, .null, 0, 0, 0, 0, 0, 0, 0, 0, 0⟩

def exoOpDone (op : ExoOp) : ExoOp :=
  if op.type = .subscribe then { op with state := .subscribed } else exoOpInit

/-- `exo_is_op_finished`. -/
def exoIsOpFinished (op : ExoOp) : Bool := op.state = .success || op.state = .error

/-! ## The system -/

/-- What a request is about: the strings as they were in the memory of the user,
and the CIK, when it was built. -/
structure Request where
  type : ExoRequestType
  aliasText : List UInt8
  valueText : List UInt8
  cik : List UInt8
  deriving DecidableEq, Repr

/-- What a datagram is sent for. -/
inductive Cause where
  /-- a request of the op in `slot`, for the first time or again -/
  | request (slot : Nat) (first : Bool) (request : Request)
  /-- acknowledges a notification -/
  | ack (slot : Nat)
  /-- answers `pdu`, received while the ops were `ops` -/
  | rst (ops : List ExoOp) (pdu : CoapPdu)
  deriving DecidableEq, Repr

/-- Entries of the log. -/
inductive Event where
  /-- `exo_init` returned `EXO_OK` -/
  | initialised
  /-- the user queued a request in `slot` -/
  | queued (slot : Nat)
  /-- the user called `exo_op_done` on `op` in `slot` -/
  | released (slot : Nat) (op : ExoOp)
  /-- a builder was called for `request`, which takes a message id -/
  | built (slot : Nat) (request : Request)
  /-- `exopal_udp_send` -/
  | sent (cause : Cause) (datagram : List UInt8) (ok : Bool)
  /-- `exopal_store_cik` -/
  | storedCik (cik : List UInt8)
  /-- a valid datagram was handled, the ops being `ops` before -/
  | handled (ops : List ExoOp) (pdu : CoapPdu)
  /-- a branch for impossible combinations of type and state was taken -/
  | unexpected (slot : Nat)
  deriving DecidableEq, Repr

/-- The static variables of the library, the op array and the memory of the user. -/
structure Sys where
  cik : List UInt8
  vendor : Nat
  model : Nat
  serial : Nat
  messageIdCounter : UInt16
  deviceState : ExoDeviceState
  ops : List ExoOp
  heap : Mem
  log : List Event
  deriving DecidableEq, Repr

namespace Sys

def setOp (sys : Sys) (slot : Nat) (op : ExoOp) : Sys := { sys with ops := sys.ops.set slot op }

def record (sys : Sys) (event : Event) : Sys := { sys with log := event :: sys.log }

/-- Several entries at once, newest first. -/
def logged (sys : Sys) (events : List Event) : Sys := { sys with log := events ++ sys.log }

@[simp] theorem setOp_ops (sys : Sys) (slot : Nat) (op : ExoOp) :
    (sys.setOp slot op).ops = sys.ops.set slot op := rfl

@[simp] theorem setOp_log (sys : Sys) (slot : Nat) (op : ExoOp) :
    (sys.setOp slot op).log = sys.log := rfl

@[simp] theorem setOp_heap (sys : Sys) (slot : Nat) (op : ExoOp) :
    (sys.setOp slot op).heap = sys.heap := rfl

@[simp] theorem setOp_messageIdCounter (sys : Sys) (slot : Nat) (op : ExoOp) :
    (sys.setOp slot op).messageIdCounter = sys.messageIdCounter := rfl

@[simp] theorem setOp_deviceState (sys : Sys) (slot : Nat) (op : ExoOp) :
    (sys.setOp slot op).deviceState = sys.deviceState := rfl

@[simp] theorem record_ops (sys : Sys) (event : Event) : (sys.record event).ops = sys.ops := rfl

@[simp] theorem record_log (sys : Sys) (event : Event) :
    (sys.record event).log = event :: sys.log := rfl

@[simp] theorem record_heap (sys : Sys) (event : Event) : (sys.record event).heap = sys.heap := rfl

@[simp] theorem record_messageIdCounter (sys : Sys) (event : Event) :
    (sys.record event).messageIdCounter = sys.messageIdCounter := rfl

@[simp] theorem record_deviceState (sys : Sys) (event : Event) :
    (sys.record event).deviceState = sys.deviceState := rfl

end Sys

/-! ## Strings and buffers of the user -/

/-- The C string at an address: the bytes up to the terminating zero, which must
be mapped. -/
def cString (heap : Mem) (address : Nat) : Exec (List UInt8) :=
  if address = 0 then .error .fault
  else
    let text := (heap.drop address).takeWhile (· ≠ 0)
    if address + text.length < heap.length then .ok text else .error .fault

/-- A store through a pointer of the user. -/
def userStore (heap : Mem) (address : Nat) (bytes : List UInt8) : Exec Mem :=
  if address = 0 then .error .fault else heap.store address bytes

end ExositeCoap.Exosite
