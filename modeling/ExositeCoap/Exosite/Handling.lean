import ExositeCoap.Coap.Bounds
import ExositeCoap.Exosite.Receive

/-!
# The handling of one datagram

What `exo_process_waiting_datagrams` does with a datagram, without loss: an invalid one
is ignored, the first op that takes it gets it, and otherwise a confirmable message is
answered with a reset.
-/

namespace ExositeCoap.Exosite

open Lib Wire Coap

/-- What the handling of a datagram does, and whether the receive loop goes on. -/
inductive Handling (rx : Received) (sys : Sys) : (goOn : Bool) → Sys → Prop where
  /-- not a valid packet -/
  | invalid {status : CoapError} (isStatus : coapValidatePkt rx.pdu = .ok status)
      (failed : status ≠ .ceNone) : Handling rx sys true sys
  /-- the op in `slot` gets the datagram -/
  | taken {events : List Event} {slot : Nat} {op : ExoOp} {result : Sys}
      (valid : coapValidatePkt rx.pdu = .ok .ceNone) (traces : TracesSkipped sys events)
      (atSlot : sys.ops[slot]? = some op)
      (first : ∀ j other, j < slot → sys.ops[j]? = some other → Skips rx other)
      (round : exoMatchOp rx (sys.logged events) slot op = .ok (true, result)) :
      Handling rx sys true (result.record (.handled sys.ops rx.pdu))
  /-- no op takes a confirmable message -/
  | reset {events : List Event} {mid : UInt16} {token tkl : Nat} {err : ExoError}
      {reply : CoapPdu} {datagram : List UInt8}
      (valid : coapValidatePkt rx.pdu = .ok .ceNone) (traces : TracesSkipped sys events)
      (unmatched : ∀ op ∈ sys.ops, Skips rx op) (isCon : coapGetType rx.pdu = .ok .con)
      (isTkl : coapGetTkl rx.pdu = .ok tkl) (isMid : coapGetMid rx.pdu = .ok mid)
      (isToken : coapGetToken rx.pdu = .ok token)
      (built : exoBuildMsgRst rx.pdu mid (UInt64.ofNat token) (UInt8.ofNat tkl) =
        .ok (err, reply))
      (bytes : reply.mem.slice 0 reply.len = .ok datagram) :
      Handling rx sys false (((sys.logged events).record (.handled sys.ops rx.pdu)).record
        (.sent (.rst sys.ops rx.pdu) datagram rx.sendOk))
  /-- no op takes another message -/
  | dropped {events : List Event} {kind : CoapType}
      (valid : coapValidatePkt rx.pdu = .ok .ceNone) (traces : TracesSkipped sys events)
      (unmatched : ∀ op ∈ sys.ops, Skips rx op) (isKind : coapGetType rx.pdu = .ok kind)
      (notCon : kind ≠ .con) :
      Handling rx sys false ((sys.logged events).record (.handled sys.ops rx.pdu))

theorem exoHandleDatagram_cases {rx : Received} {sys after : Sys} {goOn : Bool}
    (ran : exoHandleDatagram rx sys = .ok (goOn, after)) : Handling rx sys goOn after := by
  obtain ⟨status, isStatus, ran⟩ := Exec.bind_eq_ok.mp ran
  split_ifs at ran with invalid
  · cases ran
    exact .invalid isStatus invalid
  · rw [not_not] at invalid
    subst invalid
    obtain ⟨⟨taken, scanned⟩, scan, ran⟩ := Exec.bind_eq_ok.mp ran
    obtain ⟨events, traces, ⟨rfl, rfl, unmatched⟩ |
      ⟨rfl, slot, op, -, -, atSlot, first, round⟩⟩ := exoScan_match scan
    · have all : ∀ op ∈ sys.ops, Skips rx op := by
        intro op member
        obtain ⟨slot, inRange, isOp⟩ := List.getElem_of_mem member
        exact unmatched slot op (Nat.zero_le _) (by omega)
          (List.getElem?_eq_some_iff.mpr ⟨inRange, isOp⟩)
      obtain ⟨kind, isKind, ran⟩ := Exec.bind_eq_ok.mp ran
      split_ifs at ran with isCon
      · subst isCon
        obtain ⟨tkl, isTkl, ran⟩ := Exec.bind_eq_ok.mp ran
        obtain ⟨mid, isMid, ran⟩ := Exec.bind_eq_ok.mp ran
        obtain ⟨token, isToken, ran⟩ := Exec.bind_eq_ok.mp ran
        obtain ⟨⟨err, reply⟩, built, ran⟩ := Exec.bind_eq_ok.mp ran
        obtain ⟨datagram, bytes, ran⟩ := Exec.bind_eq_ok.mp ran
        cases ran
        exact .reset isStatus traces all isKind isTkl isMid isToken built bytes
      · cases ran
        exact .dropped isStatus traces all isKind isCon
    · cases ran
      exact .taken isStatus traces atSlot
        (fun j other before => first j other (Nat.zero_le _) before) round

/-- The op that gets a datagram takes it, and reacts. -/
theorem reaction_of_round {rx : Received} {sys result : Sys} {slot : Nat} {op : ExoOp}
    (round : exoMatchOp rx sys slot op = .ok (true, result)) :
    Takes rx op ∧ Reaction rx sys slot op result := by
  obtain ⟨-, takes, reaction⟩ | ⟨impossible, -⟩ | ⟨impossible, -⟩ := exoMatchOp_cases round
  · exact ⟨takes, reaction⟩
  · cases impossible
  · cases impossible

/-! ## What is taken, by type -/

section Rounds

variable {rx : Received} {sys after : Sys} {i : Nat} {op : ExoOp}

/-- A confirmable or non-confirmable message that is taken is a notification. -/
theorem exoMatchOp_notified {kind : CoapType} (isKind : coapGetType rx.pdu = .ok kind)
    (isMessage : kind = .con ∨ kind = .non)
    (round : exoMatchOp rx sys i op = .ok (true, after)) :
    op.state = .subscribed ∧ coapGetToken rx.pdu = .ok op.token.toNat ∧
      exoNotified rx sys i op = .ok after := by
  obtain ⟨token, isToken, round⟩ := Exec.bind_eq_ok.mp round
  obtain ⟨mid, -, round⟩ := Exec.bind_eq_ok.mp round
  rw [isKind] at round
  have notified : (if op.state = .subscribed ∧ token = op.token.toNat then do
      return (true, ← exoNotified rx sys i op)
      else return (false, sys)) = Except.ok (true, after) := by
    rcases isMessage with rfl | rfl <;> exact round
  split_ifs at notified with taking
  · obtain ⟨result, ran, same⟩ := Exec.bind_eq_ok.mp notified
    cases same
    rw [taking.2] at isToken
    exact ⟨taking.1, isToken, ran⟩
  · cases notified

/-- Ops that let the datagram pass leave it to those behind them. -/
theorem exoScan_pass (left skipped : Nat) (inRange : i + skipped ≤ sys.ops.length)
    (pass : ∀ k other, i ≤ k → k < i + skipped → sys.ops[k]? = some other →
      exoMatchOp rx sys k other = .ok (false, sys)) :
    exoScan rx sys (skipped + left) i = exoScan rx sys left (i + skipped) := by
  induction skipped generalizing i with
  | zero => rw [Nat.zero_add, Nat.add_zero]
  | succ skipped ih =>
      have here : i < sys.ops.length := by omega
      have atSlot := List.getElem?_eq_getElem here
      have passed := pass i _ (Nat.le_refl i) (by omega) atSlot
      have rest := @ih (i + 1) (by omega) fun k other later before =>
        pass k other (by omega) (by omega)
      have next : i + 1 + skipped = i + (skipped + 1) := by omega
      rw [Nat.succ_add, exoScan, atSlot]
      dsimp only
      rw [passed, Exec.ok_bind]
      dsimp only
      rw [if_neg (by decide), rest, next]

/-- A reset that is taken only changes the state of the op. -/
theorem exoMatchOp_rst (isKind : coapGetType rx.pdu = .ok .rst)
    (round : exoMatchOp rx sys i op = .ok (true, after)) :
    after = sys.setOp i { op with state := .error } := by
  obtain ⟨token, -, round⟩ := Exec.bind_eq_ok.mp round
  obtain ⟨mid, -, round⟩ := Exec.bind_eq_ok.mp round
  rw [isKind, Exec.ok_bind] at round
  dsimp only at round
  split_ifs at round
  · cases round
    rfl
  · cases round

/-- The class of a response that is taken decides what it is. -/
theorem exoMatchOp_ack (isKind : coapGetType rx.pdu = .ok .ack)
    (round : exoMatchOp rx sys i op = .ok (true, after)) :
    ∃ codeClass, coapGetCodeClass rx.pdu = .ok codeClass ∧
      (if codeClass = 2 then exoAnswered rx sys i op
        else do return (true, ← exoRefused rx sys i op)) = .ok (true, after) := by
  obtain ⟨token, -, round⟩ := Exec.bind_eq_ok.mp round
  obtain ⟨mid, -, round⟩ := Exec.bind_eq_ok.mp round
  rw [isKind, Exec.ok_bind] at round
  dsimp only at round
  split_ifs at round
  · exact Exec.bind_eq_ok.mp round
  · cases round

/-- A response of another class than 2 is a refusal. -/
theorem exoMatchOp_refused {codeClass : Nat} (isKind : coapGetType rx.pdu = .ok .ack)
    (isClass : coapGetCodeClass rx.pdu = .ok codeClass) (failed : codeClass ≠ 2)
    (round : exoMatchOp rx sys i op = .ok (true, after)) :
    exoRefused rx sys i op = .ok after := by
  obtain ⟨other, isOther, round⟩ := exoMatchOp_ack isKind round
  rw [isClass] at isOther
  cases isOther
  rw [if_neg failed] at round
  obtain ⟨result, refused, same⟩ := Exec.bind_eq_ok.mp round
  cases same
  exact refused

/-- A response of class 2 is an answer. -/
theorem exoMatchOp_answered (isKind : coapGetType rx.pdu = .ok .ack)
    (isClass : coapGetCodeClass rx.pdu = .ok 2)
    (round : exoMatchOp rx sys i op = .ok (true, after)) :
    exoAnswered rx sys i op = .ok (true, after) := by
  obtain ⟨other, isOther, round⟩ := exoMatchOp_ack isKind round
  rw [isClass] at isOther
  cases isOther
  exact round

/-- The class of a response that is taken is looked at. -/
theorem exoMatchOp_class (isKind : coapGetType rx.pdu = .ok .ack)
    (round : exoMatchOp rx sys i op = .ok (true, after)) :
    ∃ codeClass, coapGetCodeClass rx.pdu = .ok codeClass := by
  obtain ⟨codeClass, isClass, -⟩ := exoMatchOp_ack isKind round
  exact ⟨codeClass, isClass⟩

end Rounds

/-- The token length of a valid packet. -/
theorem tkl_le_of_valid {rx : Received} {tkl : Nat}
    (valid : coapValidatePkt rx.pdu = .ok .ceNone) (isTkl : coapGetTkl rx.pdu = .ok tkl) :
    tkl ≤ 8 := by
  have passes := (coapValidatePkt_eq_none rx.fits rx.placed).mp valid
  have mapped := rx.placed.max_le
  have fits := rx.fits
  have long := passes.len_ge
  rw [coapGetTkl_firstByte (by omega)] at isTkl
  cases isTkl
  exact passes.tkl_le

/-- A reset can always be built. -/
theorem exoBuildMsgRst_returns {rx : Received} (mid : UInt16) (token : Nat) {tkl : Nat}
    (short : tkl ≤ 8) : ∃ err reply datagram,
      exoBuildMsgRst rx.pdu mid (UInt64.ofNat token) (UInt8.ofNat tkl) = .ok (err, reply) ∧
        reply.mem.slice 0 reply.len = .ok datagram := by
  have small : (UInt8.ofNat tkl).toNat ≤ 8 := by
    rw [UInt8.toNat_ofNat']
    omega
  obtain ⟨err, reply, built, simulates⟩ :=
    exoBuildMsgRst_spec rx.toBuffer mid (UInt64.ofNat token) small
  exact ⟨err, reply, _, built, simulates.slice_eq⟩

/-- The reset of a message, byte by byte. -/
theorem rst_datagram {rx : Received} {mid : UInt16} {token tkl : Nat} {err : ExoError}
    {reply : CoapPdu} {datagram : List UInt8} (short : tkl ≤ 8)
    (built : exoBuildMsgRst rx.pdu mid (UInt64.ofNat token) (UInt8.ofNat tkl) = .ok (err, reply))
    (bytes : reply.mem.slice 0 reply.len = .ok datagram) :
    datagram = (rstMessage mid (UInt64.ofNat token) (UInt8.ofNat tkl)).encode := by
  have small : (UInt8.ofNat tkl).toNat ≤ 8 := by
    rw [UInt8.toNat_ofNat']
    omega
  obtain ⟨other, after, isBuilt, simulates⟩ :=
    exoBuildMsgRst_spec rx.toBuffer mid (UInt64.ofNat token) small
  rw [isBuilt] at built
  cases built
  exact simulates.datagram_eq bytes

/-! ## Which datagrams are handled -/

/-- The header can be read. -/
structure ReadsHeader (rx : Received) : Prop where
  type : ∃ kind, coapGetType rx.pdu = .ok kind
  tkl : ∃ tkl, coapGetTkl rx.pdu = .ok tkl
  token : ∃ token, coapGetToken rx.pdu = .ok token
  mid : ∃ mid, coapGetMid rx.pdu = .ok mid
  code : ∃ code, coapGetCode rx.pdu = .ok code

theorem readsHeader_of_valid {rx : Received} (valid : coapValidatePkt rx.pdu = .ok .ceNone) :
    ReadsHeader rx := by
  have passes := (coapValidatePkt_eq_none rx.fits rx.placed).mp valid
  have long := passes.len_ge
  have mapped := rx.placed.max_le
  have fits := rx.fits
  obtain ⟨token, isToken, -⟩ := passes.token rx.fits rx.placed
  refine ⟨?_, ⟨_, coapGetTkl_firstByte (by omega)⟩, ⟨token, isToken⟩, ?_, ?_⟩
  · rw [coapGetType, Mem.read_of_lt (show 0 < rx.pdu.mem.length by omega)]
    exact ⟨_, rfl⟩
  · rw [coapGetMid, Mem.read_of_lt (show 2 < rx.pdu.mem.length by omega),
      Mem.read_of_lt (show 3 < rx.pdu.mem.length by omega)]
    exact ⟨_, rfl⟩
  · rw [coapGetCode, Mem.read_of_lt (show 1 < rx.pdu.mem.length by omega)]
    exact ⟨_, rfl⟩

section Handled

variable {rx : Received} {sys after : Sys} {i : Nat} {op : ExoOp}
  (valid : coapValidatePkt rx.pdu = .ok .ceNone)

include valid

/-- The ops in front let the datagram pass, and the next one takes it if it returns. -/
theorem exoHandleDatagram_round (atSlot : sys.ops[i]? = some op)
    (pass : ∀ k other, k < i → sys.ops[k]? = some other →
      exoMatchOp rx sys k other = .ok (false, sys))
    (takes : ∀ taken result, exoMatchOp rx sys i op = .ok (taken, result) → taken = true)
    {goOn : Bool} :
    exoHandleDatagram rx sys = .ok (goOn, after) ↔ goOn = true ∧ ∃ result,
      exoMatchOp rx sys i op = .ok (true, result) ∧
        after = result.record (.handled sys.ops rx.pdu) := by
  have inRange := (List.getElem?_eq_some_iff.mp atSlot).1
  obtain ⟨rest, size⟩ : ∃ rest, sys.ops.length = i + (rest + 1) :=
    ⟨sys.ops.length - i - 1, by omega⟩
  have scan := @exoScan_pass rx sys 0 (rest + 1) i (by omega)
    fun k other _ before => pass k other (by omega)
  rw [← size, Nat.zero_add, exoScan, atSlot] at scan
  dsimp only at scan
  rw [exoHandleDatagram, valid, Exec.ok_bind, if_neg (by simp), scan]
  constructor
  · intro ran
    obtain ⟨⟨matched, scanned⟩, scan, ran⟩ := Exec.bind_eq_ok.mp ran
    obtain ⟨⟨taken, result⟩, round, scan⟩ := Exec.bind_eq_ok.mp scan
    obtain rfl := takes taken result round
    cases scan
    cases ran
    exact ⟨rfl, result, round, rfl⟩
  · rintro ⟨rfl, result, round, rfl⟩
    rw [round]
    rfl

/-- All ops let the datagram pass. -/
theorem exoHandleDatagram_unmatched (pass : ∀ (k : Nat) other, sys.ops[k]? = some other →
      exoMatchOp rx sys k other = .ok (false, sys)) :
    ∃ after, exoHandleDatagram rx sys = .ok (false, after) := by
  have header := readsHeader_of_valid valid
  obtain ⟨kind, isKind⟩ := header.type
  obtain ⟨tkl, isTkl⟩ := header.tkl
  obtain ⟨token, isToken⟩ := header.token
  obtain ⟨mid, isMid⟩ := header.mid
  have scan := @exoScan_pass rx sys 0 0 sys.ops.length (by omega) fun k other _ _ => pass k other
  rw [Nat.add_zero] at scan
  obtain ⟨err, reply, datagram, built, bytes⟩ :=
    @exoBuildMsgRst_returns rx mid token tkl (tkl_le_of_valid valid isTkl)
  rw [exoHandleDatagram, valid, Exec.ok_bind, if_neg (by simp), scan, exoScan,
    Exec.pure_eq_ok, Exec.ok_bind]
  simp only [Bool.false_eq_true, if_false, isKind, isTkl, isToken, isMid, Exec.ok_bind, built,
    bytes]
  split_ifs <;> exact ⟨_, rfl⟩

end Handled

end ExositeCoap.Exosite
