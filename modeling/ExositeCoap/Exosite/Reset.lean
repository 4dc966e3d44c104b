import ExositeCoap.Exosite.Response

/-!
# Handling resets

A reset that rejects a request is an Empty message: it has the message id of the request
and no token.  The token of such a message reads as 0, and an op only takes a reset with
its own token, so the request ends exactly when its token happens to be 0.
-/

namespace ExositeCoap.Exosite

open Lib Wire Coap

/-- The datagram is a valid Empty reset message. -/
structure EmptyReset (rx : Received) (mid : UInt16) : Prop where
  valid : coapValidatePkt rx.pdu = .ok .ceNone
  type : coapGetType rx.pdu = .ok .rst
  code : coapGetCode rx.pdu = .ok ccEmpty
  tkl : coapGetTkl rx.pdu = .ok 0
  len : rx.pdu.len = 4
  mid : coapGetMid rx.pdu = .ok mid

/-- An Empty reset for the pending request in `slot`, which no other op takes. -/
structure Rejects (rx : Received) (sys : Sys) (slot : Nat) (op : ExoOp) : Prop where
  reset : EmptyReset rx op.mid
  atSlot : sys.ops[slot]? = some op
  state : op.state = .pending
  unique : ∀ i other, i ≠ slot → sys.ops[i]? = some other → ¬ Takes rx other

/-- The op in `slot` is in the state `EXO_REQUEST_ERROR`. -/
def Failed (sys : Sys) (slot : Nat) : Prop :=
  ∃ op, sys.ops[slot]? = some op ∧ op.state = .error

section Resets

variable {rx : Received} {mid : UInt16} {sys : Sys} {slot : Nat} {op : ExoOp}

/-- The four bytes of an Empty reset. -/
theorem emptyReset_of_bytes (len : rx.pdu.len = 4)
    (bytes : rx.pdu.mem.slice 0 4 =
      .ok [0x70, 0, UInt8.ofNat (mid.toNat / 256), UInt8.ofNat (mid.toNat % 256)]) :
    EmptyReset rx mid := by
  obtain ⟨rest, isMem⟩ : ∃ rest, rx.pdu.mem =
      0x70 :: 0 :: UInt8.ofNat (mid.toNat / 256) :: UInt8.ofNat (mid.toNat % 256) :: rest :=
    ⟨_, Mem.drop_of_slice bytes⟩
  have read : ∀ place byte, (0x70 :: 0 :: UInt8.ofNat (mid.toNat / 256) ::
      UInt8.ofNat (mid.toNat % 256) :: rest)[place]? = some byte →
      rx.pdu.mem.read place = .ok byte := by
    intro place byte found
    rw [Mem.read_eq_ok, isMem]
    exact found
  have first : rx.pdu.firstByte = 0x70 := by rw [CoapPdu.firstByte, isMem]; rfl
  refine ⟨(coapValidatePkt_eq_none rx.fits rx.placed).mpr ⟨?_, ?_, ?_, Or.inl ?_⟩, ?_, read 1 0 rfl,
    ?_, len, ?_⟩
  · rw [len]
  · rw [first]
    rfl
  · rw [first]
    decide
  · rw [len, CoapPdu.tokenEnd, first]
    rfl
  · rw [coapGetType, read 0 0x70 rfl]
    rfl
  · rw [coapGetTkl, read 0 0x70 rfl]
    rfl
  · have high : (UInt8.ofNat (mid.toNat / 256)).toNat = mid.toNat / 256 := by
      rw [UInt8.toNat_ofNat']
      have := mid.toNat_lt
      omega
    have low : (UInt8.ofNat (mid.toNat % 256)).toNat = mid.toNat % 256 := by
      rw [UInt8.toNat_ofNat']
      omega
    rw [coapGetMid, read 2 _ rfl, Exec.ok_bind, read 3 _ rfl, Exec.ok_bind, high, low,
      Nat.div_add_mod', UInt16.ofNat_toNat]
    rfl

/-- No token reads as 0. -/
theorem EmptyReset.token (reset : EmptyReset rx mid) : coapGetToken rx.pdu = .ok 0 := by
  rw [coapGetToken, reset.tkl, Exec.ok_bind, reset.len, if_neg (by decide), if_neg (by decide)]
  rfl

theorem EmptyReset.takes_iff (reset : EmptyReset rx mid) :
    Takes rx op ↔ (op.state = .pending ∨ op.state = .subscribed) ∧ op.mid = mid ∧ op.token = 0 := by
  rw [takes_rst reset.type, reset.mid, reset.token, Except.ok.injEq, Except.ok.injEq,
    @eq_comm _ mid, @eq_comm _ 0, ← UInt64.toNat_inj]
  rfl

theorem EmptyReset.exoMatchOp_eq (reset : EmptyReset rx mid) :
    exoMatchOp rx sys slot op =
      .ok (if (op.state = .pending ∨ op.state = .subscribed) ∧ op.mid = mid ∧ op.token.toNat = 0
        then (true, sys.setOp slot { op with state := .error }) else (false, sys)) := by
  simp only [exoMatchOp, reset.token, reset.mid, reset.type, Exec.ok_bind]
  split_ifs <;> rfl

theorem EmptyReset.passed (reset : EmptyReset rx mid) (other : ¬ Takes rx op) :
    exoMatchOp rx sys slot op = .ok (false, sys) := by
  rw [reset.takes_iff, ← UInt64.toNat_inj] at other
  rw [reset.exoMatchOp_eq]
  exact congrArg _ (if_neg other)

/-- What the handling of an Empty reset comes to. -/
theorem Rejects.exoHandleDatagram_eq (rejects : Rejects rx sys slot op) :
    exoHandleDatagram rx sys = .ok (if op.token = 0
      then (true, (sys.setOp slot { op with state := .error }).record (.handled sys.ops rx.pdu))
      else (false, sys.record (.handled sys.ops rx.pdu))) := by
  have reset := rejects.reset
  have inRange := (List.getElem?_eq_some_iff.mp rejects.atSlot).1
  rw [exoHandleDatagram, reset.valid, Exec.ok_bind, if_neg (by simp)]
  split_ifs with zero
  · obtain ⟨rest, size⟩ : ∃ rest, sys.ops.length = slot + (rest + 1) :=
      ⟨sys.ops.length - slot - 1, by omega⟩
    have scan := @exoScan_pass rx sys 0 (rest + 1) slot (by omega) fun k other _ before isOther =>
      reset.passed (rejects.unique k other (by omega) isOther)
    have taken : exoMatchOp rx sys slot op =
        .ok (true, sys.setOp slot { op with state := .error }) := by
      rw [reset.exoMatchOp_eq]
      exact congrArg _ (if_pos ⟨Or.inl rejects.state, rfl, by rw [zero]; rfl⟩)
    rw [← size, Nat.zero_add, exoScan, rejects.atSlot] at scan
    dsimp only at scan
    rw [scan, taken]
    rfl
  · have scan := @exoScan_pass rx sys 0 0 sys.ops.length (by omega) fun k other _ _ isOther => by
      apply reset.passed
      by_cases same : k = slot
      · rw [same, rejects.atSlot] at isOther
        cases isOther
        exact fun takes => zero (reset.takes_iff.mp takes).2.2
      · exact rejects.unique k other same isOther
    rw [Nat.add_zero] at scan
    rw [scan, exoScan, Exec.pure_eq_ok, Exec.ok_bind, reset.type]
    rfl

/-- A reset ends the request that it rejects if and only if the request carried the token 0. -/
theorem rejected_iff (rejects : Rejects rx sys slot op) :
    ∃ goOn after, exoHandleDatagram rx sys = .ok (goOn, after) ∧
      (Failed after slot ↔ op.token = 0) := by
  have handled := rejects.exoHandleDatagram_eq
  by_cases zero : op.token = 0
  · rw [if_pos zero] at handled
    have failed : Failed (sys.setOp slot { op with state := .error }) slot := by
      refine ⟨{ op with state := .error }, ?_, rfl⟩
      rw [Sys.setOp_ops, List.getElem?_set_self (List.getElem?_eq_some_iff.mp rejects.atSlot).1]
    exact ⟨_, _, handled, iff_of_true failed zero⟩
  · rw [if_neg zero] at handled
    refine ⟨_, _, handled, iff_of_false ?_ zero⟩
    rintro ⟨found, isFound, error⟩
    have atSlot := rejects.atSlot
    rw [show sys.ops[slot]? = some found from isFound] at atSlot
    cases atSlot
    rw [rejects.state] at error
    cases error

/-- Of two ops with different message ids, the reset is for the second. -/
theorem rejects_second {first : ExoOp} (ops : sys.ops = [first, op]) (state : op.state = .pending)
    (reset : EmptyReset rx op.mid) (different : first.mid ≠ op.mid) : Rejects rx sys 1 op := by
  refine ⟨reset, by rw [ops]; rfl, state, ?_⟩
  intro i other notSecond isOther takes
  rw [ops] at isOther
  match i with
  | 0 =>
      cases isOther
      exact different (reset.takes_iff.mp takes).2.1
  | 1 => exact notSecond rfl
  | i + 2 => cases isOther

end Resets

/-- The same requests as those of `readCalls`, for which `rand()` returns 0. -/
def zeroTokenCalls : List UserCall :=
  [quietInit, .read 1 1 3 8, .operate ⟨10, [], 10, fun _ => ⟨quietBuffer [], 0, true, 10, 0⟩⟩]

/-- An Empty reset for message id 8. -/
theorem emptyReset_eight : EmptyReset (arrives [0x70, 0, 0, 8]) 8 :=
  emptyReset_of_bytes (by decide +kernel) (by decide +kernel)

/-- A read with the token 0 is rejected. -/
theorem rejected_iff_zeroToken : ∃ sys op, run (powerOn 2 quietHeap) zeroTokenCalls = .ok sys ∧
    op.token = 0 ∧ Rejects (arrives [0x70, 0, 0, 8]) sys 1 op ∧
      ∃ goOn after, exoHandleDatagram (arrives [0x70, 0, 0, 8]) sys = .ok (goOn, after) ∧
        Failed after 1 := by
  have computed : (run (powerOn 2 quietHeap) zeroTokenCalls).map (·.ops) =
      .ok [{ sentActivation with token := 0 }, { sentRead with token := 0 }] := by decide +kernel
  obtain ⟨sys, ran, ops⟩ := Exec.map_eq_ok.mp computed
  have rejects := rejects_second ops rfl emptyReset_eight (by decide)
  obtain ⟨goOn, after, handled, exact⟩ := rejected_iff rejects
  exact ⟨sys, _, ran, rfl, rejects, goOn, after, handled, exact.mpr rfl⟩

/-- The Empty reset for a read with another token leaves it pending. -/
theorem not_rejected_emptyReset : ¬ ∀ (count : Nat) (heap : Mem) (calls : List UserCall)
    (sys : Sys) (rx : Received) (slot : Nat) (op : ExoOp),
      run (powerOn count heap) calls = .ok sys → op.type ≠ .null → Rejects rx sys slot op →
        ∃ goOn after, exoHandleDatagram rx sys = .ok (goOn, after) ∧ Failed after slot := by
  intro always
  have computed : (run (powerOn 2 quietHeap) readCalls).map (·.ops) =
      .ok [sentActivation, sentRead] := by decide +kernel
  obtain ⟨sys, ran, ops⟩ := Exec.map_eq_ok.mp computed
  have rejects := rejects_second ops rfl emptyReset_eight (by decide)
  obtain ⟨goOn, after, handled, found, isFound, error⟩ :=
    always 2 quietHeap readCalls sys _ 1 sentRead ran (by decide) rejects
  rw [rejects.exoHandleDatagram_eq, if_neg (by decide)] at handled
  cases handled
  have atSlot := rejects.atSlot
  rw [show sys.ops[1]? = some found from isFound] at atSlot
  cases atSlot
  cases error

end ExositeCoap.Exosite
