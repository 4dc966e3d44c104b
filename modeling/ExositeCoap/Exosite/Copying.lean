import ExositeCoap.Coap.Payload
import ExositeCoap.Exosite.Handling

/-!
# When a payload can be copied

The copy of a payload loads from the datagram and stores to the user's memory, and the op
of a subscription then looks for two options.  Each of these accesses may fault; here
stands exactly when they do not.
-/

namespace ExositeCoap.Exosite

open Lib Wire Coap

/-- The bytes from a pointer on are in memory. No byte is loaded when there are none. -/
def Loadable (mem : Mem) (val : Ptr) (len : Nat) : Prop :=
  len = 0 ∨ ∃ pos, val = some pos ∧ pos + len ≤ mem.length

/-- The buffer of the op has room for the payload and the zero behind it. -/
structure RoomFor (op : ExoOp) (payload : CoapPayload) : Prop where
  buffer : op.valuePtr ≠ 0
  room : payload.len + 1 ≤ op.valueMax

/-- The payload is in memory, and so is the place for it. -/
structure Copyable (pdu : CoapPdu) (heap : Mem) (op : ExoOp) (payload : CoapPayload) : Prop where
  source : Loadable pdu.mem payload.val payload.len
  target : op.valuePtr + payload.len + 1 ≤ heap.length

/-- The search for an Observe option and the one for a Max-Age option return, with bytes
that can be read. -/
structure ReadsOptions (pdu : CoapPdu) : Prop where
  observe : ∃ option, coapGetOptionByNum pdu (searchFuel pdu) conObserve 0 = .ok option ∧
    Loadable pdu.mem option.val option.len
  maxAge : ∃ option, coapGetOptionByNum pdu (searchFuel pdu) conMaxAge 0 = .ok option ∧
    (option.num ≠ 0 → option.len = 1 → Loadable pdu.mem option.val option.len)

/-! ## Options -/

section Options

variable {rx : Received}

theorem observeLoop_returns_iff {val : Ptr} {left j : Nat} (seq : UInt32) :
    (observeLoop rx val left j seq).Returns ↔
      left = 0 ∨ ∃ pos, val = some pos ∧ pos + j + left ≤ rx.pdu.mem.length := by
  induction left generalizing j seq with
  | zero => exact iff_of_true (Exec.returns_ok _) (Or.inl rfl)
  | succ left ih =>
      cases val with
      | none => exact iff_of_false nofun (by simp)
      | some pos =>
          rw [observeLoop, Exec.returns_bind_iff]
          constructor
          · rintro ⟨byte, loaded, rest⟩
            have mapped := Mem.read_returns_iff.mp ⟨byte, loaded⟩
            refine Or.inr ⟨pos, rfl, ?_⟩
            obtain last | ⟨other, ⟨⟩, inside⟩ := (ih _).mp rest
            · omega
            · omega
          · rintro (impossible | ⟨other, ⟨⟩, inside⟩)
            · omega
            · exact ⟨_, Mem.read_of_lt (by omega), (ih _).mpr (Or.inr ⟨pos, rfl, by omega⟩)⟩

theorem observeSeq_returns_iff (seq : UInt32) : (observeSeq rx seq).Returns ↔
    ∃ option, coapGetOptionByNum rx.pdu (searchFuel rx.pdu) conObserve 0 = .ok option ∧
      Loadable rx.pdu.mem option.val option.len := by
  simp only [observeSeq, Exec.returns_bind_iff, observeLoop_returns_iff, Loadable, Nat.add_zero]

theorem subscriptionTimeout_returns_iff : (subscriptionTimeout rx).Returns ↔
    ∃ option, coapGetOptionByNum rx.pdu (searchFuel rx.pdu) conMaxAge 0 = .ok option ∧
      (option.num ≠ 0 → option.len = 1 → Loadable rx.pdu.mem option.val option.len) := by
  rw [subscriptionTimeout, Exec.returns_bind_iff]
  refine exists_congr fun option => and_congr_right fun _ => ?_
  dsimp only
  split_ifs with short
  · rw [Loadable, short.2]
    cases option.val with
    | none => exact iff_of_false nofun (by simp [short.1])
    | some pos =>
        dsimp only
        rw [Exec.returns_bind_iff]
        constructor
        · rintro ⟨byte, loaded, -⟩ - -
          exact Or.inr ⟨pos, rfl, Mem.read_returns_iff.mp ⟨byte, loaded⟩⟩
        · intro loadable
          obtain impossible | ⟨other, ⟨⟩, inside⟩ := loadable short.1 rfl
          · omega
          · exact ⟨_, Mem.read_of_lt (by omega), Exec.returns_ok _⟩
  · exact iff_of_true (Exec.returns_ok _) fun named single => absurd ⟨named, single⟩ short

/-- What a subscription looks for is found, or found not to be there. -/
theorem readsOptions_iff (seq : UInt32) : ReadsOptions rx.pdu ↔
    (observeSeq rx seq).Returns ∧ (subscriptionTimeout rx).Returns := by
  rw [observeSeq_returns_iff, subscriptionTimeout_returns_iff]
  exact ⟨fun ⟨observe, maxAge⟩ => ⟨observe, maxAge⟩, fun ⟨observe, maxAge⟩ => ⟨observe, maxAge⟩⟩

end Options

/-! ## The copy -/

theorem userStore_returns_iff {heap : Mem} {address : Nat} {bytes : List UInt8} :
    (userStore heap address bytes).Returns ↔
      address ≠ 0 ∧ (bytes.length = 0 ∨ address + bytes.length ≤ heap.length) := by
  unfold userStore
  split
  next null => exact iff_of_false nofun fun both => both.1 null
  next place => rw [Mem.store_returns_iff, and_iff_right place]

/-- The results of `coap_get_payload` for a valid datagram. -/
theorem Received.gotPayload {rx : Received} {payload : CoapPayload}
    (valid : coapValidatePkt rx.pdu = .ok .ceNone) (got : coapGetPayload rx.pdu = .ok payload) :
    GotPayload rx.pdu payload :=
  coapGetPayload_cases rx.fits rx.placed
    ((coapValidatePkt_eq_none rx.fits rx.placed).mp valid).len_ge rx.bounded got

section Copies

variable {rx : Received} {heap : Mem} {op : ExoOp} {payload : CoapPayload}

theorem storePayload_empty_iff (got : coapGetPayload rx.pdu = .ok payload) :
    (∃ after, storePayload rx.pdu heap op = .ok (.empty after)) ↔
      payload.len = 0 ∧ op.valuePtr ≠ 0 ∧ op.valuePtr < heap.length := by
  have terminates := @userStore_returns_iff heap op.valuePtr [0]
  rw [List.length_singleton, or_iff_right (by decide)] at terminates
  constructor
  · rintro ⟨after, store⟩
    obtain ⟨other, isOther, empty, stored⟩ := storePayload_empty store
    rw [got] at isOther
    cases isOther
    exact ⟨empty, terminates.mp ⟨after, stored⟩⟩
  · rintro ⟨empty, mapped⟩
    obtain ⟨after, stored⟩ := terminates.mpr mapped
    refine ⟨after, ?_⟩
    rw [storePayload, got, Exec.ok_bind, if_pos empty, stored]
    rfl

variable (valid : coapValidatePkt rx.pdu = .ok .ceNone)
  (got : coapGetPayload rx.pdu = .ok payload)

include valid got

/-- The length test in front of the copies is about the length itself. -/
theorem roomFor_iff : RoomFor op payload ↔
    ¬ ((payload.len + 1) % 2 ^ 64 > op.valueMax ∨ op.valuePtr = 0) := by
  rw [Nat.mod_eq_of_lt ((Received.gotPayload valid got).len_lt rx.fits rx.placed rx.bounded),
    not_or, Nat.not_lt]
  exact ⟨fun ⟨buffer, room⟩ => ⟨room, buffer⟩, fun ⟨room, buffer⟩ => ⟨buffer, room⟩⟩

theorem storePayload_rejected_iff : storePayload rx.pdu heap op = .ok .rejected ↔
    payload.len ≠ 0 ∧ ¬ RoomFor op payload := by
  rw [roomFor_iff valid got, not_not]
  constructor
  · intro store
    obtain ⟨other, isOther, present, tooLong⟩ := storePayload_rejected store
    rw [got] at isOther
    cases isOther
    exact ⟨present, tooLong⟩
  · rintro ⟨present, tooLong⟩
    rw [storePayload, got, Exec.ok_bind, if_neg present, if_pos tooLong]
    rfl

theorem storePayload_stored_iff :
    (∃ after, storePayload rx.pdu heap op = .ok (.stored after)) ↔
      payload.len ≠ 0 ∧ RoomFor op payload ∧ Copyable rx.pdu heap op payload := by
  constructor
  · rintro ⟨after, store⟩
    obtain ⟨pos, bytes, middle, present, val, fits, loaded, copied, terminated⟩ :
        ∃ pos bytes middle, payload.len ≠ 0 ∧ payload.val = some pos ∧
          (payload.len + 1) % 2 ^ 64 ≤ op.valueMax ∧ rx.pdu.mem.slice pos payload.len = .ok bytes ∧
          userStore heap op.valuePtr bytes = .ok middle ∧
          userStore middle (op.valuePtr + payload.len) [0] = .ok after := by
      cases storePayload_cases store with
      | stored other present val fits loaded copied terminated =>
          rw [got] at other
          cases other
          exact ⟨_, _, _, present, val, fits, loaded, copied, terminated⟩
    have place := userStore_ne_null copied
    refine ⟨present, (roomFor_iff valid got).mpr (by omega), Or.inr ⟨pos, val, ?_⟩, ?_⟩
    · exact (Mem.slice_returns_iff.mp ⟨bytes, loaded⟩).resolve_left present
    · have mapped := (userStore_returns_iff.mp ⟨after, terminated⟩).2
      rw [userStore, if_neg place] at copied
      rw [List.length_singleton, Mem.store_length copied] at mapped
      omega
  · rintro ⟨present, room, source, target⟩
    obtain ⟨pos, val, inside⟩ := source.resolve_left present
    obtain ⟨bytes, loaded⟩ := Mem.slice_returns_iff.mpr (Or.inr inside)
    have size := Mem.slice_length loaded
    have place := room.buffer
    obtain ⟨middle, copied⟩ : (userStore heap op.valuePtr bytes).Returns :=
      userStore_returns_iff.mpr ⟨place, by omega⟩
    have same : middle.length = heap.length := by
      rw [userStore, if_neg place] at copied
      exact Mem.store_length copied
    obtain ⟨after, terminated⟩ : (userStore middle (op.valuePtr + payload.len) [0]).Returns :=
      userStore_returns_iff.mpr ⟨by omega, by rw [List.length_singleton]; omega⟩
    refine ⟨after, ?_⟩
    rw [storePayload, got, Exec.ok_bind, if_neg present, if_neg ((roomFor_iff valid got).mp room),
      val]
    simp only [loaded, copied, terminated, Exec.ok_bind]
    rfl

theorem storePayload_returns_iff : (storePayload rx.pdu heap op).Returns ↔
    (payload.len = 0 → op.valuePtr ≠ 0 ∧ op.valuePtr < heap.length) ∧
      (payload.len ≠ 0 → RoomFor op payload → Copyable rx.pdu heap op payload) := by
  constructor
  · rintro ⟨result, store⟩
    cases result with
    | empty after =>
        obtain ⟨empty, mapped⟩ := (storePayload_empty_iff got).mp ⟨after, store⟩
        exact ⟨fun _ => mapped, fun present => absurd empty present⟩
    | rejected =>
        obtain ⟨present, tooLong⟩ := (storePayload_rejected_iff valid got).mp store
        exact ⟨fun empty => absurd empty present, fun _ room => absurd room tooLong⟩
    | stored after =>
        obtain ⟨present, -, copyable⟩ := (storePayload_stored_iff valid got).mp ⟨after, store⟩
        exact ⟨fun empty => absurd empty present, fun _ _ => copyable⟩
  · rintro ⟨terminates, copies⟩
    by_cases empty : payload.len = 0
    · obtain ⟨after, store⟩ := (storePayload_empty_iff got).mpr ⟨empty, terminates empty⟩
      exact ⟨_, store⟩
    · by_cases room : RoomFor op payload
      · obtain ⟨after, store⟩ :=
          (storePayload_stored_iff valid got).mpr ⟨empty, room, copies empty room⟩
        exact ⟨_, store⟩
      · exact ⟨_, (storePayload_rejected_iff valid got).mpr ⟨empty, room⟩⟩

end Copies

/-! ## The branches -/

section Branches

variable {rx : Received} {sys : Sys} {i : Nat} {op : ExoOp}

theorem exoNotified_returns {code : UInt8} {mid : UInt16} (isCode : coapGetCode rx.pdu = .ok code)
    (isMid : coapGetMid rx.pdu = .ok mid) (options : ReadsOptions rx.pdu)
    (stores : (storePayload rx.pdu sys.heap op).Returns) : (exoNotified rx sys i op).Returns := by
  obtain ⟨observes, expires⟩ := (readsOptions_iff 0).mp options
  rw [exoNotified, isCode, Exec.ok_bind]
  split_ifs with content
  · refine Exec.Returns.bind observes fun newSeq _ => Exec.Returns.bind stores fun result _ => ?_
    cases result with
    | empty => exact Exec.returns_ok _
    | rejected => exact Exec.returns_ok _
    | stored heap =>
        dsimp only
        rw [isMid, Exec.ok_bind]
        refine Exec.Returns.bind expires fun timeout _ => ?_
        split_ifs <;> exact Exec.returns_ok _
  · rw [coapGetCodeClass, isCode, Exec.ok_bind, Exec.pure_eq_ok, Exec.ok_bind]
    split_ifs <;> exact Exec.returns_ok _

/-- The answer to a read or a subscription is handled when its payload can be copied, and
for a subscription also the options can be read. -/
theorem exoAnswered_returns_iff (asks : op.type = .read ∨ op.type = .subscribe) :
    (exoAnswered rx sys i op).Returns ↔ (storePayload rx.pdu sys.heap op).Returns ∧
      ∀ heap, storePayload rx.pdu sys.heap op = .ok (.stored heap) →
        op.type = .subscribe → ReadsOptions rx.pdu := by
  cases stored : storePayload rx.pdu sys.heap op with
  | error trap =>
      refine iff_of_false ?_ nofun
      rcases asks with type | type <;> simp [exoAnswered, type, stored, Exec.Returns]
  | ok result =>
      rw [and_iff_right (Exec.returns_ok _)]
      rcases asks with type | type
      · refine iff_of_true ?_ fun heap _ other => ?_
        · cases result <;> simp [exoAnswered, type, stored, Exec.Returns]
        · rw [type] at other
          cases other
      · cases result with
        | empty => simp [exoAnswered, type, stored, Exec.Returns]
        | rejected => simp [exoAnswered, type, stored, Exec.Returns]
        | stored heap =>
            simp only [exoAnswered, type, stored, Exec.ok_bind, Exec.returns_bind_iff,
              Except.ok.injEq, StoreResult.stored.injEq, forall_eq', forall_const,
              readsOptions_iff op.obsSeq, Exec.pure_eq_ok, Exec.returns_ok, and_true]
            exact ⟨fun ⟨timeout, expires, obsSeq, observes⟩ =>
                ⟨⟨obsSeq, observes⟩, timeout, expires⟩,
              fun ⟨⟨obsSeq, observes⟩, timeout, expires⟩ => ⟨timeout, expires, obsSeq, observes⟩⟩

/-- A payload as long as a CIK is in the packet. -/
theorem exoAnswered_activate_returns_iff (valid : coapValidatePkt rx.pdu = .ok .ceNone)
    (type : op.type = .activate) :
    (exoAnswered rx sys i op).Returns ↔ (coapGetPayload rx.pdu).Returns := by
  simp only [exoAnswered, type, Exec.returns_bind_iff]
  refine exists_congr fun payload => and_iff_left_of_imp fun got => ?_
  split_ifs with length
  · cases Received.gotPayload valid got with
    | none => cases length
    | found has =>
        have loaded := has.slice rx.fits rx.placed
        dsimp only at length ⊢
        rw [length] at loaded ⊢
        rw [loaded]
        exact Exec.returns_ok _
    | behind wrapped =>
        unfold cikLength at length
        dsimp only at length
        omega
  · exact Exec.returns_ok _

end Branches

end ExositeCoap.Exosite
