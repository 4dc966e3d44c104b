import ExositeCoap.Lib.Walk
import ExositeCoap.Coap.Observe

/-!
# The iteration over options ends

Behind an option that overruns the packet `coap_get_option` starts over at the first one,
and goes on counting.  The positions then repeat themselves, and with them the amount by
which the 16-bit option number grows from one pass to the next, so after at most 65536
passes it is zero, which ends the iteration.  The search by number follows the iteration.
-/

namespace ExositeCoap.Coap

open Lib Wire

/-- Iterating `coap_get_option` from `last` until the number is zero: the options before
that, and the result with number zero. `fuel` bounds the number of calls. -/
def iterateOptions (pdu : CoapPdu) :
    (fuel : Nat) → (last : Option CoapOption) → Exec (List CoapOption × CoapOption)
  | 0, _ => throw .fuel
  | fuel + 1, last => do
    let option ← coapGetOption pdu last
    if option.num = 0 then
      return ([], option)
    else
      let (found, final) ← iterateOptions pdu fuel (some option)
      return (option :: found, final)

/-- All bytes that the iterator may look at are mapped: an option header has at most five
bytes, and starts inside the packet or behind the longest token. -/
def CoapPdu.Readable (pdu : CoapPdu) : Prop :=
  24 ≤ pdu.mem.length ∧ pdu.len + 5 ≤ pdu.mem.length

instance (pdu : CoapPdu) : Decidable pdu.Readable := inferInstanceAs (Decidable (_ ∧ _))

/-! ## Where the code traps -/

section Traps

variable {mem : Mem} {pdu : CoapPdu} {last : Option CoapOption} {trap : Trap}

theorem decodeExtended_eq_error {ptr nibble : Nat}
    (failed : decodeExtended mem ptr nibble = .error trap) :
    mem.length ≤ ptr + 1 ∧ trap = .fault := by
  unfold decodeExtended at failed
  split_ifs at failed
  · cases failed
  · obtain missing | ⟨low, -, impossible⟩ := Exec.bind_eq_error.mp failed
    · obtain ⟨short, isFault⟩ := Mem.read_eq_error.mp missing
      exact ⟨by omega, isFault⟩
    · cases impossible
  · obtain missing | ⟨high, -, failed⟩ := Exec.bind_eq_error.mp failed
    · obtain ⟨short, isFault⟩ := Mem.read_eq_error.mp missing
      exact ⟨by omega, isFault⟩
    · obtain missing | ⟨low, -, impossible⟩ := Exec.bind_eq_error.mp failed
      · exact Mem.read_eq_error.mp missing
      · cases impossible
  · cases failed

/-- The decoder traps only at a header that is not mapped. -/
theorem coapDecodeOption_eq_error {pos pktLen num len : Nat} {val : Ptr}
    (failed : coapDecodeOption mem pos pktLen num len val = .error trap) :
    mem.length < pos + 5 ∧ trap = .fault := by
  unfold coapDecodeOption at failed
  split_ifs at failed
  · cases failed
  · obtain missing | ⟨first, -, failed⟩ := Exec.bind_eq_error.mp failed
    · obtain ⟨short, isFault⟩ := Mem.read_eq_error.mp missing
      exact ⟨by omega, isFault⟩
    · split_ifs at failed
      · cases failed
      · obtain missing | ⟨deltaPart, delta, failed⟩ := Exec.bind_eq_error.mp failed
        · obtain ⟨short, isFault⟩ := decodeExtended_eq_error missing
          exact ⟨by omega, isFault⟩
        · cases deltaPart with
          | none => cases failed
          | some deltaPart =>
              obtain ⟨value, ptr⟩ := deltaPart
              obtain ⟨ext, rest, full, field, -, rfl, rfl⟩ := field_of_decodeExtended delta
              have size := field.ext_length_le
              obtain missing | ⟨lengthPart, -, failed⟩ := Exec.bind_eq_error.mp failed
              · obtain ⟨short, isFault⟩ := decodeExtended_eq_error missing
                exact ⟨by omega, isFault⟩
              · cases lengthPart <;> cases failed

theorem coapGetTkl_eq_error (failed : coapGetTkl pdu = .error trap) :
    pdu.mem.length = 0 ∧ trap = .fault := by
  obtain missing | ⟨first, -, impossible⟩ := Exec.bind_eq_error.mp failed
  · obtain ⟨short, isFault⟩ := Mem.read_eq_error.mp missing
    exact ⟨by omega, isFault⟩
  · cases impossible

theorem coapGetTkl_lt {tkl : Nat} (hasTkl : coapGetTkl pdu = .ok tkl) : tkl < 16 := by
  obtain ⟨first, -, same⟩ := Exec.bind_eq_ok.mp hasTkl
  cases same
  omega

end Traps

/-! ## Walking from option to option -/

/-- Where the iterator goes on behind an option, if `start` is the first place. -/
def resume (pdu : CoapPdu) (start : Nat) : Option CoapOption → Nat
  | some ⟨num, len, some pos⟩ =>
    if num ≠ 0 ∧ pos + len ≤ pdu.len ∧ pos + len ≠ 0 then pos + len else start
  | _ => start

/-- The delta of the option at `pos` and the place behind its value, if there is one. -/
def optionAt (mem : Mem) (pos : Nat) : Option (Nat × Nat) :=
  match coapDecodeOption mem pos 1 0 0 none with
  | .ok ⟨.ceNone, delta, len, some value⟩ => some (delta, value + len)
  | _ => none

/-- The place that follows `pos` in the iteration. -/
def advance (pdu : CoapPdu) (start pos : Nat) : Nat :=
  match optionAt pdu.mem pos with
  | some (_, behind) => if behind ≤ pdu.len then behind else start
  | none => start

def deltaAt (mem : Mem) (pos : Nat) : Nat := ((optionAt mem pos).map (·.1)).getD 0

section Walk

variable {pdu : CoapPdu} {tkl : Nat} {last : Option CoapOption} {trap : Trap}

theorem optionAt_of_header {mem rest header : Mem} {pos delta length : Nat}
    (isHeader : Header header delta length) (at_ : mem.drop pos = header ++ rest) :
    optionAt mem pos = some (delta % 2 ^ 16, pos + header.length + length % 2 ^ 16) := by
  have decoded := coapDecodeOption_of_decodes (Nat.one_ne_zero)
    (.found isHeader at_ : Decodes mem pos 0 0 none _)
  rw [optionAt, decoded, Nat.zero_add]

/-- The walk climbs inside the packet, or starts over. -/
theorem restarts_advance (pdu : CoapPdu) (start : Nat) :
    Restarts (advance pdu start) start id pdu.len := by
  intro pos
  unfold advance
  split
  next delta behind found =>
    split_ifs with inside
    · refine Or.inr ⟨?_, inside⟩
      unfold optionAt at found
      split at found
      next decoded =>
        cases found
        cases decodes_of_coapDecodeOption Nat.one_ne_zero decoded with
        | found isHeader at_ =>
            have size := isHeader.length_pos
            dsimp only [id]
            omega
      next => cases found
    · exact Or.inl rfl
  next => exact Or.inl rfl

variable (hasTkl : coapGetTkl pdu = .ok tkl)

include hasTkl

theorem optionPosition_eq (last : Option CoapOption) :
    optionPosition pdu last = .ok (resume pdu (4 + tkl) last) := by
  have first : ∀ {ptr : Nat}, (if ptr > pdu.len ∨ ptr = 0 then do
      return 4 + (← coapGetTkl pdu) else return ptr : Exec Nat) =
        .ok (if ptr ≤ pdu.len ∧ ptr ≠ 0 then ptr else 4 + tkl) := by
    intro ptr
    rw [hasTkl]
    by_cases inside : ptr ≤ pdu.len ∧ ptr ≠ 0
    · rw [if_pos inside, if_neg (by omega)]
      rfl
    · rw [if_neg inside, if_pos (by omega)]
      rfl
  unfold optionPosition resume
  match last with
  | none => simp only [hasTkl, Exec.ok_bind, Exec.pure_eq_ok, ite_self]
  | some ⟨num, len, none⟩ => simp [hasTkl]
  | some ⟨num, len, some pos⟩ =>
      by_cases zero : num = 0
      · simp [zero, hasTkl]
      · simp only [zero, ne_eq, not_false_eq_true, if_true, true_and, Option.map_some,
          Exec.pure_eq_ok, Exec.ok_bind]
        exact first

/-- `coap_get_option` never traps for want of steps, and not at all where it may read. -/
theorem coapGetOption_eq_error (failed : coapGetOption pdu last = .error trap) :
    ¬ pdu.Readable ∧ trap = .fault := by
  have small := coapGetTkl_lt hasTkl
  rw [coapGetOption, optionPosition_eq hasTkl, Exec.ok_bind] at failed
  obtain missing | ⟨result, -, failed⟩ := Exec.bind_eq_error.mp failed
  · obtain ⟨short, isFault⟩ := coapDecodeOption_eq_error missing
    refine ⟨?_, isFault⟩
    rintro ⟨front, packet⟩
    unfold resume at short
    split at short
    · split_ifs at short <;> omega
    · omega
  · split at failed
    · cases failed
    · split_ifs at failed <;> cases failed
    · cases failed

/-- From option to option the number grows by the delta, and the place advances. -/
theorem coapGetOption_next {option : CoapOption} (got : coapGetOption pdu last = .ok option)
    (nonzero : option.num ≠ 0) :
    option.num = (lastNumber last + deltaAt pdu.mem (resume pdu (4 + tkl) last)) % 2 ^ 16 ∧
      resume pdu (4 + tkl) (some option) =
        advance pdu (4 + tkl) (resume pdu (4 + tkl) last) := by
  rw [coapGetOption, optionPosition_eq hasTkl, Exec.ok_bind] at got
  generalize resume pdu (4 + tkl) last = pos at got ⊢
  obtain ⟨result, decoded, got⟩ := Exec.bind_eq_ok.mp got
  by_cases more : sizeSub pdu.len pos = 0
  · rw [more, coapDecodeOption_zero] at decoded
    cases decoded
    cases got
    exact absurd rfl nonzero
  · cases decodes_of_coapDecodeOption more decoded with
    | marker =>
        dsimp only at got
        split_ifs at got <;> (cases got; exact absurd rfl nonzero)
    | reserved =>
        cases got
        exact absurd rfl nonzero
    | @found header rest delta length isHeader at_ =>
        cases got
        have size := isHeader.length_pos
        have found := optionAt_of_header isHeader at_
        refine ⟨by simp [deltaAt, found], ?_⟩
        rw [advance, found]
        have positive : pos + header.length + length % 2 ^ 16 ≠ 0 := by omega
        dsimp only [resume]
        simp only [nonzero, positive, ne_eq, not_false_eq_true, true_and, and_true]

/-- As long as the iteration goes on, the deltas do not add up to zero. -/
theorem iterateOptions_fuel {fuel : Nat} (spent : iterateOptions pdu fuel last = .error .fuel)
    {count : Nat} (positive : 0 < count) (inRange : count ≤ fuel) :
    (lastNumber last + birkhoffSum (advance pdu (4 + tkl)) (deltaAt pdu.mem) count
      (resume pdu (4 + tkl) last)) % 2 ^ 16 ≠ 0 := by
  induction fuel generalizing last count with
  | zero => omega
  | succ fuel ih =>
      obtain failed | ⟨option, got, spent⟩ := Exec.bind_eq_error.mp spent
      · cases (coapGetOption_eq_error hasTkl failed).2
      · split_ifs at spent with stop
        · cases spent
        · obtain ⟨number, place⟩ := coapGetOption_next hasTkl got stop
          obtain later | ⟨result, -, impossible⟩ := Exec.bind_eq_error.mp spent
          · obtain ⟨count, rfl⟩ := Nat.exists_eq_succ_of_ne_zero (Nat.ne_of_gt positive)
            rw [birkhoffSum_succ', ← Nat.add_assoc]
            cases count with
            | zero =>
                rw [birkhoffSum_zero, Nat.add_zero, ← number]
                exact stop
            | succ count =>
                have rest := ih later (Nat.succ_pos count) (Nat.le_of_succ_le_succ inRange)
                rw [place] at rest
                dsimp only [lastNumber] at rest
                rwa [number, Nat.mod_add_mod] at rest
          · cases impossible

/-- The iteration ends within so many rounds. -/
theorem iterateOptions_ne_fuel {fuel : Nat} (enough : 65536 * (pdu.len + 1) < fuel) :
    iterateOptions pdu fuel none ≠ .error .fuel := by
  intro spent
  obtain ⟨count, positive, inRange, zero⟩ :=
    (restarts_advance pdu (4 + tkl)).exists_dvd_birkhoffSum (deltaAt pdu.mem)
      (show 0 < 65536 by decide)
  refine iterateOptions_fuel hasTkl spent positive (by omega) ?_
  rw [lastNumber, Nat.zero_add]
  exact Nat.mod_eq_zero_of_dvd zero

end Walk

/-! ## The result -/

/-- What the iteration returns within the budget is what it yields. -/
theorem yields_of_iterateOptions {pdu : CoapPdu} {fuel : Nat} {last : Option CoapOption}
    {found : List CoapOption} {final : CoapOption}
    (iterated : iterateOptions pdu fuel last = .ok (found, final)) :
    Yields pdu last found final := by
  induction fuel generalizing last found with
  | zero => cases iterated
  | succ fuel ih =>
      obtain ⟨option, got, iterated⟩ := Exec.bind_eq_ok.mp iterated
      split_ifs at iterated with stop
      · cases iterated
        exact .stop got stop
      · obtain ⟨⟨rest, last⟩, later, same⟩ := Exec.bind_eq_ok.mp iterated
        cases same
        exact .next got stop (ih later)

theorem iterateOptions_eq_error {pdu : CoapPdu} {fuel : Nat} {last : Option CoapOption}
    {trap : Trap} (failed : iterateOptions pdu fuel last = .error trap) :
    trap = .fuel ∨ ∃ last, coapGetOption pdu last = .error trap := by
  induction fuel generalizing last with
  | zero =>
      cases failed
      exact Or.inl rfl
  | succ fuel ih =>
      obtain failed | ⟨option, -, failed⟩ := Exec.bind_eq_error.mp failed
      · exact Or.inr ⟨last, failed⟩
      · split_ifs at failed
        · cases failed
        · obtain failed | ⟨result, -, impossible⟩ := Exec.bind_eq_error.mp failed
          · exact ih failed
          · cases impossible

/-- The search for an option goes no further than the iteration. -/
theorem optionByNumLoop_eq_error {pdu : CoapPdu} {num occ fuel i : Nat} {option : CoapOption}
    {trap : Trap} (positive : 1 ≤ num)
    (failed : optionByNumLoop pdu num occ fuel option i = .error trap) :
    iterateOptions pdu fuel (some option) = .error trap := by
  induction fuel generalizing option i with
  | zero =>
      cases failed
      rfl
  | succ fuel ih =>
      rw [iterateOptions]
      obtain failed | ⟨next, got, failed⟩ := Exec.bind_eq_error.mp failed
      · rw [failed]
        rfl
      · rw [got, Exec.ok_bind]
        have goesOn : ∀ {j : Nat}, next.num ≠ 0 →
            optionByNumLoop pdu num occ fuel next j = .error trap →
              (if next.num = 0 then return ([], next)
                else do
                  let (found, final) ← iterateOptions pdu fuel (some next)
                  return (next :: found, final) : Exec (List CoapOption × CoapOption)) =
                .error trap := by
          intro j nonzero failed
          rw [if_neg nonzero, ih failed]
          rfl
        split_ifs at failed with same larger stop more
        · dsimp only at failed
          split_ifs at failed
          · exact goesOn (by omega) failed
          · cases failed
        · cases failed
        · cases failed
        · exact goesOn stop failed
        · cases failed

/-- The search by number starts like the iteration from the null pointer. -/
theorem iterateOptions_start (pdu : CoapPdu) (fuel : Nat) :
    iterateOptions pdu fuel (some ⟨0, 0, none⟩) = iterateOptions pdu fuel none := by
  cases fuel <;> rfl

theorem iterateOptions_trap {pdu : CoapPdu} {fuel : Nat} {trap : Trap}
    (enough : 65536 * (pdu.len + 1) < fuel)
    (failed : iterateOptions pdu fuel none = .error trap) : ¬ pdu.Readable ∧ trap = .fault := by
  cases hasTkl : coapGetTkl pdu with
  | error missing =>
      obtain ⟨empty, rfl⟩ := coapGetTkl_eq_error hasTkl
      refine ⟨fun readable => by have := readable.1; omega, ?_⟩
      obtain ⟨fuel, rfl⟩ := Nat.exists_eq_succ_of_ne_zero (Nat.ne_of_gt
        (Nat.lt_of_le_of_lt (Nat.zero_le _) enough))
      rw [iterateOptions, coapGetOption, optionPosition, hasTkl] at failed
      cases failed
      rfl
  | ok tkl =>
      obtain rfl | ⟨last, failed⟩ := iterateOptions_eq_error failed
      · exact absurd failed (iterateOptions_ne_fuel hasTkl enough)
      · exact coapGetOption_eq_error hasTkl failed

/-- Whatever a packet and the memory behind it hold, iterating `coap_get_option` from the
null pointer reaches number zero, and every search by number returns: only a byte that is
not mapped can prevent it. -/
theorem iteration_terminates (pdu : CoapPdu) (fuel : Nat)
    (enough : 65536 * (pdu.len + 1) < fuel) :
    (iterateOptions pdu fuel none ≠ .error .fuel ∧
      ∀ num occ, 1 ≤ num → occ ≤ 255 → coapGetOptionByNum pdu fuel num occ ≠ .error .fuel) ∧
    (pdu.Readable →
      (∃ found final, iterateOptions pdu fuel none = .ok (found, final) ∧
        Yields pdu none found final) ∧
      ∀ num occ, 1 ≤ num → occ ≤ 255 →
        ∃ option, coapGetOptionByNum pdu fuel num occ = .ok option) := by
  have searched : ∀ {num occ : Nat} {trap : Trap}, 1 ≤ num →
      coapGetOptionByNum pdu fuel num occ = .error trap → ¬ pdu.Readable ∧ trap = .fault := by
    intro num occ trap positive failed
    have same := optionByNumLoop_eq_error positive failed
    rw [iterateOptions_start] at same
    exact iterateOptions_trap enough same
  refine ⟨⟨fun spent => ?_, fun num occ positive _ spent => ?_⟩, fun readable => ⟨?_, ?_⟩⟩
  · cases (iterateOptions_trap enough spent).2
  · cases (searched positive spent).2
  · cases iterated : iterateOptions pdu fuel none with
    | error trap => exact absurd readable (iterateOptions_trap enough iterated).1
    | ok result => exact ⟨result.1, result.2, rfl, yields_of_iterateOptions iterated⟩
  · intro num occ positive _
    cases found : coapGetOptionByNum pdu fuel num occ with
    | error trap => exact absurd readable (searched positive found).1
    | ok option => exact ⟨option, rfl⟩

/-- A packet with one option, whose value is longer than the packet. -/
def overrunning : CoapPdu :=
  ⟨0x1000, [0x40, 0x02, 0x00, 0x37, 0x1C] ++ List.replicate 19 0, 5, 5⟩

/-- Its iteration counts up from pass to pass, and ends all the same. -/
theorem iteration_terminates_overrunning :
    coapGetOption overrunning (some ⟨7, 12, some 5⟩) = .ok ⟨8, 12, some 5⟩ ∧
      (∃ found final, iterateOptions overrunning 393217 none = .ok (found, final) ∧
        Yields overrunning none found final) ∧
      ∃ option, coapGetOptionByNum overrunning 393217 12 255 = .ok option := by
  obtain ⟨-, returns⟩ := iteration_terminates overrunning 393217 (by decide)
  obtain ⟨iterated, searched⟩ := returns (by decide)
  exact ⟨by decide, iterated, searched 12 255 (by decide) (by decide)⟩

end ExositeCoap.Coap
