import ExositeCoap.Coap.Write

/-!
# The code of option headers

`coap_build_option_header` and `coap_compute_option_header_len` write the headers that
`coap_decode_option` reads, and no others: every header that is accepted, and whose delta
and length have 16 bits, is the one that is written for them.
-/

namespace ExositeCoap.Coap

open Lib Wire

/-- The bytes decode to a delta and a length wherever they stand, whatever follows them and
whatever number the option before had. -/
def ReadsBack (header : List UInt8) (delta length : Nat) : Prop :=
  ∀ (mem tail : Mem) (pos pktLen num len : Nat) (val : Ptr), pktLen ≠ 0 →
    mem.drop pos = header ++ tail →
      coapDecodeOption mem pos pktLen num len val =
        .ok ⟨.ceNone, (num + delta) % 2 ^ 16, length, some (pos + header.length)⟩

/-- What `coap_build_option_header` does with a buffer of `maxLen` bytes. -/
structure BuildsWithin (mem : Mem) (buf maxLen delta length : Nat) (result : Option Nat)
    (after : Mem) : Prop where
  built : coapBuildOptionHeader mem buf maxLen delta length = .ok (result, after)
  succeeds : result.isSome ↔ coapComputeOptionHeaderLen delta length ≤ maxLen
  outside : ∀ address, address < buf ∨ buf + maxLen ≤ address → after[address]? = mem[address]?
  failed : result = none → after[buf]? = mem[buf]?
  written : ∀ count, result = some count → count = coapComputeOptionHeaderLen delta length ∧
    ∃ header, header.length = count ∧ mem.store buf header = .ok after ∧
      header.head? ≠ some 0xFF ∧ ReadsBack header delta length

/-- The header that was decoded at `pos`, behind an option with number `num`: unless its delta
or its length has more than 16 bits, they are what was decoded, and writing them anywhere
gives the same bytes. -/
def Rebuilds (mem : Mem) (pos num : Nat) (result : DecodeResult) : Prop :=
  ∃ header tail delta length, Header header delta length ∧ mem.drop pos = header ++ tail ∧
    result.val = some (pos + header.length) ∧
    (delta ≤ 65535 → length ≤ 65535 →
      delta = (result.num + 65536 - num) % 65536 ∧ length = result.len ∧
      ∀ (target : Mem) (buf maxLen : Nat), header.length ≤ maxLen →
        buf + header.length ≤ target.length →
          ∃ after, target.store buf header = .ok after ∧
            coapBuildOptionHeader target buf maxLen
              ((result.num + 65536 - num) % 65536 : Nat) result.len =
                .ok (some header.length, after))

/-! ## Too little room -/

/-- Without room for the extension bytes nothing is stored. -/
theorem buildExtended_of_short {mem : Mem} {buf ptr maxLen value : Nat}
    (reached : ptr - buf ≤ maxLen) (short : maxLen < ptr - buf + (fieldExt value).length) :
    buildExtended mem buf ptr maxLen value = .ok (none, mem) := by
  unfold fieldExt at short
  unfold buildExtended
  by_cases small : value < 13
  · rw [if_pos small, List.length_nil] at short
    omega
  · have smallInt : ¬ (value : Int) < 13 := by omega
    by_cases medium : value < 269
    · rw [if_neg small, if_pos medium, List.length_singleton] at short
      have mediumInt : (value : Int) < 269 := by omega
      rw [if_neg smallInt, if_pos mediumInt, if_pos short]
      rfl
    · rw [if_neg small, if_neg medium] at short
      have mediumInt : ¬ (value : Int) < 269 := by omega
      have tooShort : maxLen < ptr - buf + 2 := short
      rw [if_neg smallInt, if_neg mediumInt, if_pos tooShort]
      rfl

/-- Without room for the header, only extension bytes of the delta may have been stored. -/
theorem coapBuildOptionHeader_of_short {mem : Mem} {buf maxLen delta length : Nat}
    (short : maxLen < (optionHeader delta length).length) (mapped : buf + maxLen ≤ mem.length) :
    ∃ after, coapBuildOptionHeader mem buf maxLen delta length = .ok (none, after) ∧
      ∀ address, address ≤ buf ∨ buf + maxLen ≤ address → after[address]? = mem[address]? := by
  have size : (optionHeader delta length).length =
      1 + (fieldExt delta).length + (fieldExt length).length := by
    simp only [optionHeader, List.length_cons, List.length_append]
    omega
  unfold coapBuildOptionHeader
  by_cases empty : maxLen < 1
  · exact ⟨mem, by rw [if_pos empty]; rfl, fun _ _ => rfl⟩
  · rw [if_neg empty]
    by_cases noDelta : maxLen < 1 + (fieldExt delta).length
    · have failed := @buildExtended_of_short mem buf (buf + 1) maxLen delta (by omega) (by omega)
      exact ⟨mem, by rw [failed]; rfl, fun _ _ => rfl⟩
    · have stored := @Mem.store_of_le mem (buf + 1) (fieldExt delta) (by omega)
      generalize mem.take (buf + 1) ++ fieldExt delta ++ _ = after at stored
      have built := @buildExtended_of_store _ _ buf _ maxLen _ stored (by omega)
      have failed := @buildExtended_of_short after buf (buf + 1 + (fieldExt delta).length) maxLen
        length (by omega) (by omega)
      refine ⟨after, ?_, fun address outside =>
        Mem.store_getElem?_of_outside stored (by omega)⟩
      rw [built, Exec.ok_bind]
      dsimp only
      rw [failed]
      rfl

/-! ## The result -/

theorem readsBack_optionHeader {delta length : Nat} (deltaBound : delta ≤ 65535)
    (lengthBound : length ≤ 65535) : ReadsBack (optionHeader delta length) delta length := by
  intro mem tail pos pktLen num len val more at_
  have header := @header_optionHeader delta length (by omega) (by omega)
  rw [coapDecodeOption_of_decodes more (.found header at_),
    Nat.mod_eq_of_lt (show length < 2 ^ 16 by omega)]

theorem optionHeader_head? {delta length : Nat} (deltaBound : delta ≤ 65535)
    (lengthBound : length ≤ 65535) : (optionHeader delta length).head? ≠ some 0xFF := by
  have header := @header_optionHeader delta length (by omega) (by omega)
  intro marker
  have starts : optionHeader delta length ++ [] =
      0xFF :: (fieldExt delta ++ fieldExt length) := by
    rw [optionHeader, List.head?_cons, Option.some.injEq] at marker
    rw [optionHeader, marker, List.append_nil]
  exact header.ne_marker starts

theorem buildsWithin {mem : Mem} {buf maxLen delta length : Nat} (deltaBound : delta ≤ 65535)
    (lengthBound : length ≤ 65535)
    (mapped : buf + min maxLen (coapComputeOptionHeaderLen delta length) ≤ mem.length) :
    ∃ result after, BuildsWithin mem buf maxLen delta length result after := by
  rw [coapComputeOptionHeaderLen_natCast] at mapped
  have computed := coapComputeOptionHeaderLen_natCast delta length
  by_cases room : (optionHeader delta length).length ≤ maxLen
  · obtain ⟨after, stored, built⟩ :=
      @coapBuildOptionHeader_of_room mem buf maxLen delta length room (by omega)
    refine ⟨_, after, built, by simp [computed, room], ?_, ?_, ?_⟩
    · exact fun address outside => Mem.store_getElem?_of_outside stored (by omega)
    · rintro ⟨⟩
    · rintro count ⟨⟩
      exact ⟨computed.symm, _, rfl, stored, optionHeader_head? deltaBound lengthBound,
        readsBack_optionHeader deltaBound lengthBound⟩
  · obtain ⟨after, built, same⟩ :=
      @coapBuildOptionHeader_of_short mem buf maxLen delta length (by omega) (by omega)
    refine ⟨none, after, built, by simp [computed, room], ?_, ?_, ?_⟩
    · exact fun address outside => same address (by omega)
    · exact fun _ => same buf (Or.inl (Nat.le_refl _))
    · rintro count ⟨⟩

theorem rebuilds {mem : Mem} {pos pktLen num len : Nat} {val : Ptr} {result : DecodeResult}
    (bound : num ≤ 65535) (decoded : coapDecodeOption mem pos pktLen num len val = .ok result)
    (accepted : result.err = .ceNone) : Rebuilds mem pos num result := by
  by_cases more : pktLen = 0
  · rw [more, coapDecodeOption_zero] at decoded
    cases decoded
    cases accepted
  · cases decodes_of_coapDecodeOption more decoded with
    | marker => cases accepted
    | reserved => cases accepted
    | @found header tail delta length isHeader at_ =>
        refine ⟨header, tail, delta, length, isHeader, at_, rfl, ?_⟩
        intro deltaBound lengthBound
        have isDelta : delta = ((num + delta) % 2 ^ 16 + 65536 - num) % 65536 := by omega
        have isLength : length = length % 2 ^ 16 := by omega
        refine ⟨isDelta, isLength, fun target buf maxLen room mapped => ?_⟩
        dsimp only
        rw [← isDelta, ← isLength]
        rw [isHeader.canonical] at room mapped ⊢
        exact coapBuildOptionHeader_of_room room mapped

/-- Delta and length of 16 bits are written in the computed length if there is room for it,
and read back; and whatever header of such a delta and length is read, it is the one that
is written for them. -/
theorem optionHeader_codec :
    (∀ delta length : Nat, delta ≤ 65535 → length ≤ 65535 → ∀ (mem : Mem) (buf maxLen : Nat),
      buf + min maxLen (coapComputeOptionHeaderLen delta length) ≤ mem.length →
        ∃ result after, BuildsWithin mem buf maxLen delta length result after) ∧
    ∀ (mem : Mem) (pos pktLen num len : Nat) (val : Ptr) (result : DecodeResult), num ≤ 65535 →
      coapDecodeOption mem pos pktLen num len val = .ok result → result.err = .ceNone →
        Rebuilds mem pos num result :=
  ⟨fun _ _ deltaBound lengthBound _ _ _ mapped => buildsWithin deltaBound lengthBound mapped,
    fun _ _ _ _ _ _ _ bound decoded accepted => rebuilds bound decoded accepted⟩

end ExositeCoap.Coap
