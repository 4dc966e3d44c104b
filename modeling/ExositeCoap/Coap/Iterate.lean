import Mathlib.Data.List.Forall2
import ExositeCoap.Coap.Validate
import ExositeCoap.Coap.Observe

/-!
# The option iterator and the search by number

Iterating `coap_get_option` delivers the options of a packet at their places
(`CoapPdu.Holds.yields`), but what it returns behind them is the payload only if there
were no options: otherwise the length is computed from a null pointer.
`coap_get_option_by_num` passes this on for an option that is not there, and its 8-bit
counter of occurrences never exceeds 255.
-/

namespace ExositeCoap.Coap

open Lib Wire

/-- The options behind `pos` as the iterator has to deliver them: number, length and
place of the value. -/
def optionSpans (pos previous : Nat) : List Opt → List CoapOption
  | [] => []
  | option :: rest =>
    let start := pos + (optionHeader (option.num - previous) option.value.length).length
    ⟨option.num, option.value.length, some start⟩ ::
      optionSpans (start + option.value.length) option.num rest

/-- The options of a message in its packet. -/
def optionsIn (message : Message) : List CoapOption :=
  optionSpans (4 + message.token.length) 0 message.options

/-- What the iterator returns behind the options. -/
def finalOption (pdu : CoapPdu) (message : Message) : CoapOption :=
  match message.payload with
  | none => ⟨0, 0, none⟩
  | some payload =>
    if message.options = [] then ⟨0, payload.length, some (4 + message.token.length + 1)⟩
    else ⟨0, (pdu.len + pdu.buf) % 2 ^ 64, none⟩

/-- The iteration delivers every option once, in order, with its number and the place of
its value, and then what `coap_get_payload` returns, with number zero. -/
def EndsWithPayload (pdu : CoapPdu) (message : Message) : Prop :=
  List.Forall₂ (Delivers pdu.mem) (optionsIn message) message.options ∧
    ∃ payload, coapGetPayload pdu = .ok payload ∧
      DeliversPayload pdu.mem payload message.payload ∧
        Yields pdu none (optionsIn message) ⟨0, payload.len, payload.val⟩

/-- The option with number `num` that has `occ` others of its number before it, or
nothing. -/
def searchLinearly (message : Message) (num occ : Nat) : CoapOption :=
  (((optionsIn message).filter (·.num = num))[occ]?).getD ⟨0, 0, none⟩

/-- How many options of a message have the number `num`. -/
def occurrences (message : Message) (num : Nat) : Nat :=
  message.options.countP (·.num = num)

/-- What the search by number needs. The 8-bit counter can exceed the number of the
occurrence, and that one stands in front of all options out of range. A search in vain
meets a larger option in front of them, or there are none, and no payload. -/
structure Searchable (message : Message) (num occ : Nat) : Prop where
  counts : occ < occurrences message num →
    occ ≠ 255 ∧ occ < message.front.countP (·.num = num)
  stops : occurrences message num ≤ occ →
    (message.payload = none ∧ ∀ option ∈ message.options, option.InRange) ∨
      ∃ option ∈ message.front, num < option.num

/-- The search by number returns what the linear search returns, with a round for every
option and one more. -/
def FindsLinearly (pdu : CoapPdu) (message : Message) (num occ : Nat) : Prop :=
  ∀ fuel, message.options.length < fuel →
    coapGetOptionByNum pdu fuel num occ = .ok (searchLinearly message num occ)

/-! ## The iterator -/

section Spans

theorem optionSpans_length (pos previous : Nat) (options : List Opt) :
    (optionSpans pos previous options).length = options.length := by
  induction options generalizing pos previous with
  | nil => rfl
  | cons option rest ih => simp [optionSpans, ih]

theorem optionSpans_nums (pos previous : Nat) (options : List Opt) :
    (optionSpans pos previous options).map (·.num) = options.map (·.num) := by
  induction options generalizing pos previous with
  | nil => rfl
  | cons option rest ih => simp [optionSpans, ih]

/-- The spans name the values of the options. -/
theorem optionSpans_deliver {mem tail : Mem} {pos previous : Nat} {options : List Opt}
    (at_ : mem.drop pos = encodeOptions previous options ++ tail) :
    List.Forall₂ (Delivers mem) (optionSpans pos previous options) options := by
  induction options generalizing pos previous with
  | nil => exact .nil
  | cons option rest ih =>
      obtain ⟨atValue, atNext⟩ := drop_encoded at_
      exact .cons ⟨rfl, rfl, _, rfl, Mem.slice_of_drop atValue⟩ (ih atNext)

theorem optionSpans_append (pos previous : Nat) (front back : List Opt) :
    optionSpans pos previous (front ++ back) = optionSpans pos previous front ++
      optionSpans (pos + (encodeOptions previous front).length) (lastNum previous front) back := by
  induction front generalizing pos previous with
  | nil => rfl
  | cons option rest ih =>
      simp only [List.cons_append, optionSpans, ih, encodeOptions, lastNum, List.length_append,
        Nat.add_assoc]

/-- Iterating `coap_get_option` from `last` delivers the options `found`, with numbers that
are not zero, and goes on from `other`. -/
inductive Passes (pdu : CoapPdu) :
    Option CoapOption → List CoapOption → Option CoapOption → Prop where
  | refl {last : Option CoapOption} : Passes pdu last [] last
  | next {last other : Option CoapOption} {option : CoapOption} {found : List CoapOption}
      (got : coapGetOption pdu last = .ok option) (nonzero : option.num ≠ 0)
      (more : Passes pdu (some option) found other) : Passes pdu last (option :: found) other

theorem Passes.yields {pdu : CoapPdu} {last other : Option CoapOption} {found : List CoapOption}
    {final : CoapOption} (passes : Passes pdu last found other)
    (got : coapGetOption pdu other = .ok final) (zero : final.num = 0) :
    Yields pdu last found final := by
  induction passes with
  | refl => exact .stop got zero
  | next here nonzero _ ih => exact .next here nonzero (ih got)

/-- What is delivered is delivered on the way. -/
theorem Yields.passes {pdu : CoapPdu} {last : Option CoapOption} {found : List CoapOption}
    {final : CoapOption} (yields : Yields pdu last found final) :
    ∃ other, Passes pdu last found other ∧ coapGetOption pdu other = .ok final ∧
      final.num = 0 := by
  induction yields with
  | stop got zero => exact ⟨_, .refl, got, zero⟩
  | next got nonzero _ ih =>
      obtain ⟨other, passes, ends⟩ := ih
      exact ⟨other, .next got nonzero passes, ends⟩

/-- The iterator passes from option to option, up to the end of those that are encoded. -/
theorem passes_spans {pdu : CoapPdu} {tail : Mem} {options : List Opt}
    {last : Option CoapOption} {pos : Nat} (position : optionPosition pdu last = .ok pos)
    (positive : 0 < pos) (ascending : Ascending (lastNumber last) options)
    (nonzero : ∀ option ∈ options, option.num ≠ 0)
    (at_ : pdu.mem.drop pos = encodeOptions (lastNumber last) options ++ tail)
    (inside : pos + (encodeOptions (lastNumber last) options).length ≤ pdu.len)
    (bounded : pdu.len < 2 ^ 64) :
    ∃ other, Passes pdu last (optionSpans pos (lastNumber last) options) other ∧
      lastNumber other = lastNum (lastNumber last) options ∧
      optionPosition pdu other =
        .ok (pos + (encodeOptions (lastNumber last) options).length) := by
  induction options generalizing last pos with
  | nil => exact ⟨last, .refl, rfl, position⟩
  | cons option rest ih =>
      have optionNonzero := nonzero option List.mem_cons_self
      obtain ⟨got, nextPosition⟩ :=
        coapGetOption_encoded position positive ascending optionNonzero at_ inside bounded
      simp only [encodeOptions, List.length_append] at inside ⊢
      have nextInside : pos + (optionHeader (option.num - lastNumber last)
          option.value.length).length + option.value.length +
          (encodeOptions option.num rest).length ≤ pdu.len := by omega
      obtain ⟨other, passes, isLast, place⟩ := ih nextPosition (by omega) ascending.2.2.2
        (fun other member => nonzero other (List.mem_cons_of_mem _ member))
        (drop_encoded at_).2 nextInside
      refine ⟨other, .next got optionNonzero passes, isLast, place.trans ?_⟩
      simp only [lastNumber, Nat.add_assoc]

/-- The iterator delivers numbers and lengths of 16 bits only. -/
theorem coapGetOption_small {pdu : CoapPdu} {last : Option CoapOption} {option : CoapOption}
    (got : coapGetOption pdu last = .ok option) (nonzero : option.num ≠ 0) :
    option.num ≤ 65535 ∧ option.len ≤ 65535 := by
  obtain ⟨pos, -, got⟩ := Exec.bind_eq_ok.mp got
  obtain ⟨result, decoded, got⟩ := Exec.bind_eq_ok.mp got
  by_cases more : sizeSub pdu.len pos = 0
  · rw [more, coapDecodeOption_zero] at decoded
    cases decoded
    cases got
    exact absurd rfl nonzero
  · cases decodes_of_coapDecodeOption more decoded with
    | marker =>
        dsimp only at got
        split_ifs at got
        · cases got
          exact absurd rfl nonzero
        · cases got
          exact absurd rfl nonzero
    | reserved =>
        cases got
        exact absurd rfl nonzero
    | found =>
        cases got
        dsimp only
        omega

theorem Yields.small {pdu : CoapPdu} {last : Option CoapOption} {found : List CoapOption}
    {final : CoapOption} (yields : Yields pdu last found final) :
    ∀ option ∈ found, option.num ≤ 65535 ∧ option.len ≤ 65535 := by
  induction yields with
  | stop => simp
  | next got nonzero _ ih =>
      exact List.forall_mem_cons.mpr ⟨coapGetOption_small got nonzero, ih⟩

end Spans

/-- An iteration has one outcome. -/
theorem Yields.unique {pdu : CoapPdu} {last : Option CoapOption}
    {found otherFound : List CoapOption} {final otherFinal : CoapOption}
    (yields : Yields pdu last found final) (other : Yields pdu last otherFound otherFinal) :
    otherFound = found ∧ otherFinal = final := by
  induction yields generalizing otherFound with
  | stop got zero =>
      cases other with
      | stop otherGot =>
          rw [got] at otherGot
          cases otherGot
          exact ⟨rfl, rfl⟩
      | next otherGot nonzero =>
          rw [got] at otherGot
          cases otherGot
          exact absurd zero nonzero
  | next got nonzero _ ih =>
      cases other with
      | stop otherGot zero =>
          rw [got] at otherGot
          cases otherGot
          exact absurd zero nonzero
      | next otherGot _ more =>
          rw [got] at otherGot
          cases otherGot
          obtain ⟨rfl, rfl⟩ := ih more
          exact ⟨rfl, rfl⟩

/-- The search by number starts like the iteration from the null pointer. -/
theorem Yields.start {pdu : CoapPdu} {found : List CoapOption} {final : CoapOption}
    (yields : Yields pdu none found final) : Yields pdu (some ⟨0, 0, none⟩) found final := by
  cases yields with
  | stop got zero => exact .stop got zero
  | next got nonzero more => exact .next got nonzero more

section Holds

variable {pdu : CoapPdu} {message : Message} (holds : pdu.Holds message)
  (encodable : message.Encodable) (nonzero : ∀ option ∈ message.options, option.num ≠ 0)

theorem finalOption_num (pdu : CoapPdu) (message : Message) :
    (finalOption pdu message).num = 0 := by
  unfold finalOption
  split
  · rfl
  · split_ifs <;> rfl

include holds in
theorem CoapPdu.Holds.optionsIn_deliver :
    List.Forall₂ (Delivers pdu.mem) (optionsIn message) message.options := by
  have atBody := holds.drop_body
  rw [Message.body, List.append_assoc] at atBody
  exact optionSpans_deliver atBody

include nonzero in
/-- Only without options is the last number zero. -/
theorem lastNum_eq_zero : lastNum 0 message.options = 0 ↔ message.options = [] := by
  cases options : message.options with
  | nil => simp [lastNum]
  | cons option rest =>
      have last : ∀ {previous : Nat} {others : List Opt}, previous ≠ 0 →
          (∀ other ∈ others, other.num ≠ 0) → lastNum previous others ≠ 0 := by
        intro previous others start each
        induction others generalizing previous with
        | nil => exact start
        | cons head others ih =>
            exact ih (each head List.mem_cons_self)
              fun other member => each other (List.mem_cons_of_mem _ member)
      rw [options] at nonzero
      have some := last (nonzero option List.mem_cons_self)
        fun other member => nonzero other (List.mem_cons_of_mem _ member)
      simpa [lastNum] using some

include holds encodable nonzero

/-- The iteration over a packet that holds a message. -/
theorem CoapPdu.Holds.yields : Yields pdu none (optionsIn message) (finalOption pdu message) := by
  have lenEq := holds.len_eq_body
  have bounded := holds.len_lt
  have atBody := holds.drop_body
  rw [Message.body, List.append_assoc] at atBody
  simp only [Message.body, List.length_append] at lenEq
  have atTail := Mem.drop_add_of_append atBody
  obtain ⟨other, passes, isLast, position⟩ :=
    passes_spans (optionPosition_none (holds.coapGetTkl_eq encodable)) (by omega)
      encodable.ascending nonzero atBody (by dsimp only [lastNumber]; omega) bounded
  refine passes.yields ?_ (finalOption_num pdu message)
  change lastNumber other = lastNum 0 message.options at isLast
  change optionPosition pdu other = .ok (4 + message.token.length +
    (encodeOptions 0 message.options).length) at position
  cases payload : message.payload with
  | none =>
      have atEnd : pdu.len = 4 + message.token.length +
          (encodeOptions 0 message.options).length := by
        simpa [payload, Message.payloadBytes] using lenEq
      simp [coapGetOption, position, ← atEnd, finalOption, payload]
  | some bytes =>
      rw [payload] at atTail lenEq
      simp only [Message.payloadBytes, List.length_cons] at lenEq
      have left : sizeSub pdu.len (4 + message.token.length +
          (encodeOptions 0 message.options).length) = bytes.length + 1 := by
        rw [sizeSub_of_le (by omega) bounded]
        omega
      have length : sizeSub (bytes.length + 1) 1 = bytes.length := by
        rw [sizeSub_of_le (by omega) (by omega)]
        omega
      have more : sizeSub pdu.len (4 + message.token.length +
          (encodeOptions 0 message.options).length) ≠ 0 := by
        rw [left]
        omega
      have decoded := coapDecodeOption_of_decodes more
        (.marker atTail : Decodes pdu.mem _ (lastNumber other) 0 none _)
      rw [coapGetOption, position, Exec.ok_bind, decoded, Exec.ok_bind]
      dsimp only
      rw [isLast, finalOption, payload]
      by_cases empty : message.options = []
      · simp [empty, lastNum, encodeOptions] at left ⊢
        rw [left, length]
      · have some : lastNum 0 message.options ≠ 0 := by
          rwa [Ne, lastNum_eq_zero nonzero]
        simp [empty, some]

end Holds

/-- A packet of the grammar lies in its buffer as the encoding of a message. -/
theorem holds_of_numbered {pdu : CoapPdu} (numbered : Numbered pdu.packet)
    (fits : pdu.len ≤ pdu.max) (placed : pdu.Placed) (bounded : pdu.mem.length < 2 ^ 63) :
    ∃ message, pdu.Holds message ∧ message.WellCoded ∧
      ∀ option ∈ message.options, option.num ≠ 0 := by
  obtain ⟨message, bytes, wellCoded, nonzero⟩ := numbered.decode
  exact ⟨message, ⟨bytes, fits, placed.max_le, bounded⟩, wellCoded, nonzero⟩

/-- Behind options the null pointer tells the last result from a payload. -/
theorem finalOption_eq_payload (pdu : CoapPdu) (message : Message) :
    finalOption pdu message = ⟨0, (payloadIn message).len, (payloadIn message).val⟩ ↔
      message.options = [] ∨ message.payload = none := by
  unfold finalOption payloadIn
  cases message.payload with
  | none => simp
  | some bytes =>
      by_cases empty : message.options = []
      · simp [empty, encodeOptions]
      · simp [empty]

/-- Only options in range are delivered with their numbers and places. -/
theorem EndsWithPayload.inRange {pdu : CoapPdu} {message : Message}
    (ends : EndsWithPayload pdu message) : ∀ option ∈ message.options, option.InRange := by
  obtain ⟨delivers, payload, -, -, yields⟩ := ends
  have small := yields.small
  generalize optionsIn message = found at delivers small
  generalize message.options = options at delivers
  induction delivers with
  | nil => simp
  | cons here _ ih =>
      obtain ⟨first, rest⟩ := List.forall_mem_cons.mp small
      rw [here.num, here.len] at first
      exact List.forall_mem_cons.mpr ⟨first, ih rest⟩

/-- The iteration over a packet ends with the payload exactly when the numbers and lengths
of its options have 16 bits, and it has no options or no payload. -/
theorem iteration_ends_with_payload_iff (pdu : CoapPdu) (numbered : Numbered pdu.packet)
    (fits : pdu.len ≤ pdu.max) (placed : pdu.Placed) (bounded : pdu.mem.length < 2 ^ 63) :
    ∃ message, pdu.packet = message.encode ∧ message.WellCoded ∧
      (EndsWithPayload pdu message ↔ (∀ option ∈ message.options, option.InRange) ∧
        (message.options = [] ∨ message.payload = none)) := by
  obtain ⟨message, holds, wellCoded, nonzero⟩ := holds_of_numbered numbered fits placed bounded
  refine ⟨message, holds.bytes, wellCoded, ?_⟩
  by_cases inRange : ∀ option ∈ message.options, option.InRange
  · have encodable := (wellCoded.valid_iff.mpr inRange).toEncodable
    have yields := holds.yields encodable nonzero
    have isPayload := holds.coapGetPayload_payloadIn encodable
    rw [and_iff_right inRange, ← finalOption_eq_payload pdu message]
    constructor
    · rintro ⟨-, payload, got, -, other⟩
      rw [isPayload] at got
      cases got
      exact (yields.unique other).2.symm
    · intro final
      rw [final] at yields
      exact ⟨holds.optionsIn_deliver, _, isPayload, holds.payloadIn_delivers, yields⟩
  · exact iff_of_false (fun ends => inRange ends.inRange) fun both => inRange both.1

/-- A POST with the path `a` and the payload `b`. -/
def pathWithPayload : CoapPdu :=
  ⟨0x1000, [0x40, 0x02, 0x00, 0x37, 0xB1, 0x61, 0xFF, 0x62], 8, 8⟩

/-- The message in that packet. -/
def pathWithPayloadMessage : Message := ⟨.con, 2, 0x37, [], [⟨11, [0x61]⟩], some [0x62]⟩

theorem pathWithPayload_numbered : Numbered pathWithPayload.packet := by
  have header : Header [0xB1] 11 1 := @Header.mk 0xB1 [] [] _ _ (.direct (by decide))
    (.direct (by decide))
  have body : PositiveBody 0 ([0xB1] ++ ([0x61] ++ [0xFF, 0x62])) :=
    .option header (by decide) (.payload (by decide))
  exact @Numbered.mk 0x40 0x02 0x00 0x37 [] _ (by decide) (by decide) (by decide) body

theorem pathWithPayload_placed : pathWithPayload.Placed := ⟨by decide, by decide, by decide⟩

theorem pathWithPayload_yields :
    Yields pathWithPayload none [⟨11, 1, some 5⟩] ⟨0, 0x1008, none⟩ :=
  .next (by decide) (by decide) (.stop (by decide) rfl)

/-- Behind the path the iteration returns a null pointer and a length that depends on the
address of the buffer, where `coap_get_payload` finds the payload. -/
theorem iteration_misses_payload :
    Numbered pathWithPayload.packet ∧ pathWithPayload.packet = pathWithPayloadMessage.encode ∧
      coapGetPayload pathWithPayload = .ok ⟨1, some 7⟩ ∧
        ¬ EndsWithPayload pathWithPayload pathWithPayloadMessage := by
  refine ⟨pathWithPayload_numbered, by decide, by decide, ?_⟩
  rintro ⟨-, payload, got, -, other⟩
  have isPayload : coapGetPayload pathWithPayload = .ok ⟨1, some 7⟩ := by decide
  rw [isPayload] at got
  cases got
  exact absurd (pathWithPayload_yields.unique other).2 (by decide)

theorem iteration_ends_with_payload_iff_path : ∃ message,
    pathWithPayload.packet = message.encode ∧ message.WellCoded ∧
      (EndsWithPayload pathWithPayload message ↔
        (∀ option ∈ message.options, option.InRange) ∧
          (message.options = [] ∨ message.payload = none)) :=
  iteration_ends_with_payload_iff pathWithPayload pathWithPayload_numbered (by decide)
    pathWithPayload_placed (by decide)

/-! ## The search by number -/

section Search

variable {pdu : CoapPdu} {num occ i fuel : Nat} {option : CoapOption}

theorem optionByNumLoop_stop {final : CoapOption}
    (got : coapGetOption pdu (some option) = .ok final) (zero : final.num = 0)
    (positive : 0 < num) : optionByNumLoop pdu num occ (fuel + 1) option i = .ok final := by
  have other : ¬ final.num = num := by omega
  have notLarger : ¬ final.num > num := by omega
  rw [optionByNumLoop, got, Exec.ok_bind, if_neg other, if_neg notLarger, if_pos zero]
  rfl

theorem optionByNumLoop_next {found : CoapOption}
    (got : coapGetOption pdu (some option) = .ok found) (nonzero : found.num ≠ 0)
    (counted : i ≤ occ) : optionByNumLoop pdu num occ (fuel + 1) option i =
      if found.num = num then
        if (i + 1) % 2 ^ 8 ≤ occ then optionByNumLoop pdu num occ fuel found ((i + 1) % 2 ^ 8)
        else .ok found
      else if num < found.num then .ok ⟨0, 0, none⟩
      else optionByNumLoop pdu num occ fuel found i := by
  rw [optionByNumLoop, got, Exec.ok_bind, if_neg nonzero, if_pos counted]
  rfl

/-- The occurrence that is asked for is found, if the counter can exceed its number. -/
theorem optionByNumLoop_found {found : List CoapOption}
    {last other : Option CoapOption} (passes : Passes pdu last found other)
    (isLast : last = some option) (sorted : found.Pairwise (·.num ≤ ·.num))
    (small : occ < 255) (counted : i ≤ occ)
    (there : occ < i + (found.filter (·.num = num)).length) (enough : found.length < fuel) :
    ∃ result, (found.filter (·.num = num))[occ - i]? = some result ∧
      optionByNumLoop pdu num occ fuel option i = .ok result := by
  induction passes generalizing option i fuel with
  | refl => exact absurd there (by simp; omega)
  | @next last other head rest got nonzero _ ih =>
      subst isLast
      obtain ⟨fuel, rfl⟩ := Nat.exists_eq_succ_of_ne_zero (Nat.ne_of_gt
        (Nat.lt_of_le_of_lt (Nat.zero_le _) enough))
      have fewer : rest.length < fuel := Nat.lt_of_succ_lt_succ enough
      have noWrap : (i + 1) % 2 ^ 8 = i + 1 := by omega
      rw [optionByNumLoop_next got nonzero counted, noWrap]
      by_cases same : head.num = num
      · rw [List.filter_cons_of_pos (by simpa using same)] at there ⊢
        rw [if_pos same]
        by_cases more : i + 1 ≤ occ
        · obtain ⟨result, isResult, searched⟩ := ih rfl (List.pairwise_cons.mp sorted).2 more
            (by rw [List.length_cons] at there; omega) fewer
          refine ⟨result, ?_, by rw [if_pos more, searched]⟩
          rw [show occ - i = occ - (i + 1) + 1 by omega, List.getElem?_cons_succ, isResult]
        · refine ⟨head, ?_, by rw [if_neg more]⟩
          rw [show occ - i = 0 by omega, List.getElem?_cons_zero]
      · rw [List.filter_cons_of_neg (by simpa using same)] at there ⊢
        have notLarger : ¬ num < head.num := by
          intro larger
          have none : rest.filter (·.num = num) = [] := by
            rw [List.filter_eq_nil_iff]
            intro other member
            have := (List.pairwise_cons.mp sorted).1 other member
            simp only [decide_eq_true_eq]
            omega
          rw [none] at there
          exact absurd there (by simp; omega)
        rw [if_neg same, if_neg notLarger]
        exact ih rfl (List.pairwise_cons.mp sorted).2 counted there fewer

/-- The 8-bit counter does not exceed the number of an occurrence that is not there. -/
theorem counter_next {left : Nat} (absent : occ = 255 ∨ i + (left + 1) ≤ occ) :
    (i + 1) % 2 ^ 8 ≤ occ ∧ (occ = 255 ∨ (i + 1) % 2 ^ 8 + left ≤ occ) := by
  omega

/-- Otherwise the search ends at the first larger option, with nothing, or behind all of
them with what the iterator returns there. -/
theorem optionByNumLoop_absent {found : List CoapOption} {final : CoapOption}
    {last other : Option CoapOption} (passes : Passes pdu last found other)
    (isLast : last = some option) (positive : 0 < num) (counted : i ≤ occ)
    (absent : occ = 255 ∨ i + (found.filter (·.num = num)).length ≤ occ)
    (enough : found.length < fuel)
    (ends : (∃ span ∈ found, num < span.num) ∨
      (coapGetOption pdu other = .ok final ∧ final.num = 0)) :
    optionByNumLoop pdu num occ fuel option i =
      .ok (if ∃ span ∈ found, num < span.num then ⟨0, 0, none⟩ else final) := by
  induction passes generalizing option i fuel with
  | refl =>
      subst isLast
      obtain ⟨fuel, rfl⟩ := Nat.exists_eq_succ_of_ne_zero (Nat.ne_of_gt
        (Nat.lt_of_le_of_lt (Nat.zero_le _) enough))
      obtain ⟨got, zero⟩ := ends.resolve_left (by simp)
      rw [optionByNumLoop_stop got zero positive, if_neg (by simp)]
  | @next last other head rest got nonzero _ ih =>
      subst isLast
      obtain ⟨fuel, rfl⟩ := Nat.exists_eq_succ_of_ne_zero (Nat.ne_of_gt
        (Nat.lt_of_le_of_lt (Nat.zero_le _) enough))
      have fewer : rest.length < fuel := Nat.lt_of_succ_lt_succ enough
      rw [optionByNumLoop_next got nonzero counted]
      by_cases larger : num < head.num
      · rw [if_neg (Nat.ne_of_gt larger), if_pos larger,
          if_pos ⟨head, List.mem_cons_self, larger⟩]
      · have later : (∃ span ∈ head :: rest, num < span.num) ↔ ∃ span ∈ rest, num < span.num := by
          simp [larger]
        rw [later] at ends
        simp only [later]
        by_cases same : head.num = num
        · rw [List.filter_cons_of_pos (by simpa using same), List.length_cons] at absent
          obtain ⟨more, fewerLeft⟩ := counter_next absent
          rw [if_pos same, if_pos more, ih rfl more fewerLeft fewer ends]
        · rw [List.filter_cons_of_neg (by simpa using same)] at absent
          rw [if_neg same, if_neg larger, ih rfl counted absent fewer ends]

end Search

section Linear

variable {pdu : CoapPdu} {message : Message}

theorem optionSpans_count (pos previous num : Nat) (options : List Opt) :
    ((optionSpans pos previous options).filter (·.num = num)).length =
      options.countP (·.num = num) := by
  have both := congrArg (List.countP (· = num)) (optionSpans_nums pos previous options)
  rw [List.countP_map, List.countP_map] at both
  rw [← List.countP_eq_length_filter]
  exact both

theorem occurrences_eq (message : Message) (num : Nat) :
    ((optionsIn message).filter (·.num = num)).length = occurrences message num :=
  optionSpans_count _ _ _ _

theorem optionSpans_larger (pos previous num : Nat) (options : List Opt) :
    (∃ span ∈ optionSpans pos previous options, num < span.num) ↔
      ∃ option ∈ options, num < option.num := by
  have both : (∃ n ∈ (optionSpans pos previous options).map (·.num), num < n) ↔
      ∃ n ∈ options.map (·.num), num < n := by
    rw [optionSpans_nums]
  simpa using both

theorem optionSpans_sorted {previous : Nat} {options : List Opt}
    (ascending : Ascending previous options) (pos : Nat) :
    (optionSpans pos previous options).Pairwise (·.num ≤ ·.num) := by
  have sorted := ascending.sorted.2
  rw [← optionSpans_nums pos previous options, List.pairwise_map] at sorted
  exact sorted

/-- The spans of the options in front of those out of range. -/
def frontIn (message : Message) : List CoapOption :=
  optionSpans (4 + message.token.length) 0 message.front

theorem frontIn_prefix (message : Message) : ∃ later, optionsIn message = frontIn message ++ later := by
  have split := optionSpans_append (4 + message.token.length) 0 message.front message.back
  rw [message.front_append] at split
  exact ⟨_, split⟩

/-- The iteration delivers the options in front of those out of range, whatever follows. -/
theorem CoapPdu.Holds.passes_front (holds : pdu.Holds message) (wellCoded : message.WellCoded)
    (nonzero : ∀ option ∈ message.options, option.num ≠ 0) :
    ∃ other, Passes pdu (some ⟨0, 0, none⟩) (frontIn message) other := by
  have split := message.front_append
  have lenEq := holds.len_eq_body
  have atBody := holds.drop_body
  rw [Message.body, ← split, encodeOptions_append, List.append_assoc, List.append_assoc] at atBody
  rw [Message.body_length, ← split, encodeOptions_append, List.length_append] at lenEq
  have member : ∀ option ∈ message.front, option.num ≠ 0 := fun option isFront =>
    nonzero option (split ▸ List.mem_append_left _ isFront)
  have position := optionPosition_none (holds.coapGetTkl_of_le wellCoded.token_le)
  obtain ⟨other, passes, -, -⟩ := @passes_spans _ _ _ none _ position (by omega)
    wellCoded.ascending_front member atBody (by dsimp only [lastNumber]; omega) holds.len_lt
  -- the search starts with the number zero, like the null pointer
  cases passes' : frontIn message with
  | nil => exact ⟨_, .refl⟩
  | cons head rest =>
      rw [show optionSpans _ (lastNumber none) message.front = head :: rest from passes'] at passes
      cases passes with
      | next got headNonzero more => exact ⟨other, .next got headNonzero more⟩

/-- The last result of the iteration is empty only without a payload: the buffer does not
start at the null address. -/
theorem finalOption_eq_empty (fits : pdu.len ≤ pdu.max) (placed : pdu.Placed) :
    finalOption pdu message = ⟨0, 0, none⟩ ↔ message.payload = none := by
  have mapped := placed.max_le
  have start := placed.buf_pos
  have bounded := placed.buf_lt
  unfold finalOption
  cases message.payload with
  | none => simp
  | some bytes =>
      by_cases empty : message.options = []
      · simp [empty]
      · have nonzero : (pdu.len + pdu.buf) % 2 ^ 64 ≠ 0 := by omega
        simp [empty] at nonzero ⊢
        exact nonzero

variable (holds : pdu.Holds message) (encodable : message.Encodable)
  (nonzero : ∀ option ∈ message.options, option.num ≠ 0) {num occ fuel : Nat}
  (enough : message.options.length < fuel)

include holds encodable nonzero enough

theorem CoapPdu.Holds.search_found (small : occ < 255)
    (there : occ < occurrences message num) :
    coapGetOptionByNum pdu fuel num occ = .ok (searchLinearly message num occ) := by
  rw [← occurrences_eq, ← Nat.zero_add (List.length _)] at there
  obtain ⟨other, passes, -, -⟩ := (holds.yields encodable nonzero).start.passes
  obtain ⟨result, isResult, searched⟩ := optionByNumLoop_found passes rfl
    (optionSpans_sorted encodable.ascending _) small (Nat.zero_le _) there
    (by rw [optionsIn, optionSpans_length]; exact enough)
  rw [Nat.sub_zero] at isResult
  rw [searchLinearly, isResult]
  exact searched

theorem CoapPdu.Holds.search_absent (positive : 0 < num)
    (absent : occ = 255 ∨ occurrences message num ≤ occ) :
    coapGetOptionByNum pdu fuel num occ =
      .ok (if ∃ option ∈ message.options, num < option.num then ⟨0, 0, none⟩
        else finalOption pdu message) := by
  rw [← occurrences_eq, ← Nat.zero_add (List.length _)] at absent
  obtain ⟨other, passes, ends⟩ := (holds.yields encodable nonzero).start.passes
  have searched := optionByNumLoop_absent passes rfl positive (Nat.zero_le _) absent
    (by rw [optionsIn, optionSpans_length]; exact enough) (Or.inr ends)
  simp only [optionsIn, optionSpans_larger] at searched
  exact searched

end Linear

/-! ### In front of what is out of range -/

section Front

variable {pdu : CoapPdu} {message : Message} (holds : pdu.Holds message)
  (wellCoded : message.WellCoded) (nonzero : ∀ option ∈ message.options, option.num ≠ 0)
  {num occ fuel : Nat} (enough : message.options.length < fuel)

include enough in
theorem front_length_lt : (frontIn message).length < fuel := by
  have total := congrArg List.length message.front_append
  rw [List.length_append] at total
  rw [frontIn, optionSpans_length]
  omega

include holds wellCoded nonzero enough

theorem CoapPdu.Holds.search_front (small : occ < 255)
    (there : occ < message.front.countP (·.num = num)) :
    coapGetOptionByNum pdu fuel num occ = .ok (searchLinearly message num occ) := by
  obtain ⟨other, passes⟩ := holds.passes_front wellCoded nonzero
  obtain ⟨later, split⟩ := frontIn_prefix message
  rw [← optionSpans_count (4 + message.token.length) 0, ← frontIn,
    ← Nat.zero_add (List.length _)] at there
  obtain ⟨result, isResult, searched⟩ := optionByNumLoop_found passes rfl
    (optionSpans_sorted wellCoded.ascending_front _) small (Nat.zero_le _) there
    (front_length_lt enough)
  rw [Nat.sub_zero] at isResult
  have inside := (List.getElem?_eq_some_iff.mp isResult).1
  rw [searchLinearly, split, List.filter_append, List.getElem?_append_left inside, isResult]
  exact searched

theorem CoapPdu.Holds.search_larger (positive : 0 < num)
    (absent : occurrences message num ≤ occ) (larger : ∃ option ∈ message.front, num < option.num) :
    coapGetOptionByNum pdu fuel num occ = .ok ⟨0, 0, none⟩ := by
  obtain ⟨other, passes⟩ := holds.passes_front wellCoded nonzero
  obtain ⟨later, split⟩ := frontIn_prefix message
  have fewer : 0 + ((frontIn message).filter (·.num = num)).length ≤ occ := by
    rw [← occurrences_eq, split, List.filter_append, List.length_append] at absent
    omega
  have some : ∃ span ∈ frontIn message, num < span.num := (optionSpans_larger _ _ _ _).mpr larger
  have searched : optionByNumLoop pdu num occ fuel ⟨0, 0, none⟩ 0 =
      .ok (if ∃ span ∈ frontIn message, num < span.num then ⟨0, 0, none⟩ else ⟨0, 0, none⟩) :=
    optionByNumLoop_absent passes rfl positive (Nat.zero_le _) (Or.inr fewer)
      (front_length_lt enough) (Or.inl some)
  rw [if_pos some] at searched
  exact searched

end Front

theorem searchLinearly_absent {message : Message} {num occ : Nat}
    (absent : occurrences message num ≤ occ) : searchLinearly message num occ = ⟨0, 0, none⟩ := by
  rw [← occurrences_eq] at absent
  rw [searchLinearly, List.getElem?_eq_none absent]
  rfl

theorem searchLinearly_num {message : Message} {num occ : Nat}
    (there : occ < occurrences message num) : (searchLinearly message num occ).num = num := by
  rw [← occurrences_eq] at there
  have member := List.getElem_mem there
  rw [List.mem_filter] at member
  rw [searchLinearly, List.getElem?_eq_getElem there]
  simpa using member.2

/-- Whatever is out of range, the search by number agrees with the linear search if it does
not come to it, and its counter and a payload do not matter. -/
theorem CoapPdu.Holds.findsLinearly {pdu : CoapPdu} {message : Message} {num occ : Nat}
    (holds : pdu.Holds message) (fits : pdu.len ≤ pdu.max) (placed : pdu.Placed)
    (wellCoded : message.WellCoded) (nonzero : ∀ option ∈ message.options, option.num ≠ 0)
    (positive : 1 ≤ num) (inByte : occ ≤ 255) (searchable : Searchable message num occ) :
    FindsLinearly pdu message num occ := by
  intro fuel enough
  by_cases there : occ < occurrences message num
  · obtain ⟨small, inFront⟩ := searchable.counts there
    exact holds.search_front wellCoded nonzero enough (by omega) inFront
  · have absent : occurrences message num ≤ occ := Nat.le_of_not_lt there
    rw [searchLinearly_absent absent]
    obtain ⟨noPayload, inRange⟩ | larger := searchable.stops absent
    · have encodable := (wellCoded.valid_iff.mpr inRange).toEncodable
      rw [holds.search_absent encodable nonzero enough positive (Or.inr absent),
        (finalOption_eq_empty fits placed).mpr noPayload, ite_self]
    · exact holds.search_larger wellCoded nonzero enough positive absent larger

/-- In range, the search by number agrees with the linear search exactly when its counter
can exceed the number of the occurrence and, for an option that is not there, no payload
follows or a larger option stops the search. -/
theorem CoapPdu.Holds.searchable {pdu : CoapPdu} {message : Message} {num occ : Nat}
    (holds : pdu.Holds message) (fits : pdu.len ≤ pdu.max) (placed : pdu.Placed)
    (valid : message.Valid) (nonzero : ∀ option ∈ message.options, option.num ≠ 0)
    (positive : 1 ≤ num) (finds : FindsLinearly pdu message num occ) :
    Searchable message num occ := by
  have encodable := valid.toEncodable
  have inRange := (ascending_iff.mp encodable.ascending).2
  have front := message.front_eq_iff.mpr inRange
  have searched := finds _ (Nat.lt_succ_self _)
  constructor
  · intro there
    refine ⟨?_, by rw [front]; exact there⟩
    rintro rfl
    rw [holds.search_absent encodable nonzero (Nat.lt_succ_self _) positive
      (Or.inl rfl)] at searched
    injection searched with searched
    have isNum := searchLinearly_num there
    rw [← searched] at isNum
    split_ifs at isNum with larger
    · exact absurd isNum (by dsimp only; omega)
    · rw [finalOption_num] at isNum
      omega
  · intro absent
    rw [holds.search_absent encodable nonzero (Nat.lt_succ_self _) positive
      (Or.inr absent), searchLinearly_absent absent] at searched
    injection searched with searched
    rw [front]
    by_cases larger : ∃ option ∈ message.options, num < option.num
    · exact Or.inr larger
    · rw [if_neg larger, finalOption_eq_empty fits placed] at searched
      exact Or.inl ⟨searched, inRange⟩

/-- The search by number agrees with the linear search if it does not come to an option out
of range, its counter can exceed the number of the occurrence and, for an option that is not
there, no payload follows or a larger option stops the search. If all options are in range,
it agrees in no other case. -/
theorem coapGetOptionByNum_linear_iff (pdu : CoapPdu) (numbered : Numbered pdu.packet)
    (fits : pdu.len ≤ pdu.max) (placed : pdu.Placed) (bounded : pdu.mem.length < 2 ^ 63) :
    ∃ message, pdu.packet = message.encode ∧ message.WellCoded ∧
      ∀ num occ, 1 ≤ num → occ ≤ 255 →
        (Searchable message num occ → FindsLinearly pdu message num occ) ∧
        ((∀ option ∈ message.options, option.InRange) →
          (FindsLinearly pdu message num occ ↔ Searchable message num occ)) := by
  obtain ⟨message, holds, wellCoded, nonzero⟩ := holds_of_numbered numbered fits placed bounded
  refine ⟨message, holds.bytes, wellCoded, fun num occ positive inByte => ?_⟩
  have enough := fun searchable =>
    @CoapPdu.Holds.findsLinearly _ _ num occ holds fits placed wellCoded nonzero positive inByte
      searchable
  exact ⟨enough, fun inRange => ⟨holds.searchable fits placed (wellCoded.valid_iff.mpr inRange)
    nonzero positive, enough⟩⟩

/-- Searched in vain for a Content-Format behind the path, the packet with a payload yields
a length that no caller can use. -/
theorem coapGetOptionByNum_misses : Numbered pathWithPayload.packet ∧
    pathWithPayload.packet = pathWithPayloadMessage.encode ∧
      coapGetOptionByNum pathWithPayload 2 12 0 = .ok ⟨0, 0x1008, none⟩ ∧
        ¬ FindsLinearly pathWithPayload pathWithPayloadMessage 12 0 := by
  refine ⟨pathWithPayload_numbered, by decide, by decide, fun finds => ?_⟩
  exact absurd (finds 2 (by decide)) (by decide)

theorem coapGetOptionByNum_linear_iff_path : ∃ message,
    pathWithPayload.packet = message.encode ∧ message.WellCoded ∧
      ∀ num occ, 1 ≤ num → occ ≤ 255 →
        (Searchable message num occ → FindsLinearly pathWithPayload message num occ) ∧
        ((∀ option ∈ message.options, option.InRange) →
          (FindsLinearly pathWithPayload message num occ ↔ Searchable message num occ)) :=
  coapGetOptionByNum_linear_iff pathWithPayload pathWithPayload_numbered (by decide)
    pathWithPayload_placed (by decide)

end ExositeCoap.Coap
