import ExositeCoap.Lib.Exec

/-!
# Byte memory with bounds

A block of mapped bytes, addressed from its first byte.  Every access outside
the block faults, so a run that returns has only touched bytes of the block, and
a run on a shortened block shows which bytes the code depends on.
-/

namespace ExositeCoap.Lib

/-- The mapped bytes from some address on. -/
abbrev Mem := List UInt8

namespace Mem

/-- Load one byte. -/
def read (mem : Mem) (address : Nat) : Exec UInt8 :=
  match mem[address]? with
  | some byte => .ok byte
  | none => .error .fault

/-- Load `count` consecutive bytes. Nothing is accessed when `count` is zero. -/
def slice (mem : Mem) (address count : Nat) : Exec (List UInt8) :=
  if count = 0 ∨ address + count ≤ mem.length then
    .ok ((mem.drop address).take count)
  else
    .error .fault

/-- Store consecutive bytes. Nothing is accessed when there are none. -/
def store (mem : Mem) (address : Nat) (bytes : List UInt8) : Exec Mem :=
  if bytes.length = 0 ∨ address + bytes.length ≤ mem.length then
    .ok (mem.take address ++ bytes ++ mem.drop (address + bytes.length))
  else
    .error .fault

/-- Copy `count` bytes; source and destination may overlap. -/
def move (mem : Mem) (target source count : Nat) : Exec Mem := do
  let bytes ← slice mem source count
  store mem target bytes

/-! ## Loads -/

theorem read_eq_ok {mem : Mem} {address : Nat} {byte : UInt8} :
    read mem address = .ok byte ↔ mem[address]? = some byte := by
  unfold read
  split <;> simp_all

theorem read_eq_error {mem : Mem} {address : Nat} {trap : Trap} :
    read mem address = .error trap ↔ mem.length ≤ address ∧ trap = .fault := by
  unfold read
  split
  next byte found =>
    have mapped := (List.getElem?_eq_some_iff.mp found).1
    simp only [reduceCtorEq, false_iff]
    omega
  next missing =>
    rw [List.getElem?_eq_none_iff] at missing
    simp only [Except.error.injEq, missing, true_and]
    exact eq_comm

theorem read_of_lt {mem : Mem} {address : Nat} (mapped : address < mem.length) :
    read mem address = .ok mem[address] := by
  simp [read, mapped]

theorem read_returns_iff {mem : Mem} {address : Nat} :
    (read mem address).Returns ↔ address < mem.length := by
  constructor
  · rintro ⟨byte, loaded⟩
    exact (List.getElem?_eq_some_iff.mp (read_eq_ok.mp loaded)).1
  · exact fun mapped => ⟨_, read_of_lt mapped⟩

theorem slice_returns_iff {mem : Mem} {address count : Nat} :
    (slice mem address count).Returns ↔ count = 0 ∨ address + count ≤ mem.length := by
  unfold slice
  split
  next mapped => exact iff_of_true (Exec.returns_ok _) mapped
  next unmapped => exact iff_of_false nofun unmapped

/-! Loads at a position whose following bytes are known. -/

theorem drop_add_of_append {mem front back : Mem} {address : Nat}
    (at_ : mem.drop address = front ++ back) :
    mem.drop (address + front.length) = back := by
  rw [← List.drop_drop, at_, List.drop_left]

theorem drop_succ_of_cons {mem rest : Mem} {address : Nat} {byte : UInt8}
    (at_ : mem.drop address = byte :: rest) : mem.drop (address + 1) = rest := by
  rw [← List.drop_drop, at_, List.drop_one, List.tail_cons]

theorem read_of_drop {mem rest : Mem} {address : Nat} {byte : UInt8}
    (at_ : mem.drop address = byte :: rest) : read mem address = .ok byte := by
  rw [read_eq_ok, ← List.head?_drop, at_]
  rfl

theorem drop_of_read {mem : Mem} {address : Nat} {byte : UInt8}
    (loaded : read mem address = .ok byte) :
    mem.drop address = byte :: mem.drop (address + 1) := by
  rw [read_eq_ok] at loaded
  obtain ⟨mapped, rfl⟩ := List.getElem?_eq_some_iff.mp loaded
  exact List.drop_eq_getElem_cons mapped

theorem slice_of_drop {mem front back : Mem} {address : Nat}
    (at_ : mem.drop address = front ++ back) :
    slice mem address front.length = .ok front := by
  have size := congrArg List.length at_
  simp only [List.length_drop, List.length_append] at size
  have mapped : front.length = 0 ∨ address + front.length ≤ mem.length := by omega
  rw [slice, if_pos mapped, at_, List.take_left]

theorem drop_of_slice {mem : Mem} {address count : Nat} {bytes : List UInt8}
    (loaded : slice mem address count = .ok bytes) :
    mem.drop address = bytes ++ mem.drop (address + count) := by
  unfold slice at loaded
  split at loaded
  · cases loaded
    rw [← List.drop_drop, List.take_append_drop]
  · cases loaded

theorem slice_length {mem : Mem} {address count : Nat} {bytes : List UInt8}
    (loaded : slice mem address count = .ok bytes) : bytes.length = count := by
  unfold slice at loaded
  split at loaded
  · cases loaded
    simp only [List.length_take, List.length_drop]
    omega
  · cases loaded

/-- A load depends on the bytes in its range only. -/
theorem slice_congr {mem other : Mem} {address count : Nat} {bytes : List UInt8}
    (loaded : slice mem address count = .ok bytes)
    (same : ∀ place : Nat, address ≤ place → place < address + count →
      other[place]? = mem[place]?) : slice other address count = .ok bytes := by
  have size := slice_length loaded
  have range := drop_of_slice loaded
  have front : (other.drop address).take count = bytes := by
    apply List.ext_getElem?
    intro index
    rw [List.getElem?_take]
    split_ifs with inside
    · rw [List.getElem?_drop, same _ (Nat.le_add_right _ _) (by omega), ← List.getElem?_drop,
        range, List.getElem?_append_left (by omega)]
    · rw [List.getElem?_eq_none (by omega)]
  have whole := List.take_append_drop count (other.drop address)
  rw [front] at whole
  rw [← size]
  exact slice_of_drop whole.symm

/-! ## Stores -/

theorem store_eq_ok {mem result : Mem} {address : Nat} {bytes : List UInt8} :
    store mem address bytes = .ok result ↔
      (bytes.length = 0 ∨ address + bytes.length ≤ mem.length) ∧
        result = mem.take address ++ bytes ++ mem.drop (address + bytes.length) := by
  unfold store
  split
  next mapped =>
    rw [Except.ok.injEq]
    exact ⟨fun equal => ⟨mapped, equal.symm⟩, fun both => both.2.symm⟩
  next unmapped =>
    exact ⟨nofun, fun both => absurd both.1 unmapped⟩

theorem store_returns_iff {mem : Mem} {address : Nat} {bytes : List UInt8} :
    (store mem address bytes).Returns ↔
      bytes.length = 0 ∨ address + bytes.length ≤ mem.length := by
  constructor
  · rintro ⟨result, stored⟩
    exact (store_eq_ok.mp stored).1
  · exact fun mapped => ⟨_, store_eq_ok.mpr ⟨mapped, rfl⟩⟩

/-- Overwriting a marked stretch of a block. -/
theorem store_append (front old back : Mem) {bytes : List UInt8}
    (sameSize : bytes.length = old.length) :
    store (front ++ (old ++ back)) front.length bytes =
      .ok (front ++ (bytes ++ back)) := by
  rw [store_eq_ok]
  refine ⟨Or.inr ?_, ?_⟩
  · simp only [List.length_append]
    omega
  · simp [sameSize]

/-- A store leaves the size of the block alone. -/
theorem store_length {mem result : Mem} {address : Nat} {bytes : List UInt8}
    (stored : store mem address bytes = .ok result) :
    result.length = mem.length := by
  obtain ⟨mapped, rfl⟩ := store_eq_ok.mp stored
  rcases mapped with none | mapped
  · simp [List.length_eq_zero_iff.mp none]
  · simp only [List.length_append, List.length_take, List.length_drop]
    omega

/-- Every byte after a store. -/
theorem store_getElem? {mem result : Mem} {address : Nat} {bytes : List UInt8}
    (stored : store mem address bytes = .ok result) (index : Nat) :
    result[index]? =
      if address ≤ index ∧ index < address + bytes.length then bytes[index - address]?
      else mem[index]? := by
  obtain ⟨mapped, rfl⟩ := store_eq_ok.mp stored
  rcases mapped with none | mapped
  · have outside : ¬ (address ≤ index ∧ index < address + bytes.length) := by omega
    rw [if_neg outside, List.length_eq_zero_iff.mp none]
    simp
  · have front : (mem.take address).length = address := by
      rw [List.length_take]
      omega
    rw [List.append_assoc, List.getElem?_append, List.getElem?_append, front,
      List.getElem?_take, List.getElem?_drop]
    split_ifs with before inside
    · omega
    · rfl
    · rfl
    · omega
    · omega
    · congr 1
      omega

/-- A store changes no byte outside its stretch. -/
theorem store_getElem?_of_outside {mem result : Mem} {address : Nat}
    {bytes : List UInt8} (stored : store mem address bytes = .ok result)
    {other : Nat} (outside : other < address ∨ address + bytes.length ≤ other) :
    result[other]? = mem[other]? := by
  rw [store_getElem? stored, if_neg (by omega)]

/-- What was stored can be loaded. -/
theorem slice_of_store {mem result : Mem} {address : Nat} {bytes : List UInt8}
    (stored : store mem address bytes = .ok result) :
    slice result address bytes.length = .ok bytes := by
  have size := store_length stored
  have mapped := (store_eq_ok.mp stored).1
  rw [slice, if_pos (by omega), Except.ok.injEq]
  apply List.ext_getElem?
  intro index
  rw [List.getElem?_take, List.getElem?_drop, store_getElem? stored]
  split_ifs with inside there
  · rw [Nat.add_sub_cancel_left]
  · omega
  · rw [List.getElem?_eq_none (by omega)]

/-- A store changes nothing from a later address on. -/
theorem store_drop {mem result : Mem} {address limit : Nat} {bytes : List UInt8}
    (stored : store mem address bytes = .ok result)
    (inside : address + bytes.length ≤ limit) : result.drop limit = mem.drop limit := by
  apply List.ext_getElem?
  intro index
  rw [List.getElem?_drop, List.getElem?_drop]
  exact store_getElem?_of_outside stored (by omega)

theorem store_of_le {mem : Mem} {address : Nat} {bytes : List UInt8}
    (mapped : address + bytes.length ≤ mem.length) :
    store mem address bytes =
      .ok (mem.take address ++ bytes ++ mem.drop (address + bytes.length)) :=
  store_eq_ok.mpr ⟨Or.inr mapped, rfl⟩

/-- A store that makes every byte what it is in `result` yields `result`. -/
theorem store_eq_of_getElem? {mem result : Mem} {address : Nat} {bytes : List UInt8}
    (mapped : bytes.length = 0 ∨ address + bytes.length ≤ mem.length)
    (same : ∀ index : Nat, result[index]? =
      if address ≤ index ∧ index < address + bytes.length then bytes[index - address]?
      else mem[index]?) :
    store mem address bytes = .ok result := by
  have stored := store_eq_ok.mpr ⟨mapped, rfl⟩
  rw [stored, Except.ok.injEq]
  apply List.ext_getElem?
  intro index
  rw [store_getElem? stored, same]

/-- A store, then another one right behind it. -/
theorem store_store_right {mem middle result : Mem} {address : Nat}
    {left right : List UInt8} (first : store mem address left = .ok middle)
    (second : store middle (address + left.length) right = .ok result) :
    store mem address (left ++ right) = .ok result := by
  have size := store_length first
  have firstMapped := (store_eq_ok.mp first).1
  have secondMapped := (store_eq_ok.mp second).1
  apply store_eq_of_getElem?
  · rw [List.length_append]
    omega
  · intro index
    rw [store_getElem? second, store_getElem? first, List.length_append,
      List.getElem?_append, ← Nat.sub_sub]
    split_ifs <;> first | rfl | omega

/-- Two stores side by side are one. -/
theorem store_bind_store (mem : Mem) (address : Nat) (left right : List UInt8) :
    (store mem address left >>= fun middle => store middle (address + left.length) right) =
      store mem address (left ++ right) := by
  cases first : store mem address left with
  | error trap =>
      unfold store at first
      split_ifs at first with mapped
      cases first
      rw [store, if_neg (by rw [List.length_append]; omega)]
      rfl
  | ok middle =>
      have size := store_length first
      cases second : store middle (address + left.length) right with
      | error trap =>
          unfold store at second
          split_ifs at second with mapped
          cases second
          rw [Exec.ok_bind, store, if_neg mapped, store,
            if_neg (by rw [List.length_append]; omega)]
      | ok result =>
          rw [Exec.ok_bind, second, store_store_right first second]

/-- A store, then another one right in front of it. -/
theorem store_store_left {mem middle result : Mem} {address : Nat}
    {left right : List UInt8} (first : store mem (address + left.length) right = .ok middle)
    (second : store middle address left = .ok result) :
    store mem address (left ++ right) = .ok result := by
  have size := store_length first
  have firstMapped := (store_eq_ok.mp first).1
  have secondMapped := (store_eq_ok.mp second).1
  apply store_eq_of_getElem?
  · rw [List.length_append]
    omega
  · intro index
    rw [store_getElem? second, store_getElem? first, List.length_append,
      List.getElem?_append, ← Nat.sub_sub]
    split_ifs <;> first | rfl | omega

/-- Two stores can change places when they agree on the bytes that both write. -/
theorem store_comm {mem middle result : Mem} {here there : Nat} {left right : List UInt8}
    (agree : ∀ index, here ≤ index → index < here + left.length → there ≤ index →
      index < there + right.length → left[index - here]? = right[index - there]?)
    (first : store mem here left = .ok middle) (second : store middle there right = .ok result) :
    ∃ other, store mem there right = .ok other ∧ store other here left = .ok result := by
  have size := store_length first
  have firstMapped := (store_eq_ok.mp first).1
  have secondMapped := (store_eq_ok.mp second).1
  have mapped : right.length = 0 ∨ there + right.length ≤ mem.length := by omega
  have swapped := store_eq_ok.mpr ⟨mapped, rfl⟩
  refine ⟨_, swapped, store_eq_of_getElem? (by rw [store_length swapped]; exact firstMapped) ?_⟩
  intro index
  rw [store_getElem? second, store_getElem? first, store_getElem? swapped]
  split_ifs with inRight inLeft
  · exact (agree index inLeft.1 inLeft.2 inRight.1 inRight.2).symm
  · rfl
  · rfl
  · rfl

/-- Storing the same bytes once more changes nothing. -/
theorem store_store_self {mem result : Mem} {address : Nat} {bytes : List UInt8}
    (stored : store mem address bytes = .ok result) :
    store result address bytes = .ok result := by
  have mapped := (store_eq_ok.mp stored).1
  refine store_eq_of_getElem? (by rw [store_length stored]; exact mapped) ?_
  intro index
  rw [store_getElem? stored]
  split_ifs <;> rfl

theorem move_length {mem result : Mem} {target source count : Nat}
    (moved : move mem target source count = .ok result) :
    result.length = mem.length := by
  obtain ⟨bytes, -, stored⟩ := Exec.bind_eq_ok.mp moved
  exact store_length stored

theorem move_drop {mem result : Mem} {target source count limit : Nat}
    (moved : move mem target source count = .ok result)
    (inside : target + count ≤ limit) : result.drop limit = mem.drop limit := by
  obtain ⟨bytes, loaded, stored⟩ := Exec.bind_eq_ok.mp moved
  have size := slice_length loaded
  exact store_drop stored (by omega)

/-- Moving a known stretch to a place that ends inside the block. -/
theorem move_of_drop {mem front back : Mem} {target source : Nat}
    (at_ : mem.drop source = front ++ back) (mapped : target + front.length ≤ mem.length) :
    move mem target source front.length =
      .ok (mem.take target ++ front ++ mem.drop (target + front.length)) := by
  rw [move, slice_of_drop at_, Exec.ok_bind, store_of_le mapped]

end Mem

end ExositeCoap.Lib
