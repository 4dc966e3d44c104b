import Mathlib.Algebra.Order.Ring.Int
import Mathlib.Data.List.Basic

/-!
# Executions that may trap

A C function either returns a value or has no result at all: it touches memory
that is not mapped, or a loop is still running when the step budget of the
model is spent.  `Exec` keeps the two causes apart, so that a statement about
memory safety does not depend on a statement about termination.
-/

namespace ExositeCoap.Lib

/-- Why an execution has no result. -/
inductive Trap where
  /-- an access outside mapped memory, or through a null pointer -/
  | fault
  /-- the step budget of a loop is spent -/
  | fuel
  deriving DecidableEq, Repr

/-- A computation that returns a value or traps. -/
abbrev Exec := Except Trap

namespace Exec

variable {α β : Type}

@[simp] theorem ok_bind (value : α) (next : α → Exec β) :
    ((Except.ok value : Exec α) >>= next) = next value := rfl

@[simp] theorem error_bind (trap : Trap) (next : α → Exec β) :
    ((Except.error trap : Exec α) >>= next) = Except.error trap := rfl

@[simp] theorem pure_eq_ok (value : α) : (pure value : Exec α) = Except.ok value := rfl

/-- A sequence returns exactly when its first part returns and the second part
returns from there. -/
theorem bind_eq_ok {first : Exec α} {next : α → Exec β} {result : β} :
    (first >>= next) = .ok result ↔
      ∃ value, first = .ok value ∧ next value = .ok result := by
  cases first <;> simp

/-- A sequence traps when its first part does, or its second part from there. -/
theorem bind_eq_error {first : Exec α} {next : α → Exec β} {trap : Trap} :
    (first >>= next) = .error trap ↔
      first = .error trap ∨ ∃ value, first = .ok value ∧ next value = .error trap := by
  cases first <;> simp

/-- The computation returns. -/
def Returns (computation : Exec α) : Prop := ∃ value, computation = .ok value

theorem returns_ok (value : α) : Returns (.ok value) := ⟨value, rfl⟩

/-- A sequence returns when its first part does, and its second part from there. -/
theorem Returns.bind {first : Exec α} {next : α → Exec β} (returns : Returns first)
    (later : ∀ value, first = .ok value → Returns (next value)) : Returns (first >>= next) := by
  obtain ⟨value, rfl⟩ := returns
  exact later value rfl

/-- A sequence returns exactly when it does so from the value of its first part. -/
theorem returns_bind_iff {first : Exec α} {next : α → Exec β} :
    Returns (first >>= next) ↔ ∃ value, first = .ok value ∧ Returns (next value) := by
  constructor
  · rintro ⟨result, ran⟩
    obtain ⟨value, isValue, ran⟩ := bind_eq_ok.mp ran
    exact ⟨value, isValue, result, ran⟩
  · rintro ⟨value, rfl, returns⟩
    exact returns

theorem map_eq_ok {first : Exec α} {next : α → β} {result : β} :
    first.map next = .ok result ↔ ∃ value, first = .ok value ∧ next value = result := by
  cases first <;> simp [Except.map]

/-! ## Two computations -/

/-- Both return, with related results, or both trap for the same reason. -/
inductive Agree {α β : Type} (relates : α → β → Prop) : Exec α → Exec β → Prop where
  | ok {left : α} {right : β} (related : relates left right) :
      Agree relates (.ok left) (.ok right)
  | trap (trap : Trap) : Agree relates (.error trap) (.error trap)

section Agree

variable {γ δ : Type} {relates : α → β → Prop} {later : γ → δ → Prop}

/-- Sequences agree when their parts do. -/
theorem Agree.bind {left : Exec α} {right : Exec β} {leftNext : α → Exec γ}
    {rightNext : β → Exec δ} (first : Agree relates left right)
    (next : ∀ value image, left = .ok value → relates value image →
      Agree later (leftNext value) (rightNext image)) :
    Agree later (left >>= leftNext) (right >>= rightNext) := by
  cases first with
  | ok related => exact next _ _ rfl related
  | trap trap => exact .trap trap

/-- The second computation is already at its end. -/
theorem Agree.bind_left {left : Exec α} {right : Exec β} {next : α → Exec γ}
    {later : γ → β → Prop} (first : Agree relates left right)
    (rest : ∀ value image, relates value image → Agree later (next value) (.ok image)) :
    Agree later (left >>= next) right := by
  cases first with
  | ok related => exact rest _ _ related
  | trap trap => exact .trap trap

/-- The same computation goes first. -/
theorem Agree.after {first : Exec α} {leftNext : α → Exec γ} {rightNext : α → Exec δ}
    (next : ∀ value, first = .ok value → Agree later (leftNext value) (rightNext value)) :
    Agree later (first >>= leftNext) (first >>= rightNext) := by
  cases first with
  | ok value => exact next value rfl
  | error trap => exact .trap trap

/-- Agreement about a view of the results. -/
theorem agree_view_iff {left : Exec α} {right : Exec β} {view : α → β} :
    Agree (fun value image => view value = image) left right ↔ left.map view = right := by
  constructor
  · rintro (⟨⟨⟩⟩ | ⟨⟩) <;> rfl
  · rintro rfl
    cases left with
    | ok value => exact .ok rfl
    | error trap => exact .trap trap

end Agree

end Exec

/-- Difference of two unsigned 64-bit quantities, as C computes it on
`size_t`: below zero it wraps. -/
def sizeSub (left right : Nat) : Nat := (((left : Int) - right) % 2 ^ 64).toNat

theorem sizeSub_of_le {left right : Nat} (ordered : right ≤ left)
    (bounded : left < 2 ^ 64) : sizeSub left right = left - right := by
  unfold sizeSub
  omega

@[simp] theorem sizeSub_self (size : Nat) : sizeSub size size = 0 := by
  simp [sizeSub]

/-- Below one wrap the difference is zero only for equal operands. -/
theorem sizeSub_eq_zero {left right : Nat} (leftBound : left < right + 2 ^ 64)
    (rightBound : right < left + 2 ^ 64) : sizeSub left right = 0 ↔ left = right := by
  unfold sizeSub
  omega

end ExositeCoap.Lib
