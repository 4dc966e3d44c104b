import Mathlib.Algebra.BigOperators.Group.Finset.Basic
import Mathlib.Dynamics.BirkhoffSum.Basic
import Mathlib.Dynamics.PeriodicPts.Defs

/-!
# Walks that start over

A walk whose every step climbs or goes back home comes home after at most as many steps
as there are ranks, and then repeats itself.  So whatever is added up along the walk modulo
some number returns to zero (`Restarts.exists_dvd_birkhoffSum`).
-/

namespace ExositeCoap.Lib

open Function

variable {α M : Type*} {step : α → α} {home : α} {rank : α → Nat} {bound : Nat}

/-- Every step climbs, up to a bound, or goes back home. -/
def Restarts (step : α → α) (home : α) (rank : α → Nat) (bound : Nat) : Prop :=
  ∀ place, step place = home ∨ rank place < rank (step place) ∧ rank (step place) ≤ bound

/-- Until it is home again, a walk has climbed with every step. -/
theorem Restarts.le_rank (restarts : Restarts step home rank bound) {count : Nat}
    (away : ∀ earlier, 0 < earlier → earlier ≤ count → step^[earlier] home ≠ home) :
    count ≤ rank (step^[count] home) := by
  induction count with
  | zero => exact Nat.zero_le _
  | succ count ih =>
      have below := ih fun earlier positive inRange =>
        away earlier positive (Nat.le_succ_of_le inRange)
      have last := away (count + 1) (Nat.succ_pos _) (Nat.le_refl _)
      rw [iterate_succ_apply'] at last ⊢
      rcases restarts (step^[count] home) with back | ⟨higher, -⟩
      · exact absurd back last
      · omega

/-- The walk from home comes home. -/
theorem Restarts.exists_isPeriodicPt (restarts : Restarts step home rank bound) :
    ∃ period, 0 < period ∧ period ≤ bound + 1 ∧ IsPeriodicPt step period home := by
  by_contra none
  have away : ∀ earlier, 0 < earlier → earlier ≤ bound + 1 → step^[earlier] home ≠ home :=
    fun earlier positive inRange back => none ⟨earlier, positive, inRange, back⟩
  have high := restarts.le_rank away
  have last := away (bound + 1) (Nat.succ_pos _) (Nat.le_refl _)
  rw [iterate_succ_apply'] at high last
  rcases restarts (step^[bound] home) with back | ⟨-, low⟩
  · exact last back
  · omega

/-- Over several periods the sum of the weights is a multiple of that over one. -/
theorem birkhoffSum_mul_of_isPeriodicPt [AddCommMonoid M] {weight : α → M} {period : Nat}
    {place : α} (periodic : IsPeriodicPt step period place) (count : Nat) :
    birkhoffSum step weight (count * period) place =
      count • birkhoffSum step weight period place := by
  induction count with
  | zero => simp
  | succ count ih =>
      have back : step^[count * period] place = place := periodic.const_mul count
      rw [Nat.succ_mul, birkhoffSum_add, ih, back, succ_nsmul]

/-- The weights along the walk from home add up to a multiple of `modulus` at some point. -/
theorem Restarts.exists_dvd_birkhoffSum (restarts : Restarts step home rank bound)
    (weight : α → Nat) {modulus : Nat} (positive : 0 < modulus) :
    ∃ count, 0 < count ∧ count ≤ modulus * (bound + 1) ∧
      modulus ∣ birkhoffSum step weight count home := by
  obtain ⟨period, some, short, periodic⟩ := restarts.exists_isPeriodicPt
  refine ⟨modulus * period, Nat.mul_pos positive some, Nat.mul_le_mul_left _ short, ?_⟩
  rw [birkhoffSum_mul_of_isPeriodicPt periodic, smul_eq_mul]
  exact Nat.dvd_mul_right _ _

end ExositeCoap.Lib
