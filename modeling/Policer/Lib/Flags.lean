import Mathlib.Data.Nat.Bitwise

/-!
# Masks that are one flag

A mask can be tested for having all of its bits in a number, or none of them. The two tests are
opposite exactly for masks of one bit, and for masks with no bit where the numbers have any.
-/

namespace Policer.Lib.Flags

/-- A mask is one bit of a number of `width` bits, or has all its bits beyond them. -/
def OneFlag (width mask : Nat) : Prop :=
  (∃ k < width, mask = 2 ^ k) ∨ (mask ≠ 0 ∧ 2 ^ width ∣ mask)

theorem and_two_pow_of_testBit {mask k : Nat} (set : mask.testBit k = true) :
    2 ^ k &&& mask = 2 ^ k := by
  rw [Nat.and_comm, Nat.and_two_pow, set]
  simp

theorem and_eq_zero_of_dvd {width value mask : Nat} (small : value < 2 ^ width)
    (beyond : 2 ^ width ∣ mask) : value &&& mask = 0 := by
  obtain ⟨rest, rfl⟩ := beyond
  refine Nat.eq_of_testBit_eq fun k => ?_
  rw [Nat.testBit_and, Nat.zero_testBit, Nat.testBit_two_pow_mul]
  by_cases low : k < width
  · simp [Nat.not_le.mpr low]
  · have high : value.testBit k = false :=
      Nat.testBit_lt_two_pow (Nat.lt_of_lt_of_le small
        (Nat.pow_le_pow_right (by decide) (Nat.not_lt.mp low)))
    simp [high]

/-- For which masks "no bit is set" and "not all bits are set" say the same. -/
theorem avoids_iff_not_contains {width mask : Nat} :
    (∀ value < 2 ^ width, value &&& mask = 0 ↔ ¬ value &&& mask = mask) ↔ OneFlag width mask := by
  constructor
  · intro exact_
    have nonzero : mask ≠ 0 := by
      rintro rfl
      have zero := exact_ 0 (Nat.two_pow_pos width)
      simp at zero
    by_cases low : mask % 2 ^ width = 0
    · exact Or.inr ⟨nonzero, Nat.dvd_of_mod_eq_zero low⟩
    · obtain ⟨k, set⟩ := Nat.exists_testBit_of_ne_zero low
      rw [Nat.testBit_mod_two_pow, Bool.and_eq_true, decide_eq_true_eq] at set
      have value := and_two_pow_of_testBit set.2
      have positive := Nat.two_pow_pos k
      have contains := (exact_ (2 ^ k) (Nat.pow_lt_pow_right (by decide) set.1)).not
      rw [value, Decidable.not_not] at contains
      exact Or.inl ⟨k, set.1, (contains.mp (by omega)).symm⟩
  · rintro (⟨k, inside, rfl⟩ | ⟨nonzero, beyond⟩) value small
    · have positive := Nat.two_pow_pos k
      rw [Nat.and_two_pow]
      cases value.testBit k with
      | false => simpa using positive.ne
      | true => simp
    · rw [and_eq_zero_of_dvd small beyond]
      exact iff_of_true rfl nonzero.symm

end Policer.Lib.Flags
