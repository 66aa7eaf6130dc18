import Mathlib.Algebra.Order.BigOperators.Group.List
import Mathlib.Algebra.Order.Group.Nat
import Mathlib.Algebra.Ring.Nat

/-!
# Quotients of sums that wrap

A sum that is kept modulo a number still has the right quotient when the part that is cut
off lies within the remainder. Where the divisor wraps as well, the parts that are cut off must
make up for each other.
-/

namespace Policer.Lib

/-- What is cut off `total` modulo `modulus` lies within the remainder. -/
def QuotientKept (modulus divisor total : Nat) : Prop :=
  total - total % modulus ≤ total % divisor

instance (modulus divisor total : Nat) : Decidable (QuotientKept modulus divisor total) :=
  inferInstanceAs (Decidable (_ ≤ _))

/-- What is cut off `total` modulo `modulus` is what the part that is cut off `divisor` modulo
`limit` has to be multiplied with the quotient, up to the remainder. -/
def CutsBalance (modulus limit divisor total : Nat) : Prop :=
  total - total % modulus ≤ total / divisor * (divisor - divisor % limit) + total % divisor ∧
    total / divisor * (divisor - divisor % limit) + total % divisor <
      total - total % modulus + divisor % limit

instance (modulus limit divisor total : Nat) :
    Decidable (CutsBalance modulus limit divisor total) :=
  inferInstanceAs (Decidable (_ ∧ _))

theorem mod_div_mod_eq_iff {modulus limit divisor total : Nat} (positive : 0 < divisor % limit) :
    total % modulus / (divisor % limit) = total / divisor ↔
      CutsBalance modulus limit divisor total := by
  have cut : total - total % modulus + total % modulus = total :=
    Nat.sub_add_cancel (Nat.mod_le ..)
  have cutDivisor : divisor - divisor % limit + divisor % limit = divisor :=
    Nat.sub_add_cancel (Nat.mod_le ..)
  have whole : total / divisor * (divisor - divisor % limit) + total / divisor * (divisor % limit) +
      total % divisor = total := by
    rw [← Nat.mul_add, cutDivisor, Nat.div_add_mod']
  rw [Nat.div_eq_iff positive, CutsBalance]
  omega

theorem cutsBalance_iff_of_lt {modulus limit divisor total : Nat} (positive : 0 < divisor)
    (small : divisor < limit) :
    CutsBalance modulus limit divisor total ↔ QuotientKept modulus divisor total := by
  have low : total % divisor < divisor := Nat.mod_lt _ positive
  rw [CutsBalance, QuotientKept, Nat.mod_eq_of_lt small, Nat.sub_self, Nat.mul_zero, Nat.zero_add]
  omega

theorem mod_div_eq_iff {modulus divisor total : Nat} (positive : 0 < divisor) :
    total % modulus / divisor = total / divisor ↔ QuotientKept modulus divisor total := by
  have small : divisor % (divisor + 1) = divisor := Nat.mod_eq_of_lt (Nat.lt_succ_self _)
  rw [← cutsBalance_iff_of_lt positive (Nat.lt_succ_self divisor),
    ← mod_div_mod_eq_iff (small.symm ▸ positive), small]

/-- A mean is not below all values. -/
theorem le_mean {values : List Nat} (nonempty : values ≠ []) {low : Nat}
    (above : ∀ value ∈ values, low ≤ value) : low ≤ values.sum / values.length := by
  have total : values.length * low ≤ values.sum := List.card_nsmul_le_sum values low above
  rwa [Nat.le_div_iff_mul_le (List.length_pos_of_ne_nil nonempty), Nat.mul_comm]

/-- A mean is not above all values. -/
theorem mean_le {values : List Nat} {high : Nat} (below : ∀ value ∈ values, value ≤ high) :
    values.sum / values.length ≤ high := by
  have total : values.sum ≤ values.length * high := List.sum_le_card_nsmul values high below
  exact Nat.div_le_of_le_mul total

end Policer.Lib
