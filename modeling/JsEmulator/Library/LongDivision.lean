import Mathlib.Tactic.Ring
import Mathlib.Tactic.Linarith
import Mathlib.Algebra.Order.Ring.Nat

/-!
# Long division in binary

Restoring division reads the bits of a dividend from the highest to the lowest. `Divided` says what
quotient and remainder stand for while `k` bits are still to be read: the division of the bits read
so far, with the quotient already in its place. One more bit keeps it, and the shifted remainder
needs no more room than the dividend.
-/

namespace JsEmulator.Library

/-- Quotient and remainder of the part of the dividend above its `k` lowest bits. -/
structure Divided (dividend divisor k quotient remainder : Nat) : Prop where
  quotient : quotient = dividend / 2 ^ k / divisor * 2 ^ k
  remainder : remainder = dividend / 2 ^ k % divisor

namespace Divided

variable {dividend divisor k quotient remainder : Nat}

/-- One more bit of the dividend. -/
theorem read_bit (dividend k : Nat) :
    dividend / 2 ^ k = 2 * (dividend / 2 ^ (k + 1)) + dividend / 2 ^ k % 2 := by
  have halved : dividend / 2 ^ (k + 1) = dividend / 2 ^ k / 2 := by
    rw [Nat.div_div_eq_div_mul, Nat.pow_succ]
  rw [halved]
  omega

/-- Nothing is read yet. -/
theorem start (small : dividend < 2 ^ k) : Divided dividend divisor k 0 0 := by
  have nothing : dividend / 2 ^ k = 0 := Nat.div_eq_of_lt small
  exact ⟨by rw [nothing, Nat.zero_div, Nat.zero_mul], by rw [nothing, Nat.zero_mod]⟩

/-- All is read. -/
theorem finish (divided : Divided dividend divisor 0 quotient remainder) :
    quotient = dividend / divisor ∧ remainder = dividend % divisor := by
  refine ⟨?_, ?_⟩
  · rw [divided.quotient, Nat.pow_zero, Nat.div_one, Nat.mul_one]
  · rw [divided.remainder, Nat.pow_zero, Nat.div_one]

section

variable (divided : Divided dividend divisor (k + 1) quotient remainder)
include divided

/-- The shifted remainder is at most the dividend. -/
theorem shifted_le : 2 * remainder + dividend / 2 ^ k % 2 ≤ dividend := by
  have small : remainder ≤ dividend / 2 ^ (k + 1) := by
    rw [divided.remainder]
    exact Nat.mod_le _ _
  have bits := read_bit dividend k
  have part : dividend / 2 ^ k ≤ dividend := Nat.div_le_self _ _
  omega

/-- The shifted remainder and the bits read differ by a multiple of the divisor. -/
theorem shifted_eq :
    dividend / 2 ^ k = 2 * remainder + dividend / 2 ^ k % 2 +
      divisor * (2 * (dividend / 2 ^ (k + 1) / divisor)) := by
  have bits := read_bit dividend k
  have split := Nat.div_add_mod (dividend / 2 ^ (k + 1)) divisor
  rw [← divided.remainder] at split
  calc dividend / 2 ^ k
      = 2 * (divisor * (dividend / 2 ^ (k + 1) / divisor) + remainder) + dividend / 2 ^ k % 2 := by
        rw [split]
        exact bits
    _ = _ := by ring

/-- A shifted remainder below the divisor is the next remainder. -/
theorem keep (less : 2 * remainder + dividend / 2 ^ k % 2 < divisor) :
    Divided dividend divisor k quotient (2 * remainder + dividend / 2 ^ k % 2) := by
  have value := divided.shifted_eq
  have positive : 0 < divisor := by omega
  refine ⟨?_, ?_⟩
  · rw [value, Nat.add_mul_div_left _ _ positive, Nat.div_eq_of_lt less, divided.quotient,
      Nat.pow_succ]
    ring
  · conv_rhs => rw [value]
    rw [Nat.add_mul_mod_self_left, Nat.mod_eq_of_lt less]

/-- From another one the divisor is taken, and the quotient has a bit here. -/
theorem restore
    (positive : 0 < divisor) (atLeast : divisor ≤ 2 * remainder + dividend / 2 ^ k % 2) :
    Divided dividend divisor k (quotient + 2 ^ k)
      (2 * remainder + dividend / 2 ^ k % 2 - divisor) := by
  have value := divided.shifted_eq
  have below : remainder < divisor := by
    rw [divided.remainder]
    exact Nat.mod_lt _ positive
  have less : 2 * remainder + dividend / 2 ^ k % 2 - divisor < divisor := by omega
  have shifted : dividend / 2 ^ k = 2 * remainder + dividend / 2 ^ k % 2 - divisor +
      divisor * (2 * (dividend / 2 ^ (k + 1) / divisor) + 1) := by
    rw [Nat.mul_add, Nat.mul_one]
    omega
  refine ⟨?_, ?_⟩
  · rw [shifted, Nat.add_mul_div_left _ _ positive, Nat.div_eq_of_lt less, divided.quotient,
      Nat.pow_succ]
    ring
  · conv_rhs => rw [shifted]
    rw [Nat.add_mul_mod_self_left, Nat.mod_eq_of_lt less]

end

end Divided

end JsEmulator.Library
