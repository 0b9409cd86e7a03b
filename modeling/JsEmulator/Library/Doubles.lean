import Mathlib.Data.Nat.Log
import Mathlib.Data.Nat.Size
import Mathlib.Tactic.Ring

/-!
# Natural numbers as doubles

A double has a significand of 53 bits. A natural number that needs more is rounded to the nearest
multiple of the weight of its last bit, a tie to the even one.
-/

namespace JsEmulator.Library.Doubles

/-- The weight of the last bit of the significand. -/
def ulp (n : Nat) : Nat := 2 ^ (Nat.log2 n - 52)

/-- The double nearest to a natural number. -/
def nearest (n : Nat) : Nat :=
  if n < 2 ^ 53 then n
  else if ulp n < 2 * (n % ulp n) ∨ ulp n = 2 * (n % ulp n) ∧ n / ulp n % 2 = 1 then
    (n / ulp n + 1) * ulp n
  else n / ulp n * ulp n

/-- A natural number that is a double. -/
def Exact (n : Nat) : Prop := n < 2 ^ 53 ∨ ulp n ∣ n

instance (n : Nat) : Decidable (Exact n) := inferInstanceAs (Decidable (_ ∨ _))

theorem ulp_pos (n : Nat) : 0 < ulp n := Nat.two_pow_pos _

theorem nearest_of_lt {n : Nat} (small : n < 2 ^ 53) : nearest n = n := if_pos small

/-- Rounding goes at most to the next multiple. -/
theorem nearest_le (n : Nat) : nearest n ≤ n + ulp n := by
  have split := Nat.div_add_mod' n (ulp n)
  unfold nearest
  split_ifs
  · omega
  · rw [Nat.add_mul, Nat.one_mul]
    omega
  · omega

theorem nearest_eq_iff (n : Nat) : nearest n = n ↔ Exact n := by
  have split := Nat.div_add_mod' n (ulp n)
  have positive := ulp_pos n
  have below := Nat.mod_lt n positive
  unfold nearest Exact
  by_cases small : n < 2 ^ 53
  · rw [if_pos small]
    exact iff_of_true rfl (Or.inl small)
  rw [if_neg small]
  rw [or_iff_right small, Nat.dvd_iff_mod_eq_zero]
  split_ifs with up
  · rw [Nat.add_mul, Nat.one_mul]
    omega
  · omega

/-- A large number is rounded to a large one. -/
theorem le_nearest {n : Nat} (large : 2 ^ 53 ≤ n) : 2 ^ 53 ≤ nearest n := by
  have nonzero : n ≠ 0 := by omega
  have log : 53 ≤ Nat.log2 n := (Nat.le_log2 nonzero).mpr large
  have leading : 2 ^ Nat.log2 n ≤ n := Nat.log2_self_le nonzero
  have weight : 2 ^ 52 * ulp n = 2 ^ Nat.log2 n := by
    rw [ulp, ← Nat.pow_add]
    congr 1
    omega
  have quotient : 2 ^ 52 ≤ n / ulp n := by
    rw [Nat.le_div_iff_mul_le (ulp_pos n), weight]
    exact leading
  have even : 2 ≤ ulp n := by
    have power : 2 ^ 1 ≤ 2 ^ (Nat.log2 n - 52) := Nat.pow_le_pow_right (by omega) (by omega)
    exact power
  have kept : 2 ^ 53 ≤ n / ulp n * ulp n := by
    calc 2 ^ 53 = 2 ^ 52 * 2 := Nat.pow_succ 2 52
      _ ≤ n / ulp n * ulp n := Nat.mul_le_mul quotient even
  unfold nearest
  split_ifs
  · omega
  · rw [Nat.add_mul]
    omega
  · exact kept

/-- Rounding does not move a number below a bound of fewer bits. -/
theorem nearest_lt_iff {n bound : Nat} (short : bound ≤ 2 ^ 53) : nearest n < bound ↔ n < bound := by
  by_cases small : n < 2 ^ 53
  · rw [nearest_of_lt small]
  · have large := le_nearest (Nat.le_of_not_lt small)
    omega

end JsEmulator.Library.Doubles
