import JsEmulator.Library.Floats
import JsEmulator.Toolchain.RuntimeFloat
import Mathlib.Data.BitVec

/-!
# Putting patterns together

What the arithmetic on `float` and on `double` has in common: bits put side by side, signs, and the loop
that doubles a significand.
-/

namespace JsEmulator.Toolchain.FloatPatterns

open JsEmulator.Library (turnWhile_rule)
open JsEmulator.Library.Floats
open JsEmulator.Toolchain.RuntimeFloat

/-! ## Bits -/

/-- Bits are put below a multiple of a power of two. -/
theorem toNat_or {w c k : Nat} {high low : BitVec w} (multiple : high.toNat = c * 2 ^ k)
    (short : low.toNat < 2 ^ k) : (high ||| low).toNat = c * 2 ^ k + low.toNat := by
  rw [BitVec.toNat_or, multiple, ← Nat.shiftLeft_eq, Nat.shiftLeft_add_eq_or_of_lt short]

theorem toNat_shiftLeft {w k : Nat} {x : BitVec w} (fits : x.toNat * 2 ^ k < 2 ^ w) :
    (x <<< k).toNat = x.toNat * 2 ^ k := by
  rw [BitVec.toNat_shiftLeft, Nat.shiftLeft_eq, Nat.mod_eq_of_lt fits]

theorem toNat_shiftRight {w : Nat} (x : BitVec w) (k : Nat) : (x >>> k).toNat = x.toNat / 2 ^ k := by
  rw [BitVec.toNat_ushiftRight, Nat.shiftRight_eq_div_pow]

/-- The lowest bit is tested. -/
theorem odd_iff (x : Long) : x &&& 1 ≠ 0 ↔ x.toNat % 2 ≠ 0 := by
  have last : (x &&& 1).toNat = x.toNat % 2 := by
    rw [BitVec.toNat_and]
    exact Nat.and_two_pow_sub_one_eq_mod x.toNat 1
  rw [ne_eq, ← BitVec.toNat_inj, last]
  rfl

/-- The pattern of a sign, an exponent and a fraction. -/
theorem pattern_toNat {F : Format} {w : Nat} (width : w = F.fraction + F.exponent + 1)
    {sign exponent fraction : BitVec w} (bit : sign.toNat < 2)
    (shortExponent : exponent.toNat < 2 ^ F.exponent) (shortFraction : fraction.toNat < 2 ^ F.fraction) :
    ((sign <<< (F.fraction + F.exponent)) ||| (exponent <<< F.fraction) ||| fraction).toNat =
      F.encode sign.toNat exponent.toNat fraction.toNat := by
  have whole : 2 ^ w = 2 * (2 ^ F.exponent * 2 ^ F.fraction) := by
    rw [width]
    ring
  have fields : 2 ^ (F.fraction + F.exponent) = 2 ^ F.exponent * 2 ^ F.fraction := by ring
  have below : exponent.toNat * 2 ^ F.fraction < 2 ^ F.exponent * 2 ^ F.fraction :=
    Nat.mul_lt_mul_of_pos_right shortExponent (Nat.two_pow_pos _)
  have top := @toNat_shiftLeft w (F.fraction + F.exponent) sign (by
    rw [fields, whole]
    exact Nat.mul_lt_mul_of_pos_right bit (by positivity))
  have middle := @toNat_shiftLeft w F.fraction exponent (by omega)
  have both : (sign <<< (F.fraction + F.exponent) ||| exponent <<< F.fraction).toNat =
      (sign.toNat * 2 ^ F.exponent + exponent.toNat) * 2 ^ F.fraction := by
    rw [toNat_or top (by omega), middle, fields]
    ring
  exact toNat_or both shortFraction

/-- The significand is doubled until it has all its bits or the exponent does not allow it. -/
theorem grow_spec {w k : Nat} {top : BitVec w} {allowed : Int → Bool} {x : Unpacked w}
    (bits : top.toNat = 2 ^ k) (room : k < w) (positive : 0 < x.mant.toNat)
    (short : x.mant.toNat < 2 ^ (k + 1)) :
    ∃ j : Nat, (grow top allowed x).exp = x.exp - j ∧
      (grow top allowed x).mant.toNat = x.mant.toNat * 2 ^ j ∧
      (grow top allowed x).mant.toNat < 2 ^ (k + 1) ∧
      (2 ^ k ≤ (grow top allowed x).mant.toNat ∨ allowed (grow top allowed x).exp = false) := by
  obtain ⟨j, ⟨exp, mant, small⟩, failed⟩ := @turnWhile_rule (Unpacked w)
    (fun x => decide (x.mant < top) && allowed x.exp) Unpacked.double w x
    (fun j u => u.exp = x.exp - j ∧ u.mant.toNat = x.mant.toNat * 2 ^ j ∧ u.mant.toNat < 2 ^ (k + 1))
    ⟨by simp, by simp, short⟩
    (by
      rintro j u ⟨exp, mant, -⟩ more
      have less : u.mant.toNat < 2 ^ k := bits ▸ of_decide_eq_true (Bool.and_eq_true_iff.mp more).1
      have powers : 2 ^ (k + 1) ≤ 2 ^ w := Nat.pow_le_pow_right (by decide) room
      have twice : u.double.mant.toNat = u.mant.toNat * 2 := toNat_shiftLeft (by
        rw [Nat.pow_one]
        omega)
      refine ⟨?_, ?_, by omega⟩
      · show u.exp - 1 = _
        omega
      · rw [twice, mant, Nat.mul_assoc, Nat.pow_succ])
    (by
      rintro u ⟨-, mant, small⟩
      have powers : 2 ^ (k + 1) ≤ 2 ^ w := Nat.pow_le_pow_right (by decide) room
      have large : 2 ^ w ≤ x.mant.toNat * 2 ^ w := Nat.le_mul_of_pos_left _ positive
      rw [mant] at small
      omega)
  refine ⟨j, exp, mant, small, ?_⟩
  rcases Bool.and_eq_false_iff.mp failed with large | refused
  · left
    have := of_decide_eq_false large
    rw [← bits]
    exact Nat.le_of_not_lt this
  · exact .inr refused

/-! ## Signs -/

theorem bit_cases {s : Word} (bit : s.toNat < 2) : s = 0 ∨ s = 1 := by
  rcases Nat.lt_or_ge 0 s.toNat with one | zero
  · exact .inr (BitVec.eq_of_toNat_eq (show s.toNat = 1 by omega))
  · exact .inl (BitVec.eq_of_toNat_eq (show s.toNat = 0 by omega))

/-- A number with a sign. -/
def signed (sign : Word) (x : ℚ) : ℚ := if sign = 0 then x else -x

theorem abs_signed (sign : Word) (x : ℚ) : |signed sign x| = |x| := by
  unfold signed
  split_ifs
  · rfl
  · exact abs_neg x

theorem signed_zero (sign : Word) : signed sign 0 = 0 := by
  simp [signed]

theorem value_signed {F : Format} {n : Nat} {sign : Word} (same : sign.toNat = F.signOf n) :
    F.value n = signed sign (F.magnitude n) := by
  have zero : sign = 0 ↔ F.signOf n = 0 := by
    rw [← same]
    exact (@BitVec.toNat_inj 32 sign 0).symm
  unfold Format.value signed
  simp only [zero]

theorem signed_inj {sign : Word} {x y : ℚ} : signed sign x = signed sign y ↔ x = y := by
  unfold signed
  split_ifs
  · rfl
  · exact neg_inj

theorem signed_add (sign : Word) (x y : ℚ) : signed sign x + signed sign y = signed sign (x + y) := by
  unfold signed
  split_ifs
  · rfl
  · ring

theorem signed_opposite {as bs : Word} (bitA : as.toNat < 2) (bitB : bs.toNat < 2) (other : as ≠ bs)
    (x y : ℚ) : signed as x + signed bs y = signed as (x - y) ∧
      signed as x + signed bs y = signed bs (y - x) := by
  have zeroA : as = 0 ↔ as.toNat = 0 := (@BitVec.toNat_inj 32 as 0).symm
  have zeroB : bs = 0 ↔ bs.toNat = 0 := (@BitVec.toNat_inj 32 bs 0).symm
  have different : as.toNat ≠ bs.toNat := fun same => other (BitVec.eq_of_toNat_eq same)
  unfold signed
  simp only [zeroA, zeroB]
  rcases Nat.lt_or_ge 0 as.toNat with one | zero
  · rw [if_neg (by omega), if_pos (by omega), if_neg (by omega), if_pos (by omega)]
    constructor <;> ring
  · rw [if_pos (by omega), if_neg (by omega), if_pos (by omega), if_neg (by omega)]
    constructor <;> ring

theorem signed_mul {as bs : Word} (bitA : as.toNat < 2) (bitB : bs.toNat < 2) (x y : ℚ) :
    signed as x * signed bs y = signed (as ^^^ bs) (x * y) ∧ (as ^^^ bs).toNat < 2 := by
  rcases bit_cases bitA with rfl | rfl <;> rcases bit_cases bitB with rfl | rfl
  all_goals
    refine ⟨?_, by decide⟩
    simp [signed]

theorem signed_div {as bs : Word} (bitA : as.toNat < 2) (bitB : bs.toNat < 2) (x y : ℚ) :
    signed as x / signed bs y = signed (as ^^^ bs) (x / y) := by
  rcases bit_cases bitA with rfl | rfl <;> rcases bit_cases bitB with rfl | rfl
  all_goals simp [signed, div_neg, neg_div]

end JsEmulator.Toolchain.FloatPatterns
