import JsEmulator.Library.StickyBits
import JsEmulator.Toolchain.FloatPatterns
import Mathlib.Data.Nat.Cast.Field
import Mathlib.Tactic.FieldSimp

/-!
# Rounding in double precision

What `__adddf3`, `__subdf3`, `__muldf3` and `__divdf3` return is the exact result, rounded once. All of
them keep three bits beyond the last place, of which the lowest is sticky, and `__df_pack` may shift
what they give it twice more: once to bring the first bit into its place, and once to lose the bits
below the smallest numbers. Only where a difference cancels is the significand shifted to the left by more
than one bit, and there it is exact.
-/

namespace JsEmulator.Toolchain.DoublePrecision

open JsEmulator.Library (turnWhile turnWhile_rule)
open JsEmulator.Library.Floats
open JsEmulator.Toolchain.FloatPatterns
open JsEmulator.Toolchain.RuntimeFloat

variable {sign : Word} {u : Unpacked 64} {x y : ℚ} {exp : Int} {a : Long}

/-- The format of a `double`. -/
def double : Format := { exponent := 11, fraction := 52 }

/-! ## Patterns -/

theorem dfFrac_toNat (a : Long) : (dfFrac a).toNat = double.fractionOf a.toNat := by
  rw [dfFrac, BitVec.toNat_and]
  exact Nat.and_two_pow_sub_one_eq_mod a.toNat 52

theorem dfExp_toNat (a : Long) : (dfExp a).toNat = double.exponentOf a.toNat := by
  have field : ((a >>> 52) &&& 2047).toNat = a.toNat / 2 ^ 52 % 2 ^ 11 := by
    rw [BitVec.toNat_and, toNat_shiftRight]
    exact Nat.and_two_pow_sub_one_eq_mod (a.toNat / 2 ^ 52) 11
  rw [dfExp, BitVec.toNat_setWidth, field]
  exact Nat.mod_eq_of_lt (by omega)

theorem dfSign_toNat (a : Long) : (dfSign a).toNat = double.signOf a.toNat := by
  have bound := a.isLt
  rw [dfSign, BitVec.toNat_setWidth, toNat_shiftRight, Nat.mod_eq_of_lt (by omega)]
  exact (Nat.div_div_eq_div_mul a.toNat (2 ^ 52) (2 ^ 11)).symm

theorem dfSign_lt (a : Long) : (dfSign a).toNat < 2 := by
  have bound := a.isLt
  have split := Nat.div_div_eq_div_mul a.toNat (2 ^ 52) (2 ^ 11)
  rw [dfSign_toNat]
  show a.toNat / 2 ^ 52 / 2 ^ 11 < 2
  omega

theorem value_eq (a : Long) : double.value a.toNat = signed (dfSign a) (double.magnitude a.toNat) :=
  value_signed (dfSign_toNat a)

theorem dfPattern_toNat {exponent fraction : Long} (bit : sign.toNat < 2)
    (shortExponent : exponent.toNat < 2 ^ 11) (shortFraction : fraction.toNat < 2 ^ 52) :
    ((sign.setWidth 64 <<< 63) ||| (exponent <<< 52) ||| fraction).toNat =
      double.encode sign.toNat exponent.toNat fraction.toNat := by
  have same : (sign.setWidth 64).toNat = sign.toNat := BitVec.toNat_setWidth_of_le (by decide)
  have whole := @pattern_toNat double 64 rfl (sign.setWidth 64) exponent fraction (by omega)
    shortExponent shortFraction
  rw [same] at whole
  exact whole

theorem zero_toNat (bit : sign.toNat < 2) :
    (sign.setWidth 64 <<< 63).toNat = double.encode sign.toNat 0 0 := by
  have whole := @dfPattern_toNat sign 0#64 0#64 bit (by decide) (by decide)
  rw [BitVec.or_zero, show 0#64 <<< 52 = 0#64 by decide, BitVec.or_zero] at whole
  exact whole

theorem dfInf_toNat (bit : sign.toNat < 2) :
    (dfInf sign).toNat = double.encode sign.toNat 2047 0 := by
  have whole := @dfPattern_toNat sign 2047#64 0#64 bit (by decide) (by decide)
  rw [BitVec.or_zero] at whole
  exact whole

/-- A number is neither a NaN nor an infinity. -/
theorem finite_spec (finite : double.Finite a.toNat) : dfIsNan a = false ∧ dfIsInf a = false := by
  have other : dfExp a ≠ 2047#32 := by
    intro same
    have field := dfExp_toNat a
    rw [same] at field
    exact finite field.symm
  simp [dfIsNan, dfIsInf, other]

/-- Without its first bit a zero is zero. -/
theorem shifted_zero_iff (a : Long) : a <<< 1 = 0 ↔ double.magnitude a.toNat = 0 := by
  have bits : a <<< 1 = 0 ↔ a.toNat * 2 % 2 ^ 64 = 0 := by
    rw [← BitVec.toNat_inj, BitVec.toNat_shiftLeft, Nat.shiftLeft_eq]
    rfl
  have significand : double.significand a.toNat = if a.toNat / 2 ^ 52 % 2 ^ 11 = 0 then a.toNat % 2 ^ 52
      else 2 ^ 52 + a.toNat % 2 ^ 52 := rfl
  rw [bits, Format.magnitude, scaled_eq_zero_iff, significand]
  split_ifs <;> omega

/-- What `__df_unpack` and `__df_normalize` find in a number other than zero. -/
structure Normal (x : ℚ) (u : Unpacked 64) : Prop where
  magnitude : x = scaled u.mant.toNat (u.exp - 52)
  leading : 2 ^ 52 ≤ u.mant.toNat
  short : u.mant.toNat < 2 ^ 53

theorem dfUnpack_fields (a : Long) : (dfUnpack a).mant.toNat = double.significand a.toNat ∧
    (dfUnpack a).exp - 52 = double.power a.toNat := by
  have field : dfExp a = 0 ↔ double.exponentOf a.toNat = 0 := by
    rw [← dfExp_toNat]
    exact (@BitVec.toNat_inj 32 (dfExp a) 0).symm
  have short : (dfFrac a).toNat < 2 ^ 52 := by
    rw [dfFrac_toNat]
    exact Nat.mod_lt _ (by decide)
  have low : double.low = -1074 := by decide
  unfold dfUnpack Format.significand Format.power
  rw [low, ← dfFrac_toNat]
  simp only [field]
  split_ifs with none
  · rw [none]
    exact ⟨rfl, rfl⟩
  refine ⟨toNat_or (show (1#64 <<< 52).toNat = 1 * 2 ^ 52 by decide) short, ?_⟩
  show ((dfExp a).toNat : Int) - 1023 - 52 = _
  rw [dfExp_toNat]
  omega

theorem dfNormalize_normal (nonzero : double.magnitude a.toNat ≠ 0) :
    Normal (double.magnitude a.toNat) (dfNormalize (dfUnpack a)) := by
  obtain ⟨mant, exp⟩ := dfUnpack_fields a
  have fraction : a.toNat % 2 ^ 52 < 2 ^ 52 := Nat.mod_lt _ (by decide)
  have short : double.significand a.toNat < 2 ^ (52 + 1) := by
    have significand : double.significand a.toNat = if double.exponentOf a.toNat = 0 then a.toNat % 2 ^ 52
      else 2 ^ 52 + a.toNat % 2 ^ 52 := rfl
    rw [significand]
    split_ifs <;> omega
  have some : (dfUnpack a).mant.toNat ≠ 0 := by
    intro zero
    rw [Format.magnitude, ← mant, zero] at nonzero
    exact nonzero (scaled_zero _)
  have other : (dfUnpack a).mant ≠ 0 := fun zero => some (congrArg BitVec.toNat zero)
  obtain ⟨j, lower, larger, bound, stopped⟩ := @grow_spec 64 52 (1#64 <<< 52) (fun _ => true) (dfUnpack a)
    (by decide) (by decide) (Nat.pos_of_ne_zero some) (mant ▸ short)
  rw [dfNormalize, if_neg other]
  refine ⟨?_, stopped.resolve_right (by decide), bound⟩
  rw [larger, scaled_shift, lower, mant, Format.magnitude, ← exp]
  congr 1
  omega

/-! ## Packing -/

/-- The pattern of a significand of 53 bits at most. -/
def patternOf (sign : Nat) (exp : Int) (frac : Nat) : Nat :=
  double.encode sign (if exp = -1022 ∧ frac < 2 ^ 52 then 0 else (exp + 1023).toNat) (frac % 2 ^ 52)

theorem patternOf_spec {frac : Nat} (least : -1022 ≤ exp) (most : exp ≤ 1023)
    (short : frac < 2 ^ 53) (leading : 2 ^ 52 ≤ frac ∨ exp = -1022) :
    double.Finite (patternOf sign.toNat exp frac) ∧
      double.value (patternOf sign.toNat exp frac) = signed sign (scaled frac (exp - 52)) ∧
      patternOf sign.toNat exp frac % 2 = frac % 2 := by
  have low : double.low = -1074 := by decide
  have fraction : frac % 2 ^ 52 < 2 ^ 52 := Nat.mod_lt _ (by decide)
  have exponent : (if exp = -1022 ∧ frac < 2 ^ 52 then 0 else (exp + 1023).toNat) < 2047 := by
    split_ifs <;> omega
  obtain ⟨-, exponentField, signField⟩ := @fields_encode double sign.toNat
    (if exp = -1022 ∧ frac < 2 ^ 52 then 0 else (exp + 1023).toNat) (frac % 2 ^ 52) fraction
    (Nat.lt_trans exponent (by decide))
  refine ⟨?_, ?_, ?_⟩
  · show double.exponentOf (double.encode _ _ _) ≠ 2047
    rw [exponentField]
    exact Nat.ne_of_lt exponent
  · rw [patternOf, value_signed signField.symm]
    congr 1
    by_cases subnormal : exp = -1022 ∧ frac < 2 ^ 52
    · rw [if_pos subnormal, magnitude_encode_zero fraction, Nat.mod_eq_of_lt subnormal.2, low, subnormal.1]
      rfl
    rw [if_neg subnormal, magnitude_encode fraction (by omega) (by show _ < 2048; omega), low]
    show scaled (2 ^ 52 + frac % 2 ^ 52) _ = _
    rw [show 2 ^ 52 + frac % 2 ^ 52 = frac by omega]
    congr 1
    omega
  · show ((sign.toNat * 2 ^ 11 + _) * 2 ^ 52 + frac % 2 ^ 52) % 2 = frac % 2
    omega

theorem patternOf_toNat {frac : Long} (bit : sign.toNat < 2) (least : -1022 ≤ exp)
    (most : exp ≤ 1023) :
    ((sign.setWidth 64 <<< 63) |||
      ((if exp = -1022 ∧ frac < 1#64 <<< 52 then 0 else BitVec.ofInt 64 (exp + 1023)) <<< 52) |||
      (frac &&& ((1#64 <<< 52) - 1))).toNat = patternOf sign.toNat exp frac.toNat := by
  have masked : (frac &&& ((1#64 <<< 52) - 1)).toNat = frac.toNat % 2 ^ 52 := dfFrac_toNat frac
  have field : ((if exp = -1022 ∧ frac < 1#64 <<< 52 then 0 else BitVec.ofInt 64 (exp + 1023)) : Long).toNat =
      if exp = -1022 ∧ frac.toNat < 2 ^ 52 then 0 else (exp + 1023).toNat := by
    have hidden : frac < 1#64 <<< 52 ↔ frac.toNat < 2 ^ 52 := Iff.rfl
    simp only [hidden]
    split_ifs
    · rfl
    · rw [BitVec.toNat_ofInt]
      omega
  rw [dfPattern_toNat bit (by rw [field]; split_ifs <;> omega) (by rw [masked]; omega), field, masked]
  rfl

/-- What `__df_pack` rounds a significand to. -/
theorem rounded_toNat {mant : Long} (short : mant.toNat < 2 ^ 56) :
    (if 4 < mant &&& 7 ∨ (mant &&& 7 = 4 ∧ mant >>> 3 &&& 1 ≠ 0) then mant >>> 3 + 1
      else mant >>> 3).toNat = roundEighths mant.toNat := by
  have rest : (mant &&& 7).toNat = mant.toNat % 8 := by
    rw [BitVec.toNat_and]
    exact Nat.and_two_pow_sub_one_eq_mod mant.toNat 3
  have quotient : (mant >>> 3).toNat = mant.toNat / 8 := toNat_shiftRight mant 3
  have odd : mant >>> 3 &&& 1 ≠ 0 ↔ mant.toNat / 8 % 2 = 1 := by
    rw [odd_iff, quotient]
    omega
  have above : 4 < mant &&& 7 ↔ 4 < mant.toNat % 8 := by
    rw [← rest]
    exact BitVec.lt_def
  have half : mant &&& 7 = 4 ↔ mant.toNat % 8 = 4 := by
    rw [← rest]
    exact (@BitVec.toNat_inj 64 _ 4).symm
  unfold roundEighths
  simp only [odd, above, half]
  split_ifs
  · rw [BitVec.toNat_add, quotient]
    show (mant.toNat / 8 + 1) % 2 ^ 64 = _
    omega
  · exact quotient

theorem dfRound_toNat (bit : sign.toNat < 2) (short : u.mant.toNat < 2 ^ 56) (least : -1022 ≤ u.exp)
    (most : u.exp ≤ 1023) :
    (dfRound sign u).toNat =
      if roundEighths u.mant.toNat < 2 ^ 53 then patternOf sign.toNat u.exp (roundEighths u.mant.toNat)
      else if u.exp = 1023 then double.encode sign.toNat 2047 0
      else patternOf sign.toNat (u.exp + 1) (2 ^ 52) := by
  have rounded := rounded_toNat short
  have most' : roundEighths u.mant.toNat ≤ 2 ^ 53 := by
    unfold roundEighths
    split_ifs <;> omega
  unfold dfRound
  simp only
  generalize (if 4 < u.mant &&& 7 ∨ (u.mant &&& 7 = 4 ∧ u.mant >>> 3 &&& 1 ≠ 0) then u.mant >>> 3 + 1
    else u.mant >>> 3) = frac at rounded ⊢
  rw [← rounded] at most' ⊢
  have carried : (1#64 <<< 52) <<< 1 ≤ frac ↔ ¬ frac.toNat < 2 ^ 53 := Nat.not_lt.symm
  by_cases small : frac.toNat < 2 ^ 53
  · rw [if_neg (fun large => carried.mp large small), if_pos small, if_neg (by show ¬ 1023 < u.exp; omega)]
    exact patternOf_toNat bit least most
  have halved : (frac >>> 1).toNat = 2 ^ 52 := by
    rw [toNat_shiftRight]
    omega
  rw [if_pos (carried.mpr small), if_neg small]
  by_cases largest : u.exp = 1023
  · rw [if_pos largest, if_pos (by show 1023 < u.exp + 1; omega), dfInf_toNat bit]
  · rw [if_neg largest, if_neg (by show ¬ 1023 < u.exp + 1; omega), ← halved]
    exact patternOf_toNat bit (by show -1022 ≤ u.exp + 1; omega) (by show u.exp + 1 ≤ 1023; omega)

theorem signed_sign (bit : sign.toNat < 2) (positive : 0 < x) (z : ℚ) :
    (if signed sign x < 0 then 1 else 0) = sign.toNat ∧
      (if signed sign x < 0 then -z else z) = signed sign z := by
  rcases bit_cases bit with rfl | rfl
  · have less : ¬ signed 0 x < 0 := not_lt.mpr positive.le
    rw [if_neg less, if_neg less]
    exact ⟨rfl, rfl⟩
  · have less : signed 1 x < 0 := neg_lt_zero.mpr positive
    rw [if_pos less, if_pos less]
    exact ⟨rfl, rfl⟩

/-- From the threshold on, the result is an infinity. -/
theorem roundsTo_infinity (bit : sign.toNat < 2) (large : double.threshold ≤ x) :
    double.RoundsTo (signed sign x) (double.encode sign.toNat 2047 0) := by
  have positive : 0 < x := lt_of_lt_of_le ((scaled_pos_iff _).mpr (by decide)) large
  unfold Format.RoundsTo
  rw [abs_signed, abs_of_pos positive, if_neg (not_lt.mpr large), (signed_sign bit positive 0).1]
  rfl

/-- Below the threshold, the result is a number. -/
theorem roundsTo_pattern (bit : sign.toNat < 2) {n m : Nat} (positive : 0 < y)
    (below : y * 2 ^ (exp - 55) < double.threshold) (finite : double.Finite n)
    (value : double.value n = signed sign (scaled (roundEighths m) (exp - 52)))
    (parity : n % 2 = roundEighths m % 2) (near : Near 4 m y) (leading : 2 ^ 55 ≤ m ∨ exp = -1022) :
    double.RoundsTo (signed sign (y * 2 ^ (exp - 55))) n := by
  have some : 0 < y * 2 ^ (exp - 55) := by positivity
  have magnitude : |signed sign (y * 2 ^ (exp - 55))| = y * 2 ^ (exp - 52 - 3) := by
    rw [abs_signed, abs_of_pos some]
    congr 2
    omega
  unfold Format.RoundsTo
  rw [abs_signed, abs_of_pos some, if_pos below]
  refine nearest_of_eighths ?_ finite magnitude ?_ ?_ near parity
  · intro zero
    rw [zero, abs_zero, show exp - 52 - 3 = exp - 55 by omega] at magnitude
    exact some.ne magnitude
  · rw [value, (signed_sign bit some _).2]
  · rcases leading with first | second
    · exact .inr ((near.two_pow_le_iff (by decide)).mp first)
    · left
      rw [second]
      decide

theorem threshold_eq : double.threshold = (2 ^ 56 - 4) * 2 ^ (968 : Int) := by
  have high : double.high = 971 := by decide
  have unfolded : double.threshold = scaled ((2 ^ 54 - 1) * 2 ^ 2) 968 := by
    rw [Format.threshold, high, scaled_shift]
    rfl
  have cast : (((2 ^ 54 - 1) * 2 ^ 2 : Nat) : ℚ) = 2 ^ 56 - 4 := by norm_num
  rw [unfolded, scaled, cast]

/-- A significand of 56 bits is below the threshold at any exponent, or it is rounded down at the
largest. -/
theorem below_threshold {m : Nat} (near : Near 4 m y) (short : m < 2 ^ 56) (most : exp ≤ 1023)
    (less : exp < 1023 ∨ roundEighths m < 2 ^ 53) :
    y * 2 ^ (exp - 55) < double.threshold := by
  have bound : y < 2 ^ 56 := (near.lt_two_pow_iff (by decide)).mp short
  rw [threshold_eq]
  by_cases largest : exp = 1023
  · have small : m < 4 * (2 ^ 54 - 1) := by
      have rounded := less.resolve_left (by omega)
      unfold roundEighths at rounded
      split_ifs at rounded <;> omega
    have lower := (near (2 ^ 54 - 1)).1.mp (by omega)
    rw [largest]
    refine mul_lt_mul_of_pos_right ?_ (by positivity)
    norm_num at lower ⊢
    exact lower
  · calc y * 2 ^ (exp - 55) < 2 ^ 56 * 2 ^ (exp - 55) := by
          exact mul_lt_mul_of_pos_right bound (by positivity)
      _ ≤ 2 ^ 56 * 2 ^ (967 : Int) := by
          refine mul_le_mul_of_nonneg_left (zpow_le_zpow_right₀ (by norm_num) ?_) (by positivity)
          omega
      _ ≤ (2 ^ 56 - 4) * 2 ^ (968 : Int) := by
          rw [show (968 : Int) = 1 + 967 from rfl, zpow_add₀ (by norm_num), ← mul_assoc]
          exact mul_le_mul_of_nonneg_right (by norm_num) (by positivity)

theorem dfRound_rounds (bit : sign.toNat < 2) (near : Near 4 u.mant.toNat y) (positive : 0 < y)
    (short : u.mant.toNat < 2 ^ 56) (least : -1022 ≤ u.exp) (most : u.exp ≤ 1023)
    (leading : 2 ^ 55 ≤ u.mant.toNat ∨ u.exp = -1022) :
    double.RoundsTo (signed sign (y * 2 ^ (u.exp - 55))) (dfRound sign u).toNat := by
  rw [dfRound_toNat bit short least most]
  by_cases small : roundEighths u.mant.toNat < 2 ^ 53
  · have kept : 2 ^ 52 ≤ roundEighths u.mant.toNat ∨ u.exp = -1022 := by
      refine leading.imp_left fun large => ?_
      unfold roundEighths
      split_ifs <;> omega
    obtain ⟨finite, value, parity⟩ := @patternOf_spec sign u.exp _ least most small kept
    rw [if_pos small]
    exact roundsTo_pattern bit positive (below_threshold near short most (.inr small)) finite value parity
      near leading
  · have full : 2 ^ 56 - 4 ≤ u.mant.toNat ∧ roundEighths u.mant.toNat = 2 ^ 53 := by
      unfold roundEighths at small ⊢
      split_ifs at small ⊢ <;> omega
    rw [if_neg small]
    by_cases largest : u.exp = 1023
    · rw [if_pos largest]
      refine roundsTo_infinity bit ?_
      have lower := (near.le_iff (2 ^ 54 - 1)).mp (by omega)
      rw [threshold_eq, largest]
      refine mul_le_mul_of_nonneg_right ?_ (by positivity)
      norm_num at lower ⊢
      exact lower
    · obtain ⟨finite, value, parity⟩ := @patternOf_spec sign (u.exp + 1) (2 ^ 52) (by omega) (by omega)
        (by decide) (.inl (Nat.le_refl _))
      rw [if_neg largest]
      refine roundsTo_pattern bit positive (below_threshold near short most (.inl (by omega))) finite ?_ ?_
        near leading
      · rw [value, full.2, show 2 ^ 53 = 2 ^ 52 * 2 from rfl, scaled_double]
        congr 2
        omega
      · rw [parity, full.2]
        decide

theorem sticky_toNat {n d : Nat} {quotient : Long} {lost : Prop} [Decidable lost]
    (divided : quotient.toNat = n / d) (rest : lost ↔ n % d ≠ 0) :
    (if lost then quotient ||| 1 else quotient).toNat = jam n d := by
  unfold jam
  by_cases none : n % d = 0
  · rw [if_pos none, if_neg (fun some => rest.mp some none), divided]
  · rw [if_neg none, if_pos (rest.mpr none), BitVec.toNat_or, divided]
    rfl

theorem dfShiftRightJam_toNat {v : Long} {dist : Int} (short : v.toNat < 2 ^ 62) (some : 0 ≤ dist) :
    (dfShiftRightJam v dist).toNat = jam v.toNat (2 ^ dist.toNat) := by
  unfold dfShiftRightJam
  split_ifs with none far nonzero
  · rw [show dist.toNat = 0 by omega, jam, Nat.pow_zero, Nat.mod_one, Nat.div_one]
    rfl
  all_goals have large : 63 ≤ dist → v.toNat < 2 ^ dist.toNat := fun far =>
    Nat.lt_of_lt_of_le short (Nat.pow_le_pow_right (by decide) (by omega))
  · have other : v.toNat ≠ 0 := fun zero => nonzero (BitVec.eq_of_toNat_eq zero)
    rw [jam, Nat.mod_eq_of_lt (large far), Nat.div_eq_of_lt (large far), if_neg other]
    rfl
  · rw [not_not.mp nonzero, jam]
    simp
  · refine sticky_toNat (toNat_shiftRight v dist.toNat) ?_
    · have split : 2 ^ 64 = 2 ^ dist.toNat * 2 ^ (64 - dist).toNat := by
        rw [← Nat.pow_add]
        congr 1
        omega
      rw [ne_eq, ← BitVec.toNat_inj, BitVec.toNat_shiftLeft, Nat.shiftLeft_eq, split, Nat.mul_mod_mul_right]
      show ¬ v.toNat % 2 ^ dist.toNat * 2 ^ (64 - dist).toNat = 0 ↔ _
      rw [Nat.mul_eq_zero, or_iff_left (Nat.two_pow_pos _).ne']

theorem halveSticky_toNat (u : Unpacked 64) : u.halveSticky.mant.toNat = jam u.mant.toNat 2 :=
  sticky_toNat (toNat_shiftRight u.mant 1) (odd_iff u.mant)

/-- What stands for an exact number from here on: an exponent, and a significand with a sticky bit unless
it is exact. -/
structure Held (k : Int) (u : Unpacked 64) (x y : ℚ) : Prop where
  exact : x = y * 2 ^ (u.exp - 55)
  near : Near k u.mant.toNat y
  positive : 0 < y

theorem Held.mant_pos {k : Int} (held : Held k u x y)
    (leading : 2 ^ 54 ≤ u.mant.toNat ∨ y = u.mant.toNat) : 0 < u.mant.toNat := by
  rcases leading with large | exact
  · omega
  · have positive := held.positive
    rw [exact] at positive
    exact_mod_cast positive

/-- The first loop makes one turn at most. -/
theorem dfShrink_held (held : Held 2 u x y) (short : u.mant.toNat < 2 ^ 57)
    (leading : 2 ^ 54 ≤ u.mant.toNat ∨ y = u.mant.toNat) :
    ∃ z, Held 2 (dfShrink u) x z ∧ (dfShrink u).mant.toNat < 2 ^ 56 ∧
      (2 ^ 54 ≤ (dfShrink u).mant.toNat ∨ z = (dfShrink u).mant.toNat) := by
  have large (v : Unpacked 64) : decide (1#64 <<< 56 ≤ v.mant) = true ↔ 2 ^ 56 ≤ v.mant.toNat :=
    decide_eq_true_iff
  by_cases more : 2 ^ 56 ≤ u.mant.toNat
  · have half := near_jam (show 0 < 2 by decide) (held.near.coarser 2)
    have low : (2 : ℚ) ^ 56 ≤ y := (held.near.two_pow_le_iff (by decide)).mp more
    have high : y < 2 ^ 57 := (held.near.lt_two_pow_iff (by decide)).mp short
    rw [← halveSticky_toNat] at half
    have below : u.halveSticky.mant.toNat < 2 ^ 56 := (half.lt_two_pow_iff (by decide)).mpr (by
      push_cast
      linarith)
    have above : 2 ^ 55 ≤ u.halveSticky.mant.toNat := (half.two_pow_le_iff (by decide)).mpr (by
      push_cast
      linarith)
    have once : dfShrink u = u.halveSticky := by
      rw [dfShrink, turnWhile, if_pos ((large u).mpr more), turnWhile, if_neg]
      rw [large]
      omega
    rw [once]
    refine ⟨y / (2 : Nat), ⟨?_, half, ?_⟩, below, .inl (by omega)⟩
    · show x = y / (2 : Nat) * 2 ^ (u.exp + 1 - 55)
      rw [held.exact, show u.exp + 1 - 55 = 1 + (u.exp - 55) by omega, zpow_add₀ (by norm_num)]
      push_cast
      ring
    · exact div_pos held.positive (by norm_num)
  · have none : dfShrink u = u := by
      rw [dfShrink, turnWhile, if_neg]
      rw [large]
      exact more
    rw [none]
    exact ⟨y, held, by omega, leading⟩

/-- The second loop makes one turn at most unless the significand is exact. -/
theorem dfGrow_held (held : Held 2 u x y) (short : u.mant.toNat < 2 ^ 56)
    (leading : 2 ^ 54 ≤ u.mant.toNat ∨ y = u.mant.toNat) :
    ∃ z, Held 4 (dfGrow u) x z ∧ (dfGrow u).mant.toNat < 2 ^ 56 ∧
      (2 ^ 55 ≤ (dfGrow u).mant.toNat ∨ (dfGrow u).exp ≤ -1022) := by
  obtain ⟨j, exp, mant, bound, stopped⟩ := @grow_spec 64 55 (1#64 <<< 55) (fun exp => -1022 < exp) u
    (by decide) (by decide) (held.mant_pos leading) short
  have near : Near 4 (grow (1#64 <<< 55) (fun exp => -1022 < exp) u).mant.toNat (y * 2 ^ j) := by
    rw [mant]
    rcases leading with large | exact
    · have turns : j < 2 := by
        by_contra many
        have power : 2 ^ 2 ≤ 2 ^ j := Nat.pow_le_pow_right (by decide) (by omega)
        have product : 2 ^ 54 * 2 ^ 2 ≤ u.mant.toNat * 2 ^ j := Nat.mul_le_mul large power
        omega
      rcases Nat.lt_or_ge 0 j with one | zero
      · rw [show j = 1 by omega, pow_one, pow_one]
        exact_mod_cast held.near.double
      · rw [show j = 0 by omega, pow_zero, pow_zero, mul_one, mul_one]
        exact held.near.coarser 2
    · have cast : y * 2 ^ j = ((u.mant.toNat * 2 ^ j : Nat) : Int) := by
        rw [exact]
        push_cast
        rfl
      rw [cast]
      exact Near.exact 4 _
  refine ⟨y * 2 ^ j, ⟨?_, near, ?_⟩, bound, stopped.imp_right fun refused => ?_⟩
  · rw [dfGrow, exp, held.exact, mul_assoc, ← zpow_natCast, ← zpow_add₀ (by norm_num)]
    congr 2
    omega
  · exact mul_pos held.positive (by positivity)
  · exact Int.not_lt.mp (of_decide_eq_false refused)

theorem infinite_held (held : Held 4 u x y) (leading : 2 ^ 55 ≤ u.mant.toNat) (above : 1023 < u.exp) :
    double.threshold ≤ x := by
  have large : (2 : ℚ) ^ 55 ≤ y := (held.near.two_pow_le_iff (by decide)).mp leading
  rw [held.exact, threshold_eq]
  calc ((2 : ℚ) ^ 56 - 4) * 2 ^ (968 : Int) ≤ 2 ^ 56 * 2 ^ (968 : Int) :=
        mul_le_mul_of_nonneg_right (by norm_num) (by positivity)
    _ = 2 ^ 55 * 2 ^ (969 : Int) := by
        rw [show (969 : Int) = 1 + 968 from rfl, zpow_add₀ (by norm_num), ← mul_assoc]
        norm_num
    _ ≤ 2 ^ 55 * 2 ^ (u.exp - 55) := by
        refine mul_le_mul_of_nonneg_left (zpow_le_zpow_right₀ (by norm_num) ?_) (by positivity)
        omega
    _ ≤ y * 2 ^ (u.exp - 55) := mul_le_mul_of_nonneg_right large (by positivity)

/-- The bits below the smallest numbers are lost into the sticky bit. -/
theorem subnormal_held (held : Held 4 u x y) (short : u.mant.toNat < 2 ^ 56) (under : u.exp < -1022) :
    ∃ z, Held 4 ⟨-1022, dfShiftRightJam u.mant (-1022 - u.exp)⟩ x z ∧
      (dfShiftRightJam u.mant (-1022 - u.exp)).toNat < 2 ^ 56 := by
  obtain ⟨d, distance⟩ : ∃ d : Nat, -1022 - u.exp = d + 1 := ⟨(-1023 - u.exp).toNat, by omega⟩
  have shifted : (dfShiftRightJam u.mant (-1022 - u.exp)).toNat = jam u.mant.toNat (2 ^ (d + 1)) := by
    rw [dfShiftRightJam_toNat (by omega) (by omega), distance]
    rfl
  have scale : 4 * 2 ^ d = ((2 ^ (d + 1) : Nat) : Int) * 2 := by
    push_cast
    ring
  have near : Near 2 (jam u.mant.toNat (2 ^ (d + 1))) (y / (2 ^ (d + 1) : Nat)) :=
    near_jam (Nat.two_pow_pos _) (scale ▸ held.near.coarser (2 ^ d))
  have smaller : y / (2 ^ (d + 1) : Nat) ≤ y :=
    div_le_self held.positive.le (by exact_mod_cast Nat.one_le_two_pow)
  have bound : y < 2 ^ 56 := (held.near.lt_two_pow_iff (by decide)).mp short
  rw [← shifted] at near
  refine ⟨_, ⟨?_, near.coarser 2, ?_⟩, (near.lt_two_pow_iff (by decide)).mpr (smaller.trans_lt bound)⟩
  · have power : (2 : ℚ) ^ (u.exp - 55) * 2 ^ (d + 1) = 2 ^ ((-1022 : Int) - 55) := by
      rw [← zpow_natCast, ← zpow_add₀ (by norm_num)]
      congr 1
      omega
    rw [held.exact, ← power]
    push_cast
    rw [mul_comm ((2 : ℚ) ^ (u.exp - 55)), ← mul_assoc, div_mul_cancel₀ _ (by positivity)]
  · exact div_pos held.positive (by positivity)

/-- `__df_pack` rounds. -/
theorem dfPack_rounds (bit : sign.toNat < 2) (held : Held 2 u x y) (short : u.mant.toNat < 2 ^ 57)
    (leading : 2 ^ 54 ≤ u.mant.toNat ∨ y = u.mant.toNat) :
    double.RoundsTo (signed sign x) (dfPack sign u.exp u.mant).toNat := by
  have nonzero : u.mant ≠ 0 := fun zero => (held.mant_pos leading).ne' (congrArg BitVec.toNat zero)
  obtain ⟨y, held, short, leading⟩ := dfShrink_held held short leading
  obtain ⟨y, held, short, leading⟩ := dfGrow_held held short leading
  have packed : dfPack sign u.exp u.mant =
      if 1023 < (dfGrow (dfShrink u)).exp then dfInf sign
      else if (dfGrow (dfShrink u)).exp < -1022 then
        dfRound sign ⟨-1022, dfShiftRightJam (dfGrow (dfShrink u)).mant (-1022 - (dfGrow (dfShrink u)).exp)⟩
      else dfRound sign (dfGrow (dfShrink u)) := if_neg nonzero
  rw [packed]
  split_ifs with above under
  · rw [dfInf_toNat bit]
    exact roundsTo_infinity bit (infinite_held held (leading.resolve_right (by omega)) above)
  · obtain ⟨z, lowered, fits⟩ := subnormal_held held short under
    rw [lowered.exact]
    exact dfRound_rounds bit lowered.near lowered.positive fits (Int.le_refl _) (by show (-1022 : Int) ≤ 1023; omega) (.inr rfl)
  · rw [held.exact]
    exact dfRound_rounds bit held.near held.positive short (by omega) (by omega) (by omega)

/-! ## Sums and differences -/

theorem value_zero (sign : Nat) : double.value (double.encode sign 0 0) = 0 := by
  rw [← abs_eq_zero, abs_value, magnitude_encode_zero (by decide), scaled_zero]

theorem roundsTo_zero (bit : sign.toNat < 2) :
    double.RoundsTo 0 (sign.setWidth 64 <<< 63).toNat := by
  have finite : double.Finite (double.encode sign.toNat 0 0) := by
    rcases bit_cases bit with rfl | rfl <;> decide
  rw [zero_toNat bit]
  exact value_zero sign.toNat ▸ roundsTo_self finite

theorem Normal.eighths (normal : Normal x u) : x = (u.mant.toNat * 8 : Nat) * 2 ^ (u.exp - 55) := by
  have last : (2 : ℚ) ^ (u.exp - 52) = 8 * 2 ^ (u.exp - 55) := by
    rw [show u.exp - 52 = 3 + (u.exp - 55) by omega, zpow_add₀ (by norm_num)]
    norm_num
  rw [normal.magnitude, scaled, last]
  push_cast
  ring

/-- The significand that is shifted to the exponent of the other one: with the sticky bit it is not exact
only if it is small. -/
theorem shifted_near {y : Unpacked 64} {b : ℚ} {e : Int} (normal : Normal b y) (order : y.exp ≤ e) :
    ∃ z, b = z * 2 ^ (e - 55) ∧ 0 < z ∧
      Near 2 (dfShiftRightJam (y.mant <<< 3) (e - y.exp)).toNat z ∧
      (e = y.exp → z = (y.mant.toNat * 8 : Nat)) ∧ (y.exp < e → z < 2 ^ 55) ∧
      (z < 2 ^ 52 ∨ z = (dfShiftRightJam (y.mant <<< 3) (e - y.exp)).toNat) := by
  obtain ⟨d, distance⟩ : ∃ d : Nat, e - y.exp = d := ⟨(e - y.exp).toNat, by omega⟩
  have short := normal.short
  have eighths : (y.mant <<< 3).toNat = y.mant.toNat * 8 := toNat_shiftLeft (by omega)
  have shifted : (dfShiftRightJam (y.mant <<< 3) (e - y.exp)).toNat = jam (y.mant.toNat * 8) (2 ^ d) := by
    rw [dfShiftRightJam_toNat (by omega) (by omega), eighths, distance]
    rfl
  have near : Near 2 (jam (y.mant.toNat * 8) (2 ^ d)) ((y.mant.toNat * 8 : Nat) / (2 ^ d : Nat)) :=
    near_jam (Nat.two_pow_pos d) (Near.exact _ _)
  have less (k : Nat) (far : k ≤ d) : ((y.mant.toNat * 8 : Nat) : ℚ) / (2 ^ d : Nat) < 2 ^ 56 / 2 ^ k := by
    have power : ((2 ^ k : Nat) : ℚ) ≤ (2 ^ d : Nat) := by
      exact_mod_cast Nat.pow_le_pow_right (by decide) far
    have bound : ((y.mant.toNat * 8 : Nat) : ℚ) < 2 ^ 56 := by exact_mod_cast (by omega : y.mant.toNat * 8 < 2 ^ 56)
    push_cast at power bound ⊢
    exact div_lt_div₀ bound power (by positivity) (by positivity)
  rw [shifted]
  refine ⟨_, ?_, ?_, near, ?_, ?_, ?_⟩
  · have power : (2 : ℚ) ^ (e - 55) = 2 ^ (y.exp - 55) * 2 ^ d := by
      rw [← zpow_natCast, ← zpow_add₀ (by norm_num)]
      congr 1
      omega
    rw [normal.eighths, power]
    push_cast
    field_simp
  · have some := normal.leading
    have positive : (0 : ℚ) < (y.mant.toNat * 8 : Nat) := by exact_mod_cast (by omega : 0 < y.mant.toNat * 8)
    exact div_pos positive (by positivity)
  · intro same
    rw [show d = 0 by omega, Nat.pow_zero, Nat.cast_one, div_one]
  · intro before
    exact (less 1 (by omega)).trans_eq (by norm_num)
  · rcases Nat.lt_or_ge 3 d with far | close
    · exact .inl ((less 4 far).trans_eq (by norm_num))
    right
    have divides : 2 ^ d ∣ y.mant.toNat * 8 :=
      Dvd.dvd.mul_left (show 2 ^ d ∣ 2 ^ 3 from Nat.pow_dvd_pow 2 close) _
    rw [jam, if_pos (Nat.mod_eq_zero_of_dvd divides), Nat.cast_div divides (by positivity)]

theorem dfAddAligned_rounds {as bs : Word} {x y : Unpacked 64} {a b : ℚ} (bitA : as.toNat < 2)
    (bitB : bs.toNat < 2) (first : Normal a x) (second : Normal b y) (order : y.exp ≤ x.exp)
    (larger : x.exp = y.exp → y.mant.toNat ≤ x.mant.toNat) :
    double.RoundsTo (signed as a + signed bs b) (dfAddAligned as x bs y).toNat := by
  obtain ⟨z, same, positive, near, equal, before, exact⟩ := shifted_near second order
  unfold dfAddAligned
  simp only
  generalize dfShiftRightJam (y.mant <<< 3) (x.exp - y.exp) = bm at *
  have leading := first.leading
  have short := first.short
  have eighths : (x.mant <<< 3).toNat = x.mant.toNat * 8 := toNat_shiftLeft (by omega)
  have first := first.eighths
  have multiple : ((2 * (x.mant.toNat * 4 : Nat) : Int) : ℚ) = (x.mant.toNat * 8 : Nat) := by
    push_cast
    ring
  have fits : bm.toNat ≤ x.mant.toNat * 8 ∧ z ≤ (x.mant.toNat * 8 : Nat) := by
    rcases Int.lt_or_eq_of_le order with less | together
    · have bound : bm.toNat < 2 ^ 55 := (near.lt_two_pow_iff (by decide)).mpr (before less)
      have large : (2 : ℚ) ^ 55 ≤ (x.mant.toNat * 8 : Nat) := by
        exact_mod_cast (by omega : 2 ^ 55 ≤ x.mant.toNat * 8)
      exact ⟨by omega, ((before less).trans_le large).le⟩
    · have small := larger together.symm
      have value := equal together.symm
      have bound : z ≤ (x.mant.toNat * 8 : Nat) := by
        rw [value]
        exact_mod_cast (by omega : y.mant.toNat * 8 ≤ x.mant.toNat * 8)
      have compared := near (x.mant.toNat * 4 : Nat)
      rw [multiple] at compared
      have none := mt compared.2.mp (not_lt.mpr bound)
      exact ⟨by omega, bound⟩
  have small : z < 2 ^ 52 → bm.toNat < 2 ^ 52 := (near.lt_two_pow_iff (by decide)).mpr
  split_ifs with signs less
  · have sum : (x.mant <<< 3 + bm).toNat = x.mant.toNat * 8 + bm.toNat := by
      rw [BitVec.toNat_add, eighths]
      omega
    subst signs
    rw [signed_add]
    refine @dfPack_rounds as ⟨x.exp, x.mant <<< 3 + bm⟩ (a + b) ((x.mant.toNat * 8 : Nat) + z) bitA
      ⟨?_, ?_, ?_⟩ (by show (x.mant <<< 3 + bm).toNat < _; omega)
      (.inl (by show _ ≤ (x.mant <<< 3 + bm).toNat; omega))
    · rw [first, same]
      ring
    · have added := near.add (x.mant.toNat * 4 : Nat)
      rw [multiple] at added
      convert added using 1
      show ((x.mant <<< 3 + bm).toNat : Int) = _
      omega
    · exact add_pos_of_nonneg_of_pos (Nat.cast_nonneg _) positive
  · have difference : (x.mant <<< 3 - bm).toNat = x.mant.toNat * 8 - bm.toNat := by
      rw [BitVec.toNat_sub_of_le less, eighths]
    have exactly : a - b = ((x.mant.toNat * 8 : Nat) - z) * 2 ^ (x.exp - 55) := by
      rw [first, same]
      ring
    rw [(signed_opposite bitA bitB signs a b).1]
    by_cases zero : x.mant.toNat * 8 = bm.toNat
    · -- all bits cancel, and there is no sticky bit
      have cancelled : z = bm.toNat := exact.resolve_left fun less => by
        have := small less
        omega
      have none : x.mant <<< 3 - bm = 0 := BitVec.eq_of_toNat_eq (by
        rw [difference, zero, Nat.sub_self]
        rfl)
      rw [exactly, zero, cancelled, sub_self, zero_mul, signed_zero, dfPack, if_pos none]
      exact roundsTo_zero bitA
    · refine @dfPack_rounds as ⟨x.exp, x.mant <<< 3 - bm⟩ (a - b) ((x.mant.toNat * 8 : Nat) - z) bitA
        ⟨exactly, ?_, ?_⟩ (by show (x.mant <<< 3 - bm).toNat < _; omega) ?_
      · have taken := near.sub (x.mant.toNat * 4 : Nat)
        rw [multiple] at taken
        convert taken using 1
        show ((x.mant <<< 3 - bm).toNat : Int) = _
        omega
      · refine sub_pos.mpr (lt_of_le_of_ne fits.2 fun together => ?_)
        have compared := near (x.mant.toNat * 4 : Nat)
        rw [multiple, together] at compared
        have below := mt compared.1.mp (lt_irrefl _)
        omega
      · show 2 ^ 54 ≤ (x.mant <<< 3 - bm).toNat ∨ _ = (((x.mant <<< 3 - bm).toNat : Nat) : ℚ)
        rw [difference]
        rcases exact with tiny | exact
        · have := small tiny
          exact .inl (by omega)
        · right
          rw [exact, Nat.cast_sub fits.1]
  · refine absurd ?_ less
    show bm.toNat ≤ (x.mant <<< 3).toNat
    omega

theorem dfAddCore_rounds {b : Long} (numberA : double.Finite a.toNat)
    (numberB : double.Finite b.toNat) :
    double.RoundsTo (double.value a.toNat + double.value b.toNat) (dfAddCore a b).toNat := by
  obtain ⟨nanA, infA⟩ := finite_spec numberA
  obtain ⟨nanB, infB⟩ := finite_spec numberB
  have zero {c : Long} (none : c <<< 1 = 0) : double.value c.toNat = 0 := by
    rw [← abs_eq_zero, abs_value]
    exact (shifted_zero_iff c).mp none
  unfold dfAddCore
  simp only [nanA, nanB, infA, infB, Bool.false_eq_true, false_and, or_self, if_false]
  split_ifs with both signs first second swapped
  · rw [zero both.1, zero both.2, add_zero, show 1#64 <<< 63 = (1#32).setWidth 64 <<< 63 by decide]
    exact roundsTo_zero (by decide)
  · rw [zero both.1, zero both.2, add_zero, show (0 : Long) = (0#32).setWidth 64 <<< 63 by decide]
    exact roundsTo_zero (by decide)
  · rw [zero first, zero_add]
    exact roundsTo_self numberB
  · rw [zero second, add_zero]
    exact roundsTo_self numberA
  all_goals
    have normalA := dfNormalize_normal (mt (shifted_zero_iff a).mpr first)
    have normalB := dfNormalize_normal (mt (shifted_zero_iff b).mpr second)
    rw [value_eq, value_eq]
  · rw [add_comm]
    refine dfAddAligned_rounds (dfSign_lt b) (dfSign_lt a) normalB normalA ?_ ?_
    · omega
    · intro same
      rcases swapped with less | ⟨-, less⟩
      · omega
      · exact Nat.le_of_lt less
  · refine dfAddAligned_rounds (dfSign_lt a) (dfSign_lt b) normalA normalB (by omega) fun same => ?_
    exact Nat.le_of_not_lt fun less => swapped (.inr ⟨same, less⟩)

/-! ## Products -/

/-- The number of two halves. -/
def joined (p : Long × Long) : Nat := p.1.toNat * 2 ^ 64 + p.2.toNat

theorem u128Add_joined {x y : Long × Long} (fits : joined x + joined y < 2 ^ 128) :
    joined (u128Add x y) = joined x + joined y := by
  have low := x.2.isLt
  have other := y.2.isLt
  have carried : x.2 + y.2 < x.2 ↔ 2 ^ 64 ≤ x.2.toNat + y.2.toNat := by
    rw [BitVec.lt_def, BitVec.toNat_add]
    omega
  unfold joined at fits ⊢
  unfold u128Add
  simp only [carried]
  split_ifs with carry
  · rw [BitVec.toNat_add, BitVec.toNat_add, BitVec.toNat_add]
    show (((x.1.toNat + y.1.toNat) % 2 ^ 64 + 1) % 2 ^ 64) * 2 ^ 64 + _ = _
    omega
  · rw [BitVec.toNat_add, BitVec.toNat_add]
    omega

/-- A significand shifted over two halves. -/
theorem shifted_joined {am : Long} {i : Nat} (turn : i < 53) :
    joined (if i = 0 then (0, am) else (am >>> (64 - i), am <<< i)) = am.toNat * 2 ^ i := by
  split_ifs with first
  · rw [first, joined]
    show 0 * 2 ^ 64 + am.toNat = _
    omega
  have split : 2 ^ 64 = 2 ^ i * 2 ^ (64 - i) := by
    rw [← Nat.pow_add]
    congr 1
    omega
  have high : am.toNat / 2 ^ (64 - i) = am.toNat * 2 ^ i / 2 ^ 64 := by
    rw [split, Nat.mul_comm, Nat.mul_div_mul_left _ _ (Nat.two_pow_pos i)]
  show (am >>> (64 - i)).toNat * 2 ^ 64 + (am <<< i).toNat = _
  rw [toNat_shiftRight, high, BitVec.toNat_shiftLeft, Nat.shiftLeft_eq, Nat.div_add_mod']

/-- After some turns the sum is the product with as many bits of the second factor. -/
theorem product_joined {am bm : Long} (short : am.toNat < 2 ^ 53) (n : Nat) (turns : n ≤ 53) :
    joined ((List.range n).foldl (dfMulTurn am bm) (0, 0)) = am.toNat * (bm.toNat % 2 ^ n) := by
  induction n with
  | zero =>
    show joined (0, 0) = _
    simp [joined, Nat.mod_one]
  | succ i ih =>
    have before := ih (by omega)
    have power : 2 ^ i ≤ 2 ^ 52 := Nat.pow_le_pow_right (by decide) (by omega)
    have set : bm >>> i &&& 1 ≠ 0 ↔ bm.toNat / 2 ^ i % 2 ≠ 0 := by
      rw [odd_iff, toNat_shiftRight]
    rw [List.range_succ, List.foldl_append, List.foldl_cons, List.foldl_nil, dfMulTurn, Nat.mod_pow_succ,
      Nat.mul_add]
    by_cases one : bm >>> i &&& 1 ≠ 0
    · have shifted := @shifted_joined am i (by omega)
      have added : am.toNat * (bm.toNat % 2 ^ i) + am.toNat * 2 ^ i < 2 ^ 128 := by
        have rest : bm.toNat % 2 ^ i < 2 ^ 52 := Nat.lt_of_lt_of_le (Nat.mod_lt _ (Nat.two_pow_pos i)) power
        nlinarith
      have last := set.mp one
      rw [if_pos one, u128Add_joined (by rw [before, shifted]; exact added), before, shifted,
        show bm.toNat / 2 ^ i % 2 = 1 by omega, Nat.mul_one]
    · rw [if_neg one, before, not_not.mp (mt set.mpr one), Nat.mul_zero, Nat.mul_zero, Nat.add_zero]

theorem dfShiftRightJam128_toNat {p : Long × Long} {d : Nat} (some : 0 < d) (less : d < 64)
    (fits : p.1.toNat < 2 ^ d) : (dfShiftRightJam128 p.1 p.2 d).toNat = jam (joined p) (2 ^ d) := by
  have split : 2 ^ 64 = 2 ^ d * 2 ^ (64 - d) := by
    rw [← Nat.pow_add]
    congr 1
    omega
  have distance : (64 - (d : Int)).toNat = 64 - d := by omega
  have whole : joined p = 2 ^ d * (p.1.toNat * 2 ^ (64 - d)) + p.2.toNat := by
    rw [joined, split]
    ring
  unfold dfShiftRightJam128
  rw [if_neg (by omega), if_pos (by omega)]
  simp only [distance, Int.toNat_natCast]
  refine sticky_toNat ?_ ?_
  · have high : (p.1 <<< (64 - d)).toNat = p.1.toNat * 2 ^ (64 - d) := toNat_shiftLeft (by
      rw [split]
      exact Nat.mul_lt_mul_of_pos_right fits (Nat.two_pow_pos _))
    have low : (p.2 >>> d).toNat = p.2.toNat / 2 ^ d := toNat_shiftRight p.2 d
    have bound := p.2.isLt
    rw [BitVec.or_comm, toNat_or high, low, whole, Nat.mul_add_div (Nat.two_pow_pos d)]
    rw [low]
    exact Nat.div_lt_of_lt_mul (split ▸ bound)
  · have bound : 2 ^ d < 2 ^ 64 := Nat.pow_lt_pow_right (by decide) less
    have positive := Nat.two_pow_pos d
    have mask : ((1#64 <<< d) - 1).toNat = 2 ^ d - 1 := by
      have one : (1#64 <<< d).toNat = 2 ^ d := by
        rw [toNat_shiftLeft (by rw [show (1#64).toNat = 1 from rfl, Nat.one_mul]; exact bound)]
        exact Nat.one_mul _
      rw [BitVec.toNat_sub_of_le (by rw [BitVec.le_def, one]; exact positive), one]
      rfl
    rw [ne_eq, ← BitVec.toNat_inj, BitVec.toNat_and, mask, Nat.and_two_pow_sub_one_eq_mod, whole,
      Nat.mul_add_mod]
    rfl

/-- A quotient of 56 bits with a sticky bit is rounded. -/
theorem dfPack_jam {mant : Long} {n d : Nat} (bit : sign.toNat < 2) (divisor : 0 < d)
    (sticky : mant.toNat = jam n d) (least : 2 ^ 55 * d ≤ n) (most : n < 2 ^ 56 * d)
    (exact : x = n / d * 2 ^ (exp - 55)) : double.RoundsTo (signed sign x) (dfPack sign exp mant).toNat := by
  have near : Near 2 (jam n d) ((n : ℚ) / d) := near_jam divisor (Near.exact _ _)
  have positive : (0 : ℚ) < d := by exact_mod_cast divisor
  have low : (2 : ℚ) ^ 55 ≤ n / d := (le_div_iff₀ positive).mpr (by exact_mod_cast least)
  have high : (n : ℚ) / d < 2 ^ 56 := (div_lt_iff₀ positive).mpr (by exact_mod_cast most)
  rw [← sticky] at near
  have below : mant.toNat < 2 ^ 56 := (near.lt_two_pow_iff (by decide)).mpr high
  have above : 2 ^ 55 ≤ mant.toNat := (near.two_pow_le_iff (by decide)).mpr low
  exact @dfPack_rounds sign ⟨exp, mant⟩ x (n / d) bit ⟨exact, near, lt_of_lt_of_le (by norm_num) low⟩
    (by show mant.toNat < _; omega) (.inl (by show _ ≤ mant.toNat; omega))

theorem product_rounds {x y : Unpacked 64} {a b : ℚ} {prod : Long × Long} (bit : sign.toNat < 2)
    (first : Normal a x) (second : Normal b y) (product : joined prod = x.mant.toNat * y.mant.toNat) :
    double.RoundsTo (signed sign (a * b))
      (if (prod.1 >>> 41) &&& 1 ≠ 0 then
          dfPack sign (x.exp + y.exp + 1) (dfShiftRightJam128 prod.1 prod.2 50)
        else dfPack sign (x.exp + y.exp) (dfShiftRightJam128 prod.1 prod.2 49)).toNat := by
  have low : 2 ^ 52 * 2 ^ 52 ≤ joined prod := product ▸ Nat.mul_le_mul first.leading second.leading
  have high : joined prod < 2 ^ 53 * 2 ^ 53 := product ▸ Nat.mul_lt_mul'' first.short second.short
  have lower := prod.2.isLt
  have halves : joined prod = prod.1.toNat * 2 ^ 64 + prod.2.toNat := rfl
  have top : prod.1 >>> 41 &&& 1 ≠ 0 ↔ prod.1.toNat / 2 ^ 41 % 2 ≠ 0 := by
    rw [odd_iff, toNat_shiftRight]
  have exact (d : Nat) (exp : Int) (power : exp = x.exp + y.exp + d - 49) :
      a * b = joined prod / (2 ^ d : Nat) * 2 ^ (exp - 55) := by
    have shifted : (2 : ℚ) ^ (exp - 55) = 2 ^ d * 2 ^ (x.exp - 52 + (y.exp - 52)) := by
      rw [← zpow_natCast, ← zpow_add₀ (by norm_num)]
      congr 1
      omega
    rw [first.magnitude, second.magnitude, scaled_mul, product, scaled, shifted]
    push_cast
    field_simp
  split_ifs with large
  · have large := top.mp large
    exact dfPack_jam bit (Nat.two_pow_pos 50)
      (@dfShiftRightJam128_toNat prod 50 (by decide) (by decide) (by omega)) (by omega) (by omega)
      (exact 50 _ (by omega))
  · have small := mt top.mpr large
    exact dfPack_jam bit (Nat.two_pow_pos 49)
      (@dfShiftRightJam128_toNat prod 49 (by decide) (by decide) (by omega)) (by omega) (by omega)
      (exact 49 _ (by omega))

theorem muldf3_rounds {alo ahi blo bhi : Word} (numberA : double.Finite (dfMake alo ahi).toNat)
    (numberB : double.Finite (dfMake blo bhi).toNat) :
    double.RoundsTo (double.value (dfMake alo ahi).toNat * double.value (dfMake blo bhi).toNat)
      (muldf3 alo ahi blo bhi).toNat := by
  unfold muldf3
  generalize dfMake alo ahi = a at *
  generalize dfMake blo bhi = b at *
  obtain ⟨nanA, infA⟩ := finite_spec numberA
  obtain ⟨nanB, infB⟩ := finite_spec numberB
  obtain ⟨product, bit⟩ := signed_mul (dfSign_lt a) (dfSign_lt b) (double.magnitude a.toNat)
    (double.magnitude b.toNat)
  rw [value_eq, value_eq, product]
  simp only [nanA, nanB, infA, infB, Bool.false_eq_true, false_and, or_self, if_false, shifted_zero_iff]
  by_cases none : double.magnitude a.toNat = 0 ∨ double.magnitude b.toNat = 0
  · rw [if_pos none, mul_eq_zero.mpr none, signed_zero]
    exact roundsTo_zero bit
  have normalA := dfNormalize_normal fun zero => none (.inl zero)
  have normalB := dfNormalize_normal fun zero => none (.inr zero)
  rw [if_neg none]
  refine product_rounds bit normalA normalB ?_
  rw [product_joined normalA.short 53 (Nat.le_refl _), Nat.mod_eq_of_lt normalB.short]

/-! ## Quotients -/

/-- A turn of the division takes one more bit of the quotient. -/
theorem dfDivTurn_spec {bm : Long} {s : Long × Long} (short : bm.toNat < 2 ^ 53)
    (rest : s.1.toNat < bm.toNat) (small : s.2.toNat < 2 ^ 63) :
    (dfDivTurn bm s).1.toNat < bm.toNat ∧ (dfDivTurn bm s).2.toNat ≤ 2 * s.2.toNat + 1 ∧
      (dfDivTurn bm s).2.toNat * bm.toNat + (dfDivTurn bm s).1.toNat =
        2 * (s.2.toNat * bm.toNat + s.1.toNat) := by
  have rem : (s.1 <<< 1).toNat = s.1.toNat * 2 := toNat_shiftLeft (by omega)
  have quotient : (s.2 <<< 1).toNat = s.2.toNat * 2 := toNat_shiftLeft (by omega)
  have reached : bm ≤ s.1 <<< 1 ↔ bm.toNat ≤ s.1.toNat * 2 := by
    rw [← rem]
    exact BitVec.le_def
  unfold dfDivTurn
  simp only
  by_cases more : bm ≤ s.1 <<< 1
  · have enough := reached.mp more
    have taken : (s.1 <<< 1 - bm).toNat = s.1.toNat * 2 - bm.toNat := by
      rw [BitVec.toNat_sub_of_le more, rem]
    have bit : (s.2 <<< 1 ||| 1).toNat = s.2.toNat * 2 + 1 :=
      @toNat_or 64 s.2.toNat 1 (s.2 <<< 1) 1 quotient (by decide)
    rw [if_pos more]
    refine ⟨by show (s.1 <<< 1 - bm).toNat < _; omega, by show (s.2 <<< 1 ||| 1).toNat ≤ _; omega, ?_⟩
    show (s.2 <<< 1 ||| 1).toNat * bm.toNat + (s.1 <<< 1 - bm).toNat = _
    have product : (s.2.toNat * 2 + 1) * bm.toNat = 2 * (s.2.toNat * bm.toNat) + bm.toNat := by ring
    rw [bit, taken, product]
    omega
  · have less := mt reached.mpr more
    rw [if_neg more]
    refine ⟨by show (s.1 <<< 1).toNat < _; omega, by show (s.2 <<< 1).toNat ≤ _; omega, ?_⟩
    show (s.2 <<< 1).toNat * bm.toNat + (s.1 <<< 1).toNat = _
    rw [quotient, rem]
    ring

/-- After some turns there is a quotient with as many more bits, and its remainder. -/
theorem divided_spec {bm rem : Long} (short : bm.toNat < 2 ^ 53) (rest : rem.toNat < bm.toNat) (n : Nat)
    (turns : n ≤ 55) :
    ((dfDivTurn bm)^[n] (rem, 1)).1.toNat < bm.toNat ∧
      ((dfDivTurn bm)^[n] (rem, 1)).2.toNat < 2 ^ (n + 1) ∧
      ((dfDivTurn bm)^[n] (rem, 1)).2.toNat * bm.toNat + ((dfDivTurn bm)^[n] (rem, 1)).1.toNat =
        (bm.toNat + rem.toNat) * 2 ^ n := by
  induction n with
  | zero =>
    refine ⟨rest, show (1#64).toNat < 2 ^ 1 by decide, ?_⟩
    show 1 * bm.toNat + rem.toNat = _
    ring
  | succ n ih =>
    obtain ⟨less, small, same⟩ := ih (by omega)
    have power : 2 ^ (n + 1) ≤ 2 ^ 55 := Nat.pow_le_pow_right (by decide) turns
    obtain ⟨less, longer, doubled⟩ := dfDivTurn_spec short less (by omega)
    rw [Function.iterate_succ_apply']
    refine ⟨less, ?_, ?_⟩
    · rw [Nat.pow_succ]
      omega
    · rw [doubled, same, Nat.pow_succ]
      ring

theorem quotient_rounds {y : Unpacked 64} {a b : ℚ} {first : Int × Long} (bit : sign.toNat < 2)
    (dividend : a = scaled first.2.toNat (first.1 + y.exp - 52)) (divisor : Normal b y)
    (least : y.mant.toNat ≤ first.2.toNat) (most : first.2.toNat < 2 * y.mant.toNat) :
    double.RoundsTo (signed sign (a / b))
      (dfPack sign first.1
        (if ((dfDivTurn y.mant)^[55] (first.2 - y.mant, 1)).1 ≠ 0 then
          ((dfDivTurn y.mant)^[55] (first.2 - y.mant, 1)).2 ||| 1
        else ((dfDivTurn y.mant)^[55] (first.2 - y.mant, 1)).2)).toNat := by
  have leading := divisor.leading
  have begun : (first.2 - y.mant).toNat = first.2.toNat - y.mant.toNat := BitVec.toNat_sub_of_le least
  obtain ⟨less, -, same⟩ := @divided_spec y.mant (first.2 - y.mant) divisor.short (by omega) 55 (Nat.le_refl _)
  rw [begun, Nat.add_sub_cancel' least] at same
  generalize (dfDivTurn y.mant)^[55] (first.2 - y.mant, 1) = divided at *
  have positive : 0 < y.mant.toNat := by omega
  have whole : first.2.toNat * 2 ^ 55 = y.mant.toNat * divided.2.toNat + divided.1.toNat := by
    rw [← same, Nat.mul_comm y.mant.toNat]
  have quotient : divided.2.toNat = first.2.toNat * 2 ^ 55 / y.mant.toNat := by
    rw [whole, Nat.mul_add_div positive, Nat.div_eq_of_lt less, Nat.add_zero]
  have remainder : divided.1 ≠ 0 ↔ first.2.toNat * 2 ^ 55 % y.mant.toNat ≠ 0 := by
    rw [whole, Nat.mul_add_mod, Nat.mod_eq_of_lt less, ne_eq, ← BitVec.toNat_inj]
    rfl
  refine dfPack_jam bit positive (sticky_toNat quotient remainder) (by omega) (by omega) ?_
  have power : (2 : ℚ) ^ (first.1 + y.exp - 52) = 2 ^ 55 * 2 ^ (first.1 - 55) * 2 ^ (y.exp - 52) := by
    rw [← zpow_natCast, ← zpow_add₀ (by norm_num), ← zpow_add₀ (by norm_num)]
    congr 1
    omega
  rw [dividend, divisor.magnitude, scaled, scaled, power, Nat.cast_mul, Nat.cast_pow, Nat.cast_ofNat]
  field_simp

theorem divdf3_rounds {alo ahi blo bhi : Word} (numberA : double.Finite (dfMake alo ahi).toNat)
    (numberB : double.Finite (dfMake blo bhi).toNat) (nonzero : double.value (dfMake blo bhi).toNat ≠ 0) :
    double.RoundsTo (double.value (dfMake alo ahi).toNat / double.value (dfMake blo bhi).toNat)
      (divdf3 alo ahi blo bhi).toNat := by
  unfold divdf3
  generalize dfMake alo ahi = a at *
  generalize dfMake blo bhi = b at *
  obtain ⟨nanA, infA⟩ := finite_spec numberA
  obtain ⟨nanB, infB⟩ := finite_spec numberB
  have bit := (signed_mul (dfSign_lt a) (dfSign_lt b) 0 0).2
  have some : double.magnitude b.toNat ≠ 0 := by
    rw [← abs_value]
    exact abs_ne_zero.mpr nonzero
  rw [value_eq, value_eq, signed_div (dfSign_lt a) (dfSign_lt b)]
  simp only [nanA, nanB, infA, infB, Bool.false_eq_true, or_self, if_false, shifted_zero_iff, some, and_false]
  by_cases none : double.magnitude a.toNat = 0
  · rw [if_pos none, none, zero_div, signed_zero]
    exact roundsTo_zero bit
  have normalA := dfNormalize_normal none
  have normalB := dfNormalize_normal some
  rw [if_neg none]
  generalize dfNormalize (dfUnpack a) = x at *
  generalize dfNormalize (dfUnpack b) = y at *
  have leading := normalA.leading
  have short := normalA.short
  have leading' := normalB.leading
  have short' := normalB.short
  have doubled : (x.mant <<< 1).toNat = x.mant.toNat * 2 := toNat_shiftLeft (by omega)
  by_cases smaller : x.mant < y.mant
  · have less : x.mant.toNat < y.mant.toNat := smaller
    rw [if_pos smaller]
    refine @quotient_rounds _ y _ _ (x.exp - y.exp - 1, x.mant <<< 1) bit ?_ normalB ?_ ?_
    · show _ = scaled (x.mant <<< 1).toNat (x.exp - y.exp - 1 + y.exp - 52)
      rw [doubled, scaled_double, normalA.magnitude]
      congr 1
      omega
    · show _ ≤ (x.mant <<< 1).toNat
      omega
    · show (x.mant <<< 1).toNat < _
      omega
  · rw [if_neg smaller]
    refine @quotient_rounds _ y _ _ (x.exp - y.exp, x.mant) bit ?_ normalB (Nat.le_of_not_lt smaller) ?_
    · rw [normalA.magnitude]
      congr 1
      omega
    · show x.mant.toNat < _
      omega

/-- The four operations round the exact result to the nearest number, in a tie to the even one, and from
the threshold on to an infinity. -/
theorem correctly_rounded {alo ahi blo bhi : Word} (numberA : double.Finite (dfMake alo ahi).toNat)
    (numberB : double.Finite (dfMake blo bhi).toNat) :
    double.RoundsTo (double.value (dfMake alo ahi).toNat + double.value (dfMake blo bhi).toNat)
        (adddf3 alo ahi blo bhi).toNat ∧
      double.RoundsTo (double.value (dfMake alo ahi).toNat - double.value (dfMake blo bhi).toNat)
        (subdf3 alo ahi blo bhi).toNat ∧
      double.RoundsTo (double.value (dfMake alo ahi).toNat * double.value (dfMake blo bhi).toNat)
        (muldf3 alo ahi blo bhi).toNat ∧
      (double.value (dfMake blo bhi).toNat ≠ 0 →
        double.RoundsTo (double.value (dfMake alo ahi).toNat / double.value (dfMake blo bhi).toNat)
          (divdf3 alo ahi blo bhi).toNat) := by
  refine ⟨dfAddCore_rounds numberA numberB, ?_, muldf3_rounds numberA numberB, divdf3_rounds numberA numberB⟩
  have flipped : (dfMake blo bhi ^^^ (1#64 <<< 63)).toNat = (dfMake blo bhi).toNat ^^^ 2 ^ (52 + 11) := by
    rw [BitVec.toNat_xor]
    rfl
  have number : double.Finite (dfMake blo bhi ^^^ (1#64 <<< 63)).toNat := by
    rw [flipped]
    exact fun field => numberB ((@fields_flip double _).2.1.symm.trans field)
  have opposite : double.value (dfMake blo bhi ^^^ (1#64 <<< 63)).toNat = -double.value (dfMake blo bhi).toNat := by
    rw [flipped]
    exact value_flip (dfSign_toNat _ ▸ dfSign_lt _)
  rw [sub_eq_add_neg, ← opposite]
  exact dfAddCore_rounds numberA number

/-- A third is rounded. -/
theorem correctly_rounded_third :
    double.RoundsTo (double.value (dfMake 0 1072693248).toNat / double.value (dfMake 0 1074266112).toNat)
        (divdf3 0 1072693248 0 1074266112).toNat ∧
      (divdf3 0 1072693248 0 1074266112).toNat = 4599676419421066581 :=
  ⟨(@correctly_rounded 0 1072693248 0 1074266112 (by decide) (by decide)).2.2.2 (by decide +kernel),
    by decide +kernel⟩

end JsEmulator.Toolchain.DoublePrecision
