import JsEmulator.Toolchain.FloatPatterns
import Mathlib.Data.Nat.Factorization.Basic

/-!
# Exact results in single precision

When the exact sum, difference, product or quotient of two `float`s is a `float`, it should be what
`__addsf3`, `__subsf3`, `__mulsf3` and `__divsf3` return. `__sf_pack` has one way to put a pattern
together: it gives the exponent of the smallest normal numbers to the numbers below them and turns
smaller ones to zero. And the three operations cut off the bits that alignment, the product and the
quotient have too many before they know how far the result is shifted.
-/

namespace JsEmulator.Toolchain.SinglePrecision

open JsEmulator.Library (turnWhile turnWhile_rule)
open JsEmulator.Library.Floats
open JsEmulator.Toolchain.FloatPatterns
open JsEmulator.Toolchain.RuntimeFloat

variable {sign mant p : Word} {exp : Int}

/-- The format of a `float`. -/
def single : Format := { exponent := 8, fraction := 23 }

/-! ## Patterns -/

theorem sfFrac_toNat (a : Word) : (sfFrac a).toNat = single.fractionOf a.toNat := by
  rw [sfFrac, BitVec.toNat_and]
  exact Nat.and_two_pow_sub_one_eq_mod a.toNat 23

theorem sfExp_toNat (a : Word) : (sfExp a).toNat = single.exponentOf a.toNat := by
  rw [sfExp, BitVec.toNat_and, toNat_shiftRight]
  exact Nat.and_two_pow_sub_one_eq_mod (a.toNat / 2 ^ 23) 8

theorem sfSign_toNat (a : Word) : (sfSign a).toNat = single.signOf a.toNat := by
  rw [sfSign, toNat_shiftRight]
  exact (Nat.div_div_eq_div_mul a.toNat (2 ^ 23) (2 ^ 8)).symm

theorem sfSign_lt (a : Word) : (sfSign a).toNat < 2 := by
  have bound := a.isLt
  rw [sfSign, toNat_shiftRight]
  omega

theorem sfPattern_toNat {exponent fraction : Word} (bit : sign.toNat < 2)
    (shortExponent : exponent.toNat < 2 ^ 8) (shortFraction : fraction.toNat < 2 ^ 23) :
    ((sign <<< 31) ||| (exponent <<< 23) ||| fraction).toNat =
      single.encode sign.toNat exponent.toNat fraction.toNat :=
  @pattern_toNat single 32 rfl sign exponent fraction bit shortExponent shortFraction

theorem zero_toNat (bit : sign.toNat < 2) : (sign <<< 31).toNat = single.encode sign.toNat 0 0 := by
  rw [toNat_shiftLeft (by omega)]
  unfold Format.encode
  simp only [single]
  ring

theorem infinity_toNat (bit : sign.toNat < 2) :
    ((sign <<< 31) ||| 2139095040).toNat = single.encode sign.toNat 255 0 := by
  have whole := @sfPattern_toNat sign 255#32 0#32 bit (by decide) (by decide)
  have low : (255#32 <<< 23) ||| 0#32 = 2139095040#32 := by decide
  rw [BitVec.or_assoc, low] at whole
  exact whole

/-- A pattern is that of a number. -/
def Right (p : Word) (x : ℚ) : Prop := single.Finite p.toNat ∧ single.value p.toNat = x

/-- The smallest normal number. -/
def smallest : ℚ := scaled (2 ^ 23) (-149)

theorem smallest_eq : smallest = scaled 1 (-126) := scaled_shift 1 23 (-149)

theorem value_eq (a : Word) : single.value a.toNat = signed (sfSign a) (single.magnitude a.toNat) :=
  value_signed (sfSign_toNat a)

/-- What `__sf_unpack` finds in a number. -/
structure Unpacks (x : ℚ) (u : Unpacked 32) : Prop where
  magnitude : x = scaled u.mant.toNat (u.exp - 23)
  short : u.mant.toNat < 2 ^ 24
  least : -126 ≤ u.exp
  most : u.exp ≤ 127
  leading : 2 ^ 23 ≤ u.mant.toNat ∨ u.exp = -126

theorem significand_eq (a : Word) : single.significand a.toNat =
    if single.exponentOf a.toNat = 0 then single.fractionOf a.toNat
    else 2 ^ 23 + single.fractionOf a.toNat := rfl

theorem sfExp_zero_iff (a : Word) : sfExp a = 0 ↔ single.exponentOf a.toNat = 0 := by
  rw [← sfExp_toNat]
  exact (@BitVec.toNat_inj 32 (sfExp a) 0).symm

theorem sfUnpack_mant (a : Word) : (sfUnpack a).mant.toNat = single.significand a.toNat := by
  have short : (sfFrac a).toNat < 2 ^ 23 := by
    rw [sfFrac_toNat]
    exact Nat.mod_lt _ (by decide)
  unfold sfUnpack
  rw [significand_eq, ← sfFrac_toNat]
  simp only [sfExp_zero_iff]
  split_ifs
  · rfl
  · rw [BitVec.or_comm]
    exact toNat_or (show (8388608#32).toNat = 1 * 2 ^ 23 by decide) short

theorem sfUnpack_exp (a : Word) : (sfUnpack a).exp - 23 = single.power a.toNat := by
  have low : single.low = -149 := by decide
  unfold sfUnpack Format.power
  rw [low, ← sfExp_toNat]
  split_ifs with none
  · rw [none]
    rfl
  · have some : (sfExp a).toNat ≠ 0 := fun zero => none (BitVec.eq_of_toNat_eq zero)
    show ((sfExp a).toNat : Int) - 127 - 23 = _
    omega

theorem sfUnpack_unpacks {a : Word} (finite : single.Finite a.toNat) :
    Unpacks (single.magnitude a.toNat) (sfUnpack a) := by
  have fraction : single.fractionOf a.toNat < 2 ^ 23 := Nat.mod_lt _ (by decide)
  have exponent : single.exponentOf a.toNat < 2 ^ 8 := Nat.mod_lt _ (by decide)
  have below : single.exponentOf a.toNat ≠ 255 := finite
  have mant := sfUnpack_mant a
  have exp := sfUnpack_exp a
  have low : single.low = -149 := by decide
  rw [Format.power, low] at exp
  refine ⟨?_, ?_, by omega, by omega, ?_⟩
  · rw [mant, sfUnpack_exp]
    rfl
  · rw [mant, significand_eq]
    split_ifs <;> omega
  · rw [mant, significand_eq]
    split_ifs <;> omega

/-! ## Packing -/

/-- The first loop halves until 24 bits are left. -/
theorem sfShrink_spec (x : Unpacked 32) : ∃ k : Nat, (sfShrink x).exp = x.exp + k ∧
    (sfShrink x).mant.toNat = x.mant.toNat / 2 ^ k ∧ (sfShrink x).mant.toNat < 2 ^ 24 ∧
    (k = 0 ∨ 2 ^ 23 ≤ (sfShrink x).mant.toNat) := by
  obtain ⟨k, ⟨exp, mant, long⟩, failed⟩ := @turnWhile_rule (Unpacked 32)
    (fun x => decide (16777216#32 ≤ x.mant)) Unpacked.halve 32 x
    (fun k u => u.exp = x.exp + k ∧ u.mant.toNat = x.mant.toNat / 2 ^ k ∧ (k = 0 ∨ 2 ^ 23 ≤ u.mant.toNat))
    ⟨by simp, by simp, .inl rfl⟩
    (by
      rintro k u ⟨exp, mant, -⟩ more
      have large : 2 ^ 24 ≤ u.mant.toNat := of_decide_eq_true more
      have half : u.halve.mant.toNat = u.mant.toNat / 2 := by
        rw [Unpacked.halve, toNat_shiftRight, Nat.pow_one]
      refine ⟨?_, ?_, .inr (by omega)⟩
      · show u.exp + 1 = _
        omega
      · rw [half, mant, Nat.div_div_eq_div_mul, Nat.pow_succ])
    (by
      rintro u ⟨-, mant, -⟩
      have small : x.mant.toNat / 2 ^ 32 = 0 := Nat.div_eq_of_lt x.mant.isLt
      refine decide_eq_false fun large => ?_
      have : 2 ^ 24 ≤ u.mant.toNat := large
      omega)
  have small : ¬ 2 ^ 24 ≤ (sfShrink x).mant.toNat := of_decide_eq_false failed
  exact ⟨k, exp, mant, by omega, long⟩

theorem sfGrow_spec {x : Unpacked 32} (positive : 0 < x.mant.toNat) (short : x.mant.toNat < 2 ^ 24) :
    ∃ j : Nat, (sfGrow x).exp = x.exp - j ∧ (sfGrow x).mant.toNat = x.mant.toNat * 2 ^ j ∧
      (sfGrow x).mant.toNat < 2 ^ 24 ∧ (2 ^ 23 ≤ (sfGrow x).mant.toNat ∨ (sfGrow x).exp ≤ -126) := by
  obtain ⟨j, exp, mant, small, stopped⟩ := @grow_spec 32 23 8388608 (fun exp => -126 < exp) x (by decide)
    (by decide) positive short
  exact ⟨j, exp, mant, small, stopped.imp_right fun refused => Int.not_lt.mp (of_decide_eq_false refused)⟩

/-- What `__sf_pack` makes of a significand: it is cut to 24 bits, of which the first is a one unless the
exponent is that of the smallest numbers, and nothing is lost of a number of the format. -/
structure Packed (v : ℚ) (m : Nat) (e : Int) : Prop where
  positive : 0 < m
  short : m < 2 ^ 24
  cut : scaled m (e - 23) ≤ v
  whole : m < 2 ^ 23 ∨ single.Holds v → scaled m (e - 23) = v
  leading : 2 ^ 23 ≤ m ∨ e ≤ -126

/-- A number that is normal keeps its first bit. -/
theorem Packed.leading_of_smallest {v : ℚ} {m : Nat} {e : Int} (packed : Packed v m e)
    (large : smallest ≤ v) : 2 ^ 23 ≤ m := by
  by_contra few
  have bottom := packed.leading.resolve_left few
  have less : scaled m (e - 23) < smallest := scaled_lt_scaled (by omega) (by omega)
  rw [packed.whole (.inl (by omega))] at less
  exact absurd large (not_le.mpr less)

theorem sfPack_spec (bit : sign.toNat < 2) (nonzero : mant ≠ 0) :
    ∃ m e, Packed (scaled mant.toNat (exp - 23)) m e ∧
      (127 < e ∧ (sfPack sign exp mant).toNat = single.encode sign.toNat 255 0 ∨
        e < -126 ∧ (sfPack sign exp mant).toNat = single.encode sign.toNat 0 0 ∨
        -126 ≤ e ∧ e ≤ 127 ∧
          (sfPack sign exp mant).toNat = single.encode sign.toNat (e + 127).toNat (m % 2 ^ 23)) := by
  have positive : 0 < mant.toNat := Nat.pos_of_ne_zero fun zero => nonzero (BitVec.eq_of_toNat_eq zero)
  obtain ⟨k, shrunkExp, shrunk, shrunkShort, long⟩ := sfShrink_spec ⟨exp, mant⟩
  have some : 0 < (sfShrink ⟨exp, mant⟩).mant.toNat := by
    rcases long with zero | large
    · rw [shrunk, zero, Nat.pow_zero, Nat.div_one]
      exact positive
    · omega
  obtain ⟨j, grownExp, grown, grownShort, leading⟩ := sfGrow_spec some shrunkShort
  refine ⟨(sfGrow (sfShrink ⟨exp, mant⟩)).mant.toNat, (sfGrow (sfShrink ⟨exp, mant⟩)).exp, ?_, ?_⟩
  · have kept : scaled (sfGrow (sfShrink ⟨exp, mant⟩)).mant.toNat ((sfGrow (sfShrink ⟨exp, mant⟩)).exp - 23) =
        scaled (mant.toNat / 2 ^ k * 2 ^ k) (exp - 23) := by
      rw [grown, grownExp, shrunk, shrunkExp, scaled_shift, scaled_shift]
      congr 1
      dsimp only
      omega
    refine ⟨?_, grownShort, ?_, ?_, leading⟩
    · rw [grown]
      exact Nat.mul_pos some (Nat.two_pow_pos j)
    · rw [kept, scaled_le_iff]
      exact Nat.div_mul_le_self _ _
    · intro exact
      have divides : 2 ^ k ∣ mant.toNat := by
        rcases long with rfl | large
        · exact one_dvd _
        rcases exact with short | held
        · rw [grown] at short
          have := Nat.le_mul_of_pos_right (sfShrink ⟨exp, mant⟩).mant.toNat (Nat.two_pow_pos j)
          omega
        · refine dvd_of_holds held ?_
          rw [shrunk, Nat.le_div_iff_mul_le (Nat.two_pow_pos k), ← Nat.pow_add] at large
          exact large
      rw [kept, Nat.div_mul_cancel divides]
  · have masked : ((sfGrow (sfShrink ⟨exp, mant⟩)).mant &&& 8388607).toNat =
        (sfGrow (sfShrink ⟨exp, mant⟩)).mant.toNat % 2 ^ 23 := by
      rw [BitVec.toNat_and]
      exact Nat.and_two_pow_sub_one_eq_mod _ 23
    rw [sfPack, if_neg nonzero]
    simp only
    generalize sfGrow (sfShrink ⟨exp, mant⟩) = u at *
    split_ifs with above below
    · exact .inl ⟨above, infinity_toNat bit⟩
    · exact .inr (.inl ⟨below, zero_toNat bit⟩)
    · have field : (BitVec.ofInt 32 (u.exp + 127)).toNat = (u.exp + 127).toNat := by
        rw [BitVec.toNat_ofInt, Int.emod_eq_of_lt (by omega) (by omega)]
      refine .inr (.inr ⟨by omega, by omega, ?_⟩)
      rw [sfPattern_toNat bit (by omega) (by rw [masked]; exact Nat.mod_lt _ (by decide)), field, masked]

/-- The number of a pattern that is put together. -/
theorem right_encode {exponent fraction : Nat} (shortFraction : fraction < 2 ^ 23)
    (shortExponent : exponent < 255)
    (pattern : p.toNat = single.encode sign.toNat exponent fraction) (x : ℚ) :
    Right p x ↔ signed sign (single.magnitude (single.encode sign.toNat exponent fraction)) = x := by
  obtain ⟨-, exponentField, signField⟩ :=
    @fields_encode single sign.toNat exponent fraction shortFraction (by simp only [single]; omega)
  have finite : single.Finite p.toNat := by
    rw [pattern, Format.Finite, exponentField]
    simp only [single]
    omega
  rw [Right, and_iff_right finite, pattern, value_signed signField.symm]

theorem magnitude_zero (sign : Nat) : single.magnitude (single.encode sign 0 0) = 0 := by
  rw [magnitude_encode_zero (by decide)]
  exact scaled_zero _

section

variable (bit : sign.toNat < 2)
include bit

theorem sfPack_zero (exp : Int) (x : ℚ) : Right (sfPack sign exp 0) x ↔ x = 0 := by
  have pattern : (sfPack sign exp 0).toNat = single.encode sign.toNat 0 0 := zero_toNat bit
  rw [right_encode (by decide) (by decide) pattern, magnitude_zero, signed_zero]
  exact eq_comm

/-- Which number `__sf_pack` returns. -/
theorem sfPack_right (nonzero : mant ≠ 0) (x : ℚ) :
    ∃ m e, Packed (scaled mant.toNat (exp - 23)) m e ∧
      (Right (sfPack sign exp mant) x ↔
        e < -126 ∧ x = 0 ∨
        -126 ≤ e ∧ e ≤ 127 ∧ x = signed sign (scaled (2 ^ 23 + m % 2 ^ 23) (e - 23))) := by
  obtain ⟨m, e, packed, ⟨above, pattern⟩ | ⟨below, pattern⟩ | ⟨least, most, pattern⟩⟩ :=
    @sfPack_spec sign mant exp bit nonzero
  · refine ⟨m, e, packed, iff_of_false ?_ (by omega)⟩
    rintro ⟨finite, -⟩
    obtain ⟨-, exponentField, -⟩ := @fields_encode single sign.toNat 255 0 (by decide) (by decide)
    rw [pattern] at finite
    exact finite exponentField
  · refine ⟨m, e, packed, ?_⟩
    rw [right_encode (by decide) (by decide) pattern, magnitude_zero, signed_zero]
    constructor
    · exact fun same => .inl ⟨below, same.symm⟩
    · rintro (⟨-, same⟩ | ⟨least, -⟩)
      · exact same.symm
      · omega
  · have fraction : m % 2 ^ 23 < 2 ^ 23 := Nat.mod_lt _ (by decide)
    have low : single.low = -149 := by decide
    have power : single.low + (e + 127).toNat - 1 = e - 23 := by omega
    refine ⟨m, e, packed, ?_⟩
    rw [right_encode fraction (by omega) pattern, magnitude_encode fraction (by omega)
      (by simp only [single]; omega), power]
    constructor
    · exact fun same => .inr ⟨least, most, same.symm⟩
    · rintro (⟨below, -⟩ | ⟨-, -, same⟩)
      · omega
      · exact same.symm

/-- No number below the smallest normal one is returned, except zero. -/
theorem sfPack_normal {x : ℚ} (right : Right (sfPack sign exp mant) x) :
    x = 0 ∨ smallest ≤ |x| := by
  by_cases zero : mant = 0
  · subst zero
    exact .inl ((sfPack_zero bit exp x).mp right)
  obtain ⟨m, e, packed, iff⟩ := @sfPack_right sign mant exp bit zero x
  rcases iff.mp right with ⟨-, nothing⟩ | ⟨least, -, rfl⟩
  · exact .inl nothing
  · right
    rw [abs_signed, abs_of_nonneg (scaled_nonneg _ _)]
    exact scaled_le_scaled (Nat.le_add_right _ _) (by omega)

/-- What is returned for a significand that is at least the smallest normal number is not above it. -/
theorem sfPack_le {x : ℚ} (right : Right (sfPack sign exp mant) x)
    (large : mant ≠ 0 → smallest ≤ scaled mant.toNat (exp - 23)) : |x| ≤ scaled mant.toNat (exp - 23) := by
  by_cases zero : mant = 0
  · subst zero
    rw [(sfPack_zero bit exp x).mp right, abs_zero]
    exact scaled_nonneg _ _
  obtain ⟨m, e, packed, iff⟩ := @sfPack_right sign mant exp bit zero x
  rcases iff.mp right with ⟨-, rfl⟩ | ⟨least, -, rfl⟩
  · rw [abs_zero]
    exact scaled_nonneg _ _
  have leading : 2 ^ 23 ≤ m := packed.leading_of_smallest (large zero)
  have digits : 2 ^ 23 + m % 2 ^ 23 = m := by
    have := packed.short
    omega
  rw [abs_signed, abs_of_nonneg (scaled_nonneg _ _), digits]
  exact packed.cut

/-- A significand that is the integer part of a number of the format: the number is returned just when
nothing was cut off and the number is normal. -/
theorem sfPack_right_iff {x : ℚ} (held : single.Holds x) (positive : 0 < x)
    (low : scaled mant.toNat (exp - 23) ≤ x) (high : x < scaled (mant.toNat + 1) (exp - 23)) :
    Right (sfPack sign exp mant) (signed sign x) ↔ scaled mant.toNat (exp - 23) = x ∧ smallest ≤ x := by
  constructor
  · intro right
    have normal : smallest ≤ x := by
      rcases sfPack_normal bit right with zero | normal
      · rw [← signed_zero sign, signed_inj] at zero
        linarith
      · rwa [abs_signed, abs_of_pos positive] at normal
    refine ⟨le_antisymm low ?_, normal⟩
    by_cases large : mant ≠ 0 → smallest ≤ scaled mant.toNat (exp - 23)
    · have upper := sfPack_le bit right large
      rwa [abs_signed, abs_of_pos positive] at upper
    -- the pattern of a smaller number stands for the smallest normal one and that number together
    rw [Classical.not_imp, not_le] at large
    obtain ⟨nonzero, small⟩ := large
    have some : 1 ≤ mant.toNat := Nat.pos_of_ne_zero fun zero => nonzero (BitVec.eq_of_toNat_eq zero)
    have unit : scaled 1 (exp - 23) ≤ scaled mant.toNat (exp - 23) := (scaled_le_iff _).mpr some
    obtain ⟨m, e, packed, iff⟩ := @sfPack_right sign mant exp bit nonzero (signed sign x)
    have short := packed.short
    rcases iff.mp right with ⟨-, zero⟩ | ⟨least, -, equal⟩
    · rw [← signed_zero sign, signed_inj] at zero
      linarith
    have few : m < 2 ^ 23 := by
      by_contra many
      have : smallest ≤ scaled m (e - 23) := scaled_le_scaled (by omega) (by omega)
      linarith [packed.cut]
    have digits : m % 2 ^ 23 = m := Nat.mod_eq_of_lt few
    have same := packed.whole (.inl few)
    have bottom : e = -126 := by
      have := packed.leading
      omega
    rw [signed_inj, digits, scaled_add, same, bottom] at equal
    rw [scaled_add] at high
    have base : scaled (2 ^ 23) (-126 - 23) = smallest := rfl
    linarith
  · rintro ⟨rfl, normal⟩
    have nonzero : mant ≠ 0 := by
      rintro rfl
      simp [scaled] at positive
    obtain ⟨m, e, packed, iff⟩ := @sfPack_right sign mant exp bit nonzero
      (signed sign (scaled mant.toNat (exp - 23)))
    have same := packed.whole (.inr held)
    have short := packed.short
    have many : 2 ^ 23 ≤ m := packed.leading_of_smallest normal
    have digits : 2 ^ 23 + m % 2 ^ 23 = m := by omega
    have least : -126 ≤ e := by
      by_contra less
      have small : scaled m (e - 23) < smallest :=
        scaled_lt_of_leading short (Nat.le_refl _) (by omega)
      linarith
    have most : e ≤ 127 := by
      obtain ⟨n, d, shortOther, -, bounded, other⟩ := held
      have top : single.high = 104 := by decide
      by_contra more
      have less : scaled n d < scaled m (e - 23) := scaled_lt_of_leading shortOther many (by omega)
      linarith
    exact iff.mpr (.inr ⟨least, most, by rw [digits, same]⟩)

/-- A significand of the format is returned just when it is zero or normal. -/
theorem sfPack_exact_iff (held : single.Holds (scaled mant.toNat (exp - 23))) :
    Right (sfPack sign exp mant) (signed sign (scaled mant.toNat (exp - 23))) ↔
      scaled mant.toNat (exp - 23) = 0 ∨ smallest ≤ scaled mant.toNat (exp - 23) := by
  have unit : 0 < scaled 1 (exp - 23) := (scaled_pos_iff _).mpr (by decide)
  by_cases zero : mant = 0
  · subst zero
    have nothing : scaled (0 : Word).toNat (exp - 23) = 0 := scaled_zero _
    have right := (sfPack_zero bit exp (signed sign 0)).mpr (signed_zero sign)
    rw [nothing]
    exact iff_of_true right (.inl rfl)
  · have positive : 0 < scaled mant.toNat (exp - 23) :=
      (scaled_pos_iff _).mpr (Nat.pos_of_ne_zero fun none => zero (BitVec.eq_of_toNat_eq none))
    rw [sfPack_right_iff bit held positive (le_refl _) (by rw [scaled_add]; linarith)]
    exact ⟨fun both => .inr both.2, fun either => ⟨rfl, either.resolve_left (by linarith)⟩⟩

end

theorem right_unique {x y : ℚ} (first : Right p x) (second : Right p y) : x = y :=
  first.2.symm.trans second.2

/-! ## Sums -/

/-- A significand is cut to a larger exponent. -/
theorem scaled_cut {d e : Int} (less : d ≤ e) (n : Nat) :
    scaled (n / 2 ^ (e - d).toNat) e ≤ scaled n d ∧ scaled n d < scaled (n / 2 ^ (e - d).toNat + 1) e ∧
      (scaled (n / 2 ^ (e - d).toNat) e = scaled n d ↔ 2 ^ (e - d).toNat ∣ n) := by
  have power := Nat.two_pow_pos (e - d).toNat
  rw [scaled_lower less, scaled_lower less, scaled_le_iff, scaled_lt_iff, scaled_inj]
  refine ⟨Nat.div_mul_le_self _ _, ?_, ?_⟩
  · rw [Nat.add_mul, Nat.one_mul]
    have := Nat.div_add_mod' n (2 ^ (e - d).toNat)
    have := Nat.mod_lt n power
    omega
  · exact ⟨fun same => ⟨_, (same.symm.trans (Nat.mul_comm _ _))⟩, Nat.div_mul_cancel⟩

theorem Unpacks.mant_pos {x : ℚ} {u : Unpacked 32} (unpacks : Unpacks x u) (positive : 0 < x) :
    0 < u.mant.toNat := by
  rw [← scaled_pos_iff (u.exp - 23), ← unpacks.magnitude]
  exact positive

theorem Unpacks.holds {x : ℚ} {u : Unpacked 32} (unpacks : Unpacks x u) {n : Nat} (short : n < 2 ^ 24) :
    single.Holds (scaled n (u.exp - 23)) := by
  have low : single.low = -149 := by decide
  have high : single.high = 104 := by decide
  have := unpacks.least
  have := unpacks.most
  exact ⟨n, u.exp - 23, short, by omega, by omega, rfl⟩

theorem aligned_toNat {x y : Unpacked 32} (short : y.mant.toNat < 2 ^ 24) (order : y.exp ≤ x.exp) :
    (if 31 < x.exp - y.exp then 0 else y.mant >>> (x.exp - y.exp).toNat).toNat =
      y.mant.toNat / 2 ^ (x.exp - 23 - (y.exp - 23)).toNat := by
  have same : (x.exp - 23 - (y.exp - 23)).toNat = (x.exp - y.exp).toNat := by omega
  rw [same]
  split_ifs with far
  · have large : 2 ^ 24 ≤ 2 ^ (x.exp - y.exp).toNat := Nat.pow_le_pow_right (by decide) (by omega)
    exact (Nat.div_eq_of_lt (by omega)).symm
  · rw [toNat_shiftRight]

theorem sfAddAligned_right_iff {as bs : Word} {a b : ℚ} {x y : Unpacked 32} (bitA : as.toNat < 2)
    (bitB : bs.toNat < 2) (first : Unpacks a x) (second : Unpacks b y) (positiveA : 0 < a)
    (positiveB : 0 < b) (order : y.exp ≤ x.exp) (held : single.Holds |signed as a + signed bs b|) :
    Right (sfAddAligned as x bs y) (signed as a + signed bs b) ↔
      2 ^ (x.exp - 23 - (y.exp - 23)).toNat ∣ y.mant.toNat ∧
        (signed as a + signed bs b = 0 ∨ smallest ≤ |signed as a + signed bs b|) := by
  have shifted := aligned_toNat second.short order
  obtain ⟨cut, near, exact⟩ := scaled_cut (show y.exp - 23 ≤ x.exp - 23 by omega) y.mant.toNat
  rw [← second.magnitude] at cut near exact
  rw [← exact]
  unfold sfAddAligned
  simp only
  generalize (if 31 < x.exp - y.exp then 0 else y.mant >>> (x.exp - y.exp).toNat) = bm at *
  rw [← shifted] at cut near exact ⊢
  have alignedShort : bm.toNat < 2 ^ 24 := by
    have := second.short
    have := Nat.div_le_self y.mant.toNat (2 ^ (x.exp - 23 - (y.exp - 23)).toNat)
    omega
  have whole := first.short
  by_cases same : as = bs
  · subst same
    have sum : (x.mant + bm).toNat = x.mant.toNat + bm.toNat := BitVec.toNat_add_of_lt (by omega)
    rw [signed_add, abs_signed, abs_of_pos (by linarith)] at held
    rw [if_pos rfl, signed_add, abs_signed, abs_of_pos (by linarith)]
    rw [sfPack_right_iff bitA held (by linarith) (by rw [sum, scaled_add, ← first.magnitude]; linarith)
      (by rw [sum, Nat.add_assoc, scaled_add, ← first.magnitude]; linarith), sum, scaled_add,
      ← first.magnitude, add_right_inj, ← signed_zero as, signed_inj]
    exact and_congr_right fun _ => ⟨.inr, fun either => either.resolve_left (by linarith)⟩
  · obtain ⟨asFirst, asSecond⟩ := signed_opposite bitA bitB same a b
    rw [if_neg same]
    have closer : ¬ scaled bm.toNat (x.exp - 23) = b →
        y.exp < x.exp := fun lost => by
      by_contra far
      have none : (x.exp - 23 - (y.exp - 23)).toNat = 0 := by omega
      rw [exact, none] at lost
      exact lost (one_dvd _)
    have smaller : y.exp < x.exp → b < a ∧ bm.toNat < x.mant.toNat := fun far => by
      have leading : 2 ^ 23 ≤ x.mant.toNat := first.leading.resolve_right (by
        have := second.least
        omega)
      have below : b < a := by
        rw [first.magnitude, second.magnitude]
        exact scaled_lt_of_leading second.short leading (by omega)
      refine ⟨below, (scaled_lt_iff (x.exp - 23)).mp ?_⟩
      rw [← first.magnitude]
      linarith
    by_cases less : bm ≤ x.mant
    · have order : bm.toNat ≤ x.mant.toNat := less
      have difference : (x.mant - bm).toNat = x.mant.toNat - bm.toNat := BitVec.toNat_sub_of_le less
      have rest : scaled (x.mant - bm).toNat (x.exp - 23) = a - scaled bm.toNat (x.exp - 23) := by
        rw [first.magnitude, difference, eq_sub_iff_add_eq, ← scaled_add, Nat.sub_add_cancel order]
      have packed := @sfPack_exact_iff as (x.mant - bm) x.exp bitA (first.holds (by omega))
      rw [if_pos less, asFirst]
      rw [rest] at packed
      by_cases kept : scaled bm.toNat (x.exp - 23) = b
      · have nonneg : 0 ≤ a - b := by rw [← kept, ← rest]; exact scaled_nonneg _ _
        rw [abs_signed, abs_of_nonneg nonneg, ← signed_zero as, signed_inj, ← kept, packed]
        exact (and_iff_right rfl).symm
      refine iff_of_false (fun right => ?_) (fun both => kept both.1)
      obtain ⟨below, -⟩ := smaller (closer kept)
      have lost := lt_of_le_of_ne cut kept
      rcases sfPack_normal bitA right with zero | normal
      · rw [← signed_zero as, signed_inj] at zero
        linarith
      rw [abs_signed, abs_of_pos (by linarith)] at normal
      have other := right_unique right (packed.mpr (.inr (by linarith)))
      rw [signed_inj] at other
      linarith
    · have order : x.mant.toNat < bm.toNat := Nat.lt_of_not_le less
      have kept : scaled bm.toNat (x.exp - 23) = b := by
        by_contra lost
        have := (smaller (closer lost)).2
        omega
      have difference : (bm - x.mant).toNat = bm.toNat - x.mant.toNat :=
        BitVec.toNat_sub_of_le (Nat.le_of_lt order)
      have rest : scaled (bm - x.mant).toNat (x.exp - 23) = b - a := by
        rw [first.magnitude, ← kept, difference, eq_sub_iff_add_eq, ← scaled_add,
          Nat.sub_add_cancel (Nat.le_of_lt order)]
      have packed := @sfPack_exact_iff bs (bm - x.mant) x.exp bitB (first.holds (by omega))
      have nonneg : 0 ≤ b - a := by rw [← rest]; exact scaled_nonneg _ _
      rw [rest] at packed
      rw [if_neg less, asSecond, abs_signed, abs_of_nonneg nonneg, ← signed_zero bs, signed_inj, packed]
      exact (and_iff_right kept).symm

/-- No bit is lost where the number with the smaller exponent is aligned to the other. -/
def Aligned (a b : Word) : Prop :=
  if single.power a.toNat < single.power b.toNat then
    2 ^ (single.power b.toNat - single.power a.toNat).toNat ∣ single.significand a.toNat
  else 2 ^ (single.power a.toNat - single.power b.toNat).toNat ∣ single.significand b.toNat

theorem sfAbs_zero_iff (a : Word) : sfAbs a = 0 ↔ single.value a.toNat = 0 := by
  have bits : sfAbs a = 0 ↔ a.toNat % 2 ^ 31 = 0 := by
    rw [← BitVec.toNat_inj, sfAbs, BitVec.toNat_and]
    exact Iff.of_eq (congrArg (· = 0) (Nat.and_two_pow_sub_one_eq_mod a.toNat 31))
  have fraction : single.fractionOf a.toNat = a.toNat % 2 ^ 23 := rfl
  have exponent : single.exponentOf a.toNat = a.toNat / 2 ^ 23 % 2 ^ 8 := rfl
  have zero : single.value a.toNat = 0 ↔ single.significand a.toNat = 0 := by
    rw [← abs_eq_zero, abs_value]
    exact scaled_eq_zero_iff _
  rw [bits, zero, significand_eq]
  split_ifs <;> omega

theorem magnitude_pos {a : Word} (nonzero : ¬ sfAbs a = 0) : 0 < single.magnitude a.toNat := by
  rw [← abs_value, abs_pos]
  exact fun zero => nonzero ((sfAbs_zero_iff a).mpr zero)

theorem sfExp_ne {a : Word} (finite : single.Finite a.toNat) : ¬ sfExp a = 255 := by
  intro special
  have field := congrArg BitVec.toNat special
  rw [sfExp_toNat] at field
  exact finite field

/-- The number that is the exact sum is returned if an operand is zero, or if no bit is lost in the
alignment and the sum is zero or normal. -/
def SumKept (a b : Word) (x : ℚ) : Prop :=
  single.value a.toNat = 0 ∨ single.value b.toNat = 0 ∨ Aligned a b ∧ (x = 0 ∨ smallest ≤ |x|)

theorem addsf3_right_iff {a b : Word} (finiteA : single.Finite a.toNat) (finiteB : single.Finite b.toNat)
    (held : single.Holds |single.value a.toNat + single.value b.toNat|) :
    Right (addsf3 a b) (single.value a.toNat + single.value b.toNat) ↔
      SumKept a b (single.value a.toNat + single.value b.toNat) := by
  unfold addsf3 SumKept
  by_cases zeroA : sfAbs a = 0
  · have none := (sfAbs_zero_iff a).mp zeroA
    rw [if_pos zeroA, none, zero_add]
    exact iff_of_true ⟨finiteB, rfl⟩ (.inl rfl)
  by_cases zeroB : sfAbs b = 0
  · have none := (sfAbs_zero_iff b).mp zeroB
    rw [if_neg zeroA, if_pos zeroB, none, add_zero]
    exact iff_of_true ⟨finiteA, rfl⟩ (.inr (.inl rfl))
  rw [if_neg zeroA, if_neg zeroB, if_neg (sfExp_ne finiteA), if_neg (sfExp_ne finiteB),
    ← sfAbs_zero_iff, ← sfAbs_zero_iff, or_iff_right zeroA, or_iff_right zeroB]
  have unpacksA := sfUnpack_unpacks finiteA
  have unpacksB := sfUnpack_unpacks finiteB
  rw [value_eq a, value_eq b] at held ⊢
  unfold Aligned
  rw [← sfUnpack_exp, ← sfUnpack_exp, ← sfUnpack_mant, ← sfUnpack_mant]
  simp only [Int.sub_lt_sub_right_iff]
  by_cases swap : (sfUnpack a).exp < (sfUnpack b).exp
  · rw [if_pos swap, if_pos swap, add_comm] at *
    exact sfAddAligned_right_iff (sfSign_lt b) (sfSign_lt a) unpacksB unpacksA (magnitude_pos zeroB)
      (magnitude_pos zeroA) (by omega) held
  · rw [if_neg swap, if_neg swap]
    exact sfAddAligned_right_iff (sfSign_lt a) (sfSign_lt b) unpacksA unpacksB (magnitude_pos zeroA)
      (magnitude_pos zeroB) (by omega) held

theorem subsf3_right_iff {a b : Word} (finiteA : single.Finite a.toNat) (finiteB : single.Finite b.toNat)
    (held : single.Holds |single.value a.toNat - single.value b.toNat|) :
    Right (subsf3 a b) (single.value a.toNat - single.value b.toNat) ↔
      SumKept a b (single.value a.toNat - single.value b.toNat) := by
  have pattern : (b ^^^ 2147483648).toNat = b.toNat ^^^ 2 ^ (single.fraction + single.exponent) :=
    BitVec.toNat_xor b 2147483648
  obtain ⟨fraction, exponent, -⟩ := @fields_flip single b.toNat
  have opposite := @value_flip single b.toNat (by rw [← sfSign_toNat]; exact sfSign_lt b)
  have finite : single.Finite (b ^^^ 2147483648).toNat := by
    rw [pattern, Format.Finite, exponent]
    exact finiteB
  have aligned : Aligned a (b ^^^ 2147483648) ↔ Aligned a b := by
    unfold Aligned Format.power Format.significand
    rw [pattern, fraction, exponent]
  have sum := @addsf3_right_iff a (b ^^^ 2147483648) finiteA finite
  unfold SumKept at sum ⊢
  rw [aligned, pattern, opposite, ← sub_eq_add_neg, neg_eq_zero] at sum
  exact sum held

/-! ## Products -/

/-- The integer part of a number of the format by a power of two is packed. -/
theorem sfPack_cut_iff {d : Int} {n k : Nat} (bit : sign.toNat < 2) (positive : 0 < n)
    (cut : mant.toNat = n / 2 ^ k) (power : exp - 23 = d + k) (held : single.Holds (scaled n d)) :
    Right (sfPack sign exp mant) (signed sign (scaled n d)) ↔ 2 ^ k ∣ n ∧ smallest ≤ scaled n d := by
  have shift : (exp - 23 - d).toNat = k := by omega
  obtain ⟨low, high, exact⟩ := scaled_cut (show d ≤ exp - 23 by omega) n
  rw [shift, ← cut] at low high exact
  rw [sfPack_right_iff bit held ((scaled_pos_iff d).mpr positive) low high, exact]

theorem product_right_iff {a b : ℚ} {x y : Unpacked 32} (bit : sign.toNat < 2) (first : Unpacks a x)
    (second : Unpacks b y) (positiveA : 0 < a) (positiveB : 0 < b) (held : single.Holds (a * b)) :
    Right (if (x.mant.setWidth 64 * y.mant.setWidth 64) >>> 47 ≠ 0 then
        sfPack sign (x.exp + y.exp + 1) (((x.mant.setWidth 64 * y.mant.setWidth 64) >>> 24).setWidth 32)
      else sfPack sign (x.exp + y.exp) (((x.mant.setWidth 64 * y.mant.setWidth 64) >>> 23).setWidth 32))
        (signed sign (a * b)) ↔
      2 ^ 23 ∣ x.mant.toNat * y.mant.toNat ∧ smallest ≤ a * b := by
  have exact : a * b = scaled (x.mant.toNat * y.mant.toNat) (x.exp - 23 + (y.exp - 23)) := by
    rw [first.magnitude, second.magnitude, scaled_mul]
  have some : 0 < x.mant.toNat * y.mant.toNat := by
    rw [← scaled_pos_iff (x.exp - 23 + (y.exp - 23)), ← exact]
    exact mul_pos positiveA positiveB
  have bound : x.mant.toNat * y.mant.toNat < 2 ^ 24 * 2 ^ 24 :=
    Nat.mul_lt_mul'' first.short second.short
  have prod : (x.mant.setWidth 64 * y.mant.setWidth 64).toNat = x.mant.toNat * y.mant.toNat := by
    have shortX := first.short
    have shortY := second.short
    rw [BitVec.toNat_mul, BitVec.toNat_setWidth, BitVec.toNat_setWidth,
      Nat.mod_eq_of_lt (show x.mant.toNat < 2 ^ 64 by omega),
      Nat.mod_eq_of_lt (show y.mant.toNat < 2 ^ 64 by omega), Nat.mod_eq_of_lt (by omega)]
  generalize x.mant.setWidth 64 * y.mant.setWidth 64 = p at *
  rw [exact] at held ⊢
  have cut (k : Nat) (far : 23 ≤ k) : ((p >>> k).setWidth 32).toNat =
      x.mant.toNat * y.mant.toNat / 2 ^ k := by
    have most : x.mant.toNat * y.mant.toNat / 2 ^ k ≤ x.mant.toNat * y.mant.toNat / 2 ^ 23 :=
      Nat.div_le_div_left (Nat.pow_le_pow_right (by decide) far) (by decide)
    rw [BitVec.toNat_setWidth, toNat_shiftRight, prod, Nat.mod_eq_of_lt (by omega)]
  have test : p >>> 47 ≠ 0 ↔ 2 ^ 47 ≤ x.mant.toNat * y.mant.toNat := by
    rw [ne_eq, ← BitVec.toNat_inj, toNat_shiftRight, prod]
    show ¬ _ = 0 ↔ _
    omega
  simp only [test]
  split_ifs with large
  · have divides : 2 ^ 24 ∣ x.mant.toNat * y.mant.toNat := dvd_of_holds held large
    rw [sfPack_cut_iff bit some (cut 24 (by decide)) (by omega) held]
    exact and_congr_left fun _ =>
      iff_of_true divides (Nat.dvd_trans (Nat.pow_dvd_pow 2 (by decide)) divides)
  · exact sfPack_cut_iff bit some (cut 23 (by decide)) (by omega) held

theorem mulsf3_right_iff {a b : Word} (finiteA : single.Finite a.toNat) (finiteB : single.Finite b.toNat)
    (held : single.Holds |single.value a.toNat * single.value b.toNat|) :
    Right (mulsf3 a b) (single.value a.toNat * single.value b.toNat) ↔
      single.value a.toNat = 0 ∨ single.value b.toNat = 0 ∨
        2 ^ 23 ∣ single.significand a.toNat * single.significand b.toNat ∧
          smallest ≤ |single.value a.toNat * single.value b.toNat| := by
  obtain ⟨product, bit⟩ := signed_mul (sfSign_lt a) (sfSign_lt b) (single.magnitude a.toNat)
    (single.magnitude b.toNat)
  unfold mulsf3
  simp only
  by_cases zero : sfAbs a = 0 ∨ sfAbs b = 0
  · rw [if_pos zero]
    have none : single.value a.toNat * single.value b.toNat = 0 := by
      rw [sfAbs_zero_iff, sfAbs_zero_iff] at zero
      exact mul_eq_zero.mpr zero
    rw [none, ← or_assoc]
    rw [sfAbs_zero_iff, sfAbs_zero_iff] at zero
    exact iff_of_true ((sfPack_zero bit 0 0).mpr rfl) (.inl zero)
  rw [if_neg zero, if_neg (sfExp_ne finiteA), if_neg (sfExp_ne finiteB)]
  rw [not_or] at zero
  rw [← sfAbs_zero_iff, ← sfAbs_zero_iff, or_iff_right zero.1, or_iff_right zero.2]
  have unpacksA := sfUnpack_unpacks finiteA
  have unpacksB := sfUnpack_unpacks finiteB
  rw [value_eq a, value_eq b, product] at held ⊢
  have positive := mul_pos (magnitude_pos zero.1) (magnitude_pos zero.2)
  rw [abs_signed, abs_of_pos positive] at held
  rw [← sfUnpack_mant, ← sfUnpack_mant, abs_signed, abs_of_pos positive]
  exact product_right_iff bit unpacksA unpacksB (magnitude_pos zero.1) (magnitude_pos zero.2) held

/-! ## Quotients -/

/-- A divisor of few bits needs no more twos than it has bits. -/
theorem dvd_mul_two_pow {n a k t : Nat} (positive : 0 < n) (short : n < 2 ^ (k + 1))
    (divides : n ∣ a * 2 ^ t) : n ∣ a * 2 ^ k := by
  obtain ⟨j, odd, isOdd, rfl⟩ := Nat.exists_eq_two_pow_mul_odd (Nat.ne_of_gt positive)
  have oddDivides : odd ∣ a :=
    (Nat.Coprime.pow_right t isOdd.coprime_two_right).dvd_of_dvd_mul_right
      (Nat.dvd_trans (Nat.dvd_mul_left odd (2 ^ j)) divides)
  have few : j ≤ k := by
    have power : 2 ^ j < 2 ^ (k + 1) :=
      Nat.lt_of_le_of_lt (Nat.le_mul_of_pos_right _ (Nat.pos_of_mul_pos_left positive)) short
    exact Nat.lt_succ_iff.mp ((Nat.pow_lt_pow_iff_right (by decide)).mp power)
  rw [Nat.mul_comm a]
  exact Nat.mul_dvd_mul (Nat.pow_dvd_pow 2 few) oddDivides

section

variable {a b : ℚ} {x y : Unpacked 32} (first : Unpacks a x) (second : Unpacks b y) (positiveB : 0 < b)

include first second positiveB

/-- How a quotient lies to the numbers of its last place. -/
theorem quotient_compare (n : Nat) :
    (scaled n (x.exp - y.exp - 23) ≤ a / b ↔ n * y.mant.toNat ≤ x.mant.toNat * 2 ^ 23) ∧
      (a / b ≤ scaled n (x.exp - y.exp - 23) ↔ x.mant.toNat * 2 ^ 23 ≤ n * y.mant.toNat) := by
  have product : scaled n (x.exp - y.exp - 23) * b = scaled (n * y.mant.toNat) (x.exp - 46) := by
    rw [second.magnitude, scaled_mul]
    congr 1
    omega
  have dividend : a = scaled (x.mant.toNat * 2 ^ 23) (x.exp - 46) := by
    rw [first.magnitude, scaled_shift]
    congr 1
    omega
  rw [le_div_iff₀ positiveB, div_le_iff₀ positiveB, product, dividend, scaled_le_iff, scaled_le_iff]
  exact ⟨Iff.rfl, Iff.rfl⟩

/-- A quotient that is a number of the format has no more than 23 bits after the point. -/
theorem quotient_dvd (held : single.Holds (a / b)) : y.mant.toNat ∣ x.mant.toNat * 2 ^ 23 := by
  obtain ⟨m, d, -, -, -, same⟩ := held
  have some := second.mant_pos positiveB
  have equal : scaled x.mant.toNat (x.exp - 23) = scaled (m * y.mant.toNat) (d + (y.exp - 23)) := by
    rw [← scaled_mul, ← same, ← second.magnitude, ← first.magnitude, div_mul_cancel₀ _ (ne_of_gt positiveB)]
  refine @dvd_mul_two_pow _ _ 23 (x.exp - 23 - (d + (y.exp - 23))).toNat some second.short ?_
  rcases Int.le_total (d + (y.exp - 23)) (x.exp - 23) with less | more
  · rw [scaled_lower less, scaled_inj] at equal
    rw [equal]
    exact Nat.dvd_mul_left _ _
  · rw [scaled_lower more, scaled_inj] at equal
    rw [equal, Nat.mul_assoc, Nat.mul_assoc]
    exact Dvd.dvd.mul_left (Nat.dvd_mul_right _ _) _

theorem quotient_right_iff (bit : sign.toNat < 2) (positiveA : 0 < a) (held : single.Holds (a / b)) :
    Right (sfPack sign (x.exp - y.exp)
        (((x.mant.setWidth 64 <<< 23) / y.mant.setWidth 64).setWidth 32)) (signed sign (a / b)) ↔
      x.mant.toNat < 2 ^ 9 * y.mant.toNat ∧ smallest ≤ a / b := by
  have shortX := first.short
  have shortY := second.short
  have some := second.mant_pos positiveB
  have positive : 0 < a / b := div_pos positiveA positiveB
  have wideX : (x.mant.setWidth 64).toNat = x.mant.toNat := BitVec.toNat_setWidth_of_le (by decide)
  have wideY : (y.mant.setWidth 64).toNat = y.mant.toNat := BitVec.toNat_setWidth_of_le (by decide)
  have mant : (((x.mant.setWidth 64 <<< 23) / y.mant.setWidth 64).setWidth 32).toNat =
      x.mant.toNat * 2 ^ 23 / y.mant.toNat % 2 ^ 32 := by
    rw [BitVec.toNat_setWidth, BitVec.toNat_udiv, toNat_shiftLeft (by omega), wideX, wideY]
  have fits : x.mant.toNat < 2 ^ 9 * y.mant.toNat ↔ x.mant.toNat * 2 ^ 23 / y.mant.toNat < 2 ^ 32 := by
    rw [Nat.div_lt_iff_lt_mul some]
    omega
  rw [fits]
  generalize ((x.mant.setWidth 64 <<< 23) / y.mant.setWidth 64).setWidth 32 = q at *
  by_cases small : x.mant.toNat * 2 ^ 23 / y.mant.toNat < 2 ^ 32
  · rw [Nat.mod_eq_of_lt small] at mant
    have whole := Nat.div_mul_cancel (quotient_dvd first second positiveB held)
    have equal : scaled q.toNat (x.exp - y.exp - 23) = a / b := by
      obtain ⟨low, high⟩ := quotient_compare first second positiveB q.toNat
      rw [mant, whole] at low high
      rw [mant]
      exact le_antisymm (low.mpr (Nat.le_refl _)) (high.mpr (Nat.le_refl _))
    have unit : 0 < scaled 1 (x.exp - y.exp - 23) := (scaled_pos_iff _).mpr (by decide)
    rw [sfPack_right_iff bit held positive (le_of_eq equal) (by rw [scaled_add]; linarith)]
    exact and_congr_left fun _ => iff_of_true equal small
  · -- the quotient does not fit a word, so that the divisor is below the normal numbers
    refine iff_of_false (fun right => ?_) (fun both => small both.1)
    have part : q.toNat < x.mant.toNat * 2 ^ 23 / y.mant.toNat := by omega
    have below : scaled q.toNat (x.exp - y.exp - 23) < a / b := by
      obtain ⟨low, -⟩ := quotient_compare first second positiveB (x.mant.toNat * 2 ^ 23 / y.mant.toNat)
      exact lt_of_lt_of_le ((scaled_lt_iff _).mpr part) (low.mpr (Nat.div_mul_le_self _ _))
    have tiny : y.exp = -126 := second.leading.resolve_left (by
      intro normal
      have most : x.mant.toNat * 2 ^ 23 / y.mant.toNat ≤ x.mant.toNat * 2 ^ 23 / 2 ^ 23 :=
        Nat.div_le_div_left normal (by decide)
      omega)
    have least := first.least
    have upper := sfPack_le bit right fun nonzero => by
      have one : 1 ≤ q.toNat := Nat.pos_of_ne_zero fun zero => nonzero (BitVec.eq_of_toNat_eq zero)
      rw [smallest_eq]
      exact scaled_le_scaled one (by omega)
    rw [abs_signed, abs_of_pos positive] at upper
    linarith

end

theorem divsf3_right_iff {a b : Word} (finiteA : single.Finite a.toNat) (finiteB : single.Finite b.toNat)
    (divisor : single.value b.toNat ≠ 0)
    (held : single.Holds |single.value a.toNat / single.value b.toNat|) :
    Right (divsf3 a b) (single.value a.toNat / single.value b.toNat) ↔
      single.value a.toNat = 0 ∨ single.significand a.toNat < 2 ^ 9 * single.significand b.toNat ∧
        smallest ≤ |single.value a.toNat / single.value b.toNat| := by
  have bit := (signed_mul (sfSign_lt a) (sfSign_lt b) 0 0).2
  have nonzeroB : ¬ sfAbs b = 0 := fun zero => divisor ((sfAbs_zero_iff b).mp zero)
  unfold divsf3
  simp only
  rw [if_neg nonzeroB]
  by_cases zero : sfAbs a = 0
  · have none := (sfAbs_zero_iff a).mp zero
    rw [if_pos zero, none, zero_div]
    exact iff_of_true ((sfPack_zero bit 0 0).mpr rfl) (.inl rfl)
  rw [if_neg zero, if_neg (sfExp_ne finiteA), if_neg (sfExp_ne finiteB), ← sfAbs_zero_iff,
    or_iff_right zero]
  have positive := div_pos (magnitude_pos zero) (magnitude_pos nonzeroB)
  rw [value_eq a, value_eq b, signed_div (sfSign_lt a) (sfSign_lt b), abs_signed, abs_of_pos positive]
    at held ⊢
  rw [← sfUnpack_mant, ← sfUnpack_mant]
  exact quotient_right_iff (sfUnpack_unpacks finiteA) (sfUnpack_unpacks finiteB) (magnitude_pos nonzeroB)
    bit (magnitude_pos zero) held

/-! ## Unpacking and packing -/

theorem repacked_iff {a : Word} (finite : single.Finite a.toNat) :
    sfPack (sfSign a) (sfUnpack a).exp (sfUnpack a).mant = a ↔
      single.value a.toNat = 0 ∨ smallest ≤ |single.value a.toNat| := by
  constructor
  · intro same
    exact sfPack_normal (sfSign_lt a) (same.symm ▸ ⟨finite, rfl⟩ :
      Right (sfPack (sfSign a) (sfUnpack a).exp (sfUnpack a).mant) (single.value a.toNat))
  · intro normal
    have mant := sfUnpack_mant a
    have exp := sfUnpack_exp a
    have unpacks := sfUnpack_unpacks finite
    have fraction : single.fractionOf a.toNat < 2 ^ 23 := Nat.mod_lt _ (by decide)
    have low : single.low = -149 := by decide
    rw [Format.power, low] at exp
    rw [significand_eq] at mant
    refine BitVec.eq_of_toNat_eq ?_
    by_cases zero : (sfUnpack a).mant = 0
    · have pattern : (sfPack (sfSign a) (sfUnpack a).exp 0).toNat = _ := zero_toNat (sfSign_lt a)
      rw [zero] at mant ⊢
      have none : (0 : Word).toNat = 0 := rfl
      rw [none] at mant
      conv_rhs => rw [← @encode_fields single a.toNat]
      rw [pattern, ← sfSign_toNat]
      split_ifs at mant with field
      · rw [field, ← mant]
      · omega
    · obtain ⟨m, e, packed, cases⟩ := @sfPack_spec (sfSign a) (sfUnpack a).mant (sfUnpack a).exp
        (sfSign_lt a) zero
      have large : smallest ≤ scaled (sfUnpack a).mant.toNat ((sfUnpack a).exp - 23) := by
        rw [abs_value, unpacks.magnitude] at normal
        refine normal.resolve_left fun none => zero (BitVec.eq_of_toNat_eq ?_)
        rw [← abs_eq_zero, abs_value, unpacks.magnitude, scaled_eq_zero_iff] at none
        exact none
      have same := packed.whole (.inr (unpacks.magnitude ▸ holds_magnitude finite))
      have short := packed.short
      have shortMant := unpacks.short
      have leading : 2 ^ 23 ≤ m := packed.leading_of_smallest large
      have leadingMant : 2 ^ 23 ≤ (sfUnpack a).mant.toNat := by
        by_contra few
        have bottom := unpacks.leading.resolve_left few
        have less : scaled (sfUnpack a).mant.toNat ((sfUnpack a).exp - 23) < smallest :=
          scaled_lt_scaled (by omega) (by omega)
        linarith
      have sameExp : e = (sfUnpack a).exp := by
        rcases Int.lt_trichotomy e (sfUnpack a).exp with less | equal | more
        · have := scaled_lt_of_leading short leadingMant (show e - 23 < (sfUnpack a).exp - 23 by omega)
          linarith
        · exact equal
        · have := scaled_lt_of_leading shortMant leading (show (sfUnpack a).exp - 23 < e - 23 by omega)
          linarith
      rw [sameExp, scaled_inj] at same
      have least := unpacks.least
      have most := unpacks.most
      rcases cases with ⟨above, -⟩ | ⟨below, -⟩ | ⟨-, -, pattern⟩
      · omega
      · omega
      · have field : single.exponentOf a.toNat ≠ 0 := fun none => by
          rw [if_pos none] at mant
          omega
        rw [if_neg field] at mant
        conv_rhs => rw [← @encode_fields single a.toNat]
        rw [pattern, ← sfSign_toNat]
        congr 1
        · omega
        · omega

/-! ## All operations -/

theorem holds_of_right {x : ℚ} (right : Right p x) : single.Holds |x| := by
  rw [← right.2, abs_value]
  exact holds_magnitude right.1

/-- For two numbers and each operation whose exact result is a `float`, the result is returned just when
no bit was cut off and the result is zero or normal; and a pattern that is unpacked and packed is
unchanged just when it is that of zero or of a normal number. -/
theorem exact_results_iff {a b : Word} (finiteA : single.Finite a.toNat)
    (finiteB : single.Finite b.toNat) :
    ((∃ p, Right p (single.value a.toNat + single.value b.toNat)) →
      (Right (addsf3 a b) (single.value a.toNat + single.value b.toNat) ↔
        SumKept a b (single.value a.toNat + single.value b.toNat))) ∧
    ((∃ p, Right p (single.value a.toNat - single.value b.toNat)) →
      (Right (subsf3 a b) (single.value a.toNat - single.value b.toNat) ↔
        SumKept a b (single.value a.toNat - single.value b.toNat))) ∧
    ((∃ p, Right p (single.value a.toNat * single.value b.toNat)) →
      (Right (mulsf3 a b) (single.value a.toNat * single.value b.toNat) ↔
        single.value a.toNat = 0 ∨ single.value b.toNat = 0 ∨
          2 ^ 23 ∣ single.significand a.toNat * single.significand b.toNat ∧
            smallest ≤ |single.value a.toNat * single.value b.toNat|)) ∧
    (single.value b.toNat ≠ 0 → (∃ p, Right p (single.value a.toNat / single.value b.toNat)) →
      (Right (divsf3 a b) (single.value a.toNat / single.value b.toNat) ↔
        single.value a.toNat = 0 ∨ single.significand a.toNat < 2 ^ 9 * single.significand b.toNat ∧
          smallest ≤ |single.value a.toNat / single.value b.toNat|)) ∧
    (sfPack (sfSign a) (sfUnpack a).exp (sfUnpack a).mant = a ↔
      single.value a.toNat = 0 ∨ smallest ≤ |single.value a.toNat|) :=
  ⟨fun ⟨_, right⟩ => addsf3_right_iff finiteA finiteB (holds_of_right right),
    fun ⟨_, right⟩ => subsf3_right_iff finiteA finiteB (holds_of_right right),
    fun ⟨_, right⟩ => mulsf3_right_iff finiteA finiteB (holds_of_right right),
    fun divisor ⟨_, right⟩ => divsf3_right_iff finiteA finiteB divisor (holds_of_right right),
    repacked_iff finiteA⟩

/-- The sum of 1.5 and 0.25 is returned. -/
theorem exact_results_quarters : Right (addsf3 0x3fc00000 0x3e800000) (7 / 4) := by
  have sum : single.value (0x3fc00000 : Word).toNat + single.value (0x3e800000 : Word).toNat = 7 / 4 := by
    decide +kernel
  rw [← sum]
  refine ((@exact_results_iff 0x3fc00000 0x3e800000 (by decide) (by decide)).1 ⟨0x3fe00000, by decide, ?_⟩).mpr
    (.inr (.inr ⟨?_, .inr ?_⟩))
  · decide +kernel
  · unfold Aligned
    decide
  · decide +kernel

/-- The smallest number comes back from unpacking and packing as another one, and with it twice itself is
not what its sum with itself gives. The difference of 1 and the number before it is returned as twice
what it is. -/
theorem results_inexact :
    sfPack (sfSign 1) (sfUnpack 1).exp (sfUnpack 1).mant = 0x00800001 ∧
      single.value (1 : Word).toNat + single.value (1 : Word).toNat = single.value (2 : Word).toNat ∧
      addsf3 1 1 = 0x00800002 ∧
      single.value (0x3f800000 : Word).toNat - single.value (0x3f7fffff : Word).toNat =
        single.value (0x33800000 : Word).toNat ∧
      subsf3 0x3f800000 0x3f7fffff = 0x34000000 := by
  decide +kernel

end JsEmulator.Toolchain.SinglePrecision
