import Mathlib.Algebra.Order.Field.Power
import Mathlib.Algebra.Order.Field.Rat
import Mathlib.Tactic.Linarith
import Mathlib.Tactic.Positivity
import Mathlib.Tactic.Ring

/-!
# Binary floating-point formats

A number of a format is a significand of some bits times a power of two. Its pattern holds a sign, an
exponent and the bits of the significand after the first, which is left out where the exponent is not
zero. Rounding an exact number takes the nearest number of the format and in a tie the one whose
pattern is even; beyond a threshold it gives an infinity.
-/

namespace JsEmulator.Library.Floats

/-! ## Powers of two -/

/-- A natural number times a power of two. -/
def scaled (m : Nat) (e : Int) : ℚ := m * 2 ^ e

theorem scaled_shift (m k : Nat) (e : Int) : scaled (m * 2 ^ k) e = scaled m (e + k) := by
  unfold scaled
  rw [zpow_add₀ (by norm_num), zpow_natCast, Nat.cast_mul, Nat.cast_pow, Nat.cast_ofNat]
  ring

theorem scaled_double (m : Nat) (e : Int) : scaled (m * 2) e = scaled m (e + 1) := scaled_shift m 1 e

theorem scaled_add (m n : Nat) (e : Int) : scaled (m + n) e = scaled m e + scaled n e := by
  unfold scaled
  rw [Nat.cast_add, add_mul]

theorem scaled_mul (m n : Nat) (d e : Int) : scaled m d * scaled n e = scaled (m * n) (d + e) := by
  unfold scaled
  rw [zpow_add₀ (by norm_num), Nat.cast_mul]
  ring

theorem scaled_nonneg (m : Nat) (e : Int) : 0 ≤ scaled m e := by
  unfold scaled
  positivity

variable {n m : Nat} {e : Int}

theorem scaled_lt_iff (e : Int) : scaled m e < scaled n e ↔ m < n := by
  unfold scaled
  rw [mul_lt_mul_iff_left₀ (by positivity), Nat.cast_lt]

theorem scaled_le_iff (e : Int) : scaled m e ≤ scaled n e ↔ m ≤ n := by
  unfold scaled
  rw [mul_le_mul_iff_left₀ (by positivity), Nat.cast_le]

theorem scaled_inj (e : Int) : scaled m e = scaled n e ↔ m = n := by
  rw [le_antisymm_iff, scaled_le_iff, scaled_le_iff, ← Nat.le_antisymm_iff]

theorem scaled_zero (e : Int) : scaled 0 e = 0 := by
  simp [scaled]

theorem scaled_eq_zero_iff (e : Int) : scaled m e = 0 ↔ m = 0 := by
  rw [← scaled_zero e]
  exact scaled_inj e

theorem scaled_pos_iff (e : Int) : 0 < scaled m e ↔ 0 < m := by
  rw [← scaled_zero e]
  exact scaled_lt_iff e

/-- A larger exponent is made up by a factor. -/
theorem scaled_lower {d : Int} (less : d ≤ e) (m : Nat) : scaled m e = scaled (m * 2 ^ (e - d).toNat) d := by
  rw [scaled_shift]
  congr 1
  omega

theorem scaled_lt_scaled {d : Int} (fewer : m < n) (less : d ≤ e) : scaled m d < scaled n e := by
  rw [scaled_lower less, scaled_lt_iff]
  exact Nat.lt_of_lt_of_le fewer (Nat.le_mul_of_pos_right n (Nat.two_pow_pos _))

theorem scaled_le_scaled {d : Int} (fewer : m ≤ n) (less : d ≤ e) : scaled m d ≤ scaled n e := by
  rw [scaled_lower less, scaled_le_iff]
  exact Nat.le_trans fewer (Nat.le_mul_of_pos_right n (Nat.two_pow_pos _))

/-- A significand that begins with a one is bound to its exponent. -/
theorem scaled_lt_of_leading {k : Nat} {d : Int} (short : m < 2 ^ (k + 1)) (leading : 2 ^ k ≤ n)
    (less : d < e) : scaled m d < scaled n e := by
  calc scaled m d < scaled (2 ^ k * 2) (e - 1) := scaled_lt_scaled short (by omega)
    _ = scaled (2 ^ k) e := by rw [scaled_double, Int.sub_add_cancel]
    _ ≤ scaled n e := (scaled_le_iff e).mpr leading

/-! ## Formats -/

/-- How many bits the exponent and the fraction of a pattern have. -/
structure Format where
  exponent : Nat
  fraction : Nat
  wide : 2 ≤ exponent := by decide

namespace Format

variable (F : Format)

/-- The power of two of the last bit of the smallest numbers. -/
def low : Int := 2 - 2 ^ (F.exponent - 1) - F.fraction

/-- The power of two of the last bit of the largest numbers. -/
def high : Int := F.low + 2 ^ F.exponent - 3

/-- A pattern with a sign, an exponent and a fraction. -/
def encode (sign exponent fraction : Nat) : Nat :=
  (sign * 2 ^ F.exponent + exponent) * 2 ^ F.fraction + fraction

def fractionOf (n : Nat) : Nat := n % 2 ^ F.fraction

def exponentOf (n : Nat) : Nat := n / 2 ^ F.fraction % 2 ^ F.exponent

def signOf (n : Nat) : Nat := n / 2 ^ F.fraction / 2 ^ F.exponent

/-- A pattern that is a number. -/
def Finite (n : Nat) : Prop := F.exponentOf n ≠ 2 ^ F.exponent - 1

instance (n : Nat) : Decidable (F.Finite n) :=
  inferInstanceAs (Decidable (F.exponentOf n ≠ 2 ^ F.exponent - 1))

/-- The significand of a pattern. -/
def significand (n : Nat) : Nat :=
  if F.exponentOf n = 0 then F.fractionOf n else 2 ^ F.fraction + F.fractionOf n

/-- The power of two of the last bit of the significand. -/
def power (n : Nat) : Int := F.low + (max (F.exponentOf n) 1 - 1 : Nat)

def magnitude (n : Nat) : ℚ := scaled (F.significand n) (F.power n)

/-- The number that a pattern stands for. -/
def value (n : Nat) : ℚ := if F.signOf n = 0 then F.magnitude n else -F.magnitude n

/-- The magnitude of a number of the format. -/
def Holds (x : ℚ) : Prop :=
  ∃ m e, m < 2 ^ (F.fraction + 1) ∧ F.low ≤ e ∧ e ≤ F.high ∧ x = scaled m e

end Format

variable {F : Format}

theorem fields_encode {sign exponent fraction : Nat} (shortFraction : fraction < 2 ^ F.fraction)
    (shortExponent : exponent < 2 ^ F.exponent) :
    F.fractionOf (F.encode sign exponent fraction) = fraction ∧
      F.exponentOf (F.encode sign exponent fraction) = exponent ∧
      F.signOf (F.encode sign exponent fraction) = sign := by
  have high : F.encode sign exponent fraction / 2 ^ F.fraction = sign * 2 ^ F.exponent + exponent := by
    rw [Format.encode, Nat.mul_comm, Nat.mul_add_div (Nat.two_pow_pos _), Nat.div_eq_of_lt shortFraction,
      Nat.add_zero]
  refine ⟨?_, ?_, ?_⟩
  · rw [Format.fractionOf, Format.encode, Nat.mul_comm, Nat.mul_add_mod, Nat.mod_eq_of_lt shortFraction]
  · rw [Format.exponentOf, high, Nat.mul_comm, Nat.mul_add_mod, Nat.mod_eq_of_lt shortExponent]
  · rw [Format.signOf, high, Nat.mul_comm, Nat.mul_add_div (Nat.two_pow_pos _),
      Nat.div_eq_of_lt shortExponent, Nat.add_zero]

theorem encode_fields (n : Nat) : F.encode (F.signOf n) (F.exponentOf n) (F.fractionOf n) = n := by
  unfold Format.encode Format.signOf Format.exponentOf Format.fractionOf
  rw [Nat.div_add_mod', Nat.div_add_mod']

theorem magnitude_encode {sign exponent fraction : Nat} (shortFraction : fraction < 2 ^ F.fraction)
    (normal : 0 < exponent) (shortExponent : exponent < 2 ^ F.exponent) :
    F.magnitude (F.encode sign exponent fraction) =
      scaled (2 ^ F.fraction + fraction) (F.low + exponent - 1) := by
  obtain ⟨fractionField, exponentField, -⟩ := @fields_encode F sign _ _ shortFraction shortExponent
  rw [Format.magnitude, Format.significand, Format.power, fractionField, exponentField,
    if_neg (by omega)]
  congr 1
  omega

theorem magnitude_encode_zero {sign fraction : Nat} (shortFraction : fraction < 2 ^ F.fraction) :
    F.magnitude (F.encode sign 0 fraction) = scaled fraction F.low := by
  obtain ⟨fractionField, exponentField, -⟩ := @fields_encode F sign 0 _ shortFraction (Nat.two_pow_pos _)
  rw [Format.magnitude, Format.significand, Format.power, fractionField, exponentField, if_pos rfl]
  congr 1
  omega

theorem magnitude_nonneg (n : Nat) : 0 ≤ F.magnitude n := scaled_nonneg _ _

theorem abs_value (n : Nat) : |F.value n| = F.magnitude n := by
  unfold Format.value
  split_ifs
  · exact abs_of_nonneg (magnitude_nonneg n)
  · rw [abs_neg, abs_of_nonneg (magnitude_nonneg n)]

theorem four_le (F : Format) : 4 ≤ 2 ^ F.exponent := by
  have power : 2 ^ 2 ≤ 2 ^ F.exponent := Nat.pow_le_pow_right (by decide) F.wide
  exact power

theorem holds_magnitude (finite : F.Finite n) : F.Holds (F.magnitude n) := by
  have fraction : F.fractionOf n < 2 ^ F.fraction := Nat.mod_lt _ (Nat.two_pow_pos _)
  have exponent : F.exponentOf n < 2 ^ F.exponent := Nat.mod_lt _ (Nat.two_pow_pos _)
  have below : F.exponentOf n ≠ 2 ^ F.exponent - 1 := finite
  have four := four_le F
  have power : ((2 ^ F.exponent : Nat) : Int) = 2 ^ F.exponent := by push_cast; rfl
  refine ⟨F.significand n, F.power n, ?_, ?_, ?_, rfl⟩
  · rw [Nat.pow_succ]
    unfold Format.significand
    split_ifs <;> omega
  · unfold Format.power
    omega
  · unfold Format.power Format.high
    omega

/-- The first bit of a pattern is turned over. -/
theorem fields_flip (n : Nat) :
    F.fractionOf (n ^^^ 2 ^ (F.fraction + F.exponent)) = F.fractionOf n ∧
      F.exponentOf (n ^^^ 2 ^ (F.fraction + F.exponent)) = F.exponentOf n ∧
      F.signOf (n ^^^ 2 ^ (F.fraction + F.exponent)) = F.signOf n ^^^ 1 := by
  have low : 2 ^ (F.fraction + F.exponent) % 2 ^ F.fraction = 0 := by
    rw [Nat.pow_add, Nat.mul_mod_right]
  have high : 2 ^ (F.fraction + F.exponent) / 2 ^ F.fraction = 2 ^ F.exponent := by
    rw [Nat.pow_add, Nat.mul_div_cancel_left _ (Nat.two_pow_pos _)]
  unfold Format.fractionOf Format.exponentOf Format.signOf
  rw [Nat.xor_mod_two_pow, low, Nat.xor_zero, Nat.xor_div_two_pow, high, Nat.xor_mod_two_pow, Nat.mod_self,
    Nat.xor_zero, Nat.xor_div_two_pow, Nat.div_self (Nat.two_pow_pos _)]
  exact ⟨rfl, rfl, rfl⟩

/-- Then it stands for the opposite number. -/
theorem value_flip {n : Nat} (bit : F.signOf n < 2) :
    F.value (n ^^^ 2 ^ (F.fraction + F.exponent)) = -F.value n := by
  obtain ⟨fraction, exponent, sign⟩ := @fields_flip F n
  have magnitude : F.magnitude (n ^^^ 2 ^ (F.fraction + F.exponent)) = F.magnitude n := by
    unfold Format.magnitude Format.significand Format.power
    rw [fraction, exponent]
  unfold Format.value
  rw [magnitude, sign]
  rcases Nat.lt_or_ge 0 (F.signOf n) with one | zero
  · rw [show F.signOf n = 1 by omega]
    simp
  · rw [show F.signOf n = 0 by omega]
    simp

/-- A number of the format with a long significand has zeros at its end. -/
theorem dvd_of_holds {k : Nat} (held : F.Holds (scaled n e)) (long : 2 ^ (F.fraction + k) ≤ n) :
    2 ^ k ∣ n := by
  obtain ⟨m, d, short, -, -, same⟩ := held
  have far : e + k ≤ d := by
    by_contra near
    have reach : scaled n e < scaled n e := by
      calc scaled n e = scaled m d := same
        _ < scaled (2 ^ F.fraction) (e + k) := scaled_lt_of_leading short (Nat.le_refl _) (by omega)
        _ = scaled (2 ^ (F.fraction + k)) e := by rw [Nat.pow_add, scaled_shift]
        _ ≤ scaled n e := (scaled_le_iff e).mpr long
    exact lt_irrefl _ reach
  rw [scaled_lower (show e ≤ d by omega), scaled_inj] at same
  rw [same]
  exact Dvd.dvd.mul_left (Nat.pow_dvd_pow 2 (by omega)) m

/-! ## Rounding -/

namespace Format

variable (F : Format)

/-- From here on, a magnitude is rounded to infinity: half a unit of the last place beyond the largest
number. -/
def threshold : ℚ := scaled (2 ^ (F.fraction + 2) - 1) (F.high - 1)

/-- The pattern of a number nearest to an exact one, and one that is even if there are two. -/
def Nearest (x : ℚ) (n : Nat) : Prop :=
  F.Finite n ∧ ∀ q, F.Finite q → |F.value n - x| ≤ |F.value q - x| ∧
    (|F.value q - x| = |F.value n - x| → F.value q = F.value n ∨ n % 2 = 0)

/-- The pattern that an exact number is rounded to. -/
def RoundsTo (x : ℚ) (n : Nat) : Prop :=
  if |x| < F.threshold then F.Nearest x n
  else n = F.encode (if x < 0 then 1 else 0) (2 ^ F.exponent - 1) 0

end Format

/-- A multiple of a unit within half a unit is nearest among all numbers of the format that have the
unit as their last place or a larger one, and those with a smaller one are farther away. -/
theorem nearest_scaled {x : ℚ} {even : Prop} (leading : e = F.low ∨ scaled (2 ^ F.fraction) e ≤ x)
    (close : |scaled n e - x| ≤ scaled 1 (e - 1))
    (tied : |scaled n e - x| = scaled 1 (e - 1) → even) {y : ℚ} (held : F.Holds y) :
    |scaled n e - x| ≤ |y - x| ∧ (|y - x| = |scaled n e - x| → y = scaled n e ∨ even) := by
  have unit : scaled 1 e = scaled 1 (e - 1) + scaled 1 (e - 1) := by
    rw [← scaled_add, show 1 + 1 = 1 * 2 from rfl, scaled_double, Int.sub_add_cancel]
  have multiple (k : Nat) : |scaled n e - x| ≤ |scaled k e - x| ∧
      (|scaled k e - x| = |scaled n e - x| → scaled k e = scaled n e ∨ even) := by
    by_cases same : k = n
    · rw [same]
      exact ⟨le_refl _, fun _ => .inl rfl⟩
    have apart : scaled 1 e ≤ |scaled k e - scaled n e| := by
      rcases Nat.lt_or_gt_of_ne same with less | more
      · have step : scaled (k + 1) e ≤ scaled n e := (scaled_le_iff e).mpr less
        rw [scaled_add] at step
        rw [abs_sub_comm]
        exact le_trans (by linarith) (le_abs_self _)
      · have step : scaled (n + 1) e ≤ scaled k e := (scaled_le_iff e).mpr more
        rw [scaled_add] at step
        exact le_trans (by linarith) (le_abs_self _)
    have triangle : |scaled k e - scaled n e| ≤ |scaled k e - x| + |scaled n e - x| := by
      rw [abs_sub_comm (scaled n e) x]
      exact abs_sub_le _ _ _
    refine ⟨by linarith, fun tie => .inr (tied (by linarith))⟩
  obtain ⟨m, d, short, bounded, -, rfl⟩ := held
  by_cases coarse : e ≤ d
  · rw [scaled_lower coarse]
    exact multiple _
  have bottom : scaled (2 ^ F.fraction) e ≤ x := leading.resolve_left (by omega)
  have below : scaled m d < scaled (2 ^ F.fraction) e :=
    scaled_lt_of_leading short (Nat.le_refl _) (by omega)
  have nearer := (multiple (2 ^ F.fraction)).1
  rw [abs_sub_comm (scaled (2 ^ F.fraction) e), abs_of_nonneg (sub_nonneg.mpr bottom)] at nearer
  have farther : |scaled m d - x| = x - scaled m d := by
    rw [abs_sub_comm, abs_of_nonneg (by linarith)]
  rw [farther]
  exact ⟨by linarith, fun tie => absurd tie (by linarith)⟩

/-- A pattern with the sign of an exact number, whose magnitude is a multiple of the last place that is
nearest to that of the number. -/
theorem nearest_of_close {x : ℚ} (nonzero : x ≠ 0) (finite : F.Finite n)
    (value : F.value n = if x < 0 then -scaled m e else scaled m e)
    (leading : e = F.low ∨ scaled (2 ^ F.fraction) e ≤ |x|)
    (close : abs (scaled m e - |x|) ≤ scaled 1 (e - 1))
    (tied : abs (scaled m e - |x|) = scaled 1 (e - 1) → n % 2 = 0) : F.Nearest x n := by
  have distance : |F.value n - x| = abs (scaled m e - |x|) := by
    rw [value]
    split_ifs with negative
    · rw [abs_of_neg negative, ← abs_neg]
      congr 1
      ring
    · rw [abs_of_nonneg (not_lt.mp negative)]
  refine ⟨finite, fun q number => ?_⟩
  obtain ⟨nearer, equal⟩ := nearest_scaled leading close tied (holds_magnitude number)
  have reverse : abs (F.magnitude q - |x|) ≤ |F.value q - x| := by
    rw [← abs_value]
    exact abs_abs_sub_abs_le _ _
  rw [distance]
  refine ⟨nearer.trans reverse, fun tie => ?_⟩
  rcases equal (le_antisymm (tie ▸ reverse) nearer) with same | even
  · have sides : |F.value q| = |F.value n| := by
      rw [abs_value, same, value]
      split_ifs
      · rw [abs_neg, abs_of_nonneg (scaled_nonneg _ _)]
      · rw [abs_of_nonneg (scaled_nonneg _ _)]
    rcases abs_eq_abs.mp sides with equalValue | opposite
    · exact .inl equalValue
    -- the opposite number is as near only if it is zero
    rw [← distance, opposite] at tie
    rcases abs_eq_abs.mp tie with zero | zero
    · left
      linarith
    · exact absurd (by linarith) nonzero
  · exact .inr even

/-- A number of the format is rounded to itself. -/
theorem roundsTo_self (finite : F.Finite n) : F.RoundsTo (F.value n) n := by
  have below : |F.value n| < F.threshold := by
    obtain ⟨m, e, short, -, most, same⟩ := holds_magnitude finite
    have double : 2 ^ (F.fraction + 2) = 2 ^ (F.fraction + 1) * 2 := Nat.pow_succ ..
    rw [abs_value, same]
    calc scaled m e ≤ scaled (2 ^ (F.fraction + 1) - 1) F.high := scaled_le_scaled (by omega) most
      _ = scaled ((2 ^ (F.fraction + 1) - 1) * 2) (F.high - 1) := by rw [scaled_double, Int.sub_add_cancel]
      _ < F.threshold := (scaled_lt_iff _).mpr (by omega)
  unfold Format.RoundsTo
  rw [if_pos below]
  refine ⟨finite, fun q _ => ?_⟩
  rw [sub_self, abs_zero]
  exact ⟨abs_nonneg _, fun tie => .inl (sub_eq_zero.mp (abs_eq_zero.mp tie))⟩

end JsEmulator.Library.Floats
