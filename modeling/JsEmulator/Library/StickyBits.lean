import JsEmulator.Library.Floats

/-!
# Sticky bits

A shift to the right may keep in the lowest bit that something was lost. What is left then compares with
every even number as the exact quotient does, and that is all that rounding asks for later on: `Near`
says so for the multiples of a number. Sums and differences with multiples keep it, a shift to the left
makes it coarser, and another shift to the right with a sticky bit makes it as fine as before.
-/

namespace JsEmulator.Library.Floats

/-- An integer lies to every multiple of `k` as an exact number does. -/
def Near (k n : Int) (y : ℚ) : Prop :=
  ∀ m : Int, (n < k * m ↔ y < (k * m : Int)) ∧ (k * m < n ↔ ((k * m : Int) : ℚ) < y)

namespace Near

variable {k n : Int} {y : ℚ}

theorem exact (k n : Int) : Near k n n := fun _ => ⟨Int.cast_lt.symm, Int.cast_lt.symm⟩

theorem coarser (near : Near k n y) (j : Int) : Near (k * j) n y := by
  intro m
  rw [Int.mul_assoc]
  exact near (j * m)

theorem double (near : Near k n y) : Near (k * 2) (n * 2) (y * 2) := by
  intro m
  obtain ⟨less, more⟩ := near m
  have product : k * 2 * m = k * m * 2 := by ring
  have cast : ((k * m * 2 : Int) : ℚ) = (k * m : Int) * 2 := by push_cast; ring
  rw [product, cast, mul_lt_mul_iff_left₀ (by norm_num), mul_lt_mul_iff_left₀ (by norm_num), less,
    mul_lt_mul_iff_left₀ (by norm_num), mul_lt_mul_iff_left₀ (by norm_num), more]
  exact ⟨Iff.rfl, Iff.rfl⟩

/-- A multiple is added. -/
theorem add (near : Near k n y) (a : Int) : Near k (k * a + n) ((k * a : Int) + y) := by
  intro m
  obtain ⟨less, more⟩ := near (m - a)
  have split : k * m = k * a + k * (m - a) := by ring
  have cast : ((k * a + k * (m - a) : Int) : ℚ) = (k * a : Int) + (k * (m - a) : Int) := by push_cast; ring
  rw [split, cast, Int.add_lt_add_iff_left, add_lt_add_iff_left, less, Int.add_lt_add_iff_left,
    add_lt_add_iff_left, more]
  exact ⟨Iff.rfl, Iff.rfl⟩

/-- The number is taken from a multiple. -/
theorem sub (near : Near k n y) (a : Int) : Near k (k * a - n) ((k * a : Int) - y) := by
  intro m
  obtain ⟨less, more⟩ := near (a - m)
  have split : k * m = k * a - k * (a - m) := by ring
  have cast : ((k * a - k * (a - m) : Int) : ℚ) = (k * a : Int) - (k * (a - m) : Int) := by push_cast; ring
  rw [split, cast, sub_lt_sub_iff_left, sub_lt_sub_iff_left, more, sub_lt_sub_iff_left,
    sub_lt_sub_iff_left, less]
  exact ⟨Iff.rfl, Iff.rfl⟩

theorem le_iff (near : Near k n y) (m : Int) : k * m ≤ n ↔ ((k * m : Int) : ℚ) ≤ y := by
  rw [← Int.not_lt, ← not_lt, (near m).1]

theorem lt_two_pow_iff {n : Nat} (near : Near k n y) {p : Nat} (multiple : k ∣ 2 ^ p) :
    n < 2 ^ p ↔ y < 2 ^ p := by
  obtain ⟨m, same⟩ := multiple
  have compared := (near m).1
  rw [← same] at compared
  exact_mod_cast compared

theorem two_pow_le_iff {n : Nat} (near : Near k n y) {p : Nat} (multiple : k ∣ 2 ^ p) :
    2 ^ p ≤ n ↔ 2 ^ p ≤ y := by
  rw [← Nat.not_lt, ← not_lt, near.lt_two_pow_iff multiple]

end Near

/-- A quotient with a sticky bit; a shift to the right divides by a power of two. -/
def jam (n d : Nat) : Nat := if n % d = 0 then n / d else n / d ||| 1

theorem or_one (n : Nat) : n ||| 1 = if n % 2 = 0 then n + 1 else n := by
  have even (q : Nat) : q * 2 ||| 1 = q * 2 + 1 := by
    have shifted := @Nat.shiftLeft_add_eq_or_of_lt 1 1 (by decide) q
    rw [Nat.shiftLeft_eq, Nat.pow_one] at shifted
    exact shifted.symm
  have split := Nat.div_add_mod' n 2
  split_ifs with zero
  · rw [zero, Nat.add_zero] at split
    rw [← split, even]
  · have one : n % 2 = 1 := by omega
    rw [one, ← even] at split
    rw [← split, Nat.or_assoc, Nat.or_self]

/-- A quotient with a sticky bit lies to the even numbers as the number does on its own scale. -/
theorem jam_lt_iff {d : Nat} (divisor : 0 < d) (n : Nat) (m : Int) :
    ((jam n d : Int) < 2 * m ↔ (n : Int) < d * 2 * m) ∧
      (2 * m < (jam n d : Int) ↔ d * 2 * m < (n : Int)) := by
  have split : (n : Int) = d * (n / d : Nat) + (n % d : Nat) := by
    exact_mod_cast (Nat.div_add_mod n d).symm
  have rest : ((n % d : Nat) : Int) < d := by exact_mod_cast Nat.mod_lt n divisor
  have positive : (0 : Int) < d := by exact_mod_cast divisor
  unfold jam
  rw [or_one]
  generalize n / d = q at *
  generalize n % d = r at *
  have below : (n : Int) < d * 2 * m ↔ (q : Int) < 2 * m := by
    constructor
    · intro less
      by_contra more
      nlinarith
    · intro less
      nlinarith
  have above : d * 2 * m < (n : Int) ↔ 2 * m < (q : Int) ∨ 2 * m = q ∧ 0 < r := by
    constructor
    · intro less
      by_contra none
      rcases Int.lt_trichotomy (2 * m) q with first | second | third
      · exact none (.inl first)
      · have zero : r = 0 := Nat.eq_zero_of_not_pos fun some => none (.inr ⟨second, some⟩)
        rw [zero, ← second] at split
        push_cast at split
        linarith
      · nlinarith
    · rintro (first | ⟨second, some⟩)
      · nlinarith
      · rw [← second] at split
        have : (0 : Int) < r := by exact_mod_cast some
        linarith
  rw [below, above]
  split_ifs with exact even
  · omega
  · push_cast
    omega
  · omega

/-- A quotient with a sticky bit is as near to the exact one as the number is on a scale that the
division makes finer. -/
theorem near_jam {n d : Nat} {y : ℚ} (divisor : 0 < d) (near : Near (d * 2) n y) :
    Near 2 (jam n d) (y / d) := by
  intro m
  obtain ⟨less, more⟩ := near m
  obtain ⟨below, above⟩ := jam_lt_iff divisor n m
  have positive : (0 : ℚ) < d := by exact_mod_cast divisor
  have product : ((d * 2 * m : Int) : ℚ) = (2 * m : Int) * d := by push_cast; ring
  rw [below, above, less, more, product, div_lt_iff₀ positive, lt_div_iff₀ positive]
  exact ⟨Iff.rfl, Iff.rfl⟩

/-- Rounding of eighths: the quotient by eight, one more above a half, and in a tie the even one. -/
def roundEighths (n : Nat) : Nat :=
  if 4 < n % 8 ∨ n % 8 = 4 ∧ n / 8 % 2 = 1 then n / 8 + 1 else n / 8

theorem roundEighths_close {n : Nat} {y : ℚ} (near : Near 4 n y) :
    |(roundEighths n : ℚ) * 8 - y| ≤ 4 ∧
      (|(roundEighths n : ℚ) * 8 - y| = 4 → roundEighths n % 2 = 0) := by
  have split := Nat.div_add_mod n 8
  have rest := Nat.mod_lt n (show 0 < 8 by decide)
  unfold roundEighths
  generalize n / 8 = q at *
  generalize n % 8 = r at *
  have low := (near.le_iff (2 * q)).mp (by omega)
  have high := (near (2 * q + 2)).1.mp (by omega)
  have middle := near (2 * q + 1)
  push_cast at low high middle
  rcases Nat.lt_trichotomy r 4 with under | half | above
  · have less := middle.1.mp (by omega)
    rw [if_neg (by omega), abs_sub_comm, abs_of_nonneg (by linarith)]
    exact ⟨by linarith, fun tie => absurd tie (by linarith)⟩
  · have equal : y = 4 * (2 * q + 1) := by
      rcases lt_trichotomy y (4 * (2 * q + 1)) with less | same | more
      · have := middle.1.mpr less
        omega
      · exact same
      · have := middle.2.mpr more
        omega
    by_cases odd : q % 2 = 1
    · rw [if_pos (.inr ⟨half, odd⟩), equal, abs_of_nonneg (by push_cast; linarith)]
      push_cast
      exact ⟨by linarith, fun _ => by omega⟩
    · rw [if_neg (by omega), equal, abs_sub_comm, abs_of_nonneg (by linarith)]
      exact ⟨by linarith, fun _ => by omega⟩
  · have more := middle.2.mp (by omega)
    rw [if_pos (.inl above), abs_of_nonneg (by push_cast; linarith)]
    push_cast
    exact ⟨by linarith, fun tie => absurd tie (by linarith)⟩

/-- A number is rounded from its eighths of the last place. -/
theorem nearest_of_eighths {F : Format} {x y : ℚ} {n m : Nat} {e : Int} (nonzero : x ≠ 0)
    (finite : F.Finite n) (exact : |x| = y * 2 ^ (e - 3))
    (value : F.value n = if x < 0 then -scaled (roundEighths m) e else scaled (roundEighths m) e)
    (leading : e = F.low ∨ 2 ^ (F.fraction + 3) ≤ y) (near : Near 4 m y)
    (parity : n % 2 = roundEighths m % 2) : F.Nearest x n := by
  obtain ⟨close, tied⟩ := roundEighths_close near
  have positive : (0 : ℚ) < 2 ^ (e - 3) := by positivity
  have whole : (2 : ℚ) ^ e = 8 * 2 ^ (e - 3) := by
    rw [zpow_sub₀ (by norm_num)]
    norm_num
    ring
  have half : scaled 1 (e - 1) = 4 * 2 ^ (e - 3) := by
    rw [scaled, zpow_sub₀ (by norm_num), zpow_sub₀ (by norm_num)]
    norm_num
    ring
  have distance : abs (scaled (roundEighths m) e - |x|) = |(roundEighths m : ℚ) * 8 - y| * 2 ^ (e - 3) := by
    rw [exact, scaled, whole, ← abs_of_pos positive, ← abs_mul, abs_of_pos positive]
    congr 1
    ring
  refine nearest_of_close nonzero finite value (leading.imp_right fun large => ?_) ?_ ?_
  · rw [exact, scaled, whole]
    have power : ((2 ^ F.fraction : Nat) : ℚ) * (8 * 2 ^ (e - 3)) = 2 ^ (F.fraction + 3) * 2 ^ (e - 3) := by
      push_cast
      ring
    rw [power]
    exact mul_le_mul_of_nonneg_right large positive.le
  · rw [distance, half]
    exact mul_le_mul_of_nonneg_right close positive.le
  · intro tie
    rw [distance, half] at tie
    rw [parity]
    exact tied (mul_right_cancel₀ positive.ne' tie)

end JsEmulator.Library.Floats
