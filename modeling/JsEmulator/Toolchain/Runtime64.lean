import JsEmulator.Library.LongDivision
import JsEmulator.Library.WordMemory
import Mathlib.Data.BitVec
import Mathlib.Tactic.IntervalCases

/-!
# The runtime for 64-bit integers

A `long long` is two 32-bit words. The compiler turns its arithmetic, shifts and comparisons into
calls of the functions of `runtime64.ts`, which use 32-bit operations only. `LongLong.bits` is the
64-bit integer that the two words stand for. Each function computes on the words what the operation
is on these integers. The division is a loop over the 64 bits of the dividend, and its invariant is
the one of binary long division.
-/

namespace JsEmulator.Toolchain

open Library (Divided)
open Library.WordMemory (Word)

/-- A `long long`, with its low word in R0 and its high word in R1. -/
structure LongLong where
  lo : Word
  hi : Word
  deriving Repr, DecidableEq

/-- The 64-bit integer of two words. -/
def LongLong.bits (a : LongLong) : BitVec 64 := a.hi ++ a.lo

/-! ## The functions -/

/-- `__i64_add`. -/
def i64Add (alo ahi blo bhi : Word) : LongLong :=
  let lo := alo + blo
  let carry : Word := if lo < alo then 1 else 0
  ⟨lo, ahi + bhi + carry⟩

/-- `__i64_sub`. -/
def i64Sub (alo ahi blo bhi : Word) : LongLong :=
  let borrow : Word := if alo < blo then 1 else 0
  ⟨alo - blo, ahi - bhi - borrow⟩

/-- `__i64_mul`. -/
def i64Mul (alo ahi blo bhi : Word) : LongLong :=
  let a0 := alo &&& (65535 : Word)
  let a1 := alo >>> 16
  let b0 := blo &&& (65535 : Word)
  let b1 := blo >>> 16
  let t00 := a0 * b0
  let t01 := a0 * b1
  let t10 := a1 * b0
  let t11 := a1 * b1
  let mid := (t00 >>> 16) + (t01 &&& (65535 : Word)) + (t10 &&& (65535 : Word))
  ⟨(t00 &&& (65535 : Word)) ||| (mid <<< 16),
    t11 + (t01 >>> 16) + (t10 >>> 16) + (mid >>> 16) + alo * bhi + ahi * blo⟩

/-- `__i64_neg`. -/
def i64Neg (lo hi : Word) : LongLong :=
  let nlo := ~~~lo + 1
  let carry : Word := if nlo = 0 then 1 else 0
  ⟨nlo, ~~~hi + carry⟩

/-- `__i64_shl`. -/
def i64Shl (lo hi amt : Word) : LongLong :=
  let amt := (amt &&& (63 : Word)).toNat
  if amt = 0 then ⟨lo, hi⟩
  else if 32 ≤ amt then ⟨0, lo <<< (amt - 32)⟩
  else ⟨lo <<< amt, (hi <<< amt) ||| (lo >>> (32 - amt))⟩

/-- `__i64_shr`. -/
def i64Shr (lo hi amt : Word) : LongLong :=
  let amt := (amt &&& (63 : Word)).toNat
  if amt = 0 then ⟨lo, hi⟩
  else if 32 ≤ amt then ⟨hi >>> (amt - 32), 0⟩
  else ⟨(lo >>> amt) ||| (hi <<< (32 - amt)), hi >>> amt⟩

/-- `__i64_sar`. The shifts of the signed high word are arithmetic. -/
def i64Sar (lo hi amt : Word) : LongLong :=
  let fill : Word := if hi >>> 31 ≠ 0 then 4294967295 else 0
  let amt := (amt &&& (63 : Word)).toNat
  if amt = 0 then ⟨lo, hi⟩
  else if 32 ≤ amt then ⟨hi.sshiftRight (amt - 32), fill⟩
  else ⟨(lo >>> amt) ||| (hi <<< (32 - amt)), hi.sshiftRight amt⟩

/-- The variables of `__u64_divmod`. -/
structure Divmod where
  ql : Word
  qh : Word
  rl : Word
  rh : Word
  deriving Repr, DecidableEq

/-- One turn of the loop of `__u64_divmod`, for the bit `i`. -/
def divmodTurn (alo ahi blo bhi : Word) (i : Nat) (s : Divmod) : Divmod :=
  let rh := (s.rh <<< 1) ||| (s.rl >>> 31)
  let rl := s.rl <<< 1
  let bit := if 32 ≤ i then (ahi >>> (i - 32)) &&& (1 : Word) else (alo >>> i) &&& (1 : Word)
  let rl := rl ||| bit
  if bhi < rh ∨ (rh = bhi ∧ blo ≤ rl) then
    let borrow : Word := if rl < blo then 1 else 0
    if 32 ≤ i then ⟨s.ql, s.qh ||| ((1 : Word) <<< (i - 32)), rl - blo, rh - bhi - borrow⟩
    else ⟨s.ql ||| ((1 : Word) <<< i), s.qh, rl - blo, rh - bhi - borrow⟩
  else ⟨s.ql, s.qh, rl, rh⟩

/-- The turns for the bits below `k`, from the highest to the lowest. -/
def divmodLoop (alo ahi blo bhi : Word) : Nat → Divmod → Divmod
  | 0, s => s
  | i + 1, s => divmodLoop alo ahi blo bhi i (divmodTurn alo ahi blo bhi i s)

/-- `__u64_divmod`. -/
def u64Divmod (alo ahi blo bhi : Word) : Divmod :=
  divmodLoop alo ahi blo bhi 64 ⟨0, 0, 0, 0⟩

/-- `__u64_div`. -/
def u64Div (alo ahi blo bhi : Word) : LongLong :=
  let s := u64Divmod alo ahi blo bhi
  ⟨s.ql, s.qh⟩

/-- `__u64_mod`. -/
def u64Mod (alo ahi blo bhi : Word) : LongLong :=
  let s := u64Divmod alo ahi blo bhi
  ⟨s.rl, s.rh⟩

/-- The negation that `__i64_div` and `__i64_mod` write out for their operands and results. -/
def negated (lo hi : Word) : LongLong :=
  let c : Word := if lo = 0 then 1 else 0
  ⟨~~~lo + 1, ~~~hi + c⟩

/-- The operand without its sign. -/
def magnitude (neg : Bool) (lo hi : Word) : LongLong := if neg then negated lo hi else ⟨lo, hi⟩

/-- `(hi >> 31) & 1`. -/
def signBit (hi : Word) : Bool := (hi >>> 31) &&& (1 : Word) ≠ 0

/-- `__i64_div`. -/
def i64Div (alo ahi blo bhi : Word) : LongLong :=
  let aneg := signBit ahi
  let bneg := signBit bhi
  let a := magnitude aneg alo ahi
  let b := magnitude bneg blo bhi
  let s := u64Divmod a.lo a.hi b.lo b.hi
  magnitude (aneg ^^ bneg) s.ql s.qh

/-- `__i64_mod`. -/
def i64Mod (alo ahi blo bhi : Word) : LongLong :=
  let aneg := signBit ahi
  let bneg := signBit bhi
  let a := magnitude aneg alo ahi
  let b := magnitude bneg blo bhi
  let s := u64Divmod a.lo a.hi b.lo b.hi
  magnitude aneg s.rl s.rh

/-- `__i64_cmp`. -/
def i64Cmp (alo ahi blo bhi : Word) : Int :=
  let sa := ahi.toInt
  let sb := bhi.toInt
  if sa < sb then -1
  else if sb < sa then 1
  else if alo < blo then -1
  else if blo < alo then 1
  else 0

/-- `__u64_cmp`. -/
def u64Cmp (alo ahi blo bhi : Word) : Int :=
  if ahi < bhi then -1
  else if bhi < ahi then 1
  else if alo < blo then -1
  else if blo < alo then 1
  else 0

/-! ## Two words as one integer -/

theorem bits_to_nat (lo hi : Word) : (LongLong.bits ⟨lo, hi⟩).toNat = hi.toNat * 2 ^ 32 + lo.toNat := by
  unfold LongLong.bits
  rw [BitVec.toNat_append, ← Nat.shiftLeft_add_eq_or_of_lt lo.isLt, Nat.shiftLeft_eq]

theorem bits_add (alo ahi blo bhi : Word) :
    (i64Add alo ahi blo bhi).bits = LongLong.bits ⟨alo, ahi⟩ + LongLong.bits ⟨blo, bhi⟩ := by
  apply BitVec.eq_of_toNat_eq
  unfold i64Add
  simp only [BitVec.toNat_add, bits_to_nat, BitVec.lt_def]
  have := alo.isLt
  have := blo.isLt
  split <;> simp <;> omega

theorem bits_sub (alo ahi blo bhi : Word) :
    (i64Sub alo ahi blo bhi).bits = LongLong.bits ⟨alo, ahi⟩ - LongLong.bits ⟨blo, bhi⟩ := by
  apply BitVec.eq_of_toNat_eq
  unfold i64Sub
  simp only [BitVec.toNat_sub, bits_to_nat, BitVec.lt_def]
  have := alo.isLt
  have := blo.isLt
  have := ahi.isLt
  have := bhi.isLt
  split <;> simp <;> omega

theorem bits_negated (lo hi : Word) : (negated lo hi).bits = -LongLong.bits ⟨lo, hi⟩ := by
  apply BitVec.eq_of_toNat_eq
  unfold negated
  have loZero : lo = 0 ↔ lo.toNat = 0 := by
    rw [← BitVec.toNat_inj]
    rfl
  simp only [BitVec.toNat_neg, bits_to_nat, loZero, BitVec.toNat_add, BitVec.toNat_not]
  have := lo.isLt
  have := hi.isLt
  split <;> simp <;> omega

/-- The carry of `__i64_neg` is the one that the divisions compute. -/
theorem neg_eq (lo hi : Word) : i64Neg lo hi = negated lo hi := by
  have zero : ~~~lo + 1 = 0 ↔ lo = 0 := by
    have minus : ~~~lo + 1 = -lo := (BitVec.neg_eq_not_add lo).symm
    rw [minus]
    simp
  unfold i64Neg negated
  simp only [zero]

/-- The sum of two words without a common bit. -/
theorem or_to_nat (x y : Word) (n : Nat) (low : x.toNat < 2 ^ n) (shifted : 2 ^ n ∣ y.toNat) :
    (x ||| y).toNat = y.toNat + x.toNat := by
  obtain ⟨m, multiple⟩ := shifted
  rw [BitVec.toNat_or, multiple, Nat.or_comm, Nat.two_pow_add_eq_or_of_lt low]

theorem low_half (x : Word) : (x &&& (65535 : Word)).toNat = x.toNat % 65536 := by
  rw [BitVec.toNat_and]
  exact Nat.and_two_pow_sub_one_eq_mod _ 16

theorem high_half (x : Word) : (x >>> 16).toNat = x.toNat / 65536 := by
  rw [BitVec.toNat_ushiftRight, Nat.shiftRight_eq_div_pow]

/-- The product of two halves fits a word. -/
theorem half_product (x y : Word) (hx : x.toNat < 65536) (hy : y.toNat < 65536) :
    (x * y).toNat = x.toNat * y.toNat ∧ x.toNat * y.toNat ≤ 65535 * 65535 := by
  have bound : x.toNat * y.toNat ≤ 65535 * 65535 := Nat.mul_le_mul (by omega) (by omega)
  refine ⟨?_, bound⟩
  rw [BitVec.toNat_mul, Nat.mod_eq_of_lt (by omega)]

theorem bits_mul (alo ahi blo bhi : Word) :
    (i64Mul alo ahi blo bhi).bits = LongLong.bits ⟨alo, ahi⟩ * LongLong.bits ⟨blo, bhi⟩ := by
  apply BitVec.eq_of_toNat_eq
  have a0 := low_half alo
  have a1 := high_half alo
  have b0 := low_half blo
  have b1 := high_half blo
  have aSmall := alo.isLt
  have bSmall := blo.isLt
  unfold i64Mul
  generalize alo &&& (65535 : Word) = x0 at *
  generalize alo >>> 16 = x1 at *
  generalize blo &&& (65535 : Word) = y0 at *
  generalize blo >>> 16 = y1 at *
  obtain ⟨t00, small00⟩ := half_product x0 y0 (by omega) (by omega)
  obtain ⟨t01, small01⟩ := half_product x0 y1 (by omega) (by omega)
  obtain ⟨t10, small10⟩ := half_product x1 y0 (by omega) (by omega)
  obtain ⟨t11, small11⟩ := half_product x1 y1 (by omega) (by omega)
  have product : (ahi.toNat * 2 ^ 32 + alo.toNat) * (bhi.toNat * 2 ^ 32 + blo.toNat) =
      ahi.toNat * bhi.toNat * 2 ^ 64 + (ahi.toNat * blo.toNat + alo.toNat * bhi.toNat) * 2 ^ 32 +
        x1.toNat * y1.toNat * 2 ^ 32 + (x0.toNat * y1.toNat + x1.toNat * y0.toNat) * 2 ^ 16 +
        x0.toNat * y0.toNat := by
    have alo' : alo.toNat = x1.toNat * 2 ^ 16 + x0.toNat := by omega
    have blo' : blo.toNat = y1.toNat * 2 ^ 16 + y0.toNat := by omega
    rw [alo', blo']
    ring
  have mid : ((x0 * y0) >>> 16 + (x0 * y1 &&& (65535 : Word)) + (x1 * y0 &&& (65535 : Word))).toNat =
      x0.toNat * y0.toNat / 65536 + x0.toNat * y1.toNat % 65536 + x1.toNat * y0.toNat % 65536 := by
    simp only [BitVec.toNat_add, low_half, high_half, t00, t01, t10]
    omega
  dsimp only
  generalize (x0 * y0) >>> 16 + (x0 * y1 &&& (65535 : Word)) + (x1 * y0 &&& (65535 : Word)) = m at mid ⊢
  have shifted : (m <<< 16).toNat = m.toNat % 65536 * 65536 := by
    rw [BitVec.toNat_shiftLeft, Nat.shiftLeft_eq]
    omega
  have low : ((x0 * y0 &&& (65535 : Word)) ||| (m <<< 16)).toNat =
      m.toNat % 65536 * 65536 + x0.toNat * y0.toNat % 65536 := by
    rw [or_to_nat _ _ 16, shifted, low_half, t00]
    · rw [low_half]
      omega
    · rw [shifted]
      omega
  rw [bits_to_nat, low, BitVec.toNat_mul, bits_to_nat, bits_to_nat, product]
  simp only [BitVec.toNat_add, high_half, t11, t01, t10]
  generalize x0.toNat * y0.toNat = p00 at *
  generalize x0.toNat * y1.toNat = p01 at *
  generalize x1.toNat * y0.toNat = p10 at *
  generalize x1.toNat * y1.toNat = p11 at *
  simp only [BitVec.toNat_mul]
  omega

/-! ## Shifts -/

theorem shift_amount (amt : Word) : (amt &&& (63 : Word)).toNat = amt.toNat % 64 := by
  rw [BitVec.toNat_and]
  exact Nat.and_two_pow_sub_one_eq_mod _ 6

theorem bits_get (lo hi : Word) (i : Nat) :
    (LongLong.bits ⟨lo, hi⟩).getLsbD i = if i < 32 then lo.getLsbD i else hi.getLsbD (i - 32) := by
  unfold LongLong.bits
  rw [BitVec.getLsbD_append]

theorem bits_shl (lo hi amt : Word) :
    (i64Shl lo hi amt).bits = LongLong.bits ⟨lo, hi⟩ <<< (amt.toNat % 64) := by
  unfold i64Shl
  simp only [shift_amount]
  have bound : amt.toNat % 64 < 64 := Nat.mod_lt _ (by decide)
  generalize amt.toNat % 64 = n at bound ⊢
  apply BitVec.eq_of_getLsbD_eq
  intro i inside
  split
  · simp_all
  split
  · simp only [bits_get, BitVec.getLsbD_shiftLeft]
    grind
  · simp only [bits_get, BitVec.getLsbD_shiftLeft, BitVec.getLsbD_or, BitVec.getLsbD_ushiftRight]
    grind

theorem bits_shr (lo hi amt : Word) :
    (i64Shr lo hi amt).bits = LongLong.bits ⟨lo, hi⟩ >>> (amt.toNat % 64) := by
  unfold i64Shr
  simp only [shift_amount]
  have bound : amt.toNat % 64 < 64 := Nat.mod_lt _ (by decide)
  generalize amt.toNat % 64 = n at bound ⊢
  apply BitVec.eq_of_getLsbD_eq
  intro i inside
  split
  · simp_all
  split
  · simp only [bits_get, BitVec.getLsbD_ushiftRight]
    grind
  · simp only [bits_get, BitVec.getLsbD_shiftLeft, BitVec.getLsbD_or, BitVec.getLsbD_ushiftRight]
    grind

theorem sign_of_shift (hi : Word) : hi >>> 31 ≠ 0 ↔ hi.msb = true := by
  have nonzero : hi >>> 31 ≠ 0 ↔ (hi >>> 31).toNat ≠ 0 := by
    rw [ne_eq, ← BitVec.toNat_inj]
    rfl
  rw [nonzero, BitVec.toNat_ushiftRight, Nat.shiftRight_eq_div_pow, BitVec.msb_eq_decide]
  have := hi.isLt
  simp

theorem bits_msb (lo hi : Word) : (LongLong.bits ⟨lo, hi⟩).msb = hi.msb := by
  unfold LongLong.bits
  rw [BitVec.msb_append]
  simp

/-- The word of all ones and the word of all zeros. -/
theorem fill_get (hi : Word) (i : Nat) (inside : i < 32) :
    (if hi >>> 31 ≠ 0 then (4294967295 : Word) else 0).getLsbD i = hi.msb := by
  by_cases negative : hi.msb = true
  · rw [if_pos ((sign_of_shift hi).mpr negative), negative]
    have ones : (4294967295 : Word) = BitVec.allOnes 32 := by decide
    rw [ones, BitVec.getLsbD_allOnes]
    simpa using inside
  · rw [if_neg (fun shifted => negative ((sign_of_shift hi).mp shifted))]
    simpa using negative

theorem bits_sar (lo hi amt : Word) :
    (i64Sar lo hi amt).bits = (LongLong.bits ⟨lo, hi⟩).sshiftRight (amt.toNat % 64) := by
  unfold i64Sar
  simp only [shift_amount]
  have bound : amt.toNat % 64 < 64 := Nat.mod_lt _ (by decide)
  have fill := fill_get hi
  generalize (if hi >>> 31 ≠ 0 then (4294967295 : Word) else 0) = f at fill ⊢
  generalize amt.toNat % 64 = n at bound ⊢
  apply BitVec.eq_of_getLsbD_eq
  intro i inside
  split
  · simp_all
  split
  · simp only [bits_get, BitVec.getLsbD_sshiftRight, bits_msb]
    grind
  · simp only [bits_get, BitVec.getLsbD_shiftLeft, BitVec.getLsbD_or, BitVec.getLsbD_ushiftRight,
      BitVec.getLsbD_sshiftRight, bits_msb]
    grind

/-! ## Comparisons -/

/-- Two numbers compared by their high words, then by their low words. -/
theorem compare_words (ah bh : Int) (al bl : Nat) (aSmall : al < 2 ^ 32) (bSmall : bl < 2 ^ 32) :
    (if ah < bh then -1 else if bh < ah then 1 else if al < bl then -1 else if bl < al then 1 else 0) =
      Int.sign (ah * 2 ^ 32 + al - (bh * 2 ^ 32 + bl)) := by
  split
  · rw [Int.sign_eq_neg_one_of_neg (by omega)]
  split
  · rw [Int.sign_eq_one_of_pos (by omega)]
  split
  · rw [Int.sign_eq_neg_one_of_neg (by omega)]
  split
  · rw [Int.sign_eq_one_of_pos (by omega)]
  · have same : ah * 2 ^ 32 + al - (bh * 2 ^ 32 + bl) = 0 := by omega
    rw [same, Int.sign_zero]

theorem unsigned_compare (alo ahi blo bhi : Word) :
    u64Cmp alo ahi blo bhi =
      Int.sign ((LongLong.bits ⟨alo, ahi⟩).toNat - (LongLong.bits ⟨blo, bhi⟩).toNat : Int) := by
  have compared := compare_words ahi.toNat bhi.toNat alo.toNat blo.toNat alo.isLt blo.isLt
  simp only [Int.ofNat_lt] at compared
  rw [bits_to_nat, bits_to_nat, Int.natCast_add, Int.natCast_mul, Int.natCast_add, Int.natCast_mul]
  simp only [u64Cmp, BitVec.lt_def]
  exact compared

theorem bits_to_int (lo hi : Word) :
    (LongLong.bits ⟨lo, hi⟩).toInt = hi.toInt * 2 ^ 32 + lo.toNat := by
  rw [BitVec.toInt_eq_toNat_cond, BitVec.toInt_eq_toNat_cond, bits_to_nat]
  have := lo.isLt
  have := hi.isLt
  split <;> split <;> push_cast <;> omega

theorem signed_compare (alo ahi blo bhi : Word) :
    i64Cmp alo ahi blo bhi =
      Int.sign ((LongLong.bits ⟨alo, ahi⟩).toInt - (LongLong.bits ⟨blo, bhi⟩).toInt) := by
  rw [bits_to_int, bits_to_int, ← compare_words _ _ _ _ alo.isLt blo.isLt]
  simp only [i64Cmp, BitVec.lt_def]

/-! ## Division -/

/-- The value of two words as a number. -/
def natOf (lo hi : Word) : Nat := hi.toNat * 2 ^ 32 + lo.toNat

/-- The bit that a turn reads. -/
theorem read_bit_of (alo ahi : Word) (i : Nat) :
    (if 32 ≤ i then (ahi >>> (i - 32)) &&& (1 : Word) else (alo >>> i) &&& (1 : Word)).toNat =
      natOf alo ahi / 2 ^ i % 2 := by
  have single : ∀ (x : Word) (n : Nat), ((x >>> n) &&& (1 : Word)).toNat = (x.getLsbD n).toNat := by
    intro x n
    rw [BitVec.toNat_and, BitVec.toNat_ushiftRight, BitVec.getLsbD, Nat.toNat_testBit,
      Nat.shiftRight_eq_div_pow]
    exact Nat.and_two_pow_sub_one_eq_mod _ 1
  have both := bits_get alo ahi i
  rw [BitVec.getLsbD, bits_to_nat] at both
  rw [natOf, ← Nat.toNat_testBit, both]
  split <;> split <;> first | omega | exact single _ _

/-- The remainder shifted by one, with the bit that was read. -/
theorem shifted_value (rl rh bit : Word) (isBit : bit.toNat < 2) (fits : 2 * natOf rl rh + 1 < 2 ^ 64) :
    natOf ((rl <<< 1) ||| bit) ((rh <<< 1) ||| (rl >>> 31)) = 2 * natOf rl rh + bit.toNat := by
  have doubled : ∀ x : Word, (x <<< 1).toNat = 2 * x.toNat % 2 ^ 32 := by
    intro x
    rw [BitVec.toNat_shiftLeft, Nat.shiftLeft_eq]
    omega
  have carried : (rl >>> 31).toNat = rl.toNat / 2 ^ 31 := by
    rw [BitVec.toNat_ushiftRight, Nat.shiftRight_eq_div_pow]
  have := rl.isLt
  have := rh.isLt
  unfold natOf at fits ⊢
  rw [BitVec.or_comm (rl <<< 1), BitVec.or_comm (rh <<< 1),
    or_to_nat bit (rl <<< 1) 1 (by omega) (by rw [doubled]; omega),
    or_to_nat (rl >>> 31) (rh <<< 1) 1 (by rw [carried]; omega) (by rw [doubled]; omega),
    doubled, doubled, carried]
  omega

/-- The comparison of the loop. -/
theorem at_least (rl rh blo bhi : Word) :
    (bhi < rh ∨ (rh = bhi ∧ blo ≤ rl)) ↔ natOf blo bhi ≤ natOf rl rh := by
  have := rl.isLt
  have := blo.isLt
  rw [BitVec.lt_def, BitVec.le_def, ← BitVec.toNat_inj]
  unfold natOf
  omega

/-- The subtraction of the loop. -/
theorem subtracted_value (rl rh blo bhi : Word) (enough : natOf blo bhi ≤ natOf rl rh) :
    natOf (rl - blo) (rh - bhi - if rl < blo then 1 else 0) = natOf rl rh - natOf blo bhi := by
  have difference := congrArg BitVec.toNat (bits_sub rl rh blo bhi)
  unfold i64Sub at difference
  rw [BitVec.toNat_sub, bits_to_nat, bits_to_nat, bits_to_nat] at difference
  unfold natOf at enough ⊢
  rw [difference]
  have := rl.isLt
  have := rh.isLt
  omega

theorem one_shifted (n : Nat) (inside : n < 32) : ((1 : Word) <<< n).toNat = 2 ^ n := by
  have small : 2 ^ n < 2 ^ 32 := Nat.pow_lt_pow_right (by decide) inside
  rw [BitVec.toNat_shiftLeft, Nat.shiftLeft_eq]
  change 1 * 2 ^ n % 2 ^ 32 = 2 ^ n
  rw [Nat.one_mul, Nat.mod_eq_of_lt small]

/-- A bit set in a word whose bits up to it are zero. -/
theorem set_bit (x : Word) (n : Nat) (inside : n < 32) (clear : 2 ^ (n + 1) ∣ x.toNat) :
    (x ||| ((1 : Word) <<< n)).toNat = x.toNat + 2 ^ n := by
  have small : ((1 : Word) <<< n).toNat < 2 ^ (n + 1) := by
    rw [one_shifted n inside]
    exact Nat.pow_lt_pow_right (by decide) (Nat.lt_succ_self n)
  rw [BitVec.or_comm, or_to_nat _ x (n + 1) small clear, one_shifted n inside]

/-- The quotient with one more bit, in its high word. -/
theorem high_bit_set (ql qh : Word) (i : Nat) (high : 32 ≤ i) (inside : i < 64)
    (clear : 2 ^ (i + 1) ∣ natOf ql qh) : natOf ql (qh ||| ((1 : Word) <<< (i - 32))) = natOf ql qh + 2 ^ i := by
  have powers : 2 ^ (i + 1) = 2 ^ (i - 32 + 1) * 2 ^ 32 := by
    rw [← Nat.pow_add]
    congr 1
    omega
  have low : 2 ^ 32 ∣ natOf ql qh := Nat.dvd_trans ⟨_, powers.trans (Nat.mul_comm _ _)⟩ clear
  have value : natOf ql qh = qh.toNat * 2 ^ 32 := by
    have := ql.isLt
    unfold natOf at low ⊢
    omega
  have clear' : 2 ^ (i - 32 + 1) ∣ qh.toNat := by
    rw [value, powers] at clear
    exact Nat.dvd_of_mul_dvd_mul_right (Nat.two_pow_pos 32) clear
  have placed : 2 ^ i = 2 ^ (i - 32) * 2 ^ 32 := by
    rw [← Nat.pow_add]
    congr 1
    omega
  unfold natOf
  rw [set_bit qh (i - 32) (by omega) clear', placed]
  ring

/-- The quotient with one more bit, in its low word. -/
theorem low_bit_set (ql qh : Word) (i : Nat) (low : i < 32) (clear : 2 ^ (i + 1) ∣ natOf ql qh) :
    natOf (ql ||| ((1 : Word) <<< i)) qh = natOf ql qh + 2 ^ i := by
  have divides : 2 ^ (i + 1) ∣ qh.toNat * 2 ^ 32 :=
    Nat.dvd_trans (Nat.pow_dvd_pow 2 (by omega)) (Nat.dvd_mul_left _ _)
  have clear' : 2 ^ (i + 1) ∣ ql.toNat := (Nat.dvd_add_right divides).mp clear
  unfold natOf
  rw [set_bit ql i low clear']
  omega

/-- What the variables of the loop stand for when the bits below `k` are still to be read. -/
def Halfway (alo ahi blo bhi : Word) (k : Nat) (s : Divmod) : Prop :=
  Divided (natOf alo ahi) (natOf blo bhi) k (natOf s.ql s.qh) (natOf s.rl s.rh)

theorem turn_halfway (alo ahi blo bhi : Word) (nonzero : natOf blo bhi ≠ 0) (i : Nat) (inside : i < 64)
    (s : Divmod) (before : Halfway alo ahi blo bhi (i + 1) s) :
    Halfway alo ahi blo bhi i (divmodTurn alo ahi blo bhi i s) := by
  have read := read_bit_of alo ahi i
  have small := before.shifted_le
  have dividend : natOf alo ahi < 2 ^ 64 := by
    have := alo.isLt
    have := ahi.isLt
    unfold natOf
    omega
  unfold divmodTurn
  dsimp only
  generalize (if 32 ≤ i then (ahi >>> (i - 32)) &&& (1 : Word) else (alo >>> i) &&& (1 : Word)) = bit at read ⊢
  have shifted := shifted_value s.rl s.rh bit (by omega) (by omega)
  rw [read] at shifted
  generalize (s.rl <<< 1) ||| bit = rl at shifted ⊢
  generalize (s.rh <<< 1) ||| (s.rl >>> 31) = rh at shifted ⊢
  split
  · rename_i larger
    rw [at_least] at larger
    have subtracted := subtracted_value rl rh blo bhi larger
    rw [shifted] at larger subtracted
    have after := before.restore (by omega) larger
    rw [← subtracted] at after
    have clear : 2 ^ (i + 1) ∣ natOf s.ql s.qh := by
      rw [before.quotient]
      exact Nat.dvd_mul_left _ _
    split
    · rename_i high
      rwa [← high_bit_set s.ql s.qh i high inside clear] at after
    · rename_i low
      rwa [← low_bit_set s.ql s.qh i (by omega) clear] at after
  · rename_i smaller
    rw [at_least, shifted] at smaller
    have after := before.keep (by omega)
    rwa [← shifted] at after

theorem loop_halfway (alo ahi blo bhi : Word) (nonzero : natOf blo bhi ≠ 0) (k : Nat) (inside : k ≤ 64)
    (s : Divmod) (before : Halfway alo ahi blo bhi k s) :
    Halfway alo ahi blo bhi 0 (divmodLoop alo ahi blo bhi k s) := by
  induction k generalizing s with
  | zero => exact before
  | succ i ih =>
    exact ih (by omega) _ (turn_halfway alo ahi blo bhi nonzero i (by omega) s before)

/-- The loop divides. -/
theorem divmod_value (alo ahi blo bhi : Word) (nonzero : natOf blo bhi ≠ 0) :
    natOf (u64Divmod alo ahi blo bhi).ql (u64Divmod alo ahi blo bhi).qh =
        natOf alo ahi / natOf blo bhi ∧
      natOf (u64Divmod alo ahi blo bhi).rl (u64Divmod alo ahi blo bhi).rh =
        natOf alo ahi % natOf blo bhi := by
  have start : Halfway alo ahi blo bhi 64 ⟨0, 0, 0, 0⟩ := by
    have := alo.isLt
    have := ahi.isLt
    exact Divided.start (by unfold natOf; omega)
  exact (loop_halfway alo ahi blo bhi nonzero 64 (Nat.le_refl _) _ start).finish

/-- The unsigned division on integers. -/
theorem bits_div (a b : LongLong) (nonzero : b.bits ≠ 0) :
    (u64Div a.lo a.hi b.lo b.hi).bits = a.bits / b.bits ∧
      (u64Mod a.lo a.hi b.lo b.hi).bits = a.bits % b.bits := by
  have divisor : natOf b.lo b.hi ≠ 0 := by
    intro zero
    apply nonzero
    apply BitVec.eq_of_toNat_eq
    rw [bits_to_nat]
    exact zero
  obtain ⟨quotient, remainder⟩ := divmod_value a.lo a.hi b.lo b.hi divisor
  refine ⟨BitVec.eq_of_toNat_eq ?_, BitVec.eq_of_toNat_eq ?_⟩
  · rw [BitVec.toNat_udiv, bits_to_nat a.lo, bits_to_nat b.lo]
    exact (bits_to_nat _ _).trans quotient
  · rw [BitVec.toNat_umod, bits_to_nat a.lo, bits_to_nat b.lo]
    exact (bits_to_nat _ _).trans remainder

/-! ## Signs -/

theorem sign_bit_eq (lo hi : Word) : signBit hi = (LongLong.bits ⟨lo, hi⟩).msb := by
  rw [bits_msb]
  unfold signBit
  have single : (hi >>> 31) &&& (1 : Word) = hi >>> 31 := by
    apply BitVec.eq_of_toNat_eq
    rw [BitVec.toNat_and, BitVec.toNat_ushiftRight, Nat.shiftRight_eq_div_pow]
    have := hi.isLt
    exact (Nat.and_two_pow_sub_one_eq_mod _ 1).trans (by omega)
  rw [single]
  by_cases negative : hi.msb = true
  · rw [negative]
    exact decide_eq_true ((sign_of_shift hi).mpr negative)
  · have plain : hi.msb = false := by simpa using negative
    rw [plain]
    exact decide_eq_false fun shifted => negative ((sign_of_shift hi).mp shifted)

theorem magnitude_bits (neg : Bool) (lo hi : Word) :
    (magnitude neg lo hi).bits = if neg then -LongLong.bits ⟨lo, hi⟩ else LongLong.bits ⟨lo, hi⟩ := by
  unfold magnitude
  split
  · exact bits_negated lo hi
  · rfl

theorem magnitude_nonzero (neg : Bool) (lo hi : Word) (nonzero : LongLong.bits ⟨lo, hi⟩ ≠ 0) :
    (magnitude neg lo hi).bits ≠ 0 := by
  rw [magnitude_bits]
  split
  · simpa using nonzero
  · exact nonzero

theorem bits_signed_div (alo ahi blo bhi : Word) (nonzero : LongLong.bits ⟨blo, bhi⟩ ≠ 0) :
    (i64Div alo ahi blo bhi).bits = (LongLong.bits ⟨alo, ahi⟩).sdiv (LongLong.bits ⟨blo, bhi⟩) ∧
      (i64Mod alo ahi blo bhi).bits = (LongLong.bits ⟨alo, ahi⟩).srem (LongLong.bits ⟨blo, bhi⟩) := by
  obtain ⟨quotient, remainder⟩ := bits_div (magnitude (signBit ahi) alo ahi)
    (magnitude (signBit bhi) blo bhi) (magnitude_nonzero _ _ _ nonzero)
  unfold u64Div at quotient
  unfold u64Mod at remainder
  unfold i64Div i64Mod BitVec.sdiv BitVec.srem
  dsimp only at quotient remainder ⊢
  rw [magnitude_bits, magnitude_bits, quotient, remainder, magnitude_bits, magnitude_bits,
    sign_bit_eq alo ahi, sign_bit_eq blo bhi]
  cases (LongLong.bits ⟨alo, ahi⟩).msb <;> cases (LongLong.bits ⟨blo, bhi⟩).msb <;> simp

/-- Each function of the runtime is exact on all operands. -/
theorem runtime64_exact (alo ahi blo bhi amt : Word) :
    let a := LongLong.bits ⟨alo, ahi⟩
    let b := LongLong.bits ⟨blo, bhi⟩
    (i64Add alo ahi blo bhi).bits.toNat = (a.toNat + b.toNat) % 2 ^ 64 ∧
    (i64Sub alo ahi blo bhi).bits.toInt = (a.toInt - b.toInt).bmod (2 ^ 64) ∧
    (i64Mul alo ahi blo bhi).bits.toNat = a.toNat * b.toNat % 2 ^ 64 ∧
    (i64Neg alo ahi).bits.toInt = (-a.toInt).bmod (2 ^ 64) ∧
    (i64Shl alo ahi amt).bits = a <<< (amt.toNat % 64) ∧
    (i64Shr alo ahi amt).bits = a >>> (amt.toNat % 64) ∧
    (i64Sar alo ahi amt).bits = a.sshiftRight (amt.toNat % 64) ∧
    i64Cmp alo ahi blo bhi = Int.sign (a.toInt - b.toInt) ∧
    u64Cmp alo ahi blo bhi = Int.sign (a.toNat - b.toNat : Int) ∧
    (b ≠ 0 →
      (u64Div alo ahi blo bhi).bits.toNat = a.toNat / b.toNat ∧
      (u64Mod alo ahi blo bhi).bits.toNat = a.toNat % b.toNat ∧
      (i64Div alo ahi blo bhi).bits.toInt = (a.toInt.tdiv b.toInt).bmod (2 ^ 64) ∧
      (i64Mod alo ahi blo bhi).bits.toInt = a.toInt.tmod b.toInt) := by
  intro a b
  refine ⟨?_, ?_, ?_, ?_, bits_shl alo ahi amt, bits_shr alo ahi amt, bits_sar alo ahi amt,
    signed_compare alo ahi blo bhi, unsigned_compare alo ahi blo bhi, fun nonzero => ?_⟩
  · rw [bits_add, BitVec.toNat_add]
  · rw [bits_sub, BitVec.toInt_sub]
  · rw [bits_mul, BitVec.toNat_mul]
  · rw [neg_eq, bits_negated, BitVec.toInt_neg]
  · obtain ⟨quotient, remainder⟩ := bits_div ⟨alo, ahi⟩ ⟨blo, bhi⟩ nonzero
    obtain ⟨signedQuotient, signedRemainder⟩ := bits_signed_div alo ahi blo bhi nonzero
    refine ⟨?_, ?_, ?_, ?_⟩
    · rw [quotient, BitVec.toNat_udiv]
    · rw [remainder, BitVec.toNat_umod]
    · rw [signedQuotient, BitVec.toInt_sdiv]
    · rw [signedRemainder, BitVec.toInt_srem]

/-- The least integer divided by minus one is itself again, without a remainder. -/
theorem runtime64_exact_of_least :
    (i64Div 0 0x80000000 0xffffffff 0xffffffff).bits.toInt = -2 ^ 63 ∧
      (i64Mod 0 0x80000000 0xffffffff 0xffffffff).bits.toInt = 0 := by
  obtain ⟨-, -, -, -, -, -, -, -, -, division⟩ :=
    runtime64_exact 0 0x80000000 0xffffffff 0xffffffff 0
  obtain ⟨-, -, quotient, remainder⟩ := division (by decide)
  exact ⟨quotient.trans (by decide), remainder.trans (by decide)⟩

end JsEmulator.Toolchain
