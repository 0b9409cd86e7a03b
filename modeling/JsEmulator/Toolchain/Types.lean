import Mathlib.Data.BitVec

/-!
# Arithmetic types

The arithmetic types of `type.ts` and the type of an expression with two operands. A value of an
integer type is an integer in its range, and a value of a floating type is its bits. The conversions
are those that C makes when it brings two operands to their common type; they never lead from a
floating type to a narrower one.
-/

namespace JsEmulator.Toolchain

/-- The kinds of `TypeKind` that are arithmetic. -/
inductive Kind where
  | char | short | int | long | llong | float | double
  deriving DecidableEq, Repr

/-- An arithmetic type. -/
structure Ty where
  kind : Kind
  isUnsigned : Bool := false
  deriving DecidableEq, Repr

namespace Ty

def size (ty : Ty) : Nat :=
  match ty.kind with
  | .char => 1
  | .short => 2
  | .int | .long | .float => 4
  | .llong | .double => 8

def isInteger (ty : Ty) : Bool :=
  match ty.kind with
  | .char | .short | .int | .long | .llong => true
  | .float | .double => false

def is64 (ty : Ty) : Bool := ty.kind == .llong

def isUnsignedInteger (ty : Ty) : Bool := ty.isInteger && ty.isUnsigned

/-- The type is still unsigned after integer promotion. -/
def isPromotedUnsigned (ty : Ty) : Bool := ty.isUnsignedInteger && decide (4 ≤ ty.size)

def usualArithmeticType (lhs rhs : Ty) : Ty :=
  if lhs.kind = .double ∨ rhs.kind = .double then ⟨.double, false⟩
  else if lhs.kind = .float ∨ rhs.kind = .float then ⟨.float, false⟩
  else if lhs.is64 ∨ rhs.is64 then ⟨.llong, lhs.isUnsignedInteger || rhs.isUnsignedInteger⟩
  else ⟨.int, lhs.isPromotedUnsigned || rhs.isPromotedUnsigned⟩

end Ty

/-- The value of an expression. -/
inductive Value where
  | integer (n : Int)
  | single (bits : BitVec 32)
  | double (bits : BitVec 64)
  deriving DecidableEq, Repr

/-- The integer reduced to the range of a type of so many bits. -/
def wrap (isUnsigned : Bool) (width : Nat) (n : Int) : Int :=
  if isUnsigned then n % 2 ^ width else n.bmod (2 ^ width)

/-- The natural number in binary floating point, without its sign: rounded to the nearest number
with so many bits of fraction, a tie to the even one. A carry out of the fraction moves on to the
exponent. -/
def floatBits (fraction bias n : Nat) : Nat :=
  let exponent := Nat.log2 n
  if n = 0 then 0
  else if exponent ≤ fraction then
    (exponent + bias) * 2 ^ fraction + (n * 2 ^ (fraction - exponent) - 2 ^ fraction)
  else
    let unit := 2 ^ (exponent - fraction)
    let up := decide (unit < 2 * (n % unit) ∨ unit = 2 * (n % unit) ∧ n / unit % 2 = 1)
    (exponent + bias) * 2 ^ fraction + (n / unit - 2 ^ fraction) + up.toNat

/-- The integer as a `float`. -/
def intToSingle (n : Int) : BitVec 32 :=
  BitVec.ofBool (n < 0) ++ BitVec.ofNat 31 (floatBits 23 127 n.natAbs)

/-- The integer as a `double`. -/
def intToDouble (n : Int) : BitVec 64 :=
  BitVec.ofBool (n < 0) ++ BitVec.ofNat 63 (floatBits 52 1023 n.natAbs)

/-- The `float` as a `double`, which holds every one exactly. -/
def singleToDouble (bits : BitVec 32) : BitVec 64 :=
  let exponent := bits.toNat / 2 ^ 23 % 2 ^ 8
  let fraction := bits.toNat % 2 ^ 23
  let magnitude :=
    if exponent = 255 then 2047 * 2 ^ 52 + fraction * 2 ^ 29
    else if exponent = 0 then
      -- a subnormal `float` is a multiple of the 149th negative power of two
      if fraction = 0 then 0 else floatBits 52 1023 fraction - 149 * 2 ^ 52
    else (exponent + 896) * 2 ^ 52 + fraction * 2 ^ 29
  BitVec.ofBool bits.msb ++ BitVec.ofNat 63 magnitude

/-- The value converted to the common type of two operands, one of which it is. -/
def Value.convert (ty : Ty) (v : Value) : Value :=
  match ty.kind, v with
  | .double, .integer n => .double (intToDouble n)
  | .double, .single bits => .double (singleToDouble bits)
  | .float, .integer n => .single (intToSingle n)
  | _, .integer n => .integer (wrap ty.isUnsigned (8 * ty.size) n)
  | _, v => v

/-- The value is one of the type. -/
def Ty.Has (ty : Ty) : Value → Prop
  | .integer n => ty.isInteger ∧ wrap ty.isUnsigned (8 * ty.size) n = n
  | .single _ => ty.kind = .float
  | .double _ => ty.kind = .double

/-- The value compares unequal to zero. -/
def Value.truth : Value → Bool
  | .integer n => n ≠ 0
  | .single bits => bits &&& 0x7fffffff#32 ≠ 0
  | .double bits => bits &&& 0x7fffffffffffffff#64 ≠ 0

theorem wrap_wrap (isUnsigned : Bool) (width : Nat) (n : Int) :
    wrap isUnsigned width (wrap isUnsigned width n) = wrap isUnsigned width n := by
  unfold wrap
  split_ifs
  · exact Int.emod_emod_of_dvd n (dvd_refl _)
  · exact Int.bmod_bmod

theorem ofInt_wrap (isUnsigned : Bool) (width : Nat) (n : Int) :
    BitVec.ofInt width (wrap isUnsigned width n) = BitVec.ofInt width n := by
  apply BitVec.eq_of_toInt_eq
  rw [BitVec.toInt_ofInt, BitVec.toInt_ofInt, wrap]
  split_ifs
  · have cast : (2 : Int) ^ width = ((2 ^ width : Nat) : Int) := by simp
    rw [cast, Int.emod_bmod]
  · exact Int.bmod_bmod

/-- A value of an integer type is zero if its bits are. -/
theorem ofInt_eq_zero {width : Nat} {isUnsigned : Bool} {n : Int}
    (range : wrap isUnsigned width n = n) : BitVec.ofInt width n = BitVec.ofNat width 0 ↔ n = 0 := by
  constructor
  · intro zero
    rw [← range]
    unfold wrap
    split_ifs
    · have reduced := congrArg BitVec.toNat zero
      have nonneg : 0 ≤ n % (2 ^ width : Nat) := Int.emod_nonneg n (by simp)
      rw [BitVec.toNat_ofInt] at reduced
      simp at reduced nonneg
      omega
    · have reduced := congrArg BitVec.toInt zero
      simpa [BitVec.toInt_ofInt] using reduced
  · rintro rfl
    simp

/-- A value of a narrow integer type is one of each wider type of its signedness. -/
theorem wrap_of_le {isUnsigned : Bool} {narrow wide : Nat} {n : Int} (le : narrow ≤ wide)
    (range : wrap isUnsigned narrow n = n) : wrap isUnsigned wide n = n := by
  have grows : 2 ^ narrow ≤ 2 ^ wide := Nat.pow_le_pow_right (by decide) le
  have positive : 0 < 2 ^ narrow := Nat.two_pow_pos narrow
  unfold wrap at *
  split_ifs at *
  · have nonneg := Int.emod_nonneg n (show ((2 ^ narrow : Nat) : Int) ≠ 0 by omega)
    have below := Int.emod_lt_of_pos n (show (0 : Int) < ((2 ^ narrow : Nat) : Int) by omega)
    have cast : (2 : Int) ^ wide = ((2 ^ wide : Nat) : Int) := by simp
    have cast' : (2 : Int) ^ narrow = ((2 ^ narrow : Nat) : Int) := by simp
    rw [cast'] at range
    rw [cast]
    exact Int.emod_eq_of_lt (by omega) (by omega)
  · have above := Int.le_bmod (x := n) positive
    have below := Int.bmod_lt (x := n) positive
    rw [range] at above below
    exact Int.bmod_eq_of_le (by omega) (by omega)

/-- Two pairs of words are equal if their words are. -/
theorem append_inj (a b c d : BitVec 32) : b ++ a = d ++ c ↔ b = d ∧ a = c := by
  constructor
  · intro same
    have high := congrArg (BitVec.extractLsb' 32 32) same
    have low := congrArg (BitVec.extractLsb' 0 32) same
    simp only [BitVec.extractLsb'_append_eq_left, BitVec.extractLsb'_append_eq_right] at high low
    exact ⟨high, low⟩
  · rintro ⟨rfl, rfl⟩
    rfl

end JsEmulator.Toolchain
