import JsEmulator.Library.BoundedLoops
import Mathlib.Logic.Function.Iterate

/-!
# Arithmetic on floating-point patterns

`runtimeFloat.ts`: what the compiler calls for `+`, `-`, `*` and `/` of `float` and `double`. The
functions compute on the bits of the numbers, a word for a `float` and two for a `double`, with integer
operations only.

An exponent of the source is an `int` that stays far from its bounds; here it is an integer. A loop that
shifts a significand ends after as many turns as there are bits in it.
-/

namespace JsEmulator.Toolchain.RuntimeFloat

open JsEmulator.Library (turnWhile)

/-- An `unsigned`. -/
abbrev Word := BitVec 32

/-- An `unsigned long long`. -/
abbrev Long := BitVec 64

/-- An exponent and a significand. -/
structure Unpacked (w : Nat) where
  exp : Int
  mant : BitVec w
  deriving Repr, DecidableEq

def Unpacked.halve {w : Nat} (x : Unpacked w) : Unpacked w := ⟨x.exp + 1, x.mant >>> 1⟩

def Unpacked.double {w : Nat} (x : Unpacked w) : Unpacked w := ⟨x.exp - 1, x.mant <<< 1⟩

/-- `while (mant < top && ...)`: double a significand while the exponent allows it. -/
def grow {w : Nat} (top : BitVec w) (allowed : Int → Bool) (x : Unpacked w) : Unpacked w :=
  turnWhile (fun x => decide (x.mant < top) && allowed x.exp) Unpacked.double w x

/-! ## Single precision -/

/-- `__sf_abs`. -/
def sfAbs (x : Word) : Word := x &&& 2147483647

/-- `__sf_sign`. -/
def sfSign (x : Word) : Word := x >>> 31

/-- `__sf_exp`. -/
def sfExp (x : Word) : Word := (x >>> 23) &&& 255

/-- `__sf_frac`. -/
def sfFrac (x : Word) : Word := x &&& 8388607

/-- The first loop of `__sf_pack`. -/
def sfShrink (x : Unpacked 32) : Unpacked 32 :=
  turnWhile (fun x => decide (16777216#32 ≤ x.mant)) Unpacked.halve 32 x

/-- The second loop of `__sf_pack`. -/
def sfGrow (x : Unpacked 32) : Unpacked 32 := grow 8388608 (fun exp => -126 < exp) x

/-- `__sf_pack`. -/
def sfPack (sign : Word) (exp : Int) (mant : Word) : Word :=
  if mant = 0 then sign <<< 31
  else
    let x := sfGrow (sfShrink ⟨exp, mant⟩)
    if 127 < x.exp then (sign <<< 31) ||| 2139095040
    else if x.exp < -126 then sign <<< 31
    else (sign <<< 31) ||| (BitVec.ofInt 32 (x.exp + 127) <<< 23) ||| (x.mant &&& 8388607)

/-- The exponent and the significand that `__sf_unpack` stores for a number; for an infinity and a NaN
it stores none. -/
def sfUnpack (a : Word) : Unpacked 32 :=
  if sfExp a = 0 then ⟨-126, sfFrac a⟩ else ⟨(sfExp a).toNat - 127, sfFrac a ||| 8388608⟩

/-- The end of `__addsf3`, where the first exponent is not the smaller one. -/
def sfAddAligned (as : Word) (x : Unpacked 32) (bs : Word) (y : Unpacked 32) : Word :=
  let diff := x.exp - y.exp
  let bm := if 31 < diff then 0 else y.mant >>> diff.toNat
  if as = bs then sfPack as x.exp (x.mant + bm)
  else if bm ≤ x.mant then sfPack as x.exp (x.mant - bm)
  else sfPack bs x.exp (bm - x.mant)

/-- `__addsf3`. -/
def addsf3 (a b : Word) : Word :=
  if sfAbs a = 0 then b
  else if sfAbs b = 0 then a
  else if sfExp a = 255 then a
  else if sfExp b = 255 then b
  else
    let x := sfUnpack a
    let y := sfUnpack b
    if x.exp < y.exp then sfAddAligned (sfSign b) y (sfSign a) x
    else sfAddAligned (sfSign a) x (sfSign b) y

/-- `__subsf3`. -/
def subsf3 (a b : Word) : Word := addsf3 a (b ^^^ 2147483648)

/-- `__mulsf3`. -/
def mulsf3 (a b : Word) : Word :=
  let sign := sfSign a ^^^ sfSign b
  if sfAbs a = 0 ∨ sfAbs b = 0 then sign <<< 31
  else if sfExp a = 255 then (sign <<< 31) ||| 2139095040
  else if sfExp b = 255 then (sign <<< 31) ||| 2139095040
  else
    let x := sfUnpack a
    let y := sfUnpack b
    let prod : Long := x.mant.setWidth 64 * y.mant.setWidth 64
    if prod >>> 47 ≠ 0 then sfPack sign (x.exp + y.exp + 1) ((prod >>> 24).setWidth 32)
    else sfPack sign (x.exp + y.exp) ((prod >>> 23).setWidth 32)

/-- `__divsf3`. -/
def divsf3 (a b : Word) : Word :=
  let sign := sfSign a ^^^ sfSign b
  if sfAbs b = 0 then (sign <<< 31) ||| 2139095040
  else if sfAbs a = 0 then sign <<< 31
  else if sfExp a = 255 then (sign <<< 31) ||| 2139095040
  else if sfExp b = 255 then sign <<< 31
  else
    let x := sfUnpack a
    let y := sfUnpack b
    let num : Long := x.mant.setWidth 64 <<< 23
    sfPack sign (x.exp - y.exp) ((num / y.mant.setWidth 64).setWidth 32)

/-! ## Double precision -/

/-- `__df_make`. -/
def dfMake (lo hi : Word) : Long := (hi.setWidth 64 <<< 32) ||| lo.setWidth 64

/-- `__df_sign`. -/
def dfSign (x : Long) : Word := (x >>> 63).setWidth 32

/-- `__df_exp`. -/
def dfExp (x : Long) : Word := ((x >>> 52) &&& 2047).setWidth 32

/-- `__df_frac`. -/
def dfFrac (x : Long) : Long := x &&& ((1#64 <<< 52) - 1)

/-- `__df_qnan`. -/
def dfQnan : Long := (2047#64 <<< 52) ||| (1#64 <<< 51)

/-- `__df_inf`. -/
def dfInf (sign : Word) : Long := (sign.setWidth 64 <<< 63) ||| (2047#64 <<< 52)

/-- `__df_is_nan`. -/
def dfIsNan (x : Long) : Bool := dfExp x = 2047 ∧ dfFrac x ≠ 0

/-- `__df_is_inf`. -/
def dfIsInf (x : Long) : Bool := dfExp x = 2047 ∧ dfFrac x = 0

/-- `__df_shift_right_jam`. -/
def dfShiftRightJam (v : Long) (dist : Int) : Long :=
  if dist ≤ 0 then v
  else if 63 ≤ dist then if v ≠ 0 then 1 else 0
  else
    let extra := v <<< (64 - dist).toNat
    if extra ≠ 0 then v >>> dist.toNat ||| 1 else v >>> dist.toNat

/-- `__df_shift_right_jam128`. -/
def dfShiftRightJam128 (hi lo : Long) (dist : Int) : Long :=
  if dist ≤ 0 then lo
  else if dist < 64 then
    let shifted := (lo >>> dist.toNat) ||| (hi <<< (64 - dist).toNat)
    if lo &&& ((1#64 <<< dist.toNat) - 1) ≠ 0 then shifted ||| 1 else shifted
  else if 63 ≤ dist - 64 then if hi ≠ 0 ∨ lo ≠ 0 then 1 else 0
  else
    let hdist := (dist - 64).toNat
    if lo ≠ 0 ∨ hi &&& ((1#64 <<< hdist) - 1) ≠ 0 then hi >>> hdist ||| 1 else hi >>> hdist

/-- The exponent and the significand that `__df_unpack` stores for a number; for an infinity and a NaN
it stores none. -/
def dfUnpack (x : Long) : Unpacked 64 :=
  if dfExp x = 0 then ⟨-1022, dfFrac x⟩ else ⟨(dfExp x).toNat - 1023, (1#64 <<< 52) ||| dfFrac x⟩

/-- `__df_normalize`. -/
def dfNormalize (x : Unpacked 64) : Unpacked 64 :=
  if x.mant = 0 then x else grow (1#64 <<< 52) (fun _ => true) x

/-- A turn of the first loop of `__df_pack`: what is lost stays in the lowest bit. -/
def Unpacked.halveSticky (x : Unpacked 64) : Unpacked 64 :=
  ⟨x.exp + 1, if x.mant &&& 1 ≠ 0 then (x.mant >>> 1) ||| 1 else x.mant >>> 1⟩

/-- The end of `__df_pack`, with an exponent in range: rounding, and the pattern. -/
def dfRound (sign : Word) (x : Unpacked 64) : Long :=
  let hidden := 1#64 <<< 52
  let rem := x.mant &&& 7
  let frac := x.mant >>> 3
  let frac := if 4 < rem ∨ (rem = 4 ∧ frac &&& 1 ≠ 0) then frac + 1 else frac
  let y : Unpacked 64 := if hidden <<< 1 ≤ frac then ⟨x.exp + 1, frac >>> 1⟩ else ⟨x.exp, frac⟩
  if 1023 < y.exp then dfInf sign
  else
    let expbits := if y.exp = -1022 ∧ y.mant < hidden then 0 else BitVec.ofInt 64 (y.exp + 1023)
    (sign.setWidth 64 <<< 63) ||| (expbits <<< 52) ||| (y.mant &&& (hidden - 1))

/-- The first loop of `__df_pack`. -/
def dfShrink (x : Unpacked 64) : Unpacked 64 :=
  turnWhile (fun x => decide (1#64 <<< 56 ≤ x.mant)) Unpacked.halveSticky 64 x

/-- The second loop of `__df_pack`. -/
def dfGrow (x : Unpacked 64) : Unpacked 64 := grow (1#64 <<< 55) (fun exp => -1022 < exp) x

/-- `__df_pack`. -/
def dfPack (sign : Word) (exp : Int) (mant : Long) : Long :=
  if mant = 0 then sign.setWidth 64 <<< 63
  else
    let x := dfGrow (dfShrink ⟨exp, mant⟩)
    if 1023 < x.exp then dfInf sign
    else if x.exp < -1022 then dfRound sign ⟨-1022, dfShiftRightJam x.mant (-1022 - x.exp)⟩
    else dfRound sign x

/-- The end of `__df_add_core`, where the first number is not the smaller one. -/
def dfAddAligned (as : Word) (x : Unpacked 64) (bs : Word) (y : Unpacked 64) : Long :=
  let am := x.mant <<< 3
  let bm := dfShiftRightJam (y.mant <<< 3) (x.exp - y.exp)
  if as = bs then dfPack as x.exp (am + bm)
  else if bm ≤ am then dfPack as x.exp (am - bm)
  else dfPack bs x.exp (bm - am)

/-- `__df_add_core`. -/
def dfAddCore (a b : Long) : Long :=
  if dfIsNan a ∨ dfIsNan b then dfQnan
  else if dfIsInf a ∧ dfIsInf b ∧ dfSign a ≠ dfSign b then dfQnan
  else if dfIsInf a then a
  else if dfIsInf b then b
  else if a <<< 1 = 0 ∧ b <<< 1 = 0 then if dfSign a ≠ 0 ∧ dfSign b ≠ 0 then 1#64 <<< 63 else 0
  else if a <<< 1 = 0 then b
  else if b <<< 1 = 0 then a
  else
    let x := dfNormalize (dfUnpack a)
    let y := dfNormalize (dfUnpack b)
    if x.exp < y.exp ∨ (x.exp = y.exp ∧ x.mant < y.mant) then dfAddAligned (dfSign b) y (dfSign a) x
    else dfAddAligned (dfSign a) x (dfSign b) y

/-- `__adddf3`. -/
def adddf3 (alo ahi blo bhi : Word) : Long := dfAddCore (dfMake alo ahi) (dfMake blo bhi)

/-- `__subdf3`. -/
def subdf3 (alo ahi blo bhi : Word) : Long := dfAddCore (dfMake alo ahi) (dfMake blo bhi ^^^ (1#64 <<< 63))

/-- `__u128_add`: the high and the low half of a sum. -/
def u128Add (x y : Long × Long) : Long × Long :=
  let lo := x.2 + y.2
  (if lo < x.2 then x.1 + y.1 + 1 else x.1 + y.1, lo)

/-- A turn of the loop of `__muldf3`. -/
def dfMulTurn (am bm : Long) (sum : Long × Long) (i : Nat) : Long × Long :=
  if (bm >>> i) &&& 1 ≠ 0 then
    u128Add sum (if i = 0 then (0, am) else (am >>> (64 - i), am <<< i))
  else sum

/-- `__muldf3`. -/
def muldf3 (alo ahi blo bhi : Word) : Long :=
  let a := dfMake alo ahi
  let b := dfMake blo bhi
  let sign := dfSign a ^^^ dfSign b
  if dfIsNan a ∨ dfIsNan b then dfQnan
  else if (dfIsInf a ∧ b <<< 1 = 0) ∨ (dfIsInf b ∧ a <<< 1 = 0) then dfQnan
  else if dfIsInf a ∨ dfIsInf b then dfInf sign
  else if a <<< 1 = 0 ∨ b <<< 1 = 0 then sign.setWidth 64 <<< 63
  else
    let x := dfNormalize (dfUnpack a)
    let y := dfNormalize (dfUnpack b)
    let prod := (List.range 53).foldl (dfMulTurn x.mant y.mant) (0, 0)
    if (prod.1 >>> 41) &&& 1 ≠ 0 then
      dfPack sign (x.exp + y.exp + 1) (dfShiftRightJam128 prod.1 prod.2 50)
    else dfPack sign (x.exp + y.exp) (dfShiftRightJam128 prod.1 prod.2 49)

/-- A turn of the loop of `__divdf3`: the remainder and the quotient. -/
def dfDivTurn (bm : Long) (s : Long × Long) : Long × Long :=
  let rem := s.1 <<< 1
  let q := s.2 <<< 1
  if bm ≤ rem then (rem - bm, q ||| 1) else (rem, q)

/-- `__divdf3`. -/
def divdf3 (alo ahi blo bhi : Word) : Long :=
  let a := dfMake alo ahi
  let b := dfMake blo bhi
  let sign := dfSign a ^^^ dfSign b
  if dfIsNan a ∨ dfIsNan b then dfQnan
  else if dfIsInf a ∧ dfIsInf b then dfQnan
  else if a <<< 1 = 0 ∧ b <<< 1 = 0 then dfQnan
  else if b <<< 1 = 0 then dfInf sign
  else if a <<< 1 = 0 then sign.setWidth 64 <<< 63
  else if dfIsInf a then dfInf sign
  else if dfIsInf b then sign.setWidth 64 <<< 63
  else
    let x := dfNormalize (dfUnpack a)
    let y := dfNormalize (dfUnpack b)
    let first : Int × Long :=
      if x.mant < y.mant then (x.exp - y.exp - 1, x.mant <<< 1) else (x.exp - y.exp, x.mant)
    let divided := (dfDivTurn y.mant)^[55] (first.2 - y.mant, 1)
    dfPack sign first.1 (if divided.1 ≠ 0 then divided.2 ||| 1 else divided.2)

end JsEmulator.Toolchain.RuntimeFloat
