import JsEmulator.Library.Doubles
import Mathlib.Data.BitVec
import Mathlib.Data.List.Basic

/-!
# Literals

How `tokenize.ts` reads the numeric, character and string literals of C, how `parse.ts` gives an
integer literal its type, and what `codegen.ts` emits for it.

The value of an integer literal passes through a double, and only a literal of type `long long`
carries a type of its own. A backslash is followed by one of the letters it knows, by `x` and
hexadecimal digits, or by a character that stands for itself; that includes the octal digits.
-/

namespace JsEmulator.Toolchain

open JsEmulator.Library

/-! ## The tokenizer -/

/-- `/[0-9a-fA-F]/`. -/
def isHexDigit (c : Char) : Bool :=
  ('0' ≤ c && c ≤ '9') || ('a' ≤ c && c ≤ 'f') || ('A' ≤ c && c ≤ 'F')

/-- `/[0-7]/`. -/
def isOctalDigit (c : Char) : Bool := '0' ≤ c && c ≤ '7'

/-- `isDigit`. -/
def isDigit (c : Char) : Bool := '0' ≤ c && c ≤ '9'

/-- `isIdentChar`. -/
def isIdentChar (c : Char) : Bool :=
  ('A' ≤ c && c ≤ 'Z') || ('a' ≤ c && c ≤ 'z') || isDigit c || c = '_'

/-- The value of a digit. -/
def digitValue (c : Char) : Nat :=
  if c ≤ '9' then c.toNat - 48 else if c ≤ 'F' then c.toNat - 55 else c.toNat - 87

/-- The number that digits stand for. -/
def valueOf (radix : Nat) (digits : List Char) : Nat :=
  digits.foldl (fun value c => value * radix + digitValue c) 0

/-- `Number.parseInt`. -/
def parseInt (radix : Nat) (digits : List Char) : Nat := Doubles.nearest (valueOf radix digits)

/-- A literal. The bits of a floating literal are those of its text. -/
inductive Token where
  | num (value : Nat) (isUnsignedLit is64Lit : Bool)
  | floating (text : List Char) (isFloatLit : Bool)
  | str (bytes : List Nat)
deriving DecidableEq, Repr

def isSuffixChar (c : Char) : Bool := c = 'u' || c = 'U' || c = 'l' || c = 'L'

/-- The end of an integer literal: its suffixes. -/
def integerToken (full : Nat) (source : List Char) : Token × List Char :=
  let suffix := source.takeWhile isSuffixChar
  let isUnsignedLit := suffix.any fun c => c = 'u' || c = 'U'
  let longCount := suffix.countP fun c => c = 'l' || c = 'L'
  let is64Lit := 2 ≤ longCount || 0xffffffff < full
  (.num (if is64Lit then full else full % 2 ^ 32) isUnsignedLit is64Lit, source.dropWhile isSuffixChar)

/-- The digits of a literal in some radix, and what follows. -/
def radixToken (radix : Nat) (accepts : Char → Bool) (source : List Char) : Token × List Char :=
  integerToken (parseInt radix (source.takeWhile accepts)) (source.dropWhile accepts)

/-- The exponent of a floating literal. -/
def exponent (source : List Char) : Option (List Char × List Char) :=
  match source with
  | e :: rest =>
    if e = 'e' || e = 'E' then
      let sign := match rest with
        | c :: _ => if c = '+' || c = '-' then [c] else []
        | [] => []
      let rest := rest.drop sign.length
      some (e :: sign ++ rest.takeWhile isDigit, rest.dropWhile isDigit)
    else none
  | [] => none

/-- The fraction of a floating literal. -/
def fraction (source : List Char) : Option (List Char × List Char) :=
  match source with
  | '.' :: rest => some ('.' :: rest.takeWhile isDigit, rest.dropWhile isDigit)
  | _ => none

/-- The suffix of a floating literal. -/
def floatingToken (text source : List Char) : Token × List Char :=
  match source with
  | c :: rest =>
    if c = 'f' || c = 'F' then (.floating (text ++ [c]) true, rest)
    else if c = 'l' || c = 'L' then (.floating (text ++ [c]) false, rest)
    else (.floating text false, source)
  | [] => (.floating text false, source)

/-- A decimal literal, integer or floating. -/
def decimalToken (source : List Char) : Token × List Char :=
  let digits := source.takeWhile isDigit
  let rest := source.dropWhile isDigit
  match fraction rest with
  | some (part, after) =>
    match exponent after with
    | some (power, after) => floatingToken (digits ++ part ++ power) after
    | none => floatingToken (digits ++ part) after
  | none =>
    match exponent rest with
    | some (power, after) => floatingToken (digits ++ power) after
    | none => integerToken (parseInt 10 digits) rest

/-- A numeric literal. -/
def numberToken (source : List Char) : Token × List Char :=
  match source with
  | '0' :: c :: rest =>
    if c = 'x' || c = 'X' then radixToken 16 isHexDigit rest
    else if c = 'b' || c = 'B' then radixToken 2 (fun d => d = '0' || d = '1') rest
    else if isOctalDigit c then radixToken 8 isOctalDigit (c :: rest)
    else decimalToken source
  | _ => decimalToken source

/-- The letters after a backslash that stand for a character. -/
def simpleEscape : Char → Option Nat
  | 'a' => some 7 | 'b' => some 8 | 't' => some 9 | 'n' => some 10 | 'v' => some 11
  | 'f' => some 12 | 'r' => some 13 | 'e' => some 27 | '0' => some 0 | '\\' => some 92
  | '\'' => some 39 | '"' => some 34
  | _ => none

/-- The value of a hexadecimal escape is summed up as a double. -/
def hexEscape (digits : List Char) : Nat :=
  digits.foldl (fun value c => Doubles.nearest (value * 16 + digitValue c)) 0 % 256

/-- `readEscape`, after the backslash. -/
def readEscape (source : List Char) : Option (Nat × List Char) :=
  match source with
  | [] => none
  | c :: rest =>
    match simpleEscape c with
    | some value => some (value, rest)
    | none =>
      if c = 'x' then some (hexEscape (rest.takeWhile isHexDigit), rest.dropWhile isHexDigit)
      else some (c.toNat % 256, rest)

/-- The end of a character literal. -/
def closeQuote (value : Nat) : List Char → Option (Token × List Char)
  | '\'' :: rest => some (.num value false false, rest)
  | _ => none

/-- A character literal, after the opening quote. -/
def charToken (source : List Char) : Option (Token × List Char) :=
  match source with
  | [] => none
  | '\\' :: rest => (readEscape rest).bind fun (value, rest) => closeQuote value rest
  | c :: rest => closeQuote (c.toNat % 256) rest

/-- The loop over a string literal, after the opening quote. -/
def stringBytes : Nat → List Char → Option (List Nat × List Char)
  | 0, _ => none
  | fuel + 1, source =>
    match source with
    | [] => none
    | '"' :: rest => some ([0], rest)
    | '\n' :: _ => none
    | '\\' :: rest =>
      (readEscape rest).bind fun (value, rest) =>
        (stringBytes fuel rest).map fun (bytes, rest) => (value :: bytes, rest)
    | c :: rest => (stringBytes fuel rest).map fun (bytes, rest) => (c.toNat % 256 :: bytes, rest)

/-- The token of a literal and what follows it. -/
def literalToken (source : List Char) : Option (Token × List Char) :=
  match source with
  | '\'' :: rest => charToken rest
  | '"' :: rest => (stringBytes (rest.length + 1) rest).map fun (bytes, rest) => (.str bytes, rest)
  | _ => some (numberToken source)

/-! ## The type and the code of an integer literal -/

/-- What `genExpr` and `gen64Expr` emit for the value of a literal: the register, or the pair of
registers, with the type that `primary` and `addType` give it. -/
inductive Constant where
  | int (r0 : BitVec 32)
  | llong (isUnsigned : Bool) (r0 r1 : BitVec 32)
deriving DecidableEq, Repr

/-- `primary` for an integer literal, with its code. -/
def constant (value : Nat) (isUnsignedLit is64Lit : Bool) : Constant :=
  if is64Lit then .llong isUnsignedLit (BitVec.ofNat 32 value) (BitVec.ofNat 32 (value / 2 ^ 32))
  else .int (BitVec.ofNat 32 value)

/-- The integer that a constant is, in its type. -/
def Constant.value : Constant → Int
  | .int r0 => r0.toInt
  | .llong true r0 r1 => (r1 ++ r0).toNat
  | .llong false r0 r1 => (r1 ++ r0).toInt

/-- A token compiles to an integer. -/
def Token.Compiles (t : Token) (n : Nat) : Prop :=
  match t with
  | .num value isUnsignedLit is64Lit => (constant value isUnsignedLit is64Lit).value = n
  | _ => False

/-! ## Integer literals of C -/

inductive Base where
  | decimal
  | octal
  | hexadecimal (upper : Bool)
deriving DecidableEq, Repr

def Base.radix : Base → Nat
  | .decimal => 10
  | .octal => 8
  | .hexadecimal _ => 16

def Base.accepts : Base → Char → Bool
  | .decimal => isDigit
  | .octal => isOctalDigit
  | .hexadecimal _ => isHexDigit

/-- What stands before the digits. -/
def Base.marker : Base → List Char
  | .decimal => []
  | .octal => ['0']
  | .hexadecimal upper => ['0', if upper then 'X' else 'x']

/-- The suffixes: an unsigned one, a long one, or both in either order. -/
def suffixes : List (List Char) :=
  let unsigneds := [['u'], ['U']]
  let longs := [['l'], ['L'], ['l', 'l'], ['L', 'L']]
  [] :: unsigneds ++ longs ++ (unsigneds.product longs).map (fun (u, l) => u ++ l) ++
    (unsigneds.product longs).map fun (u, l) => l ++ u

/-- An integer literal. A decimal one does not begin with zero, which is an octal literal. -/
structure IntegerLiteral where
  base : Base
  digits : List Char
  suffix : List Char
  accepted : ∀ c ∈ digits, base.accepts c = true
  present : base = .octal ∨ digits ≠ []
  leading : base = .decimal → digits.head? ≠ some '0'
  suffixed : suffix ∈ suffixes

namespace IntegerLiteral

def text (l : IntegerLiteral) : List Char := l.base.marker ++ l.digits ++ l.suffix

def value (l : IntegerLiteral) : Nat := valueOf l.base.radix l.digits

def isUnsigned (l : IntegerLiteral) : Bool := l.suffix.any fun c => c = 'u' || c = 'U'

/-- The suffix asks for `long long`. -/
def isLongLong (l : IntegerLiteral) : Bool := 2 ≤ l.suffix.countP fun c => c = 'l' || c = 'L'

end IntegerLiteral

/-- What follows a literal does not continue it. -/
def Apart (rest : List Char) : Prop := ∀ c ∈ rest.head?, isIdentChar c = false ∧ c ≠ '.'

theorem takeWhile_stops {p : Char → Bool} {l : List Char} (stops : ∀ c ∈ l.head?, p c = false) :
    l.takeWhile p = [] ∧ l.dropWhile p = l := by
  cases l with
  | nil => exact ⟨rfl, rfl⟩
  | cons c rest =>
    have no := stops c rfl
    exact ⟨List.takeWhile_cons_of_neg (by simp [no]), List.dropWhile_cons_of_neg (by simp [no])⟩

/-- A run of accepted characters is read up to the first that is not. -/
theorem span_append {p : Char → Bool} {run l : List Char} (accepted : ∀ c ∈ run, p c = true)
    (stops : ∀ c ∈ l.head?, p c = false) :
    (run ++ l).takeWhile p = run ∧ (run ++ l).dropWhile p = l := by
  obtain ⟨take, drop⟩ := takeWhile_stops stops
  rw [List.takeWhile_append_of_pos accepted, List.dropWhile_append_of_pos accepted, take, drop,
    List.append_nil]
  exact ⟨rfl, rfl⟩

theorem suffix_chars : ∀ suffix ∈ suffixes, ∀ c ∈ suffix, isSuffixChar c = true := by
  have checked : (suffixes.all fun suffix => suffix.all isSuffixChar) = true := by decide
  intro suffix listed c member
  exact List.all_eq_true.mp (List.all_eq_true.mp checked suffix listed) c member

/-- The character after the digits is not a digit, not an exponent and not a point. -/
def ends (c : Char) : Bool :=
  !isHexDigit c && !isOctalDigit c && !isDigit c && c ≠ '.' && c ≠ 'x' && c ≠ 'X'

variable {rest tail digits source : List Char} {c quote : Char} {e : Element}

theorem ends_of_suffix (mark : isSuffixChar c = true) : ends c = true := by
  simp only [isSuffixChar, Bool.or_eq_true, decide_eq_true_eq] at mark
  rcases mark with ((rfl | rfl) | rfl) | rfl <;> decide

/-- Digits and letters are characters of identifiers. -/
theorem ends_of_apart (other : isIdentChar c = false) (point : c ≠ '.') : ends c = true := by
  have letter : ∀ low high : Char, ('A' ≤ low ∧ high ≤ 'Z' ∨ 'a' ≤ low ∧ high ≤ 'z' ∨
      '0' ≤ low ∧ high ≤ '9') → ¬ (low ≤ c ∧ c ≤ high) := by
    rintro low high inside ⟨above, below⟩
    have member : isIdentChar c = true := by
      simp only [isIdentChar, isDigit, Bool.or_eq_true, Bool.and_eq_true, decide_eq_true_eq]
      rcases inside with ⟨a, z⟩ | ⟨a, z⟩ | ⟨a, z⟩
      · exact .inl (.inl (.inl ⟨Char.le_trans a above, Char.le_trans below z⟩))
      · exact .inl (.inl (.inr ⟨Char.le_trans a above, Char.le_trans below z⟩))
      · exact .inl (.inr ⟨Char.le_trans a above, Char.le_trans below z⟩)
    rw [other] at member
    cases member
  have digits := letter '0' '9' (by decide)
  have octals := letter '0' '7' (by decide)
  have lower := letter 'a' 'f' (by decide)
  have upper := letter 'A' 'F' (by decide)
  have small : c ≠ 'x' := fun same => letter 'x' 'x' (by decide) (by rw [same]; decide)
  have large : c ≠ 'X' := fun same => letter 'X' 'X' (by decide) (by rw [same]; decide)
  simp only [ends, isHexDigit, isOctalDigit, isDigit, Bool.and_eq_true, Bool.not_eq_true',
    Bool.or_eq_false_iff, Bool.and_eq_false_iff, decide_eq_true_eq, decide_eq_false_iff_not]
  refine ⟨⟨⟨⟨⟨⟨⟨?_, ?_⟩, ?_⟩, ?_⟩, ?_⟩, point⟩, small⟩, large⟩
  all_goals rw [← not_and_or]
  · exact digits
  · exact lower
  · exact upper
  · exact octals
  · exact digits

/-- What follows the digits of a literal. -/
theorem tail_ends (l : IntegerLiteral) (apart : Apart rest) :
    ∀ c ∈ (l.suffix ++ rest).head?, ends c = true := by
  intro c first
  rcases empty : l.suffix with - | ⟨mark, more⟩
  · rw [empty, List.nil_append] at first
    exact ends_of_apart (apart c first).1 (apart c first).2
  · rw [empty] at first
    obtain rfl : mark = c := Option.some.inj first
    exact ends_of_suffix (suffix_chars _ l.suffixed mark (by rw [empty]; exact List.mem_cons_self))

theorem ends_iff (c : Char) : ends c = true ↔ isHexDigit c = false ∧ isOctalDigit c = false ∧
    isDigit c = false ∧ c ≠ '.' ∧ c ≠ 'x' ∧ c ≠ 'X' := by
  simp only [ends, Bool.and_eq_true, Bool.not_eq_true', decide_eq_true_eq, and_assoc]

theorem integerToken_suffix (l : IntegerLiteral) (apart : Apart rest) (full : Nat) :
    integerToken full (l.suffix ++ rest) =
      (.num (if l.isLongLong || 0xffffffff < full then full else full % 2 ^ 32) l.isUnsigned
        (l.isLongLong || 0xffffffff < full), rest) := by
  have stops : ∀ c ∈ rest.head?, isSuffixChar c = false := by
    intro c first
    have other := (apart c first).1
    by_contra mark
    simp only [isSuffixChar, Bool.not_eq_false, Bool.or_eq_true, decide_eq_true_eq] at mark
    rcases mark with ((rfl | rfl) | rfl) | rfl <;> exact absurd other (by decide)
  obtain ⟨take, drop⟩ := span_append (suffix_chars _ l.suffixed) stops
  rw [integerToken, take, drop]
  rfl

theorem radixToken_literal (l : IntegerLiteral) (apart : Apart rest)
    (stops : ∀ c, ends c = true → l.base.accepts c = false) :
    radixToken l.base.radix l.base.accepts (l.digits ++ (l.suffix ++ rest)) =
      integerToken (Doubles.nearest l.value) (l.suffix ++ rest) := by
  obtain ⟨take, drop⟩ := span_append l.accepted fun c first => stops c (tail_ends l apart c first)
  rw [radixToken, take, drop]
  rfl

/-- Decimal digits that no point or exponent follows. -/
theorem decimalToken_digits {digits tail : List Char} (accepted : ∀ c ∈ digits, isDigit c = true)
    (stops : ∀ c ∈ tail.head?, ends c = true) :
    decimalToken (digits ++ tail) = integerToken (parseInt 10 digits) tail := by
  obtain ⟨take, drop⟩ := span_append accepted fun c first => ((ends_iff c).mp (stops c first)).2.2.1
  rw [decimalToken, take, drop]
  rcases tail with - | ⟨c, more⟩
  · rfl
  obtain ⟨hex, -, -, point, -⟩ := (ends_iff c).mp (stops c rfl)
  have whole : fraction (c :: more) = none := by
    unfold fraction
    split
    · simp_all
    · rfl
  have plain : exponent (c :: more) = none := by
    have lower : c ≠ 'e' := fun same => by rw [same] at hex; revert hex; decide
    have upper : c ≠ 'E' := fun same => by rw [same] at hex; revert hex; decide
    simp [exponent, lower, upper]
  rw [whole, plain]

theorem numberToken_decimal (first : source.head? ≠ some '0') :
    numberToken source = decimalToken source := by
  unfold numberToken
  split
  · exact absurd rfl first
  · rfl

/-- A zero that is not followed by a digit or a marker is a decimal token. -/
theorem numberToken_zero (stops : ∀ c ∈ tail.head?, ends c = true) :
    numberToken ('0' :: tail) = integerToken 0 tail := by
  have decimal : decimalToken ('0' :: tail) = integerToken 0 tail :=
    @decimalToken_digits ['0'] tail (List.forall_mem_singleton.mpr rfl) stops
  rcases tail with - | ⟨c, more⟩
  · exact decimal
  obtain ⟨hex, octal, -, -, lower, upper⟩ := (ends_iff c).mp (stops c rfl)
  have b : c ≠ 'b' := fun same => by rw [same] at hex; revert hex; decide
  have B : c ≠ 'B' := fun same => by rw [same] at hex; revert hex; decide
  simp [numberToken, lower, upper, b, B, octal, decimal]

theorem octal_digit (octal : isOctalDigit c = true) : c ≠ 'x' ∧ c ≠ 'X' ∧ c ≠ 'b' ∧ c ≠ 'B' := by
  refine ⟨?_, ?_, ?_, ?_⟩ <;> rintro rfl <;> revert octal <;> decide

/-- A literal is read up to its end. -/
theorem numberToken_literal (l : IntegerLiteral) (apart : Apart rest) :
    numberToken (l.text ++ rest) =
      integerToken (Doubles.nearest l.value) (l.suffix ++ rest) := by
  have follows := tail_ends l apart
  have read := radixToken_literal l apart
  have text : l.text ++ rest = l.base.marker ++ (l.digits ++ (l.suffix ++ rest)) := by
    simp only [IntegerLiteral.text, List.append_assoc]
  rw [text]
  rcases based : l.base with - | - | upper
  · have accepted := l.accepted
    have nonempty : l.digits ≠ [] := l.present.resolve_left (by rw [based]; decide)
    have first : (l.digits ++ (l.suffix ++ rest)).head? ≠ some '0' := by
      rw [List.head?_append_of_ne_nil _ nonempty]
      exact l.leading based
    rw [based] at accepted
    rw [Base.marker, List.nil_append, numberToken_decimal first, decimalToken_digits accepted follows,
      IntegerLiteral.value, based]
    rfl
  · have accepted := l.accepted
    rw [based] at accepted read
    rcases digits : l.digits with - | ⟨d, more⟩
    · rw [List.nil_append, IntegerLiteral.value, digits]
      exact numberToken_zero follows
    rw [digits] at accepted read
    have octal : isOctalDigit d = true := accepted d List.mem_cons_self
    obtain ⟨x, X, b, B⟩ := octal_digit octal
    rw [← read fun c ends => ((ends_iff c).mp ends).2.1]
    simp [numberToken, Base.marker, x, X, b, B, octal]
    rfl
  · rw [based] at read
    rw [← read fun c ends => ((ends_iff c).mp ends).1]
    cases upper <;> simp [numberToken, Base.marker] <;> rfl

/-! ## What an integer literal compiles to -/

theorem pair_bits (n : Nat) :
    BitVec.ofNat 32 (n / 2 ^ 32) ++ BitVec.ofNat 32 n = BitVec.ofNat 64 n := by
  apply BitVec.eq_of_toNat_eq
  rw [BitVec.toNat_append, BitVec.toNat_ofNat, BitVec.toNat_ofNat, BitVec.toNat_ofNat,
    ← Nat.shiftLeft_add_eq_or_of_lt (Nat.mod_lt _ (by omega)), Nat.shiftLeft_eq]
  omega

/-- The literals that are right: those of type `int`, and those of type `long long` that are
doubles and fit. -/
def IntegerLiteral.Fits (l : IntegerLiteral) : Prop :=
  l.value < 2 ^ 31 ∨ (l.isLongLong = true ∨ 2 ^ 32 ≤ l.value) ∧ Doubles.Exact l.value ∧
    (l.isUnsigned = true ∨ l.value < 2 ^ 63)

theorem text_first (l : IntegerLiteral) (rest : List Char) :
    ∃ c more, l.text ++ rest = c :: more ∧ isDigit c = true := by
  rcases based : l.base with - | - | upper
  · have accepted := l.accepted
    rw [based] at accepted
    obtain ⟨c, more, digits⟩ := List.exists_cons_of_ne_nil (l.present.resolve_left (by rw [based]; decide))
    refine ⟨c, more ++ (l.suffix ++ rest), ?_, accepted c (by rw [digits]; exact List.mem_cons_self)⟩
    simp [IntegerLiteral.text, based, Base.marker, digits]
  all_goals exact ⟨'0', _, by simp [IntegerLiteral.text, based, Base.marker]; rfl, by decide⟩

theorem literalToken_number {more : List Char} (digit : isDigit c = true) :
    literalToken (c :: more) = some (numberToken (c :: more)) := by
  unfold literalToken
  split
  · simp_all [isDigit]
  · simp_all [isDigit]
  · rfl

/-- The constant of a `long long` literal is that of its double. -/
theorem constant_long (full : Nat) (isUnsigned : Bool) :
    (constant full isUnsigned true).value =
      if isUnsigned then ((full % 2 ^ 64 : Nat) : Int) else (BitVec.ofNat 64 full).toInt := by
  cases isUnsigned with
  | true =>
    change (((BitVec.ofNat 32 (full / 2 ^ 32) ++ BitVec.ofNat 32 full).toNat : Nat) : Int) = _
    rw [pair_bits, BitVec.toNat_ofNat]
    rfl
  | false =>
    change (BitVec.ofNat 32 (full / 2 ^ 32) ++ BitVec.ofNat 32 full).toInt = _
    rw [pair_bits]
    rfl

/-- A double that is congruent to the value it was rounded from is that value. -/
theorem nearest_mod_eq_iff {n : Nat} (bound : n < 2 ^ 64) :
    Doubles.nearest n % 2 ^ 64 = n ↔ Doubles.Exact n := by
  rw [← Doubles.nearest_eq_iff]
  have high : Doubles.nearest n ≤ n + Doubles.ulp n := Doubles.nearest_le n
  have weight : Doubles.ulp n ≤ 2 ^ 11 := by
    refine Nat.pow_le_pow_right (by omega) ?_
    rcases Nat.eq_zero_or_pos n with rfl | positive
    · simp
    · have log : Nat.log2 n < 64 := (Nat.log2_lt (by omega)).mpr bound
      omega
  omega

/-- A word that is read as a signed number. -/
theorem toInt_ofNat_eq_iff (w m n : Nat) :
    (BitVec.ofNat w m).toInt = n ↔ m % 2 ^ w = n ∧ 2 * n < 2 ^ w := by
  have below : m % 2 ^ w < 2 ^ w := Nat.mod_lt _ (Nat.two_pow_pos w)
  rw [BitVec.toInt_eq_toNat_cond, BitVec.toNat_ofNat]
  split_ifs with small
  · omega
  · have negative : ((2 ^ w : Nat) : Int) = 2 ^ w := by push_cast; rfl
    omega

theorem long_value_iff {n : Nat} (bound : n < 2 ^ 64) (isUnsigned : Bool) :
    (constant (Doubles.nearest n) isUnsigned true).value = n ↔
      Doubles.Exact n ∧ (isUnsigned = true ∨ n < 2 ^ 63) := by
  rw [constant_long, ← nearest_mod_eq_iff bound]
  cases isUnsigned with
  | true =>
    rw [if_pos rfl, Int.ofNat_inj]
    simp
  | false =>
    rw [if_neg (by simp), toInt_ofNat_eq_iff]
    simp
    omega

/-- A literal compiles to its value exactly if it fits. -/
theorem literal_compiles_iff (l : IntegerLiteral) (bound : l.value < 2 ^ 64) (apart : Apart rest) :
    (∃ t, literalToken (l.text ++ rest) = some (t, rest) ∧ t.Compiles l.value) ↔ l.Fits := by
  obtain ⟨c, more, text, digit⟩ := text_first l rest
  have read : literalToken (l.text ++ rest) = some (.num
      (if l.isLongLong || 0xffffffff < Doubles.nearest l.value then Doubles.nearest l.value
        else Doubles.nearest l.value % 2 ^ 32) l.isUnsigned
      (l.isLongLong || 0xffffffff < Doubles.nearest l.value), rest) := by
    rw [text, literalToken_number digit, ← text, numberToken_literal l apart,
      integerToken_suffix l apart]
  have compiled : (∃ t, literalToken (l.text ++ rest) = some (t, rest) ∧ t.Compiles l.value) ↔
      (constant (if l.isLongLong || 0xffffffff < Doubles.nearest l.value then Doubles.nearest l.value
        else Doubles.nearest l.value % 2 ^ 32) l.isUnsigned
        (l.isLongLong || 0xffffffff < Doubles.nearest l.value)).value = l.value := by
    rw [read]
    constructor
    · rintro ⟨t, same, compiles⟩
      cases same
      exact compiles
    · exact fun compiles => ⟨_, rfl, compiles⟩
  have wide : 0xffffffff < Doubles.nearest l.value ↔ 2 ^ 32 ≤ l.value := by
    have short : Doubles.nearest l.value < 2 ^ 32 ↔ l.value < 2 ^ 32 :=
      Doubles.nearest_lt_iff (by decide)
    omega
  rw [compiled, IntegerLiteral.Fits]
  by_cases long : l.isLongLong = true ∨ 2 ^ 32 ≤ l.value
  · have is64 : (l.isLongLong || decide (0xffffffff < Doubles.nearest l.value)) = true := by
      simpa [wide] using long
    rw [is64, if_pos rfl, long_value_iff bound]
    constructor
    · exact fun fits => .inr ⟨long, fits⟩
    · rintro (small | ⟨-, fits⟩)
      · exact ⟨.inl (by omega), .inr (by omega)⟩
      · exact fits
  · have is32 : (l.isLongLong || decide (0xffffffff < Doubles.nearest l.value)) = false := by
      simpa [wide] using long
    have small : l.value < 2 ^ 32 := by
      by_contra large
      exact long (.inr (by omega))
    rw [is32, if_neg (by simp), Doubles.nearest_of_lt (by omega), Nat.mod_eq_of_lt small]
    change (BitVec.ofNat 32 l.value).toInt = _ ↔ _
    rw [or_iff_left fun other => long other.1, toInt_ofNat_eq_iff]
    omega

/-! ## Character and string literals of C -/

/-- An element of a character or string literal. -/
inductive Element where
  | plain (c : Char)
  | simple (c : Char)
  | octal (digits : List Char)
  | hex (digits : List Char)
deriving DecidableEq, Repr

/-- The simple escape sequences of C. -/
def cEscape : Char → Option Nat
  | '\'' => some 39 | '"' => some 34 | '?' => some 63 | '\\' => some 92
  | 'a' => some 7 | 'b' => some 8 | 'f' => some 12 | 'n' => some 10 | 'r' => some 13
  | 't' => some 9 | 'v' => some 11
  | _ => none

namespace Element

def text : Element → List Char
  | .plain c => [c]
  | .simple c => ['\\', c]
  | .octal digits => '\\' :: digits
  | .hex digits => '\\' :: 'x' :: digits

/-- The byte that C prescribes. -/
def byte : Element → Nat
  | .plain c => c.toNat
  | .simple c => (cEscape c).getD 0
  | .octal digits => valueOf 8 digits
  | .hex digits => valueOf 16 digits

/-- The elements of C between quotes: characters of ASCII, and escapes whose value is a byte. -/
def Valid (quote : Char) : Element → Prop
  | .plain c => c.toNat < 128 ∧ c ≠ quote ∧ c ≠ '\\' ∧ c ≠ '\n'
  | .simple c => (cEscape c).isSome = true
  | .octal digits => digits ≠ [] ∧ digits.length ≤ 3 ∧ (∀ c ∈ digits, isOctalDigit c = true) ∧
      valueOf 8 digits < 256
  | .hex digits => digits ≠ [] ∧ (∀ c ∈ digits, isHexDigit c = true) ∧ valueOf 16 digits < 256

/-- What follows an escape does not continue it. -/
def Closed (e : Element) (tail : List Char) : Prop :=
  match e with
  | .hex _ => ∀ c ∈ tail.head?, isHexDigit c = false
  | .octal digits => digits.length < 3 → ∀ c ∈ tail.head?, isOctalDigit c = false
  | .plain _ | .simple _ => True

/-- What the tokenizer makes of an element: after a backslash it reads one octal digit, and the
others as characters. -/
def read : Element → List Nat
  | .plain c => [c.toNat % 256]
  | .simple c => [(simpleEscape c).getD (c.toNat % 256)]
  | .octal digits =>
    match digits with
    | [] => []
    | d :: more => (simpleEscape d).getD (d.toNat % 256) :: more.map fun c => c.toNat % 256
  | .hex digits => [hexEscape digits]

/-- The turns of the loop that read an element. -/
def turns : Element → Nat
  | .octal digits => digits.length
  | _ => 1

/-- An octal escape other than the null character. -/
def Misread (e : Element) : Prop := ∃ digits, e = .octal digits ∧ digits ≠ ['0']

end Element

/-- The text of the elements of a literal. -/
def textOf (elements : List Element) : List Char := elements.flatMap Element.text

/-- Every escape ends where the next element begins. -/
def Separated : List Element → Prop
  | [] => True
  | e :: rest => e.Closed (textOf rest) ∧ Separated rest

theorem le_foldl_digits (radix : Nat) (positive : 0 < radix) (digits : List Char) (start : Nat) :
    start ≤ digits.foldl (fun value c => value * radix + digitValue c) start := by
  induction digits generalizing start with
  | nil => exact le_rfl
  | cons c rest ih =>
    refine le_trans ?_ (ih _)
    exact (Nat.le_mul_of_pos_right start positive).trans (Nat.le_add_right _ _)

/-- A hexadecimal escape that is a byte is not rounded. -/
theorem hexEscape_eq (bound : valueOf 16 digits < 256) : hexEscape digits = valueOf 16 digits := by
  have exact : ∀ (digits : List Char) start, digits.foldl (fun value c => value * 16 + digitValue c) start < 256 →
      digits.foldl (fun value c => Doubles.nearest (value * 16 + digitValue c)) start =
        digits.foldl (fun value c => value * 16 + digitValue c) start := by
    intro digits
    induction digits with
    | nil => exact fun _ _ => rfl
    | cons c rest ih =>
      intro start small
      have first := le_foldl_digits 16 (by omega) rest (start * 16 + digitValue c)
      rw [List.foldl_cons] at small ⊢
      rw [List.foldl_cons, Doubles.nearest_of_lt (by omega)]
      exact ih _ small
  rw [hexEscape, exact digits 0 bound]
  exact Nat.mod_eq_of_lt bound

/-- A character that is neither a quote, a backslash nor a newline. -/
theorem stringBytes_plain (fuel : Nat) (tail : List Char) (quote : c ≠ '"') (backslash : c ≠ '\\')
    (newline : c ≠ '\n') :
    stringBytes (fuel + 1) (c :: tail) =
      (stringBytes fuel tail).map fun (bytes, rest) => (c.toNat % 256 :: bytes, rest) := by
  rw [stringBytes]
  all_goals assumption

theorem stringBytes_escape {value : Nat} (fuel : Nat)
    (escape : readEscape source = some (value, tail)) :
    stringBytes (fuel + 1) ('\\' :: source) =
      (stringBytes fuel tail).map fun (bytes, rest) => (value :: bytes, rest) := by
  simp [stringBytes, escape]

/-- Octal digits that are read as characters. -/
theorem stringBytes_digits (octal : ∀ c ∈ digits, isOctalDigit c = true) (fuel : Nat)
    (tail : List Char) :
    stringBytes (fuel + digits.length) (digits ++ tail) = (stringBytes fuel tail).map
      fun (bytes, rest) => (digits.map (fun c => c.toNat % 256) ++ bytes, rest) := by
  induction digits with
  | nil => simp
  | cons c digits ih =>
    have digit := octal c List.mem_cons_self
    rw [List.length_cons, ← Nat.add_assoc, List.cons_append, stringBytes_plain,
      ih fun d member => octal d (List.mem_cons_of_mem _ member), Option.map_map]
    · rfl
    all_goals rintro rfl; revert digit; decide

theorem readEscape_octal {d : Char} (octal : isOctalDigit d = true) (tail : List Char) :
    readEscape (d :: tail) = some ((simpleEscape d).getD (d.toNat % 256), tail) := by
  have letter : d ≠ 'x' := (octal_digit octal).1
  rcases known : simpleEscape d with - | value <;> simp [readEscape, known, letter]

theorem readEscape_simple (known : (cEscape c).isSome = true) (tail : List Char) :
    readEscape (c :: tail) = some ((simpleEscape c).getD (c.toNat % 256), tail) := by
  have letter : c ≠ 'x' := by
    rintro rfl
    cases known
  rcases found : simpleEscape c with - | value <;> simp [readEscape, found, letter]

theorem readEscape_hex (accepted : ∀ c ∈ digits, isHexDigit c = true)
    (closed : ∀ c ∈ tail.head?, isHexDigit c = false) :
    readEscape ('x' :: (digits ++ tail)) = some (hexEscape digits, tail) := by
  obtain ⟨take, drop⟩ := span_append accepted closed
  simp [readEscape, simpleEscape, take, drop]

/-- The loop reads an element. -/
theorem stringBytes_element (valid : e.Valid '"') (closed : e.Closed tail) (fuel : Nat) :
    stringBytes (fuel + e.turns) (e.text ++ tail) =
      (stringBytes fuel tail).map fun (bytes, rest) => (e.read ++ bytes, rest) := by
  cases e with
  | plain c => exact stringBytes_plain fuel tail valid.2.1 valid.2.2.1 valid.2.2.2
  | simple c => exact stringBytes_escape fuel (readEscape_simple valid tail)
  | hex digits => exact stringBytes_escape fuel (readEscape_hex valid.2.1 closed)
  | octal digits =>
    obtain ⟨nonempty, -, octal, -⟩ := valid
    obtain ⟨d, more, rfl⟩ := List.exists_cons_of_ne_nil nonempty
    change stringBytes (fuel + more.length + 1) ('\\' :: (d :: (more ++ tail))) = _
    rw [stringBytes_escape _ (readEscape_octal (octal d List.mem_cons_self) _),
      stringBytes_digits fun c member => octal c (List.mem_cons_of_mem _ member), Option.map_map]
    rfl

theorem turns_le (e : Element) : e.turns ≤ e.text.length := by
  cases e <;> simp [Element.turns, Element.text]

/-- The closing quote does not continue an escape. -/
theorem Element.Closed.quoted (closed : e.Closed tail)
    (mark : isHexDigit quote = false ∧ isOctalDigit quote = false) :
    e.Closed (tail ++ quote :: rest) := by
  cases e with
  | plain c => trivial
  | simple c => trivial
  | octal digits =>
    intro short c first
    cases tail with
    | nil => exact Option.some.inj first ▸ mark.2
    | cons d more => exact closed short c first
  | hex digits =>
    intro c first
    cases tail with
    | nil => exact Option.some.inj first ▸ mark.1
    | cons d more => exact closed c first

/-- The loop reads a whole literal. -/
theorem stringBytes_elements {elements : List Element} (valid : ∀ e ∈ elements, e.Valid '"')
    (separated : Separated elements) {fuel : Nat} (enough : (textOf elements).length < fuel)
    (rest : List Char) : stringBytes fuel (textOf elements ++ '"' :: rest) =
      some (elements.flatMap Element.read ++ [0], rest) := by
  induction elements generalizing fuel with
  | nil =>
    obtain ⟨fuel, rfl⟩ : ∃ k, fuel = k + 1 := ⟨fuel - 1, by omega⟩
    simp [textOf, stringBytes]
  | cons e elements ih =>
    have split : textOf (e :: elements) = e.text ++ textOf elements := by simp [textOf]
    rw [split, List.length_append] at enough
    have turns := turns_le e
    obtain ⟨fuel, rfl⟩ : ∃ k, fuel = k + e.turns := ⟨fuel - e.turns, by omega⟩
    rw [split, List.append_assoc, stringBytes_element (valid e List.mem_cons_self)
      (separated.1.quoted (by decide)), ih
        (fun other member => valid other (List.mem_cons_of_mem _ member)) separated.2 (by omega)]
    simp

/-- Pieces that are not empty make up a list of single elements only if each of them is one. -/
theorem flatMap_eq_map_iff {α β : Type} {f : α → List β} {g : α → β} {items : List α}
    (nonempty : ∀ a ∈ items, f a ≠ []) :
    items.flatMap f = items.map g ↔ ∀ a ∈ items, f a = [g a] := by
  have longer : ∀ items : List α, (∀ a ∈ items, f a ≠ []) → items.length ≤ (items.flatMap f).length := by
    intro items
    induction items with
    | nil => exact fun _ => le_rfl
    | cons a rest ih =>
      intro nonempty
      have later := ih fun b member => nonempty b (List.mem_cons_of_mem _ member)
      have first := List.length_pos_iff.mpr (nonempty a List.mem_cons_self)
      rw [List.flatMap_cons, List.length_append, List.length_cons]
      omega
  constructor
  · intro same
    induction items with
    | nil => simp
    | cons a rest ih =>
      have later := fun b member => nonempty b (List.mem_cons_of_mem a member)
      have short : (f a).length = 1 := by
        have lengths := congrArg List.length same
        have first := List.length_pos_iff.mpr (nonempty a List.mem_cons_self)
        have enough := longer rest later
        rw [List.flatMap_cons, List.length_append, List.length_map, List.length_cons] at lengths
        omega
      obtain ⟨b, single⟩ := List.length_eq_one_iff.mp short
      rw [List.flatMap_cons, single, List.map_cons, List.singleton_append, List.cons_eq_cons] at same
      intro c member
      rcases List.mem_cons.mp member with rfl | member
      · rw [single, same.1]
      · exact ih later same.2 c member
  · intro single
    induction items with
    | nil => rfl
    | cons a rest ih =>
      rw [List.flatMap_cons, single a List.mem_cons_self, List.map_cons, List.singleton_append,
        ih (fun b member => nonempty b (List.mem_cons_of_mem _ member))
          fun b member => single b (List.mem_cons_of_mem _ member)]

theorem read_nonempty (valid : e.Valid quote) : e.read ≠ [] := by
  cases e with
  | octal digits =>
    obtain ⟨d, more, rfl⟩ := List.exists_cons_of_ne_nil valid.1
    exact List.cons_ne_nil _ _
  | _ => exact List.cons_ne_nil _ _

/-- The tokenizer knows the simple escapes of C; a question mark stands for itself. -/
theorem simpleEscape_eq (known : (cEscape c).isSome = true) :
    (simpleEscape c).getD (c.toNat % 256) = (cEscape c).getD 0 := by
  unfold cEscape at known ⊢
  split at known <;> first | rfl | cases known

theorem octal_cases {d : Char} (octal : isOctalDigit d = true) : d = '0' ∨ d = '1' ∨ d = '2' ∨
    d = '3' ∨ d = '4' ∨ d = '5' ∨ d = '6' ∨ d = '7' := by
  have bounds : 48 ≤ d.toNat ∧ d.toNat ≤ 55 := by
    simpa [isOctalDigit, Char.le_def, UInt32.le_iff_toNat_le] using octal
  have same : d = Char.ofNat d.toNat := (Char.ofNat_toNat d).symm
  have cases : d.toNat = 48 ∨ d.toNat = 49 ∨ d.toNat = 50 ∨ d.toNat = 51 ∨ d.toNat = 52 ∨
      d.toNat = 53 ∨ d.toNat = 54 ∨ d.toNat = 55 := by omega
  rcases cases with n | n | n | n | n | n | n | n <;> rw [n] at same <;> rw [same] <;> decide

theorem octal_read_iff (octal : ∀ c ∈ digits, isOctalDigit c = true) (nonempty : digits ≠ []) :
    (Element.octal digits).read = [valueOf 8 digits] ↔ digits = ['0'] := by
  obtain ⟨d, more, rfl⟩ := List.exists_cons_of_ne_nil nonempty
  constructor
  · intro same
    have last : more = [] := by
      have lengths := congrArg List.length same
      simpa [Element.read] using lengths
    subst last
    rcases octal_cases (octal d List.mem_cons_self) with
      rfl | rfl | rfl | rfl | rfl | rfl | rfl | rfl
    · rfl
    all_goals revert same; decide
  · rintro ⟨⟩
    decide

theorem read_eq_iff (valid : e.Valid quote) : e.read = [e.byte] ↔ ¬ e.Misread := by
  cases e with
  | plain c =>
    refine iff_of_true ?_ fun ⟨_, impossible, _⟩ => by cases impossible
    have ascii : c.toNat < 128 := valid.1
    exact congrArg (fun n => [n]) (Nat.mod_eq_of_lt (by omega))
  | simple c =>
    refine iff_of_true ?_ fun ⟨_, impossible, _⟩ => by cases impossible
    exact congrArg (fun n => [n]) (simpleEscape_eq valid)
  | hex digits =>
    refine iff_of_true ?_ fun ⟨_, impossible, _⟩ => by cases impossible
    exact congrArg (fun n => [n]) (hexEscape_eq valid.2.2)
  | octal digits =>
    refine (octal_read_iff valid.2.2.1 valid.1).trans ?_
    constructor
    · rintro same ⟨other, ⟨⟩, differs⟩
      exact differs same
    · intro read
      by_contra differs
      exact read ⟨digits, rfl, differs⟩

theorem charToken_escape {value : Nat} (escape : readEscape source = some (value, tail)) :
    charToken ('\\' :: source) = closeQuote value tail := by
  simp [charToken, escape]

theorem closeQuote_eq_some_iff (value byte : Nat) (rest : List Char) :
    closeQuote value ('\'' :: rest) = some (.num byte false false, rest) ↔ [value] = [byte] := by
  simp [closeQuote]

theorem closeQuote_of_ne (value : Nat) (rest : List Char) (other : c ≠ '\'') :
    closeQuote value (c :: rest) = none := by
  rw [closeQuote]
  simpa using other

/-- A character literal is its byte unless it is an octal escape that is misread. -/
theorem charToken_iff (valid : e.Valid '\'') (rest : List Char) :
    literalToken ('\'' :: (e.text ++ '\'' :: rest)) = some (.num e.byte false false, rest) ↔
      ¬ e.Misread := by
  have path : literalToken ('\'' :: (e.text ++ '\'' :: rest)) = charToken (e.text ++ '\'' :: rest) := rfl
  rw [path, ← read_eq_iff valid]
  cases e with
  | plain c =>
    have read : charToken (c :: '\'' :: rest) = closeQuote (c.toNat % 256) ('\'' :: rest) := by
      rw [charToken]
      exact valid.2.2.1
    exact read ▸ closeQuote_eq_some_iff _ _ rest
  | simple c =>
    exact charToken_escape (readEscape_simple valid ('\'' :: rest)) ▸ closeQuote_eq_some_iff _ _ rest
  | hex digits =>
    have closed : ∀ c ∈ ('\'' :: rest).head?, isHexDigit c = false := by
      rintro c ⟨⟩
      decide
    exact charToken_escape (readEscape_hex valid.2.1 closed) ▸ closeQuote_eq_some_iff _ _ rest
  | octal digits =>
    obtain ⟨nonempty, -, octal, -⟩ := valid
    obtain ⟨d, more, rfl⟩ := List.exists_cons_of_ne_nil nonempty
    have read := charToken_escape (readEscape_octal (octal d List.mem_cons_self) (more ++ '\'' :: rest))
    cases more with
    | nil => exact read ▸ closeQuote_eq_some_iff _ _ rest
    | cons c more =>
      -- the second digit stands where the closing quote is expected
      have digit : c ≠ '\'' := by
        rintro rfl
        exact absurd (octal '\'' (by simp)) (by decide)
      refine iff_of_false (fun found => ?_) (by simp [Element.read])
      change charToken ('\\' :: d :: (c :: more ++ '\'' :: rest)) = _ at found
      rw [read, List.cons_append, closeQuote_of_ne _ _ digit] at found
      cases found

/-- A string literal is its bytes unless one of its octal escapes is misread. -/
theorem stringToken_iff {elements : List Element} (valid : ∀ e ∈ elements, e.Valid '"')
    (separated : Separated elements) (rest : List Char) :
    literalToken ('"' :: (textOf elements ++ '"' :: rest)) =
        some (.str (elements.map Element.byte ++ [0]), rest) ↔
      ∀ e ∈ elements, ¬ e.Misread := by
  have read : literalToken ('"' :: (textOf elements ++ '"' :: rest)) =
      some (.str (elements.flatMap Element.read ++ [0]), rest) := by
    change (stringBytes ((textOf elements ++ '"' :: rest).length + 1)
      (textOf elements ++ '"' :: rest)).map _ = _
    rw [stringBytes_elements valid separated (by rw [List.length_append]; omega)]
    rfl
  have bytes : elements.flatMap Element.read = elements.map Element.byte ↔
      ∀ e ∈ elements, ¬ e.Misread := by
    rw [flatMap_eq_map_iff fun e member => read_nonempty (valid e member)]
    exact forall₂_congr fun e member => read_eq_iff (valid e member)
  rw [read, ← bytes]
  simp

/-- An integer literal below `2 ^ 64` compiles to its value exactly if it fits: it is below `2 ^ 31`, or
it is of type `long long`, it is a double, and it is unsigned or below `2 ^ 63`. A character literal and
a string literal are the bytes of C exactly if no octal escape but the null character occurs. -/
theorem literals_denote_iff (rest : List Char) :
    (∀ l : IntegerLiteral, l.value < 2 ^ 64 → Apart rest →
      ((∃ t, literalToken (l.text ++ rest) = some (t, rest) ∧ t.Compiles l.value) ↔ l.Fits)) ∧
    (∀ e : Element, e.Valid '\'' →
      (literalToken ('\'' :: (e.text ++ '\'' :: rest)) = some (.num e.byte false false, rest) ↔
        ¬ e.Misread)) ∧
    ∀ elements : List Element, (∀ e ∈ elements, e.Valid '"') → Separated elements →
      (literalToken ('"' :: (textOf elements ++ '"' :: rest)) =
          some (.str (elements.map Element.byte ++ [0]), rest) ↔
        ∀ e ∈ elements, ¬ e.Misread) :=
  ⟨fun l bound apart => literal_compiles_iff l bound apart,
    fun _ valid => charToken_iff valid rest,
    fun _ valid separated => stringToken_iff valid separated rest⟩

/-- The literal `0xdeadbeefULL`. -/
def deadbeef : IntegerLiteral where
  base := .hexadecimal false
  digits := ['d', 'e', 'a', 'd', 'b', 'e', 'e', 'f']
  suffix := ['U', 'L', 'L']
  accepted := List.all_eq_true.mp (by decide)
  present := by decide
  leading := by decide
  suffixed := by decide

/-- A literal with a suffix, and a string with a hexadecimal escape. -/
theorem literals_denote_deadbeef :
    (∃ t, literalToken (deadbeef.text ++ [';']) = some (t, [';']) ∧ t.Compiles 0xdeadbeef) ∧
    literalToken ('\'' :: (Element.text (.simple 'n') ++ '\'' :: [';'])) =
      some (.num 10 false false, [';']) ∧
    literalToken ('"' :: (textOf [.hex ['4', '1'], .plain '!'] ++ '"' :: [';'])) =
      some (.str [0x41, 0x21, 0], [';']) := by
  obtain ⟨integers, characters, strings⟩ := literals_denote_iff [';']
  refine ⟨(integers deadbeef (by decide) ?_).mpr (.inr ⟨.inl (by decide), .inl (by decide), .inl (by decide)⟩),
    (characters (.simple 'n') rfl).mpr ?_,
    (strings [.hex ['4', '1'], .plain '!'] ?_ ?_).mpr ?_⟩
  · intro c first
    cases first
    decide
  · rintro ⟨digits, impossible, -⟩
    cases impossible
  · intro e member
    rcases List.mem_pair.mp member with rfl | rfl
    · exact ⟨by decide, List.all_eq_true.mp (by decide), by decide⟩
    · exact ⟨by decide, by decide, by decide, by decide⟩
  · refine ⟨?_, trivial, trivial⟩
    intro c first
    cases first
    decide
  · intro e member
    rintro ⟨digits, rfl, -⟩
    simp at member

/-- `9007199254740993` is rounded, `3000000000u` and `0x8000000000000000` have a type that does not hold
them, and of the octal escape `\101` the first digit only is read. -/
theorem literals_misread :
    literalToken "9007199254740993;".toList = some (.num 9007199254740992 false true, [';']) ∧
    (constant 9007199254740992 false true).value = 9007199254740992 ∧
    literalToken "3000000000u;".toList = some (.num 3000000000 true false, [';']) ∧
    (constant 3000000000 true false).value = -1294967296 ∧
    literalToken "0x8000000000000000;".toList = some (.num 0x8000000000000000 false true, [';']) ∧
    (constant 0x8000000000000000 false true).value = -0x8000000000000000 ∧
    literalToken "'\\101';".toList = none ∧
    literalToken "\"\\101\";".toList = some (.str [49, 48, 49, 0], [';']) := by
  decide +kernel

end JsEmulator.Toolchain
