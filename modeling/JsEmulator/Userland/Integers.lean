import JsEmulator.Userland.Format
import Mathlib.Data.Nat.Digits.Lemmas

/-!
# Integers as text

What `%d`, `%u`, `%x` and `%X` print, with the flags `-` and `0` and a width, is compared with the
numeral that C asks for, and read back with `strtoul`, which `strtol` calls.
-/

namespace JsEmulator.Userland.Integers

open JsEmulator.Library.WordMemory (Byte Word)
open JsEmulator.Userland.Format

/-! ## Reading -/

def isspace (c : Byte) : Bool := c ∈ [ch ' ', ch '\t', ch '\n', ch '\r', 11, 12]

/-- `digit_value`. -/
def digitValue (c : Byte) : Int :=
  if (ch '0').toNat ≤ c.toNat ∧ c.toNat ≤ (ch '9').toNat then c.toNat - (ch '0').toNat
  else if (ch 'a').toNat ≤ c.toNat ∧ c.toNat ≤ (ch 'z').toNat then c.toNat - (ch 'a').toNat + 10
  else if (ch 'A').toNat ≤ c.toNat ∧ c.toNat ≤ (ch 'Z').toNat then c.toNat - (ch 'A').toNat + 10
  else -1

/-- The result of `strtoul`: the value, how far `*endptr` is from the text, and what is stored in
`errno`, if anything. -/
structure Parsed where
  value : Word
  offset : Nat
  errno : Option Int := none
  deriving DecidableEq

/-- The loop over the spaces. -/
def spacesFrom : List Byte → Nat
  | [] => 0
  | c :: rest => if isspace c then spacesFrom rest + 1 else 0

/-- The loop over the digits: the value and their number. -/
def digitsLoop (base : Int) : List Byte → Word → Nat → Word × Nat
  | [], value, digits => (value, digits)
  | c :: rest, value, digits =>
    if digitValue c < 0 ∨ base ≤ digitValue c then (value, digits)
    else digitsLoop base rest (value * BitVec.ofInt 32 base + BitVec.ofInt 32 (digitValue c))
      (digits + 1)

/-- `strtoul`. The text is given without its terminator, which reads as zero. -/
def strtoul (text : List Byte) (base : Int) : Parsed :=
  if base ≠ 0 ∧ (base < 2 ∨ 36 < base) then { value := 0, offset := 0, errno := some 22 }
  else
    let start := spacesFrom text
    let sign := text.getD start 0
    let i := if sign = ch '+' ∨ sign = ch '-' then start + 1 else start
    let hex := (base = 0 ∨ base = 16) ∧ text.getD i 0 = ch '0' ∧
      (text.getD (i + 1) 0 = ch 'x' ∨ text.getD (i + 1) 0 = ch 'X') ∧
      0 ≤ digitValue (text.getD (i + 2) 0) ∧ digitValue (text.getD (i + 2) 0) < 16
    let radix := if hex then 16 else if base = 0 ∧ text.getD i 0 = ch '0' then 8
      else if base = 0 then 10 else base
    let first := if hex then i + 2 else i
    let read := digitsLoop radix (text.drop first) 0 0
    if read.2 = 0 then { value := 0, offset := 0 }
    else { value := if sign = ch '-' then 0 - read.1 else read.1, offset := first + read.2 }

/-- `strtol` returns the same word as an `int`. -/
def strtol (text : List Byte) (base : Int) : Int := (strtoul text base).value.toInt

/-! ## Numerals -/

/-- The numeral of a number: its digits in a base, the highest first. -/
def numeral (base : Nat) (upper : Bool) (n : Nat) : List Byte :=
  if n = 0 then [ch '0'] else ((Nat.digits base n).map fun d => digitByte d upper).reverse

theorem digitsFrom_eq {base : Nat} (radix : 1 < base) (upper : Bool) {room value : Nat}
    (fits : value < base ^ room) :
    digitsFrom base upper room value = (Nat.digits base value).map fun d => digitByte d upper := by
  induction room generalizing value with
  | zero =>
    rw [Nat.pow_zero, Nat.lt_one_iff] at fits
    simp [fits, digitsFrom]
  | succ room ih =>
    rw [digitsFrom]
    split_ifs with zero
    · simp [zero]
    · have quotient : value / base < base ^ room := Nat.div_lt_of_lt_mul (by rwa [← Nat.pow_succ'])
      rw [Nat.digits_def' radix (by omega), List.map_cons, ih quotient]

theorem uintText_eq {base : Nat} (radix : 1 < base) (value : Word) (upper : Bool) :
    uintText value base upper = numeral base upper value.toNat := by
  have zero : value.toNat = 0 ↔ value = 0 := @BitVec.toNat_inj 32 value 0
  have fits : value.toNat < base ^ 32 := Nat.lt_of_lt_of_le value.isLt (Nat.pow_le_pow_left radix 32)
  unfold uintText numeral
  rw [digitsFrom_eq radix upper fits]
  simp only [zero]

/-- The conversions of integers. -/
inductive Conversion where
  | d | u | x | X
  deriving DecidableEq, Repr

def Conversion.spec : Conversion → Byte
  | .d => ch 'd'
  | .u => ch 'u'
  | .x => ch 'x'
  | .X => ch 'X'

def Conversion.base : Conversion → Nat
  | .d => 10
  | .u => 10
  | .x => 16
  | .X => 16

/-- The number is printed with a sign. -/
def Conversion.negative (c : Conversion) (v : Word) : Bool := c = .d ∧ v.toInt < 0

def Conversion.sign (c : Conversion) (v : Word) : List Byte := if c.negative v then [ch '-'] else []

def Conversion.digits (c : Conversion) (v : Word) : List Byte :=
  numeral c.base (c = .X) (if c.negative v then (0 - v).toNat else v.toNat)

/-- The representation that C asks for: the padding is of spaces on either side, or of zeros between
the sign and the digits. -/
def representation (c : Conversion) (v : Word) (left zero : Bool) (width : Nat) : List Byte :=
  let pad := width - (c.sign v ++ c.digits v).length
  if left then c.sign v ++ c.digits v ++ List.replicate pad (ch ' ')
  else if zero then c.sign v ++ List.replicate pad (ch '0') ++ c.digits v
  else List.replicate pad (ch ' ') ++ (c.sign v ++ c.digits v)

/-! ## Digits -/

/-- The value of digits, the highest first, after a number. -/
def horner (base : Nat) (ds : List Nat) (n : Nat) : Nat := ds.foldl (fun value d => value * base + d) n

theorem horner_digits (base n : Nat) : horner base (Nat.digits base n).reverse 0 = n := by
  have value := Nat.ofDigits_digits base n
  rw [Nat.ofDigits_eq_foldr] at value
  rw [horner, List.foldl_reverse]
  convert value using 2
  funext d rest
  simp only [Nat.cast_id]
  ring

theorem le_horner {base : Nat} (radix : 1 ≤ base) (ds : List Nat) (n : Nat) : n ≤ horner base ds n := by
  induction ds generalizing n with
  | nil => exact Nat.le_refl n
  | cons d ds ih =>
    have step : n ≤ n * base + d := Nat.le_add_right_of_le (Nat.le_mul_of_pos_right n radix)
    exact step.trans (ih _)

/-- The digits of a numeral. -/
def digitList (base n : Nat) : List Nat := if n = 0 then [0] else (Nat.digits base n).reverse

theorem numeral_eq (base : Nat) (upper : Bool) (n : Nat) :
    numeral base upper n = (digitList base n).map fun d => digitByte d upper := by
  unfold numeral digitList
  split_ifs
  · rfl
  · rw [List.map_reverse]

theorem horner_digitList (base n : Nat) : horner base (digitList base n) 0 = n := by
  unfold digitList
  split_ifs with zero
  · simp [horner, zero]
  · exact horner_digits base n

theorem digitList_lt {base n d : Nat} (radix : 1 < base) (member : d ∈ digitList base n) : d < base := by
  unfold digitList at member
  split_ifs at member
  · rw [List.mem_singleton] at member
    omega
  · exact Nat.digits_lt_base radix (List.mem_reverse.mp member)

theorem digitList_ne_nil (base n : Nat) : digitList base n ≠ [] := by
  unfold digitList
  split_ifs with zero
  · exact List.cons_ne_nil _ _
  · rw [ne_eq, List.reverse_eq_nil_iff, Nat.digits_eq_nil_iff_eq_zero]
    exact zero

/-- A numeral begins with zero only if it is that of zero. -/
theorem digitList_head {base n d : Nat} {rest : List Nat} (list : digitList base n = d :: rest)
    (nonzero : n ≠ 0) : d ≠ 0 := by
  rw [digitList, if_neg nonzero, List.reverse_eq_cons_iff] at list
  have last := Nat.getLast_digit_ne_zero base nonzero
  simp only [list] at last
  simpa using last

/-- What distinguishes the character of a digit. -/
theorem digitByte_facts : ∀ d < 16, ∀ upper : Bool,
    digitValue (digitByte d upper) = d ∧ isspace (digitByte d upper) = false ∧
      digitByte d upper ∉ [0, ch '+', ch '-', ch 'x', ch 'X', ch '*', ch '%', ch '.', ch 'l'] := by
  decide

theorem decimalByte_facts : ∀ d < 10, (ch '0').toNat ≤ (digitByte d false).toNat ∧
    (digitByte d false).toNat ≤ (ch '9').toNat ∧
    (digitByte d false).toNat - (ch '0').toNat = d ∧
    (d ≠ 0 → digitByte d false ∉ [ch '-', ch '0', ch '+', ch ' ', ch '#']) := by
  decide

/-! ## Printing -/

/-- A directive with flags, a width and a conversion. -/
def directiveText (flags : List Byte) (width : Nat) (c : Conversion) : List Byte :=
  flags ++ ((if width = 0 then [] else numeral 10 false width) ++ [c.spec])

variable {flags : List Byte} {width : Nat}

theorem flagsFrom_flags {rest : List Byte} (only : ∀ c ∈ flags, c = ch '-' ∨ c = ch '0')
    (ends : ∀ c, rest.head? = some c → c ∉ [ch '-', ch '0', ch '+', ch ' ', ch '#'])
    (left zero : Bool) :
    flagsFrom (flags ++ rest) left zero =
      (left || decide (ch '-' ∈ flags), zero || decide (ch '0' ∈ flags), rest) := by
  induction flags generalizing left zero with
  | nil =>
    cases rest with
    | nil => simp [flagsFrom]
    | cons c rest => simp [flagsFrom, ends c rfl]
  | cons c flags ih =>
    have more := fun other member => only other (List.mem_cons_of_mem c member)
    rw [List.cons_append, flagsFrom]
    rcases only c (List.mem_cons_self ..) with rfl | rfl
    · rw [if_pos (by decide), if_pos rfl, ih more]
      have apart : ch '0' ≠ ch '-' := by decide
      simp [apart]
    · have apart : ch '-' ≠ ch '0' := by decide
      rw [if_pos (by decide), if_neg (by decide), if_pos rfl, ih more]
      simp [apart]

theorem numberFrom_digits {ds : List Nat} (decimal : ∀ d ∈ ds, d < 10) {n : Nat}
    (bound : horner 10 ds n < 2 ^ 31) {c : Byte} {rest : List Byte}
    (ends : ¬ ((ch '0').toNat ≤ c.toNat ∧ c.toNat ≤ (ch '9').toNat)) :
    numberFrom n (ds.map (fun d => digitByte d false) ++ c :: rest) =
      (((horner 10 ds n : Nat) : Int), c :: rest) := by
  induction ds generalizing n with
  | nil => rw [List.map_nil, List.nil_append, numberFrom, if_neg ends]; rfl
  | cons d ds ih =>
    obtain ⟨low, high, value, -⟩ := decimalByte_facts d (decimal d (List.mem_cons_self ..))
    have small : n * 10 + d < 2 ^ 31 :=
      Nat.lt_of_le_of_lt (le_horner (by decide) ds (n * 10 + d)) bound
    have next : wrap ((n : Int) * 10 + ((digitByte d false).toNat - (ch '0').toNat)) =
        (n * 10 + d : Nat) := by
      rw [wrap_small (by omega) (by omega)]
      omega
    rw [List.map_cons, List.cons_append, numberFrom, if_pos ⟨low, high⟩, next]
    exact ih (fun other member => decimal other (List.mem_cons_of_mem d member)) bound

theorem spec_facts (c : Conversion) :
    c.spec ∉ [ch '-', ch '0', ch '+', ch ' ', ch '#'] ∧ c.spec ∉ [ch '*', ch '.', ch 'l', ch '%'] ∧
      ¬ ((ch '0').toNat ≤ c.spec.toNat ∧ c.spec.toNat ≤ (ch '9').toNat) ∧
      c.spec ∈ [ch 'd', ch 'i', ch 'u', ch 'x', ch 'X', ch 'p'] ∧ c.spec ∉ [ch 's', ch 'c'] := by
  cases c <;> decide

/-- The width is read as it is written. -/
theorem widthFrom_width (fits : width < 2 ^ 31) (c : Conversion) (left : Bool) (args : List Arg) :
    widthFrom left ((if width = 0 then [] else numeral 10 false width) ++ [c.spec]) args =
      some (left, (width : Int), [c.spec], args) := by
  obtain ⟨-, others, ends, -, -⟩ := spec_facts c
  have number : numberFrom 0 ((if width = 0 then [] else numeral 10 false width) ++ [c.spec]) =
      ((width : Int), [c.spec]) := by
    split_ifs with zero
    · rw [List.nil_append, numberFrom, if_neg ends, zero]
      rfl
    have value := horner_digitList 10 width
    rw [numeral_eq]
    have read := @numberFrom_digits (digitList 10 width)
      (fun d member => digitList_lt (by decide) member) 0 (by rw [value]; exact fits) c.spec [] ends
    rw [value] at read
    exact read
  have star : ((if width = 0 then [] else numeral 10 false width) ++ [c.spec]).head? ≠
      some (ch '*') := by
    split_ifs with zero
    · intro same
      exact others (by simp [Option.some.inj same])
    rw [numeral_eq]
    obtain ⟨d, rest, list⟩ := List.exists_cons_of_ne_nil (digitList_ne_nil 10 width)
    have small := digitList_lt (by decide : 1 < 10) (list ▸ List.mem_cons_self .. : d ∈ digitList 10 width)
    have facts := (digitByte_facts d (by omega) false).2.2
    rw [list]
    intro same
    exact facts (by simp [Option.some.inj same])
  rw [widthFrom, if_neg star, number]

theorem layoutOf_directive (only : ∀ c ∈ flags, c = ch '-' ∨ c = ch '0') (fits : width < 2 ^ 31)
    (c : Conversion) (args : List Arg) :
    layoutOf (directiveText flags width c) args =
      some ⟨decide (ch '-' ∈ flags), decide (ch '0' ∈ flags), width, -1, 0, [c.spec], args⟩ := by
  obtain ⟨notFlag, others, -, -, -⟩ := spec_facts c
  have ends : ∀ b, ((if width = 0 then [] else numeral 10 false width) ++ [c.spec]).head? = some b →
      b ∉ [ch '-', ch '0', ch '+', ch ' ', ch '#'] := by
    intro b head
    split_ifs at head with zero
    · rw [← Option.some.inj head]
      exact notFlag
    rw [numeral_eq] at head
    obtain ⟨d, rest, list⟩ := List.exists_cons_of_ne_nil (digitList_ne_nil 10 width)
    have small := digitList_lt (by decide : 1 < 10) (list ▸ List.mem_cons_self .. : d ∈ digitList 10 width)
    rw [list] at head
    rw [← Option.some.inj head]
    exact (decimalByte_facts d small).2.2.2 (digitList_head list zero)
  have dot : c.spec ≠ ch '.' := fun same => others (by simp [same])
  have long : c.spec ≠ ch 'l' := fun same => others (by simp [same])
  rw [layoutOf, directiveText, flagsFrom_flags only ends]
  simp only [Bool.false_or]
  rw [widthFrom_width fits]
  simp [precFrom, longFrom, dot, long]

/-- A number is read from the scratch buffer as it was rendered. -/
theorem rendered_text (numbuf : Nat → Byte) {text : List Byte} (short : text.length ≤ 79) :
    rendered numbuf (fun tmp => putAll Buffer.putc tmp text) = text := by
  obtain ⟨count, bytes⟩ := @putAll_buffer ⟨numbuf, 80, 0⟩ 0 text rfl (by omega)
  unfold rendered
  simp only [count, Nat.zero_add]
  rw [if_neg (by omega), Int.toNat_natCast]
  apply List.ext_getElem
  · simp
  · intro i first second
    simp only [List.getElem_map, List.getElem_range, bytes, Nat.zero_le, true_and, Nat.sub_zero]
    rw [if_pos (by omega), List.getElem?_eq_getElem second]
    rfl

theorem digitsFrom_length (base : Nat) (upper : Bool) (room value : Nat) :
    (digitsFrom base upper room value).length ≤ room := by
  induction room generalizing value with
  | zero => exact Nat.le_refl 0
  | succ room ih =>
    rw [digitsFrom]
    split_ifs
    · exact Nat.zero_le _
    · exact Nat.succ_le_succ (ih _)

theorem uintText_length (value : Word) (base : Nat) (upper : Bool) :
    (uintText value base upper).length ≤ 32 := by
  unfold uintText
  split_ifs
  · decide
  · rw [List.length_reverse]
    exact digitsFrom_length _ _ _ _

theorem intText_eq (v : Word) : intText v = Conversion.sign .d v ++ Conversion.digits .d v := by
  unfold intText Conversion.sign Conversion.digits Conversion.negative
  rw [uintText_eq (by decide), uintText_eq (by decide)]
  by_cases below : v.toInt < 0 <;> simp [below, Conversion.base]

/-- The body of a conversion without a sign. -/
theorem rendered_uint (numbuf : Nat → Byte) (v : Word) {base : Nat} (radix : 1 < base) (upper : Bool) :
    rendered numbuf (fun tmp => formatUint Buffer.putc tmp v base upper) =
      numeral base upper v.toNat := by
  have length := uintText_length v base upper
  simp only [formatUint_eq]
  rw [rendered_text numbuf (by omega), uintText_eq radix]

/-- The body of a conversion. -/
theorem numberBody_eq (numbuf : Nat → Byte) (c : Conversion) (v : Word) :
    numberBody numbuf c.spec 0 [.word v] = some (c.sign v ++ c.digits v, []) := by
  have length : (intText v).length ≤ 79 := by
    unfold intText
    split_ifs
    · have := uintText_length (0 - v) 10 false
      rw [List.length_cons]
      omega
    · have := uintText_length v 10 false
      omega
  cases c with
  | d =>
    show some (rendered numbuf (fun tmp => formatInt Buffer.putc tmp v), ([] : List Arg)) = _
    simp only [formatInt_eq]
    rw [rendered_text numbuf length, intText_eq]
  | u | x => exact congrArg (fun body => some (body, [])) (rendered_uint numbuf v (by decide) false)
  | X => exact congrArg (fun body => some (body, [])) (rendered_uint numbuf v (by decide) true)

theorem body_length (c : Conversion) (v : Word) : (c.sign v ++ c.digits v).length ≤ 33 := by
  have radix : 1 < c.base := by cases c <;> decide
  have digits : (c.digits v).length ≤ 32 := by
    unfold Conversion.digits
    split_ifs
    all_goals
      rw [← uintText_eq radix]
      exact uintText_length _ _ _
  have sign : (c.sign v).length ≤ 1 := by
    unfold Conversion.sign
    split_ifs <;> decide
  rw [List.length_append]
  omega

theorem not_mem_directiveText (only : ∀ c ∈ flags, c = ch '-' ∨ c = ch '0') (width : Nat)
    (c : Conversion) : ch '%' ∉ directiveText flags width c := by
  have notSpec : ch '%' ≠ c.spec := by cases c <;> decide
  have notFlag : ch '%' ∉ flags := fun member =>
    absurd (only _ member) (by decide)
  have notDigit : ch '%' ∉ (if width = 0 then [] else numeral 10 false width) := by
    split_ifs
    · exact List.not_mem_nil
    rw [numeral_eq, List.mem_map]
    rintro ⟨d, member, same⟩
    have small := digitList_lt (by decide : 1 < 10) member
    exact (digitByte_facts d (by omega) false).2.2 (by simp [same])
  simp only [directiveText, List.mem_append, List.mem_singleton, not_or]
  exact ⟨notFlag, notDigit, notSpec⟩

/-- What a directive prints: the padding, of zeros as well, stands before the sign. -/
theorem printed (only : ∀ c ∈ flags, c = ch '-' ∨ c = ch '0') (fits : width < 2 ^ 31)
    (numbuf : Nat → Byte) (c : Conversion) (v : Word) :
    vformatText numbuf (ch '%' :: directiveText flags width c) [.word v] =
      some (let pad := width - (c.sign v ++ c.digits v).length
        if ch '-' ∈ flags then c.sign v ++ c.digits v ++ List.replicate pad (ch ' ')
        else List.replicate pad (if ch '0' ∈ flags then ch '0' else ch ' ') ++
          (c.sign v ++ c.digits v)) := by
  obtain ⟨notFlag, others, ends, number, notText⟩ := spec_facts c
  have laid := layoutOf_directive only fits c [.word v]
  have text : c.spec ≠ ch 's' := fun same => notText (by simp [same])
  have letter : c.spec ≠ ch 'c' := fun same => notText (by simp [same])
  have single : (directiveText flags width c).head? ≠ some (ch '%') := fun head =>
    not_mem_directiveText only width c (List.mem_of_head? head)
  have converted : convert record numbuf
      ⟨decide (ch '-' ∈ flags), decide (ch '0' ∈ flags), width, -1, 0, [c.spec], [.word v]⟩ [] =
      some (paddedText (c.sign v ++ c.digits v) width (decide (ch '-' ∈ flags))
        (if decide (ch '-' ∈ flags) then false else decide (ch '0' ∈ flags)), [], []) := by
    unfold convert
    simp only [if_neg text, if_neg letter, if_pos number, numberBody_eq, Option.map_some,
      formatPadded_eq, putAll_record, List.nil_append]
  have pad : (wrap ((width : Int) - (c.sign v ++ c.digits v).length)).toNat =
      width - (c.sign v ++ c.digits v).length := by
    have := body_length c v
    rw [wrap_small (by omega) (by omega)]
    omega
  rw [vformatText, vformatLoop_directive single laid converted, vformatLoop, paddedText, pad]
  by_cases left : ch '-' ∈ flags <;> simp [left]

/-! ## Reading back -/

theorem spacesFrom_spaces (a : Nat) {rest : List Byte} (ends : isspace (rest.getD 0 0) = false) :
    spacesFrom (List.replicate a (ch ' ') ++ rest) = a := by
  induction a with
  | zero =>
    cases rest with
    | nil => rfl
    | cons c rest =>
      have other : isspace c = false := ends
      simp [spacesFrom, other]
  | succ a ih =>
    rw [List.replicate_succ, List.cons_append, spacesFrom, if_pos (by decide), ih]

/-- The digits are read up to a space or the end. -/
theorem digitsLoop_digits {base : Nat} (low : base ≤ 16) {ds : List Nat} (valid : ∀ d ∈ ds, d < base)
    (upper : Bool) (b n k : Nat) :
    digitsLoop base (ds.map (fun d => digitByte d upper) ++ List.replicate b (ch ' '))
        (BitVec.ofNat 32 n) k =
      (BitVec.ofNat 32 (horner base ds n), k + ds.length) := by
  induction ds generalizing n k with
  | nil =>
    cases b with
    | zero => rfl
    | succ b =>
      rw [List.map_nil, List.nil_append, List.replicate_succ, digitsLoop, if_pos (.inl (by decide))]
      rfl
  | cons d ds ih =>
    have small := valid d (List.mem_cons_self ..)
    have value := (digitByte_facts d (by omega) upper).1
    have step : BitVec.ofNat 32 n * BitVec.ofInt 32 base + BitVec.ofInt 32 (d : Int) =
        BitVec.ofNat 32 (n * base + d) := by
      rw [BitVec.ofInt_natCast, BitVec.ofInt_natCast, BitVec.ofNat_add, BitVec.ofNat_mul]
    rw [List.map_cons, List.cons_append, digitsLoop, value, if_neg (by omega), step,
      ih (fun other member => valid other (List.mem_cons_of_mem d member)),
      List.length_cons, Nat.add_assoc, Nat.add_comm 1]
    rfl

theorem getD_spaces (a k : Nat) (rest : List Byte) :
    (List.replicate a (ch ' ') ++ rest).getD (a + k) 0 = rest.getD k 0 := by
  rw [List.getD_eq_getElem?_getD, List.getElem?_append_right (by simp), List.length_replicate,
    Nat.add_sub_cancel_left, ← List.getD_eq_getElem?_getD]

/-- What follows the first digit is not the mark of a hexadecimal number. -/
theorem not_hex {ds more : List Nat} {d : Nat} (valid : ∀ d ∈ ds, d < 16) (list : ds = d :: more)
    (upper : Bool) (b : Nat) :
    let rest := ds.map (fun d => digitByte d upper) ++ List.replicate b (ch ' ')
    rest.getD 1 0 ≠ ch 'x' ∧ rest.getD 1 0 ≠ ch 'X' := by
  subst list
  cases more with
  | nil =>
    cases b with
    | zero => exact (by decide : (0 : Byte) ≠ ch 'x' ∧ (0 : Byte) ≠ ch 'X')
    | succ b => exact (by decide : ch ' ' ≠ ch 'x' ∧ ch ' ' ≠ ch 'X')
  | cons e more =>
    have others := (digitByte_facts e (valid e (by simp)) upper).2.2
    exact ⟨fun same => others (by simp [← same]), fun same => others (by simp [← same])⟩

/-- The base that `strtoul` takes for digits. -/
def Reads (base : Int) (radix : Nat) (ds : List Nat) : Prop :=
  base = radix ∨ base = 0 ∧ radix = if ds.headD 0 = 0 then 8 else 10

theorem strtoul_text {base : Int} {radix : Nat} {ds : List Nat} (reads : Reads base radix ds)
    (low : 2 ≤ radix) (high : radix ≤ 16) (valid : ∀ d ∈ ds, d < radix) (nonempty : ds ≠ [])
    (upper negative : Bool) (a b : Nat) :
    strtoul (List.replicate a (ch ' ') ++ ((if negative then [ch '-'] else []) ++
        (ds.map (fun d => digitByte d upper) ++ List.replicate b (ch ' ')))) base =
      { value := if negative then 0 - BitVec.ofNat 32 (horner radix ds 0)
          else BitVec.ofNat 32 (horner radix ds 0)
        offset := a + (if negative then 1 else 0) + ds.length } := by
  obtain ⟨d, more, list⟩ := List.exists_cons_of_ne_nil nonempty
  have small : d < 16 := Nat.lt_of_lt_of_le (valid d (list ▸ List.mem_cons_self ..)) high
  obtain ⟨value, notSpace, others⟩ := digitByte_facts d small upper
  have zeroDigit : digitByte d upper = ch '0' ↔ d = 0 := by
    constructor
    · intro same
      rw [same, show digitValue (ch '0') = 0 by decide] at value
      omega
    · rintro rfl
      cases upper <;> decide
  generalize shape : ds.map (fun d => digitByte d upper) ++ List.replicate b (ch ' ') = rest
  have first : rest.getD 0 0 = digitByte d upper := by
    rw [← shape, list]
    rfl
  have second : rest.getD 1 0 ≠ ch 'x' ∧ rest.getD 1 0 ≠ ch 'X' :=
    shape ▸ not_hex (fun other member => Nat.lt_of_lt_of_le (valid other member) high) list upper b
  generalize signed : (if negative then [ch '-'] else []) ++ rest = body
  have head : body.getD 0 0 = if negative then ch '-' else digitByte d upper := by
    rw [← signed, ← first]
    cases negative <;> rfl
  have after (k : Nat) : body.getD ((if negative then 1 else 0) + k) 0 = rest.getD k 0 := by
    rw [← signed]
    cases negative
    · simp
    · simp [Nat.add_comm 1 k]
  have spaces := @spacesFrom_spaces a body (by
    rw [head]
    cases negative
    · exact notSpace
    · exact (by decide : isspace (ch '-') = false))
  have sign : (List.replicate a (ch ' ') ++ body).getD a 0 = body.getD 0 0 := getD_spaces a 0 body
  have character (k : Nat) :
      (List.replicate a (ch ' ') ++ body).getD (a + (if negative then 1 else 0) + k) 0 =
        rest.getD k 0 := by
    rw [Nat.add_assoc]
    exact (getD_spaces a _ body).trans (after k)
  have digit := (character 0).trans first
  have remaining : (List.replicate a (ch ' ') ++ body).drop (a + if negative then 1 else 0) = rest := by
    rw [← List.drop_drop, List.drop_left' (by simp), ← signed]
    cases negative <;> rfl
  have start : (if body.getD 0 0 = ch '+' ∨ body.getD 0 0 = ch '-' then a + 1 else a) =
      a + if negative then 1 else 0 := by
    rw [head]
    cases negative
    · exact if_neg (fun either => others (by rcases either with same | same <;> simp [← same]))
    · exact if_pos (.inr rfl)
  have minus : body.getD 0 0 = ch '-' ↔ negative = true := by
    rw [head]
    cases negative
    · exact iff_of_false (fun same => others (by simp [← same])) (by decide)
    · exact iff_of_true rfl rfl
  have admitted : ¬ (base ≠ 0 ∧ (base < 2 ∨ 36 < base)) := by
    rcases reads with same | ⟨same, -⟩ <;> omega
  have taken : (if base = 0 ∧ digitByte d upper = ch '0' then 8 else if base = 0 then 10 else base) =
      (radix : Int) := by
    simp only [zeroDigit]
    rcases reads with rfl | ⟨rfl, eight⟩
    · rw [if_neg (by omega), if_neg (by omega)]
    · rw [list, List.headD_cons] at eight
      rw [eight]
      split_ifs with both only <;> first | rfl | omega
  have read := @digitsLoop_digits radix high ds valid upper b 0 0
  rw [shape, Nat.zero_add] at read
  have count : ds.length ≠ 0 := by
    rw [list, List.length_cons]
    omega
  rw [strtoul, if_neg admitted]
  simp only [Nat.add_zero] at digit
  simp only [spaces, sign, start]
  simp only [character, digit, second, or_self, false_and, and_false, if_false, taken, remaining]
  rw [show (0 : Word) = BitVec.ofNat 32 0 from rfl, read, if_neg count]
  simp only [minus]

/-- The number that a conversion prints after the sign. -/
def Conversion.magnitude (c : Conversion) (v : Word) : Nat :=
  if c.negative v then (0 - v).toNat else v.toNat

/-- How many zeros stand before the digits. -/
def zeros (c : Conversion) (v : Word) (left zero : Bool) (width : Nat) : Nat :=
  if left || !zero then 0 else width - (c.sign v ++ c.digits v).length

/-- A base for reading a text back: the one that it is printed in, or zero for a decimal numeral, which
has no prefix. -/
def Conversion.Matching (c : Conversion) (base : Int) (zeros : Nat) : Prop :=
  base = c.base ∨ base = 0 ∧ c.base = 10 ∧ zeros = 0

theorem base_bounds (c : Conversion) : 1 < c.base ∧ c.base ≤ 16 ∧ 8 ≤ c.base := by
  cases c <;> decide

theorem horner_zeros (base z : Nat) (ds : List Nat) :
    horner base (List.replicate z 0 ++ ds) 0 = horner base ds 0 := by
  induction z with
  | zero => rfl
  | succ z ih =>
    rw [List.replicate_succ, List.cons_append, ← ih]
    simp [horner]

/-- The base that is taken reads the digits as the number that they are of. -/
theorem reads_matching {c : Conversion} {base : Int} {z : Nat} (matching : c.Matching base z) (n : Nat) :
    let ds := List.replicate z 0 ++ digitList c.base n
    ∃ radix, Reads base radix ds ∧ 2 ≤ radix ∧ radix ≤ 16 ∧ (∀ d ∈ ds, d < radix) ∧
      horner radix ds 0 = n := by
  obtain ⟨low, high, -⟩ := base_bounds c
  have printedIn : (∀ d ∈ List.replicate z 0 ++ digitList c.base n, d < c.base) ∧
      horner c.base (List.replicate z 0 ++ digitList c.base n) 0 = n := by
    constructor
    · intro d member
      rcases List.mem_append.mp member with zero | digit
      · rw [List.eq_of_mem_replicate zero]
        omega
      · exact digitList_lt low digit
    · rw [horner_zeros, horner_digitList]
  rcases matching with same | ⟨rfl, ten, rfl⟩
  · exact ⟨c.base, .inl same, low, high, printedIn⟩
  by_cases zero : n = 0
  · -- the numeral of zero is read as an octal one
    refine ⟨8, .inr ⟨rfl, ?_⟩, by decide, by decide, ?_⟩
    · simp [digitList, zero]
    · simp [digitList, zero, horner]
  · obtain ⟨d, rest, list⟩ := List.exists_cons_of_ne_nil (digitList_ne_nil c.base n)
    have head := digitList_head list zero
    refine ⟨c.base, .inr ⟨rfl, ?_⟩, low, high, printedIn⟩
    rw [List.replicate_zero, List.nil_append, list, List.headD_cons, if_neg head]
    exact ten

theorem magnitude_value (c : Conversion) (v : Word) :
    (if c.negative v then 0 - BitVec.ofNat 32 (c.magnitude v) else BitVec.ofNat 32 (c.magnitude v)) = v := by
  unfold Conversion.magnitude
  split_ifs with negative
  · rw [BitVec.ofNat_toNat, BitVec.setWidth_eq]
    ring
  · rw [BitVec.ofNat_toNat, BitVec.setWidth_eq]

/-- A text of spaces, a sign, zeros, the digits and spaces is read up to its last digit. -/
theorem read_back {c : Conversion} {base : Int} {z : Nat} (matching : c.Matching base z) (v : Word)
    (a b : Nat) :
    strtoul (List.replicate a (ch ' ') ++ (c.sign v ++ (List.replicate z (ch '0') ++ c.digits v ++
        List.replicate b (ch ' ')))) base =
      { value := v, offset := a + (c.sign v).length + (z + (c.digits v).length) } := by
  obtain ⟨radix, reads, low, high, valid, value⟩ := reads_matching matching (c.magnitude v)
  have digits : List.replicate z (ch '0') ++ c.digits v =
      (List.replicate z 0 ++ digitList c.base (c.magnitude v)).map fun d => digitByte d (decide (c = Conversion.X)) := by
    have zero : ch '0' = digitByte 0 (decide (c = Conversion.X)) := by cases c <;> decide
    rw [List.map_append, List.map_replicate, ← zero, ← numeral_eq]
    rfl
  have length : z + (c.digits v).length =
      (List.replicate z 0 ++ digitList c.base (c.magnitude v)).length := by
    have := congrArg List.length digits
    simpa using this
  have nonempty : List.replicate z 0 ++ digitList c.base (c.magnitude v) ≠ [] :=
    List.append_ne_nil_of_right_ne_nil _ (digitList_ne_nil _ _)
  have read := strtoul_text reads low high valid nonempty (decide (c = Conversion.X)) (c.negative v) a b
  rw [value, magnitude_value, ← digits, ← length] at read
  have sign : (c.sign v).length = if c.negative v then 1 else 0 := by
    unfold Conversion.sign
    split_ifs <;> rfl
  rw [sign]
  exact read

/-! ## Printing and reading -/

/-- A text is the representation of a number and is read back as the number, up to its last digit. -/
def RoundTrips (c : Conversion) (v : Word) (left zero : Bool) (width : Nat) (text : List Byte) : Prop :=
  text = representation c v left zero width ∧
    ∀ base, c.Matching base (zeros c v left zero width) →
      strtoul text base =
          ⟨v, if left then (c.sign v ++ c.digits v).length else text.length, none⟩ ∧
        strtol text base = v.toInt

/-- A sign comes after zeros. -/
def SignPadded (c : Conversion) (v : Word) (left zero : Bool) (width : Nat) : Prop :=
  c.negative v = true ∧ zero = true ∧ left = false ∧ (c.sign v ++ c.digits v).length < width

/-- The text that is printed, where no sign comes after zeros. -/
theorem roundTrips_representation (c : Conversion) (v : Word) (left zero : Bool) (width : Nat) :
    RoundTrips c v left zero width (representation c v left zero width) := by
  refine ⟨rfl, fun base matching => ?_⟩
  suffices read : strtoul (representation c v left zero width) base =
      ⟨v, if left then (c.sign v ++ c.digits v).length
        else (representation c v left zero width).length, none⟩ from
    ⟨read, by rw [strtol, read]⟩
  cases left with
  | true =>
    have back := read_back matching v 0 (width - (c.sign v ++ c.digits v).length)
    simpa [representation, zeros] using back
  | false =>
    cases zero with
    | true =>
      have back := read_back matching v 0 0
      simpa [representation, zeros, Nat.add_assoc] using back
    | false =>
      have back := read_back matching v (width - (c.sign v ++ c.digits v).length) 0
      simpa [representation, zeros, Nat.add_assoc] using back

/-- An integer is printed as C asks and read back, just when no sign comes after zeros. -/
theorem integers_round_trip_iff {flags : List Byte} (only : ∀ c ∈ flags, c = ch '-' ∨ c = ch '0')
    {width : Nat} (fits : width < 2 ^ 31) (numbuf : Nat → Byte) (c : Conversion) (v : Word) :
    (∃ text, vformatText numbuf (ch '%' :: directiveText flags width c) [.word v] = some text ∧
      RoundTrips c v (ch '-' ∈ flags) (ch '0' ∈ flags) width text) ↔
      ¬ SignPadded c v (ch '-' ∈ flags) (ch '0' ∈ flags) width := by
  rw [printed only fits]
  simp only [Option.some.injEq, exists_eq_left']
  constructor
  · rintro ⟨same, -⟩ ⟨negative, zero, left, wide⟩
    rw [decide_eq_true_iff] at zero
    rw [decide_eq_false_iff_not] at left
    -- the text begins with a zero and the representation with the sign
    obtain ⟨pad, more⟩ : ∃ pad, width - (c.sign v ++ c.digits v).length = pad + 1 :=
      ⟨width - (c.sign v ++ c.digits v).length - 1, by omega⟩
    have sign : c.sign v = [ch '-'] := if_pos negative
    have heads := congrArg List.head? same
    rw [more] at heads
    simp only [left, zero, sign, representation, List.replicate_succ, List.cons_append,
      List.nil_append, decide_true, decide_false, if_true, if_false, Bool.false_eq_true,
      List.head?_cons, Option.some.injEq] at heads
    exact absurd heads (by decide)
  · intro apart
    convert roundTrips_representation c v _ _ width using 1
    unfold representation
    by_cases left : ch '-' ∈ flags
    · simp [left]
    by_cases zero : ch '0' ∈ flags
    · simp only [left, zero, if_true, if_false, decide_true, decide_false, Bool.false_eq_true]
      by_cases negative : c.negative v
      · have narrow : width - (c.sign v ++ c.digits v).length = 0 := by
          by_contra wide
          exact apart ⟨negative, by simpa using zero, by simpa using left, by omega⟩
        rw [narrow]
        simp
      · simp [Conversion.sign, negative]
    · simp [left, zero]

/-- A number that is padded to eight columns on the right. -/
theorem integers_round_trip_left :
    ∃ text, vformatText (fun _ => 0) (ch '%' :: directiveText [ch '-', ch '0'] 8 .d)
        [.word (0 - 42)] = some text ∧
      RoundTrips .d (0 - 42) (ch '-' ∈ [ch '-', ch '0']) (ch '0' ∈ [ch '-', ch '0']) 8 text :=
  (integers_round_trip_iff (by decide) (by decide) (fun _ => 0) .d (0 - 42)).mpr
    (fun padded => absurd padded.2.2.1 (by decide))

/-- Minus forty-two in five columns with zeros is `00-42`, which is read as zero. -/
theorem sign_after_zeros :
    vformatText (fun _ => 0) (ch '%' :: directiveText [ch '0'] 5 .d) [.word (0 - 42)] =
        some [ch '0', ch '0', ch '-', ch '4', ch '2'] ∧
      representation .d (0 - 42) false true 5 = [ch '-', ch '0', ch '0', ch '4', ch '2'] ∧
      strtoul [ch '0', ch '0', ch '-', ch '4', ch '2'] 10 = ⟨0, 2, none⟩ := by
  have digits : Conversion.digits .d (0 - 42) = [ch '4', ch '2'] := by decide
  have sign : Conversion.sign .d (0 - 42) = [ch '-'] := by decide
  refine ⟨?_, ?_, by decide⟩
  · rw [printed (by decide) (by decide), digits, sign]
    decide
  · rw [representation, digits, sign]
    decide

end JsEmulator.Userland.Integers
