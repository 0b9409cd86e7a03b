import JsEmulator.Library.WordMemory
import Mathlib.Algebra.Order.Group.Nat

/-!
# Formatted output

`vformat` reads a format and an argument list and puts one character after the other into a sink:
the buffer of `vsnprintf`, a stream, or the scratch buffer in which it renders numbers. The sink is
a parameter here, given by what it does with a character. The characters do not depend on it: a run
with any sink is the fold of one text.
-/

namespace JsEmulator.Userland.Format

open JsEmulator.Library.WordMemory (Byte Word)

variable {l : Layout}

/-- The code of a character. -/
def ch (c : Char) : Byte := BitVec.ofNat 8 c.toNat

/-- An `int` result. -/
def wrap (x : Int) : Int := x.bmod (2 ^ 32)

/-- What a `va_list` holds: words, `long long`s and strings, of which a pointer may be null. -/
inductive Arg where
  | word (w : Word)
  | long (x : BitVec 64)
  | text (s : Option (List Byte))

/-! ## Putting characters -/

section
variable {S : Type} (putc : S → Byte → S)

/-- `format_putc` in a loop. -/
def putAll (s : S) (text : List Byte) : S := text.foldl putc s

/-- The text printed for a null pointer. -/
def nullText : List Byte := [ch '(', ch 'n', ch 'u', ch 'l', ch 'l', ch ')']

/-- `format_puts`. -/
def formatPuts (s : S) (text : Option (List Byte)) : S := putAll putc s (text.getD nullText)

def digitByte (digit : Nat) (upper : Bool) : Byte :=
  if digit < 10 then ch '0' + BitVec.ofNat 8 digit
  else if upper then ch 'A' + BitVec.ofNat 8 (digit - 10)
  else ch 'a' + BitVec.ofNat 8 (digit - 10)

/-- The digits of a value, the lowest first, in an array with room for some. -/
def digitsFrom (base : Nat) (upper : Bool) : Nat → Nat → List Byte
  | 0, _ => []
  | room + 1, value =>
    if value = 0 then []
    else digitByte (value % base) upper :: digitsFrom base upper room (value / base)

/-- `format_uint`. -/
def formatUint (s : S) (value : Word) (base : Nat) (upper : Bool) : S :=
  if value = 0 then putc s (ch '0')
  else putAll putc s (digitsFrom base upper 32 value.toNat).reverse

/-- `format_ull`. -/
def formatUll (s : S) (value : BitVec 64) (base : Nat) (upper : Bool) : S :=
  if value = 0 then putc s (ch '0')
  else putAll putc s (digitsFrom base upper 64 value.toNat).reverse

/-- `format_int`. -/
def formatInt (s : S) (value : Word) : S :=
  if value.toInt < 0 then formatUint putc (putc s (ch '-')) (0 - value) 10 false
  else formatUint putc s value 10 false

/-- `format_ll`. -/
def formatLl (s : S) (value : BitVec 64) : S :=
  if value.toInt < 0 then formatUll putc (putc s (ch '-')) (0 - value) 10 false
  else formatUll putc s value 10 false

/-- `format_padded`. -/
def formatPadded (s : S) (body : List Byte) (width : Int) (left zero : Bool) : S :=
  let pad := (wrap (width - body.length)).toNat
  let s := if left then s
    else putAll putc s (List.replicate pad (if zero then ch '0' else ch ' '))
  let s := putAll putc s body
  if left then putAll putc s (List.replicate pad (ch ' ')) else s

end

/-- A sink with a buffer: its bytes, its size and how many characters were put. -/
structure Buffer where
  bytes : Nat → Byte
  size : Int
  count : Int

/-- `format_putc` for a buffer. -/
def Buffer.putc (b : Buffer) (c : Byte) : Buffer :=
  { b with
    bytes := if 0 < b.size ∧ wrap (b.count + 1) < b.size then
        Function.update b.bytes b.count.toNat c
      else b.bytes
    count := wrap (b.count + 1) }

/-! ## Directives -/

/-- The loop over the flags. -/
def flagsFrom : List Byte → Bool → Bool → Bool × Bool × List Byte
  | [], left, zero => (left, zero, [])
  | c :: rest, left, zero =>
    if c ∈ [ch '-', ch '0', ch '+', ch ' ', ch '#'] then
      if c = ch '-' then flagsFrom rest true zero
      else if c = ch '0' then flagsFrom rest left true
      else flagsFrom rest left zero
    else (left, zero, c :: rest)

/-- The loop over the digits of a width or a precision. -/
def numberFrom (n : Int) : List Byte → Int × List Byte
  | [] => (n, [])
  | c :: rest =>
    if (ch '0').toNat ≤ c.toNat ∧ c.toNat ≤ (ch '9').toNat then
      numberFrom (wrap (n * 10 + (c.toNat - (ch '0').toNat))) rest
    else (n, c :: rest)

/-- `va_arg(ap, int)`. -/
def nextWord : List Arg → Option (Word × List Arg)
  | .word w :: args => some (w, args)
  | _ => none

/-- `va_arg(ap, long long)`. -/
def nextLong : List Arg → Option (BitVec 64 × List Arg)
  | .long x :: args => some (x, args)
  | _ => none

/-- `va_arg(ap, char *)`. -/
def nextText : List Arg → Option (Option (List Byte) × List Arg)
  | .text s :: args => some (s, args)
  | _ => none

/-- The width: a number, or an argument, of which a negative one means to the left. -/
def widthFrom (left : Bool) (format : List Byte) (args : List Arg) :
    Option (Bool × Int × List Byte × List Arg) :=
  if format.head? = some (ch '*') then
    (nextWord args).map fun (w, args) =>
      if w.toInt < 0 then (true, wrap (0 - w.toInt), format.tail, args)
      else (left, w.toInt, format.tail, args)
  else some (left, (numberFrom 0 format).1, (numberFrom 0 format).2, args)

/-- The precision, or -1. -/
def precFrom (format : List Byte) (args : List Arg) : Option (Int × List Byte × List Arg) :=
  if format.head? = some (ch '.') then
    if format.tail.head? = some (ch '*') then
      (nextWord args).map fun (w, args) => (w.toInt, format.tail.tail, args)
    else some ((numberFrom 0 format.tail).1, (numberFrom 0 format.tail).2, args)
  else some (-1, format, args)

/-- How often `l` stands before the conversion, and what follows. -/
def longFrom (format : List Byte) : Nat × List Byte :=
  if format.head? = some (ch 'l') then
    if format.tail.head? = some (ch 'l') then (2, format.tail.tail) else (1, format.tail)
  else (0, format)

/-- The scratch buffer in which a number is rendered, and what is read from it. -/
def rendered (numbuf : Nat → Byte) (render : Buffer → Buffer) : List Byte :=
  let tmp := render { bytes := numbuf, size := 80, count := 0 }
  (List.range (if tmp.count > 79 then 79 else tmp.count.toNat)).map tmp.bytes

/-- The digits of a conversion of numbers. -/
def numberBody (numbuf : Nat → Byte) (spec : Byte) (longFlag : Nat) (args : List Arg) :
    Option (List Byte × List Arg) :=
  if spec = ch 'd' ∨ spec = ch 'i' then
    if longFlag = 2 then
      (nextLong args).map fun (x, args) =>
        (rendered numbuf fun tmp => formatLl Buffer.putc tmp x, args)
    else (nextWord args).map fun (w, args) =>
        (rendered numbuf fun tmp => formatInt Buffer.putc tmp w, args)
  else if spec = ch 'p' then
    (nextWord args).map fun (w, args) =>
      (rendered numbuf fun tmp =>
        formatUint Buffer.putc (formatPuts Buffer.putc tmp (some [ch '0', ch 'x'])) w 16 false, args)
  else
    let base := if spec = ch 'u' then 10 else 16
    let upper := decide (spec = ch 'X')
    if longFlag = 2 then
      (nextLong args).map fun (x, args) =>
        (rendered numbuf fun tmp => formatUll Buffer.putc tmp x base upper, args)
    else (nextWord args).map fun (w, args) =>
        (rendered numbuf fun tmp => formatUint Buffer.putc tmp w base upper, args)

/-- What stands before a conversion: where the body is put and with what, its width and precision
and the length. The format from the conversion on and the arguments remain. -/
structure Layout where
  left : Bool
  zero : Bool
  width : Int
  prec : Int
  longFlag : Nat
  rest : List Byte
  args : List Arg

/-- The part of `vformat` between a `%` and its conversion. -/
def layoutOf (format : List Byte) (args : List Arg) : Option Layout :=
  let (flagLeft, zero, format) := flagsFrom format false false
  (widthFrom flagLeft format args).bind fun (left, width, format, args) =>
    (precFrom format args).map fun (prec, format, args) =>
      { left, zero, width, prec, longFlag := (longFrom format).1, rest := (longFrom format).2, args }

/-- A conversion: the sink, the arguments and the format after it. The loop is left where the format
ends. -/
def convert {S : Type} (putc : S → Byte → S) (numbuf : Nat → Byte) (l : Layout) (s : S) :
    Option (S × List Arg × List Byte) :=
  match l.rest with
  | [] => some (s, l.args, [])
  | spec :: rest =>
    if spec = ch 's' then
      (nextText l.args).map fun (str, args) =>
        let str := str.getD nullText
        let slen := if 0 ≤ l.prec ∧ l.prec < str.length then l.prec.toNat else str.length
        (formatPadded putc s (str.take slen) l.width l.left false, args, rest)
    else if spec = ch 'c' then
      (nextWord l.args).map fun (w, args) =>
        (formatPadded putc s [w.setWidth 8] l.width l.left false, args, rest)
    else if spec ∈ [ch 'd', ch 'i', ch 'u', ch 'x', ch 'X', ch 'p'] then
      (numberBody numbuf spec l.longFlag l.args).map fun (body, args) =>
        (formatPadded putc s body l.width l.left (if l.left then false else l.zero), args, rest)
    else
      let s := putc s (ch '%')
      let s := if l.longFlag ≠ 0 then putc s (ch 'l') else s
      some (putc s spec, l.args, rest)

/-! ## The loop -/

theorem flagsFrom_shorter (format : List Byte) (left zero : Bool) :
    (flagsFrom format left zero).2.2.length ≤ format.length := by
  induction format generalizing left zero with
  | nil => exact Nat.le_refl 0
  | cons c rest ih =>
    rw [flagsFrom, List.length_cons]
    split_ifs
    · exact Nat.le_succ_of_le (ih true zero)
    · exact Nat.le_succ_of_le (ih left true)
    · exact Nat.le_succ_of_le (ih left zero)
    · exact Nat.le_refl _

theorem numberFrom_shorter (n : Int) (format : List Byte) :
    (numberFrom n format).2.length ≤ format.length := by
  induction format generalizing n with
  | nil => exact Nat.le_refl 0
  | cons c rest ih =>
    rw [numberFrom, List.length_cons]
    split_ifs
    · exact Nat.le_succ_of_le (ih _)
    · exact Nat.le_refl _

theorem layoutOf_shorter {format : List Byte} {args : List Arg}
    (laid : layoutOf format args = some l) : l.rest.length ≤ format.length := by
  have flags := flagsFrom_shorter format false false
  simp only [layoutOf, Option.bind_eq_some_iff, Option.map_eq_some_iff] at laid
  obtain ⟨⟨left, width, afterWidth, more⟩, wide, ⟨prec, afterPrec, further⟩, exact, rfl⟩ := laid
  have width : afterWidth.length ≤ (flagsFrom format false false).2.2.length := by
    unfold widthFrom at wide
    split_ifs at wide
    · simp only [Option.map_eq_some_iff] at wide
      obtain ⟨⟨w, rest⟩, _, ends⟩ := wide
      split_ifs at ends <;> cases ends <;> simp
    cases wide
    exact numberFrom_shorter _ _
  have prec : afterPrec.length ≤ afterWidth.length := by
    unfold precFrom at exact
    split_ifs at exact
    · simp only [Option.map_eq_some_iff] at exact
      obtain ⟨⟨w, rest⟩, _, ends⟩ := exact
      cases ends
      simp only [List.length_tail]
      omega
    · cases exact
      have := numberFrom_shorter 0 afterWidth.tail
      simp only [List.length_tail] at this ⊢
      omega
    · cases exact
      exact Nat.le_refl _
  have long : (longFrom afterPrec).2.length ≤ afterPrec.length := by
    unfold longFrom
    split_ifs <;> simp only [List.length_tail] <;> omega
  exact long.trans (prec.trans (width.trans flags))

theorem convert_shorter {S : Type} {putc : S → Byte → S} {numbuf : Nat → Byte} {s : S}
    {out : S × List Arg × List Byte} (converted : convert putc numbuf l s = some out) :
    out.2.2.length ≤ l.rest.length := by
  unfold convert at converted
  split at converted
  · cases converted
    exact Nat.zero_le _
  next spec rest found =>
  rw [found, List.length_cons]
  split_ifs at converted <;> simp only [Option.map_eq_some_iff, Option.some.injEq] at converted
  all_goals
    obtain ⟨_, _, rfl⟩ := converted
    exact Nat.le_succ _

/-- The loop of `vformat`. There is no result if an argument is missing or of another type than the
one it is read as. -/
def vformatLoop {S : Type} (putc : S → Byte → S) (numbuf : Nat → Byte) :
    List Byte → List Arg → S → Option S
  | [], _, s => some s
  | c :: rest, args, s =>
    if c ≠ ch '%' then vformatLoop putc numbuf rest args (putc s c)
    else if rest.head? = some (ch '%') then
      vformatLoop putc numbuf rest.tail args (putc s (ch '%'))
    else
      match _laid : layoutOf rest args with
      | none => none
      | some l =>
        match _converted : convert putc numbuf l s with
        | none => none
        | some (s, args, format) => vformatLoop putc numbuf format args s
  termination_by format => format.length
  decreasing_by
    · simp
    · simp only [List.length_tail, List.length_cons]
      omega
    · have first := layoutOf_shorter _laid
      have second := convert_shorter _converted
      simp only [List.length_cons] at second ⊢
      omega

/-- A directive is laid out and converted, and the loop goes on after it. -/
theorem vformatLoop_directive {S : Type} {putc : S → Byte → S} {numbuf : Nat → Byte}
    {rest further : List Byte} {args more : List Arg} {s after : S}
    (single : rest.head? ≠ some (ch '%')) (laid : layoutOf rest args = some l)
    (converted : convert putc numbuf l s = some (after, more, further)) :
    vformatLoop putc numbuf (ch '%' :: rest) args s = vformatLoop putc numbuf further more after := by
  rw [vformatLoop, if_neg (not_not.mpr rfl), if_neg single]
  split
  · next missing =>
    rw [laid] at missing
    cases missing
  next found =>
  rw [laid] at found
  cases found
  split
  · next missing =>
    rw [converted] at missing
    cases missing
  next done =>
  rw [converted] at done
  cases done
  rfl

/-! ## The text -/

/-- The sink that keeps all characters. -/
def record (text : List Byte) (c : Byte) : List Byte := text ++ [c]

/-- The text of a format and its arguments. -/
def vformatText (numbuf : Nat → Byte) (format : List Byte) (args : List Arg) : Option (List Byte) :=
  vformatLoop record numbuf format args []

section
variable {S : Type} (putc : S → Byte → S)

theorem putAll_record (text more : List Byte) : putAll record text more = text ++ more := by
  unfold putAll
  induction more generalizing text with
  | nil => simp
  | cons c more ih => simp [record, ih]

theorem putAll_append (s : S) (first second : List Byte) :
    putAll putc s (first ++ second) = putAll putc (putAll putc s first) second :=
  List.foldl_append

/-- The text of `format_uint`. -/
def uintText (value : Word) (base : Nat) (upper : Bool) : List Byte :=
  if value = 0 then [ch '0'] else (digitsFrom base upper 32 value.toNat).reverse

/-- The text of `format_int`. -/
def intText (value : Word) : List Byte :=
  if value.toInt < 0 then ch '-' :: uintText (0 - value) 10 false else uintText value 10 false

theorem formatUint_eq (s : S) (value : Word) (base : Nat) (upper : Bool) :
    formatUint putc s value base upper = putAll putc s (uintText value base upper) := by
  unfold formatUint uintText
  split_ifs <;> rfl

theorem formatInt_eq (s : S) (value : Word) :
    formatInt putc s value = putAll putc s (intText value) := by
  unfold formatInt intText
  split_ifs
  · exact formatUint_eq putc _ _ _ _
  · exact formatUint_eq putc _ _ _ _

/-- The text of `format_padded`. -/
def paddedText (body : List Byte) (width : Int) (left zero : Bool) : List Byte :=
  let pad := (wrap (width - body.length)).toNat
  if left then body ++ List.replicate pad (ch ' ')
  else List.replicate pad (if zero then ch '0' else ch ' ') ++ body

theorem formatPadded_eq (s : S) (body : List Byte) (width : Int) (left zero : Bool) :
    formatPadded putc s body width left zero = putAll putc s (paddedText body width left zero) := by
  unfold formatPadded paddedText
  cases left <;> simp only [Bool.false_eq_true, if_false, if_true, putAll_append]

/-- A conversion puts a text that does not depend on the sink. -/
theorem convert_eq (numbuf : Nat → Byte) (l : Layout) (s : S) :
    convert putc numbuf l s = (convert record numbuf l []).map fun out =>
      (putAll putc s out.1, out.2) := by
  unfold convert
  cases l.rest with
  | nil => rfl
  | cons spec rest =>
    simp only [formatPadded_eq, putAll_record, List.nil_append]
    by_cases text : spec = ch 's'
    · simp only [if_pos text, Option.map_map, Function.comp_def]
    by_cases letter : spec = ch 'c'
    · simp only [if_neg text, if_pos letter, Option.map_map, Function.comp_def]
    by_cases number : spec ∈ [ch 'd', ch 'i', ch 'u', ch 'x', ch 'X', ch 'p']
    · simp only [if_neg text, if_neg letter, if_pos number, Option.map_map, Function.comp_def]
    · simp only [if_neg text, if_neg letter, if_neg number, Option.map_some]
      split_ifs <;> rfl

end

/-- The run of a sink is the fold of the text. The induction is on the length of the format, for all
sinks at once: the text is the run of one of them. -/
theorem vformatLoop_fold (numbuf : Nat → Byte) (bound : Nat) (format : List Byte) (args : List Arg)
    (within : format.length ≤ bound) {S : Type} (putc : S → Byte → S) (s : S) :
    vformatLoop putc numbuf format args s = (vformatText numbuf format args).map (putAll putc s) := by
  induction bound generalizing format args S with
  | zero =>
    rw [List.eq_nil_of_length_eq_zero (Nat.le_zero.mp within), vformatText, vformatLoop, vformatLoop]
    rfl
  | succ bound ih =>
    cases format with
    | nil =>
      rw [vformatText, vformatLoop, vformatLoop]
      rfl
    | cons c rest =>
      rw [List.length_cons] at within
      rw [vformatText, vformatLoop, vformatLoop]
      by_cases plain : c ≠ ch '%'
      · rw [if_pos plain, if_pos plain, ih rest args (by omega),
          ih rest args (by omega), Option.map_map]
        congr 1
        funext text
        rw [Function.comp_apply, putAll_record]
        rfl
      · rw [if_neg plain, if_neg plain]
        by_cases twice : rest.head? = some (ch '%')
        · have shorter : rest.tail.length ≤ bound := by
            rw [List.length_tail]
            omega
          rw [if_pos twice, if_pos twice, ih _ args shorter, ih _ args shorter, Option.map_map]
          congr 1
          funext text
          rw [Function.comp_apply, putAll_record]
          rfl
        · rw [if_neg twice, if_neg twice]
          cases laid : layoutOf rest args with
          | none => rfl
          | some l =>
            have shorter := layoutOf_shorter laid
            simp only
            rw [convert_eq]
            cases converted : convert record numbuf l [] with
            | none => rfl
            | some out =>
              obtain ⟨put, more, further⟩ := out
              have less : further.length ≤ l.rest.length := convert_shorter converted
              simp only [Option.map_some]
              rw [ih further more (by omega), ih further more (by omega), Option.map_map]
              congr 1
              funext text
              rw [Function.comp_apply, putAll_record, putAll_append]

theorem vformatLoop_eq {S : Type} (putc : S → Byte → S) (numbuf : Nat → Byte) (format : List Byte)
    (args : List Arg) (s : S) :
    vformatLoop putc numbuf format args s = (vformatText numbuf format args).map (putAll putc s) :=
  vformatLoop_fold numbuf _ format args (Nat.le_refl _) putc s

/-! ## Buffers -/

theorem wrap_small {x : Int} (low : -2 ^ 31 ≤ x) (high : x < 2 ^ 31) : wrap x = x :=
  Int.bmod_eq_of_le_mul_two (by omega) (by omega)

/-- A text put into a buffer: every character counts, and those that leave room for a terminator
are stored. -/
theorem putAll_buffer {b : Buffer} {n : Nat} (text : List Byte) (count : b.count = n)
    (short : n + text.length < 2 ^ 31) :
    (putAll Buffer.putc b text).count = (n + text.length : Nat) ∧
      ∀ i, (putAll Buffer.putc b text).bytes i =
        if n ≤ i ∧ (i : Int) + 1 < b.size then (text[i - n]?).getD (b.bytes i) else b.bytes i := by
  induction text generalizing b n with
  | nil => simp [putAll, count]
  | cons c more ih =>
    rw [List.length_cons] at short
    have next : wrap (b.count + 1) = (n + 1 : Nat) := by
      rw [count, wrap_small (by omega) (by omega)]
      rfl
    obtain ⟨counted, bytes⟩ := @ih (b.putc c) (n + 1) next (by omega)
    refine ⟨?_, fun i => ?_⟩
    · rw [List.length_cons, Nat.add_comm more.length, ← Nat.add_assoc]
      exact counted
    · have stored : (b.putc c).bytes i =
          if i = n ∧ (i : Int) + 1 < b.size then c else b.bytes i := by
        unfold Buffer.putc
        simp only [next]
        simp only [count, Int.toNat_natCast, Nat.cast_add, Nat.cast_one]
        by_cases here : i = n
        · subst here
          by_cases room : (i : Int) + 1 < b.size
          · simp [room, show 0 < b.size by omega]
          · simp [room]
        · simp only [here, false_and, if_false]
          split_ifs
          · exact Function.update_of_ne here _ _
          · rfl
      have step : putAll Buffer.putc b (c :: more) = putAll Buffer.putc (b.putc c) more := rfl
      have same : (b.putc c).size = b.size := rfl
      rw [step, bytes i, stored, same]
      rcases Nat.lt_trichotomy i n with before | here | after
      · rw [if_neg (by omega), if_neg (by omega), if_neg (by omega)]
      · subst here
        by_cases room : (i : Int) + 1 < b.size <;> simp [room]
      · have index : i - n = (i - (n + 1)) + 1 := by omega
        rw [if_neg (show ¬ (i = n ∧ _) by omega), index, List.getElem?_cons_succ]
        by_cases room : (i : Int) + 1 < b.size
        · rw [if_pos (by omega), if_pos (by omega)]
        · rw [if_neg (by omega), if_neg (by omega)]

/-- `vsnprintf`: the sink of the loop, and the terminator. -/
def vsnprintf (numbuf buffer : Nat → Byte) (size : Int) (format : List Byte) (args : List Arg) :
    Option (Int × (Nat → Byte)) :=
  (vformatLoop Buffer.putc numbuf format args ⟨buffer, size, 0⟩).map fun sink =>
    (sink.count,
      if 0 < size then
        if sink.count < size then Function.update sink.bytes sink.count.toNat 0
        else Function.update sink.bytes (size - 1).toNat 0
      else sink.bytes)

/-- The bytes of a buffer that received a text: as many as leave room for the terminator, the
terminator, and what was there. -/
def truncated (buffer : Nat → Byte) (size : Nat) (text : List Byte) (i : Nat) : Byte :=
  if i < min text.length (size - 1) then text.getD i 0
  else if i = min text.length (size - 1) then 0
  else buffer i

/-- `vsnprintf` stores the text as far as it fits, and returns its length. -/
theorem vsnprintf_truncates (numbuf buffer : Nat → Byte) {size : Int} {format : List Byte}
    {args : List Arg} {text : List Byte} (positive : 1 ≤ size)
    (full : vformatText numbuf format args = some text) (short : text.length < 2 ^ 31 - 1) :
    vsnprintf numbuf buffer size format args =
      some ((text.length : Int), truncated buffer size.toNat text) := by
  obtain ⟨count, bytes⟩ := @putAll_buffer ⟨buffer, size, 0⟩ 0 text rfl (by omega)
  rw [Nat.zero_add] at count
  rw [vsnprintf, vformatLoop_eq, full, Option.map_some, Option.map_some, count,
    if_pos (show 0 < size by omega)]
  congr 2
  funext i
  have place : (if (text.length : Int) < size then
        Function.update (putAll Buffer.putc ⟨buffer, size, 0⟩ text).bytes (text.length : Int).toNat 0
      else Function.update (putAll Buffer.putc ⟨buffer, size, 0⟩ text).bytes (size - 1).toNat 0) =
      Function.update (putAll Buffer.putc ⟨buffer, size, 0⟩ text).bytes
        (min text.length (size.toNat - 1)) 0 := by
    split_ifs with room
    · rw [Int.toNat_natCast, Nat.min_eq_left (by omega)]
    · have last : (size - 1).toNat = size.toNat - 1 := by omega
      rw [Nat.min_eq_right (by omega), last]
  rw [place, Function.update_apply, bytes i, truncated]
  simp only [Nat.zero_le, true_and, Nat.sub_zero]
  rcases Nat.lt_trichotomy i (min text.length (size.toNat - 1)) with before | here | after
  · rw [if_neg (by omega), if_pos (by omega), if_pos before, List.getD_eq_getElem?_getD,
      List.getElem?_eq_getElem (by omega)]
    rfl
  · rw [if_pos here, if_neg (by omega), if_pos here]
  · rw [if_neg (by omega), if_neg (show ¬ i < _ by omega), if_neg (show ¬ i = _ by omega)]
    split_ifs with room
    · rw [List.getElem?_eq_none (by omega)]
      rfl
    · rfl

/-- `%5d%s` of 42 and `ab` into six bytes. -/
theorem vsnprintf_truncates_six :
    vsnprintf (fun _ => 0) (fun _ => 1) 6 [ch '%', ch '5', ch 'd', ch '%', ch 's']
        [.word 42, .text (some [ch 'a', ch 'b'])] =
      some (7, truncated (fun _ => 1) 6 [ch ' ', ch ' ', ch ' ', ch '4', ch '2', ch 'a', ch 'b']) := by
  refine @vsnprintf_truncates _ _ 6 _ _ [ch ' ', ch ' ', ch ' ', ch '4', ch '2', ch 'a', ch 'b']
    (by decide) ?_ (by decide)
  have number : layoutOf [ch '5', ch 'd', ch '%', ch 's'] [.word 42, .text (some [ch 'a', ch 'b'])] =
      some ⟨false, false, 5, -1, 0, [ch 'd', ch '%', ch 's'],
        [.word 42, .text (some [ch 'a', ch 'b'])]⟩ := rfl
  have string : layoutOf [ch 's'] [.text (some [ch 'a', ch 'b'])] =
      some ⟨false, false, 0, -1, 0, [ch 's'], [.text (some [ch 'a', ch 'b'])]⟩ := rfl
  rw [vformatText, vformatLoop_directive (by decide) number rfl,
    vformatLoop_directive (by decide) string rfl, vformatLoop]
  rfl

end JsEmulator.Userland.Format
