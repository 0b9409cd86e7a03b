import JsEmulator.Userland.Format

/-!
# Reading from a stream

`fgetc`, `fgets` and `fread` on a stream over a descriptor. A stream has no input buffer: each of the
three calls `read`, which may fail or give fewer bytes than it is asked for at any time. The bytes of a
file come out as they are, unless `fgetc` or `fgets` meets one whose `char` is negative.
-/

namespace JsEmulator.Userland.Input

open JsEmulator.Library.WordMemory (Byte)
open JsEmulator.Userland.Format

/-! ## Streams -/

/-- How a call of `read` goes: it fails, or gives at most so many bytes after the first. -/
inductive Answer where
  | error
  | upTo (more : Nat)
  deriving DecidableEq

/-- A stream over a descriptor: the bytes of the file that have not been read, how often `read` was
called, and the two indicators. -/
structure Stream where
  rest : List Byte
  reads : Nat := 0
  eof : Bool := false
  error : Bool := false
  deriving DecidableEq

section

variable (answer : Nat → Answer)

/-- `read` of a number of bytes: what it stores, or `none` for a negative result. It stores nothing only
at the end of the file. -/
def read (n : Nat) (s : Stream) : Option (List Byte) × Stream :=
  match answer s.reads with
  | .error => (none, { s with reads := s.reads + 1 })
  | .upTo more => (some (s.rest.take (min n (more + 1))),
      { s with rest := s.rest.drop (min n (more + 1)), reads := s.reads + 1 })

/-- `fgetc`. The `char` that was read is signed. -/
def fgetc (s : Stream) : Int × Stream :=
  match read answer 1 s with
  | (some [c], t) => (c.toInt, t)
  | (some [], t) => (-1, { t with eof := true })
  | (_, t) => (-1, { t with error := true })

/-- The loop of `fgets` while so many characters fit. -/
def fgetsLoop : Nat → Stream → List Byte × Stream
  | 0, s => ([], s)
  | room + 1, s =>
    let read := fgetc answer s
    if read.1 < 0 then ([], read.2)
    else if read.1 = (ch '\n').toInt then ([BitVec.ofInt 8 read.1], read.2)
    else
      let more := fgetsLoop room read.2
      (BitVec.ofInt 8 read.1 :: more.1, more.2)

/-- `fgets`: the line in the buffer, or `none` for a null pointer. -/
def fgets (size : Int) (s : Stream) : Option (List Byte) × Stream :=
  if size ≤ 0 then (none, s)
  else
    let read := fgetsLoop answer (size - 1).toNat s
    (if read.1 = [] then none else some read.1, read.2)

/-- The loop of `fread` over the bytes that remain. -/
def freadLoop (remaining : Nat) (s : Stream) : List Byte × Stream :=
  if _more : remaining = 0 then ([], s)
  else
    match read answer remaining s with
    | (none, t) => ([], { t with error := true })
    | (some stored, t) =>
      if _nonempty : stored = [] then ([], { t with eof := true })
      else
        let more := freadLoop (remaining - stored.length) t
        (stored ++ more.1, more.2)
termination_by remaining
decreasing_by
  have := List.length_pos_of_ne_nil _nonempty
  omega

/-- `fread`: the number of items it returns and the bytes it has put in the buffer. -/
def fread (size count : Int) (s : Stream) : (Int × List Byte) × Stream :=
  if size ≤ 0 ∨ count ≤ 0 then ((0, []), s)
  else
    let read := freadLoop answer (wrap (size * count)).toNat s
    ((read.1.length / size, read.1), read.2)

end

/-! ## Runs -/

/-- A call of one of the three. -/
inductive Op where
  | fgetc
  | fgets (size : Int)
  | fread (size count : Int)
  deriving DecidableEq

/-- What a call gives. -/
inductive Result where
  | char (c : Int)
  | line (text : Option (List Byte))
  | items (count : Int) (bytes : List Byte)
  deriving DecidableEq

/-- The bytes that a call delivers. -/
def Result.bytes : Result → List Byte
  | .char c => if c = -1 then [] else [BitVec.ofInt 8 c]
  | .line text => text.getD []
  | .items _ bytes => bytes

/-- A call with the stream before and after it. -/
structure Call where
  before : Stream
  op : Op
  result : Result
  after : Stream

section

variable (answer : Nat → Answer)

def step : Op → Stream → Result × Stream
  | .fgetc, s => ((fgetc answer s).map .char id)
  | .fgets size, s => ((fgets answer size s).map .line id)
  | .fread size count, s => ((fread answer size count s).map (fun read => .items read.1 read.2) id)

/-- The calls of a run and the stream at its end. -/
def run : List Op → Stream → List Call × Stream
  | [], s => ([], s)
  | op :: ops, s =>
    let next := step answer op s
    let more := run ops next.2
    (⟨s, op, next.1, next.2⟩ :: more.1, more.2)

/-- What the three promise of a call: the bytes it takes from the file are those it delivers, `fgetc`
returns a byte as an `unsigned char` and otherwise `-1` at the end of the file or on an error, and
`fgets` stops only at a newline, when the buffer is full, at the end of the file or on an error. -/
def Call.Right (call : Call) : Prop :=
  call.before.rest = call.result.bytes ++ call.after.rest ∧
    match call.op, call.result with
    | .fgetc, .char c =>
      (∃ b, call.before.rest = b :: call.after.rest ∧ c = b.toNat) ∨
        c = -1 ∧ (call.before.rest = [] ∨ answer call.before.reads = .error)
    | .fgets size, .line text =>
      size ≤ 0 ∨ (text.getD []).length + 1 = size ∨ (text.getD []).getLast? = some (ch '\n') ∨
        call.after.rest = [] ∨
        call.before.reads < call.after.reads ∧ answer (call.after.reads - 1) = .error
    | .fread size _, .items count bytes => count = bytes.length / size
    | _, _ => False

/-- The bytes that a call of `fgetc` or `fgets` reads next are those of seven bits. -/
def Op.Plain : Op → Stream → Prop
  | .fgetc, s => ∀ b ∈ s.rest.head?, b.toNat < 128
  | .fgets size, s => ∀ b ∈ (s.rest.take (size - 1).toNat).takeWhile (· ≠ ch '\n'), b.toNat < 128
  | .fread _ _, _ => True

instance : (op : Op) → (s : Stream) → Decidable (op.Plain s)
  | .fgetc, s => inferInstanceAs (Decidable (∀ b ∈ s.rest.head?, b.toNat < 128))
  | .fgets size, s => inferInstanceAs
      (Decidable (∀ b ∈ (s.rest.take (size - 1).toNat).takeWhile (· ≠ ch '\n'), b.toNat < 128))
  | .fread _ _, _ => inferInstanceAs (Decidable True)

end

/-! ## One call -/

section

variable {answer : Nat → Answer}

theorem toInt_of_plain {b : Byte} (plain : b.toNat < 128) : b.toInt = b.toNat := by
  rw [BitVec.toInt_eq_toNat_cond, if_pos (by omega)]

theorem read_error {s : Stream} (failed : answer s.reads = .error) (n : Nat) :
    read answer n s = (none, { s with reads := s.reads + 1 }) := by
  rw [read, failed]

theorem read_upTo {s : Stream} {more : Nat} (given : answer s.reads = .upTo more) (n : Nat) :
    read answer n s = (some (s.rest.take (min n (more + 1))),
      { s with rest := s.rest.drop (min n (more + 1)), reads := s.reads + 1 }) := by
  rw [read, given]

/-- What a call of `fgetc` can do. -/
theorem fgetc_cases (answer : Nat → Answer) (s : Stream) :
    (answer s.reads = .error ∧ fgetc answer s = (-1, { s with reads := s.reads + 1, error := true })) ∨
      (s.rest = [] ∧ fgetc answer s = (-1, { s with reads := s.reads + 1, eof := true })) ∨
      ∃ b rest, s.rest = b :: rest ∧
        fgetc answer s = (b.toInt, { s with rest := rest, reads := s.reads + 1 }) := by
  cases given : answer s.reads with
  | error =>
    refine .inl ⟨rfl, ?_⟩
    rw [fgetc, read_error given]
  | upTo more =>
    have one : min 1 (more + 1) = 1 := by omega
    cases file : s.rest with
    | nil =>
      refine .inr (.inl ⟨rfl, ?_⟩)
      rw [fgetc, read_upTo given]
      simp only [file, List.take_nil, List.drop_nil]
    | cons b rest =>
      refine .inr (.inr ⟨b, rest, rfl, ?_⟩)
      rw [fgetc, read_upTo given, file, one]
      rfl

/-- The loop of `fgets` delivers what it reads and stops for one of the four reasons. -/
theorem fgetsLoop_right (room : Nat) {s : Stream}
    (plain : ∀ b ∈ (s.rest.take room).takeWhile (· ≠ ch '\n'), b.toNat < 128) :
    let read := fgetsLoop answer room s
    s.rest = read.1 ++ read.2.rest ∧
      (read.1.length = room ∨ read.1.getLast? = some (ch '\n') ∨ read.2.rest = [] ∨
        s.reads < read.2.reads ∧ answer (read.2.reads - 1) = .error) := by
  induction room generalizing s with
  | zero => exact ⟨rfl, .inl rfl⟩
  | succ room ih =>
    rcases fgetc_cases answer s with ⟨failed, same⟩ | ⟨ended, same⟩ | ⟨b, rest, file, same⟩
    · simp only [fgetsLoop, same, show (-1 : Int) < 0 by decide, if_true]
      exact ⟨rfl, .inr (.inr (.inr ⟨Nat.lt_succ_self _, failed⟩))⟩
    · simp only [fgetsLoop, same, show (-1 : Int) < 0 by decide, if_true]
      exact ⟨rfl, .inr (.inr (.inl ended))⟩
    · by_cases newline : b = ch '\n'
      · have line : (ch '\n').toInt = 10 := by decide
        simp only [fgetsLoop, same, newline, line, show ¬ (10 : Int) < 0 by decide, if_false, if_true]
        exact ⟨file.trans (by rw [newline]; rfl), .inr (.inl rfl)⟩
      rw [file, List.take_succ_cons, List.takeWhile_cons_of_pos (by simpa using newline)] at plain
      have small := plain b (List.mem_cons_self ..)
      have value := toInt_of_plain small
      have other : ¬ b.toInt = (ch '\n').toInt := fun equal => newline (BitVec.eq_of_toInt_eq equal)
      have back : BitVec.ofInt 8 b.toInt = b := BitVec.ofInt_toInt
      obtain ⟨delivered, stopped⟩ := @ih
        { s with rest := rest, reads := s.reads + 1 }
        (fun c member => plain c (List.mem_cons_of_mem b member))
      simp only [fgetsLoop, same, show ¬ b.toInt < 0 by omega, if_false, other, back]
      refine ⟨by rw [file, List.cons_append, ← delivered], ?_⟩
      rcases stopped with full | line | ended | ⟨later, failed⟩
      · exact .inl (congrArg Nat.succ full)
      · refine .inr (.inl ?_)
        rw [List.getLast?_cons, line]
        rfl
      · exact .inr (.inr (.inl ended))
      · exact .inr (.inr (.inr ⟨Nat.lt_trans (Nat.lt_succ_self _) later, failed⟩))

/-- The loop of `fread` delivers what it reads. -/
theorem freadLoop_rest (remaining : Nat) (s : Stream) :
    s.rest = (freadLoop answer remaining s).1 ++ (freadLoop answer remaining s).2.rest := by
  induction remaining using Nat.strongRecOn generalizing s with
  | ind remaining ih =>
    rw [freadLoop]
    split_ifs with none
    · rfl
    cases given : answer s.reads with
    | error =>
      rw [read_error given]
      rfl
    | upTo more =>
      rw [read_upTo given]
      simp only
      split_ifs with nothing
      · have file := List.take_append_drop (min remaining (more + 1)) s.rest
        rw [nothing] at file
        exact file.symm
      have shorter := List.length_pos_of_ne_nil nothing
      have tail := ih (remaining - (s.rest.take (min remaining (more + 1))).length) (by omega)
        { s with rest := s.rest.drop (min remaining (more + 1)), reads := s.reads + 1 }
      rw [List.append_assoc, ← tail]
      exact (List.take_append_drop _ _).symm

/-- A call that reads bytes of seven bits keeps its promise. -/
theorem step_right {op : Op} {s : Stream} (plain : op.Plain s) :
    Call.Right answer ⟨s, op, (step answer op s).1, (step answer op s).2⟩ := by
  cases op with
  | fgetc =>
    rcases fgetc_cases answer s with ⟨failed, same⟩ | ⟨ended, same⟩ | ⟨b, rest, file, same⟩
    · simp only [Call.Right, step, same, Prod.map]
      exact ⟨rfl, .inr ⟨trivial, .inr failed⟩⟩
    · simp only [Call.Right, step, same, Prod.map]
      exact ⟨rfl, .inr ⟨trivial, .inl ended⟩⟩
    · have value := toInt_of_plain (plain b (by rw [file]; rfl))
      have back : BitVec.ofInt 8 b.toInt = b := BitVec.ofInt_toInt
      have proper : ¬ b.toInt = -1 := by omega
      simp only [Call.Right, step, same, Prod.map, Result.bytes, if_neg proper, back]
      exact ⟨file, .inl ⟨b, file, value⟩⟩
  | fgets size =>
    by_cases empty : size ≤ 0
    · simp only [Call.Right, step, fgets, if_pos empty, Prod.map]
      exact ⟨rfl, .inl empty⟩
    obtain ⟨delivered, stopped⟩ := @fgetsLoop_right answer (size - 1).toNat s plain
    have text : (if (fgetsLoop answer (size - 1).toNat s).1 = [] then none
        else some (fgetsLoop answer (size - 1).toNat s).1).getD [] =
        (fgetsLoop answer (size - 1).toNat s).1 := by
      split_ifs with nothing
      · exact nothing.symm
      · rfl
    simp only [Call.Right, step, fgets, if_neg empty, Prod.map, Result.bytes, text]
    refine ⟨delivered, .inr ?_⟩
    rcases stopped with full | other
    · exact .inl (by omega)
    · exact .inr other
  | fread size count =>
    by_cases empty : size ≤ 0 ∨ count ≤ 0
    · simp only [Call.Right, step, fread, if_pos empty, Prod.map]
      exact ⟨rfl, by simp⟩
    · simp only [Call.Right, step, fread, if_neg empty, Prod.map]
      exact ⟨freadLoop_rest _ s, trivial⟩

end

/-! ## Whole runs -/

/-- Every step of a run reads bytes of seven bits with `fgetc` and `fgets`. -/
def Plain (answer : Nat → Answer) : List Op → Stream → Prop
  | [], _ => True
  | op :: ops, s => op.Plain s ∧ Plain answer ops (step answer op s).2

/-- Input is transparent: in every run whose `fgetc` and `fgets` meet only bytes of seven bits, the
calls deliver the bytes of the file in order, and each keeps its promise. -/
theorem input_transparent (answer : Nat → Answer) (ops : List Op) (s : Stream)
    (plain : Plain answer ops s) :
    s.rest = (run answer ops s).1.flatMap (fun call => call.result.bytes) ++
        (run answer ops s).2.rest ∧
      ∀ call ∈ (run answer ops s).1, call.Right answer := by
  induction ops generalizing s with
  | nil => exact ⟨rfl, fun call member => absurd member List.not_mem_nil⟩
  | cons op ops ih =>
    obtain ⟨now, later⟩ := plain
    have right := @step_right answer op s now
    obtain ⟨delivered, others⟩ := ih (step answer op s).2 later
    constructor
    · rw [run, List.flatMap_cons, List.append_assoc, ← delivered]
      exact right.1
    · intro call member
      rcases List.mem_cons.mp member with rfl | other
      · exact right
      · exact others call other

/-- A line, then a byte of eight bits that `fread` reads. -/
theorem input_transparent_line :
    let s : Stream := { rest := [ch 'a', ch '\n', 255] }
    let ops := [.fgets 10, .fread 1 1]
    let answer := fun _ => .upTo 0
    s.rest = (run answer ops s).1.flatMap (fun call => call.result.bytes) ++
        (run answer ops s).2.rest ∧
      ∀ call ∈ (run answer ops s).1, call.Right answer :=
  input_transparent _ _ _ ⟨by decide, trivial, trivial⟩

/-- A byte of ones in the middle of a file looks like the end of it to `fgetc`, and `fgets` drops it. -/
theorem high_byte_lost :
    let s : Stream := { rest := [255, ch 'a', ch '\n'] }
    let answer := fun _ => Answer.upTo 0
    fgetc answer s = (-1, { s with rest := [ch 'a', ch '\n'], reads := 1 }) ∧
      fgets answer 10 s = (none, { s with rest := [ch 'a', ch '\n'], reads := 1 }) ∧
      ¬ Call.Right answer ⟨s, .fgetc, (step answer .fgetc s).1, (step answer .fgetc s).2⟩ ∧
      ¬ Call.Right answer ⟨s, .fgets 10, (step answer (.fgets 10) s).1, (step answer (.fgets 10) s).2⟩ := by
  refine ⟨by decide, by decide, ?_, ?_⟩
  · intro right
    exact absurd right.1 (by decide)
  · intro right
    exact absurd right.1 (by decide)

end JsEmulator.Userland.Input
