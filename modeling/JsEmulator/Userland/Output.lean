import JsEmulator.Userland.Input

/-!
# Writing to a buffered stream

`fwrite`, `fputc`, `fputs`, `fprintf`, `fflush`, `fseek` and `fclose` on a stream that buffers what it
writes to a descriptor. A call of `write` may fail or take fewer bytes than it is given, and `lseek` and
`close` may fail. What the buffer holds is counted as written where the descriptor stands, so that a
stream is at all times as far as an unbuffered one, until a failure loses the buffer.
-/

namespace JsEmulator.Userland.Output

open JsEmulator.Library.WordMemory (Byte)
open JsEmulator.Userland.Format
open JsEmulator.Userland.Input (Answer)

/-! ## Files -/

/-- An open file: where the next byte goes, its size, and the bytes written with their positions. -/
structure File where
  position : Nat
  size : Nat
  written : List (Nat × Byte)
  deriving DecidableEq

def File.putByte (f : File) (c : Byte) : File :=
  ⟨f.position + 1, max f.size (f.position + 1), f.written ++ [(f.position, c)]⟩

/-- Bytes are written one after the other. -/
def File.put (f : File) (bytes : List Byte) : File := bytes.foldl File.putByte f

theorem File.put_append (f : File) (first second : List Byte) :
    f.put (first ++ second) = (f.put first).put second :=
  List.foldl_append

/-- Where `lseek` moves to: a negative position is refused. -/
def File.target (f : File) (offset whence : Int) : Int :=
  if whence = 0 then offset
  else if whence = 1 then f.position + offset
  else if whence = 2 then f.size + offset
  else -1

/-! ## Streams -/

/-- How the kernel answers the calls of `write` and `lseek`, in their order, and `close`. -/
structure Env where
  write : Nat → Answer
  lseek : Nat → Bool
  close : Bool

/-- `STDIO_WBUF_SIZE`. -/
def bufferSize : Nat := 4096

/-- A buffered stream, with the number of calls of `write` and `lseek` and of those that failed. -/
structure Stream where
  file : File
  buffer : List Byte := []
  error : Bool := false
  writes : Nat := 0
  seeks : Nat := 0
  failures : Nat := 0
  fits : buffer.length ≤ bufferSize := by decide

/-- The file that an unbuffered stream would have left. -/
def Stream.intended (s : Stream) : File := s.file.put s.buffer

/-- `memcpy` of what there is room for to the end of the buffer. -/
def Stream.store (s : Stream) (bytes : List Byte) : Stream :=
  { s with
    buffer := s.buffer ++ bytes.take (bufferSize - s.buffer.length)
    fits := by
      have := s.fits
      rw [List.length_append, List.length_take]
      omega }

section

variable (env : Env)

/-- `write`: how many bytes it takes, or zero for a result that is not positive. -/
def write (bytes : List Byte) (s : Stream) : Nat × Stream :=
  match env.write s.writes with
  | .error => (0, { s with writes := s.writes + 1, failures := s.failures + 1 })
  | .upTo more =>
    (min bytes.length (more + 1),
      { s with file := s.file.put (bytes.take (more + 1)), writes := s.writes + 1 })

/-- The loop of `fflush_wbuf`. -/
def drain (bytes : List Byte) (s : Stream) : Bool × Stream :=
  if _some : bytes = [] then (true, s)
  else
    let wrote := write env bytes s
    if _failed : wrote.1 = 0 then (false, { wrote.2 with error := true })
    else drain (bytes.drop wrote.1) wrote.2
termination_by bytes.length
decreasing_by
  have := List.length_pos_of_ne_nil _some
  have : 0 < (write env bytes s).1 := Nat.pos_of_ne_zero _failed
  rw [List.length_drop]
  omega

/-- `fflush_wbuf`: whether it succeeds. The buffer is empty in either case. -/
def fflushWbuf (s : Stream) : Bool × Stream :=
  if s.buffer = [] then (true, s)
  else
    let drained := drain env s.buffer s
    (drained.1, { drained.2 with buffer := [], fits := Nat.zero_le _ })

/-- A full buffer is flushed. -/
def ready (s : Stream) : Bool × Stream :=
  if s.buffer.length = bufferSize then fflushWbuf env s else (true, s)

theorem fflushWbuf_buffer (s : Stream) : (fflushWbuf env s).2.buffer = [] := by
  unfold fflushWbuf
  split_ifs with empty
  · exact empty
  · rfl

theorem ready_room (s : Stream) : (ready env s).2.buffer.length < bufferSize := by
  unfold ready
  split_ifs with full
  · rw [fflushWbuf_buffer]
    decide
  · exact Nat.lt_of_le_of_ne s.fits full

/-- The loop of `fwrite` on a buffered stream over the bytes that remain: how many of them are done. -/
def fwriteLoop (bytes : List Byte) (s : Stream) : Nat × Stream :=
  if _some : bytes = [] then (0, s)
  else
    let t := ready env s
    if t.1 = false then (0, t.2)
    else if t.2.buffer = [] ∧ bufferSize ≤ bytes.length then
      let wrote := write env bytes t.2
      if _failed : wrote.1 = 0 then (0, { wrote.2 with error := true })
      else
        let more := fwriteLoop (bytes.drop wrote.1) wrote.2
        (wrote.1 + more.1, more.2)
    else
      let n := min bytes.length (bufferSize - t.2.buffer.length)
      let more := fwriteLoop (bytes.drop n) (t.2.store bytes)
      (n + more.1, more.2)
termination_by bytes.length
decreasing_by
  · have := List.length_pos_of_ne_nil _some
    have : 0 < (write env bytes (ready env s).2).1 := Nat.pos_of_ne_zero _failed
    rw [List.length_drop]
    omega
  · have := List.length_pos_of_ne_nil _some
    have := ready_room env s
    rw [List.length_drop]
    omega

/-- `fwrite` of a buffer with so many items of a size. -/
def fwrite (bytes : List Byte) (size count : Int) (s : Stream) : Int × Stream :=
  if size ≤ 0 ∨ count ≤ 0 then (0, s)
  else
    let done := fwriteLoop env (bytes.take (wrap (size * count)).toNat) s
    (done.1 / size, done.2)

/-- `fputc` of a character as a `char`, which is signed. -/
def fputc (c : Byte) (s : Stream) : Int × Stream :=
  let t := ready env s
  if t.1 = false then (-1, t.2) else (c.toInt, t.2.store [c])

/-- `fputs`. -/
def fputs (text : List Byte) (s : Stream) : Int × Stream :=
  let wrote := fwrite env text 1 text.length s
  (if wrote.1 ≠ text.length then -1 else 0, wrote.2)

/-- The `format_sink` of a stream. -/
structure Sink where
  stream : Stream
  count : Int
  error : Bool

/-- `format_putc` to a stream. -/
def formatPutc (sink : Sink) (c : Byte) : Sink :=
  let put := fputc env c sink.stream
  { stream := put.2, count := wrap (sink.count + 1), error := sink.error || decide (put.1 < 0) }

/-- `fprintf`, where the arguments are those that the format asks for. -/
def fprintf (numbuf : Nat → Byte) (format : List Byte) (args : List Arg) (s : Stream) :
    Option (Int × Stream) :=
  (vformatLoop (formatPutc env) numbuf format args ⟨s, 0, false⟩).map fun sink =>
    (if sink.error then -1 else sink.count, sink.stream)

/-- `fflush`. -/
def fflush (s : Stream) : Int × Stream :=
  let flushed := fflushWbuf env s
  (if flushed.1 then 0 else -1, flushed.2)

/-- `fseek`. What the flush returns is not looked at. -/
def fseek (offset whence : Int) (s : Stream) : Int × Stream :=
  let t := (fflushWbuf env s).2
  if env.lseek t.seeks = false ∨ t.file.target offset whence < 0 then
    (-1, { t with error := true, seeks := t.seeks + 1, failures := t.failures + 1 })
  else
    (0, { t with
      file := { t.file with position := (t.file.target offset whence).toNat }
      seeks := t.seeks + 1 })

/-- `fclose`. What the flush returns is not looked at. -/
def fclose (s : Stream) : Int × Stream :=
  let t := (fflushWbuf env s).2
  if env.close then (0, t) else (-1, { t with failures := t.failures + 1 })

end

/-! ## Runs -/

/-- A call on a stream before it is closed. -/
inductive Op where
  | fwrite (bytes : List Byte) (size count : Int)
  | fputc (c : Byte)
  | fputs (text : List Byte)
  | fprintf (format : List Byte) (args : List Arg)
  | fflush
  | fseek (offset whence : Int)

section

variable (env : Env) (numbuf : Nat → Byte)

def step : Op → Stream → Option (Int × Stream)
  | .fwrite bytes size count, s => some (fwrite env bytes size count s)
  | .fputc c, s => some (fputc env c s)
  | .fputs text, s => some (fputs env text s)
  | .fprintf format args, s => fprintf env numbuf format args s
  | .fflush, s => some (fflush env s)
  | .fseek offset whence, s => some (fseek env offset whence s)

/-- The results of the calls of a run with the stream at its end. -/
def run : List Op → Stream → Option (List (Op × Int) × Stream)
  | [], s => some ([], s)
  | op :: ops, s =>
    match step env numbuf op s with
    | none => none
    | some (result, t) => (run ops t).map fun more => ((op, result) :: more.1, more.2)

/-- A call reports success. -/
def Op.Succeeds : Op → Int → Prop
  | .fwrite _ size count, result => size ≤ 0 ∨ count ≤ 0 ∨ result = count
  | _, result => 0 ≤ result

/-- What a call asks for, without a buffer. -/
def Op.effect : Op → File → File
  | .fwrite bytes size count, f => if size ≤ 0 ∨ count ≤ 0 then f else f.put bytes
  | .fputc c, f => f.put [c]
  | .fputs text, f => f.put text
  | .fprintf format args, f => f.put ((vformatText numbuf format args).getD [])
  | .fflush, f => f
  | .fseek offset whence, f => { f with position := (f.target offset whence).toNat }

/-- No `write` fails while the buffer is written. -/
def Drains (s : Stream) : Prop := ∀ i < s.buffer.length, env.write (s.writes + i) ≠ .error

/-- What a call needs to keep its promise: `fseek` must not meet a failing `write`, the characters put
one by one are those of seven bits, and sizes are those that an `int` holds. -/
def Op.Meets : Op → Stream → Prop
  | .fwrite bytes size count, _ =>
    0 < size → 0 < count → (bytes.length : Int) = size * count ∧ size * count < 2 ^ 31
  | .fputc c, _ => c.toNat < 128
  | .fputs text, _ => text.length < 2 ^ 31
  | .fprintf format args, _ => ∀ text, vformatText numbuf format args = some text →
      text.length < 2 ^ 31 ∧ ∀ c ∈ text, c.toNat < 128
  | .fflush, _ => True
  | .fseek _ _, s => Drains env s

/-- Every call of a run has what it needs, and the stream is closed where no `write` fails. -/
def Meets : List Op → Stream → Prop
  | [], s => Drains env s
  | op :: ops, s => op.Meets env numbuf s ∧
      ∀ result t, step env numbuf op s = some (result, t) → Meets ops t

end

/-! ## One call -/

/-- A part of a call that puts bytes: the bytes are where they are meant to be, or something failed. -/
@[mk_iff]
structure Kept (s t : Stream) (ok : Prop) (bytes : List Byte) : Prop where
  monotone : s.failures ≤ t.failures
  put : ok → t.intended = s.intended.put bytes
  failed : ¬ ok → s.failures < t.failures

variable {s : Stream}

section

variable {env : Env}

/-- The success of the part may be told in other words. -/
theorem Kept.congr {t : Stream} {ok success : Prop} {bytes : List Byte} (kept : Kept s t ok bytes)
    (same : success ↔ ok) : Kept s t success bytes := by
  rwa [same]

theorem Kept.trans {t u : Stream} {first second : Prop} {before after : List Byte}
    (initial : Kept s t first before) (rest : Kept t u second after) :
    Kept s u (first ∧ second) (before ++ after) where
  monotone := initial.monotone.trans rest.monotone
  put both := by rw [rest.put both.2, initial.put both.1, File.put_append]
  failed some := by
    by_cases ok : first
    · exact Nat.lt_of_le_of_lt initial.monotone (rest.failed fun other => some ⟨ok, other⟩)
    · exact Nat.lt_of_lt_of_le (initial.failed ok) rest.monotone

theorem write_cases (env : Env) (bytes : List Byte) (s : Stream) :
    (env.write s.writes = .error ∧
      write env bytes s = (0, { s with writes := s.writes + 1, failures := s.failures + 1 })) ∨
    ∃ n, 0 < n ∧ env.write s.writes ≠ .error ∧ write env bytes s =
      (min bytes.length n, { s with file := s.file.put (bytes.take n), writes := s.writes + 1 }) := by
  cases given : env.write s.writes with
  | error => exact .inl ⟨rfl, by rw [write, given]⟩
  | upTo more => exact .inr ⟨more + 1, Nat.succ_pos more, by simp, by rw [write, given]⟩

theorem take_append_drop_min (bytes : List Byte) (k : Nat) :
    bytes.take k ++ bytes.drop (min bytes.length k) = bytes := by
  rcases Nat.le_total bytes.length k with all | part
  · rw [Nat.min_eq_left all, List.take_of_length_le all, List.drop_length, List.append_nil]
  · rw [Nat.min_eq_right part, List.take_append_drop]

/-- The loop of a flush writes everything, or a `write` fails. -/
theorem drain_spec (bytes : List Byte) (s : Stream) :
    let drained := drain env bytes s
    s.failures ≤ drained.2.failures ∧ (drained.1 = true → drained.2.file = s.file.put bytes) ∧
      (drained.1 = false → s.failures < drained.2.failures) := by
  induction length : bytes.length using Nat.strongRecOn generalizing bytes s with
  | ind n ih =>
    rw [drain]
    split_ifs with empty
    · subst empty
      exact ⟨Nat.le_refl _, fun _ => rfl, fun impossible => nomatch impossible⟩
    have some := List.length_pos_of_ne_nil empty
    rcases write_cases env bytes s with ⟨-, wrote⟩ | ⟨k, positive, -, wrote⟩
    · simp only [wrote, dif_pos]
      exact ⟨Nat.le_succ _, (fun impossible => nomatch impossible), fun _ => Nat.lt_succ_self _⟩
    have taken : ¬ min bytes.length k = 0 := by omega
    obtain ⟨monotone, put, failed⟩ := ih (bytes.drop (min bytes.length k)).length
      (by rw [List.length_drop]; omega) (bytes.drop (min bytes.length k))
      { s with file := s.file.put (bytes.take k), writes := s.writes + 1 } rfl
    simp only [wrote, dif_neg taken]
    refine ⟨monotone, fun ok => ?_, failed⟩
    rw [put ok, ← File.put_append, take_append_drop_min]

/-- No `write` of a flush fails where as many as there are bytes succeed. -/
theorem drain_true {bytes : List Byte}
    (succeed : ∀ i < bytes.length, env.write (s.writes + i) ≠ .error) : (drain env bytes s).1 = true := by
  induction length : bytes.length using Nat.strongRecOn generalizing bytes s with
  | ind n ih =>
    rw [drain]
    split_ifs with empty
    · rfl
    have some := List.length_pos_of_ne_nil empty
    rcases write_cases env bytes s with ⟨failed, -⟩ | ⟨k, positive, -, wrote⟩
    · exact absurd failed (succeed 0 some)
    have taken : ¬ min bytes.length k = 0 := by omega
    simp only [wrote, dif_neg taken]
    refine ih (bytes.drop (min bytes.length k)).length
      (by rw [List.length_drop]; omega) (fun i inside => ?_) rfl
    rw [List.length_drop] at inside
    rw [Nat.add_assoc, Nat.add_comm 1]
    exact succeed (i + 1) (by omega)

theorem fflushWbuf_kept (s : Stream) :
    Kept s (fflushWbuf env s).2 ((fflushWbuf env s).1 = true) [] := by
  unfold fflushWbuf
  split_ifs with empty
  · exact ⟨Nat.le_refl _, fun _ => rfl, fun failed => absurd rfl failed⟩
  obtain ⟨monotone, put, failed⟩ := @drain_spec env s.buffer s
  exact ⟨monotone, put, fun other => failed (Bool.eq_false_iff.mpr other)⟩

theorem fflushWbuf_true (drains : Drains env s) : (fflushWbuf env s).1 = true := by
  unfold fflushWbuf
  split_ifs
  · rfl
  · exact drain_true drains

theorem intended_of_empty (empty : s.buffer = []) : s.intended = s.file := by
  rw [Stream.intended, empty]
  rfl

/-- A flush in which no `write` fails leaves the file that is meant. -/
theorem flushed_file (drains : Drains env s) : (fflushWbuf env s).2.file = s.intended := by
  rw [← intended_of_empty (fflushWbuf_buffer env s)]
  exact (fflushWbuf_kept s).put (fflushWbuf_true drains)

theorem ready_kept (s : Stream) : Kept s (ready env s).2 ((ready env s).1 = true) [] := by
  unfold ready
  split_ifs
  · exact fflushWbuf_kept s
  · exact ⟨Nat.le_refl _, fun _ => rfl, fun failed => absurd rfl failed⟩

/-- What is copied to the buffer is meant to follow. -/
theorem store_kept (s : Stream) (bytes : List Byte) :
    Kept s (s.store bytes) True (bytes.take (bufferSize - s.buffer.length)) :=
  ⟨Nat.le_refl _, fun _ => File.put_append _ _ _, fun failed => absurd trivial failed⟩

/-- With an empty buffer, `write` puts bytes where they are meant to be. -/
theorem write_kept {s : Stream} (empty : s.buffer = []) {bytes : List Byte} (some : 0 < bytes.length) :
    let wrote := write env bytes s
    wrote.1 ≤ bytes.length ∧ Kept s wrote.2 (wrote.1 ≠ 0) (bytes.take wrote.1) := by
  rcases write_cases env bytes s with ⟨-, wrote⟩ | ⟨k, positive, -, wrote⟩
  · rw [wrote]
    exact ⟨Nat.zero_le _, Nat.le_succ _, fun impossible => absurd rfl impossible,
      fun _ => Nat.lt_succ_self _⟩
  have taken : bytes.take (min bytes.length k) = bytes.take k := by
    rw [Nat.min_comm, ← List.take_take, List.take_length]
  rw [wrote]
  refine ⟨Nat.min_le_left _ _, Nat.le_refl _, fun _ => ?_, fun impossible => ?_⟩
  · simp only [taken]
    rw [intended_of_empty empty]
    exact intended_of_empty empty
  · simp only [ne_eq] at impossible
    omega

/-- The loop of `fwrite` puts everything, or something fails. -/
theorem fwriteLoop_kept (bytes : List Byte) (s : Stream) :
    let done := fwriteLoop env bytes s
    done.1 ≤ bytes.length ∧ Kept s done.2 (done.1 = bytes.length) bytes := by
  induction length : bytes.length using Nat.strongRecOn generalizing bytes s with
  | ind n ih =>
    have room := ready_room env s
    have prepared := @ready_kept env s
    rw [fwriteLoop]
    split_ifs with empty
    · subst empty length
      exact ⟨Nat.le_refl _, Nat.le_refl _, fun _ => rfl, fun other => absurd rfl other⟩
    have some := List.length_pos_of_ne_nil empty
    simp only
    by_cases flushed : (ready env s).1 = true
    · rw [if_neg (by rw [flushed]; decide)]
      split_ifs with direct failed
      · obtain ⟨-, wrote⟩ := @write_kept env _ direct.1 bytes some
        have lost := Nat.lt_of_le_of_lt prepared.monotone (wrote.failed fun positive => positive failed)
        exact ⟨Nat.zero_le _, Nat.le_of_lt lost, fun all => by omega, fun _ => lost⟩
      · obtain ⟨least, wrote⟩ := @write_kept env _ direct.1 bytes some
        obtain ⟨most, rest⟩ := ih (bytes.drop (write env bytes (ready env s).2).1).length
          (by rw [List.length_drop]; omega) _ (write env bytes (ready env s).2).2 rfl
        rw [List.length_drop] at most rest
        have whole := (prepared.trans wrote).trans rest
        rw [List.nil_append, List.take_append_drop] at whole
        refine ⟨by omega, whole.monotone, fun all => whole.put ⟨⟨flushed, failed⟩, by omega⟩,
          fun part => whole.failed fun both => part (by omega)⟩
      · have taken : 0 < min bytes.length (bufferSize - (ready env s).2.buffer.length) := by omega
        obtain ⟨most, rest⟩ := ih
          (bytes.drop (min bytes.length (bufferSize - (ready env s).2.buffer.length))).length
          (by rw [List.length_drop]; omega) _ ((ready env s).2.store bytes) rfl
        rw [List.length_drop] at most rest
        have whole := (prepared.trans (store_kept (ready env s).2 bytes)).trans rest
        rw [List.nil_append, take_append_drop_min] at whole
        refine ⟨by omega, whole.monotone, fun all => whole.put ⟨⟨flushed, trivial⟩, by omega⟩,
          fun part => whole.failed fun both => part (by omega)⟩
    · have lost := prepared.failed flushed
      rw [if_pos (by simpa using flushed)]
      exact ⟨Nat.zero_le _, Nat.le_of_lt lost, fun all => by omega, fun _ => lost⟩

theorem fputc_kept (c : Byte) (s : Stream) :
    Kept s (fputc env c s).2 ((ready env s).1 = true) [c] := by
  have room := ready_room env s
  have prepared := @ready_kept env s
  unfold fputc
  by_cases flushed : (ready env s).1 = true
  · have stored := prepared.trans (store_kept (ready env s).2 [c])
    rw [List.nil_append, List.take_of_length_le (by rw [List.length_singleton]; omega)] at stored
    simp only [flushed, Bool.true_eq_false, if_false]
    exact ⟨stored.monotone, fun _ => stored.put ⟨flushed, trivial⟩, fun failed => absurd trivial failed⟩
  · have lost := prepared.failed flushed
    simp only [Bool.eq_false_iff.mpr flushed, if_true]
    exact ⟨Nat.le_of_lt lost, fun impossible => (nomatch impossible), fun _ => lost⟩

/-- `fputc` does not return a negative number for a character of seven bits, unless it fails. -/
theorem fputc_result {c : Byte} (plain : c.toNat < 128) (s : Stream) :
    (fputc env c s).1 < 0 ↔ (ready env s).1 = false := by
  have value := Input.toInt_of_plain plain
  unfold fputc
  simp only
  split_ifs with failed
  · exact iff_of_true (Int.negSucc_lt_zero 0) failed
  · exact iff_of_false (by omega) failed

/-- A text that is put character by character is put, or something fails. -/
theorem putAll_kept {text : List Byte} (plain : ∀ c ∈ text, c.toNat < 128)
    (short : text.length < 2 ^ 31) (s : Stream) :
    let sink := putAll (formatPutc env) ⟨s, 0, false⟩ text
    sink.count = text.length ∧ Kept s sink.stream (sink.error = false) text := by
  induction text using List.reverseRecOn with
  | nil => exact ⟨rfl, Nat.le_refl _, fun _ => rfl, fun failed => absurd rfl failed⟩
  | append_singleton text c ih =>
    rw [List.length_append, List.length_singleton] at short
    obtain ⟨count, before⟩ := ih
      (fun other member => plain other (List.mem_append_left _ member)) (by omega)
    have result := @fputc_result env c (plain c (by simp)) (putAll (formatPutc env) ⟨s, 0, false⟩ text).stream
    have last := before.trans (@fputc_kept env c (putAll (formatPutc env) ⟨s, 0, false⟩ text).stream)
    rw [putAll_append]
    generalize putAll (formatPutc env) ⟨s, 0, false⟩ text = sink at *
    have error : (formatPutc env sink c).error = false ↔
        sink.error = false ∧ (ready env sink.stream).1 = true := by
      simp only [formatPutc, Bool.or_eq_false_iff, decide_eq_false_iff_not, result,
        Bool.not_eq_false]
    refine ⟨?_, last.congr error⟩
    have next : (formatPutc env sink c).count = wrap (sink.count + 1) := rfl
    rw [List.length_append, List.length_singleton]
    refine next.trans ?_
    rw [count, wrap_small (by omega) (by omega)]
    rfl

theorem fwrite_kept {bytes : List Byte} {size count : Int} {s : Stream} (positive : 0 < size)
    (counted : 0 < count) (whole : (bytes.length : Int) = size * count)
    (short : size * count < 2 ^ 31) :
    Kept s (fwrite env bytes size count s).2 ((fwrite env bytes size count s).1 = count) bytes := by
  have product : 0 < size * count := Int.mul_pos positive counted
  have total : (wrap (size * count)).toNat = bytes.length := by
    rw [wrap_small (by omega) short]
    omega
  obtain ⟨most, kept⟩ := @fwriteLoop_kept env bytes s
  have all : ((fwriteLoop env bytes s).1 : Int) / size = count ↔
      (fwriteLoop env bytes s).1 = bytes.length := by
    constructor
    · intro quotient
      have least := @Int.mul_ediv_self_le (fwriteLoop env bytes s).1 size (by omega)
      rw [quotient] at least
      omega
    · intro same
      rw [same, whole, Int.mul_ediv_cancel_left _ (by omega)]
  unfold fwrite
  rw [if_neg (by omega), total, List.take_length]
  exact kept.congr all

/-- A call that has what it needs leaves the file that is meant, or reports an error after a failure. -/
theorem step_kept {numbuf : Nat → Byte} {op : Op} {called : Int × Stream}
    (meets : op.Meets env numbuf s) (stepped : step env numbuf op s = some called) :
    s.failures ≤ called.2.failures ∧
      (op.Succeeds called.1 → called.2.intended = op.effect numbuf s.intended) ∧
      (¬ op.Succeeds called.1 → s.failures < called.2.failures) := by
  cases op with
  | fwrite bytes size count =>
    cases stepped
    by_cases nothing : size ≤ 0 ∨ count ≤ 0
    · have same : fwrite env bytes size count s = (0, s) := if_pos nothing
      rw [same]
      refine ⟨Nat.le_refl _, fun _ => (if_pos nothing).symm, fun failed => absurd ?_ failed⟩
      rcases nothing with size | count
      · exact .inl size
      · exact .inr (.inl count)
    · obtain ⟨whole, short⟩ := meets (by omega) (by omega)
      have kept := @fwrite_kept env bytes size count s (by omega) (by omega) whole short
      have effect : Op.effect numbuf (.fwrite bytes size count) s.intended = s.intended.put bytes :=
        if_neg nothing
      rw [effect]
      exact ⟨kept.monotone, fun ok => kept.put (by rcases ok with no | no | ok <;> omega),
        fun failed => kept.failed fun ok => failed (.inr (.inr ok))⟩
  | fputc c =>
    cases stepped
    have kept := @fputc_kept env c s
    have ok : 0 ≤ (fputc env c s).1 ↔ (ready env s).1 = true := by
      rw [← Int.not_lt, fputc_result meets, Bool.not_eq_false]
    exact (kept_iff ..).mp (kept.congr ok)
  | fputs text =>
    cases stepped
    have ok : 0 ≤ (fputs env text s).1 ↔ (fwrite env text 1 text.length s).1 = text.length := by
      unfold fputs
      simp only
      split_ifs with short
      · exact iff_of_false (by omega) short
      · exact iff_of_true (Int.le_refl 0) (not_not.mp short)
    by_cases nothing : text = []
    · subst nothing
      exact ⟨Nat.le_refl _, fun _ => rfl, fun failed => absurd (ok.mpr rfl) failed⟩
    have some := List.length_pos_of_ne_nil nothing
    have length : text.length < 2 ^ 31 := meets
    have kept := @fwrite_kept env text 1 text.length s (by decide) (by omega) (by omega) (by omega)
    exact (kept_iff ..).mp (kept.congr ok)
  | fprintf format args =>
    cases printed : vformatText numbuf format args with
    | none =>
      rw [step, fprintf, vformatLoop_eq, printed] at stepped
      cases stepped
    | some text =>
      obtain ⟨short, plain⟩ := meets text printed
      obtain ⟨count, kept⟩ := @putAll_kept env text plain short s
      rw [step, fprintf, vformatLoop_eq, printed] at stepped
      cases stepped
      have effect : Op.effect numbuf (.fprintf format args) s.intended = s.intended.put text := by
        rw [Op.effect, printed]
        rfl
      rw [effect]
      generalize putAll (formatPutc env) ⟨s, 0, false⟩ text = sink at *
      have ok : 0 ≤ (if sink.error = true then -1 else sink.count) ↔ sink.error = false := by
        split_ifs with failed
        · exact iff_of_false (by decide) (by rw [failed]; decide)
        · exact iff_of_true (by omega) (Bool.eq_false_iff.mpr failed)
      exact (kept_iff ..).mp (kept.congr ok)
  | fflush =>
    cases stepped
    have kept := @fflushWbuf_kept env s
    have ok : 0 ≤ (fflush env s).1 ↔ (fflushWbuf env s).1 = true := by
      unfold fflush
      simp only
      split_ifs with flushed
      · exact iff_of_true (Int.le_refl 0) flushed
      · exact iff_of_false (by omega) flushed
    exact (kept_iff ..).mp (kept.congr ok)
  | fseek offset whence =>
    cases stepped
    have kept := @fflushWbuf_kept env s
    have file := flushed_file meets
    unfold fseek
    simp only
    split_ifs with refused
    · exact ⟨Nat.le_succ_of_le kept.monotone, fun success => absurd success (Int.not_le.mpr (Int.negSucc_lt_zero 0)),
        fun _ => Nat.lt_succ_of_le kept.monotone⟩
    refine ⟨kept.monotone, fun _ => ?_, fun failed => absurd (Int.le_refl 0) failed⟩
    refine Eq.trans (intended_of_empty ?_) ?_
    · exact fflushWbuf_buffer env s
    · rw [Op.effect, ← file]

end

/-! ## Whole runs -/

/-- The calls of a run, after which the stream is closed. -/
theorem run_kept {env : Env} {numbuf : Nat → Byte} {ops : List Op} {t : Stream}
    {results : List (Op × Int)} (meets : Meets env numbuf ops s)
    (ran : run env numbuf ops s = some (results, t)) :
    Drains env t ∧ s.failures ≤ t.failures ∧
      ((∀ call ∈ results, call.1.Succeeds call.2) →
        t.intended = ops.foldl (fun f op => op.effect numbuf f) s.intended) ∧
      ((∃ call ∈ results, ¬ call.1.Succeeds call.2) → s.failures < t.failures) := by
  induction ops generalizing s results with
  | nil =>
    cases ran
    exact ⟨meets, Nat.le_refl _, fun _ => rfl, fun ⟨call, member, _⟩ => nomatch member⟩
  | cons op ops ih =>
    rw [run] at ran
    split at ran
    · cases ran
    rename_i result u stepped
    obtain ⟨⟨more, t'⟩, later, same⟩ := Option.map_eq_some_iff.mp ran
    cases same
    obtain ⟨monotone, put, failed⟩ := step_kept meets.1 stepped
    obtain ⟨drains, further, all, some⟩ := ih (meets.2 result u stepped) later
    refine ⟨drains, monotone.trans further, fun succeed => ?_, ?_⟩
    · rw [all fun call member => succeed call (List.mem_cons_of_mem _ member),
        put (succeed (op, result) (List.mem_cons_self ..))]
      rfl
    · rintro ⟨call, member, error⟩
      rcases List.mem_cons.mp member with rfl | other
      · exact Nat.lt_of_lt_of_le (failed error) further
      · exact Nat.lt_of_le_of_lt monotone (some ⟨call, other, error⟩)

/-- Output is delivered or reported. In every run whose calls have what they need: where all calls and
`fclose` report success, the file has the bytes of all calls in their order and at their positions; and
where one reports an error, a `write`, an `lseek` or the `close` has failed. The stream may be any at
first, so that the same holds of the calls that follow an error. -/
theorem output_delivered_or_reported {env : Env} {numbuf : Nat → Byte} {ops : List Op} {s t : Stream}
    {results : List (Op × Int)} (meets : Meets env numbuf ops s)
    (ran : run env numbuf ops s = some (results, t)) :
    ((∀ call ∈ results, call.1.Succeeds call.2) → 0 ≤ (fclose env t).1 →
        (fclose env t).2.file = ops.foldl (fun f op => op.effect numbuf f) s.intended) ∧
      ((∃ call ∈ results, ¬ call.1.Succeeds call.2) ∨ (fclose env t).1 < 0 →
        s.failures < (fclose env t).2.failures) := by
  obtain ⟨drains, monotone, all, some⟩ := run_kept meets ran
  have flushed := (@fflushWbuf_kept env t).monotone
  have file := flushed_file drains
  unfold fclose
  simp only
  split_ifs with closed
  · refine ⟨fun succeed _ => file.trans (all succeed), ?_⟩
    rintro (error | impossible)
    · exact Nat.lt_of_lt_of_le (some error) flushed
    · exact absurd impossible (Int.lt_irrefl 0)
  · exact ⟨fun _ impossible => absurd impossible (Int.not_le.mpr (Int.negSucc_lt_zero 0)),
      fun _ => Nat.lt_succ_of_le (monotone.trans flushed)⟩

/-- Two characters are written, one with each call of `write`. -/
theorem output_delivered_two :
    let env : Env := { write := fun _ => .upTo 0, lseek := fun _ => true, close := true }
    ∃ results t, run env (fun _ => 0) [.fputc (ch 'h'), .fputc (ch 'i')] { file := ⟨0, 0, []⟩ } =
        some (results, t) ∧
      (fclose env t).2.file = ⟨2, 2, [(0, ch 'h'), (1, ch 'i')]⟩ := by
  intro env
  have answers : ∀ u, Drains env u := fun _ _ _ => nofun
  have small : (ch 'h').toNat < 128 ∧ (ch 'i').toNat < 128 := by decide
  refine ⟨[(.fputc (ch 'h'), 104), (.fputc (ch 'i'), 105)],
    { file := ⟨0, 0, []⟩, buffer := [ch 'h', ch 'i'] }, rfl, ?_⟩
  refine (@output_delivered_or_reported env (fun _ => 0) [.fputc (ch 'h'), .fputc (ch 'i')]
    { file := ⟨0, 0, []⟩ } _ _
    ⟨small.1, fun _ _ _ => ⟨small.2, fun _ _ _ => answers _⟩⟩ rfl).1 ?_ (Int.le_refl 0)
  intro call member
  rcases List.mem_pair.mp member with rfl | rfl
  · exact Int.natCast_nonneg 104
  · exact Int.natCast_nonneg 105

/-- A byte is in the buffer and `write` fails: `fclose` drops the byte and reports success. A byte of ones
is put without any failure, and `fputc` returns what it returns on an error. -/
theorem closing_drops_byte :
    let full : Env := { write := fun _ => .error, lseek := fun _ => true, close := true }
    let fine : Env := { write := fun _ => .upTo 0, lseek := fun _ => true, close := true }
    let s : Stream := { file := ⟨0, 0, []⟩ }
    (fputc full (ch 'a') s).1 = 97 ∧ (fclose full (fputc full (ch 'a') s).2).1 = 0 ∧
      (fclose full (fputc full (ch 'a') s).2).2.file.written = [] ∧
      (fputc fine 255 s).1 = -1 ∧ (fputc fine 255 s).2.failures = 0 := by
  intro full fine s
  have dropped : (drain full [ch 'a'] (fputc full (ch 'a') s).2).2.file = s.file := by
    rw [drain]
    rfl
  exact ⟨rfl, rfl, congrArg File.written dropped, rfl, rfl⟩

end JsEmulator.Userland.Output
