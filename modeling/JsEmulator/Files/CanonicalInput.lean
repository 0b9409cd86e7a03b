import JsEmulator.Files.Terminal

/-!
# Reading lines from the terminal

`tty_read`, and what canonical input means. A line that is edited becomes a record when it is
ended, by a newline that belongs to it or by the end-of-file character, which does not; an
end-of-file typed on an empty line is a record without bytes. A read returns bytes of the
first record that is left, and none of the next.

In the driver a record is what lies between two marks of the ring, and the empty ones are a
counter, which is looked at when the ring is empty. That is their place only as long as
nothing has been committed since, and a line keeps its newline only if it is shorter than
the edit buffer.
-/

namespace JsEmulator.Files

open JsEmulator.Memory (Byte)

variable {input : List (Byte × Nat)} {a : Typed} {line : List Byte} {t : Tty} {mark : Nat}

/-- What `tty_read` does: it returns bytes, it is stopped for a background process, or it
sleeps, with the time after which it gives up. -/
inductive TtyRead where
  | returned (bytes : List Byte)
  | background
  | sleeps (delay : Option Nat)
deriving DecidableEq, Repr

/-- The loop of `tty_read`: it ends at a mark in canonical mode. -/
def readLoop (icanon : Bool) : Nat → List (Byte × Nat) → List Byte × List (Byte × Nat)
  | 0, input => ([], input)
  | _ + 1, [] => ([], [])
  | len + 1, (ch, mark) :: rest =>
    if icanon ∧ mark ≠ 0 then ([ch], rest)
    else (ch :: (readLoop icanon len rest).1, (readLoop icanon len rest).2)

/-- `tty_read` after `kbd_drain`, with the two characters of the settings that count for raw
input, for a caller in the foreground group or not and with its timer run out or not. -/
def Tty.read (t : Tty) (vmin vtime : Nat) (foreground timedOut : Bool) (len : Nat) :
    TtyRead × Tty :=
  let minimum := min vmin len
  if len = 0 then (.returned [], t)
  else if foreground = false then (.background, t)
  else if timedOut ∧ t.input = [] then (.returned [], t)
  else if t.input = [] ∨
      t.termios.icanon = false ∧ 0 < minimum ∧ t.input.length < minimum then
    if 0 < t.eofPending then (.returned [], { t with eofPending := t.eofPending - 1 })
    else if t.closed then (.returned [], t)
    else if t.termios.icanon = false ∧ minimum = 0 ∧ vtime = 0 then (.returned [], t)
    else if t.termios.icanon = false ∧ 0 < vtime ∧ (minimum = 0 ∨ t.input ≠ []) then
      (.sleeps (some (max 1 (vtime * 100 / 10))), t)
    else (.sleeps none, t)
  else
    let got := readLoop t.termios.icanon len t.input
    (.returned got.1, { t with input := got.2 })

/-! ## What is typed -/

/-- What a character does in canonical mode. -/
inductive Key where
  | signal
  | erase
  | kill
  | endOfFile
  | newline
  | ordinary
deriving DecidableEq, Repr

/-- The meaning of a character under the settings. -/
def Termios.key (termios : Termios) (ch : Byte) : Key :=
  if termios.isig ∧ ((ch.toNat : Int) = termios.vintr ∨ (ch.toNat : Int) = termios.vsusp) then
    .signal
  else if (ch.toNat : Int) = termios.verase ∨ ch = 8 then .erase
  else if (ch.toNat : Int) = termios.vkill then .kill
  else if (ch.toNat : Int) = termios.veof then .endOfFile
  else if ch = 10 then .newline
  else .ordinary

/-- What has been typed and not read: the records, and the line that is edited. -/
structure Typed where
  records : List (List Byte)
  line : List Byte
deriving DecidableEq, Repr

/-- A character is typed. -/
def Typed.receive (a : Typed) (termios : Termios) (ch : Byte) : Typed :=
  match termios.key ch with
  | .signal | .kill => { a with line := [] }
  | .erase => { a with line := a.line.dropLast }
  | .endOfFile => ⟨a.records ++ [a.line], []⟩
  | .newline => ⟨a.records ++ [a.line ++ [10]], []⟩
  | .ordinary => { a with line := a.line ++ [ch] }

/-- What a record leaves after a read: nothing of it, or its rest. -/
def remains (record : List Byte) (len : Nat) : List (List Byte) :=
  if record.drop len = [] then [] else [record.drop len]

/-- A read returns bytes of the first record, and sleeps if there is none. -/
def Typed.read (a : Typed) (len : Nat) : TtyRead × Typed :=
  match a.records with
  | [] => (.sleeps none, a)
  | record :: later => (.returned (record.take len), { a with records := remains record len ++ later })

/-- The bytes that are not read. -/
def Typed.unread (a : Typed) : Nat := a.records.flatten.length

/-- Characters and reads in canonical mode in any order, from a terminal without input, where
no more than 512 bytes are left unread and every character comes in an allowed state. -/
inductive Typing (allowed : Tty → Byte → Prop) : Tty → Typed → Prop
  | start (termios : Termios) : termios.icanon = true →
      Typing allowed ⟨termios, false, 0, [], []⟩ ⟨[], []⟩
  | receive {t : Tty} {a : Typed} (ch : Byte) : Typing allowed t a → allowed t (typed ch) →
      (a.receive t.termios (typed ch)).unread ≤ 512 →
      Typing allowed (t.receive ch).1 (a.receive t.termios (typed ch))
  | read {t : Tty} {a : Typed} (vmin vtime len : Nat) : Typing allowed t a → 0 < len →
      Typing allowed (t.read vmin vtime true false len).2 (a.read len).2

/-! ## Records in the ring -/

/-- The records that the marks cut the ring into. -/
def recordsOf : List (Byte × Nat) → List (List Byte)
  | [] => []
  | (ch, mark) :: rest =>
    if mark ≠ 0 then [ch] :: recordsOf rest
    else
      match recordsOf rest with
      | [] => [[ch]]
      | record :: later => (ch :: record) :: later

/-- The last character of the ring ends a record. -/
def Ended (input : List (Byte × Nat)) : Prop := ∀ last, input.getLast? = some last → last.2 ≠ 0

/-- A line as `tty_commit_edit` queues it. -/
def markedLine (mark : Nat) : List Byte → List (Byte × Nat)
  | [] => []
  | ch :: rest => (ch, if rest = [] then mark else 0) :: markedLine mark rest

theorem ended_tail {first : Byte × Nat} {rest : List (Byte × Nat)} (ended : Ended (first :: rest)) :
    Ended rest := by
  intro last found
  refine ended last ?_
  rw [List.getLast?_cons, found]
  rfl

/-- A character without a mark is not the last one. -/
theorem ended_more {ch : Byte} {rest : List (Byte × Nat)} (ended : Ended ((ch, 0) :: rest)) :
    recordsOf rest ≠ [] := by
  cases rest with
  | nil => exact absurd rfl (ended (ch, 0) rfl)
  | cons first later =>
    obtain ⟨next, mark⟩ := first
    rw [recordsOf]
    split_ifs
    · simp
    · split <;> simp

theorem records_append {more : List (Byte × Nat)} (ended : Ended input) :
    recordsOf (input ++ more) = recordsOf input ++ recordsOf more := by
  induction input with
  | nil => rfl
  | cons first rest ih =>
    obtain ⟨ch, mark⟩ := first
    have later := ih (ended_tail ended)
    rw [List.cons_append, recordsOf, recordsOf, later]
    split_ifs with marked
    · rfl
    obtain rfl : mark = 0 := not_not.mp marked
    obtain ⟨record, records, split⟩ := List.exists_cons_of_ne_nil (ended_more ended)
    rw [split]
    rfl

theorem marked_line_record (marked : mark ≠ 0) (some : line ≠ []) :
    recordsOf (markedLine mark line) = [line] := by
  induction line with
  | nil => exact absurd rfl some
  | cons ch rest ih =>
    rw [markedLine, recordsOf]
    by_cases last : rest = []
    · subst last
      simp [marked, markedLine, recordsOf]
    · rw [ih last]
      simp [last]

theorem ended_append_line (marked : mark ≠ 0) (ended : Ended input) :
    Ended (input ++ markedLine mark line) := by
  have lineEnded : Ended (markedLine mark line) := by
    induction line with
    | nil => exact fun last found => by simp [markedLine] at found
    | cons ch rest ih =>
      intro last found
      rw [markedLine, List.getLast?_cons] at found
      cases rest with
      | nil =>
        obtain rfl : (ch, mark) = last := by simpa [markedLine] using found
        exact marked
      | cons next later =>
        refine ih last ?_
        simpa [markedLine, List.getLast?_cons] using found
  intro last found
  rw [List.getLast?_append] at found
  cases atEnd : (markedLine mark line).getLast? with
  | none => exact ended last (by simpa [atEnd] using found)
  | some other =>
    obtain rfl : other = last := by simpa [atEnd] using found
    exact lineEnded other atEnd

theorem records_length (input : List (Byte × Nat)) :
    (recordsOf input).flatten.length = input.length := by
  induction input with
  | nil => rfl
  | cons first rest ih =>
    obtain ⟨ch, mark⟩ := first
    rw [recordsOf]
    split_ifs
    · simp [ih]
    cases cut : recordsOf rest with
    | nil =>
      rw [cut] at ih
      simpa [eq_comm] using ih
    | cons record later =>
      rw [cut] at ih
      simp only [List.flatten_cons, List.length_append, List.length_cons] at ih ⊢
      omega

theorem record_ne_nil {record : List Byte} {later : List (List Byte)}
    (cut : recordsOf input = record :: later) : record ≠ [] := by
  cases input with
  | nil => simp [recordsOf] at cut
  | cons first rest =>
    rw [recordsOf] at cut
    split_ifs at cut
    · obtain ⟨rfl, -⟩ := List.cons.inj cut
      simp
    · split at cut <;> (obtain ⟨rfl, -⟩ := List.cons.inj cut; simp)

/-- The loop of a read takes bytes of the first record and leaves the rest of it. -/
theorem read_loop_record (len : Nat) {record : List Byte} {later : List (List Byte)}
    (ended : Ended input) (cut : recordsOf input = record :: later) :
    (readLoop true len input).1 = record.take len ∧
      recordsOf (readLoop true len input).2 = remains record len ++ later ∧
      Ended (readLoop true len input).2 := by
  induction len generalizing input record with
  | zero =>
    have some := record_ne_nil cut
    simp [readLoop, remains, some, cut, ended]
  | succ len ih =>
    cases input with
    | nil => simp [recordsOf] at cut
    | cons first rest =>
      obtain ⟨ch, mark⟩ := first
      have endedRest := ended_tail ended
      rw [recordsOf] at cut
      split_ifs at cut with marked
      · obtain ⟨rfl, rfl⟩ := List.cons.inj cut
        simp [readLoop, marked, remains, endedRest]
      obtain rfl : mark = 0 := not_not.mp marked
      obtain ⟨next, records, split⟩ := List.exists_cons_of_ne_nil (ended_more ended)
      rw [split] at cut
      obtain ⟨rfl, rfl⟩ := List.cons.inj cut
      obtain ⟨bytes, left, stillEnded⟩ := ih endedRest split
      have unmarked : ¬ (true = true ∧ (0 : Nat) ≠ 0) := by simp
      rw [readLoop, if_neg unmarked]
      refine ⟨?_, left, stillEnded⟩
      rw [bytes, List.take_succ_cons]

/-! ## The driver keeps the records -/

/-- The driver's variables stand for what is typed: the ring for the records, except that
those without bytes come last and are counted. -/
structure Tty.Keeps (t : Tty) (a : Typed) : Prop where
  canonical : t.termios.icanon = true
  alive : t.closed = false
  ended : Ended t.input
  records : a.records = recordsOf t.input ++ List.replicate t.eofPending []
  line : a.line = t.edit

/-- A record is committed only when no end-of-file waits behind the ring, and a character is
taken into the line only when the edit buffer has room. -/
def Tty.Orderly (t : Tty) (ch : Byte) : Prop :=
  match t.termios.key ch with
  | .endOfFile => t.edit ≠ [] → t.eofPending = 0
  | .newline => t.eofPending = 0 ∧ t.edit.length < 128
  | .ordinary => t.edit.length < 128
  | .signal | .erase | .kill => True

instance (t : Tty) (ch : Byte) : Decidable (t.Orderly ch) := by
  unfold Tty.Orderly
  cases t.termios.key ch <;> infer_instance

theorem commit_loop_line (mark : Nat) (line : List Byte) (t : Tty)
    (room : t.input.length + line.length ≤ 512) :
    (Tty.commitLoop mark line t).1 = { t with input := t.input ++ markedLine mark line } := by
  induction line generalizing t with
  | nil => simp [Tty.commitLoop, markedLine]
  | cons ch rest ih =>
    rw [List.length_cons] at room
    have queued : (t.queue ch (if rest = [] then mark else 0)).1 =
        { t with input := t.input ++ [(ch, if rest = [] then mark else 0)] } := by
      rw [Tty.queue, if_neg (by omega)]
    rw [Tty.commitLoop, queued, ih]
    · simp [markedLine]
    · simp only [List.length_append, List.length_singleton]
      omega

/-- A line that is committed becomes the last record. -/
theorem Tty.Keeps.commit (keeps : t.Keeps a) (marked : mark ≠ 0) (some : line ≠ [])
    (none_waits : t.eofPending = 0) (room : (⟨a.records ++ [line], []⟩ : Typed).unread ≤ 512) :
    (({ t with edit := line } : Tty).commitEdit mark).1.Keeps ⟨a.records ++ [line], []⟩ := by
  have fits : t.input.length + line.length ≤ 512 := by
    rw [← records_length t.input]
    simpa [Typed.unread, keeps.records, none_waits] using room
  have committed := commit_loop_line mark line { t with edit := line } fits
  simp only [Tty.commitEdit, committed]
  refine ⟨keeps.canonical, keeps.alive, ended_append_line marked keeps.ended, ?_, rfl⟩
  rw [records_append keeps.ended, marked_line_record marked some, keeps.records, none_waits]
  simp

theorem Tty.Keeps.with_line (keeps : t.Keeps a) (line : List Byte) :
    ({ t with edit := line } : Tty).Keeps { a with line := line } :=
  ⟨keeps.canonical, keeps.alive, keeps.ended, keeps.records, rfl⟩

/-- A character does to the driver's variables what it means. -/
theorem receive_char_key (t : Tty) (ch : Byte) (canonical : t.termios.icanon = true) :
    (t.receiveChar ch).1 =
      match t.termios.key ch with
      | .signal | .kill => { t with edit := [] }
      | .erase => { t with edit := t.edit.dropLast }
      | .endOfFile =>
        if t.edit ≠ [] then (t.commitEdit 2).1 else { t with eofPending := t.eofPending + 1 }
      | .newline =>
        (({ t with edit := if t.edit.length < 128 then t.edit ++ [10] else t.edit } : Tty).commitEdit
          1).1
      | .ordinary => { t with edit := if t.edit.length < 128 then t.edit ++ [ch] else t.edit } := by
  have room (ch : Byte) :
      (if t.edit.length < 128 then { t with edit := t.edit ++ [ch] } else t) =
        ({ t with edit := if t.edit.length < 128 then t.edit ++ [ch] else t.edit } : Tty) := by
    split_ifs <;> rfl
  unfold Tty.receiveChar Termios.key
  by_cases intr : t.termios.isig = true ∧ (ch.toNat : Int) = t.termios.vintr
  · rw [if_pos intr, if_pos ⟨intr.1, .inl intr.2⟩]
  rw [if_neg intr]
  by_cases susp : t.termios.isig = true ∧ (ch.toNat : Int) = t.termios.vsusp
  · rw [if_pos susp, if_pos ⟨susp.1, .inr susp.2⟩]
  have noSignal : ¬ (t.termios.isig = true ∧
      ((ch.toNat : Int) = t.termios.vintr ∨ (ch.toNat : Int) = t.termios.vsusp)) := by
    rintro ⟨isig, same | same⟩
    · exact intr ⟨isig, same⟩
    · exact susp ⟨isig, same⟩
  rw [if_neg susp, if_neg noSignal, if_neg (by simp [canonical])]
  by_cases erase : (ch.toNat : Int) = t.termios.verase ∨ ch = 8
  · rw [if_pos erase, if_pos erase]
  rw [if_neg erase, if_neg erase]
  by_cases kill : (ch.toNat : Int) = t.termios.vkill
  · rw [if_pos kill, if_pos kill]
  rw [if_neg kill, if_neg kill]
  by_cases eof : (ch.toNat : Int) = t.termios.veof
  · rw [if_pos eof, if_pos eof]
    dsimp only
    split_ifs <;> rfl
  rw [if_neg eof, if_neg eof]
  by_cases newline : ch = 10
  · simp only [newline, room, if_true]
  · simp only [if_neg newline, room]

theorem Tty.Keeps.receive (keeps : t.Keeps a) {ch : Byte} (orderly : t.Orderly ch)
    (room : (a.receive t.termios ch).unread ≤ 512) :
    (t.receiveChar ch).1.Keeps (a.receive t.termios ch) := by
  rw [receive_char_key t ch keeps.canonical]
  unfold Tty.Orderly at orderly
  unfold Typed.receive at room ⊢
  cases key : t.termios.key ch with
  | signal | kill => exact keeps.with_line []
  | erase =>
    rw [keeps.line]
    exact keeps.with_line t.edit.dropLast
  | endOfFile =>
    simp only [key] at orderly room ⊢
    split_ifs with empty
    · rw [keeps.line] at room ⊢
      exact keeps.commit (by decide) empty (orderly empty) room
    · have nothing : a.line = [] := keeps.line.trans (not_not.mp empty)
      refine ⟨keeps.canonical, keeps.alive, keeps.ended, ?_, (not_not.mp empty).symm⟩
      rw [nothing, keeps.records, List.replicate_succ', List.append_assoc]
  | newline =>
    simp only [key] at orderly room ⊢
    rw [if_pos orderly.2]
    rw [keeps.line] at room ⊢
    exact keeps.commit (by decide) (by simp) orderly.1 room
  | ordinary =>
    simp only [key] at orderly ⊢
    rw [if_pos orderly, keeps.line]
    exact keeps.with_line (t.edit ++ [ch])

/-- A read returns what it should, and what is left stands for what is left. -/
theorem Tty.Keeps.read (keeps : t.Keeps a) (vmin vtime : Nat) {len : Nat} (positive : 0 < len) :
    (t.read vmin vtime true false len).1 = (a.read len).1 ∧
      (t.read vmin vtime true false len).2.Keeps (a.read len).2 := by
  obtain ⟨canonical, alive, ended, records, line⟩ := keeps
  unfold Tty.read
  have some : len ≠ 0 := by omega
  simp only [some, canonical, if_false, Bool.true_eq_false, Bool.false_eq_true, false_and, or_false,
    alive]
  by_cases empty : t.input = []
  · rw [if_pos empty]
    have counted : a.records = List.replicate t.eofPending [] := by
      rw [records, empty]
      rfl
    by_cases waits : 0 < t.eofPending
    · rw [if_pos waits]
      obtain ⟨count, pending⟩ := Nat.exists_eq_succ_of_ne_zero (Nat.pos_iff_ne_zero.mp waits)
      rw [pending, List.replicate_succ] at counted
      simp only [Typed.read, counted, List.take_nil, remains, List.drop_nil, if_true,
        List.nil_append, true_and]
      refine ⟨canonical, rfl, ended, ?_, line⟩
      rw [empty, pending]
      rfl
    · have none_waits : t.eofPending = 0 := by omega
      rw [none_waits] at counted
      rw [if_neg waits]
      simp only [Typed.read, counted, List.replicate_zero, true_and]
      exact ⟨canonical, alive, ended, records, line⟩
  · rw [if_neg empty]
    have cut : recordsOf t.input ≠ [] := by
      intro none
      have length := records_length t.input
      rw [none] at length
      exact empty (List.length_eq_zero_iff.mp length.symm)
    obtain ⟨record, later, split⟩ := List.exists_cons_of_ne_nil cut
    obtain ⟨bytes, left, stillEnded⟩ := read_loop_record len ended split
    rw [split, List.cons_append] at records
    simp only [Typed.read, records, bytes, true_and]
    refine ⟨canonical, rfl, stillEnded, ?_, line⟩
    rw [left, List.append_assoc]

/-- Every run keeps the records in the driver's variables. -/
theorem typing_keeps (typing : Typing Tty.Orderly t a) : t.Keeps a := by
  induction typing with
  | start termios canonical =>
    exact ⟨canonical, rfl, fun _ found => by simp at found, rfl, rfl⟩
  | receive ch _ orderly room ih =>
    exact ih.receive orderly room
  | read vmin vtime len _ positive ih =>
    exact (ih.read vmin vtime positive).2

/-- In every run in which no record is committed behind a waiting end-of-file and no line
outgrows the edit buffer, a read returns the bytes of the first record that is left and of no
other: a line with its newline, a fragment that an end-of-file ended, or nothing for an
end-of-file on an empty line. It sleeps only when no record is left. -/
theorem reads_return_records {t : Tty} {a : Typed} (typing : Typing Tty.Orderly t a)
    (vmin vtime : Nat) {len : Nat} (positive : 0 < len) :
    (t.read vmin vtime true false len).1 = (a.read len).1 :=
  ((typing_keeps typing).read vmin vtime positive).1

/-- The settings at boot. -/
def bootTermios : Termios := ⟨true, true, 3, 26, 127, 21, 4⟩

/-- The general statement at a line that is typed and read in two parts. -/
theorem reads_return_records_line :
    ∃ t a, Typing Tty.Orderly t a ∧ a.records = [[97, 10]] ∧
      (t.read 1 0 true false 1).1 = .returned [97] := by
  have start : Typing Tty.Orderly _ _ := .start bootTermios rfl
  have first := Typing.receive 97 start (by decide) (by decide)
  have second := Typing.receive 13 first (by decide) (by decide)
  exact ⟨_, _, second, by decide, reads_return_records second 1 0 Nat.one_pos⟩

/-- An end-of-file is typed on an empty line and then a line: the read that should return the
end-of-file returns the line. -/
theorem end_of_file_overtaken :
    ∃ t a, Typing (fun _ _ => True) t a ∧ (a.read 8).1 = .returned [] ∧
      (t.read 1 0 true false 8).1 = .returned [97, 10] := by
  have start : Typing (fun _ _ => True) _ _ := .start bootTermios rfl
  have first := Typing.receive 4 start trivial (by decide)
  have second := Typing.receive 97 first trivial (by decide)
  have third := Typing.receive 10 second trivial (by decide)
  exact ⟨_, _, third, by decide, by decide⟩

end JsEmulator.Files
