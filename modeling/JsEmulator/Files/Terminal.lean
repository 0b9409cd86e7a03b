import JsEmulator.Files.Table

/-!
# The line discipline of the terminal

`tty_receive` and `tty_close_input`. The ring of 512 characters with their marks is a list.
What the driver does outside its own variables is a list of effects: it wakes pollers, it
signals the foreground group, and it restarts inter-byte timers. The echo is left out.
-/

namespace JsEmulator.Files

open JsEmulator.Memory (Byte Word hasBits)

/-- The flags and control characters of `struct guest_termios` that input depends on. -/
structure Termios where
  isig : Bool
  icanon : Bool
  vintr : Int
  vsusp : Int
  verase : Int
  vkill : Int
  veof : Int
deriving DecidableEq, Repr

/-- The variables of the driver. A mark is 1 at the end of a line and 2 where input was
committed without a newline. -/
structure Tty where
  termios : Termios
  closed : Bool
  eofPending : Nat
  input : List (Byte × Nat)
  edit : List Byte
deriving DecidableEq, Repr

/-- What the driver does to processes. -/
inductive TtyEffect where
  | pollWakeup
  | signal (number : Nat)
  | interbyte
deriving DecidableEq, Repr

/-- `tty_queue`. -/
def Tty.queue (t : Tty) (ch : Byte) (mark : Nat) : Tty × List TtyEffect :=
  if 512 ≤ t.input.length then (t, [])
  else ({ t with input := t.input ++ [(ch, mark)] }, [.pollWakeup])

/-- The loop of `tty_commit_edit`: only the last character gets the mark. -/
def Tty.commitLoop (mark : Nat) : List Byte → Tty → Tty × List TtyEffect
  | [], t => (t, [])
  | ch :: rest, t =>
    let first := t.queue ch (if rest = [] then mark else 0)
    let later := Tty.commitLoop mark rest first.1
    (later.1, first.2 ++ later.2)

/-- `tty_commit_edit`. -/
def Tty.commitEdit (t : Tty) (mark : Nat) : Tty × List TtyEffect :=
  let committed := Tty.commitLoop mark t.edit t
  ({ committed.1 with edit := [] }, committed.2)

/-- `tty_receive`, for a character that is no carriage return. `SIGINT` is 2 and `SIGTSTP`
is 20. -/
def Tty.receiveChar (t : Tty) (ch : Byte) : Tty × List TtyEffect :=
  if t.termios.isig ∧ (ch.toNat : Int) = t.termios.vintr then ({ t with edit := [] }, [.signal 2])
  else if t.termios.isig ∧ (ch.toNat : Int) = t.termios.vsusp then
    ({ t with edit := [] }, [.signal 20])
  else if t.termios.icanon = false then ((t.queue ch 0).1, (t.queue ch 0).2 ++ [.interbyte])
  else if (ch.toNat : Int) = t.termios.verase ∨ ch = 8 then ({ t with edit := t.edit.dropLast }, [])
  else if (ch.toNat : Int) = t.termios.vkill then ({ t with edit := [] }, [])
  else if (ch.toNat : Int) = t.termios.veof then
    if t.edit ≠ [] then t.commitEdit 2 else ({ t with eofPending := t.eofPending + 1 }, [])
  else
    let t := if t.edit.length < 128 then { t with edit := t.edit ++ [ch] } else t
    if ch = 10 then t.commitEdit 1 else (t, [])

/-- A carriage return counts as a newline. -/
def typed (ch : Byte) : Byte := if ch = 13 then 10 else ch

/-- `tty_receive`. -/
def Tty.receive (t : Tty) (ch : Byte) : Tty × List TtyEffect := t.receiveChar (typed ch)

/-- `tty_close_input`. -/
def Tty.closeInput (t : Tty) : Tty × List TtyEffect :=
  if t.closed then (t, [])
  else
    let committed := ({ t with closed := true } : Tty).commitEdit 2
    (committed.1, committed.2 ++ [.pollWakeup])

def pollin : Word := 1
def pollout : Word := 4
def pollerr : Word := 8
def pollhup : Word := 16

/-- A bit that is reported under a condition. -/
def bitIf (condition : Bool) (bit : Word) : Word := if condition then bit else 0

/-- `tty_poll`. -/
def Tty.poll (t : Tty) (events : Word) : Word :=
  bitIf (hasBits events pollin && (t.input ≠ [] || t.eofPending ≠ 0 || t.closed)) pollin |||
    bitIf (hasBits events pollout) pollout ||| bitIf t.closed pollhup

/-! ## Who is woken -/

/-- The variables that `tty_poll` reads are as they were. -/
structure Tty.SameReady (t u : Tty) : Prop where
  input : u.input = t.input
  eofPending : u.eofPending = t.eofPending
  closed : u.closed = t.closed

theorem queue_wakes (t : Tty) (ch : Byte) (mark : Nat) :
    .pollWakeup ∈ (t.queue ch mark).2 ∨ (t.queue ch mark).1 = t := by
  unfold Tty.queue
  split
  · exact .inr rfl
  · exact .inl List.mem_cons_self

/-- A line is queued with a wake-up, or not at all. -/
theorem commit_loop_wakes (mark : Nat) (chars : List Byte) (t : Tty) :
    .pollWakeup ∈ (Tty.commitLoop mark chars t).2 ∨ (Tty.commitLoop mark chars t).1 = t := by
  induction chars generalizing t with
  | nil => exact .inr rfl
  | cons ch rest ih =>
    rcases queue_wakes t ch (if rest = [] then mark else 0) with woken | same
    · exact .inl (List.mem_append_left _ woken)
    rcases ih (t.queue ch (if rest = [] then mark else 0)).1 with woken | kept
    · exact .inl (List.mem_append_right _ woken)
    · exact .inr (kept.trans same)

theorem commit_edit_wakes (t : Tty) (mark : Nat) :
    .pollWakeup ∈ (t.commitEdit mark).2 ∨ t.SameReady (t.commitEdit mark).1 := by
  rcases commit_loop_wakes mark t.edit t with woken | same
  · exact .inl woken
  · refine .inr ⟨?_, ?_, ?_⟩ <;> simp only [Tty.commitEdit, same]

/-- A character is the one that ends the input, in an empty line, and it is not taken for
another control character. -/
def Tty.EndsInput (t : Tty) (ch : Byte) : Prop :=
  ¬ (t.termios.isig = true ∧ (ch.toNat : Int) = t.termios.vintr) ∧
  ¬ (t.termios.isig = true ∧ (ch.toNat : Int) = t.termios.vsusp) ∧
  t.termios.icanon ≠ false ∧ ¬ ((ch.toNat : Int) = t.termios.verase ∨ ch = 8) ∧
  (ch.toNat : Int) ≠ t.termios.vkill ∧ (ch.toNat : Int) = t.termios.veof ∧ t.edit = []

/-- The end of input is noted, and nobody is told. -/
theorem receive_ends_input {t : Tty} {ch : Byte} (ends : t.EndsInput ch) :
    t.receiveChar ch = ({ t with eofPending := t.eofPending + 1 }, []) := by
  obtain ⟨intr, susp, canonical, erase, kill, eof, empty⟩ := ends
  rw [Tty.receiveChar, if_neg intr, if_neg susp, if_neg canonical, if_neg erase, if_neg kill,
    if_pos eof, if_neg (not_not.mpr empty)]

/-- Every other character wakes the pollers or leaves what is reported to them as it was. -/
theorem receive_wakes {t : Tty} {ch : Byte} (other : ¬ t.EndsInput ch) :
    .pollWakeup ∈ (t.receiveChar ch).2 ∨ t.SameReady (t.receiveChar ch).1 := by
  have same (edit : List Byte) : t.SameReady { t with edit := edit } := ⟨rfl, rfl, rfl⟩
  unfold Tty.receiveChar
  split
  case isTrue => exact .inr (same _)
  rename_i intr
  split
  case isTrue => exact .inr (same _)
  rename_i susp
  split
  case isTrue =>
    rcases queue_wakes t ch 0 with woken | kept
    · exact .inl (List.mem_append_left _ woken)
    · rw [kept]
      exact .inr (same t.edit)
  rename_i canonical
  split
  case isTrue => exact .inr (same _)
  rename_i erase
  split
  case isTrue => exact .inr (same _)
  rename_i kill
  split
  case isTrue eof =>
    rw [if_pos fun empty => other ⟨intr, susp, canonical, erase, kill, eof, empty⟩]
    exact commit_edit_wakes t 2
  have added : t.SameReady
      (if t.edit.length < 128 then { t with edit := t.edit ++ [ch] } else t) := by
    split
    · exact same _
    · exact same t.edit
  simp only
  generalize (if t.edit.length < 128 then { t with edit := t.edit ++ [ch] } else t) = u
    at added
  split
  case isTrue =>
    rcases commit_edit_wakes u 1 with woken | kept
    · exact .inl woken
    · exact .inr ⟨kept.input.trans added.input, kept.eofPending.trans added.eofPending,
        kept.closed.trans added.closed⟩
  case isFalse => exact .inr added

end JsEmulator.Files
