import JsEmulator.Process.Runs

/-!
# Timeouts of `poll` and `nanosleep`

Both calls turn their request into a deadline, a value of the tick counter, and every
place that ends a sleep by timeout asks whether the deadline is at most the clock. A
timeout is not early when each clock value that passes this test lies at least the
requested number of ticks, rounded up and computed without a word size, after the call.
-/

namespace JsEmulator.Process

/-- A call with a timeout: the arguments that `sys_poll` and `sys_nanosleep` convert. -/
inductive TimedCall where
  | poll (timeout : Word)
  | nanosleep (seconds nanoseconds : Word)
deriving DecidableEq, Repr

namespace TimedCall

/-- The arguments that are not refused, and for `poll` a wait that ends at all. -/
def Accepted : TimedCall → Prop
  | .poll timeout => 0 < timeout.toInt
  | .nanosleep seconds nanoseconds =>
      0 ≤ seconds.toInt ∧ seconds.toInt ≤ 1000000 ∧ 0 ≤ nanoseconds.toInt ∧
        nanoseconds.toInt < 1000000000

/-- The ticks the user asked for, rounded up: a tick is ten milliseconds. -/
def requested : TimedCall → Int
  | .poll timeout => (timeout.toInt * 100 + 999) / 1000
  | .nanosleep seconds nanoseconds =>
      seconds.toInt * 100 + (nanoseconds.toInt + 9999999) / 10000000

/-- The deadline the call sleeps with when a process `p` makes it in the state `s`. -/
def deadline (s : Kernel) (p : Proc) : TimedCall → Word
  | .poll timeout => pollDeadlineFor s p timeout
  | .nanosleep seconds nanoseconds =>
      s.ticks + (seconds * ticksPerSec + (nanoseconds + 10000000#32 - 1).sdiv 10000000#32)

/-- The call ends by timeout only when the requested ticks have gone by. -/
def NotEarly (s : Kernel) (p : Proc) (call : TimedCall) : Prop :=
  ∀ now : Word, (call.deadline s p).sle now = true →
    s.ticks.toInt + call.requested ≤ now.toInt

/-- The conversion and the sum stay below `2^31`, and `poll` finds no deadline that an
earlier `poll` of the same process left behind, or one that is late enough. -/
def Fits (s : Kernel) (p : Proc) (call : TimedCall) : Prop :=
  match call with
  | .poll timeout =>
      if p.pollDeadline = 0 then
        timeout.toInt * 100 + 999 < 2 ^ 31 ∧ s.ticks.toInt + call.requested < 2 ^ 31
      else s.ticks.toInt + call.requested ≤ p.pollDeadline.toInt
  | .nanosleep _ _ => s.ticks.toInt + call.requested < 2 ^ 31

end TimedCall

/-- The first clock value that passes the test is the deadline itself. -/
theorem not_early_deadline (s : Kernel) (p : Proc) (call : TimedCall) :
    call.NotEarly s p ↔ s.ticks.toInt + call.requested ≤ (call.deadline s p).toInt := by
  constructor
  · intro notEarly
    exact notEarly _ (by simp [BitVec.sle])
  · intro late now passed
    simp only [BitVec.sle, decide_eq_true_eq] at passed
    omega

/-- A word sum or product read as an integer differs from the exact one by a multiple of
`2^32` that puts it into the range of a C `int`. -/
theorem wrapped (value : Int) : ∃ turns : Int, value.bmod (2 ^ 32) = value - 4294967296 * turns ∧
    -2147483648 ≤ value.bmod (2 ^ 32) ∧ value.bmod (2 ^ 32) < 2147483648 := by
  rw [Int.bmod_def]
  split
  · exact ⟨value / 4294967296, by omega⟩
  · exact ⟨value / 4294967296 + 1, by omega⟩

/-- A C division by a positive constant rounds towards zero. -/
theorem sdiv_to_int (value : Word) (divisor : Word) (positive : 0 < divisor.toInt) :
    (value.sdiv divisor).toInt =
      if 0 ≤ value.toInt then value.toInt / divisor.toInt else -(-value.toInt / divisor.toInt) := by
  have notMinusOne : divisor ≠ -1#32 := by
    rintro rfl
    exact absurd positive (by decide)
  rw [BitVec.toInt_sdiv_of_ne_or_ne _ _ (.inr notMinusOne)]
  split
  case isTrue nonnegative => exact Int.tdiv_eq_ediv_of_nonneg nonnegative
  case isFalse negative =>
    rw [← Int.tdiv_eq_ediv_of_nonneg (by omega), Int.neg_tdiv, neg_neg]

/-- The wait that `sys_poll` computes is at least one tick and exact as long as the
conversion fits; a conversion that wraps never gives as many ticks as were asked for. -/
theorem poll_delay {timeout : Word} (accepted : 0 < timeout.toInt) :
    ∃ wait : Word, (∀ s p, p.pollDeadline = 0 → pollDeadlineFor s p timeout = s.ticks + wait) ∧
      0 < wait.toInt ∧
      (timeout.toInt * 100 + 999 < 2 ^ 31 → wait.toInt = (timeout.toInt * 100 + 999) / 1000) ∧
      (2 ^ 31 ≤ timeout.toInt * 100 + 999 → wait.toInt < (timeout.toInt * 100 + 999) / 1000) := by
  let delay := (timeout * ticksPerSec + 999).sdiv 1000
  refine ⟨if delay.slt 1 then 1 else delay, ?_, ?_⟩
  · intro s p unset
    simp only [pollDeadlineFor, if_pos unset, delay]
  · have product : (timeout * ticksPerSec).toInt = (timeout.toInt * 100).bmod (2 ^ 32) :=
      BitVec.toInt_mul _ _
    have sum : (timeout * ticksPerSec + 999).toInt =
        ((timeout * ticksPerSec).toInt + 999).bmod (2 ^ 32) := BitVec.toInt_add _ _
    obtain ⟨first, product', _, _⟩ := wrapped (timeout.toInt * 100)
    obtain ⟨second, sum', _, _⟩ := wrapped ((timeout * ticksPerSec).toInt + 999)
    have quotient : delay.toInt = if 0 ≤ (timeout * ticksPerSec + 999).toInt then
        (timeout * ticksPerSec + 999).toInt / 1000
        else -(-(timeout * ticksPerSec + 999).toInt / 1000) := sdiv_to_int _ _ (by decide)
    have wait : (if delay.slt 1 then 1 else delay : Word).toInt = max 1 delay.toInt := by
      have one : (1 : Word).toInt = 1 := by decide
      simp only [BitVec.slt, decide_eq_true_eq, one]
      split <;> omega
    rw [wait]
    refine ⟨by omega, fun fits => ?_, fun wraps => ?_⟩
    · have exact : (timeout * ticksPerSec + 999).toInt = timeout.toInt * 100 + 999 := by omega
      rw [exact, if_pos (by omega)] at quotient
      omega
    · have turned : (timeout * ticksPerSec + 999).toInt ≤ timeout.toInt * 100 + 999 - 2 ^ 32 := by
        omega
      split at quotient <;> omega

/-- The wait that `sys_nanosleep` computes is exact. -/
theorem nanosleep_delay {seconds nanoseconds : Word}
    (accepted : (TimedCall.nanosleep seconds nanoseconds).Accepted) :
    (seconds * ticksPerSec + (nanoseconds + 10000000#32 - 1).sdiv 10000000#32).toInt =
      (TimedCall.nanosleep seconds nanoseconds).requested := by
  obtain ⟨low, high, positive, below⟩ := accepted
  have product : (seconds * ticksPerSec).toInt = (seconds.toInt * 100).bmod (2 ^ 32) :=
    BitVec.toInt_mul _ _
  have sum : (nanoseconds + 10000000#32 - 1).toInt =
      (nanoseconds.toInt + 9999999).bmod (2 ^ 32) := by
    rw [BitVec.sub_eq_add_neg, BitVec.add_assoc]
    exact BitVec.toInt_add _ _
  have quotient := sdiv_to_int (nanoseconds + 10000000#32 - 1) 10000000#32 (by decide)
  have divisor : (10000000#32).toInt = 10000000 := by decide
  obtain ⟨first, product', _, _⟩ := wrapped (seconds.toInt * 100)
  obtain ⟨second, sum', _, _⟩ := wrapped (nanoseconds.toInt + 9999999)
  rw [BitVec.toInt_add, TimedCall.requested]
  obtain ⟨third, total, _, _⟩ := wrapped ((seconds * ticksPerSec).toInt +
    ((nanoseconds + 10000000#32 - 1).sdiv 10000000#32).toInt)
  rw [divisor, if_pos (by omega)] at quotient
  omega

end JsEmulator.Process
