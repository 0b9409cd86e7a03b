/-!
# Loops with a bound

A loop that is known to end after some turns is a recursion on that number. The rule for it gives what
holds after some turn, and that the test has failed there: the bound is only a bound.
-/

namespace JsEmulator.Library

/-- `while (test) turn`, for so many turns at most. -/
def turnWhile {α : Type} (test : α → Bool) (turn : α → α) : Nat → α → α
  | 0, a => a
  | turns + 1, a => if test a then turnWhile test turn turns (turn a) else a

/-- What holds at the start and is kept by every turn holds at the end, where the test fails if it has
failed after the last turn at the latest. -/
theorem turnWhile_rule {α : Type} {test : α → Bool} {turn : α → α} {turns : Nat} {a : α}
    (holds : Nat → α → Prop) (start : holds 0 a)
    (next : ∀ j x, holds j x → test x = true → holds (j + 1) (turn x))
    (ends : ∀ x, holds turns x → test x = false) :
    ∃ j, holds j (turnWhile test turn turns a) ∧ test (turnWhile test turn turns a) = false := by
  induction turns generalizing a holds with
  | zero => exact ⟨0, start, ends a start⟩
  | succ turns ih =>
    rw [turnWhile]
    by_cases more : test a = true
    · rw [if_pos more]
      obtain ⟨j, result, failed⟩ := ih (fun j => holds (j + 1)) (next 0 a start more)
        (fun j x => next (j + 1) x) ends
      exact ⟨j + 1, result, failed⟩
    · rw [if_neg more]
      exact ⟨0, start, Bool.eq_false_iff.mpr more⟩

end JsEmulator.Library
