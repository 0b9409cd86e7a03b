import Mathlib.Data.Nat.ModEq

/-!
# One's-complement sums

Addition of words in `[0, m]` with end-around carry. Repeated addition depends on the
plain sum of the words only: it gives zero for zero and otherwise the representative in
`[1, m]` modulo `m`. The maximal word `m` is the second zero.
-/

namespace JsEmulator.Library

variable {m n a b x : Nat}

/-- Addition with end-around carry. -/
def onesAdd (m a b : Nat) : Nat := if a + b ≤ m then a + b else a + b - m

/-- The one's-complement sum of a list of words. -/
def onesSum (m : Nat) (words : List Nat) : Nat := words.foldl (onesAdd m) 0

/-- The end-around carry of a plain sum. -/
def carried (m n : Nat) : Nat := if n = 0 then 0 else (n - 1) % m + 1

theorem carried_zero_iff : carried m n = 0 ↔ n = 0 := by
  unfold carried
  split <;> simp [*]

theorem carried_le (positive : 0 < m) : carried m n ≤ m := by
  unfold carried
  split
  · exact Nat.zero_le m
  · exact Nat.mod_lt _ positive

theorem carried_mod (m n : Nat) : carried m n ≡ n [MOD m] := by
  unfold carried
  split
  case isTrue zero => rw [zero]
  case isFalse nonzero =>
    have same := (Nat.mod_modEq (n - 1) m).add_right 1
    rwa [Nat.sub_add_cancel (Nat.pos_of_ne_zero nonzero)] at same

/-- The carry is determined by the residue, and by whether the sum is zero. -/
theorem carried_unique (small : x ≤ m) (residue : x ≡ n [MOD m]) (zero : x = 0 ↔ n = 0) :
    carried m n = x := by
  by_cases none : n = 0
  · rw [carried_zero_iff.mpr none, zero.mpr none]
  have positive : 0 < x := Nat.pos_of_ne_zero (fun gone => none (zero.mp gone))
  have shifted : x - 1 ≡ n - 1 [MOD m] := by
    refine Nat.ModEq.add_right_cancel' 1 ?_
    rwa [Nat.sub_add_cancel positive, Nat.sub_add_cancel (Nat.pos_of_ne_zero none)]
  have below : x - 1 < m := by omega
  unfold carried
  rw [if_neg none, ← shifted, Nat.mod_eq_of_lt below]
  omega

theorem carried_of_le (small : n ≤ m) : carried m n = n :=
  carried_unique small rfl Iff.rfl

/-- A sum may be carried before more is added. -/
theorem carried_add (positive : 0 < m) (a b : Nat) :
    carried m (carried m a + b) = carried m (a + b) := by
  refine carried_unique (carried_le positive) ?_ ?_
  · exact (carried_mod m (a + b)).trans ((carried_mod m a).add_right b).symm
  · simp only [carried_zero_iff, Nat.add_eq_zero_iff]

/-- Folding the digits to the base `m + 1` once does not change the carry. -/
theorem carried_digits (positive : 0 < m) (n : Nat) :
    carried m (n % (m + 1) + n / (m + 1)) = carried m n := by
  have split := Nat.mod_add_div n (m + 1)
  refine carried_unique (carried_le positive) ((carried_mod m n).trans ?_) ?_
  · have expanded : n = n % (m + 1) + n / (m + 1) + m * (n / (m + 1)) := by
      rw [Nat.add_mul, Nat.one_mul] at split
      omega
    conv_lhs => rw [expanded]
    exact Nat.add_mul_mod_self_left _ m _
  · rw [carried_zero_iff]
    constructor
    · intro zero
      simp [zero]
    · intro zero
      have digits := Nat.add_eq_zero_iff.mp zero
      rw [← split, digits.1, digits.2, Nat.mul_zero]

/-- A word and its complement add up to the maximal word. -/
theorem carried_complement (positive : 0 < m) (n : Nat) :
    carried m (n + (m - carried m n)) = m := by
  rw [← carried_add positive, Nat.add_sub_cancel' (carried_le positive)]
  exact carried_of_le le_rfl

theorem ones_add_carried (left : a ≤ m) (right : b ≤ m) : onesAdd m a b = carried m (a + b) := by
  unfold onesAdd
  split
  case isTrue small => rw [carried_of_le small]
  case isFalse large =>
    refine (carried_unique (by omega) ?_ (by omega)).symm
    have back : a + b - m + m = a + b := by omega
    calc a + b - m ≡ a + b - m + m [MOD m] := (Nat.add_mod_right _ _).symm
      _ = a + b := back

/-- The one's-complement sum is the carry of the plain sum. -/
theorem ones_sum_carried (positive : 0 < m) (words : List Nat) (bounded : ∀ w ∈ words, w ≤ m) :
    onesSum m words = carried m words.sum := by
  have general (start : Nat) (small : start ≤ m) :
      words.foldl (onesAdd m) start = carried m (start + words.sum) := by
    induction words generalizing start with
    | nil => simp [carried_of_le small]
    | cons first rest ih =>
      have head : first ≤ m := bounded first List.mem_cons_self
      rw [List.foldl_cons, ones_add_carried small head]
      rw [ih (fun w member => bounded w (List.mem_cons_of_mem _ member)) _
        (carried_le positive), carried_add positive, List.sum_cons, Nat.add_assoc]
  unfold onesSum
  rw [general 0 (Nat.zero_le m), Nat.zero_add]

end JsEmulator.Library
