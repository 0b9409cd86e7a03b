import Mathlib.Data.Set.Card

/-!
# Counting the holders of a resource

A resource may be held at any number of places, and each place holds at most one
resource. The number of holders changes by the place that is updated and by nothing
else, which is all that a reference count has to follow.
-/

namespace JsEmulator.Library

universe u v
variable {H : Type u} {R : Type v}

/-- Only finitely many places hold something. -/
def FinitelyHeld (holds : H → Option R) : Prop := {h | holds h ≠ none}.Finite

/-- The number of places that hold a resource. -/
noncomputable def uses (holds : H → Option R) (r : R) : Nat := {h | holds h = some r}.ncard

/-- One at the places that hold the resource. -/
def heldHere [DecidableEq R] (x : Option R) (r : R) : Nat := if x = some r then 1 else 0

section

variable (holds : H → Option R) (finite : FinitelyHeld holds)
include holds finite

theorem holders_finite (r : R) : {h | holds h = some r}.Finite := by
  refine finite.subset ?_
  intro h held
  have here : holds h = some r := held
  change holds h ≠ none
  simp [here]

theorem finitely_held_update [DecidableEq H]
    (h : H) (x : Option R) : FinitelyHeld (Function.update holds h x) := by
  refine (finite.insert h).subset ?_
  intro other held
  by_cases here : other = h
  · exact .inl here
  · right
    simpa [Function.update_of_ne here] using held

/-- An update changes the count by the place alone. -/
theorem uses_update [DecidableEq H] [DecidableEq R]
    (h : H) (x : Option R) (r : R) :
    uses (Function.update holds h x) r + heldHere (holds h) r = uses holds r + heldHere x r := by
  -- Both counts are split at the place: the other holders are the same.
  have split (g : H → Option R) (finiteG : FinitelyHeld g) :
      uses g r = {other | other ≠ h ∧ g other = some r}.ncard + heldHere (g h) r := by
    have others : {other | other ≠ h ∧ g other = some r} = {other | g other = some r} \ {h} := by
      ext other
      simp [and_comm]
    rw [others, uses]
    by_cases held : g h = some r
    · have member : h ∈ {other | g other = some r} := held
      simp only [heldHere, if_pos held]
      exact (Set.ncard_sdiff_singleton_add_one member (holders_finite g finiteG r)).symm
    · have absent : h ∉ {other | g other = some r} := held
      simp only [heldHere, if_neg held, Nat.add_zero]
      rw [Set.sdiff_singleton_eq_self absent]
  have same : {other | other ≠ h ∧ Function.update holds h x other = some r} =
      {other | other ≠ h ∧ holds other = some r} := by
    ext other
    refine and_congr_right fun different => ?_
    rw [Function.update_of_ne different]
  rw [split _ (finitely_held_update holds finite h x), split holds finite, same,
    Function.update_self]
  omega

theorem uses_pos [DecidableEq H] (h : H) (r : R) (held : holds h = some r) : 0 < uses holds r :=
  (Set.ncard_pos (holders_finite holds finite r)).mpr ⟨h, held⟩

end

theorem uses_empty (r : R) : uses (fun _ : H => (none : Option R)) r = 0 := by
  simp [uses]

end JsEmulator.Library
