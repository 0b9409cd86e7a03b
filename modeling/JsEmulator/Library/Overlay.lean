import Mathlib.Data.List.Basic

/-!
# Writing a list over part of a sequence

The sequence is a function of its positions. What a list covers is read from the list, and
every other position is as it was.
-/

namespace JsEmulator.Library

universe u
variable {α : Type u} {data : Nat → α} {off k : Nat} {items : List α}

/-- The sequence with a list written from a position on. -/
def overlay (data : Nat → α) (off : Nat) (items : List α) (k : Nat) : α :=
  if off ≤ k then (items[k - off]?).getD (data k) else data k

theorem overlay_outside (outside : k < off ∨ off + items.length ≤ k) :
    overlay data off items k = data k := by
  unfold overlay
  split_ifs with covered
  · rw [List.getElem?_eq_none (by omega), Option.getD_none]
  · rfl

/-- A position that is covered does not depend on what was there. -/
theorem overlay_covered (other : Nat → α) (above : off ≤ k) (below : k < off + items.length) :
    overlay data off items k = overlay other off items k := by
  have found : items[k - off]? = some items[k - off] := List.getElem?_eq_getElem (by omega)
  simp only [overlay, if_pos above, found, Option.getD_some]

end JsEmulator.Library
