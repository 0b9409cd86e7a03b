import Mathlib.Data.Nat.ModEq
import Mathlib.Data.List.Basic
import Mathlib.Logic.Function.Basic

/-!
# Ring buffers

A ring buffer keeps a queue in cells that are counted modulo its size. A value is put in
the first cell after the queue and taken from the cell at its head. While the queue is
not longer than the ring, the cell after the queue is none of the cells of the queue, so
these two moves are those of a list.
-/

namespace JsEmulator.Library

universe u
variable {α : Type u}

/-- The queue of a ring buffer, from its head on. -/
def ringContents (size : Nat) (data : Nat → α) (head count : Nat) : List α :=
  (List.range count).map fun k => data ((head + k) % size)

@[simp] theorem ring_contents_length (size : Nat) (data : Nat → α) (head count : Nat) :
    (ringContents size data head count).length = count := by
  simp [ringContents]

/-- Two places of a queue that fits are different cells. -/
theorem ring_cells_differ {size : Nat} (head : Nat) {k count : Nat} (inside : k < count) (fits : count < size) :
    (head + k) % size ≠ (head + count) % size := by
  intro same
  have shifted : k % size = count % size := Nat.ModEq.add_left_cancel' head same
  rw [Nat.mod_eq_of_lt fits, Nat.mod_eq_of_lt (by omega)] at shifted
  omega

/-- A value put after the queue is its new last one. -/
theorem ring_push (size : Nat) (data : Nat → α) (head count : Nat) (value : α)
    (fits : count < size) :
    ringContents size (Function.update data ((head + count) % size) value) head (count + 1) =
      ringContents size data head count ++ [value] := by
  have kept : (List.range count).map
      (fun k => Function.update data ((head + count) % size) value ((head + k) % size)) =
      (List.range count).map fun k => data ((head + k) % size) := by
    refine List.map_congr_left fun k member => ?_
    exact Function.update_of_ne (ring_cells_differ head (List.mem_range.mp member) fits) _ _
  simp only [ringContents, List.range_succ, List.map_append, List.map_cons, List.map_nil, kept,
    Function.update_self]

/-- The value in the head cell is the first of the queue. -/
theorem ring_pop (size : Nat) (data : Nat → α) (head count : Nat) (inRing : head < size) :
    ringContents size data head (count + 1) =
      data head :: ringContents size data ((head + 1) % size) count := by
  have moved : (fun k => data ((head + (k + 1)) % size)) =
      fun k => data (((head + 1) % size + k) % size) := by
    funext k
    rw [Nat.mod_add_mod, Nat.add_assoc, Nat.add_comm 1 k]
  simp only [ringContents, List.range_succ_eq_map, List.map_cons, List.map_map,
    Function.comp_def, Nat.succ_eq_add_one, moved, Nat.add_zero, Nat.mod_eq_of_lt inRing]

end JsEmulator.Library
