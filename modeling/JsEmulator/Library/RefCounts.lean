import JsEmulator.Library.Holders

/-!
# Exact reference counts

Resources are counted one by one and live in groups: the two ends of a channel have
their own counts, and the channel stays alive while one of them is held. The counts
are exact when each is the number of places that hold its resource, and a group is
alive just while something of it is held. A place gains or loses a reference together
with the count; a new group starts with one holder.
-/

namespace JsEmulator.Library

universe u v w
variable {H : Type u} {R : Type v} {G : Type w}

/-- Every count of a live group is the number of holders, dead groups have no holders, and
a live group has one. -/
structure Exact (group : R → G) (holds : H → Option R) (refs : R → Int) (live : G → Prop) :
    Prop where
  counted : ∀ r, live (group r) → refs r = uses holds r
  dead : ∀ r, ¬ live (group r) → uses holds r = 0
  wanted : ∀ g, live g → ∃ r, group r = g ∧ 0 < uses holds r

variable {group : R → G} {holds : H → Option R} {refs : R → Int} {live : G → Prop}

theorem exact_held_live [DecidableEq H] (exact : Exact group holds refs live)
    (finite : FinitelyHeld holds) (h : H) (r : R) (held : holds h = some r) : live (group r) := by
  by_contra unused
  have none' := exact.dead r unused
  have some' := uses_pos holds finite h r held
  omega

variable [DecidableEq H] [DecidableEq R]

theorem uses_gain (finite : FinitelyHeld holds) (h : H) (r : R) (free : holds h = none) (r' : R) :
    uses (Function.update holds h (some r)) r' = uses holds r' + if r' = r then 1 else 0 := by
  have changed := uses_update holds finite h (some r) r'
  simp only [free, heldHere, reduceCtorEq, if_false, Nat.add_zero, Option.some.injEq] at changed
  rw [changed]
  simp [eq_comm]

theorem uses_lose (finite : FinitelyHeld holds) (h : H) (r : R) (held : holds h = some r) (r' : R) :
    uses (Function.update holds h none) r' + (if r' = r then 1 else 0) = uses holds r' := by
  have changed := uses_update holds finite h none r'
  simp only [held, heldHere, reduceCtorEq, if_false, Nat.add_zero, Option.some.injEq] at changed
  rw [← changed]
  simp [eq_comm]

section

variable (exact : Exact group holds refs live) (finite : FinitelyHeld holds) (h : H) (r : R)
include exact finite h r

/-- A free place takes a reference to a live resource. -/
theorem exact_attach
    (free : holds h = none) (alive : live (group r)) (refs' : R → Int) (live' : G → Prop)
    (more : refs' r = refs r + 1) (others : ∀ r', r' ≠ r → refs' r' = refs r')
    (same : ∀ g, live' g ↔ live g) :
    Exact group (Function.update holds h (some r)) refs' live' := by
  have gain := uses_gain finite h r free
  refine ⟨?_, ?_, ?_⟩
  · intro r' isLive
    have before := exact.counted r' ((same _).mp isLive)
    rw [gain r']
    by_cases here : r' = r
    · subst here
      rw [more, before]
      simp
    · rw [others r' here, before]
      simp [here]
  · intro r' unused
    rw [same] at unused
    have different : r' ≠ r := fun here => unused (here ▸ alive)
    rw [gain r', exact.dead r' unused]
    simp [different]
  · intro g isLive
    obtain ⟨r', inside, positive⟩ := exact.wanted g ((same g).mp isLive)
    exact ⟨r', inside, by rw [gain r']; omega⟩

/-- A place gives its reference up. The group stays alive while one of its counts is not
zero. -/
theorem exact_detach (held : holds h = some r) (refs' : R → Int) (live' : G → Prop)
    (less : refs' r = refs r - 1) (others : ∀ r', r' ≠ r → refs' r' = refs r')
    (elsewhere : ∀ g, g ≠ group r → (live' g ↔ live g))
    (here : live' (group r) ↔ ∃ r', group r' = group r ∧ refs' r' ≠ 0) :
    Exact group (Function.update holds h none) refs' live' := by
  have lose := uses_lose finite h r held
  have alive := exact_held_live exact finite h r held
  -- The new counts are right on everything that was alive.
  have right : ∀ r', live (group r') → refs' r' = uses (Function.update holds h none) r' := by
    intro r' wasLive
    have before := exact.counted r' wasLive
    have change := lose r'
    by_cases same : r' = r
    · subst same
      rw [if_pos rfl] at change
      rw [less, before]
      omega
    · rw [if_neg same] at change
      rw [others r' same, before]
      omega
  refine ⟨?_, ?_, ?_⟩
  · intro r' isLive
    by_cases inside : group r' = group r
    · exact right r' (inside ▸ alive)
    · exact right r' ((elsewhere _ inside).mp isLive)
  · intro r' unused
    by_cases inside : group r' = group r
    · rw [inside] at unused
      have zero : refs' r' = 0 := by
        by_contra nonzero
        exact unused (here.mpr ⟨r', inside, nonzero⟩)
      have count := right r' (inside ▸ alive)
      omega
    · have before := exact.dead r' fun wasLive => unused ((elsewhere _ inside).mpr wasLive)
      have change := lose r'
      omega
  · intro g isLive
    by_cases inside : g = group r
    · subst inside
      obtain ⟨r', member, nonzero⟩ := here.mp isLive
      have count := right r' (member ▸ alive)
      exact ⟨r', member, by omega⟩
    · obtain ⟨r', member, positive⟩ := exact.wanted g ((elsewhere g inside).mp isLive)
      have different : r' ≠ r := fun same => inside (same ▸ member.symm)
      have change := lose r'
      rw [if_neg different] at change
      exact ⟨r', member, by omega⟩

/-- A free place takes the first reference to a new group. -/
theorem exact_create (free : holds h = none) (unused : ¬ live (group r)) (refs' : R → Int)
    (live' : G → Prop) (one : refs' r = 1)
    (siblings : ∀ r', group r' = group r → r' ≠ r → refs' r' = 0)
    (others : ∀ r', group r' ≠ group r → refs' r' = refs r') (here : live' (group r))
    (elsewhere : ∀ g, g ≠ group r → (live' g ↔ live g)) :
    Exact group (Function.update holds h (some r)) refs' live' := by
  have gain := uses_gain finite h r free
  refine ⟨?_, ?_, ?_⟩
  · intro r' isLive
    rw [gain r']
    by_cases same : r' = r
    · subst same
      rw [one, exact.dead r' unused]
      simp
    rw [if_neg same]
    by_cases inside : group r' = group r
    · rw [siblings r' inside same, exact.dead r' (inside ▸ unused)]
      simp
    · rw [others r' inside, exact.counted r' ((elsewhere _ inside).mp isLive)]
      simp
  · intro r' dead
    have inside : group r' ≠ group r := fun inside => dead (inside ▸ here)
    have same : r' ≠ r := fun same => inside (same ▸ rfl)
    rw [gain r', if_neg same, exact.dead r' fun wasLive => dead ((elsewhere _ inside).mpr wasLive)]
  · intro g isLive
    by_cases inside : g = group r
    · subst inside
      exact ⟨r, rfl, by rw [gain r, if_pos rfl]; omega⟩
    obtain ⟨r', member, positive⟩ := exact.wanted g ((elsewhere g inside).mp isLive)
    exact ⟨r', member, by rw [gain r']; omega⟩

end

end JsEmulator.Library
