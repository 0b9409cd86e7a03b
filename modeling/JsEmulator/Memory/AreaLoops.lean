import JsEmulator.Memory.AreaTable
import Mathlib.Algebra.Order.BigOperators.Group.List

/-!
# The loops over the area table

`vm_munmap` and `vm_mprotect_areas` visit the sixteen slots and may fill free ones on
the way. Each turn cuts one area, so the table stays tidy and every page outside the
range keeps what backs it. The checks made before the loops leave enough free slots.
-/

namespace JsEmulator.Memory

variable {page start stop : Int} {next vm vm' : Vm} {i j : Fin maxVmas} {prot : Word} {a : Area}

/-! ## The loops -/

/-- The range of a loop over the areas. -/
structure PageRange (start stop : Int) : Prop where
  ordered : start < stop
  startAligned : start % 4096 = 0
  stopAligned : stop % 4096 = 0

theorem munmap_area_tidy (range : PageRange start stop) (tidy : Tidy vm)
    (stepped : munmapArea start stop vm i = some vm') :
    Tidy vm' := by
  rcases munmap_area_kept range.ordered stepped with ⟨rfl, -⟩ | ⟨pieces, kept, cut⟩
  · exact tidy
  · have pieced := cut range.startAligned range.stopAligned
    exact carved_tidy (cut_carved tidy kept.cut pieced.parts pieced.apart) tidy

theorem munmap_loop_tidy (range : PageRange start stop) (slots : List (Fin maxVmas)) (vm : Vm)
    (tidy : Tidy vm) (looped : slots.foldlM (munmapArea start stop) vm = some vm') : Tidy vm' := by
  induction slots generalizing vm with
  | nil =>
    cases looped
    exact tidy
  | cons i rest ih =>
    rw [List.foldlM_cons] at looped
    obtain ⟨next, stepped, remaining⟩ := Option.bind_eq_some_iff.mp looped
    exact ih next (munmap_area_tidy range tidy stepped) remaining

section

variable (ordered : start < stop) (usedHere : (vm.areas i).used = true)
  (stepped : mprotectArea start stop prot vm i = some next) (other : j ≠ i)
  (used : (vm.areas j).used = true)
include ordered usedHere stepped other used

/-- A slot that was in use is not touched when another area is protected. -/
theorem mprotect_area_same : next.areas j = vm.areas j := by
  rcases mprotect_area_kept ordered usedHere stepped with rfl | ⟨pieces, kept, -⟩
  · rfl
  obtain ⟨piece, -, others, free, -, -, -⟩ := cut_pieces kept.cut
  exact others j (fun isPiece => by simp [free j isPiece other] at used)

theorem mprotect_area_still : (next.areas j).used = true := by
  rwa [mprotect_area_same ordered usedHere stepped other used]

end

theorem mprotect_loop_kept (range : PageRange start stop) (slots : List (Fin maxVmas))
    (distinct : slots.Nodup) (vm : Vm) (used : ∀ i ∈ slots, (vm.areas i).used = true)
    (looped : slots.foldlM (mprotectArea start stop prot) vm = some vm') :
    (Tidy vm → Tidy vm') ∧ ∀ page b, vm'.Backs page b ↔ vm.Backs page b := by
  induction slots generalizing vm with
  | nil =>
    cases looped
    exact ⟨id, fun _ _ => Iff.rfl⟩
  | cons i rest ih =>
    rw [List.foldlM_cons] at looped
    obtain ⟨next, stepped, remaining⟩ := Option.bind_eq_some_iff.mp looped
    rw [List.nodup_cons] at distinct
    have usedHere := used i (by simp)
    have still : ∀ j ∈ rest, (next.areas j).used = true := by
      intro j member
      refine mprotect_area_still range.ordered usedHere stepped ?_ (used j (by simp [member]))
      rintro rfl
      exact distinct.1 member
    obtain ⟨tidier, backs⟩ := ih distinct.2 next still remaining
    rcases mprotect_area_kept range.ordered usedHere stepped with
      rfl | ⟨pieces, kept, cut⟩
    · exact ⟨tidier, backs⟩
    refine ⟨fun tidy => tidier ?_, ?_⟩
    · have pieced := cut range.startAligned range.stopAligned (tidy.placed i usedHere).nonempty
      exact carved_tidy (cut_carved tidy kept.cut pieced.parts pieced.apart) tidy
    · intro page b
      rw [backs, kept_backs kept]
      constructor
      · rintro (⟨j, -, given⟩ | ⟨given, -⟩)
        · exact ⟨j, given⟩
        · exact ⟨i, given⟩
      · rintro ⟨j, given⟩
        by_cases here : j = i
        · exact .inr ⟨here ▸ given, trivial⟩
        · exact .inl ⟨j, here, given⟩

/-! ## Free slots -/

/-- Replacing an area changes the number of free slots by that area alone. -/
theorem free_area_slots_set (vm : Vm) (i : Fin maxVmas) (a : Area) :
    vmFreeAreaSlots (vm.setArea i a) + (if (vm.areas i).used then 0 else 1) =
      vmFreeAreaSlots vm + (if a.used then 0 else 1) := by
  unfold vmFreeAreaSlots
  rw [← Finset.add_sum_erase Finset.univ _ (Finset.mem_univ i),
    ← Finset.add_sum_erase Finset.univ (fun j => if (vm.areas j).used then 0 else 1)
      (Finset.mem_univ i), set_area_same]
  have rest : ∑ j ∈ Finset.univ.erase i, (if ((vm.setArea i a).areas j).used then 0 else 1) =
      ∑ j ∈ Finset.univ.erase i, if (vm.areas j).used then 0 else 1 := by
    refine Finset.sum_congr rfl ?_
    intro j member
    rw [set_area_other _ _ _ _ (Finset.ne_of_mem_erase member)]
  omega

/-- A free slot is found whenever one is counted. -/
theorem area_assign_succeeds (vm : Vm) (a : Area) (used : a.used = true)
    (free : 0 < vmFreeAreaSlots vm) :
    ∃ vm', vmAreaAssign vm a = some vm' ∧ vmFreeAreaSlots vm' + 1 = vmFreeAreaSlots vm := by
  cases found : vmAreaSlot vm with
  | none =>
    have full : vmFreeAreaSlots vm = 0 := by
      simp [vmFreeAreaSlots, area_slot_none found]
    omega
  | some slot =>
    refine ⟨vm.setArea slot a, by simp [vmAreaAssign, found], ?_⟩
    have counted := free_area_slots_set vm slot a
    simp only [area_slot_unused vm slot found, used, if_true, Bool.false_eq_true, if_false] at counted
    omega

theorem free_area_slots_cut (vm : Vm) (i : Fin maxVmas) (a : Area) (before : (vm.areas i).used = true)
    (after : a.used = true) : vmFreeAreaSlots (vm.setArea i a) = vmFreeAreaSlots vm := by
  have counted := free_area_slots_set vm i a
  simpa [before, after] using counted

/-- Assigning while the area at one slot is being cut, when a slot is free. -/
theorem area_assign_beside_succeeds (vm : Vm) (i : Fin maxVmas) (a b : Area)
    (before : (vm.areas i).used = true) (free : 0 < vmFreeAreaSlots vm) (cutUsed : a.used = true)
    (newUsed : b.used = true) :
    ∃ vm', vmAreaAssign (vm.setArea i a) b = some vm' ∧ (vm'.areas i).used = true ∧
      vmFreeAreaSlots vm' + 1 = vmFreeAreaSlots vm := by
  have same := free_area_slots_cut vm i a before cutUsed
  obtain ⟨vm', assigned, counted⟩ := area_assign_succeeds (vm.setArea i a) b newUsed (by omega)
  obtain ⟨slot, other, -, rfl⟩ := area_assign_beside vm vm' i a b assigned cutUsed
  refine ⟨_, assigned, ?_, by omega⟩
  rw [set_area_other _ _ _ _ other.symm, set_area_same]
  exact cutUsed

/-- One turn of the loop of `vm_mprotect_areas` takes the slots counted for it. -/
theorem mprotect_area_succeeds (start stop : Int) (prot : Word) (vm : Vm) (i : Fin maxVmas)
    (used : (vm.areas i).used = true)
    (room : areaSlotsNeeded start stop (vm.areas i) ≤ vmFreeAreaSlots vm) :
    ∃ vm', mprotectArea start stop prot vm i = some vm' ∧
      vmFreeAreaSlots vm ≤ vmFreeAreaSlots vm' + areaSlotsNeeded start stop (vm.areas i) := by
  unfold mprotectArea
  simp only
  split
  case isTrue => exact ⟨vm, rfl, by omega⟩
  rename_i overlaps
  have needed : areaSlotsNeeded start stop (vm.areas i) =
      (if (vm.areas i).start < max start (vm.areas i).start then 1 else 0) +
        (if min stop (vm.areas i).stop < (vm.areas i).stop then 1 else 0) := by
    rw [areaSlotsNeeded, if_pos ⟨used, by simpa using overlaps⟩]
  split
  case isTrue =>
    refine ⟨_, rfl, ?_⟩
    rw [free_area_slots_cut vm i _ used]
    · omega
    · exact used
  rename_i notWhole
  split
  case isTrue front =>
    rw [if_neg (by omega), if_pos (by omega)] at needed
    obtain ⟨vm', assigned, still, counted⟩ := area_assign_beside_succeeds vm i
      { vm.areas i with start := min stop (vm.areas i).stop }
      { vm.areas i with stop := min stop (vm.areas i).stop, prot := prot }
      used (by omega) used used
    rw [assigned]
    refine ⟨_, rfl, ?_⟩
    rw [free_area_slots_cut vm' i _ still]
    · omega
    · exact used
  rename_i notFront
  split
  case isTrue back =>
    rw [if_pos (by omega), if_neg (by omega)] at needed
    obtain ⟨vm', assigned, -, counted⟩ := area_assign_beside_succeeds vm i
      { vm.areas i with stop := max start (vm.areas i).start }
      { vm.areas i with
        start := max start (vm.areas i).start, prot := prot
        offset := int32 ((vm.areas i).offset + max start (vm.areas i).start -
          (vm.areas i).start) } used (by omega) used used
    exact ⟨vm', assigned, by omega⟩
  rename_i notBack
  rw [if_pos (by omega), if_pos (by omega)] at needed
  obtain ⟨middle, assigned, -, counted⟩ := area_assign_beside_succeeds vm i
    { vm.areas i with stop := max start (vm.areas i).start }
    { vm.areas i with
      start := max start (vm.areas i).start, stop := min stop (vm.areas i).stop
      prot := prot
      offset := int32 ((vm.areas i).offset + max start (vm.areas i).start -
        (vm.areas i).start) } used (by omega) used used
  obtain ⟨vm', last, recounted⟩ := area_assign_succeeds middle
    { vm.areas i with
      start := min stop (vm.areas i).stop
      offset := int32 ((vm.areas i).offset + min stop (vm.areas i).stop -
        (vm.areas i).start) } used (by omega)
  rw [assigned]
  exact ⟨vm', last, by omega⟩

/-- The loop of `vm_mprotect_areas` has room when the slots counted are free. -/
theorem mprotect_loop_succeeds (prot : Word) (range : PageRange start stop)
    (slots : List (Fin maxVmas)) (distinct : slots.Nodup) (vm : Vm)
    (used : ∀ i ∈ slots, (vm.areas i).used = true)
    (room : (slots.map (fun i => areaSlotsNeeded start stop (vm.areas i))).sum ≤
      vmFreeAreaSlots vm) :
    ∃ vm', slots.foldlM (mprotectArea start stop prot) vm = some vm' := by
  induction slots generalizing vm with
  | nil => exact ⟨vm, rfl⟩
  | cons i rest ih =>
    rw [List.map_cons, List.sum_cons] at room
    rw [List.nodup_cons] at distinct
    obtain ⟨next, stepped, counted⟩ :=
      mprotect_area_succeeds start stop prot vm i (used i (by simp)) (by omega)
    have same : ∀ j ∈ rest, next.areas j = vm.areas j := by
      intro j member
      exact mprotect_area_same range.ordered (used i (by simp)) stepped
        (fun same => distinct.1 (same ▸ member)) (used j (by simp [member]))
    have needed : rest.map (fun j => areaSlotsNeeded start stop (next.areas j)) =
        rest.map (fun j => areaSlotsNeeded start stop (vm.areas j)) :=
      List.map_congr_left (fun j member => by rw [same j member])
    obtain ⟨vm', looped⟩ := ih distinct.2 next
      (fun j member => by rw [same j member]; exact used j (by simp [member]))
      (by rw [needed]; omega)
    exact ⟨vm', by rw [List.foldlM_cons, stepped]; exact looped⟩

theorem mprotect_areas_succeeds (prot : Word) (range : PageRange start stop)
    (room : vmMprotectSlotsNeeded vm start stop ≤ vmFreeAreaSlots vm) :
    ∃ vm', vmMprotectAreas vm start stop prot = some vm' := by
  refine mprotect_loop_succeeds prot range _ ((List.nodup_finRange _).filter _) vm ?_ ?_
  · intro i member
    simpa using List.of_mem_filter member
  · refine le_trans ?_ room
    rw [vmMprotectSlotsNeeded, Fin.sum_univ_def]
    exact (List.filter_sublist.map _).sum_le_sum (by simp)

/-- Two areas that a range splits are the same one. -/
theorem split_unique (vm : Vm) (tidy : Tidy vm) (start stop : Int) (range : PageRange start stop)
    (i j : Fin maxVmas) (first : (vm.areas i).splitBy start stop = true)
    (second : (vm.areas j).splitBy start stop = true) : i = j := by
  simp only [Area.splitBy, Bool.and_eq_true, decide_eq_true_eq] at first second
  by_contra different
  have apart := tidy.apart i j different first.1.1 second.1.1
  have ordered := range.ordered
  unfold Area.Apart at apart
  omega

/-- A turn that does not split succeeds and touches at most its own slot. -/
theorem munmap_area_unsplit (unsplit : (vm.areas i).splitBy start stop = false) :
    ∃ next, munmapArea start stop vm i = some next ∧
      (next = vm ∨ ((vm.areas i).used = true ∧ ∃ a, next = vm.setArea i a)) := by
  unfold munmapArea
  simp only [unsplit, Bool.false_eq_true, if_false]
  split
  case isTrue covered => exact ⟨_, rfl, .inr ⟨covered.1, _, rfl⟩⟩
  split
  case isTrue front => exact ⟨_, rfl, .inr ⟨front.1, _, rfl⟩⟩
  split
  case isTrue back => exact ⟨_, rfl, .inr ⟨back.1, _, rfl⟩⟩
  case isFalse => exact ⟨_, rfl, .inl rfl⟩

/-- If the range splits at most one area, one free slot is enough for the loop of
`vm_munmap`. -/
theorem munmap_loop_succeeds (ordered : start < stop) (slots : List (Fin maxVmas))
    (distinct : slots.Nodup) (vm : Vm)
    (alone : ∀ i ∈ slots, ∀ j ∈ slots, (vm.areas i).splitBy start stop = true →
      (vm.areas j).splitBy start stop = true → i = j) (room : (∃ j, (vm.areas j).used = false) ∨
      ∀ i ∈ slots, (vm.areas i).splitBy start stop = false) :
    ∃ vm', slots.foldlM (munmapArea start stop) vm = some vm' := by
  induction slots generalizing vm with
  | nil => exact ⟨vm, rfl⟩
  | cons i rest ih =>
    rw [List.nodup_cons] at distinct
    have goesOn (next : Vm) (stepped : munmapArea start stop vm i = some next)
        (less : ∀ j ∈ rest, (next.areas j).splitBy start stop = true →
          (vm.areas j).splitBy start stop = true)
        (later : (∃ j, (next.areas j).used = false) ∨
          ∀ j ∈ rest, (next.areas j).splitBy start stop = false) :
        ∃ vm', (i :: rest).foldlM (munmapArea start stop) vm = some vm' := by
      obtain ⟨vm', looped⟩ := ih distinct.2 next (by
        intro j first k second splitJ splitK
        exact alone j (by simp [first]) k (by simp [second]) (less j first splitJ) (less k second splitK))
        later
      exact ⟨vm', by rw [List.foldlM_cons, stepped]; exact looped⟩
    cases strict : (vm.areas i).splitBy start stop with
    | true =>
      -- The only split: afterwards no area still to come is split by the range.
      obtain ⟨j, unused⟩ := room.resolve_right (fun none => by simp [none i] at strict)
      cases found : vmAreaSlot vm with
      | none => simp [area_slot_none found j] at unused
      | some slot =>
        have unsplit : ∀ k ∈ rest, (((vm.setArea slot { vm.areas i with
            start := stop, offset := int32 ((vm.areas i).offset + stop - (vm.areas i).start) }).setArea i
            { vm.areas i with stop := start }).areas k).splitBy start stop = false := by
          intro k member
          have other : k ≠ i := fun same => distinct.1 (same ▸ member)
          rw [set_area_other _ _ _ _ other]
          by_cases here : k = slot
          · simp only [here, set_area_same, Area.splitBy, Bool.and_eq_false_iff,
              decide_eq_false_iff_not]
            exact .inl (.inr (by omega))
          rw [set_area_other _ _ _ _ here]
          by_contra splits
          rw [Bool.not_eq_false] at splits
          exact other (alone k (by simp [member]) i (by simp) splits strict)
        refine goesOn _ (by simp [munmapArea, strict, vmAreaAssign, found]) ?_ (.inr unsplit)
        intro k member splits
        simp [unsplit k member] at splits
    | false =>
      obtain ⟨next, stepped, same⟩ := munmap_area_unsplit strict
      have kept : ∀ j ∈ rest, next.areas j = vm.areas j := by
        intro j member
        rcases same with rfl | ⟨-, a, rfl⟩
        · rfl
        · exact set_area_other _ _ _ _ (fun here => distinct.1 (here ▸ member))
      refine goesOn next stepped (fun j member => by rw [kept j member]; exact id) ?_
      refine room.imp ?_ ?_
      · rintro ⟨j, unused⟩
        rcases same with rfl | ⟨used, a, rfl⟩
        · exact ⟨j, unused⟩
        have other : j ≠ i := by
          rintro rfl
          simp [unused] at used
        exact ⟨j, by rwa [set_area_other _ _ _ _ other]⟩
      · intro none j member
        rw [kept j member]
        exact none j (by simp [member])

/-- `vm_munmap` runs to its end: it has no slot for the split and changes nothing, or it
changes the areas. -/
theorem vm_munmap_runs (ordered : start < stop)
    (alone : ∀ i j, (vm.areas i).splitBy start stop = true →
      (vm.areas j).splitBy start stop = true → i = j) :
    vmMunmap vm start stop = some (-enomem, vm) ∨
      ∃ vm', (List.finRange maxVmas).foldlM (munmapArea start stop) vm = some vm' ∧
        vmMunmap vm start stop = some (0, vm') := by
  unfold vmMunmap
  by_cases full : ((List.finRange maxVmas).any fun i => (vm.areas i).splitBy start stop) = true ∧
      vmAreaSlot vm = none
  · exact .inl (if_pos full)
  rw [if_neg full]
  have room : (∃ j, (vm.areas j).used = false) ∨
      ∀ i ∈ List.finRange maxVmas, (vm.areas i).splitBy start stop = false := by
    cases found : vmAreaSlot vm with
    | some slot => exact .inl ⟨slot, area_slot_unused vm slot found⟩
    | none =>
      refine .inr fun i member => ?_
      by_contra split
      exact full ⟨List.any_eq_true.mpr ⟨i, member, by simpa using split⟩, found⟩
  obtain ⟨vm', looped⟩ := munmap_loop_succeeds ordered _ (List.nodup_finRange _) vm
    (fun i _ j _ => alone i j) room
  exact .inr ⟨vm', looped, by rw [looped]; rfl⟩

end JsEmulator.Memory
