import JsEmulator.Memory.Areas

/-!
# Invariants of the area table

A tidy table has aligned, nonempty areas inside the user range that neither overlap
each other nor the heap. Unmapping and protecting only carve areas into pieces of
themselves; `Carved` says so once for both, and carving keeps a table tidy.

The other fact about them is what the areas say of a page. `Vm.Backs` forgets slots
and protections: a page is backed by a file at an offset, or by anonymous memory.
Protecting changes no backing, and unmapping removes exactly those of its range.
-/

namespace JsEmulator.Memory

variable {vm vm' : Vm} {i j : Fin maxVmas} {a whole : Area} {pieces : List Area} {keep : Int → Prop}
variable {start stop : Int}

theorem int32_of_range (x : Int) (low : -2147483648 ≤ x) (high : x < 2147483648) : int32 x = x := by
  unfold int32
  omega

theorem mem_pages (page start stop : Int) :
    page ∈ pages start stop ↔ (∃ k : Nat, page = start + 4096 * k) ∧ page < stop := by
  simp only [pages, List.mem_map, List.mem_range]
  constructor
  · rintro ⟨k, inside, rfl⟩
    exact ⟨⟨k, rfl⟩, by omega⟩
  · rintro ⟨⟨k, rfl⟩, below⟩
    exact ⟨k, by omega, rfl⟩

/-- The pages of a range, when both ends are page-aligned. -/
theorem mem_pages_aligned (page start stop : Int) (aligned : page % 4096 = 0)
    (startAligned : start % 4096 = 0) :
    page ∈ pages start stop ↔ start ≤ page ∧ page < stop := by
  rw [mem_pages]
  constructor
  · rintro ⟨⟨k, rfl⟩, below⟩
    omega
  · rintro ⟨above, below⟩
    refine ⟨⟨((page - start) / 4096).toNat, ?_⟩, below⟩
    omega

/-- Rounding up an address of the user range. -/
theorem page_align_up_bounds (value : Int) (low : 0 ≤ value) (high : value ≤ 2147479552) :
    value ≤ pageAlignUp value ∧ pageAlignUp value < value + 4096 ∧ pageAlignUp value % 4096 = 0 := by
  unfold pageAlignUp
  rw [int32_of_range _ (by omega) (by omega)]
  omega

@[simp] theorem set_area_same (vm : Vm) (i : Fin maxVmas) (a : Area) :
    (vm.setArea i a).areas i = a := by
  simp [Vm.setArea]

theorem set_area_other (vm : Vm) (i j : Fin maxVmas) (a : Area) (different : j ≠ i) :
    (vm.setArea i a).areas j = vm.areas j := by
  simp [Vm.setArea, different]

theorem area_slot_unused (vm : Vm) (slot : Fin maxVmas) (found : vmAreaSlot vm = some slot) :
    (vm.areas slot).used = false := by
  simpa using List.find?_some found

theorem area_slot_none (full : vmAreaSlot vm = none) (i : Fin maxVmas) :
    (vm.areas i).used = true := by
  have used := List.find?_eq_none.mp full i (List.mem_finRange i)
  simpa using used

/-- Membership of a page in an area. -/
theorem contains_iff (a : Area) (page : Int) :
    a.contains page = true ↔ a.used = true ∧ a.start ≤ page ∧ page < a.stop := by
  simp [Area.contains, and_assoc]

theorem area_index_contains (vm : Vm) (page : Int) (i : Fin maxVmas)
    (found : vmAreaIndex vm page = some i) : (vm.areas i).contains page = true := by
  simpa using List.find?_some found

theorem page_in_area_iff (vm : Vm) (page : Int) :
    vmPageInArea vm page = true ↔ ∃ i, (vm.areas i).contains page = true := by
  simp [vmPageInArea, vmAreaIndex, List.find?_isSome]

/-! ## Tidy tables -/

/-- An area where the kernel may put one. -/
structure Area.Placed (a : Area) : Prop where
  startAligned : a.start % 4096 = 0
  stopAligned : a.stop % 4096 = 0
  low : userBase ≤ a.start
  nonempty : a.start < a.stop
  high : a.stop ≤ userStackTop

/-- Two areas with no address in common. -/
def Area.Apart (a b : Area) : Prop := a.stop ≤ b.start ∨ b.stop ≤ a.start

/-- The invariant of the area table. The heap runs from `brkStart` to the page end
of `brkEnd`, and may be empty. -/
structure Tidy (vm : Vm) : Prop where
  placed : ∀ i, (vm.areas i).used = true → (vm.areas i).Placed
  apart : ∀ i j, i ≠ j → (vm.areas i).used = true → (vm.areas j).used = true →
    (vm.areas i).Apart (vm.areas j)
  heapLow : userBase ≤ vm.brkStart
  heapAligned : vm.brkStart % 4096 = 0
  heapOrdered : vm.brkStart ≤ vm.brkEnd
  heapHigh : vm.brkEnd ≤ userGuardPage
  heapApart : ∀ i, (vm.areas i).used = true →
    (vm.areas i).stop ≤ vm.brkStart ∨ pageAlignUp vm.brkEnd ≤ (vm.areas i).start ∨
      pageAlignUp vm.brkEnd ≤ vm.brkStart

/-- One area is a nonempty aligned part of another. -/
structure Area.PartOf (a whole : Area) : Prop where
  used : whole.used = true
  startAligned : whole.start % 4096 = 0 → whole.stop % 4096 = 0 → a.start % 4096 = 0
  stopAligned : whole.start % 4096 = 0 → whole.stop % 4096 = 0 → a.stop % 4096 = 0
  low : whole.start ≤ a.start
  nonempty : a.start < a.stop
  high : a.stop ≤ whole.stop

/-- Every area of the second table is a part of one of the first, and two parts of
the same area are apart. -/
structure Carved (vm vm' : Vm) : Prop where
  brkStart : vm'.brkStart = vm.brkStart
  brkEnd : vm'.brkEnd = vm.brkEnd
  parts : ∃ origin : Fin maxVmas → Fin maxVmas,
    (∀ i, (vm'.areas i).used = true → (vm'.areas i).PartOf (vm.areas (origin i))) ∧
    ∀ i j, i ≠ j → (vm'.areas i).used = true → (vm'.areas j).used = true → origin i = origin j →
      (vm'.areas i).Apart (vm'.areas j)

theorem part_of_placed (part : a.PartOf whole) (placed : whole.Placed) :
    a.Placed where
  startAligned := part.startAligned placed.startAligned placed.stopAligned
  stopAligned := part.stopAligned placed.startAligned placed.stopAligned
  low := placed.low.trans part.low
  nonempty := part.nonempty
  high := part.high.trans placed.high

theorem parts_apart {b other : Area} (first : a.PartOf whole) (second : b.PartOf other)
    (apart : whole.Apart other) : a.Apart b := by
  unfold Area.Apart at *
  have := first.low
  have := first.high
  have := second.low
  have := second.high
  omega

/-- Carving keeps a table tidy. -/
theorem carved_tidy (carved : Carved vm vm') (tidy : Tidy vm) : Tidy vm' := by
  obtain ⟨origin, parts, siblings⟩ := carved.parts
  refine ⟨?_, ?_, ?_, ?_, ?_, ?_, ?_⟩
  · intro i used
    exact part_of_placed (parts i used) (tidy.placed _ (parts i used).used)
  · intro i j different usedI usedJ
    by_cases same : origin i = origin j
    · exact siblings i j different usedI usedJ same
    · exact parts_apart (parts i usedI) (parts j usedJ)
        (tidy.apart _ _ same (parts i usedI).used (parts j usedJ).used)
  · rw [carved.brkStart]
    exact tidy.heapLow
  · rw [carved.brkStart]
    exact tidy.heapAligned
  · rw [carved.brkStart, carved.brkEnd]
    exact tidy.heapOrdered
  · rw [carved.brkEnd]
    exact tidy.heapHigh
  · intro i used
    rw [carved.brkStart, carved.brkEnd]
    have low := (parts i used).low
    have high := (parts i used).high
    rcases tidy.heapApart _ (parts i used).used with below | above | empty
    · exact .inl (high.trans below)
    · exact .inr (.inl (above.trans low))
    · exact .inr (.inr empty)

theorem part_of_self (used : a.used = true) (nonempty : a.start < a.stop) : a.PartOf a :=
  ⟨used, fun aligned _ => aligned, fun _ aligned => aligned, le_refl _, nonempty, le_refl _⟩

/-- A table in which one area has been cut into pieces, at its own slot and at slots
that are counted as pieces too. -/
theorem carved_pieces {piece : Fin maxVmas → Prop} (tidy : Tidy vm)
    (brkStart : vm'.brkStart = vm.brkStart) (brkEnd : vm'.brkEnd = vm.brkEnd) (self : piece i)
    (others : ∀ j, ¬ piece j → vm'.areas j = vm.areas j)
    (parts : ∀ j, piece j → (vm'.areas j).used = true → (vm'.areas j).PartOf (vm.areas i))
    (apart : ∀ j k, piece j → piece k → j ≠ k → (vm'.areas j).used = true →
      (vm'.areas k).used = true → (vm'.areas j).Apart (vm'.areas k)) : Carved vm vm' := by
  classical
  refine ⟨brkStart, brkEnd, fun j => if piece j then i else j, ?_, ?_⟩
  · intro j used
    by_cases isPiece : piece j
    · simp only [if_pos isPiece]
      exact parts j isPiece used
    · simp only [if_neg isPiece]
      rw [others j isPiece] at used ⊢
      exact part_of_self used (tidy.placed j used).nonempty
  · intro j k different usedJ usedK same
    by_cases pieceJ : piece j
    · by_cases pieceK : piece k
      · exact apart j k pieceJ pieceK different usedJ usedK
      · simp only [if_pos pieceJ, if_neg pieceK] at same
        exact absurd (same ▸ self) pieceK
    · by_cases pieceK : piece k
      · simp only [if_neg pieceJ, if_pos pieceK] at same
        exact absurd (same ▸ self) pieceJ
      · simp only [if_neg pieceJ, if_neg pieceK] at same
        exact absurd same different

/-- The area at one slot is cut into pieces, the first of which stays at the slot and
the others go to slots that were free. -/
inductive Cut (vm : Vm) (i : Fin maxVmas) : Vm → List Area → Prop where
  | dropped : Cut vm i (vm.setArea i { vm.areas i with used := false }) []
  | trimmed (a : Area) : Cut vm i (vm.setArea i a) [a]
  | halved (slot : Fin maxVmas) (a b : Area) (free : (vm.areas slot).used = false)
      (other : slot ≠ i) : Cut vm i ((vm.setArea slot b).setArea i a) [a, b]
  | thirds (slot right : Fin maxVmas) (a b c : Area) (free : (vm.areas slot).used = false)
      (freeRight : (vm.areas right).used = false) (other : slot ≠ i) (otherRight : right ≠ i)
      (different : right ≠ slot) :
      Cut vm i (((vm.setArea right c).setArea slot b).setArea i a) [a, b, c]

/-- The slots at which a cut has put its pieces. -/
theorem cut_pieces (cut : Cut vm i vm' pieces) :
    ∃ piece : Fin maxVmas → Prop, piece i ∧
      (∀ j, ¬ piece j → vm'.areas j = vm.areas j) ∧
      (∀ j, piece j → j ≠ i → (vm.areas j).used = false) ∧
      (∀ j, piece j → (vm'.areas j).used = true → vm'.areas j ∈ pieces) ∧
      (∀ a ∈ pieces, ∃ j, piece j ∧ vm'.areas j = a) ∧
      (pieces.Pairwise Area.Apart → ∀ j k, piece j → piece k → j ≠ k →
        (vm'.areas j).used = true → (vm'.areas k).used = true →
        (vm'.areas j).Apart (vm'.areas k)) := by
  cases cut with
  | dropped | trimmed a =>
    refine ⟨fun j => j = i, rfl, ?_, ?_, ?_, by simp, ?_⟩
    · intro j other
      exact set_area_other _ _ _ _ other
    · intro j here elsewhere
      exact absurd here elsewhere
    · rintro j rfl used
      simp at used ⊢
    · rintro - j k rfl rfl different
      exact absurd rfl different
  | halved slot a b free other =>
    have atSlot : ((vm.setArea slot b).setArea i a).areas slot = b := by
      rw [set_area_other _ _ _ _ other, set_area_same]
    refine ⟨fun j => j = i ∨ j = slot, .inl rfl, ?_, ?_, ?_, ?_, ?_⟩
    · intro j elsewhere
      rw [not_or] at elsewhere
      rw [set_area_other _ _ _ _ elsewhere.1, set_area_other _ _ _ _ elsewhere.2]
    · rintro j (rfl | rfl) elsewhere
      · exact absurd rfl elsewhere
      · exact free
    · rintro j (rfl | rfl) _
      · simp
      · simp [atSlot]
    · simp [atSlot]
    · intro apart
      have both : a.Apart b := by simpa using apart
      rintro j k (rfl | rfl) (rfl | rfl) different _ _
      · exact absurd rfl different
      · rwa [set_area_same, atSlot]
      · rw [set_area_same, atSlot]
        exact both.symm
      · exact absurd rfl different
  | thirds slot right a b c free freeRight other otherRight different =>
    have atSlot : (((vm.setArea right c).setArea slot b).setArea i a).areas slot = b := by
      rw [set_area_other _ _ _ _ other, set_area_same]
    have atRight : (((vm.setArea right c).setArea slot b).setArea i a).areas right = c := by
      rw [set_area_other _ _ _ _ otherRight, set_area_other _ _ _ _ different, set_area_same]
    refine ⟨fun j => j = i ∨ j = slot ∨ j = right, .inl rfl, ?_, ?_, ?_, ?_, ?_⟩
    · intro j elsewhere
      simp only [not_or] at elsewhere
      rw [set_area_other _ _ _ _ elsewhere.1, set_area_other _ _ _ _ elsewhere.2.1,
        set_area_other _ _ _ _ elsewhere.2.2]
    · rintro j (rfl | rfl | rfl) elsewhere
      · exact absurd rfl elsewhere
      · exact free
      · exact freeRight
    · rintro j (rfl | rfl | rfl) _
      · simp
      · simp [atSlot]
      · simp [atRight]
    · simp [atSlot, atRight]
    · intro apart
      obtain ⟨⟨firstSecond, firstThird⟩, secondThird⟩ :
          (a.Apart b ∧ a.Apart c) ∧ b.Apart c := by simpa using apart
      rintro j k (rfl | rfl | rfl) (rfl | rfl | rfl) distinct _ _ <;>
        first
        | exact absurd rfl distinct
        | simp only [set_area_same, atSlot, atRight]
          first
          | assumption
          | exact Or.symm (by assumption)

theorem cut_brk (cut : Cut vm i vm' pieces) :
    vm'.brkStart = vm.brkStart ∧ vm'.brkEnd = vm.brkEnd := by
  cases cut <;> exact ⟨rfl, rfl⟩

/-- Cutting an area into parts of itself is carving. -/
theorem cut_carved (tidy : Tidy vm) (cut : Cut vm i vm' pieces)
    (parts : ∀ a ∈ pieces, a.PartOf (vm.areas i)) (apart : pieces.Pairwise Area.Apart) :
    Carved vm vm' := by
  obtain ⟨piece, self, others, -, placed, -, separate⟩ := cut_pieces cut
  obtain ⟨brkStart, brkEnd⟩ := cut_brk cut
  exact carved_pieces tidy brkStart brkEnd self others
    (fun j isPiece used => parts _ (placed j isPiece used)) (separate apart)

/-! ## What the areas say of a page -/

/-- Where the bytes of a page come from. -/
structure Backing where
  flags : Word
  file : Option Nat
  offset : Int
deriving DecidableEq, Repr

/-- The backing an area gives to a page in it. -/
def Area.Backs (a : Area) (page : Int) (b : Backing) : Prop :=
  a.contains page = true ∧ b = ⟨a.flags, a.file, int32 (a.offset + page - a.start)⟩

/-- Some area gives the page this backing. -/
def Vm.Backs (vm : Vm) (page : Int) (b : Backing) : Prop := ∃ i, (vm.areas i).Backs page b

/-- Two areas that give a page in both of them the same backing. -/
structure Area.SameBacking (a whole : Area) : Prop where
  flags : a.flags = whole.flags
  file : a.file = whole.file
  offset : int32 (a.offset - a.start) = int32 (whole.offset - whole.start)

theorem same_backing_backs (same : a.SameBacking whole) (page : Int) (b : Backing) :
    a.Backs page b ↔ a.contains page = true ∧
      b = ⟨whole.flags, whole.file, int32 (whole.offset + page - whole.start)⟩ := by
  have offset : int32 (a.offset + page - a.start) = int32 (whole.offset + page - whole.start) := by
    have start := same.offset
    unfold int32 at *
    omega
  unfold Area.Backs
  rw [same.flags, same.file, offset]

/-- One area has been cut into pieces that together keep its pages where `keep`
holds, with their backing. -/
structure Kept (vm vm' : Vm) (i : Fin maxVmas) (keep : Int → Prop) (pieces : List Area) : Prop where
  cut : Cut vm i vm' pieces
  backing : ∀ a ∈ pieces, a.SameBacking (vm.areas i)
  cover : ∀ page, (∃ a ∈ pieces, a.contains page = true) ↔
    (vm.areas i).contains page = true ∧ keep page

theorem kept_backs (kept : Kept vm vm' i keep pieces) (page : Int) (b : Backing) :
    vm'.Backs page b ↔
      (∃ j, j ≠ i ∧ (vm.areas j).Backs page b) ∨ ((vm.areas i).Backs page b ∧ keep page) := by
  obtain ⟨piece, self, others, free, placed, slots, -⟩ := cut_pieces kept.cut
  constructor
  · rintro ⟨j, backs⟩
    by_cases isPiece : piece j
    · have used : (vm'.areas j).used = true := ((contains_iff _ _).mp backs.1).1
      have member := placed j isPiece used
      obtain ⟨inside, same⟩ := (same_backing_backs (kept.backing _ member) page b).mp backs
      obtain ⟨contained, keeps⟩ := (kept.cover page).mp ⟨_, member, inside⟩
      exact .inr ⟨⟨contained, same⟩, keeps⟩
    · rw [others j isPiece] at backs
      exact .inl ⟨j, fun here => isPiece (here ▸ self), backs⟩
  · rintro (⟨j, other, backs⟩ | ⟨backs, keeps⟩)
    · have used : (vm.areas j).used = true := ((contains_iff _ _).mp backs.1).1
      have unpieced : ¬ piece j := fun isPiece => by simp [free j isPiece other] at used
      exact ⟨j, (others j unpieced).symm ▸ backs⟩
    · obtain ⟨a, member, inside⟩ := (kept.cover page).mpr ⟨backs.1, keeps⟩
      obtain ⟨j, -, placedHere⟩ := slots a member
      refine ⟨j, ?_⟩
      rw [placedHere]
      exact (same_backing_backs (kept.backing a member) page b).mpr ⟨inside, backs.2⟩

theorem set_area_twice (vm : Vm) (i : Fin maxVmas) (a b : Area) :
    (vm.setArea i a).setArea i b = vm.setArea i b := by
  simp [Vm.setArea]

theorem set_area_comm (vm : Vm) (a b : Area) (different : i ≠ j) :
    (vm.setArea i a).setArea j b = (vm.setArea j b).setArea i a := by
  simp only [Vm.setArea]
  rw [Function.update_comm different]

theorem area_assign_slot (assigned : vmAreaAssign vm a = some vm') :
    ∃ slot, (vm.areas slot).used = false ∧ vm' = vm.setArea slot a := by
  obtain ⟨slot, found, rfl⟩ := Option.map_eq_some_iff.mp assigned
  exact ⟨slot, area_slot_unused vm slot found, rfl⟩

/-- Assigning while the area at one slot is being cut: the slot found is another. -/
theorem area_assign_beside (vm vm' : Vm) (i : Fin maxVmas) (a b : Area)
    (assigned : vmAreaAssign (vm.setArea i a) b = some vm') (used : a.used = true) :
    ∃ slot, slot ≠ i ∧ (vm.areas slot).used = false ∧ vm' = (vm.setArea i a).setArea slot b := by
  obtain ⟨slot, unused, rfl⟩ := area_assign_slot assigned
  have other : slot ≠ i := by
    rintro rfl
    simp [used] at unused
  rw [set_area_other _ _ _ _ other] at unused
  exact ⟨slot, other, unused, rfl⟩

/-- The pieces are aligned parts of the area and apart from each other. -/
structure Pieces (whole : Area) (pieces : List Area) : Prop where
  parts : ∀ a ∈ pieces, a.PartOf whole
  apart : pieces.Pairwise Area.Apart

theorem trimmed_kept (backing : a.SameBacking (vm.areas i))
    (cover : ∀ page, a.contains page = true ↔ (vm.areas i).contains page = true ∧ keep page) :
    Kept vm (vm.setArea i a) i keep [a] :=
  ⟨.trimmed a, by simpa using backing, by simpa using cover⟩

theorem trimmed_pieces (part : a.PartOf whole) : Pieces whole [a] :=
  ⟨by simpa using part, by simp⟩

section

variable {b : Area}

theorem halved_kept {slot : Fin maxVmas} (free : (vm.areas slot).used = false) (other : slot ≠ i)
    (first : a.SameBacking (vm.areas i)) (second : b.SameBacking (vm.areas i))
    (cover : ∀ page, a.contains page = true ∨ b.contains page = true ↔
      (vm.areas i).contains page = true ∧ keep page) :
    Kept vm ((vm.setArea slot b).setArea i a) i keep [a, b] :=
  ⟨.halved slot a b free other, by simpa using ⟨first, second⟩, by simpa using cover⟩

theorem halved_pieces (first : a.PartOf whole) (second : b.PartOf whole) (apart : a.Apart b) :
    Pieces whole [a, b] :=
  ⟨by simpa using ⟨first, second⟩, by simpa using apart⟩

end

/-- What one turn of the loop of `vm_munmap` does: nothing, when the range misses the
area, or a cut that removes the pages of the range. -/
theorem munmap_area_kept (ordered : start < stop) (stepped : munmapArea start stop vm i = some vm')
    :
    (vm' = vm ∧ ∀ page, (vm.areas i).contains page = true → ¬ (start ≤ page ∧ page < stop)) ∨
    ∃ pieces, Kept vm vm' i (fun page => ¬ (start ≤ page ∧ page < stop)) pieces ∧
      (start % 4096 = 0 → stop % 4096 = 0 → Pieces (vm.areas i) pieces) := by
  unfold munmapArea at stepped
  simp only at stepped
  split at stepped
  case isTrue strict =>
    simp only [Area.splitBy, Bool.and_eq_true, decide_eq_true_eq] at strict
    obtain ⟨⟨used, above⟩, below⟩ := strict
    obtain ⟨vm'', assigned, rfl⟩ := Option.map_eq_some_iff.mp stepped
    obtain ⟨slot, free, rfl⟩ := area_assign_slot assigned
    have other : slot ≠ i := by
      rintro rfl
      simp [free] at used
    refine .inr ⟨_, halved_kept free other ⟨rfl, rfl, rfl⟩ ⟨rfl, rfl, ?_⟩ fun page => ?_,
      fun startAligned stopAligned => halved_pieces ?_ ?_ (.inl ordered.le)⟩
    · simp only [int32]
      omega
    · simp only [contains_iff, used, true_and]
      omega
    · exact ⟨used, fun h _ => h, fun _ _ => startAligned, le_refl _, above, by simp; omega⟩
    · exact ⟨used, fun _ _ => stopAligned, fun _ h => h, by simp; omega, below, le_refl _⟩
  rename_i noSplit
  simp only [Area.splitBy, Bool.and_eq_true, decide_eq_true_eq] at noSplit
  split at stepped
  case isTrue covered =>
    obtain ⟨used, above, below⟩ := covered
    cases stepped
    refine .inr ⟨_, ⟨.dropped, by simp, ?_⟩, fun _ _ => ⟨by simp, .nil⟩⟩
    intro page
    constructor
    · rintro ⟨a, member, -⟩
      simp at member
    · rintro ⟨inside, outside⟩
      rw [contains_iff] at inside
      omega
  rename_i notCovered
  split at stepped
  case isTrue front =>
    obtain ⟨used, above, below⟩ := front
    simp only [used, true_and] at noSplit notCovered
    cases stepped
    refine .inr ⟨_, trimmed_kept ⟨rfl, rfl, ?_⟩ fun page => ?_,
      fun startAligned stopAligned => trimmed_pieces
        ⟨used, fun _ _ => stopAligned, fun _ h => h, below.le, ?_, le_refl _⟩⟩
    · simp only [int32]
      omega
    · simp only [contains_iff, used, true_and]
      omega
    · simp only
      omega
  rename_i notFront
  split at stepped
  case isTrue back =>
    obtain ⟨used, above, below⟩ := back
    simp only [used, true_and] at noSplit notCovered notFront
    cases stepped
    refine .inr ⟨_, trimmed_kept ⟨rfl, rfl, rfl⟩ fun page => ?_,
      fun startAligned stopAligned => trimmed_pieces
        ⟨used, fun h _ => h, fun _ _ => startAligned, le_refl _, ?_, above.le⟩⟩
    · simp only [contains_iff, used, true_and]
      omega
    · simp only
      omega
  rename_i notBack
  cases stepped
  refine .inl ⟨rfl, ?_⟩
  intro page inside
  obtain ⟨used, low, high⟩ := (contains_iff _ _).mp inside
  simp only [used, true_and] at noSplit notCovered notFront notBack
  omega

/-- What one turn of the loop of `vm_mprotect_areas` does: nothing, when the range
misses the area, or a cut that keeps every page. -/
theorem mprotect_area_kept {prot : Word} (ordered : start < stop) (used : (vm.areas i).used = true)
    (stepped : mprotectArea start stop prot vm i = some vm') :
    vm' = vm ∨ ∃ pieces, Kept vm vm' i (fun _ => True) pieces ∧
      (start % 4096 = 0 → stop % 4096 = 0 → (vm.areas i).start < (vm.areas i).stop →
        Pieces (vm.areas i) pieces) := by
  unfold mprotectArea at stepped
  simp only at stepped
  split at stepped
  case isTrue =>
    cases stepped
    exact .inl rfl
  rename_i overlaps
  simp only [Area.overlaps, Bool.and_eq_false_iff, decide_eq_false_iff_not, not_or, not_not]
    at overlaps
  obtain ⟨before, after⟩ := overlaps
  split at stepped
  case isTrue whole =>
    cases stepped
    refine .inr ⟨_, trimmed_kept ⟨rfl, rfl, rfl⟩ fun page => ?_, fun _ _ nonempty =>
      trimmed_pieces ⟨used, fun h _ => h, fun _ h => h, le_refl _, nonempty, le_refl _⟩⟩
    simp [contains_iff]
  rename_i notWhole
  split at stepped
  case isTrue front =>
    obtain ⟨vm'', assigned, rfl⟩ := Option.map_eq_some_iff.mp stepped
    obtain ⟨slot, other, free, rfl⟩ := area_assign_beside vm vm'' i _ _ assigned used
    rw [set_area_comm vm _ _ other.symm, set_area_twice]
    refine .inr ⟨_, halved_kept free other ⟨rfl, rfl, ?_⟩ ⟨rfl, rfl, rfl⟩ fun page => ?_,
      fun startAligned stopAligned nonempty => halved_pieces ?_ ?_ (.inr (le_refl _))⟩
    · simp only [int32]
      omega
    · simp only [contains_iff, used, true_and, and_true]
      omega
    · refine ⟨used, ?_, fun _ h => h, ?_, ?_, le_refl _⟩ <;> simp only <;> omega
    · refine ⟨used, fun h _ => h, ?_, le_refl _, ?_, ?_⟩ <;> simp only <;> omega
  rename_i notFront
  split at stepped
  case isTrue back =>
    obtain ⟨slot, other, free, rfl⟩ := area_assign_beside vm vm' i _ _ stepped used
    rw [set_area_comm vm _ _ other.symm]
    refine .inr ⟨_, halved_kept free other ⟨rfl, rfl, rfl⟩ ⟨rfl, rfl, ?_⟩ fun page => ?_,
      fun startAligned stopAligned nonempty => halved_pieces ?_ ?_ (.inl (le_refl _))⟩
    · simp only [int32]
      omega
    · simp only [contains_iff, used, true_and, and_true]
      omega
    · refine ⟨used, fun h _ => h, ?_, le_refl _, ?_, ?_⟩ <;> simp only <;> omega
    · refine ⟨used, ?_, fun _ h => h, ?_, ?_, le_refl _⟩ <;> simp only <;> omega
  rename_i notBack
  obtain ⟨vm'', assigned, last⟩ := Option.bind_eq_some_iff.mp stepped
  obtain ⟨slot, other, free, rfl⟩ := area_assign_beside vm vm'' i _ _ assigned used
  obtain ⟨right, unused, rfl⟩ := area_assign_slot last
  have different : right ≠ slot := by
    rintro rfl
    simp [used] at unused
  rw [set_area_other _ _ _ _ different] at unused
  have otherRight : right ≠ i := by
    rintro rfl
    simp [used] at unused
  rw [set_area_other _ _ _ _ otherRight] at unused
  rw [set_area_comm _ _ _ different.symm, set_area_comm vm _ _
    otherRight.symm, set_area_comm _ _ _ other.symm]
  refine .inr ⟨_, ⟨.thirds slot right _ _ _ free unused other otherRight different, ?_, ?_⟩,
    ?_⟩
  · simp only [List.mem_cons, List.not_mem_nil, or_false]
    rintro a (rfl | rfl | rfl)
    · exact ⟨rfl, rfl, rfl⟩
    · refine ⟨rfl, rfl, ?_⟩
      simp only [int32]
      omega
    · refine ⟨rfl, rfl, ?_⟩
      simp only [int32]
      omega
  · intro page
    simp only [List.mem_cons, List.not_mem_nil, or_false, exists_eq_or_imp, exists_eq_left,
      contains_iff, used, true_and, and_true]
    omega
  · intro startAligned stopAligned nonempty
    constructor
    · simp only [List.mem_cons, List.not_mem_nil, or_false]
      rintro a (rfl | rfl | rfl)
      · refine ⟨used, fun h _ => h, ?_, le_refl _, ?_, ?_⟩ <;> simp only <;> omega
      · refine ⟨used, ?_, ?_, ?_, ?_, ?_⟩ <;> simp only <;> omega
      · refine ⟨used, ?_, fun _ h => h, ?_, ?_, le_refl _⟩ <;> simp only <;> omega
    · simp only [List.pairwise_cons, List.mem_cons, List.not_mem_nil, or_false,
        forall_eq_or_imp, forall_eq]
      refine ⟨⟨.inl (le_refl _), .inl ?_⟩, .inl (le_refl _), by simp⟩
      simp only
      omega

end JsEmulator.Memory
