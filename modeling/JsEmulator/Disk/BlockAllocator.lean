import JsEmulator.Memory.Areas

/-!
# The block allocator

`balloc` searches the bitmap of used blocks from the block after the last one it gave out
and wraps at the end of the disk. Bitmap and blocks are reached through the buffer cache:
sixteen slots that are filled in turn and written through. As long as a filled slot agrees
with the disk and no block is in two slots, the search reads the bitmap of the disk.
-/

namespace JsEmulator.Disk

open JsEmulator.Memory (Byte Word)

/-! ## The buffer cache -/

/-- The number of slots of the buffer cache. -/
abbrev nbuf : Nat := 16

abbrev Block := Fin 512 → Byte

/-- The disk, the buffer cache in front of it and the hint of `balloc`. An empty slot has
no block. -/
structure Buffers where
  disk : Nat → Block
  bufBlock : Fin nbuf → Option Nat
  bufData : Fin nbuf → Block
  bufNext : Fin nbuf
  breadLastBlockno : Option Nat
  breadLastSlot : Fin nbuf
  ballocHint : Nat

/-- `bread`: the slot that holds the block. -/
def bread (s : Buffers) (blockno : Nat) : Fin nbuf × Buffers :=
  if s.breadLastBlockno = some blockno ∧ s.bufBlock s.breadLastSlot = some blockno then
    (s.breadLastSlot, s)
  else
    match (List.finRange nbuf).find? fun slot => s.bufBlock slot = some blockno with
    | some slot => (slot, { s with breadLastBlockno := some blockno, breadLastSlot := slot })
    | none =>
      (s.bufNext, { s with
        bufNext := s.bufNext + 1
        bufData := Function.update s.bufData s.bufNext (s.disk blockno)
        bufBlock := Function.update s.bufBlock s.bufNext (some blockno)
        breadLastBlockno := some blockno, breadLastSlot := s.bufNext })

/-- Stores into the data of a slot. -/
def Buffers.store (s : Buffers) (slot : Fin nbuf) (data : Block) : Buffers :=
  { s with bufData := Function.update s.bufData slot data }

/-- `bwrite`. -/
def bwrite (s : Buffers) (blockno : Nat) (slot : Fin nbuf) : Buffers :=
  { s with disk := Function.update s.disk blockno (s.bufData slot) }

/-- Filled slots agree with the disk, and no block is in two of them. -/
structure Coherent (s : Buffers) : Prop where
  agrees : ∀ slot blockno, s.bufBlock slot = some blockno → s.bufData slot = s.disk blockno
  single : ∀ slot other blockno, s.bufBlock slot = some blockno →
    s.bufBlock other = some blockno → slot = other

/-- What `bread` leaves: the block is in the slot, and disk and hint are as before. -/
structure Fetched (s : Buffers) (blockno : Nat) (slot : Fin nbuf) (t : Buffers) : Prop where
  coherent : Coherent t
  holds : t.bufBlock slot = some blockno
  disk : t.disk = s.disk
  hint : t.ballocHint = s.ballocHint

variable {s t : Buffers} {blockno : Nat} {slot : Fin nbuf}

theorem bread_fetched (coherent : Coherent s) (blockno : Nat) :
    Fetched s blockno (bread s blockno).1 (bread s blockno).2 := by
  unfold bread
  split
  case isTrue last => exact ⟨coherent, last.2, rfl, rfl⟩
  split
  case h_1 slot found =>
    have holds := List.find?_some found
    exact ⟨⟨coherent.agrees, coherent.single⟩, of_decide_eq_true holds, rfl, rfl⟩
  case h_2 absent =>
    have other (slot : Fin nbuf) : s.bufBlock slot ≠ some blockno := by
      simpa using List.find?_eq_none.mp absent slot (List.mem_finRange slot)
    refine ⟨⟨?_, ?_⟩, by simp, rfl, rfl⟩
    · intro slot b holds
      by_cases here : slot = s.bufNext
      · subst here
        simp only [Function.update_self, Option.some.injEq] at holds ⊢
        rw [holds]
      · simp only [Function.update_of_ne here] at holds ⊢
        exact coherent.agrees slot b holds
    · intro slot slot' b first second
      by_cases here : slot = s.bufNext <;> by_cases there : slot' = s.bufNext
      · rw [here, there]
      · subst here
        simp only [Function.update_self, Function.update_of_ne there, Option.some.injEq]
          at first second
        exact absurd (first ▸ second) (other slot')
      · subst there
        simp only [Function.update_self, Function.update_of_ne here, Option.some.injEq]
          at first second
        exact absurd (second ▸ first) (other slot)
      · simp only [Function.update_of_ne here, Function.update_of_ne there] at first second
        exact coherent.single slot slot' b first second

/-- A slot that is written through changes its block and nothing else. -/
theorem stored_coherent (coherent : Coherent s) (holds : s.bufBlock slot = some blockno)
    (data : Block) : Coherent (bwrite (s.store slot data) blockno slot) := by
  refine ⟨?_, coherent.single⟩
  intro other b filled
  by_cases here : other = slot
  · subst here
    obtain rfl := Option.some.inj (holds.symm.trans filled)
    simp [bwrite, Buffers.store]
  · have different : b ≠ blockno := by
      rintro rfl
      exact here (coherent.single other slot b filled holds)
    simp [bwrite, Buffers.store, here, different, coherent.agrees other b filled]

@[simp]
theorem stored_disk (s : Buffers) (data : Block) :
    (bwrite (s.store slot data) blockno slot).disk = Function.update s.disk blockno data := by
  simp [bwrite, Buffers.store]

/-! ## The bitmap -/

/-- The mounted file system, from its superblock. -/
structure BlockFs where
  fsSize : Nat
  fsBmapstart : Nat
  fsMountFlags : Word

/-- The block of the bitmap with the bit of a block. -/
def BlockFs.bitmapBlock (fs : BlockFs) (blockno : Nat) : Nat := fs.fsBmapstart + blockno / 4096

/-- The byte of that block with the bit. -/
def bitmapByte (blockno : Nat) : Fin 512 := ⟨blockno % 4096 / 8, by omega⟩

def bitmapMask (blockno : Nat) : Byte := 1#8 <<< (blockno % 8)

/-- `bitmap_test`. -/
def bitmapTest (fs : BlockFs) (s : Buffers) (blockno : Nat) : Bool × Buffers :=
  let (data, s) := bread s (fs.bitmapBlock blockno)
  (s.bufData data (bitmapByte blockno) &&& bitmapMask blockno != 0, s)

/-- `bitmap_set`. -/
def bitmapSet (fs : BlockFs) (s : Buffers) (blockno : Nat) (used : Bool) : Buffers :=
  let (data, s) := bread s (fs.bitmapBlock blockno)
  let value := s.bufData data (bitmapByte blockno)
  let value := if used then value ||| bitmapMask blockno else value &&& ~~~bitmapMask blockno
  bwrite (s.store data (Function.update (s.bufData data) (bitmapByte blockno) value))
    (fs.bitmapBlock blockno) data

/-- What `balloc` does with the free block that it finds. -/
def takeBlock (fs : BlockFs) (s : Buffers) (blockno : Nat) : Buffers :=
  let s := { bitmapSet fs s blockno true with ballocHint := blockno + 1 }
  let (data, s) := bread s blockno
  bwrite (s.store data fun _ => 0) blockno data

/-- The turns of `balloc` that are left. -/
def ballocScan (fs : BlockFs) : (left blockno : Nat) → Buffers → Nat × Buffers
  | 0, _, s => (0, s)
  | left + 1, blockno, s =>
    let blockno := if blockno ≥ fs.fsSize then 0 else blockno
    let (used, s) := bitmapTest fs s blockno
    if used = false then (blockno, takeBlock fs s blockno) else ballocScan fs left (blockno + 1) s

/-- `balloc`. -/
def balloc (fs : BlockFs) (s : Buffers) : Nat × Buffers :=
  if fs.fsMountFlags &&& 1 ≠ 0 then (0, s) else ballocScan fs fs.fsSize s.ballocHint s

/-- `bfree`. -/
def bfree (fs : BlockFs) (s : Buffers) (blockno : Nat) : Buffers :=
  if blockno ≠ 0 then bitmapSet fs s blockno false else s

/-- The bit of a block in the bitmap on the disk. -/
def BlockFs.used (fs : BlockFs) (disk : Nat → Block) (blockno : Nat) : Bool :=
  (disk (fs.bitmapBlock blockno) (bitmapByte blockno)).getLsbD (blockno % 8)

variable {fs : BlockFs}

theorem bitmap_test_reads (fs : BlockFs) (coherent : Coherent s) (blockno : Nat) :
    (bitmapTest fs s blockno).1 = fs.used s.disk blockno ∧
      Fetched s (fs.bitmapBlock blockno) (bread s (fs.bitmapBlock blockno)).1
        (bitmapTest fs s blockno).2 := by
  have fetched := bread_fetched coherent (fs.bitmapBlock blockno)
  refine ⟨?_, fetched⟩
  simp only [bitmapTest, fetched.coherent.agrees _ _ fetched.holds, fetched.disk, bitmapMask,
    BlockFs.used]
  rw [← BitVec.twoPow_eq, BitVec.and_twoPow]
  split
  case isTrue set =>
    have nonzero : BitVec.twoPow 8 (blockno % 8) ≠ 0 := by
      intro zero
      have bit := congrArg (·.getLsbD (blockno % 8)) zero
      simp [Nat.mod_lt blockno (by decide : 0 < 8)] at bit
    simpa [set] using nonzero
  case isFalse clear => simpa using clear

/-- `bitmap_set` writes the block of the bitmap alone. -/
theorem bitmap_set_writes (fs : BlockFs) (coherent : Coherent s) (blockno : Nat) (used : Bool) :
    Coherent (bitmapSet fs s blockno used) ∧
      (bitmapSet fs s blockno used).ballocHint = s.ballocHint ∧
      ∀ other ≠ fs.bitmapBlock blockno, (bitmapSet fs s blockno used).disk other = s.disk other := by
  have fetched := bread_fetched coherent (fs.bitmapBlock blockno)
  refine ⟨stored_coherent fetched.coherent fetched.holds _, fetched.hint, ?_⟩
  intro other different
  simp [bitmapSet, fetched.disk, different]

theorem bitmap_block_same (fs : BlockFs) {other : Nat} (same : other / 4096 = blockno / 4096) :
    fs.bitmapBlock other = fs.bitmapBlock blockno := by
  rw [BlockFs.bitmapBlock, same, BlockFs.bitmapBlock]

/-- Setting a bit leaves every other bit of its block as it was. -/
theorem bitmap_set_exact (fs : BlockFs) (coherent : Coherent s) (blockno other : Nat)
    (same : other / 4096 = blockno / 4096) :
    fs.used (bitmapSet fs s blockno true).disk other =
      (fs.used s.disk other || decide (other = blockno)) := by
  have fetched := bread_fetched coherent (fs.bitmapBlock blockno)
  simp only [BlockFs.used, bitmap_block_same fs same, bitmapSet, stored_disk, Function.update_self,
    if_true, fetched.coherent.agrees _ _ fetched.holds, fetched.disk]
  by_cases byte : bitmapByte other = bitmapByte blockno
  · have bit : other % 8 = blockno % 8 ↔ other = blockno := by
      simp only [bitmapByte, Fin.mk.injEq] at byte
      omega
    rw [byte, Function.update_self, bitmapMask, ← BitVec.twoPow_eq]
    simp [Nat.mod_lt other (by decide : 0 < 8), ← bit, eq_comm]
  · have distinct : other ≠ blockno := fun here => byte (here ▸ rfl)
    simp [Function.update_of_ne byte, distinct]

/-! ## The search -/

/-- The block was free: its bit is set, the block is zeros, and no other block changes. -/
structure Allocated (fs : BlockFs) (disk : Nat → Block) (blockno : Nat) (t : Buffers) : Prop where
  inside : blockno < fs.fsSize
  free : fs.used disk blockno = false
  marked : fs.bitmapBlock blockno ≠ blockno → ∀ other, other / 4096 = blockno / 4096 →
    fs.used t.disk other = (fs.used disk other || decide (other = blockno))
  zeroed : t.disk blockno = fun _ => 0
  untouched : ∀ other, other ≠ blockno → other ≠ fs.bitmapBlock blockno →
    t.disk other = disk other
  hint : t.ballocHint = blockno + 1

theorem take_block_allocated (coherent : Coherent s) (inside : blockno < fs.fsSize)
    (free : fs.used s.disk blockno = false) :
    Coherent (takeBlock fs s blockno) ∧ Allocated fs s.disk blockno (takeBlock fs s blockno) := by
  obtain ⟨marks, -, others⟩ := bitmap_set_writes fs coherent blockno true
  have fetched := bread_fetched (s := { bitmapSet fs s blockno true with ballocHint := blockno + 1 })
    ⟨marks.agrees, marks.single⟩ blockno
  refine ⟨stored_coherent fetched.coherent fetched.holds _, inside, free, ?_, ?_, ?_, fetched.hint⟩
  · intro apart other same
    rw [← bitmap_set_exact fs coherent blockno other same]
    simp [BlockFs.used, takeBlock, bitmap_block_same fs same, fetched.disk, apart]
  · simp [takeBlock]
  · intro other notHere notMap
    simp [takeBlock, fetched.disk, notHere, others other notMap]

/-- What the turns of `balloc` come to: a free block is allocated, or all blocks looked at
are in use. -/
def Searched (fs : BlockFs) (left blockno : Nat) (s : Buffers) (result : Nat × Buffers) : Prop :=
  Allocated fs s.disk result.1 result.2 ∨
    result.1 = 0 ∧ result.2.disk = s.disk ∧ result.2.ballocHint = s.ballocHint ∧
      ∀ turn < left, fs.used s.disk ((blockno + turn) % fs.fsSize) = true

theorem balloc_scan_searched (left blockno : Nat) (enough : left ≤ fs.fsSize)
    (bounded : blockno ≤ fs.fsSize) (s : Buffers) (coherent : Coherent s) :
    Coherent (ballocScan fs left blockno s).2 ∧
      Searched fs left blockno s (ballocScan fs left blockno s) := by
  induction left generalizing blockno s with
  | zero => exact ⟨coherent, .inr ⟨rfl, rfl, rfl, by simp⟩⟩
  | succ left ih =>
    obtain ⟨reads, fetched⟩ := bitmap_test_reads fs coherent (blockno % fs.fsSize)
    have wrapped : (if blockno ≥ fs.fsSize then 0 else blockno) = blockno % fs.fsSize := by
      split
      case isTrue high => rw [show blockno = fs.fsSize by omega, Nat.mod_self]
      case isFalse low => rw [Nat.mod_eq_of_lt (by omega)]
    have inside : blockno % fs.fsSize < fs.fsSize := Nat.mod_lt _ (by omega)
    rw [ballocScan]
    simp only [wrapped, reads]
    split
    case isTrue free =>
      obtain ⟨later, allocated⟩ := take_block_allocated fetched.coherent inside
        (by rw [fetched.disk, free])
      exact ⟨later, .inl (fetched.disk ▸ allocated)⟩
    case isFalse taken =>
      obtain ⟨later, searched⟩ := ih (blockno % fs.fsSize + 1) (by omega) (by omega) _
        fetched.coherent
      rw [Searched, fetched.disk, fetched.hint] at searched
      refine ⟨later, searched.imp_right ?_⟩
      rintro ⟨zero, disk, hint, used⟩
      refine ⟨zero, disk, hint, ?_⟩
      intro turn early
      cases turn with
      | zero => simpa using taken
      | succ turn =>
        have next := used turn (by omega)
        rwa [Nat.add_assoc, Nat.mod_add_mod, Nat.add_comm 1] at next

theorem balloc_searched (coherent : Coherent s) (bounded : s.ballocHint ≤ fs.fsSize) :
    Coherent (balloc fs s).2 ∧ (balloc fs s).2.ballocHint ≤ fs.fsSize := by
  unfold balloc
  split
  case isTrue => exact ⟨coherent, bounded⟩
  case isFalse =>
    obtain ⟨later, searched⟩ := balloc_scan_searched fs.fsSize s.ballocHint le_rfl bounded s coherent
    refine ⟨later, ?_⟩
    rcases searched with allocated | ⟨-, -, hint, -⟩
    · rw [allocated.hint]
      exact allocated.inside
    · rwa [hint]

/-- The states after allocations and frees since the mount. In between, other parts of the
file system read and write blocks through the cache. -/
inductive History (fs : BlockFs) : Buffers → Prop
  | mounted (s : Buffers) (empty : ∀ slot, s.bufBlock slot = none) (hint : s.ballocHint = 0) :
    History fs s
  | allocated (s : Buffers) (before : History fs s) : History fs (balloc fs s).2
  | freed (s : Buffers) (blockno : Nat) (before : History fs s) : History fs (bfree fs s blockno)
  | others (s t : Buffers) (before : History fs s) (coherent : Coherent t)
    (hint : t.ballocHint = s.ballocHint) : History fs t

theorem history_bounded (history : History fs s) :
    Coherent s ∧ s.ballocHint ≤ fs.fsSize := by
  induction history with
  | mounted s empty hint =>
    exact ⟨⟨by simp [empty], by simp [empty]⟩, by omega⟩
  | allocated s before ih => exact balloc_searched ih.1 ih.2
  | freed s blockno before ih =>
    unfold bfree
    split
    case isTrue =>
      obtain ⟨coherent, hint, -⟩ := bitmap_set_writes fs ih.1 blockno false
      exact ⟨coherent, hint ▸ ih.2⟩
    case isFalse => exact ih
  | others s t before coherent hint ih => exact ⟨coherent, hint ▸ ih.2⟩

/-- With the bits of all blocks before the first data block set, `balloc` fails only if every
data block is in use. Otherwise it gives out a data block that was free, sets its bit alone
and fills it with zeros. -/
theorem balloc_gives_free_block (fs : BlockFs) (s : Buffers) (dataStart : Nat)
    (history : History fs s) (writable : fs.fsMountFlags &&& 1 = 0) (boot : 0 < dataStart)
    (bitmap : ∀ blockno < fs.fsSize, fs.bitmapBlock blockno < dataStart)
    (metadata : ∀ blockno < dataStart, fs.used s.disk blockno = true) :
    (balloc fs s).2.ballocHint ≤ fs.fsSize ∧
      ((balloc fs s).1 = 0 ↔
        ∀ blockno, dataStart ≤ blockno → blockno < fs.fsSize → fs.used s.disk blockno = true) ∧
      ((balloc fs s).1 = 0 → (balloc fs s).2.disk = s.disk) ∧
      ((balloc fs s).1 ≠ 0 → ∃ blockno t, balloc fs s = (blockno, t) ∧
        dataStart ≤ blockno ∧ blockno < fs.fsSize ∧ fs.used s.disk blockno = false ∧
        (∀ other, other / 4096 = blockno / 4096 →
          fs.used t.disk other = (fs.used s.disk other || decide (other = blockno))) ∧
        t.disk blockno = (fun _ => 0) ∧
        ∀ other, other ≠ blockno → other ≠ fs.bitmapBlock blockno → t.disk other = s.disk other) := by
  obtain ⟨coherent, bounded⟩ := history_bounded history
  refine ⟨(balloc_searched coherent bounded).2, ?_⟩
  have searched := (balloc_scan_searched fs.fsSize s.ballocHint le_rfl bounded s coherent).2
  rw [balloc, if_neg (by simpa using writable)]
  rcases searched with allocated | ⟨zero, disk, -, used⟩
  · have data : dataStart ≤ (ballocScan fs fs.fsSize s.ballocHint s).1 := by
      by_contra low
      simpa [allocated.free] using metadata _ (Nat.lt_of_not_le low)
    refine ⟨⟨fun zero => by omega, fun full => ?_⟩, fun zero => by omega, fun _ => ⟨_, _, rfl, data,
      allocated.inside, allocated.free, allocated.marked ?_, allocated.zeroed, allocated.untouched⟩⟩
    · simpa [allocated.free] using full _ data allocated.inside
    · have := bitmap _ allocated.inside
      omega
  · refine ⟨⟨fun _ blockno low high => ?_, fun _ => zero⟩, fun _ => disk, fun some => absurd zero some⟩
    -- The search reaches the block before its turns are over.
    by_cases ahead : s.ballocHint ≤ blockno
    · simpa [Nat.add_sub_cancel' ahead, Nat.mod_eq_of_lt high] using
        used (blockno - s.ballocHint) (by omega)
    · have reached := used (blockno + fs.fsSize - s.ballocHint) (by omega)
      rwa [show s.ballocHint + (blockno + fs.fsSize - s.ballocHint) = blockno + fs.fsSize by omega,
        Nat.add_mod_right, Nat.mod_eq_of_lt high] at reached

/-- Three blocks, of which the last is a free data block. -/
def smallFs : BlockFs := ⟨3, 1, 0⟩

/-- After the mount. -/
def mountedBuffers : Buffers := ⟨fun _ _ => 3, fun _ => none, fun _ _ => 0, 0, none, 0, 0⟩

theorem balloc_gives_last_block : ∃ t, balloc smallFs mountedBuffers = (2, t) := by
  have given := balloc_gives_free_block smallFs mountedBuffers 2
    (.mounted _ (fun _ => rfl) rfl) rfl (by decide) (by decide) (by decide)
  have nonzero := mt given.2.1.mp (fun full => absurd (full 2 (by decide) (by decide)) (by decide))
  obtain ⟨blockno, t, same, low, high, -⟩ := given.2.2.2 nonzero
  obtain rfl : blockno = 2 := by
    have : blockno < 3 := high
    omega
  exact ⟨t, same⟩

end JsEmulator.Disk
