import JsEmulator.Disk.Volume
import Mathlib.Logic.Function.Basic

/-!
# Offsets in files

`readi`, `writei` and `file_lseek` over one inode: its size and its blocks of 512 bytes, of
which some may be missing. Offsets and lengths are C `int`s, and their sums wrap. A block
that a write has to add is empty, and whether the disk has one is an answer given with the
call. The times that a read or write leaves in the inode are left out.
-/

namespace JsEmulator.Disk

open JsEmulator.Memory (Byte einval)

variable {f : Dinode}

/-- `CFG_MAXFILE`, the largest number of blocks. -/
def maxfile : Nat := 0x408b

/-- A C `int` holds a sum up to a multiple of `2^32`. -/
def wrap (value : Int) : Int := value.bmod (2 ^ 32)

/-- The size and the blocks of an inode. -/
structure Dinode where
  size : Int
  blocks : Nat → Option (Nat → Byte)

/-- A block is written. -/
def Dinode.setBlock (f : Dinode) (bn : Nat) (data : Nat → Byte) : Dinode :=
  { f with blocks := Function.update f.blocks bn (some data) }

theorem set_block_blocks (f : Dinode) (bn other : Nat) (data : Nat → Byte) :
    (f.setBlock bn data).blocks other = if other = bn then some data else f.blocks other :=
  Function.update_apply _ _ _ _

/-- `bmap`. -/
def bmap (f : Dinode) (bn : Nat) : Option (Nat → Byte) :=
  if bn < maxfile then f.blocks bn else none

/-- `bmap_alloc`: the block, or an empty one if the disk has one. -/
def bmapAlloc (free : Nat → Bool) (f : Dinode) (bn : Nat) : Option (Nat → Byte) :=
  if maxfile ≤ bn then none
  else
    match bmap f bn with
    | some data => some data
    | none => if free bn then some fun _ => 0 else none

/-- The part of a block from `pos` on that a transfer up to `stop` takes. -/
def takeAt (pos stop : Nat) : Nat := min (512 - pos % 512) (stop - pos)

/-- The loop of `readi`: the bytes it copies. A missing block is copied as zeros. -/
def readiLoop (f : Dinode) (stop : Nat) : (fuel pos : Nat) → List Byte
  | 0, _ => []
  | fuel + 1, pos =>
    if pos < stop then
      let data := (bmap f (pos / 512)).getD fun _ => 0
      (List.range (takeAt pos stop)).map (fun k => data (pos % 512 + k)) ++
        readiLoop f stop fuel (pos + takeAt pos stop)
    else []

/-- `readi`: the value it returns and the bytes it copies. -/
def readi (f : Dinode) (off n : Int) : Int × List Byte :=
  if off < 0 ∨ f.size < off then (0, [])
  else
    let stop := if f.size < wrap (off + n) then f.size else wrap (off + n)
    (wrap (stop - off), readiLoop f stop.toNat (stop - off).toNat off.toNat)

/-- A block with the bytes of a write that starts at `off` put in. -/
def storeAt (src : Nat → Byte) (off pos stop : Nat) (data : Nat → Byte) (k : Nat) : Byte :=
  if pos % 512 ≤ k ∧ k < pos % 512 + takeAt pos stop then src (pos / 512 * 512 + k - off) else data k

/-- The loop of `writei`: the inode it leaves and where it stops. -/
def writeiLoop (free : Nat → Bool) (src : Nat → Byte) (off stop : Nat) :
    (fuel pos : Nat) → Dinode → Dinode × Nat
  | 0, pos, f => (f, pos)
  | fuel + 1, pos, f =>
    if pos < stop then
      match bmapAlloc free f (pos / 512) with
      | none => (f, pos)
      | some data =>
        writeiLoop free src off stop fuel (pos + takeAt pos stop)
          (f.setBlock (pos / 512) (storeAt src off pos stop data))
    else (f, pos)

/-- `writei`: the value it returns and the inode it leaves. -/
def writei (readOnly : Bool) (free : Nat → Bool) (f : Dinode) (off n : Int) (src : Nat → Byte) :
    Int × Dinode :=
  if readOnly then (-erofs, f)
  else if off < 0 ∨ n < 0 then (-einval, f)
  else if (maxfile * 512 : Nat) < wrap (off + n) then (-efbig, f)
  else
    let stop := wrap (off + n)
    let (g, pos) := writeiLoop free src off.toNat stop.toNat n.toNat off.toNat f
    if (pos : Int) < stop then
      if (pos : Int) = off then (-enospc, g)
      else (pos - off, { g with size := max g.size pos })
    else (n, { g with size := max g.size stop })

/-- `whence` of `file_lseek`. -/
inductive Whence where
  | set
  | cur
  | end
deriving DecidableEq, Repr

/-- `file_lseek`: the offset it stores, with the offset and the size before. -/
def fileLseek (offset size move : Int) (whence : Whence) : Except Int Int :=
  let next :=
    match whence with
    | .set => move
    | .cur => wrap (offset + move)
    | .end => wrap (size + move)
  if next < 0 then .error einval else .ok next

/-- The byte of a file at an offset. -/
def Dinode.byteAt (f : Dinode) (pos : Nat) : Byte :=
  (bmap f (pos / 512)).getD (fun _ => 0) (pos % 512)

/-! ## The loops -/

theorem take_within {pos stop k : Nat} (small : k < takeAt pos stop) :
    (pos + k) / 512 = pos / 512 ∧ (pos + k) % 512 = pos % 512 + k := by
  simp only [takeAt] at small
  omega

/-- The loop copies the bytes of the file from its start to its end. -/
theorem readi_loop_copies (f : Dinode) (stop fuel pos : Nat) (enough : stop - pos ≤ fuel) :
    readiLoop f stop fuel pos = (List.range (stop - pos)).map fun k => f.byteAt (pos + k) := by
  induction fuel generalizing pos with
  | zero =>
    have done : stop - pos = 0 := by omega
    simp [readiLoop, done]
  | succ fuel ih =>
    unfold readiLoop
    split
    case isFalse ended =>
      have done : stop - pos = 0 := by omega
      simp [done]
    rename_i more
    have positive : 0 < takeAt pos stop := by
      simp only [takeAt]
      omega
    have inside : takeAt pos stop ≤ stop - pos := Nat.min_le_right _ _
    rw [ih _ (by omega),
      show stop - pos = takeAt pos stop + (stop - (pos + takeAt pos stop)) by omega,
      List.range_add, List.map_append, List.map_map]
    refine congrArg₂ _ ?_ ?_
    · refine List.map_congr_left fun k listed => ?_
      have within := take_within (List.mem_range.mp listed)
      rw [Dinode.byteAt, within.1, within.2]
    · refine List.map_congr_left fun k _ => ?_
      simp only [Function.comp, Nat.add_assoc]

/-- One turn of the write loop, as the bytes of the file. -/
theorem byte_at_stored {free : Nat → Bool} {off pos stop : Nat} {data : Nat → Byte}
    (src : Nat → Byte) (found : bmapAlloc free f (pos / 512) = some data) (q : Nat) :
    (f.setBlock (pos / 512) (storeAt src off pos stop data)).byteAt q =
      if pos ≤ q ∧ q < pos + takeAt pos stop then src (q - off) else f.byteAt q := by
  have small : pos / 512 < maxfile := by
    by_contra large
    simp [bmapAlloc, Nat.not_lt.mp large] at found
  have before : (bmap f (pos / 512)).getD (fun _ => 0) = data := by
    rw [bmapAlloc, if_neg (by omega)] at found
    cases present : bmap f (pos / 512) with
    | some old =>
      rw [present] at found
      exact Option.some.inj found
    | none =>
      simp only [present] at found
      split at found
      case isTrue => exact Option.some.inj found
      case isFalse => contradiction
  have within : takeAt pos stop ≤ 512 - pos % 512 := Nat.min_le_left _ _
  by_cases here : q / 512 = pos / 512
  · have stored : (f.setBlock (pos / 512) (storeAt src off pos stop data)).byteAt q =
        storeAt src off pos stop data (q % 512) := by
      rw [Dinode.byteAt, here, bmap, if_pos small, set_block_blocks, if_pos rfl]
      rfl
    have place : pos / 512 * 512 + q % 512 = q := by omega
    rw [stored, storeAt, place, Dinode.byteAt, here, before]
    refine if_congr ?_ rfl rfl
    omega
  · rw [if_neg (by omega), Dinode.byteAt, bmap, set_block_blocks, if_neg here]
    rfl

/-- The loop stores the bytes from its start to where it stops, and no others. -/
theorem writei_loop_stores (free : Nat → Bool) (src : Nat → Byte) (off stop fuel pos : Nat)
    (f : Dinode) (enough : stop - pos ≤ fuel) :
    let after := writeiLoop free src off stop fuel pos f
    after.1.size = f.size ∧ pos ≤ after.2 ∧ (after.2 ≤ stop ∨ after.2 = pos) ∧
      ∀ q, after.1.byteAt q = if pos ≤ q ∧ q < after.2 then src (q - off) else f.byteAt q := by
  have unchanged : ∀ q, f.byteAt q = if pos ≤ q ∧ q < pos then src (q - off) else f.byteAt q :=
    fun q => (if_neg (by omega)).symm
  induction fuel generalizing pos f with
  | zero => exact ⟨rfl, le_rfl, .inr rfl, unchanged⟩
  | succ fuel ih =>
    unfold writeiLoop
    split
    case isFalse => exact ⟨rfl, le_rfl, .inr rfl, unchanged⟩
    rename_i more
    split
    case h_1 => exact ⟨rfl, le_rfl, .inr rfl, unchanged⟩
    rename_i data found
    have positive : 0 < takeAt pos stop := by
      simp only [takeAt]
      omega
    have inside : takeAt pos stop ≤ stop - pos := Nat.min_le_right _ _
    obtain ⟨size, low, high, bytes⟩ := ih (pos + takeAt pos stop)
      (f.setBlock (pos / 512) (storeAt src off pos stop data)) (by omega)
      (fun q => (if_neg (by omega)).symm)
    refine ⟨size, by omega, by omega, fun q => ?_⟩
    rw [bytes q, byte_at_stored src found]
    by_cases later : pos + takeAt pos stop ≤ q ∧
        q < (writeiLoop free src off stop fuel (pos + takeAt pos stop)
          (f.setBlock (pos / 512) (storeAt src off pos stop data))).2
    · rw [if_pos later, if_pos (by omega)]
    · rw [if_neg later]
      refine if_congr ?_ rfl rfl
      omega

/-! ## Offsets that fit -/

/-- A sum of two C `int`s that are not negative. -/
theorem wrap_sum {off n : Int} (low : 0 ≤ off) (lowN : 0 ≤ n) (high : off < 2 ^ 31) (highN : n < 2 ^ 31) :
    wrap (off + n) = if off + n < 2 ^ 31 then off + n else off + n - 2 ^ 32 := by
  rw [wrap, Int.bmod_def]
  split <;> split <;> omega

/-- What `readi` and `writei` do with an offset and a length: `writei` refuses what is too
large, what it reports as written can be read back and nothing else has changed, and `readi`
reports what it has copied, all there is up to the length. -/
structure Exact (readOnly : Bool) (free : Nat → Bool) (f : Dinode) (off n : Int) (src : Nat → Byte) :
    Prop where
  refused : readOnly = false → (maxfile * 512 : Nat) < off + n →
    (writei readOnly free f off n src).1 = -efbig
  stored : 0 < (writei readOnly free f off n src).1 →
    readi (writei readOnly free f off n src).2 off (writei readOnly free f off n src).1 =
      ((writei readOnly free f off n src).1,
        (List.range (writei readOnly free f off n src).1.toNat).map src)
  others : 0 < (writei readOnly free f off n src).1 → ∀ q : Nat,
    q < off ∨ off + (writei readOnly free f off n src).1 ≤ q →
      (writei readOnly free f off n src).2.byteAt q = f.byteAt q
  count : (readi f off n).1 = max 0 (min n (f.size - off))
  copied : (readi f off n).2 = (List.range (readi f off n).1.toNat).map fun k => f.byteAt (off.toNat + k)

/-- Reading what fits. -/
theorem readi_fits {off n : Int} (low : 0 ≤ off) (lowN : 0 ≤ n) (fits : off + n < 2 ^ 31)
    (size : f.size < 2 ^ 31) :
    readi f off n = (max 0 (min n (f.size - off)),
      (List.range (max 0 (min n (f.size - off))).toNat).map fun k => f.byteAt (off.toNat + k)) := by
  have sum : wrap (off + n) = off + n := by
    rw [wrap_sum low lowN (by omega) (by omega), if_pos fits]
  unfold readi
  split
  case isTrue beyond =>
    have none : max 0 (min n (f.size - off)) = 0 := by omega
    simp [none]
  rename_i inside
  have stop : (if f.size < wrap (off + n) then f.size else wrap (off + n)) =
      off + max 0 (min n (f.size - off)) := by
    rw [sum]
    split <;> omega
  have count : wrap (off + max 0 (min n (f.size - off)) - off) = max 0 (min n (f.size - off)) := by
    rw [wrap, Int.bmod_def]
    split <;> omega
  simp only [stop, count, Prod.mk.injEq, true_and]
  rw [readi_loop_copies _ _ _ _ (by omega)]
  congr 2
  omega

/-- Writing what fits: what is returned is how far the loop comes. -/
theorem writei_stores {readOnly : Bool} {off n : Int} (free : Nat → Bool) (src : Nat → Byte)
    (low : 0 ≤ off) (lowN : 0 ≤ n) (high : off < 2 ^ 31) (highN : n < 2 ^ 31)
    (fits : off + n < 2 ^ 31) (wrote : 0 < (writei readOnly free f off n src).1) :
    (writei readOnly free f off n src).1 ≤ n ∧
    (writei readOnly free f off n src).2.size =
      max f.size (off + (writei readOnly free f off n src).1) ∧
    ∀ q : Nat, (writei readOnly free f off n src).2.byteAt q =
      if off ≤ q ∧ q < off + (writei readOnly free f off n src).1 then src (q - off.toNat)
      else f.byteAt q := by
  obtain ⟨size, start, upTo, bytes⟩ := writei_loop_stores free src off.toNat (off + n).toNat n.toNat
    off.toNat f (by omega)
  unfold writei at wrote ⊢
  by_cases ro : readOnly = true
  · rw [if_pos ro] at wrote
    exact absurd wrote (show ¬ (0 : Int) < -erofs by decide)
  rw [if_neg ro, if_neg (by omega), wrap_sum low lowN high highN, if_pos fits] at wrote ⊢
  by_cases large : ((maxfile * 512 : Nat) : Int) < off + n
  · rw [if_pos large] at wrote
    exact absurd wrote (show ¬ (0 : Int) < -efbig by decide)
  rw [if_neg large] at wrote ⊢
  rcases loop : writeiLoop free src off.toNat (off + n).toNat n.toNat off.toNat f with ⟨g, reached⟩
  simp only [loop] at size start upTo bytes wrote ⊢
  by_cases short : (reached : Int) < off + n
  · rw [if_pos short] at wrote ⊢
    by_cases nothing : (reached : Int) = off
    · rw [if_pos nothing] at wrote
      exact absurd wrote (show ¬ (0 : Int) < -enospc by decide)
    rw [if_neg nothing]
    refine ⟨by simp only; omega, ?_, fun q => ?_⟩
    · simp only [size]
      omega
    · refine (bytes q).trans (if_congr ?_ rfl rfl)
      simp only
      omega
  · rw [if_neg short]
    refine ⟨le_rfl, ?_, fun q => ?_⟩
    · simp only [size]
    · refine (bytes q).trans (if_congr ?_ rfl rfl)
      simp only
      omega

/-- `file_lseek` stores every C `int` that is not negative, and no other offset. -/
theorem file_lseek_range {offset size move off : Int} {whence : Whence}
    (high : move < 2 ^ 31) (sought : fileLseek offset size move whence = .ok off) :
    0 ≤ off ∧ off < 2 ^ 31 := by
  have range (value : Int) : wrap value < 2 ^ 31 := by
    rw [wrap, Int.bmod_def]
    split <;> omega
  unfold fileLseek at sought
  simp only at sought
  by_cases negative : (match whence with
      | .set => move
      | .cur => wrap (offset + move)
      | .end => wrap (size + move)) < 0
  · rw [if_pos negative] at sought
    contradiction
  rw [if_neg negative] at sought
  obtain rfl := Except.ok.inj sought
  refine ⟨by omega, ?_⟩
  cases whence with
  | set => exact high
  | cur => exact range _
  | «end» => exact range _

/-- Offsets and lengths are handled exactly when their sum is below `2^31`, or no write and no
read comes to the sum: for every offset that `file_lseek` stores and every length that is not
negative. -/
theorem offsets_exact_iff (readOnly : Bool) (free : Nat → Bool) (f : Dinode)
    (offset move off n : Int) (whence : Whence) (src : Nat → Byte) (size : f.size < 2 ^ 31)
    (high : move < 2 ^ 31) (sought : fileLseek offset f.size move whence = .ok off)
    (lowN : 0 ≤ n) (highN : n < 2 ^ 31) :
    Exact readOnly free f off n src ↔ off + n < 2 ^ 31 ∨ readOnly = true ∧ f.size < off := by
  obtain ⟨lowOff, highOff⟩ := file_lseek_range high sought
  constructor
  · intro exact
    by_contra failing
    obtain ⟨large, neither⟩ := not_or.mp failing
    have negative : wrap (off + n) = off + n - 2 ^ 32 := by
      rw [wrap_sum lowOff lowN highOff highN, if_neg large]
    cases readOnly with
    | false =>
      have refused := exact.refused rfl (by simp only [maxfile]; omega)
      have returned : (writei false free f off n src).1 = n := by
        unfold writei
        rw [if_neg Bool.false_ne_true, if_neg (by omega), negative, if_neg (by omega)]
        simp only
        rw [if_neg (by omega)]
      rw [returned, show (efbig : Int) = 27 from rfl] at refused
      omega
    | true =>
      have inside : off ≤ f.size := by
        by_contra beyond
        exact neither ⟨rfl, by omega⟩
      have returned : (readi f off n).1 = n := by
        unfold readi
        rw [if_neg (by omega), negative, if_neg (by omega)]
        simp only [wrap, Int.bmod_def]
        split <;> omega
      have count := exact.count
      omega
  · rintro (fits | ⟨rfl, beyond⟩)
    · have read := readi_fits lowOff lowN fits size
      refine ⟨fun writable large => ?_, fun wrote => ?_, fun wrote q outside => ?_, ?_, ?_⟩
      · unfold writei
        rw [writable, if_neg Bool.false_ne_true, if_neg (by omega),
          wrap_sum lowOff lowN highOff highN, if_pos fits, if_pos large]
      · obtain ⟨most, grown, bytes⟩ := writei_stores free src lowOff lowN highOff highN fits wrote
        rw [readi_fits lowOff (by omega) (by omega) (by omega)]
        have whole : max 0 (min (writei readOnly free f off n src).1
            ((writei readOnly free f off n src).2.size - off)) =
            (writei readOnly free f off n src).1 := by omega
        rw [whole]
        refine congrArg _ (List.map_congr_left fun k listed => ?_)
        have early := List.mem_range.mp listed
        rw [bytes, if_pos (by omega)]
        congr 1
        omega
      · obtain ⟨most, grown, bytes⟩ := writei_stores free src lowOff lowN highOff highN fits wrote
        rw [bytes, if_neg (by omega)]
      · rw [read]
      · rw [read]
    · have nothing : readi f off n = (0, []) := by
        rw [readi, if_pos (.inr beyond)]
      have refused : (writei true free f off n src).1 = -erofs := rfl
      refine ⟨fun writable => by contradiction, fun wrote => ?_, fun wrote => ?_, ?_, ?_⟩
      · exact absurd (refused ▸ wrote) (by decide)
      · exact absurd (refused ▸ wrote) (by decide)
      · rw [nothing]
        omega
      · rw [nothing]
        rfl

theorem offsets_exact_iff_empty :
    Exact false (fun _ => true) ⟨0, fun _ => none⟩ 600 1 (fun _ => 65) ↔
      (600 : Int) + 1 < 2 ^ 31 ∨ false = true ∧ (0 : Int) < 600 :=
  offsets_exact_iff false (fun _ => true) ⟨0, fun _ => none⟩ 0 600 600 1 .set (fun _ => 65)
    (by decide) (by decide) rfl (by decide) (by decide)

/-- After `lseek` to the last offset a write of one byte reports one byte, and stores none. -/
theorem write_at_last_offset_lost :
    fileLseek 0 0 (2 ^ 31 - 1) .set = .ok (2 ^ 31 - 1) ∧
    ¬ Exact false (fun _ => true) ⟨0, fun _ => none⟩ (2 ^ 31 - 1) 1 (fun _ => 65) := by
  refine ⟨rfl, fun exact => ?_⟩
  exact absurd (exact.refused rfl (by decide)) (by decide)

end JsEmulator.Disk
