import JsEmulator.Toolchain.RuntimeAssembly
import Mathlib.Tactic.Ring

/-!
# Moving blocks of memory

What `memcpy`, `memset` and the `memmove` of the C library do to the bytes of two ranges. A range
is named by its first address and its length; a byte belongs to it if its distance from the first
address is below the length.

`memmove` moves forward, with `memcpy`, if the destination is below the source, and byte by byte
from the end otherwise. The compiler compares pointers as signed numbers.
-/

namespace JsEmulator.Toolchain.BlockMoves

open JsEmulator.Library.LabelledCode
open JsEmulator.Library.WordMemory
open JsEmulator.Toolchain.RuntimeAssembly

/-- The memory after a move as C has it: every byte of the destination is the byte that the source
had. -/
def moved (d s : Word) (n : Nat) (mem : Memory) : Memory :=
  fun b => if (b - d).toNat < n then mem (s + (b - d)) else mem b

/-- The loop of `memmove` from the last byte down to the first. -/
def backward : Nat → Word → Word → Memory → Memory
  | n + 1, d, s, mem =>
    backward n d s (Function.update mem (d + BitVec.ofNat 32 n) (mem (s + BitVec.ofNat 32 n)))
  | 0, _, _, mem => mem

/-- `memmove`, for a length that is not negative. The pointers are compared with `JL`. -/
def memmove (d s : Word) (length : Nat) (mem : Memory) : Memory :=
  if d.slt s then forward length d s mem else backward length d s mem

/-! ## Moving forward -/

theorem toNat_less (x y : Word) :
    (x - y).toNat = (x.toNat + 4294967296 - y.toNat) % 4294967296 := by
  have := y.isLt
  rw [BitVec.toNat_sub]
  congr 1
  omega

theorem sub_offset (b d x : Word) : b - (d + x) = b - d - x := by ring

theorem offsets_cancel (d s x : Word) : d + x - (s + x) = d - s := by ring

theorem word_moved (d s : Word) (mem : Memory) : writeWord mem d (readWord mem s) = moved d s 4 mem := by
  funext b
  unfold writeWord moved
  split_ifs with inside
  · rw [byte_readWord _ _ inside, BitVec.ofNat_toNat, BitVec.setWidth_eq]
  · rfl

theorem close_iff (b d : Word) : (b - d).toNat < 1 ↔ b = d := by
  have zero : (b - d).toNat = 0 ↔ b - d = 0 := @BitVec.toNat_inj 32 (b - d) 0
  rw [Nat.lt_one_iff, zero, sub_eq_zero]

theorem byte_moved (d s : Word) (mem : Memory) : Function.update mem d (mem s) = moved d s 1 mem := by
  funext b
  unfold moved
  simp only [close_iff, Function.update_apply]
  split_ifs with same
  · rw [same, sub_self, add_zero]
  · rfl

variable {n : Nat} {d s : Word} {m : Machine}

/-- Moving goes on from where it was, if what follows in the source has not been overwritten. -/
theorem moved_moved {w : Nat} (mem : Memory) (short : n + w ≤ 2 ^ 32)
    (ahead : d = s ∨ n + w ≤ (d - s).toNat) :
    moved (d + BitVec.ofNat 32 w) (s + BitVec.ofNat 32 w) n (moved d s w mem) =
      moved d s (n + w) mem := by
  funext b
  have source : s + BitVec.ofNat 32 w + (b - (d + BitVec.ofNat 32 w)) = s + (b - d) := by ring
  have back : s + (b - d) - d = b - d - (d - s) := by ring
  have bounds := And.intro (b - d).isLt (d - s).isLt
  have start : (BitVec.ofNat 32 w).toNat = w % 4294967296 := rfl
  have distance := toNat_less (b - d) (BitVec.ofNat 32 w)
  have overwritten := toNat_less (b - d) (d - s)
  rw [start] at distance
  unfold moved
  rw [source, sub_offset, distance]
  by_cases unit : (b - d).toNat < w
  · rw [if_neg (by omega), if_pos unit, if_pos (by omega)]
  by_cases inside : (b - d).toNat < n + w
  · have kept : ¬ (s + (b - d) - d).toNat < w := by
      rw [back, overwritten]
      rcases ahead with rfl | far
      · rw [BitVec.sub_self] at bounds ⊢
        simp only [BitVec.toNat_zero]
        omega
      · omega
    rw [if_pos (by omega), if_neg kept, if_pos inside]
  · rw [if_neg (by omega), if_neg unit, if_neg inside]

theorem forward_outside {b : Word} {mem : Memory} (outside : n ≤ (b - d).toNat) :
    forward n d s mem b = mem b := by
  induction n, d, s, mem using forward.induct with
  | case1 n d s mem ih =>
    have further : n ≤ (b - (d + 4)).toNat := by
      have size : (4 : Word).toNat = 4 := rfl
      have := (b - d).isLt
      rw [sub_offset, toNat_less, size]
      omega
    rw [forward, ih further, writeWord, if_neg (by omega)]
  | case2 n d s mem few ih =>
    have further : n ≤ (b - (d + 1)).toNat := by
      have size : (1 : Word).toNat = 1 := rfl
      have := (b - d).isLt
      rw [sub_offset, toNat_less, size]
      omega
    have other : b ≠ d := by
      rintro rfl
      simp at outside
    have less : n < 3 := by
      by_contra more
      exact few (n - 3) (by omega)
    rw [forward_byte less, ih further, Function.update_of_ne other]
  | case3 d s mem => rfl

/-- Moving forward is right if the destination does not begin inside the source. -/
theorem forward_moved (mem : Memory) (short : n ≤ 2 ^ 32) (ahead : d = s ∨ n ≤ (d - s).toNat) :
    forward n d s mem = moved d s n mem := by
  induction n, d, s, mem using forward.induct with
  | case1 n d s mem ih =>
    have still : d + 4 = s + 4 ∨ n ≤ (d + 4 - (s + 4)).toNat := by
      rw [offsets_cancel, add_left_inj]
      exact ahead.imp_right fun far => by omega
    rw [forward, ih (by omega) still, word_moved]
    exact moved_moved mem short ahead
  | case2 n d s mem few ih =>
    have still : d + 1 = s + 1 ∨ n ≤ (d + 1 - (s + 1)).toNat := by
      rw [offsets_cancel, add_left_inj]
      exact ahead.imp_right fun far => by omega
    have less : n < 3 := by
      by_contra more
      exact few (n - 3) (by omega)
    rw [forward_byte less, ih (by omega) still, byte_moved]
    exact moved_moved mem short ahead
  | case3 d s mem =>
    funext b
    rw [moved, if_neg (Nat.not_lt_zero _)]
    rfl

/-- Where the last word or byte begins that a forward move takes. -/
def lastUnit (n : Nat) : Nat := if n % 4 = 0 then n - 4 else n - 1

theorem toNat_offset (d : Word) {k : Nat} (small : k < 2 ^ 32) :
    (d + BitVec.ofNat 32 k - d).toNat = k := by
  rw [add_sub_cancel_left, BitVec.toNat_ofNat, Nat.mod_eq_of_lt small]

/-- A single word or byte is in the destination what it is in the source. -/
theorem moved_single {w j : Nat} (mem : Memory) (short : w ≤ 2 ^ 32) (high : j < w)
    (outside : w ≤ (s + BitVec.ofNat 32 j - (d + BitVec.ofNat 32 0)).toNat) :
    moved d s w mem (d + BitVec.ofNat 32 j) = moved d s w mem (s + BitVec.ofNat 32 j) := by
  rw [BitVec.add_zero] at outside
  unfold moved
  rw [toNat_offset d (Nat.lt_of_lt_of_le high short), if_pos high, if_neg (by omega),
    add_sub_cancel_left]

theorem add_offsets (d : Word) (w j : Nat) :
    d + BitVec.ofNat 32 w + BitVec.ofNat 32 j = d + BitVec.ofNat 32 (j + w) := by
  rw [add_assoc, ← BitVec.ofNat_add, Nat.add_comm w]

/-- The last word or byte is read when all before it has been written: at its end the destination
has what is then in the source. -/
theorem forward_last {j : Nat} (mem : Memory) (short : n ≤ 2 ^ 32) (low : lastUnit n ≤ j)
    (high : j < n)
    (outside : n - lastUnit n ≤ (s + BitVec.ofNat 32 j - (d + BitVec.ofNat 32 (lastUnit n))).toNat) :
    forward n d s mem (d + BitVec.ofNat 32 j) = forward n d s mem (s + BitVec.ofNat 32 j) := by
  induction n, d, s, mem using forward.induct generalizing j with
  | case1 n d s mem ih =>
    rw [forward]
    rcases Nat.eq_zero_or_pos n with rfl | more
    · rw [word_moved]
      exact moved_single mem short high outside
    have unit : lastUnit (n + 4) = lastUnit n + 4 := by
      unfold lastUnit
      split_ifs <;> omega
    change lastUnit (n + 4) ≤ j at low
    change n + 4 - lastUnit (n + 4) ≤ _ at outside
    rw [unit] at low outside
    obtain ⟨rest, rfl⟩ : ∃ rest, j = rest + 4 := ⟨j - 4, by omega⟩
    rw [Nat.add_sub_add_right, ← add_offsets, ← add_offsets] at outside
    rw [← add_offsets, ← add_offsets]
    exact @ih rest (by omega) (by omega) (by omega) outside
  | case2 n d s mem few ih =>
    have less : n < 3 := by
      by_contra more
      exact few (n - 3) (by omega)
    rw [forward_byte less]
    rcases Nat.eq_zero_or_pos n with rfl | more
    · rw [byte_moved]
      exact moved_single mem short high outside
    have unit : lastUnit (n + 1) = lastUnit n + 1 := by
      unfold lastUnit
      split_ifs <;> omega
    change lastUnit (n + 1) ≤ j at low
    change n + 1 - lastUnit (n + 1) ≤ _ at outside
    rw [unit] at low outside
    obtain ⟨rest, rfl⟩ : ∃ rest, j = rest + 1 := ⟨j - 1, by omega⟩
    rw [Nat.add_sub_add_right, ← add_offsets, ← add_offsets] at outside
    rw [← add_offsets, ← add_offsets]
    exact @ih rest (by omega) (by omega) (by omega) outside
  | case3 d s mem => cases high

/-! ## Moving backward -/

/-- Moving backward is right if the source does not begin inside the destination, after its first
byte. -/
theorem backward_moved (mem : Memory) (short : n ≤ 2 ^ 32) (behind : d = s ∨ n ≤ (s - d).toNat) :
    backward n d s mem = moved d s n mem := by
  induction n generalizing mem with
  | zero =>
    funext b
    rw [moved, if_neg (Nat.not_lt_zero _)]
    rfl
  | succ n ih =>
    rw [backward, ih _ (by omega) (behind.imp_right fun far => by omega)]
    funext b
    have index : (BitVec.ofNat 32 n).toNat = n := Nat.mod_eq_of_lt (by omega)
    unfold moved
    rcases Nat.lt_trichotomy (b - d).toNat n with before | last | beyond
    · have other : s + (b - d) ≠ d + BitVec.ofNat 32 n := by
        intro same
        have place : b - d = BitVec.ofNat 32 n - (s - d) := by
          rw [eq_sub_iff_add_eq, ← add_left_cancel_iff (a := d), ← same]
          ring
        have distance := toNat_less (BitVec.ofNat 32 n) (s - d)
        rw [← place, index] at distance
        have := (s - d).isLt
        rcases behind with rfl | far
        · rw [sub_self] at distance
          simp only [BitVec.ofNat_eq_ofNat, BitVec.toNat_ofNat] at distance
          omega
        · omega
      rw [if_pos before, if_pos (by omega), Function.update_of_ne other]
    · have place : b - d = BitVec.ofNat 32 n := BitVec.eq_of_toNat_eq (last.trans index.symm)
      rw [if_neg (by omega), if_pos (by omega), place, ← place, add_sub_cancel,
        Function.update_self]
    · have other : b ≠ d + BitVec.ofNat 32 n := by
        rintro rfl
        rw [add_sub_cancel_left, index] at beyond
        omega
      rw [if_neg (by omega), if_neg (by omega), Function.update_of_ne other]

/-- The first byte is moved last. -/
theorem backward_last (mem : Memory) (some : 0 < n) (short : n ≤ 2 ^ 32) (other : s ≠ d) :
    backward n d s mem d = backward n d s mem s := by
  induction n generalizing mem with
  | zero => cases some
  | succ n ih =>
    rcases n with - | n
    · show Function.update mem (d + 0#32) (mem (s + 0#32)) d =
        Function.update mem (d + 0#32) (mem (s + 0#32)) s
      rw [BitVec.add_zero, BitVec.add_zero, Function.update_self, Function.update_of_ne other]
    · exact ih _ (Nat.succ_pos n) (by omega)

/-! ## Overlapping ranges -/

/-- How far the two ranges begin from each other. -/
def distance (d s : Word) : Nat := (d.toNat - s.toNat) + (s.toNat - d.toNat)

/-- A memory in which two bytes of the source differ. -/
def marked (a : Word) : Memory := fun b => if b = a then 1 else 0

theorem offset_ne (s : Word) {j k : Nat} (small : j < 2 ^ 32) (low : k < 2 ^ 32) (differ : j ≠ k) :
    s + BitVec.ofNat 32 j ≠ s + BitVec.ofNat 32 k := by
  intro same
  have value := congrArg BitVec.toNat (add_left_cancel same)
  rw [BitVec.toNat_ofNat, BitVec.toNat_ofNat, Nat.mod_eq_of_lt small, Nat.mod_eq_of_lt low] at value
  exact differ value

/-- A move that leaves the same byte in two places of the destination is not right for every
memory. -/
theorem not_moved {d s : Word} {n j k : Nat} {move : Memory → Memory} (short : n < 2 ^ 31)
    (high : j < n) (low : k < n) (differ : k ≠ j)
    (same : ∀ mem, move mem (d + BitVec.ofNat 32 j) = move mem (d + BitVec.ofNat 32 k)) :
    ¬ ∀ mem, move mem = moved d s n mem := by
  intro right
  have alike := same (marked (s + BitVec.ofNat 32 j))
  have other := offset_ne s (show k < 2 ^ 32 by omega) (show j < 2 ^ 32 by omega) differ
  rw [right, moved, moved, toNat_offset d (by omega), toNat_offset d (by omega), if_pos high,
    if_pos low, add_sub_cancel_left, add_sub_cancel_left, marked, if_pos rfl, marked,
    if_neg other] at alike
  exact absurd alike (by decide)

theorem toNat_differences (d s : Word) :
    (s.toNat ≤ d.toNat → (d - s).toNat = d.toNat - s.toNat) ∧
      (d.toNat < s.toNat → (d - s).toNat = 4294967296 - (s.toNat - d.toNat)) := by
  have bounds := And.intro d.isLt s.isLt
  rw [toNat_less]
  omega

/-- A forward move from below the destination, of two ranges that overlap, is wrong but for a single
word. -/
theorem forward_wrong (short : n < 2 ^ 31) (fits : d.toNat + n ≤ 2 ^ 32) (below : s.toNat < d.toNat)
    (overlap : d.toNat - s.toNat < n) (several : n ≠ 4) :
    ¬ ∀ mem, forward n d s mem = moved d s n mem := by
  -- the source of the offset `j` is the destination of the offset `k`
  obtain ⟨j, k, gap, unit, high, before⟩ : ∃ j k, j = k + (d.toNat - s.toNat) ∧ lastUnit n ≤ j ∧
      j < n ∧ k < lastUnit n := by
    unfold lastUnit
    by_cases words : n % 4 = 0
    · rw [if_pos words]
      by_cases near : d.toNat - s.toNat ≤ 3
      · exact ⟨n - 4, n - 4 - (d.toNat - s.toNat), by omega⟩
      · exact ⟨n - 1, n - 1 - (d.toNat - s.toNat), by omega⟩
    · rw [if_neg words]
      exact ⟨n - 1, n - 1 - (d.toNat - s.toNat), by omega⟩
  have place : s + BitVec.ofNat 32 j = d + BitVec.ofNat 32 k := by
    apply BitVec.eq_of_toNat_eq
    rw [BitVec.toNat_add, BitVec.toNat_add, BitVec.toNat_ofNat, BitVec.toNat_ofNat]
    omega
  have outside : n - lastUnit n ≤
      (s + BitVec.ofNat 32 j - (d + BitVec.ofNat 32 (lastUnit n))).toNat := by
    have last : lastUnit n < 2 ^ 32 := by omega
    rw [place, toNat_less, BitVec.toNat_add, BitVec.toNat_add, BitVec.toNat_ofNat, BitVec.toNat_ofNat]
    omega
  refine not_moved short high (show k < n by omega) (by omega) fun mem => ?_
  rw [forward_last mem (by omega) unit high outside, place]

/-- A backward move from above the destination, of two ranges that overlap, is wrong. -/
theorem backward_wrong (short : n < 2 ^ 31) (above : d.toNat < s.toNat)
    (overlap : s.toNat - d.toNat < n) : ¬ ∀ mem, backward n d s mem = moved d s n mem := by
  have place : s = d + BitVec.ofNat 32 (s.toNat - d.toNat) := by
    apply BitVec.eq_of_toNat_eq
    have := s.isLt
    rw [BitVec.toNat_add, BitVec.toNat_ofNat]
    omega
  have other : s ≠ d := by
    rintro rfl
    omega
  refine @not_moved d s n 0 _ _ short (by omega) overlap (by omega) fun mem => ?_
  rw [← place, BitVec.add_zero]
  exact backward_last mem (by omega) (by omega) other

theorem memmove_moved_iff (short : n < 2 ^ 31) (fits : d.toNat + n ≤ 2 ^ 32)
    (sourceFits : s.toNat + n ≤ 2 ^ 32) :
    (∀ mem, memmove d s n mem = moved d s n mem) ↔
      d.msb = s.msb ∨ n ≤ distance d s ∨ n = 4 ∧ s.toNat < d.toNat := by
  have compare : d.slt s = ((d.msb != s.msb) ^^ decide (d.toNat < s.toNat)) := BitVec.slt_eq_ult
  have ahead := toNat_differences d s
  have behind := toNat_differences s d
  constructor
  · intro right
    by_contra wrong
    rw [not_or, not_or] at wrong
    obtain ⟨sides, near, several⟩ := wrong
    have split : (d.msb != s.msb) = true := by simpa using sides
    unfold distance at near
    rcases Nat.lt_trichotomy s.toNat d.toNat with below | same | above
    · rw [split, decide_eq_false (by omega)] at compare
      refine forward_wrong short fits below (by omega) (fun single => several ⟨single, below⟩) ?_
      intro mem
      rw [← right mem, memmove, compare]
      rfl
    · exact sides (congrArg BitVec.msb (BitVec.eq_of_toNat_eq same.symm))
    · rw [split, decide_eq_true above] at compare
      refine backward_wrong short above (by omega) ?_
      intro mem
      rw [← right mem, memmove, compare]
      rfl
  · intro condition mem
    unfold memmove
    unfold distance at condition
    split_ifs with less
    · by_cases single : n = 4
      · subst single
        exact word_moved d s mem
      refine forward_moved mem (by omega) (.inr ?_)
      by_cases above : d.toNat < s.toNat
      · rw [ahead.2 above]
        omega
      rw [less, decide_eq_false above, Bool.xor_false, eq_comm, bne_iff_ne] at compare
      rw [ahead.1 (by omega)]
      rcases condition with same | far | ⟨four, _⟩
      · exact absurd same compare
      · omega
      · exact absurd four single
    · rw [Bool.not_eq_true] at less
      rcases Nat.lt_trichotomy s.toNat d.toNat with below | same | above
      · refine backward_moved mem (by omega) (.inr ?_)
        rw [behind.2 below]
        omega
      · exact backward_moved mem (by omega) (.inl (BitVec.eq_of_toNat_eq same.symm))
      · rw [less, decide_eq_true above, Bool.xor_true, eq_comm, Bool.not_eq_false', bne_iff_ne]
          at compare
        refine backward_moved mem (by omega) (.inr ?_)
        rw [behind.1 (by omega)]
        rcases condition with equal | far | ⟨_, below⟩
        · exact absurd equal compare
        · omega
        · omega

/-! ## Filling -/

/-- Four times the same byte. -/
theorem repeated_byte (value : Byte) {i : Nat} (inside : i < 4) :
    (value.setWidth 32 * 16843009 : Word).extractLsb' (8 * i) 8 = value := by
  apply BitVec.eq_of_toNat_eq
  have bound := value.isLt
  have product : (value.setWidth 32 * 16843009 : Word).toNat = value.toNat * 16843009 := by
    rw [BitVec.toNat_mul, BitVec.toNat_setWidth]
    show value.toNat % 2 ^ 32 * 16843009 % 2 ^ 32 = _
    omega
  have digits : ∀ v < 256, ∀ i < 4, v * 16843009 / 2 ^ (8 * i) % 2 ^ 8 = v := by decide +kernel
  rw [BitVec.extractLsb'_toNat, product, Nat.shiftRight_eq_div_pow]
  exact digits _ bound i inside

/-- The bytes of a range are all the same. -/
def filled (value : Byte) (d : Word) (n : Nat) (mem : Memory) : Memory :=
  fun b => if (b - d).toNat < n then value else mem b

theorem filled_filled {value : Byte} {w : Nat} (mem : Memory) (short : n + w ≤ 2 ^ 32) :
    filled value (d + BitVec.ofNat 32 w) n (filled value d w mem) = filled value d (n + w) mem := by
  funext b
  have bound := (b - d).isLt
  have start : (BitVec.ofNat 32 w).toNat = w % 4294967296 := rfl
  have distance := toNat_less (b - d) (BitVec.ofNat 32 w)
  rw [start] at distance
  unfold filled
  rw [sub_offset, distance]
  split_ifs <;> first | rfl | omega

theorem fill_filled {value : Byte} (mem : Memory) (short : n ≤ 2 ^ 32) :
    fill value n d mem = filled value d n mem := by
  induction n, d, mem using fill.induct value with
  | case1 n d mem ih =>
    have word : writeWord mem d (value.setWidth 32 * 16843009) = filled value d 4 mem := by
      funext b
      unfold writeWord filled
      split_ifs with inside
      · exact repeated_byte value inside
      · rfl
    rw [fill, ih (by omega), word]
    exact filled_filled mem short
  | case2 n d mem few ih =>
    have less : n < 3 := by
      by_contra more
      exact few (n - 3) (by omega)
    have single : Function.update mem d value = filled value d 1 mem := by
      funext b
      unfold filled
      simp only [close_iff, Function.update_apply]
    rw [fill_byte value less, ih (by omega), single]
    exact filled_filled mem short
  | case3 d mem =>
    funext b
    rw [filled, if_neg (Nat.not_lt_zero _)]
    rfl

/-! ## Calls -/

/-- A range and a word have no byte in common. -/
def Clear (a : Word) (n : Nat) (w : Word) : Prop :=
  ∀ b : Word, (b - w).toNat < 4 → n ≤ (b - a).toNat

/-- A routine is back: the destination is its result, and the stacks are as it found them. -/
structure Returned (csp d : Word) (m after : Machine) : Prop where
  result : after.regs 0 = d
  frame : after.regs 6 = m.regs 6
  sp : after.sp = m.sp
  pointer : readWord after.mem csp = readWord m.mem csp

theorem readWord_congr {first second : Memory} {a : Word}
    (same : ∀ b : Word, (b - a).toNat < 4 → first b = second b) : readWord first a = readWord second a := by
  apply word_ext
  intro i inside
  have offset := toNat_offset a (show i < 2 ^ 32 by omega)
  rw [byte_readWord _ _ inside, byte_readWord _ _ inside, same _ (by omega)]

/-- The end of a routine that has changed its destination only. -/
theorem leave_returned {csp : Word} {last : Machine}
    (pointer : Library.WordMemory.Apart csp (m.sp - 4)) (clear : Clear d n csp)
    (pushClear : Clear d n (m.sp - 4))
    (outside : ∀ b : Word, n ≤ (b - d).toNat → last.mem b = pushed m b) (result : last.regs 0 = d)
    (frame : last.regs 6 = readWord m.mem csp) (sp : last.sp = m.sp - 4) :
    Returned csp d m (effectOf (effects (leave csp)) last) ∧
      (effectOf (effects (leave csp)) last).mem = last.mem := by
  have stack : readWord last.mem csp = readWord m.mem csp :=
    (readWord_congr fun b inside => outside b (clear b inside)).trans (readWord_apart _ pointer _)
  have saved : readWord last.mem (m.sp - 4) = m.regs 6 :=
    (readWord_congr fun b inside => outside b (pushClear b inside)).trans (readWord_writeWord _ _ _)
  have restored : writeWord last.mem csp (last.regs 6) = last.mem := by
    rw [frame, ← stack, writeWord_readWord]
  refine ⟨⟨result, ?_, ?_, ?_⟩, restored⟩
  · show readWord (writeWord last.mem csp (last.regs 6)) last.sp = _
    rw [restored, sp, saved]
  · show last.sp + 4 = m.sp
    rw [sp, sub_add_cancel]
  · show readWord (writeWord last.mem csp (last.regs 6)) csp = _
    rw [restored, stack]

/-- The run of `memcpy`, overlapping operands included. -/
theorem memcpy_runs {csp : Word} (short : n < 2 ^ 31)
    (called : Called csp m [d, s, BitVec.ofNat 32 n]) (clear : Clear d n csp)
    (pushClear : Clear d n (m.sp - 4)) : ∃ after, Completes (memcpy csp) m after ∧
      Returned csp d m after ∧ after.mem = forward n d s (pushed m) := by
  obtain ⟨entered, result, frame, sp⟩ := memcpy_entered called
  obtain ⟨last, moving, run⟩ := blockRoutine_runs (memcpy_rounds _ _) short entered rfl rfl rfl rfl rfl
    rfl rfl rfl rfl
  have rest : last.mem = forward n d s (pushed m) := moving.rest
  obtain ⟨returned, same⟩ := leave_returned called.pointer clear pushClear
    (fun b outside => by rw [rest, forward_outside outside]) (moving.result.trans result)
    (moving.frame.trans frame) (moving.sp.trans sp)
  exact ⟨_, run, returned, same.trans rest⟩

theorem memset_runs {csp x : Word} (short : n < 2 ^ 31)
    (called : Called csp m [d, x, BitVec.ofNat 32 n]) (clear : Clear d n csp)
    (pushClear : Clear d n (m.sp - 4)) : ∃ after, Completes (memset csp) m after ∧
      Returned csp d m after ∧ after.mem = filled (x.setWidth 8) d n (pushed m) := by
  obtain ⟨entered, result, frame, sp⟩ := memset_entered called
  obtain ⟨last, filling, run⟩ := blockRoutine_runs (memset_rounds _ _ _) short entered rfl rfl rfl rfl
    rfl rfl rfl rfl rfl
  have rest : last.mem = filled (x.setWidth 8) d n (pushed m) :=
    (show last.mem = fill (x.setWidth 8) n d (pushed m) from filling.rest).trans
      (fill_filled _ (by omega))
  obtain ⟨returned, same⟩ := leave_returned called.pointer clear pushClear
    (fun b outside => by rw [rest, filled, if_neg (by omega)]) (filling.result.trans result)
    (filling.frame.trans frame) (filling.sp.trans sp)
  exact ⟨_, run, returned, same.trans rest⟩

/-- The bytes of the destination are those given; all others are as before, but for the word below
the stack pointer. -/
structure Wrote (d : Word) (n : Nat) (bytes : Nat → Byte) (m after : Machine) : Prop where
  destination : ∀ k < n, after.mem (d + BitVec.ofNat 32 k) = bytes k
  elsewhere : ∀ b : Word, n ≤ (b - d).toNat → 4 ≤ (b - (m.sp - 4)).toNat → after.mem b = m.mem b

/-- `memcpy` is right wherever it is called for two ranges that do not overlap. -/
def MemcpyCopies (d s : Word) (n : Nat) : Prop :=
  ∀ csp m, Called csp m [d, s, BitVec.ofNat 32 n] → Clear d n csp → Clear d n (m.sp - 4) →
    Clear s n (m.sp - 4) → n ≤ (d - s).toNat → n ≤ (s - d).toNat →
    ∃ after, Completes (memcpy csp) m after ∧ Returned csp d m after ∧
      Wrote d n (fun k => m.mem (s + BitVec.ofNat 32 k)) m after

/-- `memset` is right wherever it is called. -/
def MemsetFills (d : Word) (n : Nat) : Prop :=
  ∀ csp m x, Called csp m [d, x, BitVec.ofNat 32 n] → Clear d n csp → Clear d n (m.sp - 4) →
    ∃ after, Completes (memset csp) m after ∧ Returned csp d m after ∧
      Wrote d n (fun _ => x.setWidth 8) m after

theorem memcpy_copies (short : n < 2 ^ 31) : MemcpyCopies d s n := by
  intro csp m called clear pushClear sourceClear ahead _
  obtain ⟨after, run, returned, memory⟩ := memcpy_runs short called clear pushClear
  rw [forward_moved _ (by omega) (.inr ahead)] at memory
  refine ⟨after, run, returned, fun k inside => ?_, fun b outside away => ?_⟩
  · have kept : 4 ≤ (s + BitVec.ofNat 32 k - (m.sp - 4)).toNat := by
      by_contra pushed
      have := sourceClear _ (Nat.lt_of_not_le pushed)
      rw [toNat_offset s (by omega)] at this
      omega
    rw [memory, moved, toNat_offset d (by omega), if_pos inside, add_sub_cancel_left, pushed, writeWord,
      if_neg (by omega)]
  · rw [memory, moved, if_neg (by omega), pushed, writeWord, if_neg (by omega)]

theorem memset_fills (short : n < 2 ^ 31) : MemsetFills d n := by
  intro csp m x called clear pushClear
  obtain ⟨after, run, returned, memory⟩ := memset_runs short called clear pushClear
  refine ⟨after, run, returned, fun k inside => ?_, fun b outside away => ?_⟩
  · rw [memory, filled, toNat_offset d (by omega), if_pos inside]
  · rw [memory, filled, if_neg (by omega), pushed, writeWord, if_neg (by omega)]

/-- `memcpy` and `memset` are right, and `memmove` is right for every memory exactly if both ranges
begin on the same side of `0x80000000` or do not overlap, or if a single word is moved up. -/
theorem block_routines_right_iff {d s : Word} {n : Nat} (short : n < 2 ^ 31)
    (fits : d.toNat + n ≤ 2 ^ 32) (sourceFits : s.toNat + n ≤ 2 ^ 32) :
    (MemcpyCopies d s n ∧ MemsetFills d n ∧ ∀ mem, memmove d s n mem = moved d s n mem) ↔
      d.msb = s.msb ∨ n ≤ distance d s ∨ n = 4 ∧ s.toNat < d.toNat := by
  rw [← memmove_moved_iff short fits sourceFits]
  exact ⟨fun right => right.2.2, fun moves => ⟨memcpy_copies short, memset_fills short, moves⟩⟩

/-- Eight bytes moved up by two, below `0x80000000`. -/
theorem block_routines_right_low :
    (MemcpyCopies 0x1002 0x1000 8 ∧ MemsetFills 0x1002 8 ∧
      ∀ mem, memmove 0x1002 0x1000 8 mem = moved 0x1002 0x1000 8 mem) ↔
      (0x1002#32).msb = (0x1000#32).msb ∨ 8 ≤ distance 0x1002 0x1000 ∨
        8 = 4 ∧ (0x1000#32).toNat < (0x1002#32).toNat :=
  block_routines_right_iff (by decide) (by decide) (by decide)

/-- Eight bytes moved up by four, over `0x80000000`: the pointers are compared as signed numbers, and
the copy runs forward into its own source. -/
theorem memmove_over_sign_wrong :
    memmove 0x80000000 0x7ffffffc 8 (marked 0x80000000) 0x80000004 ≠
      moved 0x80000000 0x7ffffffc 8 (marked 0x80000000) 0x80000004 := by
  decide

end JsEmulator.Toolchain.BlockMoves
