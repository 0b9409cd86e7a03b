import Mathlib.Data.BitVec
import Mathlib.Tactic.SplitIfs

/-!
# A memory of bytes read and written by words

A byte stands at every address of 32 bits. A word is read and written at any address, its low byte
first; an address after the last is the first one.
-/

namespace JsEmulator.Library.WordMemory

abbrev Byte := BitVec 8
abbrev Word := BitVec 32

/-- Eight registers have numerals. -/
instance neZeroEight : NeZero 8 := ⟨by decide⟩

instance lawfulBEqByte : LawfulBEq Byte := inferInstance

/-- The word at an address, its low byte first. -/
def readWord (mem : Word → Byte) (a : Word) : Word := mem (a + 3) ++ mem (a + 2) ++ mem (a + 1) ++ mem a

def writeWord (mem : Word → Byte) (a x : Word) : Word → Byte :=
  fun b => if (b - a).toNat < 4 then x.extractLsb' (8 * (b - a).toNat) 8 else mem b

/-- The words at two addresses have no byte in common. -/
def Apart (a c : Word) : Prop := ∀ b : Word, ¬ ((b - a).toNat < 4 ∧ (b - c).toNat < 4)

theorem byte_readWord (mem : Word → Byte) (a : Word) {i : Nat} (inside : i < 4) :
    (readWord mem a).extractLsb' (8 * i) 8 = mem (a + BitVec.ofNat 32 i) := by
  apply BitVec.eq_of_getLsbD_eq
  intro j small
  simp only [readWord, BitVec.getLsbD_extractLsb', BitVec.getLsbD_append, small, decide_true,
    Bool.true_and]
  obtain rfl | rfl | rfl | rfl : i = 0 ∨ i = 1 ∨ i = 2 ∨ i = 3 := by omega
  · rw [if_pos (by omega), Nat.mul_zero, Nat.zero_add]
    simp
  · rw [if_neg (by omega), if_pos (by omega), Nat.add_sub_cancel_left]
    rfl
  · rw [if_neg (by omega), if_neg (by omega), if_pos (by omega)]
    congr 1
    omega
  · rw [if_neg (by omega), if_neg (by omega), if_neg (by omega)]
    congr 1
    omega

theorem toNat_offset (a : Word) {i : Nat} (inside : i < 4) : (a + BitVec.ofNat 32 i - a).toNat = i := by
  rw [BitVec.add_comm, BitVec.add_sub_cancel, BitVec.toNat_ofNat]
  omega

/-- Words are equal if their bytes are. -/
theorem word_ext {x y : Word} (bytes : ∀ i < 4, x.extractLsb' (8 * i) 8 = y.extractLsb' (8 * i) 8) :
    x = y := by
  apply BitVec.eq_of_getLsbD_eq
  intro j small
  have byte := congrArg (fun z => z.getLsbD (j % 8)) (bytes (j / 8) (by omega))
  simp only [BitVec.getLsbD_extractLsb', show j % 8 < 8 by omega, decide_true, Bool.true_and,
    Nat.div_add_mod] at byte
  exact byte

theorem readWord_writeWord (mem : Word → Byte) (a x : Word) : readWord (writeWord mem a x) a = x := by
  apply word_ext
  intro i inside
  have offset := toNat_offset a inside
  rw [byte_readWord _ _ inside, writeWord, offset, if_pos inside]

theorem writeWord_readWord (mem : Word → Byte) (a : Word) : writeWord mem a (readWord mem a) = mem := by
  funext b
  unfold writeWord
  split_ifs with inside
  · rw [byte_readWord _ _ inside, BitVec.ofNat_toNat]
    simp
  · rfl

theorem writeWord_writeWord (mem : Word → Byte) (a x y : Word) :
    writeWord (writeWord mem a x) a y = writeWord mem a y := by
  funext b
  unfold writeWord
  split_ifs <;> rfl

theorem writeWord_comm (mem : Word → Byte) {a c : Word} (apart : Apart a c) (x y : Word) :
    writeWord (writeWord mem c y) a x = writeWord (writeWord mem a x) c y := by
  funext b
  have := apart b
  unfold writeWord
  split_ifs <;> first | rfl | omega

/-- A word depends on its four bytes. -/
theorem readWord_congr {mem mem' : Word → Byte} {a : Word}
    (same : ∀ i < 4, mem (a + BitVec.ofNat 32 i) = mem' (a + BitVec.ofNat 32 i)) :
    readWord mem a = readWord mem' a := by
  apply word_ext
  intro i inside
  rw [byte_readWord _ _ inside, byte_readWord _ _ inside, same i inside]

theorem readWord_apart (mem : Word → Byte) {a c : Word} (apart : Apart a c) (y : Word) :
    readWord (writeWord mem c y) a = readWord mem a := by
  refine readWord_congr fun i inside => ?_
  have offset := toNat_offset a inside
  have outside := apart (a + BitVec.ofNat 32 i)
  rw [writeWord, if_neg (by omega)]

theorem readWord_far {mem : Word → Byte} {a c y : Word} (after : 4 ≤ (a - c).toNat)
    (before : 4 ≤ (c - a).toNat) : readWord (writeWord mem c y) a = readWord mem a := by
  refine readWord_apart mem (fun b => ?_) y
  bv_omega

end JsEmulator.Library.WordMemory
