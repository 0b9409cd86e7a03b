import JsEmulator.Custom32.Instructions
import JsEmulator.Library.LabelledCode
import JsEmulator.Library.WordMemory

/-!
# The runtime assembly

The routines that `cc.ts` links into every program are written by hand: `memcpy` and `memset` move
words while they can and then bytes. A caller leaves the arguments on the software stack, whose
pointer is the word `__csp`, and its return address on the hardware stack; a routine ends where its
`RET` stands.

The machine is the processor of `cpu.ts` over one memory: the registers, the flags and the stack
pointer. The run of a routine is compared with what it does to the memory, word by word and byte by
byte, so that overlapping operands are covered as well.
-/

namespace JsEmulator.Toolchain.RuntimeAssembly

open JsEmulator.Custom32 (setAddFlags setSubFlags setZS hasFlag signedLess zf)
open JsEmulator.Library.LabelledCode
open JsEmulator.Library.WordMemory

/-! ## The machine -/

abbrev Memory := Word → Byte

structure Machine where
  regs : Fin 8 → Word
  sp : Word
  flags : Word
  mem : Memory

namespace Machine

def setReg (m : Machine) (r : Fin 8) (x : Word) : Machine :=
  { m with regs := Function.update m.regs r x }

end Machine

/-- The instructions that the routines are written with. -/
inductive Instr where
  | mov (d : Fin 8) (x : Word)
  | movr (d s : Fin 8)
  | load (d : Fin 8) (a : Word)
  | store (s : Fin 8) (a : Word)
  | loadr (d a : Fin 8)
  | storer (a s : Fin 8)
  | lb (d a : Fin 8)
  | sb (a s : Fin 8)
  | add (d s : Fin 8)
  | sub (d s : Fin 8)
  | mul (d s : Fin 8)
  | and (d s : Fin 8)
  | inc (d : Fin 8)
  | dec (d : Fin 8)
  | cmp (a b : Fin 8)
  | push (s : Fin 8)
  | pop (d : Fin 8)

/-- The cases of `step` in `cpu.ts`. -/
def Instr.run (i : Instr) (m : Machine) : Machine :=
  match i with
  | .mov d x => m.setReg d x
  | .movr d s => m.setReg d (m.regs s)
  | .load d a => m.setReg d (readWord m.mem a)
  | .store s a => { m with mem := writeWord m.mem a (m.regs s) }
  | .loadr d a => m.setReg d (readWord m.mem (m.regs a))
  | .storer a s => { m with mem := writeWord m.mem (m.regs a) (m.regs s) }
  | .lb d a => m.setReg d ((m.mem (m.regs a)).setWidth 32)
  | .sb a s => { m with mem := Function.update m.mem (m.regs a) ((m.regs s).setWidth 8) }
  | .add d s =>
    { m.setReg d (m.regs d + m.regs s) with
      flags := setAddFlags m.flags (m.regs d) (m.regs s) (m.regs d + m.regs s) }
  | .sub d s =>
    { m.setReg d (m.regs d - m.regs s) with
      flags := setSubFlags m.flags (m.regs d) (m.regs s) (m.regs d - m.regs s) }
  | .mul d s => { m.setReg d (m.regs d * m.regs s) with flags := setZS m.flags (m.regs d * m.regs s) }
  | .and d s =>
    { m.setReg d (m.regs d &&& m.regs s) with flags := setZS m.flags (m.regs d &&& m.regs s) }
  | .inc d =>
    { m.setReg d (m.regs d + 1) with flags := setAddFlags m.flags (m.regs d) 1 (m.regs d + 1) }
  | .dec d =>
    { m.setReg d (m.regs d - 1) with flags := setSubFlags m.flags (m.regs d) 1 (m.regs d - 1) }
  | .cmp a b => { m with flags := setSubFlags m.flags (m.regs a) (m.regs b) (m.regs a - m.regs b) }
  | .push s => { m with sp := m.sp - 4, mem := writeWord m.mem (m.sp - 4) (m.regs s) }
  | .pop d => { m.setReg d (readWord m.mem m.sp) with sp := m.sp + 4 }

/-- `JL`. -/
def jl (m : Machine) : Bool := signedLess m.flags

/-- `JZ`. -/
def jz (m : Machine) : Bool := hasFlag m.flags zf

/-- `JNZ`. -/
def jnz (m : Machine) : Bool := !hasFlag m.flags zf

/-- What instructions do, one after the other. -/
def effects (instrs : List Instr) : List (Machine → Machine) := instrs.map Instr.run

/-! ## The routines -/

/-- The argument of that number is loaded through R1, with R6 as the pointer of the software
stack. -/
def argument (register : Fin 8) (number : Nat) : List Instr :=
  [.movr 1 6, .mov 7 (BitVec.ofNat 32 (4 * number)), .sub 1 7, .loadr register 1]

def enter (csp : Word) : List Instr := [.push 6, .load 6 csp]

def leave (csp : Word) : List Instr := [.store 6 csp, .pop 6]

/-- A word is moved from R3 to R2. -/
def wordMove : List Instr := [.loadr 5 3, .storer 2 5, .add 3 7, .add 2 7]

def memcpyEntry (csp : Word) : List Instr :=
  enter csp ++ argument 2 1 ++ argument 3 2 ++ argument 4 3 ++ [.movr 0 2, .mov 7 4, .mov 1 16]

def memcpyChunk : List Instr := wordMove ++ wordMove ++ wordMove ++ wordMove ++ [.sub 4 1]

def memcpyWord : List Instr := [.loadr 5 3, .storer 2 5, .add 2 7, .add 3 7, .sub 4 7]

def memcpyByte : List Instr := [.lb 5 3, .sb 2 5, .inc 2, .inc 3, .dec 4]

/-- The labels of a routine: `memcpy_chunk`, `memcpy_word`, `memcpy_byte` and `memcpy_done`, and
those of `memset` alike. -/
def chunk : Nat := 0
def word : Nat := 1
def byte : Nat := 2
def done : Nat := 3

/-- Bytes are moved sixteen, four and one at a time, for the number of bytes in R4. -/
def blockRoutine (csp : Word) (entry chunkBody wordBody byteBody : List Instr) :
    List (Line Machine) :=
  plain (effects entry) ++
    (loop chunk word (effects [.cmp 4 1]) jl (effects chunkBody) ++
    (loop word byte (effects [.cmp 4 7]) jl (effects wordBody) ++
    (loop byte done (effects [.mov 7 0, .cmp 4 7]) jz (effects byteBody) ++
    (.label done :: plain (effects (leave csp))))))

def memcpy (csp : Word) : List (Line Machine) :=
  blockRoutine csp (memcpyEntry csp) memcpyChunk memcpyWord memcpyByte

def memsetEntry (csp : Word) : List Instr :=
  enter csp ++ argument 2 1 ++ argument 3 2 ++ argument 4 3 ++
    [.movr 0 2, .mov 7 255, .and 3 7, .mov 7 16843009, .movr 5 3, .mul 5 7, .mov 7 4, .mov 1 16]

def memsetChunk : List Instr :=
  [.storer 2 5, .add 2 7, .storer 2 5, .add 2 7, .storer 2 5, .add 2 7, .storer 2 5, .add 2 7,
    .sub 4 1]

def memsetWord : List Instr := [.storer 2 5, .add 2 7, .sub 4 7]

def memsetByte : List Instr := [.sb 2 3, .inc 2, .dec 4]

def memset (csp : Word) : List (Line Machine) :=
  blockRoutine csp (memsetEntry csp) memsetChunk memsetWord memsetByte

/-- The labels `strcmp_loop`, `strcmp_diff` and `strcmp_eq`. -/
def strcmpLoop : Nat := 0
def strcmpDiff : Nat := 1
def strcmpEq : Nat := 2

def strcmp (csp : Word) : List (Line Machine) :=
  plain (effects (enter csp ++ argument 2 1 ++ argument 3 2)) ++
    (.label strcmpLoop :: (plain (effects [.lb 4 2, .lb 5 3, .cmp 4 5]) ++
    (.jump jnz strcmpDiff :: (plain (effects [.mov 7 0, .cmp 4 7]) ++
    (.jump jz strcmpEq :: (plain (effects [.inc 2, .inc 3]) ++
    (.jump (fun _ => true) strcmpLoop :: .label strcmpDiff ::
      (plain (effects [.movr 0 4, .sub 0 5]) ++
    (.jump (fun _ => true) done :: .label strcmpEq :: (plain (effects [.mov 0 0]) ++
    (.label done :: plain (effects (leave csp)))))))))))))

/-! ## A run of a routine -/

variable {m : Machine} {csp : Word} {r n : Nat}

theorem slt_small {k : Nat} (small : r < 2 ^ 31) (low : k < 2 ^ 31) :
    (BitVec.ofNat 32 r).slt (BitVec.ofNat 32 k) = decide (r < k) := by
  have value : ∀ {x : Nat}, x < 2 ^ 31 → (BitVec.ofNat 32 x).toInt = x := by
    intro x bound
    have unsigned : (BitVec.ofNat 32 x).toNat = x := Nat.mod_eq_of_lt (by omega)
    rw [BitVec.toInt_eq_toNat_of_lt (by omega), unsigned]
  rw [BitVec.slt_eq_decide, value small, value low]
  simp only [Int.ofNat_lt]

theorem ofNat_sub_small (r k : Nat) :
    BitVec.ofNat 32 (r + k) - BitVec.ofNat 32 k = BitVec.ofNat 32 r := by
  rw [BitVec.ofNat_add, BitVec.add_sub_cancel]

/-- What is left to do, and the registers that the two longer loops count with. -/
structure Counting (Left : Nat → Machine → Prop) (r : Nat) (m : Machine) : Prop where
  left : Left r m
  count : m.regs 4 = BitVec.ofNat 32 r
  four : m.regs 7 = 4#32
  sixteen : m.regs 1 = 16#32

/-- Each body does its part of what is left. -/
structure Rounds (Left : Nat → Machine → Prop) (chunkBody wordBody byteBody : List Instr) : Prop where
  chunks : ∀ r m, Counting Left (r + 16) m →
    Counting Left r (effectOf (effects chunkBody) (effectOf (effects [.cmp 4 1]) m))
  words : ∀ r m, Counting Left (r + 4) m →
    Counting Left r (effectOf (effects wordBody) (effectOf (effects [.cmp 4 7]) m))
  bytes : ∀ r m, r < 3 → Left (r + 1) m → m.regs 4 = BitVec.ofNat 32 (r + 1) →
    Left r (effectOf (effects byteBody) (effectOf (effects [.mov 7 0, .cmp 4 7]) m)) ∧
      (effectOf (effects byteBody) (effectOf (effects [.mov 7 0, .cmp 4 7]) m)).regs 4 =
        BitVec.ofNat 32 r
  idle : ∀ m, Left 0 m → Left 0 (effectOf (effects [.mov 7 0, .cmp 4 7]) m)
  compared : ∀ r b m, Left r m → Left r (effectOf (effects [.cmp 4 b]) m)

theorem jl_cmp {b : Fin 8} {k : Nat} (count : m.regs 4 = BitVec.ofNat 32 r)
    (limit : m.regs b = BitVec.ofNat 32 k) (small : r < 2 ^ 31) (low : k < 2 ^ 31) :
    jl (effectOf (effects [.cmp 4 b]) m) = decide (r < k) := by
  have compares : jl (effectOf (effects [.cmp 4 b]) m) = (m.regs 4).slt (m.regs b) :=
    JsEmulator.Custom32.signedLess_setSubFlags _ _ _
  rw [compares, count, limit, slt_small small low]

theorem jz_cmp (count : m.regs 4 = BitVec.ofNat 32 r) (small : r < 2 ^ 31) :
    jz (effectOf (effects [.mov 7 0, .cmp 4 7]) m) = decide (r = 0) := by
  have compares : jz (effectOf (effects [.mov 7 0, .cmp 4 7]) m) = decide (m.regs 4 - 0 = 0) :=
    JsEmulator.Custom32.hasFlag_setSubFlags _ _ _ _
  have value : BitVec.ofNat 32 r = 0#32 ↔ r = 0 := by
    rw [← BitVec.toNat_inj, BitVec.toNat_ofNat, BitVec.toNat_ofNat]
    omega
  rw [compares, count]
  simp only [BitVec.ofNat_eq_ofNat, BitVec.sub_zero, value]

theorem Counting.compared {Left : Nat → Machine → Prop} {chunkBody wordBody byteBody : List Instr}
    (rounds : Rounds Left chunkBody wordBody byteBody) (b : Fin 8) (counting : Counting Left r m) :
    Counting Left r (effectOf (effects [.cmp 4 b]) m) :=
  ⟨rounds.compared r b m counting.left, counting.count, counting.four, counting.sixteen⟩

/-- A routine runs to its end, and nothing is left there. -/
theorem blockRoutine_runs {entry chunkBody wordBody byteBody : List Instr} {code : List (Line Machine)}
    {Left : Nat → Machine → Prop} (rounds : Rounds Left chunkBody wordBody byteBody)
    (small : n < 2 ^ 31) (entered : Counting Left n (effectOf (effects entry) m))
    (built : code = blockRoutine csp entry chunkBody wordBody byteBody)
    {atChunk atWord atByte atDone : Nat} (entryEnd : 0 + (plain (effects entry)).length = atChunk)
    (chunkEnd : atChunk +
      (loop chunk word (effects [.cmp 4 1]) jl (effects chunkBody)).length = atWord)
    (wordEnd : atWord +
      (loop word byte (effects [.cmp 4 7]) jl (effects wordBody)).length = atByte)
    (byteEnd : atByte +
      (loop byte done (effects [.mov 7 0, .cmp 4 7]) jz (effects byteBody)).length = atDone)
    (chunkAt : target code chunk = some atChunk) (wordAt : target code word = some atWord)
    (byteAt : target code byte = some atByte) (doneAt : target code done = some atDone) :
    ∃ last, Left 0 last ∧ Completes code m (effectOf (effects (leave csp)) last) := by
  subst entryEnd chunkEnd wordEnd byteEnd
  have whole : Placed code 0 (blockRoutine csp entry chunkBody wordBody byteBody) :=
    ⟨[], [], by simp [built], rfl⟩
  have enters := @runs_plain _ _ _ m _ whole.left
  have chunkPlaced := whole.right
  have wordPlaced := chunkPlaced.right
  have bytePlaced := wordPlaced.right
  have endPlaced := bytePlaced.right
  -- sixteen bytes a round
  obtain ⟨chunked, ⟨chunksDone, -⟩, chunkRun⟩ := @runs_loop _ _ _ _ _ _ _ _
    (fun k m => Counting Left (16 * k + n % 16) m ∧ 16 * k + n % 16 ≤ n)
    chunkPlaced.left chunkAt wordAt
    (fun k m ⟨counting, bound⟩ => by
      rw [Nat.mul_add, Nat.add_right_comm] at counting bound
      exact ⟨(jl_cmp counting.count counting.sixteen (by omega) (by decide)).trans
        (decide_eq_false (by omega)), rounds.chunks _ _ counting, by omega⟩)
    (fun m ⟨counting, bound⟩ =>
      (jl_cmp counting.count counting.sixteen (by omega) (by decide)).trans
        (decide_eq_true (by omega)))
    (n / 16) (effectOf (effects entry) m) ⟨by rw [Nat.div_add_mod]; exact entered, by omega⟩
  -- four bytes a round
  have parts : 16 * 0 + n % 16 = 4 * (n % 16 / 4) + n % 4 := by omega
  rw [parts] at chunksDone
  obtain ⟨worded, ⟨wordsDone, -⟩, wordRun⟩ := @runs_loop _ _ _ _ _ _ _ _
    (fun k m => Counting Left (4 * k + n % 4) m ∧ 4 * k + n % 4 ≤ n)
    wordPlaced.left wordAt byteAt
    (fun k m ⟨counting, bound⟩ => by
      rw [Nat.mul_add, Nat.add_right_comm] at counting bound
      exact ⟨(jl_cmp counting.count counting.four (by omega) (by decide)).trans
        (decide_eq_false (by omega)), rounds.words _ _ counting, by omega⟩)
    (fun m ⟨counting, bound⟩ =>
      (jl_cmp counting.count counting.four (by omega) (by decide)).trans
        (decide_eq_true (by omega)))
    (n % 16 / 4) _ ⟨chunksDone.compared rounds 1, by omega⟩
  -- the bytes that remain
  have tail : 4 * 0 + n % 4 = n % 4 := by omega
  rw [tail] at wordsDone
  have begun := wordsDone.compared rounds 7
  obtain ⟨last, ⟨ended, -, -⟩, byteRun⟩ := @runs_loop _ _ _ _ _ _ _ _
    (fun k m => Left k m ∧ m.regs 4 = BitVec.ofNat 32 k ∧ k < 4)
    bytePlaced.left byteAt doneAt
    (fun k m ⟨left, count, bound⟩ => by
      obtain ⟨kept, counted⟩ := rounds.bytes k m (by omega) left count
      exact ⟨(jz_cmp count (by omega)).trans (decide_eq_false (by omega)), kept, counted, by omega⟩)
    (fun m ⟨left, count, bound⟩ => (jz_cmp count (by omega)).trans (decide_eq_true rfl))
    (n % 4) _ ⟨begun.left, begun.count, by omega⟩
  have leaves := @runs_plain _ _ _ (effectOf (effects [.mov 7 0, .cmp 4 7]) last) _ endPlaced.tail
  refine ⟨_, rounds.idle last ended, ?_⟩
  have run := enters.trans (chunkRun.trans (wordRun.trans (byteRun.trans
    ((runs_label endPlaced.line).trans leaves))))
  have size : code.length =
      0 + (plain (effects entry)).length +
        (loop chunk word (effects [.cmp 4 1]) jl (effects chunkBody)).length +
        (loop word byte (effects [.cmp 4 7]) jl (effects wordBody)).length +
        (loop byte done (effects [.mov 7 0, .cmp 4 7]) jz (effects byteBody)).length + 1 +
        (plain (effects (leave csp))).length := by
    simp only [built, blockRoutine, List.length_append, List.length_cons]
    omega
  rw [Completes, size]
  exact run

/-! ## What a run does to the memory -/

/-- The moves of `memcpy`: words from the first on, and the bytes that remain. -/
def forward : Nat → Word → Word → Memory → Memory
  | n + 4, d, s, mem => forward n (d + 4) (s + 4) (writeWord mem d (readWord mem s))
  | n + 1, d, s, mem => forward n (d + 1) (s + 1) (Function.update mem d (mem s))
  | 0, _, _, mem => mem

/-- The stores of `memset`. -/
def fill (value : Byte) : Nat → Word → Memory → Memory
  | n + 4, d, mem => fill value n (d + 4) (writeWord mem d (value.setWidth 32 * 16843009))
  | n + 1, d, mem => fill value n (d + 1) (Function.update mem d value)
  | 0, _, mem => mem

theorem forward_byte (few : r < 3) (d s : Word) (mem : Memory) :
    forward (r + 1) d s mem = forward r (d + 1) (s + 1) (Function.update mem d (mem s)) := by
  obtain rfl | rfl | rfl : r = 0 ∨ r = 1 ∨ r = 2 := by omega
  all_goals rfl

theorem fill_byte (value : Byte) (few : r < 3) (d : Word) (mem : Memory) :
    fill value (r + 1) d mem = fill value r (d + 1) (Function.update mem d value) := by
  obtain rfl | rfl | rfl : r = 0 ∨ r = 1 ∨ r = 2 := by omega
  all_goals rfl

/-- What is the same at the end of a routine as after its entry. -/
structure Kept (entry m : Machine) : Prop where
  result : m.regs 0 = entry.regs 0
  frame : m.regs 6 = entry.regs 6
  sp : m.sp = entry.sp

/-- The bytes that `memcpy` has still to move. -/
structure Moving (entry : Machine) (goal : Memory) (r : Nat) (m : Machine) : Prop extends
    Kept entry m where
  rest : forward r (m.regs 2) (m.regs 3) m.mem = goal

/-- A word is moved; the registers that count stay. -/
theorem wordMove_moving {entry m : Machine} {goal : Memory} {r : Nat}
    (moving : Moving entry goal (r + 4) m) (four : m.regs 7 = 4#32) :
    ∃ next, effectOf (effects wordMove) m = next ∧ Moving entry goal r next ∧
      next.regs 7 = 4#32 ∧ next.regs 4 = m.regs 4 ∧ next.regs 1 = m.regs 1 := by
  refine ⟨_, rfl, ⟨⟨moving.result, moving.frame, moving.sp⟩, ?_⟩, four, rfl, rfl⟩
  show forward r (m.regs 2 + m.regs 7) (m.regs 3 + m.regs 7)
    (writeWord m.mem (m.regs 2) (readWord m.mem (m.regs 3))) = goal
  rw [four]
  exact moving.rest

theorem effects_append (first second : List Instr) (m : Machine) :
    effectOf (effects (first ++ second)) m =
      effectOf (effects second) (effectOf (effects first) m) := by
  rw [effects, List.map_append, effectOf, List.foldl_append]
  rfl

theorem memcpy_rounds (entry : Machine) (goal : Memory) :
    Rounds (Moving entry goal) memcpyChunk memcpyWord memcpyByte where
  chunks := by
    intro r m counting
    have compared : Moving entry goal (r + 16) (effectOf (effects [.cmp 4 1]) m) :=
      ⟨⟨counting.left.result, counting.left.frame, counting.left.sp⟩, counting.left.rest⟩
    obtain ⟨one, firstMove, first, four₁, count₁, sixteen₁⟩ :=
      @wordMove_moving _ _ _ (r + 12) compared counting.four
    obtain ⟨two, secondMove, second, four₂, count₂, sixteen₂⟩ :=
      @wordMove_moving _ _ _ (r + 8) first four₁
    obtain ⟨three, thirdMove, third, four₃, count₃, sixteen₃⟩ :=
      @wordMove_moving _ _ _ (r + 4) second four₂
    obtain ⟨all, fourthMove, fourth, four₄, count₄, sixteen₄⟩ := wordMove_moving third four₃
    have count : all.regs 4 = BitVec.ofNat 32 (r + 16) := by
      rw [count₄, count₃, count₂, count₁]
      exact counting.count
    have sixteen : all.regs 1 = 16#32 := by
      rw [sixteen₄, sixteen₃, sixteen₂, sixteen₁]
      exact counting.sixteen
    rw [memcpyChunk, effects_append, effects_append, effects_append, effects_append, firstMove,
      secondMove, thirdMove, fourthMove]
    refine ⟨⟨⟨fourth.result, fourth.frame, fourth.sp⟩, fourth.rest⟩, ?_, four₄, sixteen⟩
    show all.regs 4 - all.regs 1 = _
    rw [count, sixteen, ofNat_sub_small]
  words := by
    intro r m counting
    refine ⟨⟨⟨counting.left.result, counting.left.frame, counting.left.sp⟩, ?_⟩, ?_, ?_, ?_⟩
    · show forward r (m.regs 2 + m.regs 7) (m.regs 3 + m.regs 7)
        (writeWord m.mem (m.regs 2) (readWord m.mem (m.regs 3))) = goal
      rw [counting.four]
      exact counting.left.rest
    · show m.regs 4 - m.regs 7 = _
      rw [counting.count, counting.four, ofNat_sub_small]
    · exact counting.four
    · exact counting.sixteen
  bytes := by
    intro r m few moving count
    refine ⟨⟨⟨moving.result, moving.frame, moving.sp⟩, ?_⟩, ?_⟩
    · have rest := moving.rest
      rw [forward_byte few] at rest
      show forward r (m.regs 2 + 1) (m.regs 3 + 1)
        (Function.update m.mem (m.regs 2) (((m.mem (m.regs 3)).setWidth 32).setWidth 8)) = goal
      rw [BitVec.setWidth_setWidth_of_le _ (by decide), BitVec.setWidth_eq]
      exact rest
    · show m.regs 4 - 1 = _
      rw [count]
      exact ofNat_sub_small r 1
  idle := fun m moving => ⟨⟨moving.result, moving.frame, moving.sp⟩, moving.rest⟩
  compared := fun r b m moving => ⟨⟨moving.result, moving.frame, moving.sp⟩, moving.rest⟩

/-- The bytes that `memset` has still to store. -/
structure Filling (entry : Machine) (value : Byte) (goal : Memory) (r : Nat) (m : Machine) : Prop
    extends Kept entry m where
  low : m.regs 3 = value.setWidth 32
  word : m.regs 5 = value.setWidth 32 * 16843009
  rest : fill value r (m.regs 2) m.mem = goal

theorem memset_rounds (entry : Machine) (value : Byte) (goal : Memory) :
    Rounds (Filling entry value goal) memsetChunk memsetWord memsetByte where
  chunks := by
    intro r m counting
    refine ⟨⟨⟨counting.left.result, counting.left.frame, counting.left.sp⟩, counting.left.low,
      counting.left.word, ?_⟩, ?_, counting.four, counting.sixteen⟩
    · show fill value r (m.regs 2 + m.regs 7 + m.regs 7 + m.regs 7 + m.regs 7)
        (writeWord (writeWord (writeWord (writeWord m.mem (m.regs 2) (m.regs 5))
          (m.regs 2 + m.regs 7) (m.regs 5)) (m.regs 2 + m.regs 7 + m.regs 7) (m.regs 5))
          (m.regs 2 + m.regs 7 + m.regs 7 + m.regs 7) (m.regs 5)) = goal
      rw [counting.four, counting.left.word]
      exact counting.left.rest
    · show m.regs 4 - m.regs 1 = _
      rw [counting.count, counting.sixteen, ofNat_sub_small]
  words := by
    intro r m counting
    refine ⟨⟨⟨counting.left.result, counting.left.frame, counting.left.sp⟩, counting.left.low,
      counting.left.word, ?_⟩, ?_, counting.four, counting.sixteen⟩
    · show fill value r (m.regs 2 + m.regs 7) (writeWord m.mem (m.regs 2) (m.regs 5)) = goal
      rw [counting.four, counting.left.word]
      exact counting.left.rest
    · show m.regs 4 - m.regs 7 = _
      rw [counting.count, counting.four, ofNat_sub_small]
  bytes := by
    intro r m few filling count
    refine ⟨⟨⟨filling.result, filling.frame, filling.sp⟩, filling.low, filling.word, ?_⟩, ?_⟩
    · have rest := filling.rest
      rw [fill_byte value few] at rest
      show fill value r (m.regs 2 + 1) (Function.update m.mem (m.regs 2) ((m.regs 3).setWidth 8)) = goal
      rw [filling.low, BitVec.setWidth_setWidth_of_le _ (by decide), BitVec.setWidth_eq]
      exact rest
    · show m.regs 4 - 1 = _
      rw [count]
      exact ofNat_sub_small r 1
  idle := fun m filling =>
    ⟨⟨filling.result, filling.frame, filling.sp⟩, filling.low, filling.word, filling.rest⟩
  compared := fun r b m filling =>
    ⟨⟨filling.result, filling.frame, filling.sp⟩, filling.low, filling.word, filling.rest⟩

/-! ## Calls -/

/-- A call as a routine finds it: the words of its arguments are below the pointer of the software
stack, and the word that the routine pushes is none of them and not `__csp`. -/
structure Called (csp : Word) (m : Machine) (arguments : List Word) : Prop where
  argument : ∀ k x, arguments[k]? = some x →
    readWord m.mem (readWord m.mem csp - BitVec.ofNat 32 (4 * (k + 1))) = x ∧
      Library.WordMemory.Apart (readWord m.mem csp - BitVec.ofNat 32 (4 * (k + 1))) (m.sp - 4)
  pointer : Library.WordMemory.Apart csp (m.sp - 4)

/-- The memory with the word that the routine pushes. -/
def pushed (m : Machine) : Memory := writeWord m.mem (m.sp - 4) (m.regs 6)

theorem Called.pushed_pointer {arguments : List Word} (called : Called csp m arguments) :
    readWord (pushed m) csp = readWord m.mem csp :=
  readWord_apart _ called.pointer _

/-- A routine finds its arguments after its push. -/
theorem Called.loaded {arguments : List Word} (called : Called csp m arguments) {k : Nat} {x : Word}
    (given : arguments[k]? = some x) :
    readWord (pushed m) (readWord (pushed m) csp - BitVec.ofNat 32 (4 * (k + 1))) = x := by
  obtain ⟨value, apart⟩ := called.argument k x given
  rw [called.pushed_pointer]
  exact (readWord_apart _ apart _).trans value

/-- A routine that has pushed R6 and loads its arguments. -/
structure Loading (csp : Word) (m next : Machine) : Prop where
  mem : next.mem = pushed m
  frame : next.regs 6 = readWord (pushed m) csp
  sp : next.sp = m.sp - 4

theorem enter_loading (csp : Word) (m : Machine) : Loading csp m (effectOf (effects (enter csp)) m) :=
  ⟨rfl, rfl, rfl⟩

/-- An argument is loaded; the registers but R1, R7 and its own stay. -/
theorem argument_loading {csp : Word} {m next : Machine} {arguments : List Word}
    (called : Called csp m arguments) (loading : Loading csp m next) {k : Nat} {x : Word}
    (given : arguments[k]? = some x) {register : Fin 8} (other : register ∉ [1, 6, 7]) :
    ∃ after, effectOf (effects (argument register (k + 1))) next = after ∧ Loading csp m after ∧
      after.regs register = x ∧
      ∀ r, r ≠ register → r ∉ [1, 7] → after.regs r = next.regs r := by
  simp only [List.mem_cons, List.not_mem_nil, or_false, not_or] at other
  have loads : effectOf (effects (argument register (k + 1))) next =
      Instr.run (.loadr register 1) (Instr.run (.sub 1 7)
        (Instr.run (.mov 7 (BitVec.ofNat 32 (4 * (k + 1)))) (Instr.run (.movr 1 6) next))) := rfl
  refine ⟨_, loads, ⟨loading.mem, ?_, loading.sp⟩, ?_, ?_⟩
  · simp [Instr.run, Machine.setReg, Ne.symm other.2.1, loading.frame]
  · rw [← called.loaded given, ← loading.frame, ← loading.mem]
    simp [Instr.run, Machine.setReg]
  · intro r different rest
    simp only [List.mem_cons, List.not_mem_nil, or_false, not_or] at rest
    simp [Instr.run, Machine.setReg, different, rest.1, rest.2]

/-- Two arguments are loaded into R2 and R3. -/
theorem two_loaded {a b : Word} {more : List Word} (called : Called csp m (a :: b :: more)) :
    ∃ next, effectOf (effects (enter csp ++ argument 2 1 ++ argument 3 2)) m = next ∧
      Loading csp m next ∧ next.regs 2 = a ∧ next.regs 3 = b := by
  obtain ⟨one, first, loading, value, -⟩ :=
    @argument_loading _ _ _ _ called (enter_loading csp m) 0 a rfl 2 (by decide)
  obtain ⟨two, second, loaded, other, kept⟩ :=
    @argument_loading _ _ _ _ called loading 1 b rfl 3 (by decide)
  refine ⟨two, ?_, loaded, (kept 2 (by decide) (by decide)).trans value, other⟩
  rw [effects_append, effects_append, first, second]

/-- Three arguments are loaded into R2, R3 and R4. -/
theorem three_loaded {a b c : Word} (called : Called csp m [a, b, c]) :
    ∃ next, effectOf (effects (enter csp ++ argument 2 1 ++ argument 3 2 ++ argument 4 3)) m = next ∧
      Loading csp m next ∧ next.regs 2 = a ∧ next.regs 3 = b ∧ next.regs 4 = c := by
  obtain ⟨two, before, loading, first, second⟩ := two_loaded called
  obtain ⟨three, third, loaded, other, kept⟩ :=
    @argument_loading _ _ _ _ called loading 2 c rfl 4 (by decide)
  refine ⟨three, ?_, loaded, (kept 2 (by decide) (by decide)).trans first,
    (kept 3 (by decide) (by decide)).trans second, other⟩
  rw [effects_append, before, third]

theorem and_low_byte (x : Word) : x &&& 255 = (x.setWidth 8).setWidth 32 := by
  apply BitVec.eq_of_toNat_eq
  rw [BitVec.toNat_and, BitVec.toNat_setWidth, BitVec.toNat_setWidth]
  show x.toNat &&& (2 ^ 8 - 1) = _
  rw [Nat.and_two_pow_sub_one_eq_mod]
  omega

theorem memcpy_entered {d s : Word} (called : Called csp m [d, s, BitVec.ofNat 32 n]) :
    let entry := effectOf (effects (memcpyEntry csp)) m
    Counting (Moving entry (forward n d s (pushed m))) n entry ∧ entry.regs 0 = d ∧
      entry.regs 6 = readWord m.mem csp ∧ entry.sp = m.sp - 4 := by
  obtain ⟨next, loads, loading, first, second, third⟩ := three_loaded called
  have frame := loading.frame.trans called.pushed_pointer
  rw [memcpyEntry, effects_append, loads]
  refine ⟨⟨⟨⟨rfl, rfl, rfl⟩, ?_⟩, third, rfl, rfl⟩, first, frame, loading.sp⟩
  show forward n (next.regs 2) (next.regs 3) next.mem = _
  rw [first, second, loading.mem]

theorem memset_entered {d x : Word} (called : Called csp m [d, x, BitVec.ofNat 32 n]) :
    let entry := effectOf (effects (memsetEntry csp)) m
    Counting (Filling entry (x.setWidth 8) (fill (x.setWidth 8) n d (pushed m))) n entry ∧
      entry.regs 0 = d ∧ entry.regs 6 = readWord m.mem csp ∧ entry.sp = m.sp - 4 := by
  obtain ⟨next, loads, loading, first, second, third⟩ := three_loaded called
  have frame := loading.frame.trans called.pushed_pointer
  have low : next.regs 3 &&& 255 = (x.setWidth 8).setWidth 32 := by
    rw [second]
    exact and_low_byte x
  rw [memsetEntry, effects_append, loads]
  refine ⟨⟨⟨⟨rfl, rfl, rfl⟩, low, ?_, ?_⟩, third, rfl, rfl⟩, first, frame, loading.sp⟩
  · show (next.regs 3 &&& 255) * 16843009 = _
    rw [low]
  · show fill _ n (next.regs 2) next.mem = _
    rw [first, loading.mem]

end JsEmulator.Toolchain.RuntimeAssembly
