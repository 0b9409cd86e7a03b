import JsEmulator.Custom32.Caches

/-!
# Instructions

The instruction table of `isa.ts`, and `step` of `cpu.ts`: the decoder, with its fast path for
an instruction that lies in the cached code page, and the switch over the opcodes.

What `step` does is put together from a few operations on the registers, the memory and the
interrupt lines. A property that these have and that carries over to a sequence is a property
of every instruction; the four instructions that change the address space are apart.
-/

namespace JsEmulator.Custom32

open JsEmulator.Library JsEmulator.Library.Logged

variable {base : Int} {s : Cpu D} {room : Nat}

/-- The mnemonics of `ISA`. -/
inductive Mnemonic where
  | nop | mov | movr | load | store | loadr | storer | lb | sb | lbs | lh | lhs | sh
  | add | sub | mul | div | mod | and | or | xor | not | shl | shr | inc | dec | cmp | idiv | imod
  | jmp | jz | jnz | jg | jge | jl | jle | call | ret | callr | ja | jae | jb | jbe | sar
  | push | pop
  | int | ei | di | portIn | portOut | iret | lidt | lksp | rdpfla | rderr | stmr | lptbr | pgon
  | pgoff | hlt
deriving DecidableEq, Repr

/-- `OPCODES`. -/
def mnemonicOf : Nat → Option Mnemonic
  | 0x00 => some .nop | 0x01 => some .mov | 0x02 => some .movr | 0x03 => some .load
  | 0x04 => some .store | 0x05 => some .loadr | 0x06 => some .storer | 0x07 => some .lb
  | 0x08 => some .sb | 0x09 => some .lbs | 0x0a => some .lh | 0x0b => some .lhs
  | 0x0c => some .sh
  | 0x10 => some .add | 0x11 => some .sub | 0x12 => some .mul | 0x13 => some .div
  | 0x14 => some .mod | 0x15 => some .and | 0x16 => some .or | 0x17 => some .xor
  | 0x18 => some .not | 0x19 => some .shl | 0x1a => some .shr | 0x1b => some .inc
  | 0x1c => some .dec | 0x1d => some .cmp | 0x1e => some .idiv | 0x1f => some .imod
  | 0x20 => some .jmp | 0x21 => some .jz | 0x22 => some .jnz | 0x23 => some .jg
  | 0x24 => some .jge | 0x25 => some .jl | 0x26 => some .jle | 0x27 => some .call
  | 0x28 => some .ret | 0x29 => some .callr | 0x2a => some .ja | 0x2b => some .jae
  | 0x2c => some .jb | 0x2d => some .jbe | 0x2e => some .sar
  | 0x30 => some .push | 0x31 => some .pop
  | 0x40 => some .int | 0x41 => some .ei | 0x42 => some .di | 0x43 => some .portIn
  | 0x44 => some .portOut | 0x45 => some .iret | 0x46 => some .lidt | 0x47 => some .lksp
  | 0x48 => some .rdpfla | 0x49 => some .rderr | 0x4a => some .stmr | 0x4b => some .lptbr
  | 0x4c => some .pgon | 0x4d => some .pgoff | 0xff => some .hlt
  | _ => none

/-- The kinds of an operand: none, one byte with a register number, or four bytes. -/
inductive ArgKind where
  | none
  | reg
  | word
deriving DecidableEq, Repr

/-- The operands of an instruction. -/
def Mnemonic.args : Mnemonic → ArgKind × ArgKind
  | .nop | .ret | .ei | .di | .iret | .pgon | .pgoff | .hlt => (.none, .none)
  | .mov | .load | .store => (.reg, .word)
  | .jmp | .jz | .jnz | .jg | .jge | .jl | .jle | .call | .ja | .jae | .jb | .jbe | .int =>
    (.word, .none)
  | .not | .inc | .dec | .callr | .push | .pop | .lidt | .lksp | .rdpfla | .rderr | .stmr
  | .lptbr => (.reg, .none)
  | .movr | .loadr | .storer | .lb | .sb | .lbs | .lh | .lhs | .sh | .add | .sub | .mul | .div
  | .mod | .and | .or | .xor | .shl | .shr | .cmp | .idiv | .imod | .sar | .portIn | .portOut =>
    (.reg, .reg)

/-- `PRIVILEGED`. -/
def Mnemonic.privileged : Mnemonic → Bool
  | .portIn | .portOut | .iret | .hlt | .ei | .di | .lidt | .lksp | .rdpfla | .rderr | .stmr
  | .lptbr | .pgon | .pgoff => true
  | _ => false

/-- The devices behind the ports. A port that is not wired throws; a device may raise
interrupts and assert the power-off line. -/
structure PortBus (D : Type) where
  read : D → Word → Option (Word × D × List Nat × Bool)
  write : D → Word → Word → Option (D × List Nat × Bool)

variable {D : Type}

/-! ## Decoding -/

/-- A register number. -/
def register (r : Word) : CpuM D Word :=
  if 8 ≤ r.toNat then raise (.cpuFault .illegal) else pure r

/-- One operand, with the two ways to fetch it. -/
def operand (next8 next32 : CpuM D Word) : ArgKind → CpuM D Word
  | .none => pure 0
  | .reg => next8 >>= register
  | .word => next32

/-- The operands of a known instruction, unless it is privileged and the mode is not. -/
def operands (next8 next32 : CpuM D Word) (m : Mnemonic) : CpuM D (Mnemonic × Word × Word) := do
  let mode ← Logged.update fun s => (s.space.mode, s)
  if mode = .user ∧ m.privileged = true then raise (.cpuFault .privileged)
  else
    let a ← operand next8 next32 m.args.1
    let b ← operand next8 next32 m.args.2
    pure (m, a, b)

/-- The decoder of `step`, with the two ways to fetch. -/
def decodeWith (next8 next32 : CpuM D Word) : CpuM D (Mnemonic × Word × Word) := do
  let opcode ← next8
  match mnemonicOf opcode.toNat with
  | none => raise (.cpuFault .illegalOpcode)
  | some m => operands next8 next32 m

/-- The fast path sets the program counter only when the instruction is decoded. -/
def decodeFast (ip base : Int) : CpuM D (Mnemonic × Word × Word) := do
  match ← attempt (decodeWith (cached8 base) (cached32 base)) with
  | .ok decoded => pure decoded
  | .error trap =>
    onCore fun c => ((), { c with pc := ip })
    raise trap

/-- The first part of `step`. -/
def decode : CpuM D (Mnemonic × Word × Word) := do
  let s ← Logged.update fun s => (s, s)
  match if pageOffset s.core.pc ≤ 0xff7 then codeBase s else none with
  | some base => decodeFast s.core.pc base
  | none => decodeWith fetch8 fetch32

/-- The fast path is for an instruction that lies in the cached page. -/
theorem decode_path (s : Cpu D) : decode s =
    (match if pageOffset s.core.pc ≤ 0xff7 then codeBase s else none with
    | some base => decodeFast s.core.pc base
    | none => decodeWith fetch8 fetch32) s := rfl

/-! ## Registers and flags -/

def Core.reg (c : Core D) (i : Word) : Word := c.regs (Fin.ofNat 8 i.toNat)

def Core.setReg (c : Core D) (i x : Word) : Core D :=
  { c with regs := Function.update c.regs (Fin.ofNat 8 i.toNat) x }

/-- The bits of `FLAG`. -/
def zf : Word := 1
def sf : Word := 2
def cf : Word := 4
def interruptFlag : Word := 8
def overflowFlag : Word := 16

def withFlag (flags bit : Word) (on : Bool) : Word :=
  if on then flags ||| bit else flags &&& ~~~bit

def hasFlag (flags bit : Word) : Bool := flags &&& bit ≠ 0

def setZS (flags r : Word) : Word := withFlag (withFlag flags zf (r = 0)) sf r.msb

def setAddFlags (flags a b r : Word) : Word :=
  withFlag (withFlag (setZS flags r) cf (0xffffffff < a.toNat + b.toNat)) overflowFlag
    (~~~(a ^^^ b) &&& (a ^^^ r)).msb

def setSubFlags (flags a b r : Word) : Word :=
  withFlag (withFlag (setZS flags r) cf (a.toNat < b.toNat)) overflowFlag
    ((a ^^^ b) &&& (a ^^^ r)).msb

def signedLess (flags : Word) : Bool := hasFlag flags sf != hasFlag flags overflowFlag

theorem hasFlag_bit (flags : Word) {i : Nat} (inside : i < 32) :
    hasFlag flags (BitVec.twoPow 32 i) = flags.getLsbD i := by
  unfold hasFlag
  rw [BitVec.and_twoPow]
  cases flags.getLsbD i with
  | false => simp
  | true =>
    have set : BitVec.twoPow 32 i ≠ 0#32 := by
      intro zero
      have bit := congrArg (fun x => x.getLsbD i) zero
      simp [inside] at bit
    simp [set]

theorem getLsbD_withFlag (flags bit : Word) (on : Bool) {i : Nat} (inside : i < 32) :
    (withFlag flags bit on).getLsbD i = if bit.getLsbD i then on else flags.getLsbD i := by
  unfold withFlag
  cases on <;> cases low : bit.getLsbD i <;>
    simp [BitVec.getLsbD_or, BitVec.getLsbD_and, BitVec.getLsbD_not, low, inside,
      -BitVec.getLsbD_eq_getElem]

/-- A comparison sets the zero flag if the difference is zero. -/
theorem hasFlag_setSubFlags (flags a b r : Word) :
    hasFlag (setSubFlags flags a b r) zf = decide (r = 0) := by
  rw [show zf = BitVec.twoPow 32 0 from rfl, hasFlag_bit _ (by decide)]
  unfold setSubFlags setZS
  simp only [getLsbD_withFlag _ _ _ (show 0 < 32 by decide)]
  rfl

/-- The sign of a difference is that of the comparison, unless the subtraction overflows. -/
theorem sub_overflow (a b : Word) :
    ((a - b).msb != ((a ^^^ b) &&& (a ^^^ (a - b))).msb) = a.slt b := by
  have difference : (a - b).toNat = (4294967296 - b.toNat + a.toNat) % 4294967296 :=
    BitVec.toNat_sub a b
  have first := BitVec.toInt_eq_msb_cond a
  have second := BitVec.toInt_eq_msb_cond b
  have bounds := And.intro a.isLt b.isLt
  have signs : a.msb = decide (2147483648 ≤ a.toNat) ∧ b.msb = decide (2147483648 ≤ b.toNat) ∧
      (a - b).msb = decide (2147483648 ≤ (a - b).toNat) :=
    ⟨BitVec.msb_eq_decide a, BitVec.msb_eq_decide b, BitVec.msb_eq_decide (a - b)⟩
  rw [BitVec.msb_and, BitVec.msb_xor, BitVec.msb_xor, BitVec.slt_eq_decide]
  rcases high : a.msb with - | - <;> rcases other : b.msb with - | - <;>
    rcases top : (a - b).msb with - | - <;>
    simp only [high, other, top, Bool.false_eq_true, if_false, if_true] at first second signs ⊢ <;>
    simp only [eq_comm (a := false), eq_comm (a := true), decide_eq_true_eq,
      decide_eq_false_iff_not] at signs <;>
    simp [first, second] <;> omega

/-- A signed jump after a comparison. -/
theorem signedLess_setSubFlags (flags a b : Word) :
    signedLess (setSubFlags flags a b (a - b)) = a.slt b := by
  rw [← sub_overflow]
  unfold signedLess
  rw [show sf = BitVec.twoPow 32 1 from rfl, show overflowFlag = BitVec.twoPow 32 4 from rfl,
    hasFlag_bit _ (by decide), hasFlag_bit _ (by decide)]
  unfold setSubFlags setZS
  simp only [getLsbD_withFlag _ _ _ (show 1 < 32 by decide),
    getLsbD_withFlag _ _ _ (show 4 < 32 by decide)]
  rfl

/-- An operation on two registers: its result and the flags. -/
def alu (f : Word → Word → Word → Word × Word) (a b : Word) : CpuM D Unit :=
  onCore fun c =>
    let out := f c.flags (c.reg a) (c.reg b)
    ((), { c.setReg a out.1 with flags := out.2 })

/-- An operation whose result sets the zero and sign flags only. -/
def logical (f : Word → Word → Word) : Word → Word → CpuM D Unit :=
  alu fun flags x y => (f x y, setZS flags (f x y))

/-- A division. -/
def divide (f : Word → Word → Word) (a b : Word) : CpuM D Unit := do
  let divisor ← onCore fun c => (c.reg b, c)
  if divisor = 0 then raise (.cpuFault .divideByZero) else logical f a b

/-- A conditional jump. -/
def jumpWhen (cond : Word → Bool) (target : Word) : CpuM D Unit :=
  onCore fun c => ((), if cond c.flags then { c with pc := target.toNat } else c)

/-- The value of a register. -/
def regOf (i : Word) : CpuM D Word := onCore fun c => (c.reg i, c)

/-- A value put into a register. -/
def into (i x : Word) : CpuM D Unit := onCore fun c => ((), c.setReg i x)

def push (x : Word) : CpuM D Unit := do
  let sp ← onCore fun c => (c.sp - 4, { c with sp := c.sp - 4 })
  wr32 sp x

def pop : CpuM D Word := do
  let sp ← onCore fun c => (c.sp, c)
  let x ← rd32 sp
  onCore fun c => (x, { c with sp := c.sp + 4 })

/-! ## Interrupt lines -/

def onLines (f : Lines → Lines) : CpuM D Unit :=
  Logged.update fun s => ((), { s with lines := f s.lines })

/-- `raiseIrq`. -/
def Lines.raiseIrq (l : Lines) (line : Nat) : Lines :=
  if line ∈ l.pending then l else { l with pending := l.pending ++ [line] }

/-- `cancelPendingIrq`. -/
def Lines.cancelPendingIrq (l : Lines) (line : Nat) : Lines :=
  { l with pending := l.pending.erase line }

/-- What a device signals. -/
def signalled (raised : List Nat) (off : Bool) : CpuM D Unit :=
  onLines fun l =>
    let l := raised.foldl Lines.raiseIrq l
    { l with poweredOff := l.poweredOff || off }

variable (bus : PortBus D)

/-- `ports.in`. -/
def readPort (port : Word) : CpuM D Word := do
  let answer ← onCore fun c =>
    (bus.read c.dev port, match bus.read c.dev port with
      | some (_, dev, _) => { c with dev := dev }
      | none => c)
  match answer with
  | none => raise .portError
  | some (x, _, raised, off) =>
    signalled raised off
    pure x

/-- `ports.out`. -/
def writePort (port x : Word) : CpuM D Unit := do
  let answer ← onCore fun c =>
    (bus.write c.dev port x, match bus.write c.dev port x with
      | some (dev, _) => { c with dev := dev }
      | none => c)
  match answer with
  | none => raise .portError
  | some (_, raised, off) => signalled raised off

/-! ## Execution -/

/-- A register of the last fault. -/
def report (f : Cpu D → Word) : CpuM D Word := fun s => ⟨.ok (f s), s, [.report]⟩

/-- The end of `IRET`: the code page is validated again, since the mode may have changed. -/
def returnTo (pc mode flags sp : Word) : CpuM D Unit :=
  Logged.update fun s => ((), { s with
    core := { s.core with pc := pc.toNat, flags := flags, sp := sp.toNat }
    space := { s.space with mode := if mode = 1 then .user else .kernel }
    fetch := none })

/-- A change of the page directory or of paging, which the caches do not survive. -/
def setSpace (f : Space → Space) : CpuM D Unit := fun s => flushTlb { s with space := f s.space }

/-- The trap frame of `IRET`. -/
def popFrame : CpuM D (Word × Word × Word × Word) := do
  let pc ← pop
  let mode ← pop
  let flags ← pop
  let sp ← pop
  pure (pc, mode, flags, sp)

/-- The switch of `step`, without `INT` and `HLT`. -/
def exec (m : Mnemonic) (a b : Word) : CpuM D Unit :=
  match m with
  | .nop | .int | .hlt => pure ()
  | .mov => into a b
  | .movr => do into a (← regOf b)
  | .load => do into a (← rd32 b.toNat)
  | .store => do wr32 b.toNat (← regOf a)
  | .loadr => do into a (← rd32 (← regOf b).toNat)
  | .storer => do wr32 (← regOf a).toNat (← regOf b)
  | .lb => do into a (← rd8 (← regOf b).toNat)
  | .sb => do wr8 (← regOf a).toNat (← regOf b)
  | .lbs => do into a (((← rd8 (← regOf b).toNat).setWidth 8).signExtend 32)
  | .lh => do into a (← rd16 (← regOf b).toNat)
  | .lhs => do into a (((← rd16 (← regOf b).toNat).setWidth 16).signExtend 32)
  | .sh => do wr16 (← regOf a).toNat (← regOf b)
  | .add => alu (fun flags x y => (x + y, setAddFlags flags x y (x + y))) a b
  | .sub => alu (fun flags x y => (x - y, setSubFlags flags x y (x - y))) a b
  | .mul => logical (· * ·) a b
  | .div => divide (· / ·) a b
  | .mod => divide (· % ·) a b
  | .idiv => divide BitVec.sdiv a b
  | .imod => divide BitVec.srem a b
  | .and => logical (· &&& ·) a b
  | .or => logical (· ||| ·) a b
  | .xor => logical (· ^^^ ·) a b
  | .not => logical (fun x _ => ~~~x) a b
  | .shl => logical (fun x y => x <<< (y.toNat % 32)) a b
  | .shr => logical (fun x y => x >>> (y.toNat % 32)) a b
  | .sar => logical (fun x y => x.sshiftRight (y.toNat % 32)) a b
  | .inc => alu (fun flags x _ => (x + 1, setAddFlags flags x 1 (x + 1))) a b
  | .dec => alu (fun flags x _ => (x - 1, setSubFlags flags x 1 (x - 1))) a b
  | .cmp => onCore fun c =>
    ((), { c with flags := setSubFlags c.flags (c.reg a) (c.reg b) (c.reg a - c.reg b) })
  | .jmp => jumpWhen (fun _ => true) a
  | .jz => jumpWhen (fun f => hasFlag f zf) a
  | .jnz => jumpWhen (fun f => !hasFlag f zf) a
  | .jg => jumpWhen (fun f => !hasFlag f zf && !signedLess f) a
  | .jge => jumpWhen (fun f => !signedLess f) a
  | .jl => jumpWhen signedLess a
  | .jle => jumpWhen (fun f => signedLess f || hasFlag f zf) a
  | .ja => jumpWhen (fun f => !hasFlag f cf && !hasFlag f zf) a
  | .jae => jumpWhen (fun f => !hasFlag f cf) a
  | .jb => jumpWhen (fun f => hasFlag f cf) a
  | .jbe => jumpWhen (fun f => hasFlag f cf || hasFlag f zf) a
  | .call => do
    push (← onCore fun c => (BitVec.ofInt 32 c.pc, c))
    onCore fun c => ((), { c with pc := a.toNat })
  | .callr => do
    push (← onCore fun c => (BitVec.ofInt 32 c.pc, c))
    onCore fun c => ((), { c with pc := (c.reg a).toNat })
  | .ret => do
    let pc ← pop
    onCore fun c => ((), { c with pc := pc.toNat })
  | .push => do push (← regOf a)
  | .pop => do into a (← pop)
  | .ei => onCore fun c => ((), { c with flags := c.flags ||| interruptFlag })
  | .di => onCore fun c => ((), { c with flags := c.flags &&& ~~~interruptFlag })
  | .portIn => do into a (← readPort bus (← regOf b))
  | .portOut => do writePort bus (← regOf a) (← regOf b)
  | .iret => do
    let (pc, mode, flags, sp) ← popFrame
    returnTo pc mode flags sp
  | .lidt => onCore fun c => ((), { c with idtr := c.reg a })
  | .lksp => onCore fun c => ((), { c with ksp := c.reg a })
  | .rdpfla => do into a (← report fun s => BitVec.ofInt 32 s.pfla)
  | .rderr => do into a (← report fun s => s.errorCode)
  | .stmr => do
    let n ← regOf a
    onLines fun l =>
      let l := { l with timerInterval := n.toNat, timerCount := n.toNat }
      if n = 0 then l.cancelPendingIrq 0 else l
  | .lptbr => do
    let x ← regOf a
    setSpace fun space => { space with ptbr := x }
  | .pgon => setSpace fun space => { space with pagingEnabled := true }
  | .pgoff => setSpace fun space => { space with pagingEnabled := false }

/-- What `step` returns for a software interrupt and for `HLT`. -/
inductive Stop where
  | syscall (num : Word)
  | halt
deriving DecidableEq, Repr

/-- The second part of `step`. -/
def complete (decoded : Mnemonic × Word × Word) : CpuM D (Option Stop) := do
  exec bus decoded.1 decoded.2.1 decoded.2.2
  pure (match decoded.1 with
    | .int => some (.syscall decoded.2.1)
    | .hlt => some .halt
    | _ => none)

/-- `step`. -/
def step : CpuM D (Option Stop) := decode >>= complete bus

/-! ## What an instruction is made of -/

/-- A property that the operations of a decoding have too. -/
structure Decodes (C : ∀ {α : Type}, CpuM D α → Prop) : Prop extends Sequences C where
  mode : C (Logged.update fun s : Cpu D => (s.space.mode, s))
  fetch8 : C (fetch8 : CpuM D Word)
  fetch32 : C (fetch32 : CpuM D Word)

namespace Decodes

variable {C : ∀ {α : Type}, CpuM D α → Prop} (rules : Decodes C)
include rules

theorem operand (k : ArgKind) : C (operand Custom32.fetch8 Custom32.fetch32 k : CpuM D Word) := by
  cases k with
  | none => exact rules.pure 0
  | reg =>
    refine rules.bind rules.fetch8 fun r => ?_
    unfold register
    split_ifs
    · exact rules.raise _
    · exact rules.pure r
  | word => exact rules.fetch32

theorem decodeWith :
    C (decodeWith Custom32.fetch8 Custom32.fetch32 : CpuM D (Mnemonic × Word × Word)) := by
  refine rules.bind rules.fetch8 fun opcode => ?_
  rcases mnemonicOf opcode.toNat with - | m
  · exact rules.raise _
  refine rules.bind rules.mode fun mode => ?_
  split_ifs
  · exact rules.raise _
  · exact rules.bind (rules.operand _) fun a => rules.bind (rules.operand _) fun b =>
      rules.pure (m, a, b)

end Decodes

theorem CodeReads.decodes {C : ∀ {α : Type}, CpuM D α → Prop} (reads : CodeReads C) : Decodes C :=
  ⟨reads.toSequences, reads.look _, reads.fetch8, reads.fetch32⟩

/-- A property that the operations of an instruction have, but for those that signal a device. -/
structure Quiet (C : ∀ {α : Type}, CpuM D α → Prop) : Prop extends Decodes C, Loads C where
  core : ∀ {α : Type} (f : Core D → α × Core D), C (onCore f)
  wrN : ∀ n v x, C (wrN n v x : CpuM D Unit)
  pfla : C (report fun s : Cpu D => BitVec.ofInt 32 s.pfla)
  errorCode : C (report fun s : Cpu D => s.errorCode)

/-- A property of computations that the operations of an instruction have and that a sequence
of them keeps. -/
structure Rules (C : ∀ {α : Type}, CpuM D α → Prop) : Prop where
  pure : ∀ {α : Type} (x : α), C (Pure.pure x : CpuM D α)
  bind : ∀ {α β : Type} {m : CpuM D α} {f : α → CpuM D β}, C m → (∀ x, C (f x)) → C (m >>= f)
  raise : ∀ {α : Type} (trap : Trap), C (Logged.raise trap : CpuM D α)
  core : ∀ {α : Type} (f : Core D → α × Core D), C (onCore f)
  lines : ∀ f, C (onLines f : CpuM D Unit)
  mode : C (Logged.update fun s : Cpu D => (s.space.mode, s))
  fetch8 : C (fetch8 : CpuM D Word)
  fetch32 : C (fetch32 : CpuM D Word)
  rdN : ∀ n v, C (rdN n v : CpuM D (List (Option Byte)))
  wrN : ∀ n v x, C (wrN n v x : CpuM D Unit)
  pfla : C (report fun s : Cpu D => BitVec.ofInt 32 s.pfla)
  errorCode : C (report fun s : Cpu D => s.errorCode)

/-- The instructions that change the address space or the mode. -/
def Mnemonic.switches : Mnemonic → Bool
  | .iret | .lptbr | .pgon | .pgoff => true
  | _ => false

/-- The instructions that may request an interrupt or withdraw one. -/
def Mnemonic.signals : Mnemonic → Bool
  | .portIn | .portOut | .stmr => true
  | _ => false

namespace Quiet

variable {bus} {C : ∀ {α : Type}, CpuM D α → Prop} (rules : Quiet C)
include rules

theorem push (x : Word) : C (push x : CpuM D Unit) :=
  rules.bind (rules.core _) fun sp => rules.wrN 4 sp x

theorem pop : C (pop : CpuM D Word) :=
  rules.bind (rules.core _) fun sp => rules.bind (rules.rd32 sp) fun _ => rules.core _

theorem popFrame : C (popFrame : CpuM D (Word × Word × Word × Word)) :=
  rules.bind rules.pop fun _ => rules.bind rules.pop fun _ => rules.bind rules.pop fun _ =>
    rules.bind rules.pop fun _ => rules.pure _

theorem into (i x : Word) : C (into i x : CpuM D Unit) := by
  unfold Custom32.into
  exact rules.core _

theorem alu (f : Word → Word → Word → Word × Word) (a b : Word) : C (alu f a b : CpuM D Unit) := by
  unfold Custom32.alu
  exact rules.core _

theorem logical (f : Word → Word → Word) (a b : Word) : C (logical f a b : CpuM D Unit) :=
  rules.alu _ a b

theorem jumpWhen (cond : Word → Bool) (target : Word) : C (jumpWhen cond target : CpuM D Unit) := by
  unfold Custom32.jumpWhen
  exact rules.core _

theorem divide (f : Word → Word → Word) (a b : Word) : C (divide f a b : CpuM D Unit) := by
  refine rules.bind (rules.core _) fun divisor => ?_
  split_ifs
  · exact rules.raise _
  · exact rules.logical f a b

/-- Every instruction that stays in its address space and signals no device has the property. -/
theorem exec (m : Mnemonic) (a b : Word) (stays : m.switches = false)
    (quiet : m.signals = false) : C (exec bus m a b) := by
  have load : ∀ (read : Int → CpuM D Word) (f : Word → Word), (∀ v, C (read v)) →
      C (do Custom32.into a (f (← read (← regOf b).toNat)) : CpuM D Unit) := fun read f has =>
    rules.bind (rules.core _) fun v => rules.bind (has _) fun _ => rules.core _
  have store : ∀ n, C (do Custom32.wrN n (← regOf a).toNat (← regOf b) : CpuM D Unit) := fun n =>
    rules.bind (rules.core _) fun v => rules.bind (rules.core _) fun x => rules.wrN n v.toNat x
  cases m with
  | iret | lptbr | pgon | pgoff => cases stays
  | portIn | portOut | stmr => cases quiet
  | nop | int | hlt => exact rules.pure ()
  | div | mod | idiv | imod => exact rules.divide _ a b
  | mul | and | or | xor | not | shl | shr | sar => exact rules.logical _ a b
  | movr => exact rules.bind (rules.core _) fun _ => rules.core _
  | load => exact rules.bind (rules.rd32 _) fun _ => rules.core _
  | store => exact rules.bind (rules.core _) fun _ => rules.wrN 4 _ _
  | loadr => exact load Custom32.rd32 id rules.rd32
  | lb => exact load Custom32.rd8 id rules.rd8
  | lbs => exact load Custom32.rd8 (fun x => (x.setWidth 8).signExtend 32) rules.rd8
  | lh => exact load Custom32.rd16 id rules.rd16
  | lhs => exact load Custom32.rd16 (fun x => (x.setWidth 16).signExtend 32) rules.rd16
  | storer => exact store 4
  | sb => exact store 1
  | sh => exact store 2
  | call | callr =>
    exact rules.bind (rules.core _) fun _ => rules.bind (rules.push _) fun _ => rules.core _
  | ret | pop => exact rules.bind rules.pop fun _ => rules.core _
  | push => exact rules.bind (rules.core _) fun _ => rules.push _
  | rdpfla => exact rules.bind rules.pfla fun _ => rules.core _
  | rderr => exact rules.bind rules.errorCode fun _ => rules.core _
  | mov => exact rules.into a b
  | add | sub | inc | dec =>
    unfold Custom32.exec
    exact rules.alu _ a b
  | cmp | ei | di | lidt | lksp =>
    unfold Custom32.exec
    exact rules.core _
  | _ =>
    unfold Custom32.exec
    exact rules.jumpWhen _ a

end Quiet

namespace Rules

variable {bus} {C : ∀ {α : Type}, CpuM D α → Prop} (rules : Rules C)
include rules

theorem quiet : Quiet C where
  pure := rules.pure
  bind := rules.bind
  raise := rules.raise
  mode := rules.mode
  fetch8 := rules.fetch8
  fetch32 := rules.fetch32
  rdN := rules.rdN
  core := rules.core
  wrN := rules.wrN
  pfla := rules.pfla
  errorCode := rules.errorCode

theorem readPort (port : Word) : C (readPort bus port) := by
  refine rules.bind (rules.core _) fun answer => ?_
  rcases answer with - | ⟨x, dev, raised, off⟩
  · exact rules.raise _
  · exact rules.bind (rules.lines _) fun _ => rules.pure x

theorem writePort (port x : Word) : C (writePort bus port x) := by
  refine rules.bind (rules.core _) fun answer => ?_
  rcases answer with - | ⟨dev, raised, off⟩
  · exact rules.raise _
  · exact rules.lines _

/-- Every instruction that stays in its address space has the property. -/
theorem exec (m : Mnemonic) (a b : Word) (stays : m.switches = false) : C (exec bus m a b) := by
  cases m with
  | portIn =>
    exact rules.bind (rules.core _) fun _ => rules.bind (rules.readPort _) fun _ => rules.core _
  | portOut =>
    exact rules.bind (rules.core _) fun _ => rules.bind (rules.core _) fun _ =>
      rules.writePort _ _
  | stmr => exact rules.bind (rules.core _) fun _ => rules.lines _
  | _ => exact rules.quiet.exec _ a b stays rfl

end Rules

/-! ## The fast path -/

/-- The program counter is in the cached page, with room for a number of bytes. -/
def Hit (base : Int) (room : Nat) (s : Cpu D) : Prop :=
  codeBase s = some base ∧ pageOffset s.core.pc + room ≤ 4096

/-- An address moved within its page. -/
theorem page_add {v : Int} {n : Nat} (inside : pageOffset v + n < 4096) :
    pageNumber (v + n) = pageNumber v ∧ pageOffset (v + n) = pageOffset v + n := by
  unfold pageNumber pageOffset at *
  omega

theorem Hit.advanced {n : Nat} {t : Cpu D} (hit : Hit base room s) (inside : n < room)
    (pc : t.core.pc = s.core.pc + n) (fetch : t.fetch = s.fetch) :
    Hit base (room - n) t := by
  obtain ⟨page, offset⟩ := page_add (v := s.core.pc) (n := n) (by have := hit.2; omega)
  refine ⟨?_, by rw [pc, offset]; have := hit.2; omega⟩
  rw [← hit.1, codeBase, codeBase, fetch, pc, page]

theorem fetch8_hit (hit : Hit base room s) : fetch8 s = cached8 base s := by
  rw [fetch8_path, hit.1]

theorem fetch32_hit (hit : Hit base room s) (fits : 4 ≤ room) : fetch32 s = cached32 base s := by
  rw [fetch32_path, if_pos (by have := hit.2; omega), hit.1]

theorem defined_state (found : List (Option Byte)) (s : Cpu D) : (defined found s).state = s := by
  rcases found with - | ⟨- | b, rest⟩ <;> rfl

theorem cached8_state (base : Int) (s : Cpu D) :
    (cached8 base s).state = { s with core := { s.core with pc := s.core.pc + (1 : Nat) } } :=
  defined_state _ _

/-- Operands that lie in the cached page are read there. -/
theorem operand_hit (k : ArgKind) (hit : Hit base room s) (fits : 4 ≤ room) :
    operand fetch8 fetch32 k s = operand (cached8 base) (cached32 base) k s ∧
      (5 ≤ room → Hit base (room - 4) (operand fetch8 fetch32 k s).state) := by
  cases k with
  | none =>
    exact ⟨rfl, fun _ => ⟨hit.1, by change pageOffset s.core.pc + _ ≤ _; have := hit.2; omega⟩⟩
  | reg =>
    refine ⟨bind_congr_at (fetch8_hit hit) fun _ _ => rfl, fun more => ?_⟩
    have moved := hit.advanced (n := 1) (t := (cached8 base s).state) (by omega)
      (by rw [cached8_state]) (by rw [cached8_state])
    have state : (operand fetch8 fetch32 .reg s).state = (cached8 base s).state := by
      change ((fetch8 >>= register) s).state = _
      rcases returned : (fetch8 s).result with e | r
      · rw [bind_error returned, fetch8_hit hit]
      · rw [bind_ok returned, fetch8_hit hit, register]
        split_ifs <;> rfl
    rw [state]
    exact ⟨moved.1, by have := moved.2; omega⟩
  | word =>
    refine ⟨fetch32_hit hit fits, fun more => ?_⟩
    have state : (operand fetch8 fetch32 .word s).state = (cached32 base s).state := by
      change (fetch32 s).state = _
      rw [fetch32_hit hit fits]
    rw [state]
    exact hit.advanced (by omega) rfl rfl

/-- An instruction that lies in the cached page is decoded as the checked fetches decode it. -/
theorem decodeWith_hit (hit : Hit base 9 s) :
    decodeWith fetch8 fetch32 s = decodeWith (cached8 base) (cached32 base) s := by
  have moved := hit.advanced (n := 1) (t := (cached8 base s).state) (by omega)
    (by rw [cached8_state]) (by rw [cached8_state])
  refine bind_congr_at (fetch8_hit hit) fun opcode _ => ?_
  rw [fetch8_hit hit]
  rcases mnemonicOf opcode.toNat with - | m
  · rfl
  refine bind_congr_at rfl fun mode _ => ?_
  split_ifs
  · rfl
  obtain ⟨first, room⟩ := operand_hit m.args.1 moved (by omega)
  refine bind_congr_at first fun a _ => ?_
  exact bind_congr_at (operand_hit m.args.2 (room (by omega)) (by omega)).1 fun b _ => rfl

/-- The decoder and the checked fetches agree, but for the program counter of an instruction
that cannot be decoded. -/
theorem decode_checked (s : Cpu D) :
    (decode s).result = (decodeWith fetch8 fetch32 s).result ∧
      (decode s).log = (decodeWith fetch8 fetch32 s).log ∧
      ((∃ decoded, (decode s).result = .ok decoded) →
        (decode s).state = (decodeWith fetch8 fetch32 s).state) ∧
      ∃ pc, (decode s).state = { (decodeWith fetch8 fetch32 s).state with
        core := { (decodeWith fetch8 fetch32 s).state.core with pc := pc } } := by
  rcases cached : (if pageOffset s.core.pc ≤ 0xff7 then codeBase s else none) with - | base
  · rw [decode_path, cached]
    exact ⟨rfl, rfl, fun _ => rfl, _, rfl⟩
  have hit : Hit base 9 s := by
    split_ifs at cached with inside
    exact ⟨cached, by omega⟩
  rw [decode_path, cached, decodeWith_hit hit]
  dsimp only
  rw [decodeFast, bind_ok (a := (decodeWith (cached8 base) (cached32 base) s).result) rfl]
  rcases returned : (decodeWith (cached8 base) (cached32 base) s).result with trap | decoded
  · refine ⟨rfl, List.append_nil _, fun ok => ?_, s.core.pc, rfl⟩
    obtain ⟨decoded, impossible⟩ := ok
    cases impossible
  · exact ⟨rfl, List.append_nil _, fun _ => rfl, _, rfl⟩

end JsEmulator.Custom32
