import JsEmulator.Custom32.Instructions
import JsEmulator.Library.LabelledCode
import JsEmulator.Library.WordMemory

/-!
# Deferred write-back of the stack pointer

The software stack pointer is the word `__csp` of the memory. The helpers of `codegen.ts` that push,
pop and adjust it keep its value in R5, and leave it to `emit` to write it back before a line that
may need it in memory. `emit` decides this from the text of the line.

A function is a list of pieces: what the code generator emits, and the helpers it calls. The naive
code of a helper loads `__csp` first and stores it last. The emitted code omits the load where R5
has the value, and the store until it is needed. The two are compared piece by piece: they agree in
all but the word `__csp`, and in that word as well wherever `emit` has flushed.
-/

namespace JsEmulator.Toolchain.Deferred

open JsEmulator.Custom32 (setAddFlags setSubFlags)
open JsEmulator.Library.LabelledCode
open JsEmulator.Library.WordMemory

/-! ## The machine -/

/-- The registers and flags, the memory, the address that the linker gave to `__csp`, and all
else. -/
structure Machine (Rest : Type) where
  regs : Fin 8 → Word
  flags : Word
  mem : Word → Byte
  cspAddr : Word
  rest : Rest

variable {Rest : Type}

namespace Machine

def setReg (m : Machine Rest) (r : Fin 8) (x : Word) : Machine Rest :=
  { m with regs := Function.update m.regs r x }

/-- The word `__csp`. -/
def csp (m : Machine Rest) : Word := readWord m.mem m.cspAddr

def putCsp (m : Machine Rest) (x : Word) : Machine Rest :=
  { m with mem := writeWord m.mem m.cspAddr x }

/-- `LOAD R5, __csp`. -/
def loadCsp (m : Machine Rest) : Machine Rest := m.setReg 5 m.csp

/-- `STORE R5, __csp`. -/
def storeCsp (m : Machine Rest) : Machine Rest := m.putCsp (m.regs 5)

/-- `STORER R5, r`. -/
def storer (r : Fin 8) (m : Machine Rest) : Machine Rest :=
  { m with mem := writeWord m.mem (m.regs 5) (m.regs r) }

/-- `LOADR r, R5`. -/
def loadr (r : Fin 8) (m : Machine Rest) : Machine Rest := m.setReg r (readWord m.mem (m.regs 5))

/-- `MOV R7, x`. -/
def mov7 (x : Word) (m : Machine Rest) : Machine Rest := m.setReg 7 x

/-- `ADD R5, R7`. -/
def add (m : Machine Rest) : Machine Rest :=
  { m.setReg 5 (m.regs 5 + m.regs 7) with
    flags := setAddFlags m.flags (m.regs 5) (m.regs 7) (m.regs 5 + m.regs 7) }

/-- `SUB R5, R7`. -/
def sub (m : Machine Rest) : Machine Rest :=
  { m.setReg 5 (m.regs 5 - m.regs 7) with
    flags := setSubFlags m.flags (m.regs 5) (m.regs 7) (m.regs 5 - m.regs 7) }

end Machine

/-! ## Emission -/

/-- What the patterns of `emit` find in the text of a line. -/
structure Text where
  label : Bool := false
  jump : Bool := false
  traps : Bool := false
  leaves : Bool := false
  namesR5 : Bool := false
  namesCsp : Bool := false
  deriving DecidableEq, Repr

/-- A line: its text as `emit` sees it, and what the assembler makes of it. -/
structure AsmLine (Rest : Type) where
  text : Text
  code : Line (Machine Rest)
  /-- Every mnemonic with a J is one of a jump. -/
  jumps : text.jump = true → ∃ taken name, code = .jump taken name

/-- `needsCspFlush`. -/
def Text.needsCspFlush (t : Text) : Bool := t.label || t.traps || t.leaves || t.jump || t.namesCsp

/-- The line after which `emit` no longer takes R5 for `__csp`. -/
def Text.forgets (t : Text) : Bool := t.label || t.namesR5 || t.namesCsp || t.traps

/-- An instruction of a helper. -/
def instruction (effect : Machine Rest → Machine Rest) (namesR5 namesCsp : Bool) : AsmLine Rest :=
  ⟨{ namesR5 := namesR5, namesCsp := namesCsp }, .instr fun m => some (effect m), nofun⟩

def loadLine : AsmLine Rest := instruction Machine.loadCsp true true
def storeLine : AsmLine Rest := instruction Machine.storeCsp true true

/-- The two variables of the emitter. -/
structure Emitter where
  r5HasCsp : Bool := false
  cspMemStale : Bool := false
  deriving DecidableEq, Repr

/-- `flushCsp`, with the lines it emits. -/
def flushCsp (s : Emitter) : List (AsmLine Rest) × Emitter :=
  if s.cspMemStale then ([storeLine], ⟨true, false⟩) else ([], s)

/-- `emit`. -/
def emit (l : AsmLine Rest) (s : Emitter) : List (AsmLine Rest) × Emitter :=
  let flushed := if l.text.needsCspFlush then flushCsp s else ([], s)
  (flushed.1 ++ [l],
    { flushed.2 with r5HasCsp := flushed.2.r5HasCsp && !l.text.forgets })

/-- `loadCsp`. -/
def loadCsp (s : Emitter) : List (AsmLine Rest) × Emitter :=
  if s.r5HasCsp then ([], s) else
    let loaded := emit loadLine s
    (loaded.1, { loaded.2 with r5HasCsp := true })

/-- Several lines. -/
def emitAll : List (AsmLine Rest) → Emitter → List (AsmLine Rest) × Emitter
  | [], s => ([], s)
  | l :: rest, s =>
    let first := emit l s
    let others := emitAll rest first.2
    (first.1 ++ others.1, others.2)

/-- What the code generator does: it emits a line, flushes, or calls a helper. -/
inductive Piece (Rest : Type) where
  | emit (l : AsmLine Rest)
  | flush
  | push (r : Fin 8)
  | pop (r : Fin 8)
  | adjust (delta : Int)

/-- The addition or subtraction of `adjustCsp`. -/
def step5 (delta : Int) : Machine Rest → Machine Rest := if 0 ≤ delta then Machine.add else Machine.sub

/-- The lines between the load and the store of a helper. -/
def middle : Piece Rest → List (AsmLine Rest)
  | .push r => [instruction (Machine.storer r) true false, instruction (Machine.mov7 4) false false,
      instruction Machine.add true false]
  | .pop _ => [instruction (Machine.mov7 4) false false, instruction Machine.sub true false]
  | .adjust delta => [instruction (Machine.mov7 (BitVec.ofNat 32 delta.natAbs)) false false,
      instruction (step5 delta) true false]
  | _ => []

/-- What a piece adds to the text, and what it leaves of the variables. -/
def emitPiece (p : Piece Rest) (s : Emitter) : List (AsmLine Rest) × Emitter :=
  match p with
  | .emit l => emit l s
  | .flush => flushCsp s
  | .push _ | .adjust _ =>
    let loaded := loadCsp s
    let moved := emitAll (middle p) loaded.2
    (loaded.1 ++ moved.1, ⟨true, true⟩)
  | .pop r =>
    let loaded := loadCsp s
    let moved := emitAll (middle p) loaded.2
    if r = 5 then
      let last := emitAll [storeLine, instruction (Machine.loadr r) true false] moved.2
      (loaded.1 ++ moved.1 ++ last.1, ⟨false, false⟩)
    else
      let last := emit (instruction (Machine.loadr r) true false) { moved.2 with cspMemStale := true }
      (loaded.1 ++ moved.1 ++ last.1, { last.2 with r5HasCsp := true })

/-- The text of a function. -/
def emitPieces : List (Piece Rest) → Emitter → List (AsmLine Rest) × Emitter
  | [], s => ([], s)
  | p :: rest, s =>
    let first := emitPiece p s
    let others := emitPieces rest first.2
    (first.1 ++ others.1, others.2)

/-! ## The naive code -/

/-- What a helper does that loads `__csp` first and stores it last. -/
def naive : Piece Rest → Machine Rest → Machine Rest
  | .push r, m => (((m.loadCsp.storer r).mov7 4).add).storeCsp
  | .pop r, m => ((((m.loadCsp.mov7 4).sub).storeCsp).loadr r)
  | .adjust delta, m => (step5 delta (m.loadCsp.mov7 (BitVec.ofNat 32 delta.natAbs))).storeCsp
  | _, m => m

/-- The label of a piece. -/
def Piece.isLabel (name : Nat) : Piece Rest → Bool
  | .emit l => l.code.isLabel name
  | _ => false

/-- One piece of the naive code, as a position in the list and a machine. A line that leaves the
function ends the run; a jump goes on after its label. -/
def naiveStep (pieces : List (Piece Rest)) (state : Nat × Machine Rest) : Option (Nat × Machine Rest) :=
  match pieces[state.1]? with
  | none => none
  | some (.emit l) =>
    if l.text.leaves then none
    else match l.code with
      | .label _ => some (state.1 + 1, state.2)
      | .jump taken name =>
        if taken state.2 then
          (pieces.findIdx? (Piece.isLabel name)).map fun i => (i + 1, state.2)
        else some (state.1 + 1, state.2)
      | .instr effect => (effect state.2).map fun m => (state.1 + 1, m)
  | some p => some (state.1 + 1, naive p state.2)

/-- The calls of the code generator. A line that it emits by itself does not use R5, unless it is
one that flushes. Where it needs R5 as scratch (for bit-fields, copies of bytes and inline
assembly) it flushes first. -/
inductive Call (Rest : Type) where
  | line (l : AsmLine Rest) (spares : l.text.namesR5 = true → l.text.needsCspFlush = true)
  | scratch (lines : List (AsmLine Rest))
  | push (r : Fin 8)
  | pop (r : Fin 8)
  | adjust (delta : Int)

def Call.pieces : Call Rest → List (Piece Rest)
  | .line l _ => [.emit l]
  | .scratch lines => .flush :: lines.map .emit
  | .push r => [.push r]
  | .pop r => [.pop r]
  | .adjust delta => [.adjust delta]

/-- A line that `emit` takes for one that has nothing to do with `__csp` is an instruction that
leaves R5 as it is, and neither uses nor changes the word `__csp`. -/
def Quiet (l : AsmLine Rest) (m : Machine Rest) : Prop :=
  ∃ effect, l.code = .instr effect ∧
    (∀ x, effect (m.putCsp x) = (effect m).map fun m' => m'.putCsp x) ∧
    ∀ m', effect m = some m' → m'.regs 5 = m.regs 5

/-- The condition on a step: such a line is quiet, a label that is jumped to has been seen as one,
and the stack does not lie over the word `__csp`. -/
def Fine (pieces : List (Piece Rest)) (state : Nat × Machine Rest) : Prop :=
  match pieces[state.1]? with
  | some (.emit l) =>
    (l.text.needsCspFlush = false → l.text.namesR5 = false → Quiet l state.2) ∧
      ∀ taken name, l.code = .jump taken name → ∀ l' ∈ pieces, l'.isLabel name = true →
        ∃ line, l' = .emit line ∧ line.text.label = true
  | some (.push _) => Apart state.2.csp state.2.cspAddr
  | some (.pop _) => Apart (state.2.csp - 4) state.2.cspAddr
  | _ => True

/-- A run of the naive code whose steps all meet the condition. -/
def NaiveRuns (pieces : List (Piece Rest)) : Nat × Machine Rest → Nat × Machine Rest → Prop :=
  Relation.ReflTransGen fun state next => Fine pieces state ∧ naiveStep pieces state = some next

/-! ## The invariant -/

/-- What holds between the naive machine and the real one. -/
structure Invariant (s : Emitter) (n o : Machine Rest) : Prop where
  same : ∃ x, o = n.putCsp x
  current : s.cspMemStale = false → o = n
  cached : s.r5HasCsp = true → n.regs 5 = n.csp

/-- What is only in R5 is in R5. -/
def Emitter.Settled (s : Emitter) : Prop := s.cspMemStale = true → s.r5HasCsp = true

section

variable {m n o : Machine Rest} {s : Emitter}

theorem csp_putCsp (m : Machine Rest) (x : Word) : (m.putCsp x).csp = x := readWord_writeWord _ _ _

theorem putCsp_csp (m : Machine Rest) : m.putCsp m.csp = m := by
  rw [Machine.putCsp, Machine.csp, writeWord_readWord]

theorem putCsp_putCsp (m : Machine Rest) (x y : Word) : (m.putCsp x).putCsp y = m.putCsp y := by
  simp only [Machine.putCsp, writeWord_writeWord]

theorem storer_putCsp (r : Fin 8) (x : Word) (apart : Apart (m.regs 5) m.cspAddr) :
    (m.putCsp x).storer r = (m.storer r).putCsp x := by
  simp only [Machine.putCsp, Machine.storer, writeWord_comm m.mem apart]

theorem loadr_putCsp (r : Fin 8) (x : Word) (apart : Apart (m.regs 5) m.cspAddr) :
    (m.putCsp x).loadr r = (m.loadr r).putCsp x := by
  simp only [Machine.putCsp, Machine.loadr, Machine.setReg, readWord_apart m.mem apart]

theorem loadCsp_of_cached (cached : m.regs 5 = m.csp) : m.loadCsp = m := by
  rw [Machine.loadCsp, Machine.setReg, ← cached, Function.update_eq_self]

/-- After a store both machines are the same. -/
theorem storeCsp_putCsp (m : Machine Rest) (x : Word) : (m.putCsp x).storeCsp = m.storeCsp :=
  putCsp_putCsp m x _

theorem Invariant.flushed (invariant : Invariant s n o) (settled : s.Settled)
    (stale : s.cspMemStale = true) : o.storeCsp = n := by
  obtain ⟨x, rfl⟩ := invariant.same
  rw [storeCsp_putCsp, Machine.storeCsp, invariant.cached (settled stale), putCsp_csp]

end

/-- A list of instructions. -/
def performs : List (AsmLine Rest) → Machine Rest → Option (Machine Rest)
  | [], m => some m
  | l :: rest, m =>
    match l.code with
    | .instr effect => (effect m).bind (performs rest)
    | _ => none

theorem performs_append (first second : List (AsmLine Rest)) (m : Machine Rest) :
    performs (first ++ second) m = (performs first m).bind (performs second) := by
  induction first generalizing m with
  | nil => rfl
  | cons l rest ih =>
    rw [List.cons_append, performs, performs]
    cases l.code with
    | instr effect =>
      simp only [Option.bind_assoc]
      congr 1
      funext m'
      exact ih m'
    | _ => rfl

/-! ## One piece -/

variable {l : AsmLine Rest} {lines : List (AsmLine Rest)} {name : Nat}

section

variable {n o : Machine Rest} {s : Emitter}

/-- After a flush the machines are the same. -/
theorem flushCsp_spec (invariant : Invariant s n o) (settled : s.Settled) :
    performs (flushCsp s).1 o = some n ∧
      (@flushCsp Rest s).2.cspMemStale = false ∧
      ((@flushCsp Rest s).2.r5HasCsp = true → n.regs 5 = n.csp) := by
  unfold flushCsp
  split_ifs with stale
  · have same := invariant.flushed settled stale
    exact ⟨congrArg some same, rfl, fun _ => invariant.cached (settled stale)⟩
  · exact ⟨congrArg some (invariant.current (by simpa using stale)), by simpa using stale,
      invariant.cached⟩

/-- A helper begins with the value in R5. -/
theorem loadCsp_spec (invariant : Invariant s n o) (settled : s.Settled) :
    ∃ x, performs (loadCsp s).1 o = some (n.loadCsp.putCsp x) := by
  unfold loadCsp
  split_ifs with cached
  · obtain ⟨x, rfl⟩ := invariant.same
    rw [loadCsp_of_cached (invariant.cached cached)]
    exact ⟨x, rfl⟩
  have current : s.cspMemStale = false := by
    by_contra stale
    exact cached (settled (by simpa using stale))
  have text : (emit loadLine s).1 = [(loadLine : AsmLine Rest)] := by
    simp [emit, loadLine, instruction, Text.needsCspFlush, flushCsp, current]
  rw [text, invariant.current current]
  exact ⟨n.csp, congrArg some (putCsp_csp n.loadCsp).symm⟩

/-- Lines that need no flush are emitted as they are. -/
theorem emitAll_quiet (quiet : ∀ l ∈ lines, l.text.needsCspFlush = false) (s : Emitter) :
    (emitAll lines s).1 = lines := by
  induction lines generalizing s with
  | nil => rfl
  | cons l rest ih =>
    have first : (emit l s).1 = [l] := by simp [emit, quiet l List.mem_cons_self]
    rw [emitAll]
    simp only [first, ih (fun l' member => quiet l' (List.mem_cons_of_mem l member)),
      List.singleton_append]

theorem middle_spec (p : Piece Rest) :
    ∀ l ∈ middle p, l.text.needsCspFlush = false ∧ ∃ effect, l.code = .instr effect := by
  intro l member
  cases p with
  | emit l => cases member
  | flush => cases member
  | push r =>
    simp only [middle, List.mem_cons, List.not_mem_nil, or_false] at member
    rcases member with rfl | rfl | rfl <;> exact ⟨rfl, _, rfl⟩
  | pop r | adjust delta =>
    simp only [middle, List.mem_cons, List.not_mem_nil, or_false] at member
    rcases member with rfl | rfl <;> exact ⟨rfl, _, rfl⟩

theorem emitAll_middle (p : Piece Rest) (s : Emitter) : (emitAll (middle p) s).1 = middle p :=
  emitAll_quiet (fun l member => (middle_spec p l member).1) s

theorem step5_putCsp (delta : Int) (m : Machine Rest) (x : Word) :
    step5 delta (m.putCsp x) = (step5 delta m).putCsp x := by
  unfold step5
  split_ifs <;> rfl

/-- A helper whose store is deferred. -/
theorem deferred {m : Machine Rest} (x : Word) : Invariant ⟨true, true⟩ m.storeCsp (m.putCsp x) :=
  ⟨⟨x, (putCsp_putCsp m _ x).symm⟩, nofun, fun _ => (csp_putCsp m (m.regs 5)).symm⟩

theorem push_spec (r : Fin 8) (invariant : Invariant s n o) (settled : s.Settled)
    (apart : Apart n.csp n.cspAddr) :
    ∃ o', performs (emitPiece (.push r) s).1 o = some o' ∧
      Invariant (emitPiece (.push r : Piece Rest) s).2 (naive (.push r) n) o' := by
  obtain ⟨x, loaded⟩ := loadCsp_spec invariant settled
  have stack : Apart (n.loadCsp.regs 5) n.loadCsp.cspAddr := by
    simpa [Machine.loadCsp, Machine.setReg] using apart
  refine ⟨(((n.loadCsp.storer r).mov7 4).add).putCsp x, ?_, deferred x⟩
  simp only [emitPiece]
  rw [performs_append, loaded, emitAll_middle]
  have stored := storer_putCsp r x stack
  exact congrArg (fun m => some ((m.mov7 4).add)) stored

theorem adjust_spec (delta : Int) (invariant : Invariant s n o) (settled : s.Settled) :
    ∃ o', performs (emitPiece (.adjust delta) s).1 o = some o' ∧
      Invariant (emitPiece (.adjust delta : Piece Rest) s).2 (naive (.adjust delta) n) o' := by
  obtain ⟨x, loaded⟩ := loadCsp_spec invariant settled
  refine ⟨(step5 delta (n.loadCsp.mov7 (BitVec.ofNat 32 delta.natAbs))).putCsp x, ?_, deferred x⟩
  simp only [emitPiece]
  rw [performs_append, loaded, emitAll_middle]
  exact congrArg some (step5_putCsp delta (n.loadCsp.mov7 (BitVec.ofNat 32 delta.natAbs)) x)

theorem pop_spec (r : Fin 8) (invariant : Invariant s n o) (settled : s.Settled)
    (apart : Apart (n.csp - 4) n.cspAddr) :
    ∃ o', performs (emitPiece (.pop r) s).1 o = some o' ∧
      Invariant (emitPiece (.pop r : Piece Rest) s).2 (naive (.pop r) n) o' := by
  obtain ⟨x, loaded⟩ := loadCsp_spec invariant settled
  generalize moved : ((n.loadCsp.mov7 4).sub) = m
  have top : m.regs 5 = n.csp - 4 := by
    rw [← moved]
    simp [Machine.sub, Machine.mov7, Machine.loadCsp, Machine.setReg]
  have stack : Apart (m.regs 5) m.cspAddr := by
    rw [top, ← moved]
    exact apart
  have lines : performs ((loadCsp s).1 ++ (emitAll (middle (.pop r)) (@loadCsp Rest s).2).1) o =
      some (m.putCsp x) := by
    rw [performs_append, loaded, emitAll_middle, ← moved]
    rfl
  have result : naive (.pop r) n = m.storeCsp.loadr r := by rw [← moved]; rfl
  rw [result]
  simp only [emitPiece]
  split_ifs with same
  · -- the store comes first, once or twice, and the machines are the same
    refine ⟨m.storeCsp.loadr r, ?_, ⟨_, (putCsp_csp _).symm⟩, fun _ => rfl, nofun⟩
    rw [performs_append, lines, Option.bind_some]
    have once : (m.putCsp x).storeCsp = m.storeCsp := storeCsp_putCsp m x
    have twice : m.storeCsp.storeCsp = m.storeCsp := storeCsp_putCsp m _
    generalize (emitAll (middle (.pop r)) (@loadCsp Rest s).2).2 = s'
    rcases stale : s'.cspMemStale with - | -
    · have text : (emitAll [storeLine, instruction (Machine.loadr r) true false] s').1 =
          [(storeLine : AsmLine Rest), instruction (Machine.loadr r) true false] := by
        simp [emitAll, emit, flushCsp, storeLine, instruction, Text.needsCspFlush, stale]
      rw [text]
      exact congrArg (fun m => some (m.loadr r)) once
    · have text : (emitAll [storeLine, instruction (Machine.loadr r) true false] s').1 =
          [(storeLine : AsmLine Rest), storeLine, instruction (Machine.loadr r) true false] := by
        simp [emitAll, emit, flushCsp, storeLine, instruction, Text.needsCspFlush, stale]
      rw [text]
      exact congrArg (fun m => some (m.loadr r)) ((congrArg Machine.storeCsp once).trans twice)
  · refine ⟨(m.putCsp x).loadr r, ?_, ⟨x, ?_⟩, nofun, fun _ => ?_⟩
    · rw [performs_append, lines, Option.bind_some]
      rfl
    · rw [loadr_putCsp r x stack, Machine.storeCsp, loadr_putCsp r _ stack, putCsp_putCsp]
    · have kept : (m.storeCsp.loadr r).regs 5 = m.regs 5 := Function.update_of_ne (Ne.symm same) _ _
      exact kept.trans (csp_putCsp m (m.regs 5)).symm

/-- A line, in the order of its effect and what the emitter knows afterwards. -/
theorem emit_spec {effect : Machine Rest → Option (Machine Rest)} {n' : Machine Rest}
    (invariant : Invariant s n o) (settled : s.Settled)
    (scratch : l.text.namesR5 = true → l.text.needsCspFlush = false → s.cspMemStale = false)
    (quiet : l.text.needsCspFlush = false → l.text.namesR5 = false → Quiet l n)
    (instr : l.code = .instr effect) (does : effect n = some n') (stays : l.text.leaves = false) :
    ∃ o', performs (emit l s).1 o = some o' ∧ Invariant (emit l s).2 n' o' := by
  have single : ∀ m, performs [l] m = effect m := by
    intro m
    simp only [performs, instr]
    cases effect m <;> rfl
  unfold emit
  rcases flushes : l.text.needsCspFlush with - | -
  · simp only [Bool.false_eq_true, if_false, List.nil_append, single]
    rcases named : l.text.namesR5 with - | -
    · obtain ⟨f, same, blind, keeps⟩ := quiet flushes named
      rw [instr] at same
      cases same
      obtain ⟨x, rfl⟩ := invariant.same
      have through := blind x
      have own := blind n.csp
      rw [does, Option.map_some] at through
      rw [putCsp_csp, does, Option.map_some, Option.some.injEq] at own
      refine ⟨n'.putCsp x, through, ⟨x, rfl⟩, ?_, ?_⟩
      · intro current
        have equal := invariant.current current
        rw [equal, does, Option.some.injEq] at through
        exact through.symm
      · intro cached
        simp only [Bool.and_eq_true] at cached
        have word : n'.csp = n.csp := by rw [own, csp_putCsp]
        rw [keeps n' does, word]
        exact invariant.cached cached.1
    · have equal := invariant.current (scratch named flushes)
      subst equal
      refine ⟨n', does, ⟨_, (putCsp_csp n').symm⟩, fun _ => rfl, fun cached => ?_⟩
      simp [Text.forgets, named] at cached
  · obtain ⟨flushed, current, cached⟩ := flushCsp_spec invariant settled
    simp only [if_true]
    refine ⟨n', ?_, ⟨_, (putCsp_csp n').symm⟩, fun _ => rfl, fun still => ?_⟩
    · rw [performs_append, flushed, Option.bind_some, single, does]
    · -- what flushes and is neither forgotten nor leaves is a jump, and no instruction
      exfalso
      simp only [Bool.and_eq_true, Bool.not_eq_true', Text.forgets, Bool.or_eq_false_iff] at still
      obtain ⟨-, ⟨⟨label, -⟩, named⟩, traps⟩ := still
      simp only [Text.needsCspFlush, label, traps, stays, named, Bool.false_or, Bool.or_false] at flushes
      obtain ⟨taken, name, jump⟩ := l.jumps flushes
      rw [instr] at jump
      cases jump

end

/-! ## The variables of the emitter -/

/-- R5 is used as scratch only where memory is current. -/
def Disciplined : Emitter → List (Piece Rest) → Prop
  | _, [] => True
  | s, p :: rest =>
    (∀ l, p = .emit l → l.text.namesR5 = true → l.text.needsCspFlush = false →
      s.cspMemStale = false) ∧ Disciplined (emitPiece p s).2 rest

theorem flushCsp_stale (s : Emitter) : (@flushCsp Rest s).2.cspMemStale = false := by
  unfold flushCsp
  split_ifs with stale
  · rfl
  · simpa using stale

theorem emit_stale (l : AsmLine Rest) {s : Emitter} (current : s.cspMemStale = false) :
    (emit l s).2.cspMemStale = false := by
  unfold emit
  split_ifs
  · exact flushCsp_stale s
  · exact current

theorem disciplined_lines (lines : List (AsmLine Rest)) (rest : List (Piece Rest)) {s : Emitter}
    (current : s.cspMemStale = false) (others : ∀ s, Disciplined s rest) :
    Disciplined s (lines.map Piece.emit ++ rest) := by
  induction lines generalizing s with
  | nil => exact others s
  | cons l lines ih =>
    exact ⟨fun _ _ _ _ => current, ih (emit_stale l current)⟩

/-- The code generator keeps to this. -/
theorem disciplined_calls (calls : List (Call Rest)) (s : Emitter) :
    Disciplined s (calls.flatMap Call.pieces) := by
  induction calls generalizing s with
  | nil => trivial
  | cons call calls ih =>
    rw [List.flatMap_cons]
    cases call with
    | line l spares =>
      refine ⟨?_, ih _⟩
      rintro l ⟨⟩ named quiet
      rw [spares named] at quiet
      cases quiet
    | scratch lines =>
      exact ⟨nofun, disciplined_lines lines _ (flushCsp_stale s) ih⟩
    | push r | pop r | adjust delta => exact ⟨nofun, ih _⟩

theorem emitPiece_settled {p : Piece Rest} {s : Emitter} (settled : s.Settled)
    (scratch : ∀ l, p = .emit l → l.text.namesR5 = true → l.text.needsCspFlush = false →
      s.cspMemStale = false) : (emitPiece p s).2.Settled := by
  cases p with
  | emit l =>
    intro stale
    rcases flushes : l.text.needsCspFlush with - | -
    · have before : s.cspMemStale = true := by
        simpa [emitPiece, emit, flushes] using stale
      have named : l.text.namesR5 = false := by
        by_contra names
        rw [scratch l rfl (by simpa using names) flushes] at before
        cases before
      simp only [Text.needsCspFlush, Bool.or_eq_false_iff] at flushes
      simp [emitPiece, emit, Text.needsCspFlush, Text.forgets, flushes, named, settled before]
    · simp only [emitPiece, emit, flushes, if_true] at stale
      rw [flushCsp_stale] at stale
      cases stale
  | flush =>
    intro stale
    simp only [emitPiece, flushCsp] at stale ⊢
    split_ifs at stale ⊢
    exact settled stale
  | push r | adjust delta => exact fun _ => rfl
  | pop r =>
    intro stale
    simp only [emitPiece] at stale ⊢
    split_ifs at stale ⊢
    rfl

theorem emitPieces_append (first second : List (Piece Rest)) (s : Emitter) :
    emitPieces (first ++ second) s =
      ((emitPieces first s).1 ++ (emitPieces second (emitPieces first s).2).1,
        (emitPieces second (emitPieces first s).2).2) := by
  induction first generalizing s with
  | nil => rfl
  | cons p rest ih =>
    simp only [List.cons_append, emitPieces, ih, List.append_assoc]

/-- Before each piece of a function the emitter is settled, and the piece keeps to the discipline. -/
theorem disciplined_at {before after : List (Piece Rest)} {p : Piece Rest} {s : Emitter}
    (settled : s.Settled) (disciplined : Disciplined s (before ++ p :: after)) :
    (emitPieces before s).2.Settled ∧
      ∀ l, p = .emit l → l.text.namesR5 = true → l.text.needsCspFlush = false →
        (emitPieces before s).2.cspMemStale = false := by
  induction before generalizing s with
  | nil => exact ⟨settled, disciplined.1⟩
  | cons q before ih =>
    exact ih (emitPiece_settled settled disciplined.1) disciplined.2

/-! ## Labels -/

/-- The lines are instructions. -/
def Straight (lines : List (AsmLine Rest)) : Prop := ∀ l ∈ lines, ∃ effect, l.code = .instr effect

theorem Straight.append {first second : List (AsmLine Rest)} (one : Straight first)
    (other : Straight second) : Straight (first ++ second) := by
  intro l member
  rcases List.mem_append.mp member with early | late
  · exact one l early
  · exact other l late

theorem straight_flushCsp (s : Emitter) : Straight (@flushCsp Rest s).1 := by
  unfold flushCsp
  split_ifs
  · exact List.forall_mem_singleton.mpr ⟨_, rfl⟩
  · exact nofun

theorem straight_emit (instr : ∃ effect, l.code = .instr effect) (s : Emitter) :
    Straight (emit l s).1 := by
  refine Straight.append ?_ (List.forall_mem_singleton.mpr instr)
  split_ifs
  · exact straight_flushCsp s
  · exact nofun

theorem straight_emitAll (straight : Straight lines) (s : Emitter) :
    Straight (emitAll lines s).1 := by
  induction lines generalizing s with
  | nil => exact nofun
  | cons l rest ih =>
    obtain ⟨first, others⟩ := List.forall_mem_cons.mp straight
    exact (straight_emit first s).append (ih others _)

theorem straight_loadCsp (s : Emitter) : Straight (@loadCsp Rest s).1 := by
  unfold loadCsp
  split_ifs
  · exact nofun
  · exact straight_emit ⟨_, rfl⟩ s

/-- A piece that is not a line puts instructions into the text. -/
theorem straight_emitPiece {p : Piece Rest} (helper : ∀ l, p ≠ .emit l) (s : Emitter) :
    Straight (emitPiece p s).1 := by
  have straight : Straight (middle p) := fun l member => (middle_spec p l member).2
  have early := (straight_loadCsp s).append (straight_emitAll straight (@loadCsp Rest s).2)
  cases p with
  | emit l => exact absurd rfl (helper l)
  | flush => exact straight_flushCsp s
  | push r | adjust delta => exact early
  | pop r =>
    simp only [emitPiece]
    split_ifs
    · refine early.append (straight_emitAll ?_ _)
      exact List.forall_mem_cons.mpr ⟨⟨_, rfl⟩, List.forall_mem_singleton.mpr ⟨_, rfl⟩⟩
    · exact early.append (straight_emit ⟨_, rfl⟩ _)

/-- Only a piece that is a label puts that label into the text. -/
theorem isLabel_of_mem {line : AsmLine Rest} {p : Piece Rest} {s : Emitter}
    (member : line ∈ (emitPiece p s).1) (label : line.code.isLabel name = true) :
    p.isLabel name = true := by
  have absent : ∀ {lines : List (AsmLine Rest)}, Straight lines → line ∉ lines := by
    intro lines straight inside
    obtain ⟨effect, instr⟩ := straight line inside
    rw [instr] at label
    cases label
  by_cases helper : ∀ l, p ≠ .emit l
  · exact absurd member (absent (straight_emitPiece helper s))
  simp only [ne_eq, not_forall, not_not] at helper
  obtain ⟨l, rfl⟩ := helper
  rcases List.mem_append.mp member with early | last
  · exfalso
    split_ifs at early
    · exact absent (straight_flushCsp s) early
    · cases early
  · rw [List.mem_singleton.mp last] at label
    exact label

theorem isLabel_of_mem_pieces {line : AsmLine Rest} {pieces : List (Piece Rest)} {s : Emitter}
    (member : line ∈ (emitPieces pieces s).1) (label : line.code.isLabel name = true) :
    ∃ p ∈ pieces, p.isLabel name = true := by
  induction pieces generalizing s with
  | nil => cases member
  | cons p rest ih =>
    rcases List.mem_append.mp member with first | others
    · exact ⟨p, List.mem_cons_self, isLabel_of_mem first label⟩
    obtain ⟨q, inside, found⟩ := ih others
    exact ⟨q, List.mem_cons_of_mem p inside, found⟩

/-! ## The text of a function -/

/-- What the assembler makes of the text. -/
def codeOf (pieces : List (Piece Rest)) : List (Line (Machine Rest)) :=
  (emitPieces pieces {}).1.map AsmLine.code

/-- Where the text of a piece begins. -/
def position (pieces : List (Piece Rest)) (i : Nat) : Nat := (emitPieces (pieces.take i) {}).1.length

/-- The variables of the emitter there. -/
def stateAt (pieces : List (Piece Rest)) (i : Nat) : Emitter := (emitPieces (pieces.take i) {}).2

section

variable {pieces : List (Piece Rest)} {i : Nat} {p : Piece Rest}

section

variable (found : pieces[i]? = some p)
include found

theorem split_at : pieces = pieces.take i ++ p :: pieces.drop (i + 1) := by
  obtain ⟨inside, same⟩ := List.getElem?_eq_some_iff.mp found
  rw [← same, List.getElem_cons_drop, List.take_append_drop]

theorem take_succ : pieces.take (i + 1) = pieces.take i ++ [p] := by
  rw [List.take_add_one, found]
  rfl

theorem position_succ :
    position pieces (i + 1) = position pieces i + (emitPiece p (stateAt pieces i)).1.length := by
  rw [position, take_succ found, emitPieces_append, List.length_append]
  simp [position, emitPieces, stateAt]

theorem stateAt_succ : stateAt pieces (i + 1) = (emitPiece p (stateAt pieces i)).2 := by
  rw [stateAt, take_succ found, emitPieces_append]
  rfl

/-- The text of a piece in that of the function. -/
theorem code_split : ∃ after, codeOf pieces =
    (emitPieces (pieces.take i) {}).1.map AsmLine.code ++
      (emitPiece p (stateAt pieces i)).1.map AsmLine.code ++ after := by
  refine ⟨(emitPieces (pieces.drop (i + 1)) (emitPiece p (stateAt pieces i)).2).1.map AsmLine.code, ?_⟩
  conv_lhs => rw [codeOf, split_at found, emitPieces_append]
  simp only [emitPieces, List.map_append, List.append_assoc]
  rfl

theorem placed_piece : Placed (codeOf pieces) (position pieces i)
    ((emitPiece p (stateAt pieces i)).1.map AsmLine.code) := by
  obtain ⟨after, split⟩ := code_split found
  exact ⟨_, after, split, by rw [List.length_map, position]⟩

end

theorem runs_performs {code : List (Line (Machine Rest))} {start : Nat} {m m' : Machine Rest}
    (placed : Placed code start (lines.map AsmLine.code)) (done : performs lines m = some m') :
    Runs code (start, m) (start + lines.length, m') := by
  induction lines generalizing start m with
  | nil =>
    cases done
    exact Relation.ReflTransGen.refl
  | cons l rest ih =>
    rw [performs] at done
    have here := placed.line
    cases instr : l.code with
    | instr effect =>
      rw [instr] at done here
      obtain ⟨next, does, others⟩ := Option.bind_eq_some_iff.mp done
      have tail := ih placed.tail others
      rw [Nat.add_assoc, Nat.add_comm 1] at tail
      exact (runs_instr here does).trans tail
    | label name | jump taken name => rw [instr] at done; cases done

/-- What `emit` puts before a line. -/
def flushBefore (l : AsmLine Rest) (s : Emitter) : List (AsmLine Rest) :=
  (if l.text.needsCspFlush then flushCsp s else ([], s)).1

theorem emit_text (l : AsmLine Rest) (s : Emitter) : (emit l s).1 = flushBefore l s ++ [l] := rfl

/-- Before a line that flushes, or uses R5, the machines are the same. -/
theorem emit_equal {s : Emitter} {n o : Machine Rest} (invariant : Invariant s n o)
    (settled : s.Settled)
    (scratch : l.text.namesR5 = true → l.text.needsCspFlush = false → s.cspMemStale = false)
    (seen : l.text.needsCspFlush = true ∨ l.text.namesR5 = true) :
    performs (flushBefore l s) o = some n ∧ Invariant (emit l s).2 n n := by
  unfold flushBefore emit
  rcases flushes : l.text.needsCspFlush with - | -
  · have named := seen.resolve_left (by simp [flushes])
    have equal := invariant.current (scratch named flushes)
    refine ⟨congrArg some equal, ⟨_, (putCsp_csp n).symm⟩, fun _ => rfl, fun cached => ?_⟩
    simp [Text.forgets, named] at cached
  · obtain ⟨flushed, -, cached⟩ := flushCsp_spec invariant settled
    refine ⟨flushed, ⟨_, (putCsp_csp n).symm⟩, fun _ => rfl, fun still => ?_⟩
    simp only [if_true, Bool.and_eq_true] at still
    exact cached still.1

/-- A label is found in the text where its piece stands. -/
theorem target_piece (first : pieces.findIdx? (Piece.isLabel name) = some i)
    (found : pieces[i]? = some (.emit l)) :
    target (codeOf pieces) name =
        some (position pieces i + (flushBefore l (stateAt pieces i)).length) ∧
      (codeOf pieces)[position pieces i + (flushBefore l (stateAt pieces i)).length]? =
        some (.label name) := by
  obtain ⟨inside, label, others⟩ := List.findIdx?_eq_some_iff_getElem.mp first
  obtain ⟨_, same⟩ := List.getElem?_eq_some_iff.mp found
  rw [same] at label
  have code : l.code = .label name := by
    have isLabel : l.code.isLabel name = true := label
    cases shape : l.code with
    | label other =>
      rw [shape, Line.isLabel, beq_iff_eq] at isLabel
      rw [isLabel]
    | jump taken other | instr effect => rw [shape] at isLabel; cases isLabel
  obtain ⟨after, split⟩ := code_split found
  have text : codeOf pieces = ((emitPieces (pieces.take i) {}).1 ++
      flushBefore l (stateAt pieces i)).map AsmLine.code ++ .label name :: after := by
    rw [split, emitPiece, emit_text]
    simp [code]
  have fresh : ∀ line ∈ ((emitPieces (pieces.take i) {}).1 ++
      flushBefore l (stateAt pieces i)).map AsmLine.code, line.isLabel name = false := by
    intro line member
    obtain ⟨asm, inText, rfl⟩ := List.mem_map.mp member
    by_contra carries
    have carries : asm.code.isLabel name = true := by simpa using carries
    rcases List.mem_append.mp inText with early | late
    · obtain ⟨p, early, isLabel⟩ := isLabel_of_mem_pieces early carries
      obtain ⟨j, before, rfl⟩ := List.mem_iff_getElem.mp early
      rw [List.length_take] at before
      rw [List.getElem_take] at isLabel
      exact others j (by omega) isLabel
    · unfold flushBefore at late
      split_ifs at late
      · obtain ⟨effect, instr⟩ := straight_flushCsp _ _ late
        rw [instr] at carries
        cases carries
      · cases late
  have length : (((emitPieces (pieces.take i) {}).1 ++
      flushBefore l (stateAt pieces i)).map AsmLine.code).length =
        position pieces i + (flushBefore l (stateAt pieces i)).length := by
    rw [List.length_map, List.length_append, position]
  rw [text]
  refine ⟨(target_of_fresh fresh).trans (congrArg some length), ?_⟩
  rw [← length]
  simp

end

/-! ## Runs -/

section

variable {pieces : List (Piece Rest)} {m : Machine Rest}

/-- The emitted code has come to a piece with the naive one. -/
def Follows (pieces : List (Piece Rest)) (m : Machine Rest) (state : Nat × Machine Rest) : Prop :=
  ∃ o, Runs (codeOf pieces) (0, m) (position pieces state.1, o) ∧
    Invariant (stateAt pieces state.1) state.2 o

/-- A piece of which all lines are instructions. -/
theorem follows_straight {i : Nat} {n o : Machine Rest} {p : Piece Rest} (found : pieces[i]? = some p)
    (reached : Runs (codeOf pieces) (0, m) (position pieces i, o))
    (done : ∃ o', performs (emitPiece p (stateAt pieces i)).1 o = some o' ∧
      Invariant (emitPiece p (stateAt pieces i)).2 n o') : Follows pieces m (i + 1, n) := by
  obtain ⟨o', performed, invariant⟩ := done
  refine ⟨o', ?_, ?_⟩
  · rw [position_succ found]
    exact reached.trans (runs_performs (placed_piece found) performed)
  · rw [stateAt_succ found]
    exact invariant

/-- A line that `emit` has seen is reached with the machines the same, and the next piece stands
after it. -/
theorem follows_line {i : Nat} {n o : Machine Rest} (found : pieces[i]? = some (.emit l))
    (reached : Runs (codeOf pieces) (0, m) (position pieces i, o))
    (invariant : Invariant (stateAt pieces i) n o) (settled : (stateAt pieces i).Settled)
    (scratch : l.text.namesR5 = true → l.text.needsCspFlush = false → (stateAt pieces i).cspMemStale = false)
    (seen : l.text.needsCspFlush = true ∨ l.text.namesR5 = true) :
    ∃ q, Runs (codeOf pieces) (0, m) (q, n) ∧ (codeOf pieces)[q]? = some l.code ∧
      position pieces (i + 1) = q + 1 ∧ Invariant (stateAt pieces (i + 1)) n n := by
  obtain ⟨performed, equal⟩ := emit_equal invariant settled scratch seen
  have placed := placed_piece found
  rw [emitPiece, emit_text, List.map_append] at placed
  have here := placed.right.line
  rw [List.length_map] at here
  refine ⟨_, reached.trans (runs_performs placed.left performed), here, ?_, ?_⟩
  · rw [position_succ found, emitPiece, emit_text, List.length_append, List.length_singleton,
      Nat.add_assoc]
  · rw [stateAt_succ found]
    exact equal

/-- The emitter before a piece. -/
theorem emitter_at (disciplined : Disciplined {} pieces) {i : Nat} {p : Piece Rest}
    (found : pieces[i]? = some p) : (stateAt pieces i).Settled ∧
      ∀ l, p = .emit l → l.text.namesR5 = true → l.text.needsCspFlush = false →
        (stateAt pieces i).cspMemStale = false := by
  rw [split_at found] at disciplined
  exact disciplined_at nofun disciplined

/-- A jump that is taken leads to the place after the label, where nothing is cached. -/
theorem follows_jump {n : Machine Rest} {q j : Nat} {taken : Machine Rest → Bool}
    (reached : Runs (codeOf pieces) (0, m) (q, n))
    (here : (codeOf pieces)[q]? = some (.jump taken name)) (goes : taken n = true)
    (first : pieces.findIdx? (Piece.isLabel name) = some j)
    (labels : ∀ p ∈ pieces, p.isLabel name = true → ∃ l, p = .emit l ∧ l.text.label = true) :
    Follows pieces m (j + 1, n) := by
  obtain ⟨inside, label, -⟩ := List.findIdx?_eq_some_iff_getElem.mp first
  obtain ⟨l, same, text⟩ := labels pieces[j] (List.getElem_mem inside) label
  have found : pieces[j]? = some (.emit l) := by rw [List.getElem?_eq_getElem inside, same]
  obtain ⟨goal, landing⟩ := target_piece first found
  refine ⟨n, ?_, ⟨_, (putCsp_csp n).symm⟩, fun _ => rfl, ?_⟩
  · have next : position pieces (j + 1) =
        position pieces j + (flushBefore l (stateAt pieces j)).length + 1 := by
      rw [position_succ found, emitPiece, emit_text, List.length_append, List.length_singleton,
        Nat.add_assoc]
    rw [next]
    exact (reached.trans (runs_jump here goes goal)).trans (runs_label landing)
  · intro cached
    rw [stateAt_succ found] at cached
    simp [emitPiece, emit, Text.forgets, text] at cached

/-- A line of the naive code is followed by the emitted one. -/
theorem follows_emit {i : Nat} {n : Machine Rest} {next : Nat × Machine Rest}
    (disciplined : Disciplined {} pieces) (found : pieces[i]? = some (.emit l))
    (follows : Follows pieces m (i, n)) (fine : Fine pieces (i, n))
    (step : naiveStep pieces (i, n) = some next) : Follows pieces m next := by
  obtain ⟨o, reached, invariant⟩ := follows
  obtain ⟨settled, scratch⟩ := emitter_at disciplined found
  simp only [Fine, found] at fine
  simp only [naiveStep, found] at step
  obtain ⟨quiet, labels⟩ := fine
  split_ifs at step with leaves
  -- a line that is no instruction is not quiet, so `emit` has seen it
  have seen : (∀ effect, l.code ≠ .instr effect) →
      l.text.needsCspFlush = true ∨ l.text.namesR5 = true := by
    intro other
    by_contra unseen
    obtain ⟨flushes, named⟩ := not_or.mp unseen
    obtain ⟨effect, instr, -⟩ := quiet (by simpa using flushes) (by simpa using named)
    exact other effect instr
  cases code : l.code with
  | label name =>
    obtain ⟨q, arrived, here, place, equal⟩ :=
      follows_line found reached invariant settled (scratch l rfl) (seen (by simp [code]))
    rw [code] at here step
    cases step
    refine ⟨n, ?_, equal⟩
    rw [place]
    exact arrived.trans (runs_label here)
  | jump taken name =>
    obtain ⟨q, arrived, here, place, equal⟩ :=
      follows_line found reached invariant settled (scratch l rfl) (seen (by simp [code]))
    rw [code] at here
    simp only [code] at step
    split_ifs at step with goes
    · obtain ⟨j, first, rfl⟩ := Option.map_eq_some_iff.mp step
      exact follows_jump arrived here goes first (labels taken name code)
    cases step
    refine ⟨n, ?_, equal⟩
    rw [place]
    exact arrived.trans (runs_past here (by simpa using goes))
  | instr effect =>
    simp only [code] at step
    obtain ⟨n', does, rfl⟩ := Option.map_eq_some_iff.mp step
    exact follows_straight found reached
      (emit_spec invariant settled (scratch l rfl) quiet code does (by simpa using leaves))

/-- One piece of the naive code is followed by the emitted one. -/
theorem follows_step (disciplined : Disciplined {} pieces) {state next : Nat × Machine Rest}
    (follows : Follows pieces m state) (fine : Fine pieces state)
    (step : naiveStep pieces state = some next) : Follows pieces m next := by
  obtain ⟨i, n⟩ := state
  rcases found : pieces[i]? with - | p
  · simp only [naiveStep, found] at step
    cases step
  have ⟨o, reached, invariant⟩ := follows
  obtain ⟨settled, -⟩ := emitter_at disciplined found
  cases p with
  | emit l => exact follows_emit disciplined found follows fine step
  | flush =>
    simp only [naiveStep, found] at step
    cases step
    obtain ⟨performed, -, cached⟩ := flushCsp_spec invariant settled
    refine follows_straight found reached ⟨n, performed, ⟨_, (putCsp_csp n).symm⟩, fun _ => rfl, ?_⟩
    exact cached
  | push r =>
    simp only [naiveStep, found] at step
    simp only [Fine, found] at fine
    cases step
    exact follows_straight found reached (push_spec r invariant settled fine)
  | pop r =>
    simp only [naiveStep, found] at step
    simp only [Fine, found] at fine
    cases step
    exact follows_straight found reached (pop_spec r invariant settled fine)
  | adjust delta =>
    simp only [naiveStep, found] at step
    cases step
    exact follows_straight found reached (adjust_spec delta invariant settled)

theorem follows_run (disciplined : Disciplined {} pieces) {state : Nat × Machine Rest}
    (run : NaiveRuns pieces (0, m) state) : Follows pieces m state := by
  induction run with
  | refl =>
    refine ⟨m, Relation.ReflTransGen.refl, ⟨_, (putCsp_csp m).symm⟩, fun _ => rfl, nofun⟩
  | tail _ move ih => exact follows_step disciplined ih move.1 move.2

end

/-- Wherever a run of the naive code comes whose steps all meet the condition, the emitted code
comes as well: with a machine that differs at most in the word `__csp`, and with the same machine
before each line for which `emit` flushes. -/
theorem write_back_before_use (calls : List (Call Rest)) (m : Machine Rest) {i : Nat} {n : Machine Rest}
    (run : NaiveRuns (calls.flatMap Call.pieces) (0, m) (i, n)) :
    (∃ o, Runs (codeOf (calls.flatMap Call.pieces)) (0, m)
        (position (calls.flatMap Call.pieces) i, o) ∧ ∃ x, o = n.putCsp x) ∧
      ∀ l, (calls.flatMap Call.pieces)[i]? = some (.emit l) → l.text.needsCspFlush = true →
        ∃ q, (codeOf (calls.flatMap Call.pieces))[q]? = some l.code ∧
          Runs (codeOf (calls.flatMap Call.pieces)) (0, m) (q, n) := by
  have disciplined := disciplined_calls calls {}
  obtain ⟨o, reached, invariant⟩ := follows_run disciplined run
  refine ⟨⟨o, reached, invariant.same⟩, ?_⟩
  intro l found flushes
  obtain ⟨settled, scratch⟩ := emitter_at disciplined found
  obtain ⟨q, arrived, here, -⟩ :=
    follows_line found reached invariant settled (scratch l rfl) (Or.inl flushes)
  exact ⟨q, here, arrived⟩

/-! ## Two functions -/

/-- `MOV R0, x`. -/
def mov0 (x : Word) : AsmLine Unit := instruction (fun m => m.setReg 0 x) false false

/-- The call of a function that does nothing. -/
def callLine : AsmLine Unit := ⟨{ traps := true }, .instr some, nofun⟩

def retLine : AsmLine Unit := ⟨{ leaves := true }, .instr fun _ => none, nofun⟩

/-- `mov r5, 7`, which the assembler reads as it does `MOV R5, 7`, and `emit` does not. -/
def smallMov5 : AsmLine Unit := instruction (fun m => m.setReg 5 7) false false

/-- `g(x);`. -/
def callOf (x : Word) : List (Call Unit) :=
  [.line (mov0 x) nofun, .push 0, .line callLine nofun, .adjust (-4)]

/-- `g(1);` and the return. -/
def callOnce : List (Piece Unit) := (callOf 1 ++ [Call.line retLine nofun]).flatMap Call.pieces

/-- `g(1); asm("mov r5, 7"); g(2);` and the return. -/
def smallMovBetween : List (Piece Unit) :=
  (callOf 1 ++ [Call.scratch [smallMov5]] ++ callOf 2 ++ [Call.line retLine nofun]).flatMap Call.pieces

/-- A machine whose stack begins at 100, with `__csp` at 64. -/
def startMachine : Machine Unit where
  regs _ := 0
  flags := 0
  mem b := if b = 64 then 100 else 0
  cspAddr := 64
  rest := ()

theorem mov0_quiet (x : Word) (m : Machine Unit) : Quiet (mov0 x) m := by
  refine ⟨_, rfl, fun _ => rfl, ?_⟩
  rintro m' ⟨⟩
  exact Function.update_of_ne (show (5 : Fin 8) ≠ 0 by decide) x m.regs

theorem write_back_before_return : ∃ n : Machine Unit, NaiveRuns callOnce (0, startMachine) (4, n) ∧
    ∃ q, (codeOf callOnce)[q]? = some retLine.code ∧
      Runs (codeOf callOnce) (0, startMachine) (q, n) := by
  have apart : Apart (startMachine.setReg 0 1).csp (startMachine.setReg 0 1).cspAddr := by
    intro b
    have stack : (startMachine.setReg 0 1).csp = 100 := by decide
    have word : (startMachine.setReg 0 1).cspAddr = 64 := rfl
    rw [stack, word]
    bv_omega
  have run : NaiveRuns callOnce (0, startMachine)
      (4, naive (.adjust (-4)) (naive (.push 0) (startMachine.setReg 0 1))) := by
    have moved : NaiveRuns callOnce (0, startMachine) (1, startMachine.setReg 0 1) :=
      .single ⟨⟨fun _ _ => mov0_quiet 1 _, nofun⟩, rfl⟩
    have pushed := moved.tail ⟨apart, rfl⟩
    have called := pushed.tail ⟨⟨nofun, nofun⟩, rfl⟩
    exact called.tail ⟨trivial, rfl⟩
  exact ⟨_, run, (write_back_before_use _ _ run).2 retLine rfl rfl⟩

/-- The state after a number of steps. -/
def stepsOf {S : Type} (step : S → Option S) : Nat → S → Option S
  | 0, s => some s
  | k + 1, s => (step s).bind (stepsOf step k)

/-- At the return the naive code has `__csp` at the beginning of the stack again, and the emitted
code has it at 7. -/
theorem small_mov_moves_stack :
    (stepsOf (naiveStep smallMovBetween) 10 (0, startMachine)).map (fun s => (s.1, s.2.csp)) =
        some (10, 100) ∧
      (stepsOf (step (codeOf smallMovBetween)) 22 (0, startMachine)).map (fun s => (s.1, s.2.csp)) =
        some (22, 7) ∧
      smallMovBetween.length = 11 ∧ (codeOf smallMovBetween).length = 23 := by
  decide +kernel

end JsEmulator.Toolchain.Deferred
