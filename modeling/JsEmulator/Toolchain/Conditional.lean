import JsEmulator.Custom32.Instructions
import JsEmulator.Library.LabelledCode
import JsEmulator.Toolchain.Types

/-!
# The conditional operator

`genConditional` of `codegen.ts`, for conditionals nested in each other's arms. Its operands are
expressions of arithmetic types whose code leaves their value as the type is held in registers: one
word in R0, or two in R0 and R1. `addType` gives the conditional the common type of its arms, but
the code of an arm leaves the value in the arm's own type. The consumer of the conditional, whatever
it is, reads the registers by the type of the conditional.
-/

namespace JsEmulator.Toolchain.Conditional

open JsEmulator.Custom32 (Word hasFlag hasFlag_setSubFlags zf setZS setSubFlags)
open JsEmulator.Library.LabelledCode

/-- The registers and the flags, and the memory and all else that an expression may read and
change. -/
structure Machine (Rest : Type) where
  regs : Fin 8 → Word
  flags : Word
  rest : Rest

variable {Rest : Type}

namespace Machine

def setReg (m : Machine Rest) (r : Fin 8) (x : Word) : Machine Rest :=
  { m with regs := Function.update m.regs r x }

/-- An instruction that changes a register by another one and sets the zero and sign flags. -/
def logical (f : Word → Word → Word) (a b : Fin 8) (m : Machine Rest) : Machine Rest :=
  { m.setReg a (f (m.regs a) (m.regs b)) with flags := setZS m.flags (f (m.regs a) (m.regs b)) }

/-- `MOV`. -/
def mov (r : Fin 8) (x : Word) (m : Machine Rest) : Machine Rest := m.setReg r x

/-- `CMP`. -/
def cmp (a b : Fin 8) (m : Machine Rest) : Machine Rest :=
  { m with flags := setSubFlags m.flags (m.regs a) (m.regs b) (m.regs a - m.regs b) }

end Machine

/-- Two words hold the value as the code generator holds one of the type. -/
def HeldBy (lo hi : Word) (ty : Ty) : Value → Prop
  | .integer n => if ty.is64 then hi ++ lo = BitVec.ofInt 64 n else lo = BitVec.ofInt 32 n
  | .single bits => lo = bits
  | .double bits => hi ++ lo = bits

instance (lo hi : Word) (ty : Ty) (v : Value) : Decidable (HeldBy lo hi ty v) := by
  unfold HeldBy
  cases v <;> infer_instance

/-- The registers hold the value. -/
def Machine.Holds (m : Machine Rest) (ty : Ty) (v : Value) : Prop :=
  HeldBy (m.regs 0) (m.regs 1) ty v

instance (m : Machine Rest) (ty : Ty) (v : Value) : Decidable (m.Holds ty v) :=
  inferInstanceAs (Decidable (HeldBy _ _ ty v))

/-- An expression that is not a conditional: what C assigns to it and does, and what its code
does. -/
structure Operand (Rest : Type) where
  ty : Ty
  denote : Rest → Value × Rest
  run : Machine Rest → Machine Rest
  has : ∀ s, ty.Has (denote s).1
  rest : ∀ m, (run m).rest = (denote m.rest).2
  holds : ∀ m, (run m).Holds ty (denote m.rest).1

/-- Conditionals, nested in their arms. -/
inductive Expr (Rest : Type) where
  | operand (o : Operand Rest)
  | cond (test : Operand Rest) (thenStmt els : Expr Rest)

/-- The types of the operands of a conditional. -/
inductive Shape where
  | operand (ty : Ty)
  | cond (test : Ty) (thenStmt els : Shape)
  deriving DecidableEq, Repr

/-- `addType` for a conditional with arithmetic arms. -/
def Shape.ty : Shape → Ty
  | .operand ty => ty
  | .cond _ thenStmt els => Ty.usualArithmeticType thenStmt.ty els.ty

/-- The types of the arms that may be selected. -/
def Shape.arms : Shape → List Ty
  | .operand ty => [ty]
  | .cond _ thenStmt els => thenStmt.arms ++ els.arms

def Expr.shape : Expr Rest → Shape
  | .operand o => .operand o.ty
  | .cond test thenStmt els => .cond test.ty thenStmt.shape els.shape

/-- What C assigns: the selected arm is evaluated and converted to the common type. -/
def Expr.denote : Expr Rest → Rest → Value × Rest
  | .operand o, s => o.denote s
  | .cond test thenStmt els, s =>
    let arm := if (test.denote s).1.truth then thenStmt.denote (test.denote s).2
      else els.denote (test.denote s).2
    (arm.1.convert (Expr.cond test thenStmt els).shape.ty, arm.2)

/-! ## The code -/

/-- Lines with one instruction each. -/
def emit (effects : List (Machine Rest → Machine Rest)) : List (Line (Machine Rest)) :=
  effects.map fun effect => .instr fun m => some (effect m)

/-- `genCond`. -/
def genCond (test : Operand Rest) : List (Machine Rest → Machine Rest) :=
  test.run ::
    if test.ty.is64 then [Machine.logical (· ||| ·) 0 1]
    else if test.ty.kind = .float then [Machine.mov 7 2147483647, Machine.logical (· &&& ·) 0 7]
    else if test.ty.kind = .double then
      [Machine.mov 7 2147483647, Machine.logical (· &&& ·) 1 7, Machine.logical (· ||| ·) 0 1]
    else []

/-- The test and its comparison with zero. -/
def compareTest (test : Operand Rest) : List (Machine Rest → Machine Rest) :=
  genCond test ++ [Machine.mov 7 0, Machine.cmp 0 7]

/-- `genExpr` for a conditional is `genConditional`; the number counts the labels. -/
def genExpr : Expr Rest → Nat → List (Line (Machine Rest)) × Nat
  | .operand o, labelId => (emit [o.run], labelId)
  | .cond test thenStmt els, labelId =>
    let first := genExpr thenStmt (labelId + 2)
    let second := genExpr els first.2
    (choice (emit (compareTest test)) (fun m => hasFlag m.flags zf) labelId (labelId + 1)
      first.1 second.1, second.2)

/-! ## What the code does -/

/-- The instructions one after the other. -/
def perform (effects : List (Machine Rest → Machine Rest)) (m : Machine Rest) : Machine Rest :=
  effects.foldl (fun m effect => effect m) m

/-- The machine at the end of the code. -/
def Expr.effect : Expr Rest → Machine Rest → Machine Rest
  | .operand o, m => o.run m
  | .cond test thenStmt els, m =>
    let tested := perform (compareTest test) m
    if hasFlag tested.flags zf then els.effect tested else thenStmt.effect tested

theorem numbered_genExpr (e : Expr Rest) (labelId : Nat) :
    labelId ≤ (genExpr e labelId).2 ∧
      Numbered (genExpr e labelId).1 labelId (genExpr e labelId).2 := by
  induction e generalizing labelId with
  | operand o => exact ⟨le_rfl, numbered_straight [o.run] _ _⟩
  | cond test thenStmt els first second =>
    obtain ⟨firstGrows, firstNumbered⟩ := first (labelId + 2)
    obtain ⟨secondGrows, secondNumbered⟩ := second (genExpr thenStmt (labelId + 2)).2
    simp only [genExpr, choice]
    refine ⟨by omega, ?_⟩
    refine ((numbered_straight _ _ _).append (numbered_jump _ _ _ _)).append ?_
    refine (firstNumbered.mono (by omega) secondGrows).append ?_
    have between : Numbered ([.jump (fun _ => true) (labelId + 1)] ++ [.label labelId]) labelId
        (genExpr els (genExpr thenStmt (labelId + 2)).2).2 :=
      (numbered_jump (fun _ : Machine Rest => true) _ _ _).append
        (numbered_label (by omega) (by omega))
    exact between.append ((secondNumbered.mono (by omega) le_rfl).append
      (numbered_label (by omega) (by omega)))

/-- The code brings the machine to its end, wherever it stands. -/
theorem genExpr_runs (e : Expr Rest) {labelId : Nat} {code before after : List (Line (Machine Rest))}
    (placed : code = before ++ (genExpr e labelId).1 ++ after)
    (numbered : Numbered before 0 labelId) (m : Machine Rest) :
    Runs code (before.length, m) (before.length + (genExpr e labelId).1.length, e.effect m) := by
  induction e generalizing labelId before after m with
  | operand o =>
    have block : Placed code before.length (emit [o.run]) := ⟨before, after, placed, rfl⟩
    exact runs_straight block
  | cond test thenStmt els first second =>
    obtain ⟨firstGrows, firstNumbered⟩ := numbered_genExpr thenStmt (labelId + 2)
    obtain ⟨secondGrows, secondNumbered⟩ := numbered_genExpr els (genExpr thenStmt (labelId + 2)).2
    have testNumbered : Numbered (before ++ emit (compareTest test)) 0 labelId :=
      numbered.append (numbered_straight _ _ _)
    have block : Placed code before.length (genExpr (.cond test thenStmt els) labelId).1 :=
      ⟨before, after, placed, rfl⟩
    have tests : Runs code (before.length, m)
        (before.length + (emit (compareTest test)).length, perform (compareTest test) m) := by
      have straight := @runs_straight _ code before.length m _ block.left.left
      rw [emit, List.length_map]
      exact straight
    -- the lines up to the first arm, and up to the second
    let toFirst := before ++ emit (compareTest test) ++
      [.jump (fun m => hasFlag m.flags zf) labelId]
    let toSecond := toFirst ++ (genExpr thenStmt (labelId + 2)).1 ++
      ([.jump (fun _ => true) (labelId + 1)] ++ [.label labelId])
    have toFirstNumbered : Numbered toFirst 0 (labelId + 2) :=
      (testNumbered.append (numbered_jump _ _ _ _)).mono le_rfl (by omega)
    have toSecondNumbered : Numbered toSecond 0 (genExpr thenStmt (labelId + 2)).2 :=
      ((toFirstNumbered.mono le_rfl firstGrows).append
        (firstNumbered.mono (by omega) le_rfl)).append
          ((numbered_jump _ _ _ _).append (numbered_label (by omega) (by omega)))
    have firstPlaced : code = toFirst ++ (genExpr thenStmt (labelId + 2)).1 ++
        ([.jump (fun _ => true) (labelId + 1), .label labelId] ++
          ((genExpr els (genExpr thenStmt (labelId + 2)).2).1 ++ ([.label (labelId + 1)] ++ after))) := by
      rw [placed, genExpr, choice]
      simp only [toFirst, List.append_assoc]
    have secondPlaced : code = toSecond ++ (genExpr els (genExpr thenStmt (labelId + 2)).2).1 ++
        ([.label (labelId + 1)] ++ after) := by
      rw [firstPlaced]
      simp only [toSecond, List.append_assoc, List.cons_append, List.nil_append]
    refine runs_choice placed ?_ ?_ (by omega) tests ?_ ?_
    · intro line member
      rcases List.mem_append.mp member with early | late
      · exact testNumbered.fresh (by omega) line early
      · exact firstNumbered.fresh (by omega) line late
    · intro line member
      rcases List.mem_append.mp member with early | late
      · rcases List.mem_append.mp early with earlier | later
        · exact testNumbered.fresh (by omega) line earlier
        · exact firstNumbered.fresh (by omega) line later
      · exact secondNumbered.fresh (by omega) line late
    · intro stays
      have arm := first firstPlaced toFirstNumbered (perform (compareTest test) m)
      simp only [toFirst, List.length_append, List.length_singleton] at arm
      rw [Expr.effect, if_neg (by simp [stays])]
      exact arm
    · intro goes
      have arm := second secondPlaced toSecondNumbered (perform (compareTest test) m)
      simp only [toFirst, toSecond, List.length_append, List.length_singleton] at arm
      rw [Expr.effect, if_pos goes]
      exact arm

/-! ## The test -/

/-- How a value of a type is held: in one word, in two, or as the bits of a `float` or a
`double`. -/
inductive Form where
  | word | pair | single | double
  deriving DecidableEq, Repr

/-- How `genExpr` holds the values of a type. -/
def form (ty : Ty) : Form :=
  match ty.kind with
  | .llong => .pair
  | .float => .single
  | .double => .double
  | _ => .word

/-- The values of a type, by the form in which it is held. -/
theorem has_cases {ty : Ty} {v : Value} (has : ty.Has v) :
    match form ty with
    | .word => ∃ n, v = .integer n ∧ wrap ty.isUnsigned 32 n = n
    | .pair => ∃ n, v = .integer n ∧ wrap ty.isUnsigned 64 n = n
    | .single => ∃ bits, v = .single bits
    | .double => ∃ bits, v = .double bits := by
  obtain ⟨kind, isUnsigned⟩ := ty
  cases v with
  | integer n =>
    obtain ⟨integer, range⟩ := has
    cases kind with
    | float | double => cases integer
    | llong => exact ⟨n, rfl, range⟩
    | char | short | int | long => exact ⟨n, rfl, wrap_of_le (by simp [Ty.size]) range⟩
  | single bits | double bits =>
    cases has
    exact ⟨bits, rfl⟩

theorem pair_or_eq_zero (lo hi : Word) : lo ||| hi = 0#32 ↔ hi ++ lo = 0#64 := by
  have zero : (0#64) = 0#32 ++ 0#32 := by decide
  rw [zero, append_inj, BitVec.or_eq_zero_iff, and_comm]

/-- The condition that `genCond` leaves in R0. -/
theorem genCond_zero (test : Operand Rest) (m : Machine Rest) :
    (perform (genCond test) m).regs 0 = 0#32 ↔ (test.denote m.rest).1.truth = false := by
  obtain ⟨⟨kind, isUnsigned⟩, denote, run, has, rest, holds⟩ := test
  have range := has_cases (has m.rest)
  have held := holds m
  cases kind with
  | llong =>
    obtain ⟨n, value, range⟩ := range
    rw [value] at held
    have bits : (run m).regs 1 ++ (run m).regs 0 = BitVec.ofInt 64 n := held
    have code : (perform (genCond ⟨⟨.llong, isUnsigned⟩, denote, run, has, rest, holds⟩) m).regs 0 =
        (run m).regs 0 ||| (run m).regs 1 := rfl
    rw [code, pair_or_eq_zero, bits, value]
    simp [Value.truth, ofInt_eq_zero range]
  | float =>
    obtain ⟨bits, value⟩ := range
    rw [value] at held
    have code : (perform (genCond ⟨⟨.float, isUnsigned⟩, denote, run, has, rest, holds⟩) m).regs 0 =
        (run m).regs 0 &&& 2147483647 := rfl
    have same : (run m).regs 0 = bits := held
    rw [code, value, same]
    simp [Value.truth]
  | double =>
    obtain ⟨bits, value⟩ := range
    rw [value] at held
    have code : (perform (genCond ⟨⟨.double, isUnsigned⟩, denote, run, has, rest, holds⟩) m).regs 0 =
        (run m).regs 0 ||| ((run m).regs 1 &&& 2147483647) := rfl
    have same : (run m).regs 1 ++ (run m).regs 0 = bits := held
    have mask : (0x7fffffffffffffff#64) = 0x7fffffff#32 ++ 0xffffffff#32 := by decide
    have full : (run m).regs 0 &&& 0xffffffff#32 = (run m).regs 0 := BitVec.and_allOnes
    rw [code, value, ← same, pair_or_eq_zero]
    simp only [Value.truth]
    rw [mask, BitVec.and_append, full]
    simp
  | char | short | int | long =>
    obtain ⟨n, value, range⟩ := range
    rw [value] at held
    have bits : (run m).regs 0 = BitVec.ofInt 32 n := held
    rw [value]
    simp [Value.truth, genCond, Ty.is64, perform, bits, ofInt_eq_zero range]

theorem genCond_rest (test : Operand Rest) (m : Machine Rest) :
    (perform (genCond test) m).rest = (test.denote m.rest).2 := by
  rw [← test.rest]
  unfold genCond
  split_ifs <;> rfl

/-- The zero flag after the test says that the condition is false. -/
theorem compareTest_spec (test : Operand Rest) (m : Machine Rest) :
    hasFlag (perform (compareTest test) m).flags zf = !(test.denote m.rest).1.truth ∧
      (perform (compareTest test) m).rest = (test.denote m.rest).2 := by
  have order : perform (compareTest test) m =
      Machine.cmp 0 7 (Machine.mov 7 0 (perform (genCond test) m)) := by
    simp only [perform, compareTest, List.foldl_append, List.foldl_cons, List.foldl_nil]
  rw [order]
  refine ⟨?_, genCond_rest test m⟩
  have difference : (Machine.mov 7 0 (perform (genCond test) m)).regs 0 -
      (Machine.mov 7 0 (perform (genCond test) m)).regs 7 = (perform (genCond test) m).regs 0 := by
    simp [Machine.mov, Machine.setReg]
  rw [Machine.cmp, hasFlag_setSubFlags, difference]
  have zero := genCond_zero test m
  rcases truth : (test.denote m.rest).1.truth with - | -
  · exact decide_eq_true (zero.mpr truth)
  · exact decide_eq_false fun cleared => by simp [zero.mp cleared] at truth

/-! ## Arms that are held alike -/

/-- Every arm is held as the common type is. -/
def Shape.Uniform (shape : Shape) : Prop := ∀ arm ∈ shape.arms, form arm = form shape.ty

instance (shape : Shape) : Decidable shape.Uniform :=
  inferInstanceAs (Decidable (∀ arm ∈ shape.arms, form arm = form shape.ty))

/-- The common type of two operands, by how they are held. -/
theorem usualArithmeticType_eq (lhs rhs : Ty) : Ty.usualArithmeticType lhs rhs =
    if form lhs = .double ∨ form rhs = .double then ⟨.double, false⟩
    else if form lhs = .single ∨ form rhs = .single then ⟨.float, false⟩
    else if form lhs = .pair ∨ form rhs = .pair then
      ⟨.llong, lhs.isUnsignedInteger || rhs.isUnsignedInteger⟩
    else ⟨.int, lhs.isPromotedUnsigned || rhs.isPromotedUnsigned⟩ := by
  obtain ⟨kind, isUnsigned⟩ := lhs
  obtain ⟨kind', isUnsigned'⟩ := rhs
  cases kind <;> cases kind' <;> rfl

/-- Operands that are held alike are held so in their common type. -/
theorem form_usual {lhs rhs : Ty} (alike : form lhs = form rhs) :
    form (Ty.usualArithmeticType lhs rhs) = form lhs := by
  rw [usualArithmeticType_eq, ← alike]
  cases form lhs <;> rfl

/-- There is one common type for each way to hold a value, but for signedness. -/
theorem usual_cases (lhs rhs : Ty) : ∃ isUnsigned, Ty.usualArithmeticType lhs rhs =
    match form (Ty.usualArithmeticType lhs rhs) with
    | .word => ⟨.int, isUnsigned⟩
    | .pair => ⟨.llong, isUnsigned⟩
    | .single => ⟨.float, false⟩
    | .double => ⟨.double, false⟩ := by
  unfold Ty.usualArithmeticType
  split_ifs
  · exact ⟨false, rfl⟩
  · exact ⟨false, rfl⟩
  · exact ⟨_, rfl⟩
  · exact ⟨_, rfl⟩

/-- A conversion to a common type that is held alike leaves the registers as they should be. -/
theorem convert_spec {ty lhs rhs : Ty} {v : Value} (has : ty.Has v)
    (alike : form ty = form (Ty.usualArithmeticType lhs rhs)) :
    (Ty.usualArithmeticType lhs rhs).Has (v.convert (Ty.usualArithmeticType lhs rhs)) ∧
      ∀ m : Machine Rest, m.Holds ty v →
        m.Holds (Ty.usualArithmeticType lhs rhs) (v.convert (Ty.usualArithmeticType lhs rhs)) := by
  obtain ⟨isUnsigned, common⟩ := usual_cases lhs rhs
  have values := has_cases has
  rw [← alike] at common
  rcases held : form ty with - | - | - | - <;> rw [held] at common values <;> rw [common]
  · obtain ⟨n, rfl, -⟩ := values
    refine ⟨⟨rfl, wrap_wrap _ _ n⟩, fun m holds => ?_⟩
    have narrow : ty.is64 = false := by
      obtain ⟨kind, isUnsigned⟩ := ty
      cases kind <;> first | rfl | cases held
    rw [Machine.Holds, HeldBy, narrow] at holds
    exact holds.trans (ofInt_wrap isUnsigned 32 n).symm
  · obtain ⟨n, rfl, -⟩ := values
    refine ⟨⟨rfl, wrap_wrap _ _ n⟩, fun m holds => ?_⟩
    have wide : ty.is64 = true := by
      obtain ⟨kind, isUnsigned⟩ := ty
      cases kind <;> first | rfl | cases held
    rw [Machine.Holds, HeldBy, wide] at holds
    exact holds.trans (ofInt_wrap isUnsigned 64 n).symm
  all_goals
    obtain ⟨bits, rfl⟩ := values
    exact ⟨rfl, fun m holds => holds⟩

/-- What the code of an expression leaves. -/
structure Right (e : Expr Rest) : Prop where
  has : ∀ s, e.shape.ty.Has (e.denote s).1
  rest : ∀ m, (e.effect m).rest = (e.denote m.rest).2
  holds : ∀ m, (e.effect m).Holds e.shape.ty (e.denote m.rest).1

theorem right_of_uniform (e : Expr Rest) (f : Form) (alike : ∀ arm ∈ e.shape.arms, form arm = f) :
    form e.shape.ty = f ∧ Right e := by
  induction e with
  | operand o => exact ⟨alike o.ty (List.mem_singleton.mpr rfl), o.has, o.rest, o.holds⟩
  | cond test thenStmt els first second =>
    obtain ⟨firstForm, firstRight⟩ := first fun arm member => alike arm (List.mem_append_left _ member)
    obtain ⟨secondForm, secondRight⟩ :=
      second fun arm member => alike arm (List.mem_append_right _ member)
    have common : form (Expr.cond test thenStmt els).shape.ty = f := by
      rw [← firstForm]
      exact form_usual (firstForm.trans secondForm.symm)
    have fromFirst := fun s =>
      @convert_spec Rest _ _ _ _ (firstRight.has s) (firstForm.trans common.symm)
    have fromSecond := fun s =>
      @convert_spec Rest _ _ _ _ (secondRight.has s) (secondForm.trans common.symm)
    refine ⟨common, ?_, ?_, ?_⟩
    · intro s
      simp only [Expr.denote]
      split_ifs
      · exact (fromFirst _).1
      · exact (fromSecond _).1
    · intro m
      obtain ⟨flag, rest⟩ := compareTest_spec test m
      simp only [Expr.denote, Expr.effect, flag, ← rest]
      cases (test.denote m.rest).1.truth with
      | true => exact firstRight.rest _
      | false => exact secondRight.rest _
    · intro m
      obtain ⟨flag, rest⟩ := compareTest_spec test m
      simp only [Expr.denote, Expr.effect, flag, ← rest]
      cases (test.denote m.rest).1.truth with
      | true => exact (fromFirst _).2 _ (firstRight.holds _)
      | false => exact (fromSecond _).2 _ (secondRight.holds _)

/-! ## Arms that are not -/

/-- The value one of a type, or zero. -/
def small (ty : Ty) (one : Bool) : Value :=
  match form ty with
  | .word | .pair => .integer one.toNat
  | .single => .single (if one then 0x3f800000 else 0)
  | .double => .double (if one then 0x3ff0000000000000 else 0)

/-- The registers that hold it; the code of an operand in one word may leave anything in R1. -/
def smallRegs (ty : Ty) (one : Bool) : Word × Word :=
  match form ty with
  | .word => (if one then 1 else 0, 5)
  | .pair => (if one then 1 else 0, 0)
  | .single => (if one then 0x3f800000 else 0, 5)
  | .double => (0, if one then 0x3ff00000 else 0)

theorem held_small (ty : Ty) (one : Bool) :
    HeldBy (smallRegs ty one).1 (smallRegs ty one).2 ty (small ty one) := by
  obtain ⟨kind, isUnsigned⟩ := ty
  cases kind <;> cases isUnsigned <;> cases one <;> decide

/-- An expression whose value is one or zero. -/
def Operand.small (ty : Ty) (one : Bool) : Operand Rest where
  ty := ty
  denote s := (Conditional.small ty one, s)
  run m := (m.setReg 0 (smallRegs ty one).1).setReg 1 (smallRegs ty one).2
  has s := by
    obtain ⟨kind, isUnsigned⟩ := ty
    cases kind <;> cases isUnsigned <;> cases one <;> first | exact ⟨rfl, by decide⟩ | rfl
  rest m := rfl
  holds m := held_small ty one

/-- An expression of the shape that selects a given arm, with the value one. -/
def Shape.select : Shape → Ty → Expr Rest
  | .operand ty, _ => .operand (.small ty true)
  | .cond test thenStmt els, arm =>
    .cond (.small test (decide (arm ∈ thenStmt.arms))) (thenStmt.select arm) (els.select arm)

theorem shape_select (shape : Shape) (arm : Ty) : (shape.select arm : Expr Rest).shape = shape := by
  induction shape with
  | operand ty => rfl
  | cond test thenStmt els first second => 
    simp only [Shape.select, Expr.shape, first, second]
    rfl

/-- One is converted to one. -/
theorem small_convert (ty lhs rhs : Ty) (operand : ty = lhs ∨ ty = rhs) :
    (small ty true).convert (Ty.usualArithmeticType lhs rhs) =
      small (Ty.usualArithmeticType lhs rhs) true := by
  have word : ∀ isUnsigned, (Value.integer 1).convert ⟨.int, isUnsigned⟩ = .integer 1 := by decide
  have pair : ∀ isUnsigned, (Value.integer 1).convert ⟨.llong, isUnsigned⟩ = .integer 1 := by decide
  have single : (Value.integer 1).convert ⟨.float, false⟩ = .single 0x3f800000 := by decide +kernel
  have double : (Value.integer 1).convert ⟨.double, false⟩ = .double 0x3ff0000000000000 := by
    decide +kernel
  have extended : (Value.single 0x3f800000#32).convert ⟨.double, false⟩ =
      .double 0x3ff0000000000000#64 := by decide +kernel
  have sameSingle : ∀ bits, (Value.single bits).convert ⟨.float, false⟩ = .single bits :=
    fun _ => rfl
  have sameDouble : ∀ bits, (Value.double bits).convert ⟨.double, false⟩ = .double bits :=
    fun _ => rfl
  rw [usualArithmeticType_eq]
  rcases operand with rfl | rfl
  · unfold small
    cases form ty <;> cases form rhs <;>
      simp [form, word, pair, single, double, extended, sameSingle, sameDouble]
  · unfold small
    cases form lhs <;> cases form ty <;>
      simp [form, word, pair, single, double, extended, sameSingle, sameDouble]

theorem truth_small (ty : Ty) (one : Bool) : (small ty one).truth = one := by
  unfold small
  cases form ty <;> cases one <;> rfl

theorem denote_select (shape : Shape) (arm : Ty) (s : Rest) :
    ((shape.select arm).denote s).1 = small shape.ty true := by
  induction shape generalizing s with
  | operand ty => rfl
  | cond test thenStmt els first second =>
    have common : (Shape.select (.cond test thenStmt els) arm : Expr Rest).shape.ty =
        Ty.usualArithmeticType thenStmt.ty els.ty := by rw [shape_select]; rfl
    simp only [Shape.select, Expr.denote] at *
    rw [common]
    split_ifs
    · rw [first, small_convert _ _ _ (.inl rfl)]
      rfl
    · rw [second, small_convert _ _ _ (.inr rfl)]
      rfl

theorem effect_select (shape : Shape) {arm : Ty} (member : arm ∈ shape.arms) (m : Machine Rest) :
    ((shape.select arm).effect m).regs 0 = (smallRegs arm true).1 ∧
      ((shape.select arm).effect m).regs 1 = (smallRegs arm true).2 := by
  induction shape generalizing m with
  | operand ty =>
    rw [Shape.arms, List.mem_singleton] at member
    subst member
    exact ⟨rfl, rfl⟩
  | cond test thenStmt els first second =>
    obtain ⟨flag, -⟩ := compareTest_spec (Operand.small test (decide (arm ∈ thenStmt.arms))) m
    have truth : ((Operand.small test (decide (arm ∈ thenStmt.arms))).denote m.rest).1.truth =
        decide (arm ∈ thenStmt.arms) := truth_small _ _
    rw [truth] at flag
    simp only [Shape.select, Expr.effect, flag]
    by_cases here : arm ∈ thenStmt.arms
    · simp only [here, decide_true, Bool.not_true, Bool.false_eq_true, if_false]
      exact first here _
    · simp only [here, decide_false, Bool.not_false, if_true]
      exact second ((List.mem_append.mp member).resolve_left here) _

theorem form_usual_ne_word {lhs rhs : Ty} (wide : form lhs ≠ .word ∨ form rhs ≠ .word) :
    form (Ty.usualArithmeticType lhs rhs) ≠ .word := by
  rw [usualArithmeticType_eq]
  revert wide
  cases form lhs <;> cases form rhs <;> simp [form]

/-- What takes more than a word does so in a common type. -/
theorem form_ne_word (shape : Shape) {arm : Ty} (member : arm ∈ shape.arms)
    (wide : form arm ≠ .word) : form shape.ty ≠ .word := by
  induction shape with
  | operand ty =>
    rw [Shape.arms, List.mem_singleton] at member
    subst member
    exact wide
  | cond test thenStmt els first second =>
    refine form_usual_ne_word ?_
    rcases List.mem_append.mp member with here | here
    · exact .inl (first here)
    · exact .inr (second here)

/-- The registers that hold one in a type do not hold it in a type that is held otherwise. -/
theorem not_holds_small {arm ty : Ty} {m : Machine Rest} (low : m.regs 0 = (smallRegs arm true).1)
    (high : m.regs 1 = (smallRegs arm true).2) (kept : form arm ≠ .word → form ty ≠ .word)
    (differ : form arm ≠ form ty) : ¬ m.Holds ty (small ty true) := by
  rw [Machine.Holds, low, high]
  obtain ⟨kind, isUnsigned⟩ := ty
  unfold smallRegs
  revert kept differ
  cases form arm <;> cases kind <;> cases isUnsigned <;> decide

/-- The code of the expression, wherever it stands, leaves what C assigns to it as its type is
held. -/
def Converts (e : Expr Rest) : Prop :=
  ∀ (labelId : Nat) (before after : List (Line (Machine Rest))), Numbered before 0 labelId →
    ∀ m, ∃ m', Runs (before ++ (genExpr e labelId).1 ++ after) (before.length, m)
        (before.length + (genExpr e labelId).1.length, m') ∧
      m'.rest = (e.denote m.rest).2 ∧ m'.Holds e.shape.ty (e.denote m.rest).1

/-- What the code leaves then. -/
theorem Converts.holds {e : Expr Rest} (converts : Converts e) (m : Machine Rest) :
    (e.effect m).Holds e.shape.ty (e.denote m.rest).1 := by
  have numbered : Numbered ([] : List (Line (Machine Rest))) 0 0 := by simp [Numbered]
  obtain ⟨m', runs, -, holds⟩ := converts 0 [] [] numbered m
  have other : Runs ([] ++ (genExpr e 0).1 ++ []) _ _ := genExpr_runs e rfl numbered m
  rw [List.append_nil, List.nil_append, List.length_nil, Nat.zero_add] at runs other
  have same : m' = e.effect m := completes_unique runs other
  rw [same] at holds
  exact holds

/-- Whatever the operands and their values are, the code of a conditional leaves what C assigns to
it exactly if every arm that may be selected is held as the common type is. -/
theorem conditional_converts_iff [Inhabited Rest] (shape : Shape) :
    (∀ e : Expr Rest, e.shape = shape → Converts e) ↔ shape.Uniform := by
  constructor
  · intro converts arm member
    by_contra differ
    let m : Machine Rest := ⟨fun _ => 0, 0, default⟩
    have holds := (converts (shape.select arm) (shape_select shape arm)).holds m
    obtain ⟨low, high⟩ := effect_select shape member m
    rw [denote_select, shape_select] at holds
    exact not_holds_small low high (form_ne_word shape member) differ holds
  · rintro uniform e rfl labelId before after numbered m
    obtain ⟨-, right⟩ := right_of_uniform e (form e.shape.ty) uniform
    exact ⟨e.effect m, genExpr_runs e rfl numbered m, right.rest m, right.holds m⟩

/-- The constant `1`. -/
def one : Operand Rest where
  ty := ⟨.int, false⟩
  denote s := (.integer 1, s)
  run m := m.mov 0 1
  has _ := ⟨rfl, by decide⟩
  rest _ := rfl
  holds _ := rfl

/-- The constant `2LL`. -/
def longTwo : Operand Rest where
  ty := ⟨.llong, false⟩
  denote s := (.integer 2, s)
  run m := (m.mov 0 2).mov 1 0
  has _ := ⟨rfl, by decide⟩
  rest _ := rfl
  holds _ := show HeldBy 2 0 ⟨.llong, false⟩ (.integer 2) by decide

/-- In `1 ? 1 : 2LL`, whose type is `long long`, the selected arm leaves the high word as it was. -/
theorem conditional_keeps_high_word :
    ¬ Converts (.cond one (.operand one) (.operand longTwo) : Expr Unit) := by
  intro converts
  have holds := converts.holds ⟨fun r => if r = 1 then 5 else 0, 0, ()⟩
  revert holds
  decide

end JsEmulator.Toolchain.Conditional
