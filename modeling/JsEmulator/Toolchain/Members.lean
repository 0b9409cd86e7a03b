import JsEmulator.Toolchain.Types
import Mathlib.Data.Nat.Bitwise

/-!
# Members of structures and unions

The layout that `structUnionDecl` of `parse.ts` computes from a list of members and bit-fields, and
the code that `codegen.ts` generates for a member: a plain assignment, a compound assignment (which
`toAssign` turns into one through a pointer, and which `++` and `--` are as well), and a read.

The memory of the object is seen as its bits, the eight bits of a byte from the least significant
one. Since words are stored with their low byte first, the word at a byte is then the next 32 bits.
-/

namespace JsEmulator.Toolchain.Members

variable {l : Layout} {mem : Memory}

abbrev Word := BitVec 32

/-! ## Bits of the memory -/

abbrev Memory := Nat → Bool

/-- The number whose bits stand from a position on. -/
def bitsFrom (mem : Memory) (start : Nat) : Nat → Nat
  | 0 => 0
  | n + 1 => Nat.bit (mem start) (bitsFrom mem (start + 1) n)

def load (mem : Memory) (start width : Nat) : BitVec width :=
  BitVec.ofNat width (bitsFrom mem start width)

def store (mem : Memory) (start : Nat) {width : Nat} (x : BitVec width) : Memory :=
  fun i => if start ≤ i ∧ i < start + width then x.getLsbD (i - start) else mem i

theorem testBit_bitsFrom (mem : Memory) (start width i : Nat) :
    (bitsFrom mem start width).testBit i = (decide (i < width) && mem (start + i)) := by
  induction width generalizing start i with
  | zero => simp [bitsFrom]
  | succ width ih =>
    cases i with
    | zero => simp [bitsFrom]
    | succ i =>
      rw [bitsFrom, Nat.testBit_bit_succ, ih, Nat.add_right_comm, Nat.add_assoc]
      simp

theorem getLsbD_load (mem : Memory) (start width i : Nat) :
    (load mem start width).getLsbD i = (decide (i < width) && mem (start + i)) := by
  rw [load, BitVec.getLsbD_ofNat, testBit_bitsFrom]
  cases decide (i < width) <;> rfl

theorem load_congr {mem' : Memory} {start width : Nat}
    (same : ∀ i, start ≤ i → i < start + width → mem' i = mem i) :
    load mem' start width = load mem start width := by
  apply BitVec.eq_of_getLsbD_eq
  intro i inside
  simp only [getLsbD_load, inside, decide_true, Bool.true_and]
  exact same _ (by omega) (by omega)

theorem load_store (mem : Memory) (start : Nat) {width : Nat} (x : BitVec width) :
    load (store mem start x) start width = x := by
  apply BitVec.eq_of_getLsbD_eq
  intro i inside
  rw [getLsbD_load, store, if_pos (by omega), Nat.add_sub_cancel_left, decide_eq_true inside,
    Bool.true_and]

/-! ## Layout -/

/-- The type of a member: an arithmetic one, or any other with its size and alignment. -/
inductive MemberTy where
  | scalar (ty : Ty)
  | other (size align : Nat) (positive : 0 < align)
  deriving DecidableEq, Repr

def MemberTy.size : MemberTy → Nat
  | .scalar ty => ty.size
  | .other size _ _ => size

/-- No arithmetic type is aligned to more than four bytes. -/
def MemberTy.align : MemberTy → Nat
  | .scalar ty => min ty.size 4
  | .other _ align _ => align

/-- A bit-field has its position in a unit of four bytes, and its width. -/
structure Member where
  ty : MemberTy
  offset : Nat
  bits : Option (Nat × Nat) := none
  deriving DecidableEq, Repr

/-- A declaration of a member. -/
inductive Decl where
  | plain (ty : MemberTy)
  | bitField (ty : Ty) (named : Bool) (width : Int)
  deriving DecidableEq, Repr

inductive Aggregate where
  | struct
  | union
  deriving DecidableEq, Repr

/-- The variables of the loop of `structUnionDecl`. -/
structure Layout where
  members : List Member := []
  offset : Nat := 0
  maxAlign : Nat := 1
  maxSize : Nat := 0
  bitUnit : Nat := 0
  bitCursor : Nat := 0
  deriving DecidableEq, Repr

def align (n a : Nat) : Nat := (n + a - 1) / a * a

/-- The unit in which the next bit-field of a structure starts. -/
def Layout.enterUnit (l : Layout) (width : Nat) : Layout :=
  if l.bitCursor = 0 then { l with offset := align l.offset 4, bitUnit := align l.offset 4 }
  else if 32 < l.bitCursor + width then
    { l with offset := align (l.bitUnit + 4) 4, bitUnit := align (l.bitUnit + 4) 4, bitCursor := 0 }
  else l

/-- A bit-field of a structure. -/
def Layout.structField (l : Layout) (ty : Ty) (named : Bool) (width : Nat) : Layout :=
  if width = 0 then
    { l with
      offset := if 0 < l.bitCursor then l.bitUnit + 4 else align l.offset 4
      bitCursor := 0 }
  else
    let l := l.enterUnit width
    { l with
      members := if named then l.members ++ [⟨.scalar ty, l.bitUnit, some (l.bitCursor, width)⟩]
        else l.members
      bitCursor := l.bitCursor + width
      offset := max l.offset (l.bitUnit + 4) }

/-- A bit-field of a union. -/
def Layout.unionField (l : Layout) (ty : Ty) (named : Bool) (width : Nat) : Layout :=
  { l with
    members := if 0 < width ∧ named then l.members ++ [⟨.scalar ty, 0, some (0, width)⟩]
      else l.members
    maxSize := max l.maxSize 4 }

/-- A member of a structure that is not a bit-field. -/
def Layout.structMember (l : Layout) (ty : MemberTy) : Layout :=
  let offset := align (if 0 < l.bitCursor then l.bitUnit + 4 else l.offset) (min 4 ty.align)
  { l with
    members := l.members ++ [⟨ty, offset, none⟩]
    offset := offset + max 1 ty.size
    maxAlign := max l.maxAlign (min 4 ty.align)
    bitCursor := 0 }

/-- A member of a union that is not a bit-field. -/
def Layout.unionMember (l : Layout) (ty : MemberTy) : Layout :=
  { l with
    members := l.members ++ [⟨ty, 0, none⟩]
    maxSize := max l.maxSize (max 1 ty.size)
    maxAlign := max l.maxAlign (min 4 ty.align) }

/-- One pass of the loop. A width that does not fit a unit is an error. -/
def declare (kind : Aggregate) (l : Layout) : Decl → Option Layout
  | .plain ty => some (match kind with
    | .struct => l.structMember ty
    | .union => l.unionMember ty)
  | .bitField ty named width =>
    if width < 0 ∨ 32 < width then none
    else
      let l := { l with maxAlign := max l.maxAlign 4 }
      some (match kind with
        | .struct => l.structField ty named width.toNat
        | .union => l.unionField ty named width.toNat)

/-- `structUnionDecl`: the members, the size and the alignment. -/
def structUnionDecl (kind : Aggregate) (decls : List Decl) : Option (List Member × Nat × Nat) :=
  (decls.foldlM (declare kind) {}).map fun l =>
    (l.members, align (if kind = .struct then l.offset else l.maxSize) l.maxAlign, l.maxAlign)

/-- The first bit of a member. -/
def Member.start (m : Member) : Nat := 8 * m.offset + (m.bits.map Prod.fst).getD 0

/-- The number of bits of a member. -/
def Member.width (m : Member) : Nat := (m.bits.map Prod.snd).getD (8 * m.ty.size)

/-- A bit-field lies in its unit. -/
def Member.InUnit (m : Member) : Prop :=
  ∀ bit width, m.bits = some (bit, width) → 0 < width ∧ bit + width ≤ 32

/-- The next free bit of a structure. -/
def Layout.next (l : Layout) : Nat :=
  if 0 < l.bitCursor then 8 * l.bitUnit + l.bitCursor else 8 * l.offset

/-- What holds before each member of a structure: the members follow each other, and end before the
next free bit. -/
structure Layout.Ordered (l : Layout) : Prop where
  pairwise : l.members.Pairwise fun a b => a.start + a.width ≤ b.start
  free : ∀ m ∈ l.members, m.start + m.width ≤ l.next
  unit : l.bitCursor ≤ 32
  inUnit : ∀ m ∈ l.members, m.InUnit

theorem le_align {n a : Nat} (positive : 0 < a) : n ≤ align n a := by
  have split := Nat.div_add_mod' (n + a - 1) a
  have below := Nat.mod_lt (n + a - 1) positive
  unfold align
  omega

theorem MemberTy.align_pos (ty : MemberTy) : 0 < min 4 ty.align := by
  rcases ty with ⟨⟨kind, isUnsigned⟩⟩ | ⟨size, align, positive⟩
  · cases kind <;> simp [MemberTy.align, Ty.size]
  · exact lt_min (by decide) positive

theorem Layout.next_of_open (positive : 0 < l.bitCursor) :
    l.next = 8 * l.bitUnit + l.bitCursor := if_pos positive

/-- Nothing is added, and bits may be skipped. -/
theorem Layout.Ordered.skip {l' : Layout} (ordered : l.Ordered) (members : l'.members = l.members)
    (grows : l.next ≤ l'.next) (unit : l'.bitCursor ≤ 32) : l'.Ordered := by
  refine ⟨members ▸ ordered.pairwise, ?_, unit, members ▸ ordered.inUnit⟩
  intro m member
  rw [members] at member
  exact (ordered.free m member).trans grows

/-- A member is added after the others. -/
theorem Layout.Ordered.add {l' : Layout} (ordered : l.Ordered) {m : Member}
    (members : l'.members = l.members ++ [m]) (after : l.next ≤ m.start)
    (fits : m.start + m.width ≤ l'.next) (unit : l'.bitCursor ≤ 32) (inUnit : m.InUnit) :
    l'.Ordered := by
  have before : ∀ other ∈ l.members, other.start + other.width ≤ m.start :=
    fun other member => (ordered.free other member).trans after
  refine ⟨?_, ?_, unit, ?_⟩
  · rw [members]
    refine List.pairwise_append.mpr ⟨ordered.pairwise, List.pairwise_singleton _ _, ?_⟩
    intro a member b last
    rw [List.mem_singleton.mp last]
    exact before a member
  · intro other member
    rw [members] at member
    rcases List.mem_append.mp member with earlier | last
    · have := before other earlier
      omega
    · rw [List.mem_singleton.mp last]
      exact fits
  · intro other member
    rw [members] at member
    rcases List.mem_append.mp member with earlier | last
    · exact ordered.inUnit other earlier
    · rw [List.mem_singleton.mp last]
      exact inUnit

theorem Layout.Ordered.structMember (ordered : l.Ordered) (ty : MemberTy) :
    (l.structMember ty).Ordered := by
  have aligned := @le_align (if 0 < l.bitCursor then l.bitUnit + 4 else l.offset) _ ty.align_pos
  have unit := ordered.unit
  refine ordered.add rfl ?_ ?_ (Nat.zero_le _) ?_
  · have free : l.next ≤ 8 * (if 0 < l.bitCursor then l.bitUnit + 4 else l.offset) := by
      unfold Layout.next
      split_ifs <;> omega
    exact free.trans (Nat.mul_le_mul_left 8 aligned)
  · generalize found : l.structMember ty = l'
    have last : l'.offset = align (if 0 < l.bitCursor then l.bitUnit + 4 else l.offset)
        (min 4 ty.align) + max 1 ty.size := by rw [← found]; rfl
    have closed : l'.next = 8 * l'.offset := by rw [← found]; rfl
    rw [closed, last]
    simp only [Member.start, Member.width, Option.map_none, Option.getD_none]
    omega
  · intro bit width found
    cases found

theorem Layout.enterUnit_spec (ordered : l.Ordered) {width : Nat} (narrow : width ≤ 32) :
    (l.enterUnit width).members = l.members ∧
      l.next ≤ 8 * (l.enterUnit width).bitUnit + (l.enterUnit width).bitCursor ∧
      (l.enterUnit width).bitCursor + width ≤ 32 := by
  have unit := ordered.unit
  have here := @le_align l.offset 4 (by decide)
  have following := @le_align (l.bitUnit + 4) 4 (by decide)
  unfold Layout.enterUnit
  by_cases closed : l.bitCursor = 0
  · have bound : l.next ≤ 8 * align l.offset 4 := by
      unfold Layout.next
      rw [if_neg (by omega)]
      omega
    rw [if_pos closed]
    exact ⟨rfl, by simp only [closed]; omega, by simp only [closed]; omega⟩
  · have bound := Layout.next_of_open (Nat.pos_of_ne_zero closed)
    rw [if_neg closed]
    split_ifs
    · exact ⟨rfl, by simp only; omega, by simp only; omega⟩
    · exact ⟨rfl, by omega, by omega⟩

theorem Layout.Ordered.structField (ordered : l.Ordered) (ty : Ty) (named : Bool) {width : Nat}
    (narrow : width ≤ 32) : (l.structField ty named width).Ordered := by
  have unit := ordered.unit
  unfold Layout.structField
  by_cases separator : width = 0
  · rw [if_pos separator]
    refine ordered.skip rfl ?_ (Nat.zero_le _)
    have here := @le_align l.offset 4 (by decide)
    unfold Layout.next
    dsimp only
    split_ifs <;> omega
  · rw [if_neg separator]
    obtain ⟨members, starts, fits⟩ := Layout.enterUnit_spec ordered narrow
    generalize l.enterUnit width = inside at members starts fits
    have positive : 0 < inside.bitCursor + width := by omega
    cases named with
    | false =>
      refine ordered.skip members (le_trans ?_ (Layout.next_of_open positive).ge) fits
      dsimp only
      omega
    | true =>
      refine ordered.add (congrArg (· ++ _) members) starts
        (le_trans ?_ (Layout.next_of_open positive).ge) fits ?_
      · simp only [Member.start, Member.width, Option.map_some, Option.getD_some]
        omega
      · rintro bit found ⟨⟩
        exact ⟨by omega, fits⟩

/-- What holds of the members so far. -/
def Sound (kind : Aggregate) (l : Layout) : Prop :=
  (∀ m ∈ l.members, m.InUnit) ∧ (kind = .struct → l.Ordered)

theorem declare_sound {kind : Aggregate} {l' : Layout} (sound : Sound kind l) {d : Decl}
    (declared : declare kind l d = some l') : Sound kind l' := by
  cases kind with
  | struct =>
    have ordered := sound.2 rfl
    have result : l'.Ordered := by
      cases d with
      | plain ty =>
        cases declared
        exact ordered.structMember ty
      | bitField ty named width =>
        simp only [declare] at declared
        split_ifs at declared with wide
        cases declared
        have started : Layout.Ordered { l with maxAlign := max l.maxAlign 4 } :=
          ordered.skip rfl (le_refl _) ordered.unit
        exact started.structField ty named (by omega)
    exact ⟨result.inUnit, fun _ => result⟩
  | union =>
    refine ⟨?_, fun impossible => by cases impossible⟩
    intro m member
    cases d with
    | plain ty =>
      cases declared
      rcases List.mem_append.mp member with earlier | last
      · exact sound.1 m earlier
      · rw [List.mem_singleton.mp last]
        intro bit width found
        cases found
    | bitField ty named width =>
      simp only [declare] at declared
      split_ifs at declared with wide
      cases declared
      simp only [Layout.unionField] at member
      split_ifs at member with added
      · rcases List.mem_append.mp member with earlier | last
        · exact sound.1 m earlier
        · rw [List.mem_singleton.mp last]
          rintro bit found ⟨⟩
          exact ⟨added.1, by omega⟩
      · exact sound.1 m member

/-- Every structure is laid out in order, and every bit-field in its unit. -/
theorem structUnionDecl_sound {kind : Aggregate} {decls : List Decl} {members : List Member}
    {size alignment : Nat} (laid : structUnionDecl kind decls = some (members, size, alignment)) :
    (∀ m ∈ members, m.InUnit) ∧
      (kind = .struct → members.Pairwise fun a b => a.start + a.width ≤ b.start) := by
  have loop : ∀ (decls : List Decl) (l l' : Layout), Sound kind l →
      decls.foldlM (declare kind) l = some l' → Sound kind l' := by
    intro decls
    induction decls with
    | nil =>
      rintro l l' sound ⟨⟩
      exact sound
    | cons d decls ih =>
      intro l l' sound run
      rw [List.foldlM_cons] at run
      obtain ⟨next, declared, rest⟩ := Option.bind_eq_some_iff.mp run
      exact ih next l' (declare_sound sound declared) rest
  obtain ⟨l, run, result⟩ := Option.map_eq_some_iff.mp laid
  have start : Sound kind {} := by
    refine ⟨by simp, fun _ => ⟨List.Pairwise.nil, by simp, Nat.zero_le _, by simp⟩⟩
  obtain ⟨inUnit, ordered⟩ := loop decls {} l start run
  cases result
  exact ⟨inUnit, fun struct => (ordered struct).pairwise⟩

/-! ## The code -/

def bitMask (width : Nat) : Word :=
  if 32 ≤ width then 0xffffffff else BitVec.ofNat 32 (2 ^ width - 1)

def signExtend (signBit highBits r : Word) : Word := if r < signBit then r else r ||| highBits

/-- `loadBitField`: what is in R0 for a unit that has been loaded. -/
def loadBitField (ty : Ty) (bit width : Nat) (unit : Word) : Word :=
  let r := (if 0 < bit then unit >>> bit else unit) &&& bitMask width
  if !ty.isUnsignedInteger ∧ 0 < width ∧ width < 32 then
    signExtend ((1 : Word) <<< (width - 1)) (~~~bitMask width) r
  else r

/-- `storeBitField`: the unit with the value in its bits. -/
def storeBitField (bit width : Nat) (unit value : Word) : Word :=
  let mask := bitMask width
  let shiftedMask := if bit = 0 then mask else mask <<< bit
  (unit &&& ~~~shiftedMask) |||
    (if 0 < bit then (value &&& mask) <<< bit else value &&& mask)

/-- The value that bits stand for in an integer type. -/
def valueOf (ty : Ty) {width : Nat} (x : BitVec width) : Int :=
  if ty.isUnsignedInteger then x.toNat else x.toInt

/-- `load` and `load64` through a pointer: a byte, two, four or eight are read, and extended as the
type is signed. -/
def loadAs (ty : Ty) (mem : Memory) (offset : Nat) : Int :=
  valueOf ty (load mem (8 * offset) (8 * ty.size))

/-- `store` and the stores of `gen64Assign`: as many bytes of the value are written. -/
def storeAs (ty : Ty) (mem : Memory) (offset : Nat) (v : Int) : Memory :=
  store mem (8 * offset) (BitVec.ofInt (8 * ty.size) v)

/-- A read of `s.m`. A type of 64 bits takes the path of `gen64Expr`, which knows no bit-fields. -/
def readMember (ty : Ty) (m : Member) (mem : Memory) : Int :=
  match m.bits with
  | some (bit, width) =>
    if ty.is64 then loadAs ty mem m.offset
    else valueOf ty (loadBitField ty bit width (load mem (8 * m.offset) 32))
  | none => loadAs ty mem m.offset

/-- `s.m = v`. -/
def assign (ty : Ty) (m : Member) (v : Int) (mem : Memory) : Memory :=
  match m.bits with
  | some (bit, width) =>
    if ty.is64 then storeAs ty mem m.offset v
    else store mem (8 * m.offset)
      (storeBitField bit width (load mem (8 * m.offset) 32) (BitVec.ofInt 32 v))
  | none => storeAs ty mem m.offset v

/-- The operators of compound assignments. -/
inductive Op where
  | add | sub | mul | div | mod | bitand | bitor | bitxor | shl | shr
  deriving DecidableEq, Repr

/-- `addType` for a binary operator with integer operands. -/
def Op.type (op : Op) (lhs rhs : Ty) : Ty :=
  match op with
  | .shl | .shr =>
    if lhs.is64 then ⟨.llong, lhs.isUnsignedInteger⟩ else ⟨.int, lhs.isPromotedUnsigned⟩
  | _ => Ty.usualArithmeticType lhs rhs

/-- The result of a binary operator: the instruction, or the function of the runtime for 64 bits.
A division by zero stops. -/
def Op.compute (op : Op) (lhs rhs : Ty) (x b : Int) : Option Int :=
  let ty := op.type lhs rhs
  let width := 8 * ty.size
  let l := BitVec.ofInt width x
  let r := BitVec.ofInt width b
  let amount := (BitVec.ofInt 32 b).toNat % width
  (match op with
    | .add => some (l + r)
    | .sub => some (l - r)
    | .mul => some (l * r)
    | .div => if r = 0 then none else some (if ty.isUnsigned then l / r else l.sdiv r)
    | .mod => if r = 0 then none else some (if ty.isUnsigned then l % r else l.srem r)
    | .bitand => some (l &&& r)
    | .bitor => some (l ||| r)
    | .bitxor => some (l ^^^ r)
    | .shl => some (l <<< amount)
    | .shr => some (if ty.isUnsigned then l >>> amount else l.sshiftRight amount)).map (valueOf ty)

/-- `s.m op= b`, which is `tmp = &s.m, *tmp = *tmp op b`; `s.m++` and the like add one or its
negation. The pointer is one to the type of the member. -/
def compound (ty : Ty) (m : Member) (op : Op) (rhs : Ty) (b : Int) (mem : Memory) : Option Memory :=
  (op.compute ty rhs (loadAs ty mem m.offset) b).map (storeAs ty mem m.offset)

/-! ## What C says -/

/-- The value of the member in the memory. -/
def memberValue (ty : Ty) (m : Member) (mem : Memory) : Int :=
  valueOf ty (load mem m.start m.width)

/-- The other members keep their bits. -/
def Untouched (members : List Member) (i : Nat) (mem mem' : Memory) : Prop :=
  ∀ j other, members[j]? = some other → j ≠ i →
    load mem' other.start other.width = load mem other.start other.width

/-- The value is written, cut to the member; in a structure nothing else is. -/
def Updates (kind : Aggregate) (members : List Member) (i : Nat) (ty : Ty) (m : Member) (v : Int)
    (mem mem' : Memory) : Prop :=
  (kind = .struct → Untouched members i mem mem') ∧
    readMember ty m mem' = wrap ty.isUnsigned m.width v

/-- Every plain assignment to the member is right. -/
def AssignsRight (kind : Aggregate) (members : List Member) (i : Nat) (ty : Ty) (m : Member) : Prop :=
  ∀ mem v, Updates kind members i ty m v mem (assign ty m v mem)

/-- Every compound assignment to the member is right. -/
def CompoundsRight (kind : Aggregate) (members : List Member) (i : Nat) (ty : Ty) (m : Member) :
    Prop :=
  ∀ mem op rhs b v, rhs.isInteger = true → op.compute ty rhs (memberValue ty m mem) b = some v →
    ∃ mem', compound ty m op rhs b mem = some mem' ∧ Updates kind members i ty m v mem mem'

/-! ## The bits of a bit-field -/

theorem setWidth_ofInt {narrow wide : Nat} (le : narrow ≤ wide) (v : Int) :
    (BitVec.ofInt wide v).setWidth narrow = BitVec.ofInt narrow v := by
  apply BitVec.eq_of_toInt_eq
  have divides : ((2 ^ narrow : Nat) : Int) ∣ ((2 ^ wide : Nat) : Int) :=
    Int.natCast_dvd_natCast.mpr (Nat.pow_dvd_pow 2 le)
  have nonneg : 0 ≤ v % ((2 ^ wide : Nat) : Int) := Int.emod_nonneg _ (by simp)
  rw [BitVec.toInt_setWidth, BitVec.toInt_ofInt, BitVec.toNat_ofInt, Int.toNat_of_nonneg nonneg]
  rw [← Int.emod_bmod, Int.emod_emod_of_dvd _ divides, Int.emod_bmod]

theorem getLsbD_ofInt {narrow wide i : Nat} (le : narrow ≤ wide) (v : Int) (inside : i < narrow) :
    (BitVec.ofInt wide v).getLsbD i = (BitVec.ofInt narrow v).getLsbD i := by
  rw [← setWidth_ofInt le, BitVec.getLsbD_setWidth, decide_eq_true inside, Bool.true_and]

theorem getLsbD_bitMask {width i : Nat} (inside : i < 32) :
    (bitMask width).getLsbD i = decide (i < width) := by
  unfold bitMask
  split_ifs with full
  · have ones : (0xffffffff : Word) = BitVec.allOnes 32 := by decide
    rw [ones, BitVec.getLsbD_allOnes]
    simp [inside, lt_of_lt_of_le inside full]
  · rw [BitVec.getLsbD_ofNat, Nat.testBit_two_pow_sub_one]
    simp [inside]

/-- The bits of the field are the value's, and the others stay. -/
theorem getLsbD_storeBitField {bit width i : Nat} (unit value : Word) (inside : i < 32) :
    (storeBitField bit width unit value).getLsbD i =
      if bit ≤ i ∧ i < bit + width then value.getLsbD (i - bit) else unit.getLsbD i := by
  have shifted : ∀ x : Word, (x <<< bit).getLsbD i = (!decide (i < bit) && x.getLsbD (i - bit)) := by
    intro x
    rw [BitVec.getLsbD_shiftLeft, decide_eq_true inside, Bool.true_and]
  have mask := @getLsbD_bitMask width (i - bit) (by omega)
  unfold storeBitField
  by_cases first : bit = 0
  · subst first
    simp only [Nat.sub_zero] at mask
    by_cases within : i < width <;>
      simp [BitVec.getLsbD_or, BitVec.getLsbD_and, BitVec.getLsbD_not, mask, within, inside,
        -BitVec.getLsbD_eq_getElem]
  · simp only [first, if_false, Nat.pos_of_ne_zero first, if_true, BitVec.getLsbD_or,
      BitVec.getLsbD_and, BitVec.getLsbD_not, shifted, mask, decide_eq_true inside, Bool.true_and]
    by_cases below : i < bit
    · simp [below, show ¬ bit ≤ i by omega]
    by_cases within : i - bit < width
    · simp [below, within, show bit ≤ i ∧ i < bit + width by omega]
    · simp [below, within, show ¬ i < bit + width by omega]

/-- The comparison and the OR of `signExtend` extend a field of fewer bits than a word. -/
theorem signExtend_field {width : Nat} (x : BitVec width) (positive : 0 < width)
    (narrow : width < 32) :
    signExtend ((1 : Word) <<< (width - 1)) (~~~bitMask width) (x.setWidth 32) = x.signExtend 32 := by
  have size : ((1 : Word) <<< (width - 1)).toNat = 2 ^ (width - 1) := by
    have small : 2 ^ (width - 1) < 2 ^ 32 := Nat.pow_lt_pow_right (by decide) (by omega)
    rw [BitVec.toNat_shiftLeft, Nat.shiftLeft_eq]
    exact (Nat.mod_eq_of_lt (by simpa using small)).trans (by simp)
  have below : x.setWidth 32 < (1 : Word) <<< (width - 1) ↔ x.msb = false := by
    rw [BitVec.lt_def, size, BitVec.toNat_setWidth_of_le (by omega), BitVec.msb_eq_decide]
    simp
  unfold signExtend
  rcases negative : x.msb with - | -
  · rw [if_pos (below.mpr negative), BitVec.signExtend_eq_setWidth_of_msb_false negative]
  rw [if_neg (by rw [below, negative]; decide)]
  apply BitVec.eq_of_getLsbD_eq
  intro i inside
  rw [BitVec.getLsbD_or, BitVec.getLsbD_setWidth, BitVec.getLsbD_not, getLsbD_bitMask inside,
    BitVec.getLsbD_signExtend, negative, decide_eq_true inside]
  by_cases within : i < width <;> simp [within]

/-- The field of a unit, extended to a word. -/
theorem valueOf_loadBitField (ty : Ty) {bit width : Nat} (unit : Word) (positive : 0 < width)
    (fits : bit + width ≤ 32) :
    valueOf ty (loadBitField ty bit width unit) = valueOf ty (unit.extractLsb' bit width) := by
  generalize field : unit.extractLsb' bit width = x
  have cut : (if 0 < bit then unit >>> bit else unit) &&& bitMask width = x.setWidth 32 := by
    have shift : (if 0 < bit then unit >>> bit else unit) = unit >>> bit := by
      split_ifs with moved
      · rfl
      · rw [Nat.eq_zero_of_not_pos moved, BitVec.ushiftRight_zero]
    apply BitVec.eq_of_getLsbD_eq
    intro i inside
    rw [shift, BitVec.getLsbD_and, BitVec.getLsbD_ushiftRight, getLsbD_bitMask inside,
      BitVec.getLsbD_setWidth, ← field, BitVec.getLsbD_extractLsb', decide_eq_true inside]
    simp [Bool.and_comm]
  unfold loadBitField valueOf
  rw [cut]
  cases ty.isUnsignedInteger with
  | true => simp [Nat.mod_eq_of_lt (lt_of_lt_of_le x.isLt (Nat.pow_le_pow_right _ (show width ≤ 32 by omega)))]
  | false =>
    by_cases narrow : width < 32
    · simp only [Bool.not_false, positive, narrow, and_self, if_true, Bool.false_eq_true, if_false]
      rw [signExtend_field x positive narrow, BitVec.toInt_signExtend_of_le (by omega)]
    obtain rfl : width = 32 := by omega
    simp

theorem extract_load (mem : Memory) {start bit width : Nat} (fits : bit + width ≤ 32) :
    (load mem start 32).extractLsb' bit width = load mem (start + bit) width := by
  apply BitVec.eq_of_getLsbD_eq
  intro i inside
  rw [BitVec.getLsbD_extractLsb', getLsbD_load, getLsbD_load, Nat.add_assoc]
  simp [inside, show bit + i < 32 by omega]

theorem valueOf_ofInt {ty : Ty} (integer : ty.isInteger = true) (width : Nat) (v : Int) :
    valueOf ty (BitVec.ofInt width v) = wrap ty.isUnsigned width v := by
  have same : ty.isUnsignedInteger = ty.isUnsigned := by simp [Ty.isUnsignedInteger, integer]
  have nonneg : 0 ≤ v % ((2 ^ width : Nat) : Int) := Int.emod_nonneg _ (by simp)
  unfold valueOf wrap
  rw [same, BitVec.toNat_ofInt, BitVec.toInt_ofInt, Int.toNat_of_nonneg nonneg]
  simp

/-! ## Accesses -/

/-- The bit is one of the member. -/
def Member.Has (m : Member) (bit : Nat) : Prop := m.start ≤ bit ∧ bit < m.start + m.width

/-- Distinct members of a structure have no bit in common. -/
theorem disjoint_of_pairwise {members : List Member}
    (pairwise : members.Pairwise fun a b => a.start + a.width ≤ b.start) {i j : Nat} {a b : Member}
    (first : members[i]? = some a) (second : members[j]? = some b) (differ : i ≠ j) (bit : Nat) :
    ¬ (a.Has bit ∧ b.Has bit) := by
  rw [List.pairwise_iff_getElem] at pairwise
  obtain ⟨left, rfl⟩ := List.getElem?_eq_some_iff.mp first
  obtain ⟨right, rfl⟩ := List.getElem?_eq_some_iff.mp second
  rintro ⟨inFirst, inSecond⟩
  unfold Member.Has at inFirst inSecond
  rcases Nat.lt_or_gt_of_ne differ with before | after
  · have := pairwise i j left right before
    omega
  · have := pairwise j i right left after
    omega

section

variable {ty : Ty} {m : Member}

/-- A read gives the value of the member, but for the bit-fields of 64-bit types. -/
theorem readMember_eq (inUnit : m.InUnit) (scalar : m.ty = .scalar ty)
    (path : ¬ (m.bits.isSome = true ∧ ty.is64 = true)) (mem : Memory) :
    readMember ty m mem = memberValue ty m mem := by
  obtain ⟨_, offset, bits⟩ := m
  subst scalar
  rcases bits with - | ⟨bit, width⟩
  · rfl
  obtain ⟨positive, fits⟩ := inUnit bit width rfl
  have narrow : ty.is64 = false := by simpa using path
  unfold readMember memberValue
  simp only [narrow, Bool.false_eq_true, if_false, Member.start, Member.width, Option.map_some,
    Option.getD_some]
  rw [valueOf_loadBitField ty _ positive fits, extract_load mem fits]

/-- So does a plain assignment write it. -/
theorem assign_eq (inUnit : m.InUnit) (scalar : m.ty = .scalar ty)
    (path : ¬ (m.bits.isSome = true ∧ ty.is64 = true)) (v : Int) (mem : Memory) :
    assign ty m v mem = store mem m.start (BitVec.ofInt m.width v) := by
  obtain ⟨_, offset, bits⟩ := m
  subst scalar
  rcases bits with - | ⟨bit, width⟩
  · rfl
  obtain ⟨positive, fits⟩ := inUnit bit width rfl
  have narrow : ty.is64 = false := by simpa using path
  unfold assign
  simp only [narrow, Bool.false_eq_true, if_false, Member.start, Member.width, Option.map_some,
    Option.getD_some]
  funext i
  unfold store
  by_cases inside : 8 * offset ≤ i ∧ i < 8 * offset + 32
  · rw [if_pos inside, getLsbD_storeBitField _ _ (by omega), getLsbD_load]
    by_cases field : 8 * offset + bit ≤ i ∧ i < 8 * offset + bit + width
    · rw [if_pos field, if_pos (by omega), Nat.sub_sub,
        @getLsbD_ofInt width 32 _ (by omega) v (by omega)]
    · rw [if_neg field, if_neg (by omega), decide_eq_true (by omega), Bool.true_and]
      congr 1
      omega
  · rw [if_neg inside, if_neg (by omega)]

/-- A write of exactly the bits of the member is right. -/
theorem updates_of_store {kind : Aggregate} {members : List Member} {i : Nat}
    (pairwise : kind = .struct → members.Pairwise fun a b => a.start + a.width ≤ b.start)
    (found : members[i]? = some m) (inUnit : m.InUnit) (scalar : m.ty = .scalar ty)
    (integer : ty.isInteger = true) (path : ¬ (m.bits.isSome = true ∧ ty.is64 = true))
    (v : Int) (mem : Memory) :
    Updates kind members i ty m v mem (store mem m.start (BitVec.ofInt m.width v)) := by
  refine ⟨fun struct j other second differ => ?_, ?_⟩
  · apply load_congr
    intro bit above below
    have apart := disjoint_of_pairwise (pairwise struct) found second differ.symm bit
    unfold Member.Has at apart
    rw [store, if_neg]
    omega
  · rw [readMember_eq inUnit scalar path, memberValue, load_store, valueOf_ofInt integer]

/-- The member is all that a pointer to its type reads and writes. -/
def Member.Whole (m : Member) (ty : Ty) : Prop :=
  ∀ bit width, m.bits = some (bit, width) → bit = 0 ∧ width = 8 * ty.size

instance (m : Member) (ty : Ty) : Decidable (m.Whole ty) :=
  match m with
  | ⟨_, _, none⟩ => .isTrue fun bit width found => by cases found
  | ⟨_, _, some (bit, width)⟩ =>
    decidable_of_iff (bit = 0 ∧ width = 8 * ty.size)
      ⟨fun whole bit' width' found => by cases found; exact whole, fun whole => whole bit width rfl⟩

theorem whole_spec (scalar : m.ty = .scalar ty) (whole : m.Whole ty) :
    m.start = 8 * m.offset ∧ m.width = 8 * ty.size := by
  obtain ⟨_, offset, bits⟩ := m
  subst scalar
  rcases bits with - | ⟨bit, width⟩
  · exact ⟨rfl, rfl⟩
  obtain ⟨rfl, rfl⟩ := whole bit width rfl
  exact ⟨rfl, rfl⟩

/-- A bit-field of a 64-bit type is never whole. -/
theorem path_of_whole (inUnit : m.InUnit) (whole : m.Whole ty) :
    ¬ (m.bits.isSome = true ∧ ty.is64 = true) := by
  rintro ⟨field, wide⟩
  obtain ⟨⟨bit, width⟩, found⟩ := Option.isSome_iff_exists.mp field
  have fits := inUnit bit width found
  have same := whole bit width found
  have size : ty.size = 8 := by
    obtain ⟨kind, isUnsigned⟩ := ty
    cases kind <;> first | rfl | cases wide
  omega

theorem compoundsRight_of_whole {kind : Aggregate} {members : List Member} {i : Nat}
    (pairwise : kind = .struct → members.Pairwise fun a b => a.start + a.width ≤ b.start)
    (found : members[i]? = some m) (inUnit : m.InUnit) (scalar : m.ty = .scalar ty)
    (integer : ty.isInteger = true) (whole : m.Whole ty) : CompoundsRight kind members i ty m := by
  intro mem op rhs b v _ computed
  have updates := updates_of_store pairwise found inUnit scalar integer
    (path_of_whole inUnit whole) v mem
  obtain ⟨start, width⟩ := whole_spec scalar whole
  have read : loadAs ty mem m.offset = memberValue ty m mem := by
    rw [memberValue, start, width, loadAs]
  have written : storeAs ty mem m.offset v = store mem m.start (BitVec.ofInt m.width v) := by
    rw [start, width, storeAs]
  refine ⟨storeAs ty mem m.offset v, ?_, ?_⟩
  · rw [compound, read, computed, Option.map_some]
  · rw [written]
    exact updates

end

/-! ## Accesses that are wrong -/

section

variable {ty : Ty} {m : Member}

theorem ofInt_valueOf (ty : Ty) {width : Nat} (x : BitVec width) :
    BitVec.ofInt width (valueOf ty x) = x := by
  unfold valueOf
  split_ifs
  · simp
  · simp

/-- The low bits of a value do not depend on the width. -/
theorem getLsbD_valueOf (ty : Ty) {width other i : Nat} (x : BitVec width) (inside : i < width)
    (within : i < other) : (BitVec.ofInt other (valueOf ty x)).getLsbD i = x.getLsbD i := by
  have low : (BitVec.ofInt width (valueOf ty x)).getLsbD i =
      (BitVec.ofInt (i + 1) (valueOf ty x)).getLsbD i := getLsbD_ofInt inside _ (Nat.lt_succ_self i)
  have cut : (BitVec.ofInt other (valueOf ty x)).getLsbD i =
      (BitVec.ofInt (i + 1) (valueOf ty x)).getLsbD i := getLsbD_ofInt within _ (Nat.lt_succ_self i)
  rw [cut, ← low, ofInt_valueOf]

theorem valueOf_load_eq_zero (ty : Ty) {start width : Nat}
    (clear : ∀ i, start ≤ i → i < start + width → mem i = false) :
    valueOf ty (load mem start width) = 0 := by
  have zero : load mem start width = BitVec.ofNat width 0 := by
    apply BitVec.eq_of_getLsbD_eq
    intro i inside
    simp [getLsbD_load, clear (start + i) (by omega) (by omega)]
  rw [zero, valueOf]
  split_ifs <;> simp

/-- The bits of a member that has been updated are those of the value. -/
theorem bit_of_updates {kind : Aggregate} {members : List Member} {i bit : Nat} {v : Int}
    {mem' : Memory} (updates : Updates kind members i ty m v mem mem') (inUnit : m.InUnit)
    (scalar : m.ty = .scalar ty) (path : ¬ (m.bits.isSome = true ∧ ty.is64 = true))
    (inside : bit < m.width) :
    mem' (m.start + bit) = (BitVec.ofInt m.width v).getLsbD bit := by
  have read := updates.2
  rw [readMember_eq inUnit scalar path, memberValue] at read
  have bits := congrArg (BitVec.ofInt m.width) read
  rw [ofInt_valueOf, ofInt_wrap] at bits
  rw [← bits, getLsbD_load, decide_eq_true inside, Bool.true_and]

theorem getLsbD_shiftRight_one (isUnsigned : Bool) (x : Word) {i : Nat} (inside : i < 31) :
    (if isUnsigned then x >>> 1 else x.sshiftRight 1).getLsbD i = x.getLsbD (i + 1) := by
  cases isUnsigned with
  | true => simp [BitVec.getLsbD_ushiftRight, Nat.add_comm, -BitVec.getLsbD_eq_getElem]
  | false =>
    rw [if_neg (by decide), BitVec.getLsbD_sshiftRight, if_pos (by omega), Nat.add_comm]
    simp [show ¬ 32 ≤ i by omega]

/-- What the operators do with a word and the constant one. -/
theorem compute_word (integer : ty.isInteger = true) (narrow : ty.is64 = false) :
    Op.compute .add ty ⟨.int, false⟩ 0 1 = some 1 ∧ Op.compute .shr ty ⟨.int, false⟩ 0 1 = some 0 ∧
      ∀ x, ∃ y : Word, ∃ ty', Op.compute .shr ty ⟨.int, false⟩ x 1 = some (valueOf ty' y) ∧
        ∀ i < 31, y.getLsbD i = (BitVec.ofInt 32 x).getLsbD (i + 1) := by
  obtain ⟨kind, isUnsigned⟩ := ty
  cases kind with
  | float | double => cases integer
  | llong => cases narrow
  | char | short | int | long =>
    refine ⟨by cases isUnsigned <;> decide, by cases isUnsigned <;> decide, fun x => ?_⟩
    refine ⟨if (Op.shr.type ⟨_, isUnsigned⟩ ⟨.int, false⟩).isUnsigned then BitVec.ofInt 32 x >>> 1
      else (BitVec.ofInt 32 x).sshiftRight 1, Op.shr.type ⟨_, isUnsigned⟩ ⟨.int, false⟩, rfl, ?_⟩
    intro i inside
    exact getLsbD_shiftRight_one _ _ inside

/-- The size of an integer type in one word. -/
theorem size_le (integer : ty.isInteger = true) (narrow : ty.is64 = false) :
    0 < ty.size ∧ ty.size ≤ 4 := by
  obtain ⟨kind, isUnsigned⟩ := ty
  cases kind <;> first | (cases integer; done) | (cases narrow; done) | decide +revert

section

variable {kind : Aggregate} {members : List Member} {i bit width : Nat}
  (inUnit : m.InUnit) (scalar : m.ty = .scalar ty) (integer : ty.isInteger = true)
  (found : m.bits = some (bit, width)) (right : CompoundsRight kind members i ty m)
include inUnit scalar integer found right

omit integer in
/-- What a compound assignment leaves, bit by bit, if it is right. -/
theorem bit_of_compoundsRight (narrow : ty.is64 = false) {op : Op} {v r : Int}
    (computed : op.compute ty ⟨.int, false⟩ (memberValue ty m mem) 1 = some v)
    (result : op.compute ty ⟨.int, false⟩ (loadAs ty mem m.offset) 1 = some r) {k : Nat}
    (inside : k < width) :
    storeAs ty mem m.offset r (8 * m.offset + bit + k) = (BitVec.ofInt width v).getLsbD k := by
  have start : m.start = 8 * m.offset + bit := by simp [Member.start, found]
  have size : m.width = width := by simp [Member.width, found]
  obtain ⟨mem', done, updates⟩ := right mem op ⟨.int, false⟩ 1 v rfl computed
  rw [compound, result, Option.map_some, Option.some.injEq] at done
  have bits := bit_of_updates updates inUnit scalar (by simp [narrow]) (size ▸ inside)
  rw [← done, start] at bits
  rw [bits, size]

/-- A bit-field that does not start its unit is not incremented. -/
theorem first_of_compoundsRight (narrow : ty.is64 = false) : bit = 0 := by
  obtain ⟨positive, fits⟩ := inUnit bit width found
  obtain ⟨added, -⟩ := compute_word integer narrow
  have clear : ∀ s w, valueOf ty (load (fun _ => false) s w) = 0 :=
    fun s w => valueOf_load_eq_zero ty fun _ _ _ => rfl
  have one : ∀ w k, (BitVec.ofInt w 1).getLsbD k = (decide (0 < w) && decide (k = 0)) := by
    intro w k
    simp [BitVec.getLsbD_one]
  by_contra later
  have wrong := bit_of_compoundsRight inUnit scalar found right narrow
    (by rw [memberValue, clear, added]) (by rw [loadAs, clear, added]) positive
  rw [one, storeAs, store] at wrong
  split_ifs at wrong with inside
  · rw [one] at wrong
    simp [positive, later] at wrong
  · simp [positive] at wrong

/-- What a field shares its bytes with is shifted into it, and what is beyond the bytes is not
shifted. -/
theorem width_of_compoundsRight (narrow : ty.is64 = false) : width = 8 * ty.size := by
  obtain ⟨positive, fits⟩ := inUnit bit width found
  obtain ⟨least, most⟩ := size_le integer narrow
  obtain ⟨-, shifted, shifts⟩ := compute_word integer narrow
  have first := first_of_compoundsRight inUnit scalar integer found right narrow
  subst first
  have start : m.start = 8 * m.offset := by simp [Member.start, found]
  have size : m.width = width := by simp [Member.width, found]
  rcases lt_trichotomy width (8 * ty.size) with short | same | long
  · let mem : Memory := fun p => decide (p = 8 * m.offset + width)
    have clear : memberValue ty m mem = 0 := by
      refine valueOf_load_eq_zero ty fun p above below => ?_
      rw [start, size] at below
      exact decide_eq_false (by omega)
    obtain ⟨y, ty', result, bits⟩ := shifts (loadAs ty mem m.offset)
    have wrong := bit_of_compoundsRight inUnit scalar found right narrow
      (by rw [clear, shifted]) result (show width - 1 < width by omega)
    have moved : (BitVec.ofInt 32 (loadAs ty mem m.offset)).getLsbD width = true := by
      rw [loadAs, getLsbD_valueOf ty _ (by omega) (by omega), getLsbD_load]
      simp [mem, short]
    rw [storeAs, store, if_pos (by omega), Nat.add_zero, Nat.add_sub_cancel_left,
      getLsbD_valueOf ty' y (by omega) (by omega), bits _ (by omega), Nat.sub_add_cancel positive,
      moved] at wrong
    simp at wrong
  · exact same
  · let mem : Memory := fun p => decide (p = 8 * m.offset + 8 * ty.size)
    have clear : loadAs ty mem m.offset = 0 :=
      valueOf_load_eq_zero ty fun p above below => decide_eq_false (by omega)
    obtain ⟨y, ty', result, bits⟩ := shifts (memberValue ty m mem)
    have wrong := bit_of_compoundsRight inUnit scalar found right narrow
      result (by rw [clear, shifted]) (show 8 * ty.size - 1 < width by omega)
    have moved : (BitVec.ofInt 32 (memberValue ty m mem)).getLsbD (8 * ty.size) = true := by
      rw [memberValue, getLsbD_valueOf ty _ (by omega) (by omega), getLsbD_load, start]
      simp [mem, size, long]
    rw [storeAs, store, if_pos (by omega), Nat.add_zero, Nat.add_sub_cancel_left,
      getLsbD_valueOf ty' y (by omega) (by omega), bits _ (by omega), Nat.sub_add_cancel (by omega),
      moved] at wrong
    simp at wrong

/-- A field of a 64-bit type is read with all of its eight bytes. -/
theorem narrow_of_compoundsRight : ty.is64 = false := by
  obtain ⟨positive, fits⟩ := inUnit bit width found
  by_contra wide
  obtain ⟨kind', isUnsigned⟩ := ty
  obtain rfl : kind' = .llong := by cases kind' <;> first | rfl | exact absurd rfl wide
  have kept : ∀ x, Op.compute .bitor ⟨.llong, isUnsigned⟩ ⟨.int, false⟩ x 0 =
      some (valueOf ⟨.llong, isUnsigned⟩ (BitVec.ofInt 64 x)) := by
    intro x
    have or_zero : BitVec.ofInt 64 x ||| BitVec.ofInt 64 0 = BitVec.ofInt 64 x := by simp
    rw [← or_zero]
    cases isUnsigned <;> rfl
  let mem : Memory := fun p => decide (p = 8 * m.offset + 63)
  have clear : memberValue ⟨.llong, isUnsigned⟩ m mem = 0 := by
    refine valueOf_load_eq_zero _ fun p above below => ?_
    simp only [Member.start, Member.width, found, Option.map_some, Option.getD_some] at below
    exact decide_eq_false (by omega)
  obtain ⟨mem', done, updates⟩ := right mem .bitor ⟨.int, false⟩ 0 0 rfl (by
    rw [clear, kept]
    cases isUnsigned <;> rfl)
  rw [compound, kept, Option.map_some, Option.some.injEq] at done
  have same : loadAs ⟨.llong, isUnsigned⟩ mem' m.offset = loadAs ⟨.llong, isUnsigned⟩ mem m.offset := by
    rw [← done, loadAs, storeAs, load_store]
    exact congrArg _ ((ofInt_valueOf _ _).trans (ofInt_valueOf _ _))
  have read : loadAs ⟨.llong, isUnsigned⟩ mem' m.offset = wrap isUnsigned m.width 0 := by
    have updated := updates.2
    rw [readMember, found] at updated
    exact updated
  have zero : wrap isUnsigned m.width 0 = 0 := by
    unfold wrap
    split_ifs <;> simp
  rw [same, zero] at read
  have bits := congrArg (BitVec.ofInt 64) read
  have clearTop : load mem (8 * m.offset) 64 = BitVec.ofInt 64 0 :=
    (ofInt_valueOf _ _).symm.trans bits
  have top := getLsbD_load mem (8 * m.offset) 64 63
  rw [clearTop] at top
  simp [mem] at top

end

/-- A member for which every compound assignment is right is all that the pointer sees. -/
theorem whole_of_compoundsRight {kind : Aggregate} {members : List Member} {i : Nat}
    (inUnit : m.InUnit) (scalar : m.ty = .scalar ty) (integer : ty.isInteger = true)
    (right : CompoundsRight kind members i ty m) : m.Whole ty := by
  intro bit width found
  have narrow := narrow_of_compoundsRight inUnit scalar integer found right
  exact ⟨first_of_compoundsRight inUnit scalar integer found right narrow,
    width_of_compoundsRight inUnit scalar integer found right narrow⟩

/-- A plain assignment to a bit-field of a 64-bit type keeps more than its bits. -/
theorem path_of_assignsRight {kind : Aggregate} {members : List Member} {i : Nat}
    (inUnit : m.InUnit) (right : AssignsRight kind members i ty m) :
    ¬ (m.bits.isSome = true ∧ ty.is64 = true) := by
  rintro ⟨field, wide⟩
  obtain ⟨⟨bit, width⟩, found⟩ := Option.isSome_iff_exists.mp field
  obtain ⟨positive, fits⟩ := inUnit bit width found
  obtain ⟨kind', isUnsigned⟩ := ty
  obtain rfl : kind' = .llong := by cases kind' <;> first | rfl | cases wide
  have updated := (right (fun _ => false) (2 ^ 32)).2
  have read : readMember ⟨.llong, isUnsigned⟩ m
      (assign ⟨.llong, isUnsigned⟩ m (2 ^ 32) fun _ => false) = 2 ^ 32 := by
    rw [readMember, assign, found]
    simp only [Ty.is64, beq_self_eq_true, if_true, loadAs, storeAs, load_store]
    cases isUnsigned <;> rfl
  have zero : wrap isUnsigned width (2 ^ 32) = 0 := by
    have low : BitVec.ofInt 32 (2 ^ 32) = 0#32 := by decide
    rw [← ofInt_eq_zero (wrap_wrap isUnsigned width (2 ^ 32)), ofInt_wrap,
      ← setWidth_ofInt (show width ≤ 32 by omega), low, BitVec.setWidth_zero]
  have size : m.width = width := by simp [Member.width, found]
  rw [read, size, zero] at updated
  exact absurd updated (by decide)

end

/-- Distinct members of a structure have no bit in common. A plain assignment to an integer member
writes exactly its value unless the member is a bit-field of a 64-bit type, and the compound
assignments do if it is no bit-field, or one that is all that a pointer to its type sees. -/
theorem member_accesses_iff (kind : Aggregate) (decls : List Decl) (members : List Member)
    (size alignment : Nat) (laid : structUnionDecl kind decls = some (members, size, alignment)) :
    (kind = .struct → ∀ (i j : Nat) (a b : Member), members[i]? = some a → members[j]? = some b → i ≠ j →
        ∀ bit, ¬ (a.Has bit ∧ b.Has bit)) ∧
      ∀ (i : Nat) (m : Member) (ty : Ty), members[i]? = some m → m.ty = .scalar ty →
          ty.isInteger = true →
        (AssignsRight kind members i ty m ↔ ¬ (m.bits.isSome = true ∧ ty.is64 = true)) ∧
          (CompoundsRight kind members i ty m ↔ m.Whole ty) := by
  obtain ⟨inUnits, pairwise⟩ := structUnionDecl_sound laid
  refine ⟨fun struct i j a b first second differ bit =>
    disjoint_of_pairwise (pairwise struct) first second differ bit, ?_⟩
  intro i m ty found scalar integer
  have inUnit := inUnits m (List.mem_of_getElem? found)
  refine ⟨⟨path_of_assignsRight inUnit, ?_⟩, ⟨whole_of_compoundsRight inUnit scalar integer,
      compoundsRight_of_whole pairwise found inUnit scalar integer⟩⟩
  intro path mem v
  rw [assign_eq inUnit scalar path]
  exact updates_of_store pairwise found inUnit scalar integer path v mem

/-- The members of `struct { int a : 4; int b : 4; long long c : 8; }`. -/
def fields : List Decl :=
  [.bitField ⟨.int, false⟩ true 4, .bitField ⟨.int, false⟩ true 4, .bitField ⟨.llong, false⟩ true 8]

theorem member_accesses_fields :
    structUnionDecl .struct fields = some ([⟨.scalar ⟨.int, false⟩, 0, some (0, 4)⟩,
        ⟨.scalar ⟨.int, false⟩, 0, some (4, 4)⟩, ⟨.scalar ⟨.llong, false⟩, 0, some (8, 8)⟩], 4, 4) ∧
      ∀ bit, ¬ (Member.Has ⟨.scalar ⟨.int, false⟩, 0, some (0, 4)⟩ bit ∧
        Member.Has ⟨.scalar ⟨.int, false⟩, 0, some (4, 4)⟩ bit) :=
  ⟨by decide, (member_accesses_iff .struct fields _ 4 4 rfl).1 rfl 0 1 _ _ rfl rfl (by decide)⟩

/-- In this structure `s.b++`, from zero, changes `s.a` and not `s.b`, and `s.c = 0` clears `s.b`. -/
theorem members_interfere : ∃ members, structUnionDecl .struct fields = some (members, 4, 4) ∧
    ∃ a b c, members = [a, b, c] ∧
      (∃ mem', compound ⟨.int, false⟩ b .add ⟨.int, false⟩ 1 (fun _ => false) = some mem' ∧
        memberValue ⟨.int, false⟩ a mem' = 1 ∧ memberValue ⟨.int, false⟩ b mem' = 0) ∧
      memberValue ⟨.int, false⟩ b (assign ⟨.int, false⟩ b 3 fun _ => false) = 3 ∧
      memberValue ⟨.int, false⟩ b (assign ⟨.llong, false⟩ c 0
        (assign ⟨.int, false⟩ b 3 fun _ => false)) = 0 := by
  refine ⟨_, rfl, _, _, _, rfl, ⟨_, rfl, ?_, ?_⟩, ?_, ?_⟩ <;> decide

end JsEmulator.Toolchain.Members
