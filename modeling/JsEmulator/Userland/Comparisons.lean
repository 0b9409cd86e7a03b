import JsEmulator.Toolchain.BlockMoves

/-!
# Comparing bytes

`memcmp` and `strncmp` are C and subtract two `char`s, which are signed; `strcmp` is assembly and
loads bytes without their sign. Each is compared with the lexicographic order of unsigned bytes. A
signed comparison is a lexicographic order as well, of another key.
-/

namespace JsEmulator.Userland.Comparisons

open JsEmulator.Library.LabelledCode
open JsEmulator.Library.WordMemory
open JsEmulator.Toolchain.RuntimeAssembly
open JsEmulator.Toolchain.BlockMoves

/-! ## The C routines -/

/-- The loop of `memcmp` from the index `i` on, for as many bytes as are left. -/
def memcmpFrom (a b : Nat → Byte) : Nat → Nat → Int
  | 0, _ => 0
  | left + 1, i => if a i ≠ b i then (a i).toInt - (b i).toInt else memcmpFrom a b left (i + 1)

def memcmp (a b : Nat → Byte) (length : Int) : Int := memcmpFrom a b length.toNat 0

def strncmpFrom (left right : Nat → Byte) : Nat → Nat → Int
  | 0, _ => 0
  | more + 1, i =>
    if left i ≠ right i then (left i).toInt - (right i).toInt
    else if left i = 0 then 0
    else strncmpFrom left right more (i + 1)

def strncmp (left right : Nat → Byte) (length : Int) : Int := strncmpFrom left right length.toNat 0

/-! ## Lexicographic order -/

/-- The sign of the lexicographic comparison of two sequences, with a key for each byte. -/
def lexicographic (key : Byte → Int) : List Byte → List Byte → Int
  | [], [] => 0
  | [], _ :: _ => -1
  | _ :: _, [] => 1
  | x :: xs, y :: ys => if key x = key y then lexicographic key xs ys else (key x - key y).sign

/-- Unsigned bytes. -/
def unsigned (x : Byte) : Int := x.toNat

theorem lexicographic_antisymm (key : Byte → Int) (xs ys : List Byte) :
    lexicographic key ys xs = -lexicographic key xs ys := by
  induction xs generalizing ys with
  | nil => cases ys <;> rfl
  | cons x xs ih =>
    cases ys with
    | nil => rfl
    | cons y ys =>
      simp only [lexicographic, eq_comm (a := key y)]
      split_ifs
      · exact ih ys
      · rw [← Int.sign_neg, Int.neg_sub]

theorem sign_nonpos_iff (n : Int) : n.sign ≤ 0 ↔ n ≤ 0 := by
  rcases Int.lt_trichotomy n 0 with below | rfl | above
  · rw [Int.sign_eq_neg_one_of_neg below]
    omega
  · rfl
  · rw [Int.sign_eq_one_of_pos above]
    omega

variable {xs ys : List Byte} {a : Nat → Byte} {x : Byte}

theorem lexicographic_trans (key : Byte → Int) {zs : List Byte}
    (first : lexicographic key xs ys ≤ 0) (second : lexicographic key ys zs ≤ 0) :
    lexicographic key xs zs ≤ 0 := by
  induction xs generalizing ys zs with
  | nil => cases zs <;> simp [lexicographic]
  | cons x xs ih =>
    cases ys with
    | nil => simp [lexicographic] at first
    | cons y ys =>
      cases zs with
      | nil => simp [lexicographic] at second
      | cons z zs =>
        simp only [lexicographic] at first second ⊢
        by_cases xy : key x = key y <;> by_cases yz : key y = key z <;>
          simp only [xy, yz, if_true, if_false, sign_nonpos_iff] at first second ⊢
        · exact ih first second
        · exact second
        · rw [yz] at xy
          rw [if_neg xy] at first ⊢
          exact first
        · rw [if_neg (by omega), sign_nonpos_iff]
          omega

/-- At the first place where the sequences differ, both bytes are below 128 or both are not. -/
def Alike : List Byte → List Byte → Prop
  | x :: xs, y :: ys => if x = y then Alike xs ys else x.msb = y.msb
  | _, _ => True

instance decidableAlike : (xs ys : List Byte) → Decidable (Alike xs ys)
  | [], _ => .isTrue trivial
  | _ :: _, [] => .isTrue trivial
  | x :: xs, y :: ys =>
    have := decidableAlike xs ys
    inferInstanceAs (Decidable (if x = y then Alike xs ys else x.msb = y.msb))

/-- Two different bytes compare alike, signed and unsigned, if their highest bits are the same. -/
theorem sign_eq_iff {y : Byte} (differ : x ≠ y) :
    (x.toInt - y.toInt).sign = (unsigned x - unsigned y).sign ↔ x.msb = y.msb := by
  have different : x.toNat ≠ y.toNat := fun equal => differ (BitVec.eq_of_toNat_eq equal)
  have first := BitVec.toInt_eq_msb_cond x
  have second := BitVec.toInt_eq_msb_cond y
  have left : x.msb = true ↔ 128 ≤ x.toNat := by
    rw [BitVec.msb_eq_decide, decide_eq_true_iff]
  have right : y.msb = true ↔ 128 ≤ y.toNat := by
    rw [BitVec.msb_eq_decide, decide_eq_true_iff]
  have bounds := And.intro x.isLt y.isLt
  have sign : ∀ n : Int, n ≠ 0 → n.sign = if 0 < n then 1 else -1 := by
    intro n nonzero
    split_ifs with positive
    · exact Int.sign_eq_one_of_pos positive
    · exact Int.sign_eq_neg_one_of_neg (by omega)
  unfold unsigned
  rw [sign _ (by split_ifs at first second <;> omega), sign _ (by omega)]
  rcases high : x.msb with - | - <;> rcases top : y.msb with - | - <;>
    simp only [high, top, Bool.false_eq_true, if_false, if_true, false_iff, true_iff]
      at first second left right <;>
    split_ifs <;> simp <;> omega

/-- The two orders agree on two sequences exactly if these are alike. -/
theorem signed_eq_unsigned_iff (xs ys : List Byte) :
    lexicographic BitVec.toInt xs ys = lexicographic unsigned xs ys ↔ Alike xs ys := by
  induction xs generalizing ys with
  | nil => cases ys <;> simp [lexicographic, Alike]
  | cons x xs ih =>
    cases ys with
    | nil => simp [lexicographic, Alike]
    | cons y ys =>
      by_cases same : x = y
      · subst same
        simp only [lexicographic, Alike, if_true]
        exact ih ys
      have differ : x.toNat ≠ y.toNat := fun equal => same (BitVec.eq_of_toNat_eq equal)
      have first : x.toInt ≠ y.toInt := fun equal => same (BitVec.eq_of_toInt_eq equal)
      have second : unsigned x ≠ unsigned y := fun equal => differ (Int.ofNat_inj.mp equal)
      simp only [lexicographic, Alike, if_neg first, if_neg second, if_neg same]
      exact sign_eq_iff same

/-! ## What the routines compare -/

/-- Bytes one after the other, from an index on. -/
def bytesFrom (a : Nat → Byte) : Nat → Nat → List Byte
  | 0, _ => []
  | n + 1, i => a i :: bytesFrom a n (i + 1)

/-- A string stands from an index on: its bytes, of which none is zero, and a zero. -/
def TextFrom (a : Nat → Byte) : Nat → List Byte → Prop
  | i, [] => a i = 0
  | i, x :: xs => a i = x ∧ x ≠ 0 ∧ TextFrom a (i + 1) xs

theorem memcmp_sign (a b : Nat → Byte) (n i : Nat) :
    (memcmpFrom a b n i).sign = lexicographic BitVec.toInt (bytesFrom a n i) (bytesFrom b n i) := by
  induction n generalizing i with
  | zero => rfl
  | succ n ih =>
    simp only [memcmpFrom, bytesFrom, lexicographic, BitVec.toInt_inj, ite_not]
    split_ifs
    · exact ih (i + 1)
    · rfl

/-- The bytes that `strncmp` compares: a string with its terminator, or the first ones of it. -/
def limited (n : Nat) (xs : List Byte) : List Byte := (xs ++ [0]).take n

theorem strncmp_sign {b : Nat → Byte} (n : Nat) {i : Nat} (left : TextFrom a i xs)
    (right : TextFrom b i ys) :
    (strncmpFrom a b n i).sign = lexicographic BitVec.toInt (limited n xs) (limited n ys) := by
  induction n generalizing i xs ys with
  | zero => rfl
  | succ n ih =>
    cases xs with
    | nil =>
      have first : a i = 0 := left
      cases ys with
      | nil =>
        have second : b i = 0 := right
        simp [strncmpFrom, limited, lexicographic, first, second]
      | cons y ys =>
        obtain ⟨second, nonzero, -⟩ := right
        have differ : (0 : Byte) ≠ y := nonzero.symm
        simp only [strncmpFrom, limited, List.nil_append, List.cons_append, List.take_succ_cons,
          lexicographic, first, second, BitVec.toInt_inj, ite_not, if_neg differ]
    | cons x xs =>
      obtain ⟨first, nonzero, more⟩ := left
      cases ys with
      | nil =>
        have second : b i = 0 := right
        simp only [strncmpFrom, limited, List.nil_append, List.cons_append, List.take_succ_cons,
          lexicographic, first, second, BitVec.toInt_inj, ite_not, if_neg nonzero]
      | cons y ys =>
        obtain ⟨second, _, further⟩ := right
        simp only [strncmpFrom, limited, List.cons_append, List.take_succ_cons, lexicographic, first,
          second, BitVec.toInt_inj, ite_not, if_neg nonzero]
        split_ifs
        · exact ih more further
        · rfl

theorem unsigned_pos (nonzero : x ≠ 0) : 0 < unsigned x := by
  have value : x.toNat ≠ 0 := fun zero => nonzero (BitVec.eq_of_toNat_eq zero)
  unfold unsigned
  omega

theorem unsigned_inj {y : Byte} : unsigned x = unsigned y ↔ x = y := by
  unfold unsigned
  rw [Int.ofNat_inj, BitVec.toNat_inj]

/-- Among unsigned bytes a terminator is as good as the end. -/
theorem limited_unsigned (n : Nat) (left : 0 ∉ xs) (right : 0 ∉ ys) :
    lexicographic unsigned (limited n xs) (limited n ys) =
      lexicographic unsigned (xs.take n) (ys.take n) := by
  induction n generalizing xs ys with
  | zero => rfl
  | succ n ih =>
    cases xs with
    | nil =>
      cases ys with
      | nil => simp [limited, lexicographic]
      | cons y ys =>
        have nonzero : y ≠ 0 := fun zero => right (by simp [zero])
        have positive := unsigned_pos nonzero
        simp only [limited, List.nil_append, List.cons_append, List.take_succ_cons, List.take_nil,
          lexicographic, unsigned_inj, if_neg nonzero.symm]
        exact Int.sign_eq_neg_one_of_neg (by rw [show unsigned 0 = 0 from rfl]; omega)
    | cons x xs =>
      have nonzero : x ≠ 0 := fun zero => left (by simp [zero])
      cases ys with
      | nil =>
        have positive := unsigned_pos nonzero
        simp only [limited, List.nil_append, List.cons_append, List.take_succ_cons, List.take_nil,
          lexicographic, unsigned_inj, if_neg nonzero]
        exact Int.sign_eq_one_of_pos (by rw [show unsigned 0 = 0 from rfl]; omega)
      | cons y ys =>
        have more : 0 ∉ xs := fun member => left (List.mem_cons_of_mem x member)
        have further : 0 ∉ ys := fun member => right (List.mem_cons_of_mem y member)
        simp only [limited, List.cons_append, List.take_succ_cons, lexicographic]
        split_ifs
        · exact ih more further
        · rfl

theorem TextFrom.nonzero {i : Nat} (text : TextFrom a i xs) : 0 ∉ xs := by
  induction xs generalizing i with
  | nil => exact List.not_mem_nil
  | cons x xs ih =>
    obtain ⟨_, nonzero, more⟩ := text
    rw [List.mem_cons, not_or]
    exact ⟨nonzero.symm, ih more⟩

/-! ## The run of `strcmp` -/

/-- What the loop of `strcmp` finds, and what it keeps. -/
structure Comparing (mem : Memory) (first second frame sp : Word) (i : Nat) (m : Machine) : Prop where
  mem : m.mem = mem
  left : m.regs 2 = first + BitVec.ofNat 32 i
  right : m.regs 3 = second + BitVec.ofNat 32 i
  frame : m.regs 6 = frame
  sp : m.sp = sp

theorem widen_inj {y : Byte} : x.setWidth 32 - y.setWidth 32 = (0 : Word) ↔ x = y := by
  rw [sub_eq_zero]
  refine ⟨fun same => ?_, fun same => congrArg _ same⟩
  have narrow := congrArg (BitVec.setWidth 8) same
  rwa [BitVec.setWidth_setWidth_of_le _ (by decide), BitVec.setWidth_setWidth_of_le _ (by decide),
    BitVec.setWidth_eq, BitVec.setWidth_eq] at narrow

theorem widen_sub_toInt (x y : Byte) :
    (x.setWidth 32 - y.setWidth 32 : Word).toInt = unsigned x - unsigned y := by
  have value : ∀ z : Byte, (z.setWidth 32).toInt = unsigned z := by
    intro z
    have small : (z.setWidth 32).toNat = z.toNat := by
      rw [BitVec.toNat_setWidth]
      exact Nat.mod_eq_of_lt (by omega)
    rw [BitVec.toInt_eq_toNat_of_lt (by omega), small]
    rfl
  rw [BitVec.toInt_sub, value, value, Int.bmod_eq_of_le_mul_two]
  all_goals
    unfold unsigned
    omega

variable {csp first second frame sp : Word} {mem : Memory} {i : Nat} {m : Machine}

/-- The machine after the two loads. -/
def loaded (m : Machine) : Machine := effectOf (effects [.lb 4 2, .lb 5 3, .cmp 4 5]) m

/-- The machine after the test for the terminator. -/
def tested (m : Machine) : Machine := effectOf (effects [.mov 7 0, .cmp 4 7]) (loaded m)

theorem strcmp_loads (m : Machine) : Runs (strcmp csp) (10, m) (14, loaded m) :=
  (runs_label rfl).trans (runs_plain ⟨(strcmp csp).take 11, (strcmp csp).drop 14, rfl, rfl⟩)

section

variable (comparing : Comparing mem first second frame sp i m)
include comparing

theorem jnz_loaded :
    jnz (loaded m) =
      decide (mem (first + BitVec.ofNat 32 i) ≠ mem (second + BitVec.ofNat 32 i)) := by
  have compares : jnz (loaded m) =
      !decide ((m.mem (m.regs 2)).setWidth 32 - (m.mem (m.regs 3)).setWidth 32 = (0 : Word)) :=
    congrArg not (JsEmulator.Custom32.hasFlag_setSubFlags _ _ _ _)
  rw [compares, comparing.mem, comparing.left, comparing.right]
  simp only [widen_inj, decide_not]

theorem jz_tested : jz (tested m) = decide (mem (first + BitVec.ofNat 32 i) = 0) := by
  have compares : jz (tested m) =
      decide ((m.mem (m.regs 2)).setWidth 32 - (0 : Byte).setWidth 32 = (0 : Word)) :=
    JsEmulator.Custom32.hasFlag_setSubFlags _ _ _ _
  rw [compares, comparing.mem, comparing.left]
  simp only [widen_inj]

/-- Where the strings differ, `strcmp` subtracts. -/
theorem strcmp_differs
    (differ : mem (first + BitVec.ofNat 32 i) ≠ mem (second + BitVec.ofNat 32 i)) :
    ∃ last, Runs (strcmp csp) (10, m) (27, last) ∧ last.mem = mem ∧ last.regs 6 = frame ∧
      last.sp = sp ∧ (last.regs 0).toInt = unsigned (mem (first + BitVec.ofNat 32 i)) -
        unsigned (mem (second + BitVec.ofNat 32 i)) := by
  have taken := (jnz_loaded comparing).trans (decide_eq_true differ)
  have leaves : Runs (strcmp csp) (14, loaded m) (22, loaded m) :=
    Relation.ReflTransGen.trans (runs_jump rfl taken rfl) (runs_label rfl)
  have subtracts : Runs (strcmp csp) (22, loaded m)
      (24, effectOf (effects [.movr 0 4, .sub 0 5]) (loaded m)) :=
    runs_plain ⟨(strcmp csp).take 22, (strcmp csp).drop 24, rfl, rfl⟩
  have ends : Runs (strcmp csp) (24, effectOf (effects [.movr 0 4, .sub 0 5]) (loaded m))
      (27, effectOf (effects [.movr 0 4, .sub 0 5]) (loaded m)) := runs_jump rfl rfl rfl
  refine ⟨_, (strcmp_loads m).trans (leaves.trans (subtracts.trans ends)), comparing.mem,
    comparing.frame, comparing.sp, ?_⟩
  show ((m.mem (m.regs 2)).setWidth 32 - (m.mem (m.regs 3)).setWidth 32 : Word).toInt = _
  rw [widen_sub_toInt, comparing.mem, comparing.left, comparing.right]

theorem strcmp_tests (same : mem (first + BitVec.ofNat 32 i) = mem (second + BitVec.ofNat 32 i)) :
    Runs (strcmp csp) (10, m) (17, tested m) := by
  have stays := (jnz_loaded comparing).trans (decide_eq_false (not_not.mpr same))
  exact (strcmp_loads m).trans (Relation.ReflTransGen.trans (runs_past rfl stays)
    (runs_plain ⟨(strcmp csp).take 15, (strcmp csp).drop 17, rfl, rfl⟩))

/-- Where both strings end, the result is zero. -/
theorem strcmp_ends (same : mem (first + BitVec.ofNat 32 i) = mem (second + BitVec.ofNat 32 i))
    (zero : mem (first + BitVec.ofNat 32 i) = 0) :
    ∃ last, Runs (strcmp csp) (10, m) (27, last) ∧ last.mem = mem ∧ last.regs 6 = frame ∧
      last.sp = sp ∧ last.regs 0 = 0 := by
  have taken := (jz_tested comparing).trans (decide_eq_true zero)
  have leaves : Runs (strcmp csp) (17, tested m) (26, tested m) :=
    Relation.ReflTransGen.trans (runs_jump rfl taken rfl) (runs_label rfl)
  have clears : Runs (strcmp csp) (26, tested m) (27, effectOf (effects [.mov 0 0]) (tested m)) :=
    runs_plain ⟨(strcmp csp).take 26, (strcmp csp).drop 27, rfl, rfl⟩
  exact ⟨_, (strcmp_tests comparing same).trans (leaves.trans clears), comparing.mem,
    comparing.frame, comparing.sp, rfl⟩

/-- Otherwise it goes on with the next bytes. -/
theorem strcmp_goes_on (same : mem (first + BitVec.ofNat 32 i) = mem (second + BitVec.ofNat 32 i))
    (nonzero : mem (first + BitVec.ofNat 32 i) ≠ 0) :
    ∃ next, Runs (strcmp csp) (10, m) (10, next) ∧
      Comparing mem first second frame sp (i + 1) next := by
  have stays := (jz_tested comparing).trans (decide_eq_false nonzero)
  have moves : Runs (strcmp csp) (17, tested m) (20, effectOf (effects [.inc 2, .inc 3]) (tested m)) :=
    Relation.ReflTransGen.trans (runs_past rfl stays)
      (runs_plain ⟨(strcmp csp).take 18, (strcmp csp).drop 20, rfl, rfl⟩)
  have back : Runs (strcmp csp) (20, effectOf (effects [.inc 2, .inc 3]) (tested m))
      (10, effectOf (effects [.inc 2, .inc 3]) (tested m)) := runs_jump rfl rfl rfl
  refine ⟨_, (strcmp_tests comparing same).trans (moves.trans back), comparing.mem, ?_, ?_,
    comparing.frame, comparing.sp⟩
  · show m.regs 2 + 1 = _
    rw [comparing.left, BitVec.ofNat_add, add_assoc]
    rfl
  · show m.regs 3 + 1 = _
    rw [comparing.right, BitVec.ofNat_add, add_assoc]
    rfl

end

theorem strcmp_loop {xs ys : List Byte} (comparing : Comparing mem first second frame sp i m)
    (left : TextFrom (fun i => mem (first + BitVec.ofNat 32 i)) i xs)
    (right : TextFrom (fun i => mem (second + BitVec.ofNat 32 i)) i ys) :
    ∃ last, Runs (strcmp csp) (10, m) (27, last) ∧ last.mem = mem ∧ last.regs 6 = frame ∧
      last.sp = sp ∧ (last.regs 0).toInt.sign = lexicographic unsigned xs ys := by
  induction xs generalizing i m ys with
  | nil =>
    have x : mem (first + BitVec.ofNat 32 i) = 0 := left
    cases ys with
    | nil =>
      have y : mem (second + BitVec.ofNat 32 i) = 0 := right
      obtain ⟨last, run, memory, kept, stack, result⟩ :=
        @strcmp_ends csp _ _ _ _ _ _ _ comparing (x.trans y.symm) x
      exact ⟨last, run, memory, kept, stack, by rw [result]; rfl⟩
    | cons y ys =>
      obtain ⟨head, nonzero, -⟩ : mem (second + BitVec.ofNat 32 i) = y ∧ y ≠ 0 ∧ _ := right
      obtain ⟨last, run, memory, kept, stack, result⟩ :=
        @strcmp_differs csp _ _ _ _ _ _ _ comparing (by rw [x, head]; exact nonzero.symm)
      refine ⟨last, run, memory, kept, stack, ?_⟩
      rw [result, x, head, lexicographic]
      have := unsigned_pos nonzero
      exact Int.sign_eq_neg_one_of_neg (by rw [show unsigned 0 = 0 from rfl]; omega)
  | cons x xs ih =>
    obtain ⟨head, nonzero, more⟩ : mem (first + BitVec.ofNat 32 i) = x ∧ x ≠ 0 ∧ _ := left
    by_cases same : mem (first + BitVec.ofNat 32 i) = mem (second + BitVec.ofNat 32 i)
    · cases ys with
      | nil =>
        have y : mem (second + BitVec.ofNat 32 i) = 0 := right
        exact absurd (head.symm.trans (same.trans y)) nonzero
      | cons y ys =>
        obtain ⟨other, _, further⟩ := right
        obtain ⟨next, run, going⟩ := @strcmp_goes_on csp _ _ _ _ _ _ _ comparing same
          (by rw [head]; exact nonzero)
        obtain ⟨last, rest, memory, kept, stack, result⟩ := ih going more further
        refine ⟨last, run.trans rest, memory, kept, stack, ?_⟩
        have equal : x = y := head.symm.trans (same.trans other)
        rw [result, lexicographic, if_pos (congrArg unsigned equal)]
    · obtain ⟨last, run, memory, kept, stack, result⟩ :=
        @strcmp_differs csp _ _ _ _ _ _ _ comparing same
      refine ⟨last, run, memory, kept, stack, ?_⟩
      rw [result]
      cases ys with
      | nil =>
        have y : mem (second + BitVec.ofNat 32 i) = 0 := right
        have := unsigned_pos nonzero
        rw [head, y, lexicographic]
        exact Int.sign_eq_one_of_pos (by rw [show unsigned 0 = 0 from rfl]; omega)
      | cons y ys =>
        obtain ⟨other, -, -⟩ : mem (second + BitVec.ofNat 32 i) = y ∧ _ ∧ _ := right
        have differ : unsigned x ≠ unsigned y :=
          fun equal => same (head.trans ((unsigned_inj.mp equal).trans other.symm))
        rw [head, other, lexicographic, if_neg differ]

/-- `strcmp` gives the order of two strings wherever it is called for them. The strings are not in
the word that it pushes. -/
def StrcmpCompares (xs ys : List Byte) : Prop :=
  ∀ csp m first second, Called csp m [first, second] →
    TextFrom (fun i => pushed m (first + BitVec.ofNat 32 i)) 0 xs →
    TextFrom (fun i => pushed m (second + BitVec.ofNat 32 i)) 0 ys →
    ∃ after, Completes (strcmp csp) m after ∧
      (after.regs 0).toInt.sign = lexicographic unsigned xs ys

theorem strcmp_compares (xs ys : List Byte) : StrcmpCompares xs ys := by
  intro csp m first second called left right
  obtain ⟨next, loads, loading, one, two⟩ := two_loaded called
  have enters : Runs (strcmp csp) (0, m)
      (10, effectOf (effects (enter csp ++ argument 2 1 ++ argument 3 2)) m) :=
    @runs_plain _ (strcmp csp) 0 m (effects (enter csp ++ argument 2 1 ++ argument 3 2))
      ⟨[], (strcmp csp).drop 10, rfl, rfl⟩
  rw [loads] at enters
  have begun : Comparing (pushed m) first second (readWord (pushed m) csp) (m.sp - 4) 0 next :=
    ⟨loading.mem, one.trans (BitVec.add_zero _).symm, two.trans (BitVec.add_zero _).symm,
      loading.frame, loading.sp⟩
  obtain ⟨last, run, -, -, -, result⟩ := @strcmp_loop csp _ _ _ _ _ _ _ _ _ begun left right
  have leaves : Runs (strcmp csp) (27, last) (30, effectOf (effects (leave csp)) last) :=
    Relation.ReflTransGen.trans (runs_label rfl)
      (@runs_plain _ (strcmp csp) 28 last (effects (leave csp))
        ⟨(strcmp csp).take 28, (strcmp csp).drop 30, rfl, rfl⟩)
  exact ⟨_, enters.trans (run.trans leaves), result⟩

/-! ## The order -/

/-- The three routines compare as unsigned bytes, for two buffers and two strings. -/
structure ComparesUnsigned (p q a b : Nat → Byte) (xs ys : List Byte) (length : Int) : Prop where
  memcmp : (memcmp p q length).sign =
    lexicographic unsigned (bytesFrom p length.toNat 0) (bytesFrom q length.toNat 0)
  strncmp : (strncmp a b length).sign =
    lexicographic unsigned (xs.take length.toNat) (ys.take length.toNat)
  strcmp : StrcmpCompares xs ys
  antisymmetric : (Comparisons.memcmp q p length).sign = -(Comparisons.memcmp p q length).sign ∧
    (Comparisons.strncmp b a length).sign = -(Comparisons.strncmp a b length).sign
  transitive : ∀ r c zs, TextFrom c 0 zs →
    (Comparisons.memcmp p q length ≤ 0 → Comparisons.memcmp q r length ≤ 0 →
      Comparisons.memcmp p r length ≤ 0) ∧
    (Comparisons.strncmp a b length ≤ 0 → Comparisons.strncmp b c length ≤ 0 →
      Comparisons.strncmp a c length ≤ 0)
  agree : xs.length < length → ys.length < length →
    (Comparisons.strncmp a b length).sign = lexicographic unsigned xs ys

theorem memcmp_trans {b c : Nat → Byte} {length : Int} (first : memcmp a b length ≤ 0)
    (second : memcmp b c length ≤ 0) : memcmp a c length ≤ 0 := by
  unfold memcmp at first second ⊢
  rw [← sign_nonpos_iff, memcmp_sign] at first second ⊢
  exact lexicographic_trans _ first second

theorem strncmp_trans {b c : Nat → Byte} {zs : List Byte} {length : Int} (left : TextFrom a 0 xs)
    (middle : TextFrom b 0 ys) (right : TextFrom c 0 zs) (first : strncmp a b length ≤ 0)
    (second : strncmp b c length ≤ 0) : strncmp a c length ≤ 0 := by
  unfold strncmp at first second ⊢
  rw [← sign_nonpos_iff, strncmp_sign _ left middle] at first
  rw [← sign_nonpos_iff, strncmp_sign _ middle right] at second
  rw [← sign_nonpos_iff, strncmp_sign _ left right]
  exact lexicographic_trans _ first second

/-- All compare as unsigned bytes exactly if, where the buffers first differ and where the strings
first differ, the two bytes are on the same side of 128. -/
theorem compares_unsigned_iff (p q : Nat → Byte) {a b : Nat → Byte} {xs ys : List Byte} (length : Int)
    (left : TextFrom a 0 xs) (right : TextFrom b 0 ys) :
    ComparesUnsigned p q a b xs ys length ↔
      Alike (bytesFrom p length.toNat 0) (bytesFrom q length.toNat 0) ∧
        Alike (limited length.toNat xs) (limited length.toNat ys) := by
  have text := strncmp_sign length.toNat left right
  have back := strncmp_sign length.toNat right left
  have bare := limited_unsigned length.toNat left.nonzero right.nonzero
  rw [← signed_eq_unsigned_iff, ← signed_eq_unsigned_iff, bare, ← text, ← memcmp_sign]
  constructor
  · intro compares
    exact ⟨compares.memcmp, compares.strncmp⟩
  · rintro ⟨buffers, strings⟩
    refine ⟨buffers, strings, strcmp_compares xs ys, ⟨?_, ?_⟩, ?_, ?_⟩
    · rw [memcmp, memcmp, memcmp_sign, memcmp_sign, lexicographic_antisymm]
    · rw [strncmp, strncmp, text, back, lexicographic_antisymm]
    · intro r c zs standing
      exact ⟨memcmp_trans, strncmp_trans left right standing⟩
    · intro shorter brief
      refine strings.trans ?_
      rw [List.take_of_length_le (by omega), List.take_of_length_le (by omega)]

/-- The string of a text, with zeros after it. -/
def cstring (text : List Byte) (i : Nat) : Byte := text.getD i 0

/-- Two texts that differ in a byte above 127 only. -/
theorem compares_unsigned_letters :
    ComparesUnsigned (cstring [97, 200]) (cstring [97, 201]) (cstring [97, 200]) (cstring [97, 201])
      [97, 200] [97, 201] 3 :=
  (compares_unsigned_iff _ _ 3 (by simp [TextFrom, cstring]) (by simp [TextFrom, cstring])).mpr
    (by decide)

/-- `memcmp` and `strncmp` put the byte 128 before the byte 127; `strcmp` does not. -/
theorem memcmp_puts_high_byte_first :
    (memcmp (cstring [128]) (cstring [127]) 1).sign = -1 ∧
      (strncmp (cstring [128]) (cstring [127]) 2).sign = -1 ∧
      lexicographic unsigned [128] [127] = 1 ∧ StrcmpCompares [128] [127] :=
  ⟨by decide, by decide, by decide, strcmp_compares _ _⟩

end JsEmulator.Userland.Comparisons
