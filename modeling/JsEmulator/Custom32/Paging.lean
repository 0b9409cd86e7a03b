import JsEmulator.Library.WordMemory
import Mathlib.Logic.Function.Basic

/-!
# Physical memory and the page-table walk

`memory.ts` and `mmu.ts`. Addresses are the numbers of JavaScript: a virtual address may lie
outside of 32 bits, and only its low 32 bits say which page it is in. A physical address may
be negative, since `&` gives a signed number: the frame of an entry with its top bit set lies
below the memory, where a typed array has no bytes, reads give `undefined` and writes are
ignored.
-/

namespace JsEmulator.Custom32

abbrev Byte := BitVec 8
abbrev Word := BitVec 32

/-- The RAM: a number of whole pages. -/
structure PhysicalMemory where
  pages : Nat
  bytes : Nat → Byte

namespace PhysicalMemory

/-- `size`. -/
def size (m : PhysicalMemory) : Int := m.pages * 4096

/-- An element of the typed array, if there is one. -/
def at? (m : PhysicalMemory) (p : Int) : Option Byte :=
  if 0 ≤ p ∧ p < m.size then some (m.bytes p.toNat) else none

/-- An assignment to an element of the typed array. -/
def put (m : PhysicalMemory) (p : Int) (b : Byte) : PhysicalMemory :=
  if 0 ≤ p ∧ p < m.size then { m with bytes := Function.update m.bytes p.toNat b } else m

/-- Assignments to consecutive elements. -/
def putAll (m : PhysicalMemory) (p : Int) : List Byte → PhysicalMemory
  | [] => m
  | b :: rest => (m.put p b).putAll (p + 1) rest

/-- Consecutive elements. -/
def span (m : PhysicalMemory) (p : Int) (n : Nat) : List (Option Byte) :=
  (List.range n).map fun i : Nat => m.at? (p + i)

@[simp] theorem put_pages (m : PhysicalMemory) (p : Int) (b : Byte) :
    (m.put p b).pages = m.pages := by
  unfold put
  split_ifs <;> rfl

@[simp] theorem put_size (m : PhysicalMemory) (p : Int) (b : Byte) :
    (m.put p b).size = m.size := by
  rw [size, put_pages, size]

@[simp] theorem putAll_size (m : PhysicalMemory) (p : Int) (items : List Byte) :
    (m.putAll p items).size = m.size := by
  induction items generalizing m p with
  | nil => rfl
  | cons b rest ih => rw [putAll, ih, put_size]

end PhysicalMemory

/-- Bytes as a number, the lowest first; `undefined` counts as zero in a bitwise or. -/
def joined : List (Option Byte) → Word
  | [] => 0
  | b :: rest => (b.getD 0).setWidth 32 ||| joined rest <<< 8

/-- The low bytes of a number, the lowest first. -/
def bytesOf (n : Nat) (x : Word) : List Byte :=
  (List.range n).map fun i => (x >>> (8 * i)).setWidth 8

/-- `read32`: outside of the memory it throws a `RangeError`. -/
def PhysicalMemory.read32 (m : PhysicalMemory) (p : Int) : Option Word :=
  if 0 ≤ p ∧ p + 4 ≤ m.size then some (joined (m.span p 4)) else none

/-- The page of a virtual address. -/
def pageNumber (vaddr : Int) : Nat := (vaddr % 2 ^ 32 / 4096).toNat

/-- `pageOffset`. -/
def pageOffset (vaddr : Int) : Nat := (vaddr % 4096).toNat

/-- The bits `P`, `W` and `U` of an entry. -/
def present (entry : Word) : Bool := entry.getLsbD 0
def writable (entry : Word) : Bool := entry.getLsbD 1
def userAccessible (entry : Word) : Bool := entry.getLsbD 2

/-- An entry without its flags, as the signed number that `entry & ADDR_MASK` is. -/
def frameNumber (entry : Word) : Int := entry.toInt / 4096

/-- What a walk finds: the frame, whether the page is writable, and whether both levels let
the user access it. -/
structure PageEntry where
  number : Int
  writable : Bool
  user : Bool
deriving DecidableEq, Repr

/-- The physical address of the frame. -/
def PageEntry.frame (e : PageEntry) : Int := e.number * 4096

/-- The result of a walk. -/
inductive Walk where
  | fault (present : Bool)
  | found (entry : PageEntry)
deriving DecidableEq, Repr

/-- `translate` up to the offset, which it adds to the frame. The walk itself may leave the
memory, and `read32` then throws. -/
def walk (m : PhysicalMemory) (ptbr : Word) (page : Nat) (write user : Bool) : Option Walk :=
  match m.read32 (ptbr.toNat + (page / 1024 % 1024 : Nat) * 4) with
  | none => none
  | some pde =>
    if !present pde then some (.fault false)
    else if user && !userAccessible pde then some (.fault true)
    else
      match m.read32 (frameNumber pde * 4096 + (page % 1024 : Nat) * 4) with
      | none => none
      | some pte =>
        if !present pte then some (.fault false)
        else if user && !userAccessible pte then some (.fault true)
        else if write && !writable pte then some (.fault true)
        else some (.found ⟨frameNumber pte, writable pte, userAccessible pde && userAccessible pte⟩)

/-- The translation a page has. -/
def entry (m : PhysicalMemory) (ptbr : Word) (page : Nat) : Option PageEntry :=
  match walk m ptbr page false false with
  | some (.found e) => some e
  | _ => none

/-- A walk succeeds if the page has a translation and that allows the access. -/
theorem walk_found_iff (m : PhysicalMemory) (ptbr : Word) (page : Nat) (write user : Bool)
    (e : PageEntry) :
    walk m ptbr page write user = some (.found e) ↔
      entry m ptbr page = some e ∧ (user = true → e.user = true) ∧
        (write = true → e.writable = true) := by
  unfold entry walk
  rcases m.read32 (ptbr.toNat + (page / 1024 % 1024 : Nat) * 4) with - | pde
  · simp
  dsimp only
  rcases m.read32 (frameNumber pde * 4096 + (page % 1024 : Nat) * 4) with - | pte
  · dsimp only
    cases present pde <;> cases user && !userAccessible pde <;> simp
  dsimp only
  generalize present pde = listed, userAccessible pde = open₁, present pte = mapped,
    userAccessible pte = open₂, writable pte = writes, frameNumber pte = number
  cases listed <;> cases open₁ <;> cases user <;> cases mapped <;> cases open₂ <;>
    cases write <;> cases writes <;> simp <;> rintro rfl <;> simp

end JsEmulator.Custom32
