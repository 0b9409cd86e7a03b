import Mathlib.Algebra.BigOperators.Fin
import Mathlib.Data.BitVec
import Mathlib.Data.List.FinRange
import Mathlib.Tactic.Linarith

/-!
# The area table of a process

The virtual-memory areas and the heap of one process, with the functions of
`memory.c` that read and change them. A C `int` that holds an address or a length
is an integer in the range of 32-bit words; `int32` is the wrap-around of its sums.
Words that are only tested for bits stay bit vectors.

Which pages are mapped in the page table is a parameter: the functions here ask it
and never change it. `end` is a keyword, so an area runs from `start` to `stop`.
-/

namespace JsEmulator.Memory

/-- A C `int` used as a set of bits. -/
abbrev Word := BitVec 32

abbrev Byte := BitVec 8

/-- Wrap a sum to the range of a C `int`. -/
def int32 (x : Int) : Int := (x + 2147483648) % 4294967296 - 2147483648

def ebadf : Int := 9
def enomem : Int := 12
def eacces : Int := 13
def efault : Int := 14
def enodev : Int := 19
def einval : Int := 22

/-- `CFG_USER_BASE` and `CFG_USER_LOAD_BASE`. -/
def userBase : Int := 0x4000000
def userGuardPage : Int := 0x7fef000
def userStackPage : Int := 0x7ff0000
def userStackTop : Int := 0x8000000

/-- `CFG_MAX_VMAS`, `CFG_MAX_PROC` and `CFG_PAGE_CACHE_SIZE`. -/
def maxVmas : Nat := 16
def maxProc : Nat := 8
def pageCacheSize : Nat := 128

def protRead : Word := 1
def protWrite : Word := 2
def protExec : Word := 4
def mapShared : Word := 1
def mapPrivate : Word := 2
def mapFixed : Word := 16
def mapAnonymous : Word := 32

/-- Whether a word has one of the bits of a mask. -/
def hasBits (w mask : Word) : Bool := w &&& mask != 0

/-- `struct vm_area`. A file of `-1` is none. -/
structure Area where
  used : Bool
  start : Int
  stop : Int
  prot : Word
  flags : Word
  file : Option Nat
  offset : Int
deriving DecidableEq, Repr

/-- The part of `struct vm` beside the page directory. -/
structure Vm where
  brkStart : Int
  brkEnd : Int
  areas : Fin maxVmas → Area
deriving DecidableEq

/-- `page_align_up`. The mask rounds down to a page, also below zero. -/
def pageAlignUp (value : Int) : Int := int32 (value + 4095) / 4096 * 4096

/-- The pages a loop `while (page < stop) page = page + 4096` visits. Every caller's
range ends by `CFG_USER_STACK_TOP` or is empty, so the addition does not wrap. -/
def pages (start stop : Int) : List Int :=
  (List.range ((stop - start + 4095) / 4096).toNat).map (fun k : Nat => start + 4096 * k)

/-- The test that `vm_page_in_area` and `vm_area_index` make of one area. -/
def Area.contains (a : Area) (page : Int) : Bool :=
  a.used && decide (a.start ≤ page) && decide (page < a.stop)

/-- `vm_area_index`. -/
def vmAreaIndex (vm : Vm) (page : Int) : Option (Fin maxVmas) :=
  (List.finRange maxVmas).find? (fun i => (vm.areas i).contains page)

/-- What backs a page that is not present: its protection, flags, file and offset. -/
def faultBacking (vm : Vm) (page : Int) : Option (Word × Word × Option Nat × Int) :=
  match vmAreaIndex vm page with
  | none =>
    if page < vm.brkStart ∨ vm.brkEnd ≤ page then none
    else some (protRead ||| protWrite, mapPrivate ||| mapAnonymous, none, 0)
  | some i =>
    let a := vm.areas i
    some (a.prot, a.flags, a.file, int32 (a.offset + page - a.start))

/-- `vm_page_in_area`. -/
def vmPageInArea (vm : Vm) (page : Int) : Bool := (vmAreaIndex vm page).isSome

/-- The heap test of `vm_range_free`. -/
def vmPageInHeap (vm : Vm) (page : Int) : Bool :=
  decide (vm.brkStart ≤ page) && decide (page < pageAlignUp vm.brkEnd)

/-- `vm_range_free`. -/
def vmRangeFree (mapped : Int → Bool) (vm : Vm) (start stop : Int) : Bool :=
  (pages start stop).all (fun page =>
    !(mapped page || vmPageInArea vm page || vmPageInHeap vm page))

/-- `vm_range_in_areas`. -/
def vmRangeInAreas (vm : Vm) (start stop : Int) : Bool :=
  (pages start stop).all (fun page => vmPageInArea vm page)

/-- `vm_area_slot`. -/
def vmAreaSlot (vm : Vm) : Option (Fin maxVmas) :=
  (List.finRange maxVmas).find? (fun i => !(vm.areas i).used)

/-- Replace one area. -/
def Vm.setArea (vm : Vm) (i : Fin maxVmas) (a : Area) : Vm :=
  { vm with areas := Function.update vm.areas i a }

/-- `vm_area_assign` at the slot that `vm_area_slot` finds. The source would write
before the table if there were none. -/
def vmAreaAssign (vm : Vm) (a : Area) : Option Vm :=
  (vmAreaSlot vm).map (fun slot => vm.setArea slot a)

/-- The area that covers the stack below the argument page. -/
def stackArea : Area where
  used := true
  start := userStackPage
  stop := userStackTop - 4096
  prot := protRead ||| protWrite
  flags := mapPrivate ||| mapAnonymous
  file := none
  offset := 0

/-- A slot of the process table before its first use. -/
def emptyVm : Vm := ⟨0, 0, fun _ => ⟨false, 0, 0, 0, 0, none, 0⟩⟩

/-- `vm_release`. -/
def vmRelease (vm : Vm) : Vm :=
  { vm with areas := fun i => { vm.areas i with used := false, file := none } }

/-- `vm_init`. -/
def vmInit (vm : Vm) (imageEnd : Int) : Vm :=
  Vm.setArea { vmRelease vm with brkStart := imageEnd, brkEnd := imageEnd } ⟨0, by decide⟩ stackArea

/-- `vm_fork`: every field of the child's record is taken from the parent's. -/
def vmFork (parent : Vm) : Vm where
  brkStart := parent.brkStart
  brkEnd := parent.brkEnd
  areas := parent.areas

/-- The image end that `load_exec_image` computes, after its check of the size. -/
def execImageEnd (memsz : Int) : Option Int :=
  if memsz ≤ 0 ∨ userGuardPage - userBase < memsz then none
  else some (userBase + (memsz + 4095) / 4096 * 4096)

/-- `vm_brk` on the heap bounds. The caller unmaps the pages of a shrunk heap. -/
def vmBrk (mapped : Int → Bool) (vm : Vm) (address : Int) : Int × Vm :=
  if address = 0 then (vm.brkEnd, vm)
  else if address < vm.brkStart ∨ userGuardPage ≤ address then (-enomem, vm)
  else if pageAlignUp vm.brkEnd < pageAlignUp address ∧
      vmRangeFree mapped vm (pageAlignUp vm.brkEnd) (pageAlignUp address) = false then
    (-enomem, vm)
  else (address, { vm with brkEnd := address })

/-- The loop of `vm_find_mapping`. The start grows by a page each turn and lies past
`CFG_USER_GUARD_PAGE` after `2 ^ 15` of them, so the bound cuts nothing off. -/
def findMappingFrom (mapped : Int → Bool) (vm : Vm) (length : Int) : Nat → Int → Int
  | 0, _ => 0
  | turns + 1, start =>
    if int32 (start + length) ≤ userGuardPage then
      if vmRangeFree mapped vm start (int32 (start + length)) then start
      else findMappingFrom mapped vm length turns (start + 4096)
    else 0

/-- `vm_find_mapping`. -/
def vmFindMapping (mapped : Int → Bool) (vm : Vm) (length : Int) : Int :=
  findMappingFrom mapped vm length 32768 (pageAlignUp vm.brkEnd)

/-- The six words that `vm_mmap` copies in. -/
structure MmapArgs where
  address : Word
  length : Word
  prot : Word
  flags : Word
  fd : Word
  offset : Word
deriving DecidableEq, Repr

/-- What the descriptor table says about a file descriptor: whether it is open, its
access mode, and the open file that `file_mmap_retain` returns for a regular one. -/
structure FdAnswer where
  isOpen : Bool
  readable : Bool
  writable : Bool
  object : Option Nat
deriving DecidableEq, Repr

/-- Where the mapping goes. -/
def mmapPlace (mapped : Int → Bool) (vm : Vm) (args : MmapArgs) (length : Int) : Except Int Int :=
  if hasBits args.flags mapFixed then
    let address := args.address.toInt
    if address % 4096 ≠ 0 ∨ address < userBase ∨ int32 (address + length) < address ∨
        userGuardPage < int32 (address + length) then .error (-einval)
    else if vmRangeFree mapped vm address (int32 (address + length)) = false then .error (-einval)
    else .ok address
  else if vmFindMapping mapped vm length = 0 then .error (-enomem)
  else .ok (vmFindMapping mapped vm length)

/-- The checks on the descriptor of a file mapping. -/
def mmapFileCheck (fd : FdAnswer) (args : MmapArgs) : Except Int Unit :=
  if hasBits args.flags mapAnonymous then .ok ()
  else if args.fd.toInt < 0 ∨ 16 ≤ args.fd.toInt ∨ fd.isOpen = false then .error (-ebadf)
  else if args.offset.toInt % 4096 ≠ 0 ∨ args.offset.toInt < 0 then .error (-einval)
  else if fd.readable = false then .error (-eacces)
  else if hasBits args.flags mapShared ∧ hasBits args.prot protWrite ∧ fd.writable = false then
    .error (-eacces)
  else .ok ()

/-- `file_mmap_retain`, for a file mapping. -/
def mmapFile (fd : FdAnswer) (args : MmapArgs) : Except Int (Option Nat) :=
  if hasBits args.flags mapAnonymous then .ok none
  else
    match fd.object with
    | none => .error (-enodev)
    | some object => .ok (some object)

/-- The area that a successful `vm_mmap` adds. -/
def mmapArea (args : MmapArgs) (address length : Int) (file : Option Nat) : Area where
  used := true
  start := address
  stop := int32 (address + length)
  prot := args.prot
  flags := args.flags
  file := file
  offset := args.offset.toInt

/-- `vm_mmap` after its arguments have been copied in. -/
def vmMmapArgs (mapped : Int → Bool) (fd : FdAnswer) (vm : Vm) (args : MmapArgs) : Int × Vm :=
  if args.length.toInt ≤ 0 ∨ hasBits args.prot (~~~(protRead ||| protWrite ||| protExec)) then
    (-einval, vm)
  else if hasBits args.flags mapPrivate = hasBits args.flags mapShared then (-einval, vm)
  else
    let length := pageAlignUp args.length.toInt
    match mmapPlace mapped vm args length with
    | .error code => (code, vm)
    | .ok address =>
      match mmapFileCheck fd args with
      | .error code => (code, vm)
      | .ok () =>
        match vmAreaSlot vm with
        | none => (-enomem, vm)
        | some slot =>
          match mmapFile fd args with
          | .error code => (code, vm)
          | .ok file => (address, vm.setArea slot (mmapArea args address length file))

/-- `vm_mmap`. -/
def vmMmap (mapped : Int → Bool) (fd : FdAnswer) (vm : Vm) : Option MmapArgs → Int × Vm
  | none => (-efault, vm)
  | some args => vmMmapArgs mapped fd vm args

/-- The range lies strictly inside an area, which must be split. -/
def Area.splitBy (a : Area) (start stop : Int) : Bool :=
  a.used && decide (a.start < start) && decide (stop < a.stop)

/-- The range check of `vm_munmap`. -/
def munmapRange (address length : Int) : Option (Int × Int) :=
  if address % 4096 ≠ 0 ∨ length ≤ 0 then none
  else
    let stop := int32 (address + pageAlignUp length)
    if address < userBase ∨ stop < address ∨ userGuardPage < stop then none
    else some (address, stop)

/-- One turn of the loop of `vm_munmap` over the areas: split, drop, cut at the
front or cut at the back. -/
def munmapArea (start stop : Int) (vm : Vm) (i : Fin maxVmas) : Option Vm :=
  let a := vm.areas i
  if a.splitBy start stop then
    (vmAreaAssign vm { a with start := stop, offset := int32 (a.offset + stop - a.start) }).map
      (fun vm => vm.setArea i { a with stop := start })
  else if a.used ∧ start ≤ a.start ∧ a.stop ≤ stop then some (vm.setArea i { a with used := false })
  else if a.used ∧ start ≤ a.start ∧ a.start < stop then
    some (vm.setArea i { a with start := stop, offset := int32 (a.offset + stop - a.start) })
  else if a.used ∧ start < a.stop ∧ a.stop ≤ stop then some (vm.setArea i { a with stop := start })
  else some vm

/-- The area part of `vm_munmap`, after its range check. The pages are unmapped by
the caller in between. -/
def vmMunmap (vm : Vm) (start stop : Int) : Option (Int × Vm) :=
  if (List.finRange maxVmas).any (fun i => (vm.areas i).splitBy start stop) ∧
      vmAreaSlot vm = none then some (-enomem, vm)
  else ((List.finRange maxVmas).foldlM (munmapArea start stop) vm).map (fun vm => (0, vm))

/-- The test that the loops of `vm_mprotect` make of one area. -/
def Area.overlaps (a : Area) (start stop : Int) : Bool :=
  decide (start < a.stop) && decide (a.start < stop)

/-- What one area adds to `vm_mprotect_slots_needed`. -/
def areaSlotsNeeded (start stop : Int) (a : Area) : Nat :=
  if a.used ∧ a.overlaps start stop then
    (if a.start < max start a.start then 1 else 0) + (if min stop a.stop < a.stop then 1 else 0)
  else 0

/-- `vm_mprotect_slots_needed`. -/
def vmMprotectSlotsNeeded (vm : Vm) (start stop : Int) : Nat :=
  ∑ i, areaSlotsNeeded start stop (vm.areas i)

/-- `vm_free_area_slots`. -/
def vmFreeAreaSlots (vm : Vm) : Nat := ∑ i, if (vm.areas i).used then 0 else 1

/-- One turn of the loop of `vm_mprotect_areas`: the part of the area inside the
range gets the new protection, in a slot of its own unless it is the whole area. -/
def mprotectArea (start stop : Int) (prot : Word) (vm : Vm) (i : Fin maxVmas) : Option Vm :=
  let a := vm.areas i
  let overlapStart := max start a.start
  let overlapStop := min stop a.stop
  if a.overlaps start stop = false then some vm
  else if overlapStart = a.start ∧ overlapStop = a.stop then
    some (vm.setArea i { a with prot := prot })
  else if overlapStart = a.start then
    (vmAreaAssign (vm.setArea i { a with start := overlapStop })
      { a with stop := overlapStop, prot := prot }).map
      (fun vm => vm.setArea i
        { a with start := overlapStop, offset := int32 (a.offset + overlapStop - a.start) })
  else if overlapStop = a.stop then
    vmAreaAssign (vm.setArea i { a with stop := overlapStart })
      { a with
        start := overlapStart, prot := prot
        offset := int32 (a.offset + overlapStart - a.start) }
  else
    (vmAreaAssign (vm.setArea i { a with stop := overlapStart })
      { a with
        start := overlapStart, stop := overlapStop, prot := prot
        offset := int32 (a.offset + overlapStart - a.start) }).bind
      (fun vm => vmAreaAssign vm
        { a with start := overlapStop, offset := int32 (a.offset + overlapStop - a.start) })

/-- `vm_mprotect_areas`: only areas in use at the start are visited. -/
def vmMprotectAreas (vm : Vm) (start stop : Int) (prot : Word) : Option Vm :=
  ((List.finRange maxVmas).filter (fun i => (vm.areas i).used)).foldlM
    (mprotectArea start stop prot) vm

/-- The checks of `vm_mprotect`, in the order of the source. -/
def mprotectRange (vm : Vm) (address length : Int) (prot : Word) : Except Int (Int × Int) :=
  if address % 4096 ≠ 0 ∨ length ≤ 0 ∨
      hasBits prot (~~~(protRead ||| protWrite ||| protExec)) then .error (-einval)
  else
    let stop := int32 (address + pageAlignUp length)
    if address < userBase ∨ stop < address ∨ userStackTop < stop ∨
        vmRangeInAreas vm address stop = false then .error (-enomem)
    else if vmFreeAreaSlots vm < vmMprotectSlotsNeeded vm address stop then .error (-enomem)
    else .ok (address, stop)

end JsEmulator.Memory
