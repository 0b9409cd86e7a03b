import JsEmulator.Disk.BlockAllocator
import JsEmulator.Library.WordMemory

/-!
# The boot block

Sector 0 of a disk image is a manifest that host tools write and read with `encodeBootBlock` and
`decodeBootBlock`. The kernel reads the path of the first program from the same sector, through
its buffer cache, with `read_initpath`. The host keeps a path of up to 64 code units and the
kernel one of up to 63 bytes and the NUL that ends it.
-/

namespace JsEmulator.Disk

open JsEmulator.Library.WordMemory

/-! ## The host -/

/-- A unit of a string of the host. -/
abbrev CodeUnit := BitVec 16

structure BootBlock where
  magic : Word
  version : Word
  signature : Word
  fsBlock : Word
  kernelStart : Word
  kernelBlocks : Word
  kernelLoad : Word
  kernelEntry : Word
  kernelBytes : Word
  kernelStack : Word
  initPath : List CodeUnit

def bootMagic : Word := 0x544f4f42

/-- "boot: initPath too long: " with the path. -/
inductive BootError where
  | initPathTooLong (path : List CodeUnit)

/-- `makeBootBlock`; `extra` replaces some of the defaults. -/
def makeBootBlock (initPath : List CodeUnit) (extra : BootBlock → BootBlock) : BootBlock :=
  extra { magic := bootMagic, version := 1, signature := 0xaa55, fsBlock := 1, kernelStart := 0
          kernelBlocks := 0, kernelLoad := 0, kernelEntry := 0, kernelBytes := 0, kernelStack := 0
          initPath := initPath }

/-- `setUint16`, little-endian; `setUint32` is `writeWord`. -/
def writeHalf (buf : Word → Byte) (a x : Word) : Word → Byte :=
  fun b => if (b - a).toNat < 2 then x.extractLsb' (8 * (b - a).toNat) 8 else buf b

/-- `getUint16`, little-endian; `getUint32` is `readWord`. -/
def readHalf (buf : Word → Byte) (a : Word) : Word := (buf (a + 1) ++ buf a).setWidth 32

/-- The low bytes of the units of a path, from byte 24 on. -/
def writePath (buf : Word → Byte) (path : List CodeUnit) : Word → Byte :=
  fun b => if 24 ≤ b.toNat then (path[b.toNat - 24]?.map (·.setWidth 8)).getD (buf b) else buf b

/-- The bytes of a sector. -/
def Block.bytes (data : Block) (a : Word) : Byte := data (Fin.ofNat 512 a.toNat)

/-- `encodeBootBlock`. -/
def encodeBootBlock (bb : BootBlock) : Except BootError Block :=
  if 64 < bb.initPath.length then .error (.initPathTooLong bb.initPath)
  else
    let buf := writeWord (fun _ => 0) 0 bb.magic
    let buf := writeWord buf 4 bb.version
    let buf := writeWord buf 8 bb.fsBlock
    let buf := writeWord buf 12 bb.kernelStart
    let buf := writeWord buf 16 bb.kernelBlocks
    let buf := writeWord buf 20 (BitVec.ofNat 32 bb.initPath.length)
    let buf := writePath buf bb.initPath
    let buf := writeWord buf 88 bb.kernelLoad
    let buf := writeWord buf 92 bb.kernelEntry
    let buf := writeWord buf 96 bb.kernelBytes
    let buf := writeWord buf 100 bb.kernelStack
    let buf := writeHalf buf 510 bb.signature
    .ok fun i => buf (BitVec.ofNat 32 i)

/-- `decodeBootBlock`. -/
def decodeBootBlock (data : Block) : BootBlock :=
  let buf := data.bytes
  { magic := readWord buf 0
    version := readWord buf 4
    signature := readHalf buf 510
    fsBlock := readWord buf 8
    kernelStart := readWord buf 12
    kernelBlocks := readWord buf 16
    kernelLoad := readWord buf 88
    kernelEntry := readWord buf 92
    kernelBytes := readWord buf 96
    kernelStack := readWord buf 100
    initPath := (List.range (min (readWord buf 20).toNat 64)).map fun i =>
      (buf (BitVec.ofNat 32 (24 + i))).setWidth 16 }

section

variable {buf : Word → Byte} {a b x : Word} {path : List CodeUnit}

theorem bytes_sector (inside : a.toNat < 512) :
    Block.bytes (fun i => buf (BitVec.ofNat 32 i)) a = buf a := by
  rw [Block.bytes, Fin.val_ofNat, Nat.mod_eq_of_lt inside, BitVec.ofNat_toNat, BitVec.setWidth_eq]

theorem read_sector (inside : ∀ i < 4, (a + BitVec.ofNat 32 i).toNat < 512) :
    readWord (Block.bytes fun i => buf (BitVec.ofNat 32 i)) a = readWord buf a :=
  readWord_congr fun i small => bytes_sector (inside i small)

theorem read_half_other (outside : ∀ i < 4, ¬ (a + BitVec.ofNat 32 i - b).toNat < 2) :
    readWord (writeHalf buf b x) a = readWord buf a :=
  readWord_congr fun i small => if_neg (outside i small)

theorem read_path_other (short : path.length ≤ 64)
    (outside : ∀ i < 4, (a + BitVec.ofNat 32 i).toNat < 24 ∨ 88 ≤ (a + BitVec.ofNat 32 i).toNat) :
    readWord (writePath buf path) a = readWord buf a := by
  refine readWord_congr fun i small => ?_
  unfold writePath
  split
  case isTrue low =>
    have high := (outside i small).resolve_left (Nat.not_lt.mpr low)
    rw [List.getElem?_eq_none (by omega), Option.map_none, Option.getD_none]
  case isFalse => rfl

theorem read_half (buf : Word → Byte) (x : Word) :
    readHalf (Block.bytes fun i => writeHalf buf 510 x (BitVec.ofNat 32 i)) 510 =
      (x.setWidth 16).setWidth 32 := by
  rw [readHalf, bytes_sector (by decide), bytes_sector (by decide)]
  refine congrArg _ (BitVec.eq_of_getLsbD_eq fun i small => ?_)
  simp only [writeHalf, BitVec.getLsbD_append, BitVec.getLsbD_setWidth]
  split
  case isTrue low => simp [low, show i < 16 by omega]
  case isFalse high => simp [show i - 8 < 8 by omega, show 8 + (i - 8) = i by omega, small]

end

variable {bb : BootBlock} {sector : Block}

/-- What a sector that was encoded holds: the words of the block, the low half of the signature, and
the low bytes of the path. -/
theorem encoded_holds (encoded : encodeBootBlock bb = .ok sector) :
    bb.initPath.length ≤ 64 ∧ (readWord sector.bytes 20).toNat = bb.initPath.length ∧
      (∀ i (inside : i < bb.initPath.length),
        sector.bytes (BitVec.ofNat 32 (24 + i)) = bb.initPath[i].setWidth 8) ∧
      ∀ path, { decodeBootBlock sector with initPath := path } =
        { bb with signature := (bb.signature.setWidth 16).setWidth 32, initPath := path } := by
  unfold encodeBootBlock at encoded
  split at encoded
  case isTrue => cases encoded
  case isFalse accepted =>
    have short := Nat.le_of_not_lt accepted
    cases encoded
    refine ⟨short, ?_, fun i inside => ?_, fun path => ?_⟩
    · simp (disch := first | exact short | decide) only [read_sector, read_half_other,
        readWord_far, read_path_other, readWord_writeWord]
      rw [BitVec.toNat_ofNat]
      omega
    · have offset : (BitVec.ofNat 32 (24 + i)).toNat = 24 + i := by
        rw [BitVec.toNat_ofNat]
        omega
      generalize BitVec.ofNat 32 (24 + i) = b at offset
      have far (a : Word) (high : 88 ≤ a.toNat) : 4 ≤ (b - a).toNat := by
        rw [BitVec.toNat_sub]
        omega
      have past (buf : Word → Byte) (a x : Word) (high : 88 ≤ a.toNat) : writeWord buf a x b = buf b :=
        if_neg (Nat.not_lt.mpr (far a high))
      have half := far 510 (by decide)
      rw [bytes_sector (by omega), writeHalf, if_neg (by omega)]
      simp (disch := decide) only [past]
      rw [writePath, if_pos (by omega), offset, Nat.add_sub_cancel_left,
        List.getElem?_eq_getElem inside]
      rfl
    · simp (disch := first | exact short | decide) only [decodeBootBlock, read_sector,
        read_half_other, readWord_far, read_path_other, readWord_writeWord, read_half]

theorem encode_accepts (bb : BootBlock) (short : bb.initPath.length ≤ 64) :
    ∃ sector, encodeBootBlock bb = .ok sector :=
  ⟨_, if_neg (Nat.not_lt.mpr short)⟩

/-- Units that a C string can hold. -/
def Plain (path : List CodeUnit) : Prop := ∀ unit ∈ path, unit ≠ 0 ∧ unit.toNat < 256

theorem Plain.kept {path : List CodeUnit} (plain : Plain path) {unit : CodeUnit}
    (listed : unit ∈ path) : (unit.setWidth 8).setWidth 16 = unit := by
  have := (plain unit listed).2
  apply BitVec.eq_of_toNat_eq
  simp only [BitVec.toNat_setWidth]
  omega

/-- The host reads back what it wrote, if the signature has 16 bits and each unit is a byte. -/
theorem decode_encoded (encoded : encodeBootBlock bb = .ok sector)
    (signature : bb.signature.toNat < 2 ^ 16) (plain : Plain bb.initPath) :
    decodeBootBlock sector = bb := by
  obtain ⟨short, len, held, fields⟩ := encoded_holds encoded
  have all : min (readWord sector.bytes 20).toNat 64 = bb.initPath.length := by
    rw [len]
    exact Nat.min_eq_left short
  have path : (decodeBootBlock sector).initPath = bb.initPath := by
    refine List.ext_getElem ?_ fun i _ inside => ?_
    · simp only [decodeBootBlock, List.length_map, List.length_range, all]
    · simp [decodeBootBlock, held i inside, plain.kept]
  have halved : (bb.signature.setWidth 16).setWidth 32 = bb.signature := by
    apply BitVec.eq_of_toNat_eq
    simp only [BitVec.toNat_setWidth]
    omega
  have same := fields (decodeBootBlock sector).initPath
  rw [halved] at same
  exact same.trans (by rw [path])

/-! ## The kernel -/

/-- `initpath` after `n` rounds of the copy. -/
def copyPath (data : Block) (initpath : Int → Byte) : Nat → Int → Byte
  | 0 => initpath
  | n + 1 => Function.update (copyPath data initpath n) n (data.bytes (BitVec.ofNat 32 (24 + n)))

/-- `read_initpath`, with the bytes at and around `initpath`; `none` is the panic "not a bootable
disk". -/
def readInitpath (s : Buffers) (initpath : Int → Byte) : Option (Buffers × (Int → Byte)) :=
  let bb := bread s 0
  let data := bb.2.bufData bb.1
  if readWord data.bytes 0 ≠ bootMagic then none
  else
    let len := (readWord data.bytes 20).toInt
    let len := if 63 < len then 63 else len
    some (bb.2, Function.update (copyPath data initpath len.toNat) len 0)

/-- The bytes from 0 on are a C string of these units. -/
structure StringAt (mem : Int → Byte) (path : List CodeUnit) : Prop where
  units : ∀ i (inside : i < path.length), (mem i).setWidth 16 = path[i]
  ends : mem path.length = 0
  whole : 0 ∉ path

theorem copy_path_holds (data : Block) (initpath : Int → Byte) {n i : Nat} (inside : i < n) :
    copyPath data initpath n i = data.bytes (BitVec.ofNat 32 (24 + i)) := by
  induction n with
  | zero => omega
  | succ n ih =>
    rw [copyPath]
    by_cases last : i = n
    · rw [last, Function.update_self]
    · rw [Function.update_of_ne (by omega), ih (by omega)]

variable {s : Buffers}

/-- The kernel at a sector that was encoded: at most 63 bytes of the path, then the NUL. -/
theorem read_initpath_encoded (encoded : encodeBootBlock bb = .ok (s.disk 0))
    (coherent : Coherent s) (initpath : Int → Byte) :
    readInitpath s initpath =
      if bb.magic = bootMagic then
        let n := min bb.initPath.length 63
        some ((bread s 0).2, Function.update (copyPath (s.disk 0) initpath n) n 0)
      else none := by
  obtain ⟨short, len, -, fields⟩ := encoded_holds encoded
  have fetched := bread_fetched coherent 0
  have data : (bread s 0).2.bufData (bread s 0).1 = s.disk 0 := by
    rw [fetched.coherent.agrees _ _ fetched.holds, fetched.disk]
  have magic : readWord (s.disk 0).bytes 0 = bb.magic := congrArg BootBlock.magic (fields [])
  have clamped : (if 63 < (readWord (s.disk 0).bytes 20).toInt then 63
      else (readWord (s.disk 0).bytes 20).toInt) = ((min bb.initPath.length 63 : Nat) : Int) := by
    rw [BitVec.toInt_eq_toNat_of_lt (by omega), len]
    split <;> omega
  simp only [readInitpath, data, magic, clamped, Int.toNat_natCast, ite_not]

/-- The kernel starts the program of the first 63 units. -/
theorem read_initpath_takes (encoded : encodeBootBlock bb = .ok (s.disk 0))
    (coherent : Coherent s) (initpath : Int → Byte) (magic : bb.magic = bootMagic)
    (plain : Plain bb.initPath) :
    ∃ t left, readInitpath s initpath = some (t, left) ∧ StringAt left (bb.initPath.take 63) := by
  obtain ⟨-, -, held, -⟩ := encoded_holds encoded
  rw [read_initpath_encoded encoded coherent, if_pos magic]
  refine ⟨_, _, rfl, fun i inside => ?_, ?_, fun nul => ?_⟩
  · rw [List.length_take] at inside
    rw [Function.update_of_ne (by omega), copy_path_holds _ _ (by omega), held i (by omega),
      List.getElem_take]
    exact plain.kept (List.getElem_mem _)
  · rw [List.length_take, Nat.min_comm]
    exact Function.update_self ..
  · exact (plain 0 (List.mem_of_mem_take nul)).1 rfl

/-- The host reads a block back and the kernel starts its program exactly when the block has the
magic word, its signature fits 16 bits, and its path has at most 63 units, each a byte and no NUL. -/
theorem boot_manifest_agrees_iff (bb : BootBlock) (s : Buffers) (initpath : Int → Byte)
    (coherent : Coherent s) (encoded : encodeBootBlock bb = .ok (s.disk 0)) :
    (decodeBootBlock (s.disk 0) = bb ∧
        ∃ t left, readInitpath s initpath = some (t, left) ∧ StringAt left bb.initPath) ↔
      bb.magic = bootMagic ∧ bb.signature.toNat < 2 ^ 16 ∧ bb.initPath.length < 64 ∧
        Plain bb.initPath := by
  obtain ⟨short, -, -, fields⟩ := encoded_holds encoded
  constructor
  · rintro ⟨same, t, left, started, string⟩
    rw [read_initpath_encoded encoded coherent] at started
    split at started
    case isFalse => cases started
    case isTrue magic =>
      cases started
      refine ⟨magic, ?_, Nat.lt_of_le_of_ne short fun longest => ?_, fun unit listed => ⟨?_, ?_⟩⟩
      · have kept := congrArg BootBlock.signature (fields [])
        rw [same] at kept
        rw [kept, BitVec.toNat_setWidth_of_le (by decide)]
        exact (bb.signature.setWidth 16).isLt
      · -- the NUL replaces the last unit of a path of 64
        have last := string.units 63 (by omega)
        rw [Nat.min_eq_right (by omega), Function.update_self] at last
        exact string.whole (List.mem_of_getElem last.symm)
      · rintro rfl
        exact string.whole listed
      · obtain ⟨i, inside, rfl⟩ := List.mem_iff_getElem.mp listed
        rw [← string.units i inside, BitVec.toNat_setWidth_of_le (by decide)]
        exact BitVec.isLt _
  · rintro ⟨magic, signature, small, plain⟩
    have taken := read_initpath_takes encoded coherent initpath magic plain
    rw [List.take_of_length_le (by omega)] at taken
    exact ⟨decode_encoded encoded signature plain, taken⟩

/-- The cache after the mount of a disk with this first sector. -/
def bootedBuffers (sector : Block) : Buffers := { mountedBuffers with disk := fun _ => sector }

theorem booted_coherent (sector : Block) : Coherent (bootedBuffers sector) where
  agrees := nofun
  single := nofun

/-- "/init". -/
def initBlock : BootBlock := makeBootBlock [0x2f, 0x69, 0x6e, 0x69, 0x74] id

theorem boot_manifest_agrees_init : ∃ sector, encodeBootBlock initBlock = .ok sector ∧
    decodeBootBlock sector = initBlock ∧ ∃ t left,
      readInitpath (bootedBuffers sector) (fun _ => 0) = some (t, left) ∧
        StringAt left initBlock.initPath := by
  obtain ⟨sector, encoded⟩ := encode_accepts initBlock (by decide)
  have plain : Plain initBlock.initPath := by simp [Plain, initBlock, makeBootBlock]
  exact ⟨sector, encoded, (boot_manifest_agrees_iff initBlock (bootedBuffers sector) _
    (booted_coherent sector) encoded).mpr ⟨rfl, by decide, by decide, plain⟩⟩

/-- A path of 64 units. -/
def longBlock : BootBlock := makeBootBlock (.replicate 64 0x61) id

/-- The host accepts a path of 64 units and reads it back, and the kernel starts another program. -/
theorem boot_manifest_cuts_path : ∃ sector, encodeBootBlock longBlock = .ok sector ∧
    decodeBootBlock sector = longBlock ∧ ∃ t left,
      readInitpath (bootedBuffers sector) (fun _ => 0) = some (t, left) ∧
        StringAt left (.replicate 63 0x61) := by
  obtain ⟨sector, encoded⟩ := encode_accepts longBlock (by decide)
  have plain : Plain longBlock.initPath := by simp [Plain, longBlock, makeBootBlock]
  exact ⟨sector, encoded, decode_encoded encoded (by decide) plain,
    read_initpath_takes (s := bootedBuffers sector) encoded (booted_coherent sector) _ rfl plain⟩

end JsEmulator.Disk
