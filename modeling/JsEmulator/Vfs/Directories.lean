import JsEmulator.Disk.Volume

/-!
# Directory listings

`getdents` of the disk, device, process and temporary file systems. Each keeps the position
of the listing in the offset of the open file: a byte offset on the disk, the number of a
device, the slot before the next one for temporary files, and for processes the number of
entries so far. All four run one loop, which goes through slots and copies a record for each
that is in use, as long as the buffer has room. Whether a record can be copied out is an
answer of user memory; `sys_getdents` has asked for the whole buffer.
-/

namespace JsEmulator.Vfs

open JsEmulator.Memory (Byte efault einval)
open JsEmulator.Files (NodeType)
open JsEmulator.Disk (Volume enotdir)

/-- `struct guest_dirent`. -/
structure Record where
  ino : Nat
  offset : Nat
  type : Option NodeType
  name : List Byte
deriving DecidableEq

/-- `sizeof(struct guest_dirent)`. -/
def direntSize : Nat := 32

/-- `CFG_NCHARDEV`. -/
def nchardev : Nat := 10

/-- `CFG_NTMPNODE`. -/
def ntmpnode : Nat := 16

/-- The record `emit_dirent` copies: a name has 16 bytes. -/
def emitDirent (ino offset : Nat) (type : Option NodeType) (name : List Byte) : Record :=
  ⟨ino, offset, type, name.take 16⟩

/-- What one run of the loop did. On a fault the slot it tried is behind it. -/
structure Batch where
  records : List Record
  offset : Nat
  faulted : Bool
deriving DecidableEq

/-- The loop: `left` slots are still to come, the next one at `offset`. -/
def emitLoop (copyout : Nat → Bool) (slot : Nat → Option Record) (advance count : Nat) :
    (left offset written : Nat) → Batch
  | 0, offset, _ => ⟨[], offset, false⟩
  | left + 1, offset, written =>
    if written + direntSize ≤ count then
      match slot offset with
      | none => emitLoop copyout slot advance count left (offset + advance) written
      | some record =>
        if copyout written then
          let batch := emitLoop copyout slot advance count left (offset + advance)
            (written + direntSize)
          { batch with records := record :: batch.records }
        else ⟨[], offset + advance, true⟩
    else ⟨[], offset, false⟩

/-- The result of a call, the offset it leaves and the records in the buffer. -/
structure Reply where
  value : Int
  offset : Nat
  records : List Record
deriving DecidableEq

/-- A batch as the result of a call, with the offsets that it leaves after a fault and
otherwise. -/
def Batch.reply (batch : Batch) (faulted finished : Nat) : Reply :=
  if batch.faulted then ⟨-efault, faulted, batch.records⟩
  else ⟨batch.records.length * direntSize, finished, batch.records⟩

/-- An entry of `chardev_table`. -/
structure Chardev where
  used : Bool
  name : List Byte

/-- `struct tmp_node`, without its data and owner. -/
structure TmpNode where
  used : Bool
  linked : Bool
  type : NodeType
  name : List Byte

/-- The bytes of a name. -/
def letters (name : String) : List Byte := name.toList.map fun c => BitVec.ofNat 8 c.toNat

/-- The digits that `append_number` writes, the last one first. -/
def digits : Nat → Nat → List Byte
  | 0, _ => []
  | places + 1, value =>
    if value = 0 then [] else BitVec.ofNat 8 (48 + value % 10) :: digits places (value / 10)

/-- `append_number` into an empty buffer. -/
def appendNumber (value : Nat) : List Byte :=
  if value = 0 then [48] else (digits 12 value).reverse

/-- The entry of a directory on the disk at a byte offset. -/
def diskSlot (v : Volume) (dir offset : Nat) : Option Record :=
  match (v.inodes dir).entries[offset / 16]? with
  | none => none
  | some e =>
    if e.inum = 0 then none
    else some (emitDirent e.inum (offset + 16) (v.inodeType e.inum) (e.name.map (·.val)))

/-- `disk_getdents_op`. -/
def diskGetdentsOp (v : Volume) (dir : Nat) (copyout : Nat → Bool) (offset count : Nat) : Reply :=
  if v.inodeType dir ≠ some .dir then ⟨-enotdir, offset, []⟩
  else if count < direntSize then ⟨-einval, offset, []⟩
  else
    let left := ((v.inodes dir).entries.length * 16 - offset) / 16
    let batch := emitLoop copyout (diskSlot v dir) 16 count left offset 0
    batch.reply batch.offset batch.offset

/-- A used entry of the device table; number 0 is the directory itself. -/
def devSlot (chardevs : Nat → Chardev) (major : Nat) : Option Record :=
  if 1 ≤ major ∧ (chardevs major).used then
    some (emitDirent major (major + 1) (some .file) (chardevs major).name)
  else none

/-- `dev_getdents_op`. -/
def devGetdentsOp (chardevs : Nat → Chardev) (copyout : Nat → Bool) (offset count : Nat) : Reply :=
  if count < direntSize then ⟨-einval, offset, []⟩
  else
    let batch := emitLoop copyout (devSlot chardevs) 1 count (nchardev - offset) offset 0
    batch.reply batch.offset batch.offset

/-- A temporary file that has a name. -/
def tmpSlot (nodes : Nat → TmpNode) (i : Nat) : Option Record :=
  if (nodes i).used ∧ (nodes i).linked then
    some (emitDirent i i (some (nodes i).type) (nodes i).name)
  else none

/-- `tmp_getdents_op`. The offset is stored only when the loop is done. -/
def tmpGetdentsOp (nodes : Nat → TmpNode) (copyout : Nat → Bool) (offset count : Nat) : Reply :=
  if count < direntSize then ⟨-einval, offset, []⟩
  else
    let batch := emitLoop copyout (tmpSlot nodes) 1 count (ntmpnode - (offset + 1)) (offset + 1) 0
    batch.reply offset (batch.offset - 1)

/-- The two files of a process. -/
def processFileSlot (object offset : Nat) : Option Record :=
  if offset = 0 then some (emitDirent (object + 100) 1 (some .file) (letters "status"))
  else some (emitDirent (object + 200) 2 (some .file) (letters "maps"))

/-- The directory of a process that has a slot of `proc_table`. -/
def processSlot (used : Nat → Bool) (pid : Nat) : Option Record :=
  if used pid then some (emitDirent (100 + pid) (pid + 2) (some .dir) (appendNumber pid)) else none

/-- The entry `self`. -/
def selfRecord : Record := emitDirent 1 1 (some .symlink) (letters "self")

/-- `proc_getdents_op`. The objects from 100 on are the directories of processes. -/
def procGetdentsOp (type : NodeType) (used : Nat → Bool) (nproc object : Nat)
    (copyout : Nat → Bool) (offset count : Nat) : Reply :=
  if type ≠ .dir then ⟨-enotdir, offset, []⟩
  else if count < direntSize then ⟨-einval, offset, []⟩
  else if 100 ≤ object then
    let batch := emitLoop copyout (processFileSlot object) 1 count (2 - offset) offset 0
    batch.reply (batch.offset - 1) batch.offset
  else if offset = 0 then
    if copyout 0 then
      let batch := emitLoop copyout (processSlot used) 1 count nproc 0 direntSize
      { batch with records := selfRecord :: batch.records }.reply offset (batch.offset + 1)
    else ⟨-efault, offset, []⟩
  else
    let batch := emitLoop copyout (processSlot used) 1 count (nproc - (offset - 1)) (offset - 1) 0
    batch.reply offset (batch.offset + 1)

/-- A directory with the tables its entries are in. -/
inductive Directory where
  | disk (v : Volume) (dir : Nat) (isDir : v.inodeType dir = some .dir)
  | dev (chardevs : Nat → Chardev)
  | tmp (nodes : Nat → TmpNode)
  | proc (used : Nat → Bool) (nproc object : Nat)

/-- `vnode_getdents`. -/
def Directory.getdents (d : Directory) (copyout : Nat → Bool) (offset count : Nat) : Reply :=
  match d with
  | .disk v dir _ => diskGetdentsOp v dir copyout offset count
  | .dev chardevs => devGetdentsOp chardevs copyout offset count
  | .tmp nodes => tmpGetdentsOp nodes copyout offset count
  | .proc used nproc object => procGetdentsOp .dir used nproc object copyout offset count

/-! ## What is still to be listed -/

/-- The live entries among the next slots, in the order of the table. -/
def liveFrom (slot : Nat → Option Record) (advance : Nat) : (left offset : Nat) → List Record
  | 0, _ => []
  | left + 1, offset => (slot offset).toList ++ liveFrom slot advance left (offset + advance)

/-- The entries a listing has not reached yet. -/
def Directory.rest : Directory → Nat → List Record
  | .disk v dir _, offset =>
      liveFrom (diskSlot v dir) 16 (((v.inodes dir).entries.length * 16 - offset) / 16) offset
  | .dev chardevs, offset => liveFrom (devSlot chardevs) 1 (nchardev - offset) offset
  | .tmp nodes, offset => liveFrom (tmpSlot nodes) 1 (ntmpnode - (offset + 1)) (offset + 1)
  | .proc used nproc object, offset =>
      if 100 ≤ object then liveFrom (processFileSlot object) 1 (2 - offset) offset
      else if offset = 0 then selfRecord :: liveFrom (processSlot used) 1 nproc 0
      else liveFrom (processSlot used) 1 (nproc - (offset - 1)) (offset - 1)

/-- The live entries of a directory. -/
def Directory.live (d : Directory) : List Record := d.rest 0

/-- A run of the loop into a buffer it can write lists a first part of what is left, and
stops early only when the buffer is full. -/
theorem emit_loop_lists (slot : Nat → Option Record) (advance count left offset written : Nat) :
    let batch := emitLoop (fun _ => true) slot advance count left offset written
    ∃ done ≤ left, batch.offset = offset + advance * done ∧ batch.faulted = false ∧
      liveFrom slot advance left offset =
        batch.records ++ liveFrom slot advance (left - done) batch.offset ∧
      (written + direntSize ≤ count → batch.records = [] → liveFrom slot advance left offset = []) := by
  induction left generalizing offset written with
  | zero => exact ⟨0, le_rfl, rfl, rfl, rfl, fun _ _ => rfl⟩
  | succ left ih =>
    simp only [emitLoop]
    split
    case isFalse full => exact ⟨0, by omega, rfl, rfl, rfl, fun room => absurd room full⟩
    rename_i room
    split
    case h_1 free =>
      obtain ⟨done, bound, reached, fine, listed, empty⟩ := ih (offset + advance) written
      refine ⟨done + 1, by omega, ?_, fine, ?_, ?_⟩
      · rw [reached, Nat.mul_succ]
        omega
      · rw [liveFrom, free, Option.toList_none, List.nil_append, listed, Nat.add_sub_add_right]
      · intro _ nothing
        rw [liveFrom, free, Option.toList_none, List.nil_append, empty room nothing]
    rename_i record live
    obtain ⟨done, bound, reached, fine, listed, -⟩ :=
      ih (offset + advance) (written + direntSize)
    refine ⟨done + 1, by omega, ?_, fine, ?_, by simp⟩
    · simp only [if_true]
      rw [reached, Nat.mul_succ]
      omega
    · rw [liveFrom, live, listed, Nat.add_sub_add_right]
      rfl

/-- What a reply says about the entries that were left, `left`, and the ones that still are. -/
structure Reply.Lists (reply : Reply) (left : List Record) (rest : Nat → List Record) : Prop where
  value : reply.value = reply.records.length * direntSize
  split : left = reply.records ++ rest reply.offset
  ends : reply.records = [] → left = []

/-- The reply of one run of the loop, when `rest` continues at the offset that it leaves. -/
theorem batch_lists {slot : Nat → Option Record} {advance count left offset finished : Nat}
    (rest : Nat → List Record) (faulted : Nat) (room : direntSize ≤ count)
    (continues : ∀ done ≤ left,
      (emitLoop (fun _ => true) slot advance count left offset 0).offset = offset + advance * done →
      rest finished = liveFrom slot advance (left - done) (offset + advance * done)) :
    ((emitLoop (fun _ => true) slot advance count left offset 0).reply faulted finished).Lists
      (liveFrom slot advance left offset) rest := by
  obtain ⟨done, bound, reached, fine, listed, empty⟩ := emit_loop_lists slot advance count left offset 0
  rw [Batch.reply, if_neg (by simp [fine])]
  refine ⟨rfl, ?_, empty (by omega)⟩
  rw [listed, reached, continues done bound reached]

/-- One call with room for a record: it returns the next entries that are left, none of them
only when none is left. -/
theorem getdents_lists (d : Directory) (offset : Nat) {count : Nat} (room : direntSize ≤ count) :
    (d.getdents (fun _ => true) offset count).Lists (d.rest offset) d.rest := by
  have enough : ¬ count < direntSize := by omega
  cases d with
  | disk v dir isDir =>
    rw [Directory.getdents, diskGetdentsOp, if_neg (by simp [isDir]), if_neg enough]
    refine batch_lists _ _ room fun done bound reached => ?_
    rw [Directory.rest, reached]
    congr 1
    omega
  | dev chardevs =>
    rw [Directory.getdents, devGetdentsOp, if_neg enough]
    refine batch_lists _ _ room fun done bound reached => ?_
    rw [Directory.rest, reached]
    congr 1
    omega
  | tmp nodes =>
    rw [Directory.getdents, tmpGetdentsOp, if_neg enough]
    refine batch_lists _ _ room fun done bound reached => ?_
    rw [Directory.rest, reached]
    congr 1 <;> omega
  | proc used nproc object =>
    rw [Directory.getdents, procGetdentsOp, if_neg (by simp), if_neg enough, Directory.rest]
    split
    case isTrue files =>
      refine batch_lists _ _ room fun done bound reached => ?_
      rw [Directory.rest, if_pos files, reached]
      congr 1
      omega
    rename_i root
    split
    case isTrue start =>
      -- `self` comes first and takes the place of one record.
      obtain ⟨done, bound, reached, fine, listed, -⟩ := emit_loop_lists (processSlot used)
        1 count nproc 0 direntSize
      rw [if_pos rfl, Batch.reply, if_neg (by simp [fine])]
      refine ⟨rfl, ?_, by simp⟩
      simp only [Directory.rest, if_neg root, List.cons_append]
      rw [listed, reached, if_neg (by omega)]
      congr 3
      omega
    case isFalse later =>
      refine batch_lists _ _ room fun done bound reached => ?_
      rw [Directory.rest, if_neg root, if_neg (by omega), reached]
      congr 1
      omega

/-- Calls one after another from an offset on: the records of all of them, and the offset
they leave. -/
def Directory.session (d : Directory) : List Nat → Nat → List Record × Nat
  | [], offset => ([], offset)
  | count :: counts, offset =>
    let reply := d.getdents (fun _ => true) offset count
    let later := d.session counts reply.offset
    (reply.records ++ later.1, later.2)

/-- Calls with room for a record list a first part of what is left. -/
theorem session_lists (d : Directory) (counts : List Nat) (offset : Nat)
    (room : ∀ count ∈ counts, direntSize ≤ count) :
    d.rest offset = (d.session counts offset).1 ++ d.rest (d.session counts offset).2 := by
  induction counts generalizing offset with
  | nil => rfl
  | cons count counts ih =>
    have first := getdents_lists d offset (room count List.mem_cons_self)
    have later := ih (d.getdents (fun _ => true) offset count).offset
      (fun c listed => room c (List.mem_cons_of_mem _ listed))
    rw [first.split, later, Directory.session, List.append_assoc]

/-- Listings are complete and free of duplicates: after any calls with room for a record from
offset 0 on, the records so far are a first part of the live entries, and a further call
returns 0 exactly when they are all of them. Otherwise it returns the size of the records it
adds. -/
theorem directory_listing_complete (d : Directory) (counts : List Nat) (count : Nat)
    (room : ∀ c ∈ count :: counts, direntSize ≤ c) :
    let before := d.session counts 0
    let reply := d.getdents (fun _ => true) before.2 count
    before.1 ++ reply.records <+: d.live ∧ reply.value = reply.records.length * direntSize ∧
      (reply.value = 0 ↔ before.1 = d.live) := by
  intro before reply
  have listed := session_lists d counts 0 (fun c member => room c (List.mem_cons_of_mem _ member))
  have next := getdents_lists d before.2 (room count List.mem_cons_self)
  have whole : d.live = before.1 ++ d.rest before.2 := listed
  refine ⟨?_, next.value, ?_⟩
  · rw [whole, next.split, ← List.append_assoc]
    exact List.prefix_append _ _
  · rw [whole, List.self_eq_append_right]
    constructor
    · intro zero
      have size := next.value.symm.trans zero
      exact next.ends (by simpa [direntSize] using size)
    · intro none
      have empty := next.split
      rw [none] at empty
      rw [next.value, (List.append_eq_nil_iff.mp empty.symm).1]
      rfl

/-- Two devices with a hole between them, listed one at a time and then with room to spare. -/
theorem directory_listing_complete_dev :
    let d := Directory.dev (fun major => ⟨major = 1 ∨ major = 3, letters "tty"⟩)
    (d.session [32, 63] 0).1.map Record.ino = [1, 3] ∧
      (d.getdents (fun _ => true) (d.session [32, 63] 0).2 1000).value = 0 := by
  intro d
  have complete := directory_listing_complete d [32, 63] 1000 (by decide)
  exact ⟨by decide +kernel, complete.2.2.mpr (by decide +kernel)⟩

end JsEmulator.Vfs
