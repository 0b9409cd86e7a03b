import JsEmulator.Files.Table

/-!
# Volumes

The part of the disk file system that names are made of: inodes with a type, a link count
and, for directories, an array of entries, for symbolic links a target. A directory is
read and written in entries of 16 bytes, none of which crosses a block, so that a write of
an entry happens as a whole or not at all. An entry that is already there lies in a block
of the directory and can always be written again.
-/

namespace JsEmulator.Disk

open JsEmulator.Files (NodeType)
open JsEmulator.Memory (Byte einval)

/-! ## Constants -/

def enoent : Int := 2
def enotdir : Int := 20
def eisdir : Int := 21
def efbig : Int := 27
def enospc : Int := 28
def erofs : Int := 30
def enametoolong : Int := 36
def enotempty : Int := 39

/-- The inode of the root directory. -/
def rootino : Nat := 1

/-- The longest name. -/
def dirsiz : Nat := 14

/-- The size of the buffers for paths. -/
def initpathLen : Nat := 64

/-- The number of entries of the longest directory. -/
def maxEntries : Nat := 0x408b * 512 / 16

/-! ## Names -/

/-- A character of a string: a byte other than the zero at its end. -/
abbrev Letter := { b : Byte // b ≠ 0 }

/-- The bytes of a string before its zero. -/
abbrev Text := List Letter

def slash : Letter := ⟨47, by decide⟩

def period : Letter := ⟨46, by decide⟩

/-- The name `.`. -/
def dot : Text := [period]

/-- The name `..`. -/
def dotdot : Text := [period, period]

/-! ## Inodes -/

/-- An entry of a directory. The number 0 marks a free entry. -/
structure Dirent where
  inum : Nat
  name : Text
deriving DecidableEq

/-- A free entry. -/
def freeDirent : Dirent := ⟨0, []⟩

/-- An inode. A free one has no type. -/
structure Inode where
  type : Option NodeType
  nlink : Nat
  entries : List Dirent
  target : Text
deriving DecidableEq

/-- An inode after `memset`. -/
def freeInode : Inode := ⟨none, 0, [], []⟩

/-- The inodes of a file system. `tries` counts the writes that may have needed a block. -/
structure Volume where
  ninodes : Nat
  inodes : Nat → Inode
  tries : Nat

/-- What the path operations learn elsewhere: whether the file system is mounted read-only,
whether there is a block for a write that may need one, which inodes are open, and on which
directories another file system is mounted. -/
structure Setting where
  readOnly : Bool
  fits : Nat → Bool
  isOpen : Nat → Bool
  mounted : Nat → Bool

/-- `inode_type`. -/
def Volume.inodeType (v : Volume) (inum : Nat) : Option NodeType := (v.inodes inum).type

/-- `inode_nlink`. -/
def Volume.inodeNlink (v : Volume) (inum : Nat) : Nat := (v.inodes inum).nlink

/-- One inode is replaced. -/
def Volume.set (v : Volume) (inum : Nat) (i : Inode) : Volume :=
  { v with inodes := Function.update v.inodes inum i }

/-- `inode_set16` on the link count, which has 16 bits. -/
def Volume.setNlink (v : Volume) (inum : Nat) (links : Int) : Volume :=
  v.set inum { v.inodes inum with nlink := (links % 65536).toNat }

/-- `ifree`. -/
def ifree (v : Volume) (inum : Nat) : Volume := v.set inum freeInode

/-! ## Directories -/

/-- The entries that are in use. -/
def Inode.live (i : Inode) : List Dirent := i.entries.filter fun e => e.inum ≠ 0

/-- `dirlookup`. Names have at most 14 letters, so that the comparison of `name_eq` is
equality of names. -/
def dirlookup (v : Volume) (dir : Nat) (name : Text) : Nat :=
  if v.inodeType dir ≠ some .dir then 0
  else
    match (v.inodes dir).entries.find? fun e => e.inum ≠ 0 && e.name = name with
    | some e => e.inum
    | none => 0

/-- `writei` of an entry that is already there. -/
def Volume.setEntry (v : Volume) (dir i : Nat) (e : Dirent) : Volume :=
  v.set dir { v.inodes dir with entries := (v.inodes dir).entries.set i e }

/-- `dirunlink`. -/
def dirunlink (v : Volume) (dir : Nat) (name : Text) : Int × Volume :=
  match (v.inodes dir).entries.findIdx? fun e => e.inum ≠ 0 && e.name = name with
  | some i => (16, v.setEntry dir i freeDirent)
  | none => (-enoent, v)

/-- `dir_is_empty`. -/
def dirIsEmpty (v : Volume) (dir : Nat) : Bool :=
  (v.inodes dir).entries.all fun e => e.inum = 0 || e.name = dot || e.name = dotdot

end JsEmulator.Disk
