import JsEmulator.Disk.Volume
import Mathlib.Data.List.DropRight

/-!
# The path operations

Path lookup and the operation that unlinks what a path names. A
lookup that leads to another mount or to an absolute symbolic link ends on the disk file
system with no inode; the caller goes on elsewhere.
-/

namespace JsEmulator.Disk

open JsEmulator.Memory (einval)

/-! ## Lookup -/

/-- The first component of a path and what comes after it and its slashes. -/
def splitComponent (path : Text) : Text × Text :=
  (path.takeWhile (· ≠ slash), (path.dropWhile (· ≠ slash)).dropWhile (· = slash))

/-- The path that a symbolic link leads to: its target and the rest of the path, in a buffer
of 64 bytes. -/
def combinedPath (target rest : Text) : Text :=
  if rest = [] then target else (target ++ slash :: rest).take (initpathLen - 1)

/-- The loop of `namei_from_checked` without access checks, from a component on. Every turn
takes at least one letter of the path, so that its length bounds the number of turns.
`again` is the lookup of the path that a symbolic link leads to. -/
def walk (w : Setting) (v : Volume) (follow : Bool) (again : Nat → Text → Nat) :
    Nat → Nat → Text → Nat
  | 0, inum, _ => inum
  | turns + 1, inum, path =>
    if path = [] then inum
    else
      let (name, rest) := splitComponent path
      if dirsiz < name.length then 0
      else if v.inodeType inum ≠ some .dir then 0
      else
        let next := dirlookup v inum name
        if next = 0 then 0
        else if v.inodeType next = some .symlink ∧ (rest ≠ [] ∨ follow) then
          let target := (v.inodes next).target
          if initpathLen ≤ target.length then 0
          else if target.head? = some slash then 0
          else again inum (combinedPath target rest)
        else if w.mounted next then 0
        else walk w v follow again turns next rest

/-- `namei_from_checked`, with the number of lookups that are still allowed. -/
def nameiFrom (w : Setting) (v : Volume) (follow : Bool) : Nat → Nat → Text → Nat
  | 0, _, _ => 0
  | depth + 1, start, path =>
    let start := if path.head? = some slash then rootino else start
    let path := path.dropWhile (· = slash)
    walk w v follow (nameiFrom w v follow depth) path.length start path

/-- `namei`. -/
def namei (w : Setting) (v : Volume) (path : Text) : Nat := nameiFrom w v true 9 rootino path

/-- `nameiparent`: the directory part of a path, looked up, and its last name. -/
def nameiparent (w : Setting) (v : Volume) (path : Text) : Option (Nat × Text) :=
  let path := (path.take (initpathLen - 1)).rdropWhile (· = slash)
  let name := path.rtakeWhile (· ≠ slash)
  let before := path.rdropWhile (· ≠ slash)
  if name.length = 0 ∨ dirsiz < name.length then none
  else if before.length ≤ 1 then some (rootino, name)
  else
    let parent := namei w v before.dropLast
    if parent = 0 then none else some (parent, name)

/-! ## Unlinking -/

/-- `unlink_path`. -/
def unlinkPath (w : Setting) (v : Volume) (path : Text) (removeDir : Bool) : Int × Volume :=
  if w.readOnly then (-erofs, v)
  else
    match nameiparent w v path with
    | none => (-enoent, v)
    | some (parent, name) =>
      if name = dot ∨ name = dotdot then (-einval, v)
      else
        let inum := dirlookup v parent name
        if inum = 0 then (-enoent, v)
        else
          let isDir := v.inodeType inum = some .dir
          if removeDir ∧ ¬ isDir then (-enotdir, v)
          else if removeDir ∧ dirIsEmpty v inum = false then (-enotempty, v)
          else if removeDir = false ∧ isDir then (-eisdir, v)
          else
            let v := (dirunlink v parent name).2
            let v := if isDir then v.setNlink parent (v.inodeNlink parent - 1) else v
            let links : Int := if isDir then 0 else v.inodeNlink inum - 1
            let v := v.setNlink inum links
            (0, if links = 0 ∧ w.isOpen inum = false then ifree v inum else v)

end JsEmulator.Disk
