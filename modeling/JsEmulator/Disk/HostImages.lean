import JsEmulator.Disk.Paths

/-!
# Images made on the host

The host builds file system images with an implementation of its own. Its `create` gives a
new directory one link and its parent no further one, while the guest kernel keeps two
links and one for every subdirectory. Here are the host's operations on names, the volume
that the guest finds in an image, and what holds of images in which the host has made no
directory.

Calls on the host may throw at any point and leave what they have done until then. File
contents are left out: a write of them may fail, but changes no name.
-/

namespace JsEmulator.Disk

open JsEmulator.Files (NodeType)

variable {image : Image} {v : Volume} {fits : Nat → Bool} {i ninodes : Nat} {path : HostText}

/-! ## The host's operations -/

/-- The code units of a string. -/
abbrev HostText := List Nat

/-- An entry of a directory, with the bytes of its name. -/
structure HostEntry where
  inum : Nat
  name : List Nat
deriving DecidableEq

/-- An inode as the host sees it. -/
structure HostInode where
  type : Option NodeType
  nlink : Nat
  entries : List HostEntry

/-- A file system image. `tries` counts the writes that may have needed a block. -/
structure Image where
  ninodes : Nat
  inodes : Nat → HostInode
  tries : Nat

/-- One inode is replaced. -/
def Image.set (image : Image) (inum : Nat) (i : HostInode) : Image :=
  { image with inodes := Function.update image.inodes inum i }

/-- `encodeName`, without the zeros at the end. -/
def encodeName (name : HostText) : List Nat := name.map (· % 256)

/-- `decodeName`. -/
def decodeName (bytes : List Nat) : HostText := bytes.takeWhile (· ≠ 0)

/-- The test of `inodeLoc`. -/
def Image.inTable (image : Image) (inum : Nat) : Bool := inum ≠ 0 && decide (inum < image.ninodes)

/-- `Fs.dirLookup`. There is no answer where it throws. -/
def Image.dirLookup (image : Image) (dir : Nat) (name : HostText) : Option Nat :=
  if image.inTable dir = false then none
  else if (image.inodes dir).type ≠ some .dir then none
  else
    match (image.inodes dir).entries.find? fun e => e.inum ≠ 0 && decodeName e.name = name with
    | some e => some e.inum
    | none => some 0

/-- `Fs.dirLink`: whether it returns, and the image. -/
def Image.dirLink (fits : Nat → Bool) (image : Image) (dir : Nat) (name : HostText) (inum : Nat) :
    Bool × Image :=
  if dirsiz < name.length then (false, image)
  else if image.inTable dir = false then (false, image)
  else
    let i := image.inodes dir
    let entry : HostEntry := ⟨inum % 65536, encodeName name⟩
    match i.entries.findIdx? fun e => e.inum = 0 with
    | some slot => (true, image.set dir { i with entries := i.entries.set slot entry })
    | none =>
      if maxEntries ≤ i.entries.length then (false, image)
      else
        let image := { image with tries := image.tries + 1 }
        if fits (image.tries - 1) then
          (true, image.set dir { i with entries := i.entries ++ [entry] })
        else (false, image)

/-- `Fs.ialloc`. -/
def Image.ialloc (image : Image) (type : NodeType) : Option (Nat × Image) :=
  ((List.range image.ninodes).find? fun inum => inum ≠ 0 && (image.inodes inum).type.isNone).map
    fun inum => (inum, image.set inum ⟨some type, 0, []⟩)

/-- `Fs.split`. -/
def hostSplit (path : HostText) : List HostText := (path.splitOn 47).filter (· ≠ [])

/-- The loop of `Fs.namei`. -/
def Image.nameiLoop (image : Image) : Nat → List HostText → Option Nat
  | inum, [] => some inum
  | inum, part :: rest =>
    match image.dirLookup inum part with
    | none => none
    | some 0 => some 0
    | some (child + 1) => image.nameiLoop (child + 1) rest

/-- `Fs.namei`. -/
def Image.namei (image : Image) (path : HostText) : Option Nat :=
  image.nameiLoop rootino (hostSplit path)

/-- `Fs.nameiParent`. -/
def Image.nameiParent (image : Image) (path : HostText) : Option (Nat × HostText) :=
  let parts := hostSplit path
  if parts = [] then some (0, [])
  else (image.nameiLoop rootino parts.dropLast).map fun parent => (parent, parts.getLastD [])

/-- The entries of a new directory. -/
def Image.initDir (fits : Nat → Bool) (image : Image) (type : NodeType) (inum parent : Nat) :
    Bool × Image :=
  if type = .dir then
    let first := image.dirLink fits inum [46] inum
    if first.1 = false then first else first.2.dirLink fits inum [46, 46] parent
  else (true, image)

/-- `Fs.create`. -/
def Image.create (fits : Nat → Bool) (image : Image) (path : HostText) (type : NodeType) :
    Option Nat × Image :=
  match image.nameiParent path with
  | none => (none, image)
  | some (parent, name) =>
    if parent = 0 then (none, image)
    else
      match image.dirLookup parent name with
      | none => (none, image)
      | some (existing + 1) =>
        if image.inTable (existing + 1) = false then (none, image)
        else if type = .file ∧ (image.inodes (existing + 1)).type = some .file then
          (some (existing + 1), image)
        else (none, image)
      | some 0 =>
        match image.ialloc type with
        | none => (none, image)
        | some (inum, image) =>
          let image := image.set inum { image.inodes inum with nlink := 1 }
          let made := image.initDir fits type inum parent
          if made.1 = false then (none, made.2)
          else
            let linked := made.2.dirLink fits parent name inum
            (if linked.1 then some inum else none, linked.2)

/-- The loop of `Fs.mkdirp`. -/
def Image.mkdirpLoop (fits : Nat → Bool) : Image → Nat → HostText → List HostText → Bool × Image
  | image, _, _, [] => (true, image)
  | image, inum, cur, part :: rest =>
    let cur := cur ++ 47 :: part
    match image.dirLookup inum part with
    | none => (false, image)
    | some 0 =>
      match image.create fits cur .dir with
      | (none, image) => (false, image)
      | (some child, image) => Image.mkdirpLoop fits image child cur rest
    | some (child + 1) => Image.mkdirpLoop fits image (child + 1) cur rest

/-- `Fs.mkdirp`. -/
def Image.mkdirp (fits : Nat → Bool) (image : Image) (path : HostText) : Bool × Image :=
  Image.mkdirpLoop fits image rootino [] (hostSplit path)

/-- The part of a path before its last slash, if that is not its first letter. -/
def directoryPart (path : HostText) : Option HostText :=
  let before := path.rdropWhile (· ≠ 47)
  if 1 < before.length then some before.dropLast else none

/-- `Fs.writeFile`, without the contents. -/
def Image.writeFile (fits : Nat → Bool) (image : Image) (path : HostText) : Option Nat × Image :=
  let made :=
    match directoryPart path with
    | some dir => image.mkdirp fits dir
    | none => (true, image)
  if made.1 = false then (none, made.2)
  else
    let created := made.2.create fits path .file
    let image := { created.2 with tries := created.2.tries + 1 }
    (if fits created.2.tries then created.1 else none, image)

/-- An image before anything is allocated. -/
def blankImage (ninodes : Nat) : Image := ⟨ninodes, fun _ => ⟨none, 0, []⟩, 0⟩

/-- `Fs.mkfs`. -/
def hostMkfs (fits : Nat → Bool) (ninodes : Nat) : Option Image :=
  match (blankImage ninodes).ialloc .dir with
  | none => none
  | some (root, image) =>
    if root ≠ rootino then none
    else
      let image := image.set root { image.inodes root with nlink := 2 }
      let made := image.initDir fits .dir root root
      if made.1 then some made.2 else none

/-- A call on the host. -/
inductive HostCall where
  | create (path : HostText) (type : NodeType)
  | mkdir (path : HostText)
  | mkdirp (path : HostText)
  | writeFile (path : HostText)

/-- A call on the host, carried out. -/
def Image.perform (fits : Nat → Bool) (image : Image) : HostCall → Image
  | .create path type => (image.create fits path type).2
  | .mkdir path => (image.create fits path .dir).2
  | .mkdirp path => (image.mkdirp fits path).2
  | .writeFile path => (image.writeFile fits path).2

/-! ## The image in the guest -/

/-- A byte as a letter. -/
def letterOf (b : Nat) : Letter :=
  if nonzero : BitVec.ofNat 8 b ≠ 0 then ⟨BitVec.ofNat 8 b, nonzero⟩ else slash

/-- The name that the guest finds in an entry. A name with a zero inside is equal to no name
that the guest looks for, as is one that is too long. -/
def guestName (bytes : List Nat) : Text :=
  let name := bytes.rdropWhile (· = 0)
  if 0 ∈ name then List.replicate (dirsiz + 1) slash else name.map letterOf

/-- The inode that the guest finds. -/
def HostInode.guest (i : HostInode) : Inode :=
  ⟨i.type, i.nlink, i.entries.map fun e => ⟨e.inum, guestName e.name⟩, []⟩

/-- The volume that the guest finds. -/
def Image.volume (image : Image) : Volume := ⟨image.ninodes, fun i => (image.inodes i).guest, 0⟩

/-- The number of subdirectories of a directory. -/
def subdirectories (v : Volume) (d : Nat) : Nat :=
  ((v.inodes d).live.filter fun e =>
    e.name ≠ dot && e.name ≠ dotdot && v.inodeType e.inum = some .dir).length

/-- A directory that the root or a name in another directory leads to. -/
def StillLinked (v : Volume) (d : Nat) : Prop :=
  d = rootino ∨ ∃ p, v.inodeType p = some .dir ∧ ∃ e ∈ (v.inodes p).live,
    e.inum = d ∧ e.name ≠ dot ∧ e.name ≠ dotdot

/-- Volumes after sequences of `rmdir` calls in the guest. -/
inductive Rmdirs (v : Volume) : Volume → Prop where
  | start : Rmdirs v v
  | rmdir (v' : Volume) (w : Setting) (path : Text) (before : Rmdirs v v') :
      Rmdirs v (unlinkPath w v' path true).2

/-- The link counts of directories are those that the guest keeps, and stay above zero for
directories that are still linked. -/
structure LinkCountsAgree (v : Volume) : Prop where
  counts : ∀ d, v.inodeType d = some .dir → v.inodeNlink d = 2 + subdirectories v d
  positive : ∀ v', Rmdirs v v' → ∀ d, v'.inodeType d = some .dir → StillLinked v' d →
    v'.inodeNlink d ≠ 0

/-! ## Images without directories -/

/-- The root is the only directory of an image, and only its own two entries name it. -/
structure Flat (image : Image) : Prop where
  small : image.ninodes ≤ 65536
  root : (image.inodes rootino).type = some .dir
  only : ∀ d, (image.inodes d).type = some .dir → d = rootino
  links : (image.inodes rootino).nlink = 2
  reserved : ∀ e ∈ (image.inodes rootino).entries, e.inum = rootino →
    e.name = [46] ∨ e.name = [46, 46]

theorem Flat.retry (flat : Flat image) (n : Nat) : Flat { image with tries := n } :=
  ⟨flat.small, flat.root, flat.only, flat.links, flat.reserved⟩

/-- The root gets further entries. -/
theorem Flat.enter (flat : Flat image) (entries : List HostEntry) (n : Nat)
    (reserved : ∀ e ∈ entries, e.inum = rootino → e.name = [46] ∨ e.name = [46, 46]) :
    Flat { image.set rootino { image.inodes rootino with entries := entries } with tries := n } := by
  refine ⟨flat.small, ?_, fun d isDir => ?_, ?_, ?_⟩
  · simpa [Image.set] using flat.root
  · by_contra other
    rw [Image.set] at isDir
    dsimp only at isDir
    rw [Function.update_of_ne other] at isDir
    exact other (flat.only d isDir)
  · simpa [Image.set] using flat.links
  · simpa [Image.set] using reserved

/-- A name is entered in the root, which is reserved if it is the name of the root. -/
theorem dir_link_flat (fits : Nat → Bool) (flat : Flat image) (name : HostText) (inum : Nat)
    (other : inum % 65536 = rootino → encodeName name = [46] ∨ encodeName name = [46, 46]) :
    Flat (image.dirLink fits rootino name inum).2 := by
  unfold Image.dirLink
  split
  · exact flat
  split
  · exact flat
  dsimp only
  split
  · refine flat.enter _ image.tries fun e member isRoot => ?_
    rcases List.mem_or_eq_of_mem_set member with before | rfl
    · exact flat.reserved e before isRoot
    · exact other isRoot
  · split
    · exact flat
    split
    · refine flat.enter _ (image.tries + 1) fun e member isRoot => ?_
      rcases List.mem_append.mp member with before | new
      · exact flat.reserved e before isRoot
      · rw [List.mem_singleton.mp new] at isRoot ⊢
        exact other isRoot
    · exact flat.retry _

/-- A file or symbolic link is allocated. -/
theorem Flat.allocate (flat : Flat image) (inum : Nat) (i : HostInode) (other : inum ≠ rootino)
    (notDir : i.type ≠ some .dir) : Flat (image.set inum i) := by
  have same : (image.set inum i).inodes rootino = image.inodes rootino :=
    Function.update_of_ne other.symm _ _
  refine ⟨flat.small, by rw [same]; exact flat.root, fun d isDir => ?_, by rw [same]; exact flat.links,
    by rw [same]; exact flat.reserved⟩
  by_cases here : d = inum
  · subst here
    rw [Image.set] at isDir
    dsimp only at isDir
    rw [Function.update_self] at isDir
    exact absurd isDir notDir
  · rw [Image.set] at isDir
    dsimp only at isDir
    rw [Function.update_of_ne here] at isDir
    exact flat.only d isDir

/-- Only the root can be looked in. -/
theorem Flat.lookup (flat : Flat image) (dir : Nat) (name : HostText) (i : Nat)
    (found : image.dirLookup dir name = some i) : dir = rootino := by
  unfold Image.dirLookup at found
  split at found
  · cases found
  split at found
  · cases found
  · rename_i isDir
    exact flat.only dir (not_not.mp isDir)

/-- Files and symbolic links keep an image flat. -/
theorem create_flat (fits : Nat → Bool) (flat : Flat image) (path : HostText) (type : NodeType)
    (notDir : type ≠ .dir) : Flat (image.create fits path type).2 := by
  unfold Image.create
  split
  · exact flat
  rename_i parent name found
  split
  · exact flat
  split
  · exact flat
  · split
    · exact flat
    split
    · exact flat
    · exact flat
  · rename_i absent
    obtain rfl := flat.lookup parent name 0 absent
    split
    · exact flat
    rename_i inum image' allocated
    unfold Image.ialloc at allocated
    obtain ⟨i, first, same⟩ := Option.map_eq_some_iff.mp allocated
    obtain ⟨rfl, rfl⟩ := Prod.mk.inj same
    have test := List.find?_some first
    have inside := List.mem_range.mp (List.mem_of_find?_eq_some first)
    simp only [ne_eq, decide_not, Bool.and_eq_true, Bool.not_eq_true', decide_eq_false_iff_not,
      Option.isNone_iff_eq_none] at test
    have other : i ≠ rootino := by
      rintro rfl
      rw [flat.root] at test
      cases test.2
    have small := flat.small
    have flat' := (flat.allocate i ⟨some type, 0, []⟩ other (by simpa using notDir)).allocate i
      { (image.set i ⟨some type, 0, []⟩).inodes i with nlink := 1 } other (by
        simpa [Image.set] using notDir)
    unfold Image.initDir
    dsimp only
    rw [if_neg notDir, if_neg (by simp)]
    refine dir_link_flat fits flat' name i fun isRoot => ?_
    rw [Nat.mod_eq_of_lt (by omega)] at isRoot
    exact absurd isRoot other

/-! ## Directories that are already there -/

/-- A path resolves. -/
def Image.Resolves (image : Image) (path : HostText) : Prop := ∃ i, image.namei path = some (i + 1)

theorem namei_loop_append (inum : Nat) (parts : List HostText) {more : List HostText}
    (found : image.nameiLoop inum (parts ++ more) = some (i + 1)) :
    ∃ j, image.nameiLoop inum parts = some j ∧ (j = 0 → inum = 0 ∧ parts = []) ∧
      image.nameiLoop j more = some (i + 1) := by
  induction parts generalizing inum with
  | nil => exact ⟨inum, rfl, fun zero => ⟨zero, rfl⟩, found⟩
  | cons part rest ih =>
    rw [List.cons_append, Image.nameiLoop] at found
    rw [Image.nameiLoop]
    cases lookup : image.dirLookup inum part with
    | none =>
      rw [lookup] at found
      cases found
    | some child =>
      rw [lookup] at found
      cases child with
      | zero => cases found
      | succ child =>
        obtain ⟨j, first, nonzero, second⟩ := ih (child + 1) found
        exact ⟨j, first, fun zero => absurd (nonzero zero).1 (by omega), second⟩

/-- A directory is not made where the path resolves. -/
theorem create_resolved (fits : Nat → Bool) (resolves : image.Resolves path) :
    (image.create fits path .dir).2 = image := by
  obtain ⟨i, found⟩ := resolves
  unfold Image.create Image.nameiParent
  unfold Image.namei at found
  dsimp only
  by_cases empty : hostSplit path = []
  · rw [if_pos empty]
    rfl
  rw [if_neg empty]
  have split : (hostSplit path).dropLast ++ [(hostSplit path).getLastD []] = hostSplit path := by
    rw [List.getLastD_eq_getLast?, List.getLast?_eq_some_getLast empty, Option.getD_some,
      List.dropLast_append_getLast empty]
  rw [← split] at found
  obtain ⟨parent, first, nonzero, second⟩ := namei_loop_append rootino _ found
  rw [first, Option.map_some]
  dsimp only
  rw [if_neg fun zero => absurd (nonzero zero).1 (by decide)]
  rw [Image.nameiLoop] at second
  split
  · rfl
  · split
    · rfl
    · rw [if_neg fun both => absurd both.1 (by decide)]
  · rename_i absent
    rw [absent] at second
    cases second

/-- Nor by `mkdirp`. -/
theorem mkdirp_loop_resolved (fits : Nat → Bool) (inum : Nat) (cur : HostText)
    (parts : List HostText) (found : image.nameiLoop inum parts = some (i + 1)) :
    (Image.mkdirpLoop fits image inum cur parts).2 = image := by
  induction parts generalizing inum cur with
  | nil => rfl
  | cons part rest ih =>
    rw [Image.nameiLoop] at found
    rw [Image.mkdirpLoop]
    split
    · rfl
    · rename_i absent
      rw [absent] at found
      cases found
    · rename_i child present
      rw [present] at found
      exact ih (child + 1) _ found

theorem mkdirp_resolved (fits : Nat → Bool) (resolves : image.Resolves path) :
    (image.mkdirp fits path).2 = image := by
  obtain ⟨i, found⟩ := resolves
  exact mkdirp_loop_resolved fits rootino [] _ found

/-! ## Runs -/

/-- The path of the directory that a call makes where there is none. -/
def HostCall.directory : HostCall → Option HostText
  | .create path type => if type = .dir then some path else none
  | .mkdir path => some path
  | .mkdirp path => some path
  | .writeFile path => directoryPart path

/-- Images after `mkfs` and a sequence of calls, none of which has to make a directory. -/
inductive Built (fits : Nat → Bool) (ninodes : Nat) : Image → Prop where
  | mkfs (image : Image) (made : hostMkfs fits ninodes = some image) : Built fits ninodes image
  | call (image : Image) (c : HostCall) (before : Built fits ninodes image)
      (there : ∀ path, c.directory = some path → image.Resolves path) :
      Built fits ninodes (image.perform fits c)

theorem perform_flat (fits : Nat → Bool) (flat : Flat image) {c : HostCall}
    (there : ∀ path, c.directory = some path → image.Resolves path) :
    Flat (image.perform fits c) := by
  cases c with
  | create path type =>
    by_cases isDir : type = .dir
    · subst isDir
      rw [Image.perform, create_resolved fits (there path rfl)]
      exact flat
    · exact create_flat fits flat path type isDir
  | mkdir path =>
    rw [Image.perform, create_resolved fits (there path rfl)]
    exact flat
  | mkdirp path =>
    rw [Image.perform, mkdirp_resolved fits (there path rfl)]
    exact flat
  | writeFile path =>
    unfold Image.perform Image.writeFile
    dsimp only
    have made : (match directoryPart path with
        | some dir => image.mkdirp fits dir
        | none => (true, image)).2 = image := by
      split
      · rename_i dir part
        exact mkdirp_resolved fits (there dir part)
      · rfl
    generalize (match directoryPart path with
      | some dir => image.mkdirp fits dir
      | none => (true, image)) = result at made ⊢
    rw [made]
    split
    · exact flat
    · exact (create_flat fits flat path .file (by decide)).retry _

theorem mkfs_flat (small : ninodes ≤ 65536) (made : hostMkfs fits ninodes = some image) :
    Flat image := by
  unfold hostMkfs at made
  split at made
  · cases made
  rename_i root image' allocated
  unfold Image.ialloc at allocated
  obtain ⟨i, -, same⟩ := Option.map_eq_some_iff.mp allocated
  cases same
  split at made
  · cases made
  rename_i isRoot
  obtain rfl := not_not.mp isRoot
  have flat : Flat (((blankImage ninodes).set rootino ⟨some .dir, 0, []⟩).set rootino
      { ((blankImage ninodes).set rootino ⟨some .dir, 0, []⟩).inodes rootino with nlink := 2 }) := by
    refine ⟨small, by simp [Image.set], fun d isDir => ?_, by simp [Image.set], by simp [Image.set]⟩
    by_contra other
    simp [Image.set, Function.update_of_ne other, blankImage] at isDir
  unfold Image.initDir at made
  dsimp only at made
  rw [if_pos rfl] at made
  have first := dir_link_flat fits flat [46] rootino fun _ => .inl rfl
  generalize Image.dirLink fits _ rootino [46] rootino = result at made first
  by_cases failed : result.1 = false
  · rw [if_pos failed, failed] at made
    cases made
  rw [if_neg failed] at made
  split at made
  · cases made
    exact dir_link_flat fits first [46, 46] rootino fun _ => .inr rfl
  · cases made

theorem built_flat (small : ninodes ≤ 65536) (built : Built fits ninodes image) : Flat image := by
  induction built with
  | mkfs image made => exact mkfs_flat small made
  | call image c before there ih =>
    exact perform_flat fits ih there

/-! ## What the guest finds -/

/-- A volume whose only directory is the root, which only its own two entries name. -/
structure OnlyRoot (v : Volume) : Prop where
  only : ∀ d, v.inodeType d = some .dir → d = rootino
  links : v.inodeNlink rootino = 2
  reserved : ∀ e ∈ (v.inodes rootino).live, e.inum = rootino → e.name = dot ∨ e.name = dotdot

theorem flat_only_root (flat : Flat image) : OnlyRoot image.volume := by
  refine ⟨flat.only, flat.links, fun e live isRoot => ?_⟩
  obtain ⟨entry, member, rfl⟩ := List.mem_map.mp (List.mem_filter.mp live).1
  rcases flat.reserved entry member isRoot with name | name
  · left
    dsimp only
    rw [name]
    decide
  · right
    dsimp only
    rw [name]
    decide

/-- A name that is found is the name of an entry in use. -/
theorem dirlookup_found {d : Nat} {name : Text} (found : dirlookup v d name ≠ 0) :
    v.inodeType d = some .dir ∧ ⟨dirlookup v d name, name⟩ ∈ (v.inodes d).live := by
  unfold dirlookup at found ⊢
  split
  · rename_i notDir
    rw [if_pos notDir] at found
    exact absurd rfl found
  rename_i isDir
  rw [if_neg isDir] at found
  refine ⟨not_not.mp isDir, ?_⟩
  split
  · rename_i e first
    have test := List.find?_some first
    simp only [ne_eq, decide_not, Bool.and_eq_true, Bool.not_eq_true', decide_eq_false_iff_not,
      decide_eq_true_eq] at test
    obtain ⟨used, rfl⟩ := test
    exact List.mem_filter.mpr ⟨List.mem_of_find?_eq_some first, by simpa using used⟩
  · rename_i first
    rw [first] at found
    exact absurd rfl found

/-- There is nothing to remove for `rmdir`. -/
theorem rmdir_refused (w : Setting) (only : OnlyRoot v) (path : Text) :
    (unlinkPath w v path true).2 = v := by
  unfold unlinkPath
  split
  · rfl
  split
  · rfl
  rename_i parent name found
  split
  · rfl
  rename_i proper
  dsimp only
  split
  · rfl
  rename_i present
  obtain ⟨isDir, live⟩ := dirlookup_found present
  obtain rfl := only.only parent isDir
  have notDir : v.inodeType (dirlookup v rootino name) ≠ some .dir := by
    intro isDir'
    exact proper (only.reserved _ live (only.only _ isDir'))
  rw [if_pos ⟨rfl, notDir⟩]

theorem rmdirs_refused {v' : Volume} (only : OnlyRoot v) (run : Rmdirs v v') : v' = v := by
  induction run with
  | start => rfl
  | rmdir v' w path before ih =>
    rw [ih]
    exact rmdir_refused w only path

theorem only_root_agrees (only : OnlyRoot v) : LinkCountsAgree v := by
  refine ⟨fun d isDir => ?_, fun v' run d isDir _ => ?_⟩
  · obtain rfl := only.only d isDir
    have none' : subdirectories v rootino = 0 := by
      refine List.length_eq_zero_iff.mpr (List.filter_eq_nil_iff.mpr fun e live => ?_)
      intro test
      simp only [ne_eq, decide_not, Bool.and_eq_true, Bool.not_eq_true', decide_eq_false_iff_not,
        decide_eq_true_eq] at test
      rcases only.reserved e live (only.only _ test.2) with name | name
      · exact test.1.1 name
      · exact test.1.2 name
    rw [only.links, none']
  · have same := rmdirs_refused only run
    rw [same] at isDir ⊢
    obtain rfl := only.only d isDir
    rw [only.links]
    decide

/-- In an image of at most 65536 inodes for which the host had to make no directory, the link
counts of directories are those that the guest keeps. -/
theorem host_link_counts_agree (fits : Nat → Bool) (ninodes : Nat) (image : Image)
    (small : ninodes ≤ 65536) (built : Built fits ninodes image) : LinkCountsAgree image.volume :=
  only_root_agrees (flat_only_root (built_flat small built))

/-! ## Images of eight inodes -/

/-- An image with a file `/x`. -/
theorem host_link_counts_agree_of_file :
    ∃ image, hostMkfs (fun _ => true) 8 = some image ∧
      LinkCountsAgree (image.perform (fun _ => true) (.writeFile [47, 120])).volume := by
  obtain ⟨image, made⟩ : ∃ image, hostMkfs (fun _ => true) 8 = some image :=
    ⟨_, (Option.some_get (by decide +kernel)).symm⟩
  refine ⟨image, made, host_link_counts_agree (fun _ => true) 8 _ (by decide)
    (.call image _ (.mkfs image made) fun path directory => ?_)⟩
  have nothing : (HostCall.writeFile [47, 120]).directory = none := by decide
  rw [nothing] at directory
  cases directory

/-- A file system with room, on which the given inodes are open. -/
def roomy (isOpen : Nat → Bool) : Setting where
  readOnly := false
  fits := fun _ => true
  isOpen := isOpen
  mounted := fun _ => false

/-- The path `/a`. -/
def pathA : Text := [slash, ⟨97, by decide⟩]

/-- The host makes `/a` with one link instead of two, and adds none to the root. With `/a/b`, a
guest that removes `/a/b` leaves `/a` without links although the root names it. -/
theorem host_directories_disagree :
    (∃ image, hostMkfs (fun _ => true) 8 = some image ∧
      (image.perform (fun _ => true) (.mkdir [47, 97])).volume.inodeType 2 = some .dir ∧
      (image.perform (fun _ => true) (.mkdir [47, 97])).volume.inodeNlink 2 = 1 ∧
      (image.perform (fun _ => true) (.mkdir [47, 97])).volume.inodeNlink rootino ≠
        2 + subdirectories (image.perform (fun _ => true) (.mkdir [47, 97])).volume rootino) ∧
    ∃ image, hostMkfs (fun _ => true) 8 = some image ∧
      ∃ v, Rmdirs ((image.perform (fun _ => true) (.mkdir [47, 97])).perform (fun _ => true)
          (.mkdir [47, 97, 47, 98])).volume v ∧
        v.inodeType 2 = some .dir ∧ StillLinked v 2 ∧ v.inodeNlink 2 = 0 := by
  constructor
  · refine ⟨_, (Option.some_get (by decide +kernel)).symm, ?_⟩
    decide +kernel
  · refine ⟨_, (Option.some_get (by decide +kernel)).symm,
      (unlinkPath (roomy fun _ => false) _ (pathA ++ [slash, ⟨98, by decide⟩]) true).2,
      .rmdir _ _ _ .start, by decide +kernel, .inr ⟨rootino, by decide +kernel,
        ⟨2, [⟨97, by decide⟩]⟩, by decide +kernel, by decide⟩, by decide +kernel⟩

end JsEmulator.Disk
