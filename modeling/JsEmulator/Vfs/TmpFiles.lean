import JsEmulator.Vfs.Directories
import JsEmulator.Files.Table
import JsEmulator.Library.Overlay
import Mathlib.Data.Finset.Card
import Mathlib.Data.Finset.Range
import Mathlib.Logic.Function.Basic

/-!
# Temporary files

`/tmp` keeps its files in a fixed table of nodes, each with the bytes of one file. A node is
taken when a file is created and given back when the file has neither a name nor an open
entry. Over the table stands the meaning of the calls: a file is what was created under a
name, its bytes are zero where nothing was written since its creation or its last
truncation, and an open entry stays with the file it was opened for.

A node taken for a new file is cleared, but a truncation only sets the size to 0. The table
means what it should in every run in which each write that begins past the end of a file
leaves a gap that holds zeros.
-/

namespace JsEmulator.Vfs.Tmp

open JsEmulator.Memory (Byte einval)
open JsEmulator.Files (NodeType nfile enfile)
open JsEmulator.Disk (enoent enotdir eisdir enospc)
open JsEmulator.Library (overlay overlay_covered overlay_outside)

variable {relative : List Byte} {node : StoredNode} {i : Nat}

/-- `CFG_TMP_FILE_SIZE`. -/
def tmpFileSize : Nat := 4096

/-- `struct tmp_node`, without its mode and owner. -/
structure StoredNode extends TmpNode where
  size : Nat
  data : Nat → Byte

/-- `tmp_nodes` and the node of each entry of `open_file_table` that is open on `/tmp`.
Node 0 is the directory. -/
structure Tmpfs where
  nodes : Nat → StoredNode
  opened : Nat → Option Nat

/-- `tmp_name`: the length of a name, or -1 for one with a slash or longer than 15 bytes. -/
def tmpName (relative : List Byte) : Int :=
  if 47 ∈ relative ∨ 15 < relative.length then -1 else relative.length

/-- A node in use that has a name. -/
def Tmpfs.hasName (s : Tmpfs) (relative : List Byte) (i : Nat) : Bool :=
  (s.nodes i).used && (s.nodes i).linked && decide ((s.nodes i).name = relative)

/-- `tmp_find`: the first node with a name, or 0. -/
def Tmpfs.tmpFind (s : Tmpfs) (relative : List Byte) : Nat :=
  ((List.range' 1 (ntmpnode - 1)).find? (s.hasName relative)).getD 0

/-- `tmp_lookup`: the node of a name, where the empty name is the directory. -/
def Tmpfs.tmpLookup (s : Tmpfs) (relative : List Byte) : Option Nat :=
  if relative = [] then some 0
  else if tmpName relative < 0 then none
  else if s.tmpFind relative = 0 then none
  else some (s.tmpFind relative)

/-- Change one node. -/
def Tmpfs.setNode (s : Tmpfs) (i : Nat) (node : StoredNode) : Tmpfs :=
  { s with nodes := Function.update s.nodes i node }

/-- What a call answers, with the bytes that it read and the table after it. -/
structure Answer where
  code : Int
  bytes : List Byte
  after : Tmpfs

/-- The node that `tmp_create` makes: all bytes cleared, then the fields set. -/
def createdNode (relative : List Byte) : StoredNode :=
  { used := true, linked := true, type := .file, name := relative, size := 0, data := fun _ => 0 }

/-- `tmp_create`. -/
def Tmpfs.tmpCreate (s : Tmpfs) (relative : List Byte) (type : NodeType) : Answer :=
  if type ≠ .file then ⟨-enotdir, [], s⟩
  else if tmpName relative ≤ 0 then ⟨-einval, [], s⟩
  else if s.tmpFind relative ≠ 0 then ⟨0, [], s⟩
  else
    match (List.range' 1 (ntmpnode - 1)).find? (fun i => !(s.nodes i).used) with
    | none => ⟨-enospc, [], s⟩
    | some i => ⟨0, [], s.setNode i (createdNode relative)⟩

/-- `tmp_truncate_op` of the node that a name stands for, as `open` with `O_TRUNC` does it. -/
def Tmpfs.tmpTruncateOp (s : Tmpfs) (relative : List Byte) : Answer :=
  match s.tmpLookup relative with
  | none => ⟨-enoent, [], s⟩
  | some 0 => ⟨-eisdir, [], s⟩
  | some i => ⟨0, [], s.setNode i { s.nodes i with size := 0 }⟩

/-- `file_set_node` of the node that a name stands for. Which entry `alloc_open_file` finds
unused depends on all open files, so the call names it. -/
def Tmpfs.fileSetNode (s : Tmpfs) (relative : List Byte) (entry : Nat) : Answer :=
  match s.tmpLookup relative with
  | none => ⟨-enoent, [], s⟩
  | some i =>
    if entry < nfile ∧ s.opened entry = none then
      ⟨entry, [], { s with opened := Function.update s.opened entry (some i) }⟩
    else ⟨-enfile, [], s⟩

/-- `tmp_open_count`. -/
def Tmpfs.tmpOpenCount (s : Tmpfs) (index : Nat) : Nat :=
  ((Finset.range nfile).filter fun entry => s.opened entry = some index).card

/-- `tmp_release_op`: a node without a name goes with its last open entry. -/
def Tmpfs.tmpReleaseOp (s : Tmpfs) (i : Nat) : Tmpfs :=
  if 0 < i ∧ (s.nodes i).linked = false ∧ s.tmpOpenCount i ≤ 1 then
    s.setNode i { s.nodes i with used := false }
  else s

/-- `vnode_close_op` of the last descriptor of an open entry. -/
def Tmpfs.vnodeCloseOp (s : Tmpfs) (entry : Nat) : Answer :=
  match s.opened entry with
  | none => ⟨0, [], s⟩
  | some i =>
    let released := s.tmpReleaseOp i
    ⟨0, [], { released with opened := Function.update released.opened entry none }⟩

/-- A node whose name is taken away: it goes at once if nothing is open on it. -/
def Tmpfs.unlinkedNode (s : Tmpfs) (i : Nat) : StoredNode :=
  { s.nodes i with
    linked := false
    used := if s.tmpOpenCount i = 0 then false else (s.nodes i).used }

/-- `vfs_unlink` on `/tmp`. -/
def Tmpfs.vfsUnlink (s : Tmpfs) (relative : List Byte) : Answer :=
  let i := s.tmpFind relative
  if i = 0 then ⟨-enoent, [], s⟩ else ⟨0, [], s.setNode i (s.unlinkedNode i)⟩

/-- `tmp_read_op` through an open entry. -/
def Tmpfs.tmpReadOp (s : Tmpfs) (entry off len : Nat) : Answer :=
  match s.opened entry with
  | none => ⟨0, [], s⟩
  | some 0 => ⟨-eisdir, [], s⟩
  | some i =>
    if (s.nodes i).size ≤ off then ⟨0, [], s⟩
    else
      let take := min len ((s.nodes i).size - off)
      ⟨take, (List.range take).map fun k => (s.nodes i).data (off + k), s⟩

/-- `tmp_write_op` through an open entry. -/
def Tmpfs.tmpWriteOp (s : Tmpfs) (entry off : Nat) (buf : List Byte) : Answer :=
  match s.opened entry with
  | none => ⟨0, [], s⟩
  | some 0 => ⟨-eisdir, [], s⟩
  | some i =>
    if tmpFileSize ≤ off then ⟨-enospc, [], s⟩
    else
      let taken := buf.take (tmpFileSize - off)
      ⟨taken.length, [], s.setNode i { s.nodes i with
        data := overlay (s.nodes i).data off taken
        size := if (s.nodes i).size < off + taken.length then off + taken.length
          else (s.nodes i).size }⟩

/-- The calls on `/tmp`. An `open` is a lookup, with `O_CREATE` a creation, with `O_TRUNC` a
truncation, and the taking of an entry; offsets are what `lseek`, earlier calls and
`O_APPEND` have left in the entry. -/
inductive Call
  | create (relative : List Byte) (type : NodeType)
  | truncate (relative : List Byte)
  | open (relative : List Byte) (entry : Nat)
  | close (entry : Nat)
  | unlink (relative : List Byte)
  | write (entry off : Nat) (buf : List Byte)
  | read (entry off len : Nat)

/-- One call. -/
def Tmpfs.step (s : Tmpfs) : Call → Answer
  | .create relative type => s.tmpCreate relative type
  | .truncate relative => s.tmpTruncateOp relative
  | .open relative entry => s.fileSetNode relative entry
  | .close entry => s.vnodeCloseOp entry
  | .unlink relative => s.vfsUnlink relative
  | .write entry off buf => s.tmpWriteOp entry off buf
  | .read entry off len => s.tmpReadOp entry off len

/-- The table at boot. -/
def Tmpfs.boot : Tmpfs where
  nodes := fun _ =>
    { used := false, linked := false, type := .file, name := [], size := 0, data := fun _ => 0 }
  opened := fun _ => none

/-! ## What the calls mean -/

/-- A file as a sequence of bytes: `byte` is zero from `size` on. -/
structure Content where
  size : Nat
  byte : Nat → Byte

/-- A file in which nothing has been written. -/
def Content.empty : Content := ⟨0, fun _ => 0⟩

/-- Writing bytes at an offset. A gap before it reads as zeros, and writing nothing changes
nothing. -/
def Content.write (c : Content) (off : Nat) (bytes : List Byte) : Content :=
  if bytes = [] then c else ⟨max c.size (off + bytes.length), overlay c.byte off bytes⟩

/-- The bytes of a file from an offset, at most so many. -/
def Content.read (c : Content) (off len : Nat) : List Byte :=
  (List.range (min len (c.size - off))).map fun k => c.byte (off + k)

/-- Files by the order of their creation, their names and the open entries. -/
structure Files where
  created : Nat
  content : Nat → Content
  names : List Byte → Option Nat
  handles : Nat → Option Nat

/-- No file. -/
def Files.none : Files := ⟨0, fun _ => .empty, fun _ => Option.none, fun _ => Option.none⟩

/-- Change the content of one file. -/
def Files.setContent (f : Files) (id : Nat) (c : Content) : Files :=
  { f with content := Function.update f.content id c }

/-- A call with the code that it answered: a negative code is a failure, and a write has
written as many bytes as it says. -/
def Files.step (f : Files) (code : Int) : Call → Files
  | .create relative _ =>
    if 0 ≤ code ∧ f.names relative = Option.none then
      { f.setContent f.created .empty with
        created := f.created + 1
        names := Function.update f.names relative (some f.created) }
    else f
  | .truncate relative =>
    match f.names relative with
    | Option.none => f
    | some id => f.setContent id .empty
  | .open relative entry =>
    if 0 ≤ code then { f with handles := Function.update f.handles entry (f.names relative) }
    else f
  | .close entry => { f with handles := Function.update f.handles entry Option.none }
  | .unlink relative => { f with names := Function.update f.names relative Option.none }
  | .write entry off buf =>
    match f.handles entry with
    | Option.none => f
    | some id => f.setContent id ((f.content id).write off (buf.take code.toNat))
  | .read _ _ _ => f

/-- The states of the table and of the files that runs from boot reach, in which every call is
an allowed one. -/
inductive Run (allowed : Tmpfs → Call → Prop) : Tmpfs → Files → Prop
  | boot : Run allowed .boot .none
  | step {s : Tmpfs} {f : Files} (call : Call) : Run allowed s f → allowed s call →
      Run allowed (s.step call).after (f.step (s.step call).code call)

/-! ## The table stands for the files -/

/-- A node that holds a file. -/
def Tmpfs.Live (s : Tmpfs) (i : Nat) : Prop := 1 ≤ i ∧ i < ntmpnode ∧ (s.nodes i).used = true

/-- A node that a name leads to. -/
def Tmpfs.Named (s : Tmpfs) (i : Nat) (relative : List Byte) : Prop :=
  s.Live i ∧ (s.nodes i).linked = true ∧ (s.nodes i).name = relative

/-- The bytes of a node up to its size are those of a file. -/
structure Holds (node : StoredNode) (c : Content) : Prop where
  size : node.size = c.size
  bytes : ∀ k, k < c.size → node.data k = c.byte k
  rest : ∀ k, c.size ≤ k → c.byte k = 0

/-- The table stands for the files, where `ident` says which file is in a node. -/
structure Simulates (ident : Nat → Nat) (s : Tmpfs) (f : Files) : Prop where
  names : ∀ relative id, f.names relative = some id ↔
    ∃ i, s.Named i relative ∧ ident i = id
  proper : ∀ i relative, s.Named i relative → 0 < tmpName relative
  handles : ∀ entry, f.handles entry =
    (s.opened entry).bind fun i => if i = 0 then none else some (ident i)
  held : ∀ entry i, s.opened entry = some i → entry < nfile ∧ (i ≠ 0 → s.Live i)
  distinct : ∀ i j, s.Live i → s.Live j → ident i = ident j → i = j
  old : ∀ i, s.Live i → ident i < f.created
  content : ∀ i, s.Live i → Holds (s.nodes i) (f.content (ident i))
  unique : ∀ i j relative, s.Named i relative → s.Named j relative → i = j

theorem find_named (s : Tmpfs) (relative : List Byte) (found : s.tmpFind relative ≠ 0) :
    s.Named (s.tmpFind relative) relative := by
  unfold Tmpfs.tmpFind at found ⊢
  cases search : (List.range' 1 (ntmpnode - 1)).find? (s.hasName relative) with
  | none => simp [search] at found
  | some i =>
    have named : s.hasName relative i = true := List.find?_some search
    have inside := List.mem_range'_1.mp (List.mem_of_find?_eq_some search)
    simp only [Tmpfs.hasName, Bool.and_eq_true, decide_eq_true_eq] at named
    have bound : i < ntmpnode := by
      unfold ntmpnode at inside ⊢
      omega
    exact ⟨⟨inside.1, bound, named.1.1⟩, named.1.2, named.2⟩

/-- A name that leads to a node is found. -/
theorem named_found {s : Tmpfs} (named : s.Named i relative) : s.tmpFind relative ≠ 0 := by
  unfold Tmpfs.tmpFind
  cases search : (List.range' 1 (ntmpnode - 1)).find? (s.hasName relative) with
  | none =>
    have inside : i ∈ List.range' 1 (ntmpnode - 1) :=
      List.mem_range'_1.mpr ⟨named.1.1, by have := named.1.2.1; unfold ntmpnode at this ⊢; omega⟩
    have missed := List.find?_eq_none.mp search i inside
    simp [Tmpfs.hasName, named.1.2.2, named.2.1, named.2.2] at missed
  | some j =>
    have inside := List.mem_range'_1.mp (List.mem_of_find?_eq_some search)
    simp only [Option.getD_some]
    omega

section Simulation

variable {ident : Nat → Nat} {s : Tmpfs} {f : Files}

theorem Simulates.found (sim : Simulates ident s f) (found : s.tmpFind relative ≠ 0) :
    f.names relative = some (ident (s.tmpFind relative)) :=
  (sim.names relative _).mpr ⟨_, find_named s relative found, rfl⟩

theorem Simulates.missing (sim : Simulates ident s f) (missing : s.tmpFind relative = 0) :
    f.names relative = none := by
  cases known : f.names relative with
  | none => rfl
  | some id =>
    obtain ⟨i, named, -⟩ := (sim.names relative id).mp known
    exact absurd missing (named_found named)

/-- A lookup finds the directory, or the node of the file with that name. -/
theorem Simulates.lookup (sim : Simulates ident s f) (relative : List Byte) :
    s.tmpLookup relative = none ∧ f.names relative = none ∨
      s.tmpLookup relative = some 0 ∧ f.names relative = none ∨
      ∃ i, s.tmpLookup relative = some i ∧ i ≠ 0 ∧ s.Named i relative ∧
        f.names relative = some (ident i) := by
  have improper (low : tmpName relative ≤ 0) : s.tmpFind relative = 0 := by
    by_contra found
    have := sim.proper _ _ (find_named s relative found)
    omega
  unfold Tmpfs.tmpLookup
  split_ifs with directory bad missing
  · have low : tmpName relative ≤ 0 := by
      rw [directory]
      decide
    exact .inr (.inl ⟨rfl, sim.missing (improper low)⟩)
  · exact .inl ⟨rfl, sim.missing (improper (by omega))⟩
  · exact .inl ⟨rfl, sim.missing missing⟩
  · exact .inr (.inr ⟨_, rfl, missing, find_named s relative missing, sim.found missing⟩)

theorem live_set_node {j : Nat} :
    (s.setNode i node).Live j ↔
      if j = i then 1 ≤ i ∧ i < ntmpnode ∧ node.used = true else s.Live j := by
  by_cases here : j = i <;> simp [Tmpfs.Live, Tmpfs.setNode, here]

theorem nodes_set_node {j : Nat} (other : j ≠ i) : (s.setNode i node).nodes j = s.nodes j := by
  simp [Tmpfs.setNode, Function.update_of_ne other]

theorem named_set_node {j : Nat} (other : j ≠ i) :
    (s.setNode i node).Named j relative ↔ s.Named j relative := by
  unfold Tmpfs.Named
  rw [live_set_node, if_neg other, nodes_set_node other]

/-- A node without a name keeps no name from being found when its use ends. -/
theorem named_iff_of_unlinked {j : Nat}
    (before : (s.nodes i).linked = true → (s.nodes i).name ≠ relative) (after : node.linked = false) :
    (s.setNode i node).Named j relative ↔ s.Named j relative := by
  by_cases here : j = i
  · subst here
    constructor
    · rintro ⟨-, linked, -⟩
      simp [Tmpfs.setNode, after] at linked
    · rintro ⟨-, linked, name⟩
      exact absurd name (before linked)
  · exact named_set_node here

section

variable (sim : Simulates ident s f)
include sim

/-- The content of one node changes as that of its file. -/
theorem Simulates.set_content (live : s.Live i) {size : Nat}
    {data : Nat → Byte} {c : Content} (holds : Holds ⟨(s.nodes i).toTmpNode, size, data⟩ c) :
    Simulates ident (s.setNode i ⟨(s.nodes i).toTmpNode, size, data⟩)
      (f.setContent (ident i) c) := by
  have alive (j : Nat) :
      (s.setNode i ⟨(s.nodes i).toTmpNode, size, data⟩).Live j ↔ s.Live j := by
    rw [live_set_node]
    split_ifs with here
    · rw [here]
      rfl
    · exact Iff.rfl
  have named (j : Nat) (relative : List Byte) :
      (s.setNode i ⟨(s.nodes i).toTmpNode, size, data⟩).Named j relative ↔
        s.Named j relative := by
    by_cases here : j = i
    · subst here
      unfold Tmpfs.Named
      rw [alive]
      simp only [Tmpfs.setNode, Function.update_self]
    · exact named_set_node here
  refine ⟨?_, ?_, sim.handles, ?_, ?_, ?_, ?_, ?_⟩
  · intro relative id
    simp only [named]
    exact sim.names relative id
  · intro j relative named'
    exact sim.proper j relative ((named j relative).mp named')
  · intro entry j opened
    obtain ⟨inside, held⟩ := sim.held entry j opened
    exact ⟨inside, fun file => (alive j).mpr (held file)⟩
  · intro j k liveJ liveK
    exact sim.distinct j k ((alive j).mp liveJ) ((alive k).mp liveK)
  · intro j liveJ
    exact sim.old j ((alive j).mp liveJ)
  · intro j liveJ
    by_cases here : j = i
    · subst here
      simpa [Tmpfs.setNode, Files.setContent] using holds
    have otherFile : ident j ≠ ident i := fun same =>
      here (sim.distinct j i ((alive j).mp liveJ) live same)
    rw [nodes_set_node here]
    simpa [Files.setContent, Function.update_of_ne otherFile] using
      sim.content j ((alive j).mp liveJ)
  · intro j k relative namedJ namedK
    exact sim.unique j k relative ((named j relative).mp namedJ) ((named k relative).mp namedK)

/-- A new file goes into a node that is not in use. -/
theorem Simulates.create (proper : 0 < tmpName relative)
    (missing : s.tmpFind relative = 0) (low : 1 ≤ i) (high : i < ntmpnode)
    (unused : (s.nodes i).used = false) :
    Simulates (Function.update ident i f.created) (s.setNode i (createdNode relative))
      { f.setContent f.created .empty with
        created := f.created + 1
        names := Function.update f.names relative (some f.created) } := by
  have notLive : ¬ s.Live i := fun live => by
    rw [Tmpfs.Live, unused] at live
    exact absurd live.2.2 (by decide)
  have apart {j : Nat} (live : s.Live j) : j ≠ i := fun here => notLive (here ▸ live)
  have alive {j : Nat} (live : (s.setNode i (createdNode relative)).Live j) (other : j ≠ i) :
      s.Live j := by
    rwa [live_set_node, if_neg other] at live
  have own (name : List Byte) :
      (s.setNode i (createdNode relative)).Named i name ↔ name = relative := by
    unfold Tmpfs.Named
    rw [live_set_node, if_pos rfl]
    simp only [Tmpfs.setNode, createdNode, Function.update_self, low, high, true_and]
    exact eq_comm
  refine ⟨?_, ?_, ?_, ?_, ?_, ?_, ?_, ?_⟩
  · intro name id
    by_cases new : name = relative
    · subst new
      simp only [Function.update_self, Option.some.injEq]
      constructor
      · intro same
        exact ⟨i, (own name).mpr rfl, by rw [Function.update_self, same]⟩
      · rintro ⟨j, named, same⟩
        by_cases here : j = i
        · rw [← same, here, Function.update_self]
        · exact absurd missing (named_found ((named_set_node here).mp named))
    · simp only [Function.update_of_ne new]
      rw [sim.names name id]
      constructor
      · rintro ⟨j, named, same⟩
        have other := apart named.1
        exact ⟨j, (named_set_node other).mpr named, by rw [Function.update_of_ne other, same]⟩
      · rintro ⟨j, named, same⟩
        by_cases here : j = i
        · exact absurd ((own name).mp (here ▸ named)) new
        · rw [Function.update_of_ne here] at same
          exact ⟨j, (named_set_node here).mp named, same⟩
  · intro j name named
    by_cases here : j = i
    · rwa [(own name).mp (here ▸ named)]
    · exact sim.proper j name ((named_set_node here).mp named)
  · intro entry
    have before := sim.handles entry
    cases opened : s.opened entry with
    | none => simpa [Tmpfs.setNode, Files.setContent, opened] using before
    | some j =>
      simp only [opened, Option.bind_some] at before
      change f.handles entry = (s.opened entry).bind _
      simp only [opened, Option.bind_some]
      rw [before]
      split_ifs with directory
      · rfl
      · rw [Function.update_of_ne (apart ((sim.held entry j opened).2 directory))]
  · intro entry j opened
    obtain ⟨inside, held⟩ := sim.held entry j opened
    refine ⟨inside, fun file => ?_⟩
    rw [live_set_node, if_neg (apart (held file))]
    exact held file
  · intro j k liveJ liveK same
    by_cases hereJ : j = i <;> by_cases hereK : k = i
    · rw [hereJ, hereK]
    · rw [hereJ, Function.update_self, Function.update_of_ne hereK] at same
      have := sim.old k (alive liveK hereK)
      omega
    · rw [hereK, Function.update_self, Function.update_of_ne hereJ] at same
      have := sim.old j (alive liveJ hereJ)
      omega
    · rw [Function.update_of_ne hereJ, Function.update_of_ne hereK] at same
      exact sim.distinct j k (alive liveJ hereJ) (alive liveK hereK) same
  · intro j live
    change _ < f.created + 1
    by_cases here : j = i
    · rw [here, Function.update_self]
      omega
    · rw [Function.update_of_ne here]
      have := sim.old j (alive live here)
      omega
  · intro j live
    by_cases here : j = i
    · subst here
      simp only [Tmpfs.setNode, Files.setContent, Function.update_self]
      exact ⟨rfl, fun _ _ => rfl, fun _ _ => rfl⟩
    have older := sim.old j (alive live here)
    rw [nodes_set_node here, Function.update_of_ne here]
    simp only [Files.setContent, Function.update_of_ne (show ident j ≠ f.created by omega)]
    exact sim.content j (alive live here)
  · intro j k name namedJ namedK
    by_cases hereJ : j = i <;> by_cases hereK : k = i
    · rw [hereJ, hereK]
    · have same := (own name).mp (hereJ ▸ namedJ)
      exact absurd missing (named_found (same ▸ (named_set_node hereK).mp namedK))
    · have same := (own name).mp (hereK ▸ namedK)
      exact absurd missing (named_found (same ▸ (named_set_node hereJ).mp namedJ))
    · exact sim.unique j k name ((named_set_node hereJ).mp namedJ)
        ((named_set_node hereK).mp namedK)

/-- Calls that take names, entries or nodes away, or open entries, leave the contents. -/
theorem Simulates.same_contents {t : Tmpfs} {g : Files}
    (created : g.created = f.created) (content : g.content = f.content)
    (nodes : ∀ j, t.Live j → s.Live j ∧ (t.nodes j).size = (s.nodes j).size ∧
      (t.nodes j).data = (s.nodes j).data)
    (named : ∀ j relative, t.Named j relative → s.Named j relative)
    (names : ∀ relative id, g.names relative = some id ↔
      ∃ i, t.Named i relative ∧ ident i = id)
    (handles : ∀ entry, g.handles entry =
      (t.opened entry).bind fun i => if i = 0 then none else some (ident i))
    (held : ∀ entry i, t.opened entry = some i → entry < nfile ∧ (i ≠ 0 → t.Live i)) :
    Simulates ident t g := by
  refine ⟨names, ?_, handles, held, ?_, ?_, ?_, ?_⟩
  · intro j relative namedJ
    exact sim.proper j relative (named j relative namedJ)
  · intro j k liveJ liveK
    exact sim.distinct j k (nodes j liveJ).1 (nodes k liveK).1
  · intro j live
    rw [created]
    exact sim.old j (nodes j live).1
  · intro j live
    obtain ⟨before, size, data⟩ := nodes j live
    obtain ⟨sameSize, bytes, rest⟩ := sim.content j before
    rw [content]
    exact ⟨size.trans sameSize, fun k low => by rw [data, bytes k low], rest⟩
  · intro j k relative namedJ namedK
    exact sim.unique j k relative (named j relative namedJ) (named k relative namedK)

/-- The name of a file is taken away. -/
theorem Simulates.unlink (named : s.Named i relative) :
    Simulates ident (s.setNode i (s.unlinkedNode i))
      { f with names := Function.update f.names relative none } := by
  have kept {name : List Byte} (other : name ≠ relative) (j : Nat) :
      (s.setNode i (s.unlinkedNode i)).Named j name ↔ s.Named j name :=
    named_iff_of_unlinked (fun _ same => other (same.symm.trans named.2.2)) rfl
  have gone (j : Nat) : ¬ (s.setNode i (s.unlinkedNode i)).Named j relative := by
    intro still
    by_cases here : j = i
    · subst here
      have linked := still.2.1
      simp [Tmpfs.setNode, Tmpfs.unlinkedNode] at linked
    · exact here (sim.unique j i relative ((named_set_node here).mp still) named)
  refine sim.same_contents rfl rfl ?_ ?_ ?_ sim.handles ?_
  · intro j live
    by_cases here : j = i
    · subst here
      simp only [Tmpfs.setNode, Function.update_self]
      exact ⟨named.1, rfl, rfl⟩
    · rw [live_set_node, if_neg here] at live
      rw [nodes_set_node here]
      exact ⟨live, rfl, rfl⟩
  · intro j name namedJ
    by_cases same : name = relative
    · exact absurd (same ▸ namedJ) (gone j)
    · exact (kept same j).mp namedJ
  · intro name id
    by_cases same : name = relative
    · subst same
      simp [gone]
    · simp only [Function.update_of_ne same, kept same]
      exact sim.names name id
  · intro entry j opened
    obtain ⟨inside, live⟩ := sim.held entry j opened
    refine ⟨inside, fun file => ?_⟩
    rw [live_set_node]
    by_cases here : j = i
    · -- The entry is counted, so the node stays in use.
      have counted : s.tmpOpenCount i ≠ 0 := by
        have member : entry ∈ (Finset.range nfile).filter fun e => s.opened e = some i :=
          Finset.mem_filter.mpr ⟨Finset.mem_range.mpr inside, here ▸ opened⟩
        exact Finset.card_ne_zero_of_mem member
      simp only [if_pos here, Tmpfs.unlinkedNode, if_neg counted]
      exact named.1
    · rw [if_neg here]
      exact live file

/-- An open entry that is given up, with the node of a file that has no name and no other. -/
theorem Simulates.close {entry : Nat} (opened : s.opened entry = some i) :
    Simulates ident
      { s.tmpReleaseOp i with opened := Function.update (s.tmpReleaseOp i).opened entry none }
      { f with handles := Function.update f.handles entry none } := by
  have sameEntries : (s.tmpReleaseOp i).opened = s.opened := by
    unfold Tmpfs.tmpReleaseOp
    split_ifs <;> rfl
  have named (j : Nat) (relative : List Byte) :
      (s.tmpReleaseOp i).Named j relative ↔ s.Named j relative := by
    unfold Tmpfs.tmpReleaseOp
    split_ifs with last
    · exact named_iff_of_unlinked (fun linked => by simp [last.2.1] at linked) last.2.1
    · exact Iff.rfl
  refine sim.same_contents rfl rfl ?_ (fun j relative => (named j relative).mp) ?_ ?_ ?_
  · intro j live
    have before : (s.tmpReleaseOp i).Live j := live
    change s.Live j ∧ ((s.tmpReleaseOp i).nodes j).size = _ ∧
      ((s.tmpReleaseOp i).nodes j).data = _
    unfold Tmpfs.tmpReleaseOp at before ⊢
    split_ifs at before ⊢ with last
    · by_cases here : j = i
      · rw [live_set_node, if_pos here] at before
        exact absurd before.2.2 Bool.false_ne_true
      · rw [live_set_node, if_neg here] at before
        rw [nodes_set_node here]
        exact ⟨before, rfl, rfl⟩
    · exact ⟨before, rfl, rfl⟩
  · intro relative id
    refine (sim.names relative id).trans (exists_congr fun j => ?_)
    exact and_congr_left' (named j relative).symm
  · intro e
    by_cases here : e = entry
    · simp [here]
    · simp only [Function.update_of_ne here, sameEntries]
      exact sim.handles e
  · intro e j held
    simp only [sameEntries] at held
    by_cases here : e = entry
    · simp [here] at held
    rw [Function.update_of_ne here] at held
    obtain ⟨inside, live⟩ := sim.held e j held
    refine ⟨inside, fun file => ?_⟩
    change (s.tmpReleaseOp i).Live j
    unfold Tmpfs.tmpReleaseOp
    split_ifs with last
    · rw [live_set_node, if_neg ?_]
      · exact live file
      · -- Two entries on the node would have been counted.
        intro same
        refine here (Finset.card_le_one.mp last.2.2 e ?_ entry ?_)
        · exact Finset.mem_filter.mpr ⟨Finset.mem_range.mpr inside, same ▸ held⟩
        · have insideEntry := (sim.held entry i opened).1
          exact Finset.mem_filter.mpr ⟨Finset.mem_range.mpr insideEntry, opened⟩
    · exact live file

/-- An entry is opened on the directory or on the file with a name. -/
theorem Simulates.open_entry {entry : Nat}
    (lookup : s.tmpLookup relative = some i) (inside : entry < nfile) :
    Simulates ident { s with opened := Function.update s.opened entry (some i) }
      { f with handles := Function.update f.handles entry (f.names relative) } := by
  have target : f.names relative = (if i = 0 then none else some (ident i)) ∧
      (i ≠ 0 → s.Live i) := by
    rcases sim.lookup relative with ⟨missing, -⟩ | ⟨found, unnamed⟩ | ⟨j, found, file, named, known⟩
    · simp [missing] at lookup
    · obtain rfl : 0 = i := by simpa [found] using lookup
      exact ⟨by simpa using unnamed, fun file => absurd rfl file⟩
    · obtain rfl : j = i := by simpa [found] using lookup
      exact ⟨by rw [if_neg file, known], fun _ => named.1⟩
  refine sim.same_contents rfl rfl (fun j live => ⟨live, rfl, rfl⟩) (fun j name named => named)
    sim.names ?_ ?_
  · intro e
    by_cases here : e = entry
    · subst here
      simp only [Function.update_self, Option.bind_some]
      exact target.1
    · simp only [Function.update_of_ne here]
      exact sim.handles e
  · intro e j opened
    by_cases here : e = entry
    · subst here
      obtain rfl : i = j := by simpa using opened
      exact ⟨inside, target.2⟩
    · simp only [Function.update_of_ne here] at opened
      exact sim.held e j opened

end

/-- A write keeps a node with its file if the gap that it leaves holds zeros. -/
theorem Holds.write {c : Content} (holds : Holds node c) {off : Nat} {bytes : List Byte}
    (gap : off ≤ node.size ∨ bytes ≠ [] ∧ ∀ k, node.size ≤ k → k < off → node.data k = 0) :
    Holds
      ⟨node.toTmpNode,
        if node.size < off + bytes.length then off + bytes.length else node.size,
        overlay node.data off bytes⟩
      (c.write off bytes) := by
  obtain ⟨size, same, rest⟩ := holds
  have longest : (if node.size < off + bytes.length then off + bytes.length else node.size) =
      max c.size (off + bytes.length) := by
    split_ifs <;> omega
  rw [longest]
  unfold Content.write
  by_cases nothing : bytes = []
  · -- Nothing is written, so the write does not begin past the end.
    subst nothing
    have inside : off ≤ c.size := by
      rcases gap with inside | ⟨some, -⟩
      · omega
      · exact absurd rfl some
    rw [if_pos rfl]
    refine ⟨Nat.max_eq_left inside, fun k low => ?_, rest⟩
    rw [← same k low]
    exact overlay_outside (by rw [List.length_nil]; omega)
  · rw [if_neg nothing]
    refine ⟨rfl, fun k low => ?_, fun k high => ?_⟩
    · change k < max c.size (off + bytes.length) at low
      by_cases written : off ≤ k ∧ k < off + bytes.length
      · exact overlay_covered c.byte written.1 written.2
      simp only [overlay_outside (show k < off ∨ off + bytes.length ≤ k by omega)]
      by_cases old : k < c.size
      · exact same k old
      rw [rest k (by omega)]
      rcases gap with inside | ⟨-, zeros⟩
      · omega
      · exact zeros k (by omega) (by omega)
    · change max c.size (off + bytes.length) ≤ k at high
      simp only [overlay_outside (show k < off ∨ off + bytes.length ≤ k by omega)]
      exact rest k (by omega)

end Simulation

/-- A write begins at or before the end of its file, or it writes something and the bytes
that are stored between the end and its offset are zeros. One at the largest size of a file
or beyond is refused. -/
def Call.GapHoldsZeros (s : Tmpfs) : Call → Prop
  | .write entry off buf => ∀ i, s.opened entry = some i →
    tmpFileSize ≤ off ∨ off ≤ (s.nodes i).size ∨
      buf ≠ [] ∧ ∀ k, (s.nodes i).size ≤ k → k < off → (s.nodes i).data k = 0
  | _ => True

/-- One call keeps the table and the files together. -/
theorem Simulates.step {ident : Nat → Nat} {s : Tmpfs} {f : Files} (sim : Simulates ident s f)
    (call : Call) (gap : call.GapHoldsZeros s) :
    ∃ ident', Simulates ident' (s.step call).after (f.step (s.step call).code call) := by
  cases call with
  | create relative type =>
    simp only [Tmpfs.step, Tmpfs.tmpCreate]
    by_cases other : type ≠ .file
    · exact ⟨ident, by simpa [Files.step, other, enotdir] using sim⟩
    by_cases improper : tmpName relative ≤ 0
    · exact ⟨ident, by simpa [Files.step, other, improper, einval] using sim⟩
    by_cases found : s.tmpFind relative ≠ 0
    · have known := sim.found found
      exact ⟨ident, by simpa [Files.step, other, improper, found, known] using sim⟩
    have missing : s.tmpFind relative = 0 := not_not.mp found
    rw [if_neg other, if_neg improper, if_neg found]
    cases search : (List.range' 1 (ntmpnode - 1)).find? (fun i => !(s.nodes i).used) with
    | none => exact ⟨ident, by simpa [Files.step, enospc] using sim⟩
    | some i =>
      have unused : (s.nodes i).used = false := by simpa using List.find?_some search
      have inside := List.mem_range'_1.mp (List.mem_of_find?_eq_some search)
      have bound : i < ntmpnode := by
        unfold ntmpnode at inside ⊢
        omega
      refine ⟨Function.update ident i f.created, ?_⟩
      simp only [Files.step, le_refl, sim.missing missing, and_self, if_true]
      exact sim.create (by omega) missing inside.1 bound unused
  | truncate relative =>
    simp only [Tmpfs.step, Tmpfs.tmpTruncateOp, Files.step]
    rcases sim.lookup relative with ⟨missing, unnamed⟩ | ⟨found, unnamed⟩ |
      ⟨i, found, file, named, known⟩
    · exact ⟨ident, by simpa [missing, unnamed] using sim⟩
    · exact ⟨ident, by simpa [found, unnamed] using sim⟩
    · refine ⟨ident, ?_⟩
      rw [found, known]
      cases i with
      | zero => exact absurd rfl file
      | succ j =>
        exact sim.set_content named.1 ⟨rfl, fun k low => absurd low (Nat.not_lt_zero k),
          fun _ _ => rfl⟩
  | «open» relative entry =>
    simp only [Tmpfs.step, Tmpfs.fileSetNode]
    rcases lookup : s.tmpLookup relative with - | i
    · exact ⟨ident, by simpa [Files.step, enoent] using sim⟩
    dsimp only
    by_cases free : entry < nfile ∧ s.opened entry = none
    · rw [if_pos free]
      refine ⟨ident, ?_⟩
      rw [Files.step, if_pos (Int.natCast_nonneg entry)]
      exact sim.open_entry lookup free.1
    · rw [if_neg free]
      exact ⟨ident, by simpa [Files.step, enfile] using sim⟩
  | close entry =>
    simp only [Tmpfs.step, Tmpfs.vnodeCloseOp, Files.step]
    rcases opened : s.opened entry with - | i
    · have unopened : Function.update f.handles entry none = f.handles := by
        rw [Function.update_eq_self_iff, sim.handles, opened]
        rfl
      simp only [unopened]
      exact ⟨ident, sim⟩
    · exact ⟨ident, sim.close opened⟩
  | unlink relative =>
    simp only [Tmpfs.step, Tmpfs.vfsUnlink, Files.step]
    split_ifs with missing
    · have unnamed : Function.update f.names relative none = f.names := by
        rw [Function.update_eq_self_iff, sim.missing missing]
      simp only [unnamed]
      exact ⟨ident, sim⟩
    · exact ⟨ident, sim.unlink (find_named s relative missing)⟩
  | write entry off buf =>
    simp only [Tmpfs.step, Tmpfs.tmpWriteOp, Files.step]
    have handle := sim.handles entry
    rcases opened : s.opened entry with - | - | j
    · exact ⟨ident, by simpa [handle, opened] using sim⟩
    · exact ⟨ident, by simpa [handle, opened] using sim⟩
    · rw [opened, Option.bind_some, if_neg (Nat.succ_ne_zero j)] at handle
      have live := (sim.held entry (j + 1) opened).2 (Nat.succ_ne_zero j)
      have holds := sim.content (j + 1) live
      by_cases refused : tmpFileSize ≤ off
      · simp only [handle, if_pos refused]
        have nothing : buf.take (-enospc).toNat = [] := by simp [enospc]
        refine ⟨ident, ?_⟩
        rw [nothing, Content.write, if_pos rfl, Files.setContent, Function.update_eq_self]
        exact sim
      · simp only [handle, if_neg refused]
        have taken : buf.take ((buf.take (tmpFileSize - off)).length : Int).toNat =
            buf.take (tmpFileSize - off) := by
          rw [Int.toNat_natCast, List.length_take, List.take_eq_take_iff]
          omega
        refine ⟨ident, sim.set_content live ?_⟩
        rw [taken]
        refine holds.write ?_
        rcases gap (j + 1) opened with late | inside | ⟨some, zeros⟩
        · exact absurd late refused
        · exact .inl inside
        · refine .inr ⟨?_, zeros⟩
          rw [Ne, List.take_eq_nil_iff, not_or]
          exact ⟨by omega, some⟩
  | read entry off len =>
    refine ⟨ident, ?_⟩
    have same : (s.step (.read entry off len)).after = s := by
      simp only [Tmpfs.step, Tmpfs.tmpReadOp]
      split
      · rfl
      · rfl
      · split_ifs <;> rfl
    rw [same]
    exact sim

/-- Every run keeps the table and the files together. -/
theorem run_simulates {s : Tmpfs} {f : Files} (run : Run (fun s call => call.GapHoldsZeros s) s f) :
    ∃ ident, Simulates ident s f := by
  induction run with
  | boot =>
    have dead (i : Nat) : ¬ Tmpfs.boot.Live i := fun live => Bool.false_ne_true live.2.2
    refine ⟨id, ?_, ?_, ?_, ?_, ?_, ?_, ?_, ?_⟩
    · intro relative file
      simp [Files.none, Tmpfs.Named, dead]
    · exact fun i _ named => absurd named.1 (dead i)
    · exact fun _ => rfl
    · exact fun _ _ opened => absurd opened (by simp [Tmpfs.boot])
    · exact fun i _ live => absurd live (dead i)
    · exact fun i live => absurd live (dead i)
    · exact fun i live => absurd live (dead i)
    · exact fun i _ _ named => absurd named.1 (dead i)
  | step call _ gap ih =>
    obtain ⟨ident, sim⟩ := ih
    exact sim.step call gap

/-- In every run whose writes leave only gaps that hold zeros, a read through an open entry
returns the bytes of the file that the entry was opened for: what was written since its
creation or its last truncation, and zeros elsewhere. -/
theorem read_returns_file_bytes {s : Tmpfs} {f : Files}
    (run : Run (fun s call => call.GapHoldsZeros s) s f) {entry id : Nat}
    (opened : f.handles entry = some id) (off len : Nat) :
    (s.step (.read entry off len)).bytes = (f.content id).read off len ∧
      (s.step (.read entry off len)).code = ((f.content id).read off len).length := by
  obtain ⟨ident, sim⟩ := run_simulates run
  rw [sim.handles] at opened
  cases node : s.opened entry with
  | none => simp [node] at opened
  | some i =>
    cases i with
    | zero => simp [node] at opened
    | succ j =>
      obtain rfl : ident (j + 1) = id := by simpa [node] using opened
      obtain ⟨size, bytes, -⟩ := sim.content (j + 1)
        ((sim.held entry (j + 1) node).2 (Nat.succ_ne_zero j))
      simp only [Tmpfs.step, Tmpfs.tmpReadOp, node, Content.read]
      split_ifs with ended
      · have none_left : (f.content (ident (j + 1))).size - off = 0 := by omega
        simp [none_left]
      rw [size]
      refine ⟨List.map_congr_left fun k inside => ?_, by simp⟩
      rw [List.mem_range] at inside
      exact bytes (off + k) (by omega)

/-- Calls after each other, with the files that they make. -/
def runCalls (s : Tmpfs) (f : Files) : List Call → Tmpfs × Files
  | [] => (s, f)
  | call :: rest => runCalls (s.step call).after (f.step (s.step call).code call) rest

theorem run_calls {allowed : Tmpfs → Call → Prop} (calls : List Call) {s : Tmpfs} {f : Files}
    (run : Run allowed s f) (always : ∀ s call, allowed s call) :
    Run allowed (runCalls s f calls).1 (runCalls s f calls).2 := by
  induction calls generalizing s f with
  | nil => exact run
  | cons call rest ih =>
    exact ih (.step call run (always s call))

/-- A file is written, truncated and written again past its end: a read from its beginning
returns the bytes from before the truncation. -/
theorem truncated_bytes_reappear :
    ∃ s f, Run (fun _ _ => True) s f ∧ f.handles 0 = some 0 ∧
      (s.step (.read 0 0 2)).bytes = [7, 8] ∧ (f.content 0).read 0 2 = [0, 0] := by
  have booted : Run (fun _ _ => True) .boot .none := .boot
  have run := run_calls
    [.create [97] .file, .open [97] 0, .write 0 0 [7, 8], .truncate [97], .write 0 2 [9]]
    booted (fun _ _ => trivial)
  exact ⟨_, _, run, by decide +kernel, by decide +kernel, by decide +kernel⟩

/-- The general statement at a file that is written past its end with nothing stored there. -/
theorem read_returns_file_bytes_sparse :
    ∃ s f, Run (fun s call => call.GapHoldsZeros s) s f ∧ f.handles 0 = some 0 ∧
      (s.step (.read 0 0 4)).bytes = [0, 0, 9] := by
  have created : Run (fun s call => call.GapHoldsZeros s) _ _ :=
    .step (.create [97] .file) .boot trivial
  have entered := Run.step (.open [97] 0) created trivial
  have written := Run.step (.write 0 2 [9]) entered (by
    intro i opened
    obtain rfl : 1 = i := by simpa using (show some 1 = some i from opened)
    exact .inr (.inr ⟨by decide, fun _ _ _ => rfl⟩))
  refine ⟨_, _, written, by decide +kernel, ?_⟩
  rw [(read_returns_file_bytes written (by decide +kernel : _ = some 0) 0 4).1]
  decide +kernel

end JsEmulator.Vfs.Tmp
