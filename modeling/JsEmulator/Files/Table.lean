import JsEmulator.Memory.Areas
import JsEmulator.Process.Table

/-!
# Descriptors and the objects behind them

The descriptor tables of all processes, the three object tables they point into
(open files, pipes and sockets) and the two other holders of open files, the
areas of a process and the page cache. `file.ops` follows `file.type`: every function
of `file.c` that sets one sets both. The two terminal types are set by no caller, so
they are left out.

The fields of an object that no count depends on are left out: the offset of an open
file, the queue and the addresses of a socket. The bytes that went through a pipe are
history, kept beside its ring buffer and read by no kernel decision.
-/

namespace JsEmulator.Files

open JsEmulator.Memory (Byte Word Vm Area maxProc pageCacheSize maxVmas)
open JsEmulator.Process (RunState Chan)

def eagain : Int := 11
def enfile : Int := 23
def emfile : Int := 24
def epipe : Int := 32
def eprotonosupport : Int := 93
def eafnosupport : Int := 97

/-- `CFG_NFD`, `CFG_NFILE`, `CFG_NPIPE` and `CFG_NSOCKET`. -/
def nfd : Nat := 16
def nfile : Nat := maxProc * nfd
def npipe : Nat := 8
def nsocket : Nat := 8

/-- `CFG_PIPESZ`. -/
def pipesz : Nat := 512

def oWronly : Word := 1
def oRdwr : Word := 2
def oAccmode : Word := 3
def oNonblock : Word := 0x800
def oAppend : Word := 0x1000
def fdCloexec : Word := 1

/-- `file.type`. -/
inductive FileType where
  | none
  | file
  | pipe
  | socket
deriving DecidableEq, Repr

/-- `file.pipe_end`: 0 is the end that reads, 1 the end that writes. -/
inductive PipeEnd where
  | read
  | write
deriving DecidableEq, Repr

/-- `struct file`, one descriptor. -/
structure File where
  type : FileType
  readable : Bool
  writable : Bool
  pipeEnd : PipeEnd
  object : Nat
  fdFlags : Word
  statusFlags : Word
deriving DecidableEq, Repr

/-- `vnode.fs_type`. -/
inductive FsType where
  | disk
  | dev
  | proc
  | tmp
deriving DecidableEq, Repr

/-- `inode.type` of a vnode. -/
inductive NodeType where
  | dir
  | file
  | symlink
deriving DecidableEq, Repr

/-- `struct vnode`, as far as open files use it. -/
structure Vnode where
  fsType : FsType
  inum : Nat
  type : NodeType
deriving DecidableEq, Repr

/-- `struct open_file`. -/
structure OpenFile where
  used : Bool
  refs : Int
  statusFlags : Word
  vnode : Vnode
deriving DecidableEq, Repr

/-- `struct pipe`. `written` and `taken` are history: the bytes that writes have
accepted and reads have returned since the pipe was allocated. -/
structure Pipe where
  used : Bool
  count : Nat
  head : Nat
  nread : Int
  nwrite : Int
  readStatusFlags : Word
  writeStatusFlags : Word
  data : Nat → Byte
  written : List Byte
  taken : List Byte

/-- `struct socket`. -/
structure Socket where
  used : Bool
  refs : Int
  statusFlags : Word
deriving DecidableEq, Repr

/-- `struct page_cache_entry`. -/
structure CachedPage where
  used : Bool
  file : Nat
deriving DecidableEq, Repr

/-- `struct proc`, as far as descriptors, areas and sleeping go. -/
structure Proc where
  state : RunState
  chan : Chan
  files : Fin nfd → File
  vm : Vm

/-- The tables. `released` is history: the vnodes that `vnode_release` was called on
(latest first), each with what `inode_open_count` gives there. -/
structure Kernel where
  procs : Fin maxProc → Proc
  nproc : Nat
  openFiles : Nat → OpenFile
  pipes : Nat → Pipe
  sockets : Nat → Socket
  pageCache : Fin pageCacheSize → CachedPage
  released : List (Vnode × Nat)

/-! ## Updates -/

def Kernel.setProc (s : Kernel) (idx : Fin maxProc) (f : Proc → Proc) : Kernel :=
  { s with procs := Function.update s.procs idx (f (s.procs idx)) }

def Kernel.setFile (s : Kernel) (idx : Fin maxProc) (fd : Fin nfd) (file : File) : Kernel :=
  s.setProc idx fun p => { p with files := Function.update p.files fd file }

def Kernel.setVm (s : Kernel) (idx : Fin maxProc) (vm : Vm) : Kernel :=
  s.setProc idx fun p => { p with vm := vm }

def Kernel.setOpen (s : Kernel) (n : Nat) (f : OpenFile → OpenFile) : Kernel :=
  { s with openFiles := Function.update s.openFiles n (f (s.openFiles n)) }

def Kernel.setPipe (s : Kernel) (n : Nat) (f : Pipe → Pipe) : Kernel :=
  { s with pipes := Function.update s.pipes n (f (s.pipes n)) }

def Kernel.setSocket (s : Kernel) (n : Nat) (f : Socket → Socket) : Kernel :=
  { s with sockets := Function.update s.sockets n (f (s.sockets n)) }

def Kernel.setCache (s : Kernel) (slot : Fin pageCacheSize) (e : CachedPage) : Kernel :=
  { s with pageCache := Function.update s.pageCache slot e }

/-! ## Sleeping and waking -/

/-- `wakeup`. -/
def wakeup (s : Kernel) (chan : Chan) : Kernel :=
  { s with procs := fun i =>
      if i.val < s.nproc ∧ (s.procs i).state = .sleeping ∧ (s.procs i).chan = chan then
        { s.procs i with state := .runnable }
      else s.procs i }

/-- `poll_wakeup`. -/
def pollWakeup (s : Kernel) : Kernel := wakeup s .poll

/-- `sleep`. Which process runs next is up to the run. -/
def sleep (s : Kernel) (idx : Fin maxProc) (chan : Chan) : Kernel :=
  s.setProc idx fun p => { p with state := .sleeping, chan := chan }

/-! ## Open files -/

/-- `inode_open_count`. -/
def inodeOpenCount (s : Kernel) (inum : Nat) : Nat :=
  (List.range nfile).countP fun i =>
    (s.openFiles i).used && (s.openFiles i).vnode.fsType = .disk && (s.openFiles i).vnode.inum = inum

/-- `vnode_release`. -/
def vnodeRelease (s : Kernel) (node : Vnode) : Kernel :=
  { s with released := (node, inodeOpenCount s node.inum) :: s.released }

/-- The end of `vnode_close_op` and `file_mmap_release`: one reference goes. -/
def dropOpenFile (s : Kernel) (n : Nat) : Kernel :=
  let s := s.setOpen n fun f => { f with refs := f.refs - 1 }
  if (s.openFiles n).refs = 0 then
    (vnodeRelease s (s.openFiles n).vnode).setOpen n fun f => { f with used := false }
  else s

/-- `alloc_open_file`, with the vnode that `file_set_node` then stores. -/
def allocOpenFile (s : Kernel) (node : Vnode) : Option (Nat × Kernel) :=
  ((List.range nfile).find? fun i => !(s.openFiles i).used).map fun i =>
    (i, s.setOpen i fun _ => ⟨true, 1, 0, node⟩)

/-- `file_mmap_retain_object`. -/
def fileMmapRetainObject (s : Kernel) (object : Nat) : Kernel :=
  if object < nfile ∧ (s.openFiles object).used then
    s.setOpen object fun f => { f with refs := f.refs + 1 }
  else s

/-- `file_mmap_release`. -/
def fileMmapRelease (s : Kernel) (object : Nat) : Kernel :=
  if nfile ≤ object ∨ (s.openFiles object).used = false then s else dropOpenFile s object

/-! ## Pipes -/

/-- `alloc_pipe`. -/
def allocPipe (s : Kernel) : Option (Nat × Kernel) :=
  ((List.range npipe).find? fun i => !(s.pipes i).used).map fun i =>
    (i, s.setPipe i fun p =>
      { p with
        used := true, count := 0, head := 0, nread := 1, nwrite := 1
        readStatusFlags := 0, writeStatusFlags := 1, written := [], taken := [] })

/-- One turn of the loop of `pipe_write_bytes`. -/
def Pipe.push (p : Pipe) (value : Byte) : Pipe :=
  { p with data := Function.update p.data ((p.head + p.count) % pipesz) value, count := p.count + 1 }

/-- The loop of `pipe_write_bytes`. -/
def Pipe.pushBytes (p : Pipe) (bytes : List Byte) : Pipe := bytes.foldl Pipe.push p

/-- The loop of `pipe_read_bytes`, with the bytes it stores to the buffer. -/
def Pipe.popBytes : Nat → Pipe → List Byte × Pipe
  | 0, p => ([], p)
  | n + 1, p =>
    let rest := Pipe.popBytes n { p with head := (p.head + 1) % pipesz, count := p.count - 1 }
    (p.data p.head :: rest.1, rest.2)

/-- `pipe_write_bytes`. -/
def pipeWriteBytes (s : Kernel) (pp : Nat) (buf : Nat → Byte) (len : Nat) : Nat × Kernel :=
  let n := min len (pipesz - (s.pipes pp).count)
  let accepted := (List.range n).map buf
  (n, pollWakeup (s.setPipe pp fun p =>
    { p.pushBytes accepted with written := p.written ++ accepted }))

/-- `pipe_read_bytes`. -/
def pipeReadBytes (s : Kernel) (pp len : Nat) : Nat × Kernel :=
  let n := min len (s.pipes pp).count
  let popped := Pipe.popBytes n (s.pipes pp)
  (n, pollWakeup (s.setPipe pp fun p => { popped.2 with taken := p.taken ++ popped.1 }))

/-- The count of one end changes. -/
def Pipe.adjust (p : Pipe) (change : Int) : PipeEnd → Pipe
  | .write => { p with nwrite := p.nwrite + change }
  | .read => { p with nread := p.nread + change }

/-- `pipe_close_op`, before it looks at both counts. -/
def pipeClosing (s : Kernel) (pp : Nat) (pipeEnd : PipeEnd) : Kernel :=
  pollWakeup (wakeup (s.setPipe pp fun p => p.adjust (-1) pipeEnd) (.pipe pp))

/-- `pipe_close_op`. -/
def pipeCloseOp (s : Kernel) (pp : Nat) (pipeEnd : PipeEnd) : Kernel :=
  let s := pipeClosing s pp pipeEnd
  if (s.pipes pp).nread = 0 ∧ (s.pipes pp).nwrite = 0 then
    s.setPipe pp fun p => { p with used := false }
  else s

/-- `pipe_retain_op`. -/
def pipeRetainOp (s : Kernel) (pp : Nat) (pipeEnd : PipeEnd) : Kernel :=
  s.setPipe pp fun p => p.adjust 1 pipeEnd

/-! ## Sockets -/

/-- `socket_close`. -/
def socketClose (s : Kernel) (n : Nat) : Kernel :=
  if nsocket ≤ n ∨ (s.sockets n).used = false then s
  else
    let s := s.setSocket n fun k => { k with refs := k.refs - 1 }
    pollWakeup (s.setSocket n fun k => { k with used := k.used && k.refs != 0 })

/-- `socket_retain`. -/
def socketRetain (s : Kernel) (n : Nat) : Kernel :=
  if n < nsocket ∧ (s.sockets n).used then s.setSocket n fun k => { k with refs := k.refs + 1 }
  else s

/-! ## Descriptors -/

/-- `file_reset`. -/
def noFile : File := ⟨.none, false, false, .read, 0, 0, 0⟩

/-- `file_close`. -/
def fdClose (s : Kernel) (idx : Fin maxProc) (fd : Fin nfd) : Kernel :=
  let file := (s.procs idx).files fd
  let s :=
    match file.type with
    | .none => s
    | .file => dropOpenFile s file.object
    | .pipe => pipeCloseOp s file.object file.pipeEnd
    | .socket => socketClose s file.object
  s.setFile idx fd noFile

/-- `file_retain`. -/
def fileRetain (s : Kernel) (file : File) : Kernel :=
  match file.type with
  | .none => s
  | .file => s.setOpen file.object fun f => { f with refs := f.refs + 1 }
  | .pipe => pipeRetainOp s file.object file.pipeEnd
  | .socket => socketRetain s file.object

/-- `copy_file`. -/
def copyFile (s : Kernel) (idx : Fin maxProc) (fd : Fin nfd) (src : File) : Kernel :=
  fileRetain (s.setFile idx fd { src with statusFlags := 0 }) src

/-- `file_set_node`. -/
def fileSetNode (s : Kernel) (idx : Fin maxProc) (fd : Fin nfd) (node : Vnode) : Option Kernel :=
  (allocOpenFile s node).map fun (n, s) =>
    s.setFile idx fd { noFile with type := .file, readable := true, object := n }

/-- `file_set_pipe`. -/
def fileSetPipe (s : Kernel) (idx : Fin maxProc) (fd : Fin nfd) (pp : Nat) (pipeEnd : PipeEnd) :
    Kernel :=
  match pipeEnd with
  | .read =>
    (s.setFile idx fd { noFile with type := .pipe, object := pp, pipeEnd := .read, readable := true }
      ).setPipe pp fun p => { p with readStatusFlags := 0 }
  | .write =>
    (s.setFile idx fd { noFile with type := .pipe, object := pp, pipeEnd := .write, writable := true }
      ).setPipe pp fun p => { p with writeStatusFlags := 1 }

/-- `file_set_socket`. -/
def fileSetSocket (s : Kernel) (idx : Fin maxProc) (fd : Fin nfd) (n : Nat) : Kernel :=
  (s.setFile idx fd
    { noFile with type := .socket, object := n, readable := true, writable := true }).setSocket n
    fun k => { k with statusFlags := 2 }

/-- `file_get_status_flags`. -/
def fileGetStatusFlags (s : Kernel) (file : File) : Word :=
  if file.type = .file ∧ file.object < nfile ∧ (s.openFiles file.object).used then
    (s.openFiles file.object).statusFlags
  else if file.type = .pipe ∧ file.object < npipe ∧ (s.pipes file.object).used then
    match file.pipeEnd with
    | .read => (s.pipes file.object).readStatusFlags
    | .write => (s.pipes file.object).writeStatusFlags
  else if file.type = .socket ∧ file.object < nsocket ∧ (s.sockets file.object).used then
    (s.sockets file.object).statusFlags
  else file.statusFlags

/-- `file_set_status_flags`. -/
def fileSetStatusFlags (s : Kernel) (idx : Fin maxProc) (fd : Fin nfd) (flags : Word) : Kernel :=
  let file := (s.procs idx).files fd
  if file.type = .file ∧ file.object < nfile ∧ (s.openFiles file.object).used then
    s.setOpen file.object fun f => { f with statusFlags := flags }
  else if file.type = .pipe ∧ file.object < npipe ∧ (s.pipes file.object).used then
    match file.pipeEnd with
    | .read => s.setPipe file.object fun p => { p with readStatusFlags := flags }
    | .write => s.setPipe file.object fun p => { p with writeStatusFlags := flags }
  else if file.type = .socket ∧ file.object < nsocket ∧ (s.sockets file.object).used then
    s.setSocket file.object fun k => { k with statusFlags := flags }
  else s.setFile idx fd { file with statusFlags := flags }

/-- `alloc_fd_from`. -/
def allocFdFrom (s : Kernel) (idx : Fin maxProc) (minimum : Int) : Option (Fin nfd) :=
  (List.finRange nfd).find? fun fd => minimum ≤ fd.val && ((s.procs idx).files fd).type = .none

/-- `alloc_fd`. -/
def allocFd (s : Kernel) (idx : Fin maxProc) : Option (Fin nfd) := allocFdFrom s idx 0

/-- `clear_fds`. -/
def clearFds (s : Kernel) (idx : Fin maxProc) : Kernel :=
  (List.finRange nfd).foldl (fun s fd =>
    if ((s.procs idx).files fd).type = .none then s else fdClose s idx fd) s

/-- `copy_fds`. -/
def copyFds (s : Kernel) (dst src : Fin maxProc) : Kernel :=
  (List.finRange nfd).foldl (fun s fd => copyFile s dst fd ((s.procs src).files fd)) s

/-- `close_exec_fds`. -/
def closeExecFds (s : Kernel) (idx : Fin maxProc) : Kernel :=
  (List.finRange nfd).foldl (fun s fd =>
    if ((s.procs idx).files fd).fdFlags &&& fdCloexec ≠ 0 then fdClose s idx fd else s) s

end JsEmulator.Files
