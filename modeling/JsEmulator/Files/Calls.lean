import JsEmulator.Files.Table

/-!
# The calls that move references

The system calls that open, copy, close and map descriptors, the reads and writes of
pipes, and the page faults that fill the page cache, over the tables of all
processes. What a call learns from user memory, page tables, the file system or a
device is an answer given with the call. A run is any sequence of calls, each by a
process that is runnable at that moment, and of interrupts.
-/

namespace JsEmulator.Files

open JsEmulator.Memory (Byte Word Vm Area MmapArgs FdAnswer maxProc pageCacheSize maxVmas einval
  ebadf enomem efault enodev hasBits)
open JsEmulator.Process (RunState Chan)

/-- A descriptor number of the caller. -/
def fdIndex (fd : Int) : Option (Fin nfd) :=
  if h : 0 ≤ fd ∧ fd.toNat < nfd then some ⟨fd.toNat, h.2⟩ else none

/-! ## Reading and writing -/

/-- Where a read or write of something other than a pipe leads: it returns, or it
sleeps on the terminal or on a socket. -/
inductive IoAnswer where
  | returns (value : Int)
  | terminal
  | socket (n : Nat)
deriving DecidableEq, Repr

/-- The effect of such an answer. A call that sleeps returns nothing. -/
def IoAnswer.give (s : Kernel) (caller : Fin maxProc) : IoAnswer → Option Int × Kernel
  | .returns value => (some value, s)
  | .terminal => (none, sleep s caller .kbd)
  | .socket n => (none, sleep s caller (.socket n))

/-- `pipe_read_op`. -/
def pipeReadOp (s : Kernel) (caller : Fin maxProc) (file : File) (len : Nat) : Option Int × Kernel :=
  let pipe := s.pipes file.object
  if file.pipeEnd ≠ .read then (some (-ebadf), s)
  else if 0 < pipe.count then
    let answer := pipeReadBytes s file.object len
    (some answer.1, wakeup answer.2 (.pipe file.object))
  else if pipe.nwrite = 0 then (some 0, s)
  else (none, sleep s caller (.pipe file.object))

/-- `pipe_write_op`. -/
def pipeWriteOp (s : Kernel) (caller : Fin maxProc) (file : File) (buf : Nat → Byte) (len : Nat) :
    Option Int × Kernel :=
  let pipe := s.pipes file.object
  if file.pipeEnd ≠ .write then (some (-ebadf), s)
  else if pipe.nread = 0 then (some (-epipe), s)
  else if pipe.count = pipesz then (none, sleep s caller (.pipe file.object))
  else
    let answer := pipeWriteBytes s file.object buf len
    (some answer.1, wakeup answer.2 (.pipe file.object))

/-- Whether `pipe_poll_op` reports an event that a non-blocking call waits for: input
or end of input at the reading end, space or a missing reader at the other. -/
def pipeReady (s : Kernel) (file : File) : Bool :=
  let pipe := s.pipes file.object
  match file.pipeEnd with
  | .read => decide (0 < pipe.count) || pipe.nwrite == 0
  | .write => pipe.nread == 0 || decide (pipe.count < pipesz)

/-- `file_read`. The answer is used for files and sockets, their `O_NONBLOCK` test
included. -/
def fileRead (s : Kernel) (caller : Fin maxProc) (file : File) (len : Nat) (io : IoAnswer) :
    Option Int × Kernel :=
  if file.type = .none ∨ file.readable = false then (some (-ebadf), s)
  else if file.type ≠ .pipe then io.give s caller
  else if hasBits (fileGetStatusFlags s file) oNonblock ∧ pipeReady s file = false then
    (some (-eagain), s)
  else pipeReadOp s caller file len

/-- `file_write`. -/
def fileWrite (s : Kernel) (caller : Fin maxProc) (file : File) (buf : Nat → Byte) (len : Nat)
    (io : IoAnswer) : Option Int × Kernel :=
  if file.type = .none ∨ file.writable = false then (some (-ebadf), s)
  else if file.type ≠ .pipe then io.give s caller
  else if hasBits (fileGetStatusFlags s file) oNonblock ∧ pipeReady s file = false then
    (some (-eagain), s)
  else pipeWriteOp s caller file buf len

/-- `sys_read`. `access` is the result of `user_access_ok` on the buffer. -/
def sysRead (s : Kernel) (caller : Fin maxProc) (fd : Int) (access : Bool) (len : Int)
    (io : IoAnswer) : Option Int × Kernel :=
  if len < 0 then (some (-einval), s)
  else if access = false then (some (-efault), s)
  else
    match fdIndex fd with
    | none => (some (-ebadf), s)
    | some fd => fileRead s caller ((s.procs caller).files fd) len.toNat io

/-- `sys_write`. `buf` is what `read8_at` finds from the start of the buffer on. -/
def sysWrite (s : Kernel) (caller : Fin maxProc) (fd : Int) (access : Bool) (buf : Nat → Byte)
    (len : Int) (io : IoAnswer) : Option Int × Kernel :=
  if len < 0 then (some (-einval), s)
  else if access = false then (some (-efault), s)
  else
    match fdIndex fd with
    | none => (some (-ebadf), s)
    | some fd => fileWrite s caller ((s.procs caller).files fd) buf len.toNat io

/-! ## Descriptors -/

/-- The access mode that `sys_open` gives to a descriptor. -/
def File.withMode (file : File) (flags : Word) : File :=
  if flags &&& oAccmode = oWronly then { file with readable := false, writable := true }
  else if flags &&& oAccmode = oRdwr then { file with readable := true, writable := true }
  else file

/-- `sys_open`, after the path has led to a vnode or to an error. -/
def sysOpen (s : Kernel) (caller : Fin maxProc) (found : Except Int Vnode) (flags : Word) :
    Int × Kernel :=
  match found with
  | .error code => (code, s)
  | .ok node =>
    match allocFd s caller with
    | none => (-emfile, s)
    | some fd =>
      match fileSetNode s caller fd node with
      | none => (-enfile, s)
      | some s =>
        let s := fileSetStatusFlags s caller fd flags
        (fd.val, s.setFile caller fd (((s.procs caller).files fd).withMode flags))

/-- `sys_close`. -/
def sysClose (s : Kernel) (caller : Fin maxProc) (fd : Int) : Int × Kernel :=
  match fdIndex fd with
  | none => (-ebadf, s)
  | some fd =>
    if ((s.procs caller).files fd).type = .none then (-ebadf, s) else (0, fdClose s caller fd)

/-- `sys_pipe`. The failure paths undo what was done. -/
def sysPipe (s : Kernel) (caller : Fin maxProc) (access : Bool) : Int × Kernel :=
  if access = false then (-efault, s)
  else
    match allocPipe s with
    | none => (-enfile, s)
    | some (pp, s) =>
      match allocFd s caller with
      | none => (-emfile, s.setPipe pp fun p => { p with used := false })
      | some rfd =>
        let s := fileSetPipe s caller rfd pp .read
        match allocFd s caller with
        | none =>
          (-emfile, (s.setFile caller rfd noFile).setPipe pp fun p => { p with used := false })
        | some wfd => (0, fileSetPipe s caller wfd pp .write)

/-- The duplication of `sys_dup` and `F_DUPFD`. -/
def dupFrom (s : Kernel) (caller : Fin maxProc) (fd : Fin nfd) (minimum : Int) : Int × Kernel :=
  match allocFdFrom s caller minimum with
  | none => (-emfile, s)
  | some newfd =>
    let s := copyFile s caller newfd ((s.procs caller).files fd)
    (newfd.val, s.setFile caller newfd { (s.procs caller).files newfd with fdFlags := 0 })

/-- `sys_dup`. -/
def sysDup (s : Kernel) (caller : Fin maxProc) (oldfd : Int) : Int × Kernel :=
  match fdIndex oldfd with
  | none => (-ebadf, s)
  | some oldfd =>
    if ((s.procs caller).files oldfd).type = .none then (-ebadf, s) else dupFrom s caller oldfd 0

/-- `sys_fcntl`. The commands are `F_DUPFD`, `F_GETFD`, `F_SETFD`, `F_GETFL` and
`F_SETFL`. -/
def sysFcntl (s : Kernel) (caller : Fin maxProc) (fd command : Int) (argument : Word) :
    Int × Kernel :=
  match fdIndex fd with
  | none => (-ebadf, s)
  | some fd =>
    let file := (s.procs caller).files fd
    if file.type = .none then (-ebadf, s)
    else if command = 0 then dupFrom s caller fd argument.toInt
    else if command = 1 then (file.fdFlags.toInt, s)
    else if command = 2 then
      (0, s.setFile caller fd { file with fdFlags := argument &&& fdCloexec })
    else if command = 3 then ((fileGetStatusFlags s file).toInt, s)
    else if command = 4 then
      (0, fileSetStatusFlags s caller fd
        ((fileGetStatusFlags s file &&& oAccmode) ||| (argument &&& (oNonblock ||| oAppend))))
    else (-einval, s)

/-- `socket_create`. `AF_INET` is 2, `SOCK_DGRAM` is 2 and `IPPROTO_UDP` is 17. -/
def socketCreate (s : Kernel) (caller : Fin maxProc) (domain type protocol : Int) : Int × Kernel :=
  if domain ≠ 2 then (-eafnosupport, s)
  else if type ≠ 2 ∨ (protocol ≠ 0 ∧ protocol ≠ 17) then (-eprotonosupport, s)
  else
    match (List.range nsocket).find? fun n => !(s.sockets n).used with
    | none => (-enfile, s)
    | some n =>
      match allocFd s caller with
      | none => (-emfile, s)
      | some fd => (fd.val, fileSetSocket (s.setSocket n fun _ => ⟨true, 1, 2⟩) caller fd n)

/-! ## Areas -/

/-- `file_mmap_retain_object` for the file of an area, if it has one. -/
def retainFile (s : Kernel) : Option Nat → Kernel
  | none => s
  | some n => fileMmapRetainObject s n

/-- `file_mmap_release` for the file of an area, if it has one. -/
def releaseFile (s : Kernel) : Option Nat → Kernel
  | none => s
  | some n => fileMmapRelease s n

/-- What the descriptor table says about the descriptor of a mapping. -/
def fdAnswer (s : Kernel) (caller : Fin maxProc) (fd : Word) : FdAnswer :=
  match fdIndex fd.toInt with
  | none => ⟨false, false, false, none⟩
  | some fd =>
    let file := (s.procs caller).files fd
    ⟨file.type ≠ .none, file.readable, file.writable,
      if file.type = .file ∧ file.object < nfile ∧ (s.openFiles file.object).used ∧
          (s.openFiles file.object).vnode.type = .file then some file.object else none⟩

/-- `file_mmap_retain`, for a file mapping. -/
def mmapRetain (s : Kernel) (caller : Fin maxProc) (args : MmapArgs) :
    Except Int (Option Nat × Kernel) :=
  match Memory.mmapFile (fdAnswer s caller args.fd) args with
  | .error code => .error code
  | .ok file => .ok (file, retainFile s file)

/-- `vm_mmap` after its arguments have been copied in. -/
def vmMmapArgs (mapped : Int → Bool) (s : Kernel) (caller : Fin maxProc) (args : MmapArgs) :
    Int × Kernel :=
  let vm := (s.procs caller).vm
  if args.length.toInt ≤ 0 ∨
      hasBits args.prot (~~~(Memory.protRead ||| Memory.protWrite ||| Memory.protExec)) then
    (-einval, s)
  else if hasBits args.flags Memory.mapPrivate = hasBits args.flags Memory.mapShared then
    (-einval, s)
  else
    let length := Memory.pageAlignUp args.length.toInt
    match Memory.mmapPlace mapped vm args length with
    | .error code => (code, s)
    | .ok address =>
      match Memory.mmapFileCheck (fdAnswer s caller args.fd) args with
      | .error code => (code, s)
      | .ok () =>
        match Memory.vmAreaSlot vm with
        | none => (-enomem, s)
        | some slot =>
          match mmapRetain s caller args with
          | .error code => (code, s)
          | .ok (file, s) =>
            (address, s.setVm caller (vm.setArea slot (Memory.mmapArea args address length file)))

/-- `vm_mmap`. -/
def vmMmap (mapped : Int → Bool) (s : Kernel) (caller : Fin maxProc) :
    Option MmapArgs → Int × Kernel
  | none => (-efault, s)
  | some args => vmMmapArgs mapped s caller args

/-- One turn of the loop of `vm_munmap`: a split area is one more holder of its file, a
dropped one is a holder less. -/
def munmapTurn (caller : Fin maxProc) (start stop : Int) (s : Kernel) (i : Fin maxVmas) :
    Option Kernel :=
  let vm := (s.procs caller).vm
  let a := vm.areas i
  (Memory.munmapArea start stop vm i).map fun vm =>
    let s := s.setVm caller vm
    if a.splitBy start stop then retainFile s a.file
    else if a.used ∧ start ≤ a.start ∧ a.stop ≤ stop then releaseFile s a.file
    else s

/-- `vm_munmap`. -/
def vmMunmap (s : Kernel) (caller : Fin maxProc) (address length : Word) : Option (Int × Kernel) :=
  let vm := (s.procs caller).vm
  match Memory.munmapRange address.toInt length.toInt with
  | none => some (-einval, s)
  | some (start, stop) =>
    if (List.finRange maxVmas).any (fun i => (vm.areas i).splitBy start stop) ∧
        Memory.vmAreaSlot vm = none then some (-enomem, s)
    else ((List.finRange maxVmas).foldlM (munmapTurn caller start stop) s).map fun s => (0, s)

/-- One turn of the loop of `vm_mprotect_areas`: every piece that gets a slot of its own
is one more holder of the file. -/
def mprotectTurn (caller : Fin maxProc) (start stop : Int) (prot : Word) (s : Kernel)
    (i : Fin maxVmas) : Option Kernel :=
  let vm := (s.procs caller).vm
  let a := vm.areas i
  (Memory.mprotectArea start stop prot vm i).map fun vm =>
    (List.range (Memory.areaSlotsNeeded start stop a)).foldl (fun s _ => retainFile s a.file)
      (s.setVm caller vm)

/-- `vm_mprotect`. -/
def vmMprotect (s : Kernel) (caller : Fin maxProc) (address length prot : Word) :
    Option (Int × Kernel) :=
  let vm := (s.procs caller).vm
  match Memory.mprotectRange vm address.toInt length.toInt prot with
  | .error code => some (code, s)
  | .ok (start, stop) =>
    (((List.finRange maxVmas).filter fun i => (vm.areas i).used).foldlM
      (mprotectTurn caller start stop prot) s).map fun s => (0, s)

/-- One turn of the loop of `vm_release`. -/
def releaseTurn (idx : Fin maxProc) (s : Kernel) (i : Fin maxVmas) : Kernel :=
  let a := (s.procs idx).vm.areas i
  let s := if a.used then releaseFile s a.file else s
  s.setVm idx ((s.procs idx).vm.setArea i { a with used := false, file := none })

/-- `vm_release`. -/
def vmRelease (s : Kernel) (idx : Fin maxProc) : Kernel :=
  (List.finRange maxVmas).foldl (releaseTurn idx) s

/-- `vm_init`. -/
def vmInit (s : Kernel) (idx : Fin maxProc) (imageEnd : Int) : Kernel :=
  let s := vmRelease s idx
  s.setVm idx (Memory.vmInit (s.procs idx).vm imageEnd)

/-- One turn of the loop of `vm_fork`. -/
def forkTurn (child parent : Fin maxProc) (s : Kernel) (i : Fin maxVmas) : Kernel :=
  let a := (s.procs parent).vm.areas i
  let s := s.setVm child ((s.procs child).vm.setArea i a)
  if a.used then retainFile s a.file else s

/-- `vm_fork`. -/
def vmFork (s : Kernel) (child parent : Fin maxProc) : Kernel :=
  let vm := (s.procs parent).vm
  (List.finRange maxVmas).foldl (forkTurn child parent)
    (s.setVm child { (s.procs child).vm with brkStart := vm.brkStart, brkEnd := vm.brkEnd })

/-- `vm_brk`, on the heap bounds. -/
def vmBrk (mapped : Int → Bool) (s : Kernel) (caller : Fin maxProc) (address : Int) : Int × Kernel :=
  let answer := Memory.vmBrk mapped (s.procs caller).vm address
  (answer.1, s.setVm caller answer.2)

/-! ## The page cache -/

/-- The answers to a page fault: whether the page is in the cache, which entries' frames
only the cache holds, whether there is a free frame, and whether the file has the
page. -/
structure FaultAnswer where
  cached : Bool
  evictable : Fin pageCacheSize → Bool
  frames : Bool
  fills : Bool

/-- `page_cache_alloc_slot`. -/
def pageCacheAllocSlot (s : Kernel) (evictable : Fin pageCacheSize → Bool) :
    Option (Fin pageCacheSize × Kernel) :=
  match (List.finRange pageCacheSize).find? fun i => !(s.pageCache i).used with
  | some slot => some (slot, s)
  | none =>
    ((List.finRange pageCacheSize).find? evictable).map fun slot =>
      (slot, (fileMmapRelease s (s.pageCache slot).file).setCache slot
        { s.pageCache slot with used := false })

/-- `page_cache_get`. -/
def pageCacheGet (s : Kernel) (answer : FaultAnswer) (file : Nat) : Kernel :=
  if answer.cached then s
  else
    match pageCacheAllocSlot s answer.evictable with
    | none => s
    | some (slot, s) =>
      if answer.frames = false ∨ answer.fills = false then s
      else fileMmapRetainObject (s.setCache slot ⟨true, file⟩) file

/-- The part of `vm_handle_page_fault` for a page that is not present. -/
def pageFault (s : Kernel) (caller : Fin maxProc) (page : Int) (write : Bool)
    (answer : FaultAnswer) : Kernel :=
  match Memory.faultBacking (s.procs caller).vm page with
  | none => s
  | some (prot, flags, file, _) =>
    if prot = 0 ∨ (write ∧ hasBits prot Memory.protWrite = false) then s
    else if hasBits flags Memory.mapAnonymous then s
    else
      match file with
      | none => s
      | some file => pageCacheGet s answer file

/-! ## Processes -/

/-- `alloc_proc`. -/
def allocProc (s : Kernel) : Option (Fin maxProc × Kernel) :=
  match (List.finRange maxProc).find? fun i => i.val < s.nproc && (s.procs i).state = .unused with
  | some i => some (i, s)
  | none =>
    if h : s.nproc < maxProc then some (⟨s.nproc, h⟩, { s with nproc := s.nproc + 1 }) else none

/-- `do_fork`. `frames` is whether there are enough free frames. -/
def doFork (s : Kernel) (parent : Fin maxProc) (frames : Bool) : Int × Kernel :=
  if frames = false then (-enomem, s)
  else
    match allocProc s with
    | none => (-eagain, s)
    | some (idx, s) =>
      let s := vmFork s idx parent
      let s := s.setProc idx fun p => { p with state := .runnable }
      (idx.val, copyFds s idx parent)

/-- `do_exec`. `memsz` is the size of the new image, if it could be loaded. -/
def doExec (s : Kernel) (caller : Fin maxProc) (memsz : Option Int) : Kernel :=
  match memsz.bind Memory.execImageEnd with
  | none => s
  | some imageEnd => closeExecFds (vmInit s caller imageEnd) caller

/-- `do_exit`, on descriptors. -/
def doExit (s : Kernel) (caller : Fin maxProc) : Kernel :=
  (clearFds s caller).setProc caller fun p => { p with state := .zombie }

/-- The reaping branch of `do_waitpid`. -/
def reap (s : Kernel) (child : Fin maxProc) : Kernel :=
  (vmRelease s child).setProc child fun p => { p with state := .unused }

/-! ## Runs -/

/-- What a process can do. -/
inductive Call where
  | read (fd : Int) (access : Bool) (len : Int) (io : IoAnswer)
  | write (fd : Int) (access : Bool) (buf : Nat → Byte) (len : Int) (io : IoAnswer)
  | openPath (found : Except Int Vnode) (flags : Word)
  | close (fd : Int)
  | pipe (access : Bool)
  | dup (fd : Int)
  | fcntl (fd command : Int) (argument : Word)
  | socket (domain type protocol : Int)
  | brk (mapped : Int → Bool) (address : Word)
  | mmap (mapped : Int → Bool) (args : Option MmapArgs)
  | munmap (address length : Word)
  | mprotect (address length prot : Word)
  | fault (page : Int) (write : Bool) (answer : FaultAnswer)
  | fork (frames : Bool)
  | exec (memsz : Option Int)
  | exit
  | wait (child : Fin maxProc)

/-- A call that returns. -/
def returned (answer : Int × Kernel) : Option (Option Int × Kernel) := some (some answer.1, answer.2)

/-- One call of a runnable process, with the value it returns unless it sleeps or ends.
There is no next state where a loop over the areas would run out of slots, and where a
child to wait for has not ended. -/
def step (s : Kernel) (caller : Fin maxProc) (call : Call) : Option (Option Int × Kernel) :=
  if (s.procs caller).state ≠ .runnable then none
  else
    match call with
    | .read fd access len io => some (sysRead s caller fd access len io)
    | .write fd access buf len io => some (sysWrite s caller fd access buf len io)
    | .openPath found flags => returned (sysOpen s caller found flags)
    | .close fd => returned (sysClose s caller fd)
    | .pipe access => returned (sysPipe s caller access)
    | .dup fd => returned (sysDup s caller fd)
    | .fcntl fd command argument => returned (sysFcntl s caller fd command argument)
    | .socket domain type protocol => returned (socketCreate s caller domain type protocol)
    | .brk mapped address => returned (vmBrk mapped s caller address.toInt)
    | .mmap mapped args => returned (vmMmap mapped s caller args)
    | .munmap address length => (vmMunmap s caller address length).bind returned
    | .mprotect address length prot => (vmMprotect s caller address length prot).bind returned
    | .fault page write answer => some (none, pageFault s caller page write answer)
    | .fork frames => returned (doFork s caller frames)
    | .exec memsz => some (none, doExec s caller memsz)
    | .exit => some (none, doExit s caller)
    | .wait child =>
      if (s.procs child).state = .zombie then some (some child.val, reap s child) else none

/-- The zeroed tables. -/
def emptyKernel : Kernel where
  procs := fun _ => ⟨.unused, .poll, fun _ => noFile, Memory.emptyVm⟩
  nproc := 0
  openFiles := fun _ => ⟨false, 0, 0, ⟨.disk, 0, .file⟩⟩
  pipes := fun _ => ⟨false, 0, 0, 0, 0, 0, 0, fun _ => 0, [], []⟩
  sockets := fun _ => ⟨false, 0, 0⟩
  pageCache := fun _ => ⟨false, 0⟩
  released := []

/-- The vnode of `/dev/tty`. -/
def ttyNode : Vnode := ⟨.dev, 1, .file⟩

/-- One of the three descriptors of `init_fds`. -/
def initFd (s : Kernel) (idx : Fin maxProc) (fd : Fin nfd) (writable : Bool) : Kernel :=
  match fileSetNode s idx fd ttyNode with
  | none => s
  | some s =>
    let s := s.setFile idx fd
      { (s.procs idx).files fd with readable := !writable, writable := writable }
    fileSetStatusFlags s idx fd (if writable then 1 else 0)

/-- `init_fds`. -/
def initFds (s : Kernel) (idx : Fin maxProc) : Kernel :=
  initFd (initFd (initFd s idx ⟨0, by decide⟩ false) idx ⟨1, by decide⟩ true) idx ⟨2, by decide⟩ true

/-- `setup_process_boot`, for an init program of this size. -/
def setupProcessBoot (imageEnd : Int) : Kernel :=
  match allocProc emptyKernel with
  | none => emptyKernel
  | some (idx, s) =>
    initFds ((vmInit s idx imageEnd).setProc idx fun p => { p with state := .runnable }) idx

/-- The states that calls and interrupts lead to. An interrupt wakes the sleepers on the
terminal or on a socket. -/
inductive Run : Kernel → Prop where
  | boot (memsz imageEnd : Int) (loaded : Memory.execImageEnd memsz = some imageEnd) :
      Run (setupProcessBoot imageEnd)
  | step (s s' : Kernel) (caller : Fin maxProc) (call : Call) (answer : Option Int) (run : Run s)
      (ran : step s caller call = some (answer, s')) : Run s'
  | terminal (s : Kernel) (run : Run s) : Run (wakeup s .kbd)
  | network (s : Kernel) (n : Nat) (run : Run s) : Run (wakeup s (.socket n))

end JsEmulator.Files
