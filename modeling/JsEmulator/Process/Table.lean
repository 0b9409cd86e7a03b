import JsEmulator.Library.WordMemory
import Mathlib.Logic.Function.Basic

/-!
# The process table of the guest kernel

One record per slot of `proc_table`, with the fields that the scheduler, the
signal code and the blocking system calls read or write. A C `int` is a 32-bit
word; its order is the signed one. Wait channels are object addresses in the
source, used only for equality, so each kind of object has its own constructor.

The bytes behind a user pointer, the contents of pipes, sockets and the terminal
queue, and the arrival of interrupts are answers of an environment. Every result
below holds for all answers it may give.

The two histories at the end of the state are read by no kernel decision.
-/

namespace JsEmulator.Process

/-- A C `int` of the custom32 ABI. -/
abbrev Word := BitVec 32

/-- `CFG_SYSCALL_INSTR_SIZE`, the length of the `INT` instruction. -/
def syscallInstrSize : Word := 5

def eperm : Word := 1
def eintr : Word := 4
def echild : Word := 10
def efault : Word := 14
def esrch : Word := 3
def eagain : Word := 11
def enomem : Word := 12
def einval : Word := 22
def sysExit : Word := 0
def sysWrite : Word := 1
def sysYield : Word := 2
def sysFork : Word := 4
def sysExec : Word := 5
def sysWait : Word := 6
def sysRead : Word := 9
def sysKill : Word := 15
def sysSigaction : Word := 16
def sysSigprocmask : Word := 17
def sysSigreturnNumber : Word := 18
def sysWaitpid : Word := 19
def sysSetpgidNumber : Word := 20
def sysSetsidNumber : Word := 21
def sysNanosleepNumber : Word := 25
def sysIoctl : Word := 31
def sysPollNumber : Word := 51
def sysRecv : Word := 58
def sysRecvfrom : Word := 61

/-- `CFG_NSIG`, the number of signal slots, and the signals the kernel names. -/
def nsig : Nat := 32
def sigkill : Nat := 9
def sigsegv : Nat := 11
def sigchld : Nat := 17
def sigcont : Nat := 18
def sigstop : Nat := 19
def sigtstp : Nat := 20
def sigttin : Nat := 21
def sigttou : Nat := 22

/-- The two handler values that are not addresses. -/
def sigDfl : Word := 0
def sigIgn : Word := 1

def wnohang : Word := 1
def wuntraced : Word := 2
def wcontinued : Word := 4

/-- `CFG_TICKS_PER_SEC`. -/
def ticksPerSec : Word := 100

/-- `CFG_MAX_PROC`, the length of `proc_table`. -/
def maxProc : Nat := 8

/-- `proc.state`. -/
inductive RunState where
  | unused
  | runnable
  | zombie
  | sleeping
  | stopped
deriving DecidableEq, Repr

/-- The object addresses that processes sleep on. `sleepDeadline` is the address
of the process's own deadline field, on which nothing calls `wakeup`. -/
inductive Chan where
  | pipe : Nat → Chan
  | proc : Nat → Chan
  | sleepDeadline : Nat → Chan
  | poll : Chan
  | kbd : Chan
  | socket : Nat → Chan
deriving DecidableEq, Repr

/-- `struct cpu_context`. -/
structure CpuContext where
  regs : Fin 8 → Word
  pc : Word
  sp : Word
  flags : Word
  mode : Word
deriving DecidableEq

/-- What closing a descriptor can wake: a pipe end wakes its pipe and the
pollers, a socket the pollers, anything else nobody. -/
inductive Descriptor where
  | pipe : Nat → Descriptor
  | socket : Descriptor
  | other : Descriptor
deriving DecidableEq, Repr

/-- A system call as the user issued it: the address of its `INT` instruction and
the four argument registers there. -/
structure Call where
  intAddress : Word
  number : Word
  argument1 : Word
  argument2 : Word
  argument3 : Word
deriving DecidableEq, Repr

/-- How a process ended: by calling `exit`, by a signal whose action is the default one,
or because the frame of a handler could not be built. -/
inductive Ending where
  | exited (code : Word)
  | killed (signal : Nat)
  | unframed
deriving DecidableEq, Repr

/-- `struct proc`. The last four fields are history: `frame` is the context and
mask the process had when a handler was entered, until its `sigreturn`, `call` is the
system call it went to sleep in, until it runs again, `paused` is whether it has been
stopped or continued since it was forked, and `ending` is how it ended. -/
structure Proc where
  state : RunState
  parent : Option Nat
  exitCode : Word
  chan : Chan
  pgid : Word
  sid : Word
  pendingSignals : Word
  blockedSignals : Word
  signalHandlers : Nat → Word
  signalMasks : Nat → Word
  signalRestorers : Nat → Word
  inSignal : Bool
  signalSavedMask : Word
  signalSavedCtx : CpuContext
  waitEvent : Word
  waitSignal : Word
  sleepDeadline : Word
  sleepRemaining : Word
  pollDeadline : Word
  ttyDeadline : Word
  ttyTimedOut : Bool
  ctx : CpuContext
  files : List Descriptor
  frame : Option (CpuContext × Word)
  call : Option Call
  paused : Bool
  ending : Option Ending

/-- What the history records.

`delivered` is a caught signal entering its handler, with the guard field as it
was. `continued` is the loop of `prepare_signal` going on with the process it has
switched to. `restored` is a completed `sigreturn`. `slept` is a process going to
sleep, with its three deadlines as they stand. `expired` is a deadline that has
come. `resumed` is a process that slept in a call getting its context back, either
loaded into the processor or saved for the return from a handler. -/
inductive Event where
  | delivered (idx : Nat) (inSignal : Bool) (frame : Option (CpuContext × Word))
  | continued (idx : Nat) (inSignal : Bool) (deliverable : Nat)
  | restored (idx : Nat) (ctx : CpuContext) (mask : Word) (frame : Option (CpuContext × Word))
  | slept (idx : Nat) (call : Call) (chan : Chan) (sleepDeadline pollDeadline ttyDeadline : Word)
  | expired (idx : Nat) (pollDeadline ttyDeadline : Word)
  | resumed (idx : Nat) (call : Call) (ctx : CpuContext)

/-- What the second history records: parents and children, and installed masks.

`forked` is a child getting its slot, `exited` a process becoming a zombie, `stopped`
and `continued` a `wait_event` being set. `reaped` is a `waitpid` that returns a
zombie and frees its slot, with the `wait_event` left behind in it; `reported` is one
that returns a stop or continue event and takes it back. `installed` is a `sigaction`
that stores an action with its mask. -/
inductive ProcEvent where
  | forked (parent child : Nat)
  | exited (child : Nat)
  | stopped (child : Nat)
  | continued (child : Nat)
  | reaped (parent child : Nat) (waitEvent : Word)
  | reported (parent child : Nat) (waitEvent : Word)
  | installed (idx signal : Nat) (mask : Word)
deriving DecidableEq, Repr

/-- A status that `waitpid` stores for a parent: that of a process that has ended, with
its history as it was, or that of a stop or continue event. -/
inductive WaitStatus where
  | ended (child : Nat) (ending : Option Ending) (paused : Bool) (value : Word)
  | event (child : Nat) (waitEvent value : Word)
deriving DecidableEq, Repr

/-- One thing the terminal driver does while it drains its device: a control
character signals the foreground group, a byte is queued, a raw byte restarts the
inter-byte timers, or input is closed. -/
inductive TtyInput where
  | signal (number : Nat)
  | queued
  | interbyte
  | closed
deriving DecidableEq, Repr

/-- An interrupt that ends a halt: keyboard input or received datagrams. -/
inductive Irq where
  | keyboard (input : List TtyInput)
  | network (sockets : List Nat)
deriving DecidableEq, Repr

/-- The kernel's process-related globals, the three terminal settings that
blocking reads use, the interrupts still to come while it idles, the two histories and
the statuses stored for parents (latest first). -/
structure Kernel where
  procs : Nat → Proc
  nproc : Nat
  current : Nat
  ticks : Word
  ttyForegroundPgid : Word
  ttyIcanon : Bool
  ttyVmin : Word
  ttyVtime : Word
  irqs : List (List Irq)
  log : List Event
  history : List ProcEvent
  statuses : List WaitStatus

/-- Update one slot of the table. -/
def Kernel.setProc (s : Kernel) (idx : Nat) (f : Proc → Proc) : Kernel :=
  { s with procs := Function.update s.procs idx (f (s.procs idx)) }

/-- Append one event to the history. -/
def Kernel.record (s : Kernel) (e : Event) : Kernel := { s with log := e :: s.log }

/-- Append one event to the second history. -/
def Kernel.note (s : Kernel) (e : ProcEvent) : Kernel := { s with history := e :: s.history }

@[simp] theorem set_proc_same (s : Kernel) (idx : Nat) (f : Proc → Proc) :
    (s.setProc idx f).procs idx = f (s.procs idx) := by
  simp [Kernel.setProc]

theorem set_proc_other (s : Kernel) (idx other : Nat) (f : Proc → Proc)
    (different : other ≠ idx) : (s.setProc idx f).procs other = s.procs other := by
  simp [Kernel.setProc, different]

theorem set_proc_procs (s : Kernel) (idx other : Nat) (f : Proc → Proc) :
    (s.setProc idx f).procs other = if other = idx then f (s.procs idx) else s.procs other := by
  by_cases same : other = idx
  · subst same
    simp
  · simp [set_proc_other s idx other f same, same]

@[simp] theorem set_proc_log (s : Kernel) (idx : Nat) (f : Proc → Proc) :
    (s.setProc idx f).log = s.log := rfl

@[simp] theorem set_proc_history (s : Kernel) (idx : Nat) (f : Proc → Proc) :
    (s.setProc idx f).history = s.history := rfl

@[simp] theorem set_proc_statuses (s : Kernel) (idx : Nat) (f : Proc → Proc) :
    (s.setProc idx f).statuses = s.statuses := rfl

@[simp] theorem set_proc_nproc (s : Kernel) (idx : Nat) (f : Proc → Proc) :
    (s.setProc idx f).nproc = s.nproc := rfl

@[simp] theorem set_proc_current (s : Kernel) (idx : Nat) (f : Proc → Proc) :
    (s.setProc idx f).current = s.current := rfl

@[simp] theorem set_proc_ticks (s : Kernel) (idx : Nat) (f : Proc → Proc) :
    (s.setProc idx f).ticks = s.ticks := rfl

@[simp] theorem record_procs (s : Kernel) (e : Event) : (s.record e).procs = s.procs := rfl

@[simp] theorem record_log (s : Kernel) (e : Event) : (s.record e).log = e :: s.log := rfl

@[simp] theorem record_current (s : Kernel) (e : Event) : (s.record e).current = s.current := rfl

@[simp] theorem record_nproc (s : Kernel) (e : Event) : (s.record e).nproc = s.nproc := rfl

@[simp] theorem record_history (s : Kernel) (e : Event) : (s.record e).history = s.history := rfl

@[simp] theorem note_procs (s : Kernel) (e : ProcEvent) : (s.note e).procs = s.procs := rfl

@[simp] theorem note_history (s : Kernel) (e : ProcEvent) :
    (s.note e).history = e :: s.history := rfl

end JsEmulator.Process
