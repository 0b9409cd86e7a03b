import JsEmulator.Process.Scheduler

/-!
# Kernel entries

The system calls that touch the process table, the dispatcher `on_syscall`, and
the other traps. A run of the kernel is a sequence of such entries. Between two of
them the user code of the current process may do anything to its own registers, so
the trapped context is arbitrary.

What a call learns from user memory or from a pipe, a socket, the terminal or the
file system is an answer of the environment; what it then does to processes is the
source's own code.
-/

namespace JsEmulator.Process

/-- The channels that kernel objects wake. Nothing wakes a deadline field. -/
inductive Waker where
  | pipe : Nat → Waker
  | poll : Waker
  | kbd : Waker
  | socket : Nat → Waker
deriving DecidableEq, Repr

def Waker.chan : Waker → Chan
  | .pipe which => .pipe which
  | .poll => .poll
  | .kbd => .kbd
  | .socket which => .socket which

/-- What a call outside the scheduler and signal code may do to this state: wake
object channels, change the caller's descriptors and the terminal's settings. -/
structure Effect where
  wakes : List Waker
  files : List Descriptor
  foreground : Word
  icanon : Bool
  vmin : Word
  vtime : Word

/-- The terminal queue as a read finds it. -/
structure TtyAnswer where
  input : List TtyInput
  inputCount : Word
  eofPending : Bool
  closed : Bool
  taken : Word

/-- Where a read, write or receive leads: it returns, or it is a terminal read, or
it finds an empty (or full) pipe or an empty socket queue. -/
inductive IoAnswer where
  | returns (value : Word) (effect : Effect)
  | tty (answer : TtyAnswer)
  | pipe (pipe : Nat)
  | socket (socket : Nat)

/-- The outcome of building a new image. -/
inductive ExecAnswer where
  | failed (code : Word)
  | loaded (ctx : CpuContext) (effect : Effect)

/-- The answers of user memory and kernel objects during one kernel entry. Each
may depend on the state it is asked in. -/
structure Env where
  copyout : Copyout
  io : Kernel → IoAnswer
  poll : Kernel → Option Word
  timespec : Kernel → Option (Word × Word)
  action : Kernel → Option (Word × Word × Word)
  exec : Kernel → ExecAnswer
  forkRefused : Kernel → Bool
  other : Kernel → Word × Effect

/-- Wake object channels and take over the other changes. -/
def applyEffect (caller : Nat) (e : Effect) (s : Kernel) : Kernel :=
  let woken := e.wakes.foldl (fun s waker => wakeup waker.chan s) s
  let closed := woken.setProc caller (fun p => { p with files := e.files })
  { closed with
    ttyForegroundPgid := e.foreground, ttyIcanon := e.icanon, ttyVmin := e.vmin, ttyVtime := e.vtime }

/-- `sleep` before it switches away. -/
def goToSleep (idx : Nat) (call : Call) (chan : Chan) (s : Kernel) : Kernel :=
  let p := s.procs idx
  (s.setProc idx (fun p => { p with chan := chan, state := .sleeping, call := some call })).record
    (.slept idx call chan p.sleepDeadline p.pollDeadline p.ttyDeadline)

/-- Step back to the `INT` instruction, so that the call is made again. -/
def rewind (idx : Nat) (s : Kernel) : Kernel :=
  s.setProc idx (fun p => { p with ctx := { p.ctx with pc := p.ctx.pc - syscallInstrSize } })

def setResult (idx : Nat) (value : Word) (s : Kernel) : Kernel :=
  s.setProc idx (fun p =>
    { p with ctx := { p.ctx with regs := Function.update p.ctx.regs 0 value } })

/-- A system call's outcome: the value for `R0`, whether `g_noret` was set, and the
state. -/
abbrev Outcome := Option (Word × Bool × Kernel)

/-- `sleep` from inside a handler that has set `g_noret`. -/
def blockOn (env : Env) (fuel idx : Nat) (call : Call) (chan : Chan) (s : Kernel) : Outcome :=
  (switchToNext env.copyout fuel (goToSleep idx call chan s)).map (fun s => (0, true, s))

/-- `sys_nanosleep`. The process has not rewound: it resumes after the `INT`. -/
def sysNanosleep (env : Env) (fuel caller : Nat) (call : Call) (s : Kernel) : Outcome :=
  match env.timespec s with
  | none => some (-efault, false, s)
  | some (seconds, nanoseconds) =>
    if seconds.slt 0 ∨ (1000000#32).slt seconds ∨ nanoseconds.slt 0 ∨
        (1000000000#32).sle nanoseconds then some (-einval, false, s)
    else
      let delay := seconds * ticksPerSec + (nanoseconds + 10000000#32 - 1).sdiv 10000000#32
      if delay = 0 then some (0, false, s)
      else
        let s := s.setProc caller (fun p =>
          { p with sleepDeadline := s.ticks + delay, sleepRemaining := call.argument2 })
        blockOn env fuel caller call (.sleepDeadline caller) s

/-- The `timeout > 0` part of `sys_poll`: the deadline of the first attempt. -/
def pollDeadlineFor (s : Kernel) (p : Proc) (timeout : Word) : Word :=
  if p.pollDeadline = 0 then
    let delay := (timeout * ticksPerSec + 999).sdiv 1000
    s.ticks + (if delay.slt 1 then 1 else delay)
  else p.pollDeadline

/-- `sys_poll`. The environment answers how many descriptors are ready. -/
def sysPoll (env : Env) (fuel caller : Nat) (call : Call) (s : Kernel) : Outcome :=
  let timeout := call.argument3
  if call.argument2.slt 0 ∨ (16#32).slt call.argument2 ∨ timeout.slt (-1) then
    some (-einval, false, s)
  else
    match env.poll s with
    | none => some (-efault, false, s)
    | some ready =>
      if (0#32).slt ready ∨ timeout = 0 then
        some (ready, false, s.setProc caller (fun p =>
          { p with pollDeadline := 0, sleepDeadline := 0 }))
      else if (0#32).slt timeout then
        let deadline := pollDeadlineFor s (s.procs caller) timeout
        if deadline.sle s.ticks then
          some (0, false, s.setProc caller (fun p =>
            { p with pollDeadline := 0, sleepDeadline := 0 }))
        else
          let s := s.setProc caller (fun p =>
            { p with pollDeadline := deadline, sleepDeadline := deadline })
          blockOn env fuel caller call .poll (rewind caller s)
      else
        let s := s.setProc caller (fun p => { p with sleepDeadline := 0 })
        blockOn env fuel caller call .poll (rewind caller s)

/-- The deadline a raw terminal read gives itself, always after the current tick. -/
def ttyDeadlineFor (s : Kernel) : Word :=
  let deadline := s.ticks + (s.ttyVtime * ticksPerSec).sdiv 10
  if deadline.sle s.ticks then s.ticks + 1 else deadline

/-- The blocking part of `tty_read`. -/
def ttyBlock (env : Env) (fuel caller : Nat) (call : Call) (answer : TtyAnswer)
    (minimum : Word) (s : Kernel) : Outcome :=
  if answer.eofPending then some (0, false, s)
  else if answer.closed then some (0, false, s)
  else if s.ttyIcanon = false ∧ minimum = 0 ∧ s.ttyVtime = 0 then some (0, false, s)
  else
    let s :=
      if s.ttyIcanon = false ∧ (0#32).slt s.ttyVtime ∧
          (minimum = 0 ∨ (0#32).slt answer.inputCount) then
        s.setProc caller (fun p =>
          { p with ttyDeadline := ttyDeadlineFor s, sleepDeadline := ttyDeadlineFor s })
      else s
    blockOn env fuel caller call .kbd (rewind caller s)

/-- The end of `tty_read`, after the mark of an expired timer has been taken back:
return nothing after a timeout, block, or take bytes from the queue. -/
def ttyTake (env : Env) (fuel caller : Nat) (call : Call) (answer : TtyAnswer) (minimum : Word)
    (timedOut : Bool) (s : Kernel) : Outcome :=
  if timedOut ∧ answer.inputCount = 0 then some (0, false, s)
  else if answer.inputCount = 0 ∨
      (s.ttyIcanon = false ∧ (0#32).slt minimum ∧ answer.inputCount.slt minimum) then
    ttyBlock env fuel caller call answer minimum s
  else
    some (answer.taken, false, s.setProc caller (fun p =>
      { p with ttyDeadline := 0, sleepDeadline := 0 }))

/-- `tty_read`. -/
def ttyRead (env : Env) (fuel caller : Nat) (call : Call) (answer : TtyAnswer) (s : Kernel) :
    Outcome :=
  let length := call.argument3
  if length = 0 then some (0, false, s)
  else
    let s := kbdDrain answer.input s
    if (s.procs caller).pgid ≠ s.ttyForegroundPgid then
      some (-eintr, false, (sendSignalGroup (s.procs caller).pgid sigttin s).2)
    else
      let minimum := if length.slt s.ttyVmin then length else s.ttyVmin
      let timedOut := (s.procs caller).ttyTimedOut
      ttyTake env fuel caller call answer minimum timedOut
        (if timedOut then
          s.setProc caller (fun p =>
            { p with ttyTimedOut := false, ttyDeadline := 0, sleepDeadline := 0 })
        else s)

/-- `sys_read`, `sys_write`, `socket_recv` and `socket_recvfrom`, up to where they
block. An empty or full pipe and an empty socket queue rewind and sleep. -/
def sysIo (env : Env) (fuel caller : Nat) (call : Call) (s : Kernel) : Outcome :=
  match env.io s with
  | .returns value effect => some (value, false, applyEffect caller effect s)
  | .tty answer => ttyRead env fuel caller call answer s
  | .pipe pipe => blockOn env fuel caller call (.pipe pipe) (rewind caller s)
  | .socket socket => blockOn env fuel caller call (.socket socket) (rewind caller s)

/-- `wait_matches`. -/
def waitMatches (s : Kernel) (parent child : Nat) (pid : Word) : Bool :=
  (s.procs child).parent == some parent &&
  (if (0#32).slt pid then child == pid.toNat
   else if pid = 0 then (s.procs child).pgid == (s.procs parent).pgid
   else if pid.slt (-1) then (s.procs child).pgid == 0 - pid
   else true)

/-- The status of a zombie: the signal that `wait_signal` holds, or the exit code. -/
def exitStatus (p : Proc) : Word :=
  if p.waitSignal ≠ 0 then p.waitSignal else p.exitCode <<< 8

/-- The status of a stop or continue event. -/
def eventStatus (p : Proc) : Word :=
  if p.waitEvent = wuntraced then (p.waitSignal <<< 8) ||| 127 else 65535

/-- The copy of a status to user memory, when there is an address for it. -/
def storeStatus (address : Word) (status : WaitStatus) (s : Kernel) : Kernel :=
  { s with statuses := if address ≠ 0 then status :: s.statuses else s.statuses }

/-- The first child that `do_waitpid` reports, with the state after the report. The
status goes to user memory; when that fails nothing is consumed. -/
def waitScan (env : Env) (parent : Nat) (pid status options : Word) (s : Kernel) :
    List Nat → Option Kernel
  | [] => none
  | i :: rest =>
    let refused := status ≠ 0 ∧ env.copyout s parent status = false
    if waitMatches s parent i pid ∧ (s.procs i).state = .zombie then
      if refused then some (setResult parent (-efault) s)
      else
        let p := s.procs i
        let s := storeStatus status (.ended i p.ending p.paused (exitStatus p)) s
        some (((setResult parent (BitVec.ofNat 32 i) s).setProc i
          (fun p => { p with state := .unused })).note (.reaped parent i p.waitEvent))
    else if waitMatches s parent i pid ∧
        (((s.procs i).waitEvent = wuntraced ∧ options &&& wuntraced ≠ 0) ∨
         ((s.procs i).waitEvent = wcontinued ∧ options &&& wcontinued ≠ 0)) then
      if refused then some (setResult parent (-efault) s)
      else
        let p := s.procs i
        let s := storeStatus status (.event i p.waitEvent (eventStatus p)) s
        some ((setResult parent (BitVec.ofNat 32 i)
          (s.setProc i (fun p => { p with waitEvent := 0 }))).note (.reported parent i p.waitEvent))
    else waitScan env parent pid status options s rest

/-- `do_waitpid`. -/
def doWaitpid (env : Env) (fuel parent : Nat) (call : Call) (pid status options : Word)
    (s : Kernel) : Outcome :=
  match waitScan env parent pid status options s (List.range s.nproc) with
  | some s => some (0, true, s)
  | none =>
    if (List.range s.nproc).any (fun i =>
        waitMatches s parent i pid && (s.procs i).state != .unused) then
      if options &&& wnohang ≠ 0 then some (0, true, setResult parent 0 s)
      else blockOn env fuel parent call (.proc parent) (rewind parent s)
    else some (0, true, setResult parent (-echild) s)

/-- `alloc_proc`. -/
def allocProc (s : Kernel) : Option (Nat × Kernel) :=
  match (List.range s.nproc).find? (fun i => (s.procs i).state == .unused) with
  | some i => some (i, s)
  | none => if maxProc ≤ s.nproc then none else some (s.nproc, { s with nproc := s.nproc + 1 })

/-- The child's record as `fork_process`, `signal_fork_proc` and `do_fork` fill it
over whatever its slot held. -/
def forkedProc (parent : Nat) (p old : Proc) : Proc :=
  { old with
    ctx := { p.ctx with regs := Function.update p.ctx.regs 0 0 }
    pgid := p.pgid
    sid := p.sid
    pendingSignals := 0
    blockedSignals := p.blockedSignals
    inSignal := false
    waitEvent := 0
    waitSignal := 0
    sleepDeadline := 0
    sleepRemaining := 0
    pollDeadline := 0
    ttyDeadline := 0
    ttyTimedOut := false
    signalHandlers := p.signalHandlers
    signalMasks := p.signalMasks
    signalRestorers := p.signalRestorers
    parent := some parent
    state := .runnable
    files := p.files
    frame := none
    call := none
    paused := false
    ending := none }

/-- `do_fork`. -/
def doFork (env : Env) (parent : Nat) (s : Kernel) : Word × Kernel :=
  if env.forkRefused s then (-enomem, s)
  else
    match allocProc s with
    | none => (-eagain, s)
    | some (idx, s) =>
        (BitVec.ofNat 32 idx,
          (s.setProc idx (forkedProc parent (s.procs parent))).note (.forked parent idx))

/-- `signal_exec_proc`. -/
def signalExecProc (p : Proc) : Proc :=
  { p with
    pendingSignals := 0
    inSignal := false
    frame := none
    signalHandlers := fun n =>
      if 1 ≤ n ∧ n < nsig ∧ p.signalHandlers n ≠ sigIgn then sigDfl else p.signalHandlers n
    signalMasks := fun n =>
      if 1 ≤ n ∧ n < nsig ∧ p.signalHandlers n ≠ sigIgn then 0 else p.signalMasks n
    signalRestorers := fun n =>
      if 1 ≤ n ∧ n < nsig ∧ p.signalHandlers n ≠ sigIgn then 0 else p.signalRestorers n }

/-- `do_exec`, which leaves the result in `R0` itself. -/
def doExec (env : Env) (caller : Nat) (s : Kernel) : Kernel :=
  match env.exec s with
  | .failed code => setResult caller code s
  | .loaded ctx effect =>
      applyEffect caller effect (s.setProc caller (fun p => signalExecProc { p with ctx := ctx }))

/-- `sys_sigaction`. -/
def sysSigactionCall (env : Env) (caller : Nat) (call : Call) (s : Kernel) : Word × Kernel :=
  let signal := call.argument1.toNat
  if signal = 0 ∨ nsig ≤ signal then (-einval, s)
  else if call.argument3 ≠ 0 ∧ env.copyout s caller call.argument3 = false then (-efault, s)
  else if call.argument2 = 0 then (0, s)
  else
    match env.action s with
    | none => (-efault, s)
    | some (handler, mask, restorer) =>
      if signalCannotCatch signal ∧ handler ≠ sigDfl then (-einval, s)
      else
        (0, (s.setProc caller (fun p =>
          { p with
            signalHandlers := Function.update p.signalHandlers signal handler
            signalMasks := Function.update p.signalMasks signal mask
            signalRestorers := Function.update p.signalRestorers signal restorer })).note
              (.installed caller signal mask))

/-- `sys_sigprocmask`. -/
def sysSigprocmaskCall (env : Env) (caller : Nat) (call : Call) (s : Kernel) : Word × Kernel :=
  if call.argument3 ≠ 0 ∧ env.copyout s caller call.argument3 = false then (-efault, s)
  else
    let how := call.argument1
    let mask := call.argument2 &&& ~~~(signalBit sigkill) &&& ~~~(signalBit sigstop)
    if how = 0 then
      (0, s.setProc caller (fun p => { p with blockedSignals := p.blockedSignals ||| mask }))
    else if how = 1 then
      (0, s.setProc caller (fun p => { p with blockedSignals := p.blockedSignals &&& ~~~mask }))
    else if how = 2 then (0, s.setProc caller (fun p => { p with blockedSignals := mask }))
    else (-einval, s)

/-- What `sys_sigreturn` puts back. -/
def restoredProc (p : Proc) : Proc :=
  { p with
    ctx := p.signalSavedCtx
    blockedSignals := p.signalSavedMask
    inSignal := false
    frame := none }

/-- `sys_sigreturn`. -/
def sysSigreturn (caller : Nat) (s : Kernel) : Word × Kernel :=
  let p := s.procs caller
  if p.inSignal = false then (-einval, s)
  else
    (0, (s.setProc caller restoredProc).record
      (.restored caller p.signalSavedCtx p.signalSavedMask p.frame))

/-- `sys_setpgid`. -/
def sysSetpgid (caller : Nat) (pid pgid : Word) (s : Kernel) : Word × Kernel :=
  let target := if pid = 0 then caller else pid.toNat
  if s.nproc ≤ target ∨ (s.procs target).state = .unused then (-esrch, s)
  else if target ≠ caller ∧ (s.procs target).parent ≠ some caller then (-eperm, s)
  else if (s.procs target).sid ≠ (s.procs caller).sid then (-eperm, s)
  else
    let pgid := if pgid = 0 then BitVec.ofNat 32 target else pgid
    (0, s.setProc target (fun p => { p with pgid := pgid }))

/-- `sys_setsid`. -/
def sysSetsid (caller : Nat) (s : Kernel) : Word × Kernel :=
  let self := BitVec.ofNat 32 caller
  if (List.range s.nproc).any (fun i =>
      (s.procs i).state != .unused && (s.procs i).pgid == self) then (-eperm, s)
  else (self, s.setProc caller (fun p => { p with sid := self, pgid := self }))

/-- A call whose value `on_syscall` stores in `R0`. -/
def returning (result : Word × Kernel) : Outcome := some (result.1, false, result.2)

/-- `syscall_table[num]`. The calls that only move data are one case. -/
def serve (env : Env) (fuel caller : Nat) (call : Call) (s : Kernel) : Outcome :=
  if call.number = sysExit then
    (switchToNext env.copyout fuel (doExit caller call.argument1 s)).map (fun s => (0, true, s))
  else if call.number = sysYield then
    (switchToNext env.copyout fuel s).map (fun s => (0, false, s))
  else if call.number = sysFork then returning (doFork env caller s)
  else if call.number = sysExec then some (0, true, doExec env caller s)
  else if call.number = sysWait then doWaitpid env fuel caller call (-1) call.argument1 0 s
  else if call.number = sysWaitpid then
    doWaitpid env fuel caller call call.argument1 call.argument2 call.argument3 s
  else if call.number = sysKill then
    returning (sendSignalSelector caller call.argument1 call.argument2.toNat s)
  else if call.number = sysSigaction then returning (sysSigactionCall env caller call s)
  else if call.number = sysSigprocmask then returning (sysSigprocmaskCall env caller call s)
  else if call.number = sysSigreturnNumber then
    some ((sysSigreturn caller s).1, decide ((sysSigreturn caller s).1 = 0),
      (sysSigreturn caller s).2)
  else if call.number = sysSetpgidNumber then
    returning (sysSetpgid caller call.argument1 call.argument2 s)
  else if call.number = sysSetsidNumber then returning (sysSetsid caller s)
  else if call.number = sysNanosleepNumber then sysNanosleep env fuel caller call s
  else if call.number = sysPollNumber then sysPoll env fuel caller call s
  else if call.number = sysRead ∨ call.number = sysWrite ∨ call.number = sysRecv ∨
      call.number = sysRecvfrom then sysIo env fuel caller call s
  else returning ((env.other s).1, applyEffect caller (env.other s).2 s)

/-- `save_ctx`. A process that traps has run since it last slept. -/
def saveCtx (idx : Nat) (trap : CpuContext) (s : Kernel) : Kernel :=
  s.setProc idx (fun p => { p with ctx := trap, call := none })

/-- `load_ctx` of the current process. -/
def loadCtx (s : Kernel) : Kernel := noteResumed s.current (s.procs s.current).ctx s

/-- The end of every trap: deliver signals and return to user mode. -/
def returnToUser (env : Env) (fuel : Nat) (s : Kernel) : Option Kernel :=
  (prepareSignal env.copyout fuel s.current s).map loadCtx

/-- The call a trapped context makes. -/
def callOf (trap : CpuContext) : Call :=
  { intAddress := trap.pc - syscallInstrSize
    number := trap.regs 0
    argument1 := trap.regs 1
    argument2 := trap.regs 2
    argument3 := trap.regs 3 }

/-- `on_syscall`. -/
def onSyscall (env : Env) (fuel : Nat) (trap : CpuContext) (s : Kernel) : Option Kernel :=
  let caller := s.current
  match serve env fuel caller (callOf trap) (saveCtx caller trap s) with
  | none => none
  | some (value, noret, s) =>
      returnToUser env fuel (if noret then s else setResult caller value s)

/-- `on_timer`. -/
def onTimer (env : Env) (fuel : Nat) (trap : CpuContext) (s : Kernel) : Option Kernel :=
  let s := expireSleepers (saveCtx s.current trap { s with ticks := s.ticks + 1 })
  match schedule s with
  | none => none
  | some next => returnToUser env fuel { s with current := next }

/-- `on_page_fault`. A fault that paging resolves goes straight back. -/
def onPageFault (env : Env) (fuel : Nat) (trap : CpuContext) (resolved : Bool) (s : Kernel) :
    Option Kernel :=
  let s := saveCtx s.current trap s
  if resolved then some (loadCtx s)
  else returnToUser env fuel (sendSignal s.current sigsegv s).2

/-- One kernel entry. -/
inductive Entry where
  | syscall (env : Env) (fuel : Nat) (trap : CpuContext)
  | timer (env : Env) (fuel : Nat) (trap : CpuContext)
  | pageFault (env : Env) (fuel : Nat) (trap : CpuContext) (resolved : Bool)
  | irq (irq : Irq)
  | arrival (irqs : List (List Irq))

/-- The state after an entry, when it returns. `arrival` changes only which
interrupts are still to come. -/
def step (s : Kernel) : Entry → Option Kernel
  | .syscall env fuel trap => onSyscall env fuel trap s
  | .timer env fuel trap => onTimer env fuel trap s
  | .pageFault env fuel trap resolved => onPageFault env fuel trap resolved s
  | .irq irq => some (handleIrq s irq)
  | .arrival irqs => some { s with irqs := irqs }

/-- A slot of the zeroed `proc_table`. -/
def emptyProc : Proc where
  state := .unused
  parent := some 0
  exitCode := 0
  chan := .poll
  pgid := 0
  sid := 0
  pendingSignals := 0
  blockedSignals := 0
  signalHandlers := fun _ => 0
  signalMasks := fun _ => 0
  signalRestorers := fun _ => 0
  inSignal := false
  signalSavedMask := 0
  signalSavedCtx := ⟨fun _ => 0, 0, 0, 0, 0⟩
  waitEvent := 0
  waitSignal := 0
  sleepDeadline := 0
  sleepRemaining := 0
  pollDeadline := 0
  ttyDeadline := 0
  ttyTimedOut := false
  ctx := ⟨fun _ => 0, 0, 0, 0, 0⟩
  files := []
  frame := none
  call := none
  paused := false
  ending := none

/-- The state in which `kmain` hands the processor to init: slot 0 as
`setup_process_boot` leaves it, and the terminal as `tty_init` does. -/
def booted (ctx : CpuContext) : Kernel where
  procs := Function.update (fun _ => emptyProc) 0
    { emptyProc with state := .runnable, parent := none, ctx := ctx, files := [.other, .other, .other] }
  nproc := 1
  current := 0
  ticks := 0
  ttyForegroundPgid := 0
  ttyIcanon := true
  ttyVmin := 1
  ttyVtime := 0
  irqs := []
  log := []
  history := []
  statuses := []

/-- The states that runs from boot reach. -/
inductive Reachable : Kernel → Prop where
  | boot (ctx : CpuContext) : Reachable (booted ctx)
  | step (s t : Kernel) (e : Entry) (before : Reachable s) (entered : step s e = some t) :
      Reachable t

end JsEmulator.Process
