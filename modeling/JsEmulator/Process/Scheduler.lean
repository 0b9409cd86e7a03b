import JsEmulator.Process.Table

/-!
# Scheduling and signals

The functions of `scheduler.c`, `signal.c` and the exit path of `process.c`.
`switch_to_next` ends by calling `prepare_signal`, and `prepare_signal` calls
`switch_to_next` after it has stopped or killed the process it works on. The loop
of `prepare_signal` is therefore written with its own recursive call as an
argument and closed by a bound on the number of turns; a bound that runs out gives
no result, as does a machine that halts with nothing left to wake it.
-/

namespace JsEmulator.Process

/-- `signal_bit`. -/
def signalBit (signal : Nat) : Word := 1#32 <<< signal

/-- `signal_cannot_catch`. -/
def signalCannotCatch (signal : Nat) : Bool := signal == sigkill || signal == sigstop

/-- `default_ignored`. -/
def defaultIgnored (signal : Nat) : Bool := signal == sigchld || signal == sigcont

/-- `default_stops`. -/
def defaultStops (signal : Nat) : Bool :=
  signal == sigstop || signal == sigtstp || signal == sigttin || signal == sigttou

/-- `schedule`: the first runnable slot after the current one, round robin. -/
def schedule (s : Kernel) : Option Nat :=
  ((List.range s.nproc).map (fun n => (s.current + 1 + n) % s.nproc)).find?
    (fun idx => (s.procs idx).state == .runnable)

/-- `wakeup`: every process sleeping on the channel becomes runnable. -/
def wakeup (chan : Chan) (s : Kernel) : Kernel :=
  { s with procs := fun i =>
      if i < s.nproc ∧ (s.procs i).state = .sleeping ∧ (s.procs i).chan = chan then
        { s.procs i with state := .runnable }
      else s.procs i }

/-- `poll_wakeup`. -/
def pollWakeup (s : Kernel) : Kernel := wakeup .poll s

/-- A sleeper whose deadline has come, in the order of C `int`s. -/
def due (s : Kernel) (p : Proc) : Bool :=
  p.state == .sleeping && p.sleepDeadline != 0 && p.sleepDeadline.sle s.ticks

/-- What the timer does to one due sleeper. A poll advances past its `INT`; a
terminal read is only marked; both get a zero in `R0`. -/
def expireProc (p : Proc) : Proc :=
  let p :=
    if p.pollDeadline ≠ 0 then
      { p with ctx := { p.ctx with pc := p.ctx.pc + syscallInstrSize }, pollDeadline := 0 }
    else if p.ttyDeadline ≠ 0 then { p with ttyDeadline := 0, ttyTimedOut := true }
    else p
  { p with
    sleepDeadline := 0
    sleepRemaining := 0
    ctx := { p.ctx with regs := Function.update p.ctx.regs 0 0 }
    state := .runnable }

@[simp] theorem expire_proc_state (p : Proc) : (expireProc p).state = .runnable := rfl

@[simp] theorem expire_proc_r0 (p : Proc) : (expireProc p).ctx.regs 0 = 0 := by
  simp [expireProc]

@[simp] theorem expire_proc_call (p : Proc) : (expireProc p).call = p.call := by
  simp only [expireProc]
  split <;> [rfl; split <;> rfl]

/-- Only a poll moves past its `INT` when its time is up. -/
theorem expire_proc_pc (p : Proc) : (expireProc p).ctx.pc =
    if p.pollDeadline ≠ 0 then p.ctx.pc + syscallInstrSize else p.ctx.pc := by
  simp only [expireProc]
  split <;> [rfl; split <;> rfl]

/-- The loop that `on_timer` and the idle fast-forward share. -/
def expireSleepers (s : Kernel) : Kernel :=
  { s with
    procs := fun i => if i < s.nproc ∧ due s (s.procs i) then expireProc (s.procs i) else s.procs i
    log := ((List.range s.nproc).filter (fun i => due s (s.procs i))).map
      (fun i => .expired i (s.procs i).pollDeadline (s.procs i).ttyDeadline) ++ s.log }

/-- `notify_parent`. -/
def notifyParent (idx : Nat) (s : Kernel) : Kernel :=
  match (s.procs idx).parent with
  | none => s
  | some parent =>
      wakeup (.proc parent) (s.setProc parent (fun p =>
        { p with pendingSignals := p.pendingSignals ||| signalBit sigchld }))

/-- The part of `send_signal` that interrupts a sleeper: resume after the `INT`
with `-EINTR`. A sleep whose deadline is the only one set has not rewound. The
copy of the remaining time goes to user memory and changes nothing here. -/
def interruptSleeper (p : Proc) : Proc :=
  let p :=
    if p.sleepDeadline ≠ 0 then
      let p := { p with sleepDeadline := 0, sleepRemaining := 0 }
      if p.pollDeadline ≠ 0 then
        { p with pollDeadline := 0, ctx := { p.ctx with pc := p.ctx.pc + syscallInstrSize } }
      else if p.ttyDeadline ≠ 0 then
        { p with
          ttyDeadline := 0
          ttyTimedOut := false
          ctx := { p.ctx with pc := p.ctx.pc + syscallInstrSize } }
      else p
    else { p with ctx := { p.ctx with pc := p.ctx.pc + syscallInstrSize } }
  { p with
    ctx := { p.ctx with regs := Function.update p.ctx.regs 0 (-eintr) }
    state := .runnable }

@[simp] theorem interrupt_sleeper_state (p : Proc) :
    (interruptSleeper p).state = .runnable := rfl

@[simp] theorem interrupt_sleeper_r0 (p : Proc) :
    (interruptSleeper p).ctx.regs 0 = -eintr := by
  simp [interruptSleeper]

@[simp] theorem interrupt_sleeper_call (p : Proc) : (interruptSleeper p).call = p.call := by
  simp only [interruptSleeper]
  split <;> [split <;> [rfl; split <;> rfl]; rfl]

/-- A sleeper is taken to be past its `INT` already when its sleep deadline is the
only one set. -/
theorem interrupt_sleeper_pc (p : Proc) : (interruptSleeper p).ctx.pc =
    if p.sleepDeadline ≠ 0 ∧ p.pollDeadline = 0 ∧ p.ttyDeadline = 0 then p.ctx.pc
    else p.ctx.pc + syscallInstrSize := by
  by_cases sleep : p.sleepDeadline = 0
  · simp only [interruptSleeper, sleep, ne_eq, not_true, if_false, false_and]
  by_cases poll : p.pollDeadline = 0
  · by_cases tty : p.ttyDeadline = 0
    · simp only [interruptSleeper, sleep, poll, tty, ne_eq, not_true, not_false_eq_true, if_true,
        if_false, and_self]
    · simp only [interruptSleeper, sleep, poll, tty, ne_eq, not_true, not_false_eq_true, if_true,
        if_false, and_false]
  · simp only [interruptSleeper, sleep, poll, ne_eq, not_false_eq_true, if_true, if_false,
      false_and, and_false]

/-- Whether a signal interrupts a sleeping process: it is not blocked, and its
action is neither to be ignored nor ignored by default. -/
def interrupts (p : Proc) (signal : Nat) : Bool :=
  p.state == .sleeping &&
  (signalCannotCatch signal || (p.blockedSignals &&& signalBit signal) == 0) &&
  p.signalHandlers signal != sigIgn &&
  !(p.signalHandlers signal == sigDfl && defaultIgnored signal)

/-- `send_signal`. -/
def sendSignal (idx signal : Nat) (s : Kernel) : Word × Kernel :=
  if s.nproc ≤ idx ∨ (s.procs idx).state = .unused then (-esrch, s)
  else if nsig ≤ signal then (-einval, s)
  else if signal = 0 then (0, s)
  else
    let s :=
      if signal = sigcont ∧ (s.procs idx).state = .stopped then
        (notifyParent idx (s.setProc idx (fun p =>
          { p with
            state := .runnable
            waitEvent := wcontinued
            waitSignal := BitVec.ofNat 32 signal
            paused := true }))).note (.continued idx)
      else s
    let s := s.setProc idx (fun p =>
      { p with pendingSignals := p.pendingSignals ||| signalBit signal })
    let s := if interrupts (s.procs idx) signal then s.setProc idx interruptSleeper else s
    let s :=
      if (s.procs idx).state = .stopped ∧ (signal = sigkill ∨ signal = sigcont) then
        s.setProc idx (fun p => { p with state := .runnable })
      else s
    (0, s)

/-- `send_signal_group`; also the loop of `send_signal_selector` over everybody,
with the group test left out. -/
def sendSignalTo (member : Proc → Bool) (signal : Nat) (s : Kernel) : Word × Kernel :=
  (List.range s.nproc).foldl (fun (found, s) i =>
    if (s.procs i).state ≠ .unused ∧ member (s.procs i) then (0, (sendSignal i signal s).2)
    else (found, s)) (-esrch, s)

/-- `send_signal_group`. -/
def sendSignalGroup (pgid : Word) (signal : Nat) (s : Kernel) : Word × Kernel :=
  sendSignalTo (fun p => p.pgid == pgid) signal s

/-- `send_signal_selector`, the four readings of the pid argument. -/
def sendSignalSelector (caller : Nat) (pid : Word) (signal : Nat) (s : Kernel) : Word × Kernel :=
  if nsig ≤ signal then (-einval, s)
  else if (0#32).slt pid then sendSignal pid.toNat signal s
  else if pid = 0 then sendSignalGroup (s.procs caller).pgid signal s
  else if pid.slt (-1) then sendSignalGroup (0 - pid) signal s
  else sendSignalTo (fun _ => true) signal s

/-- The delay of `tty_reset_interbyte_deadlines`, at least one tick. -/
def interbyteDelay (vtime : Word) : Word :=
  let delay := (vtime * ticksPerSec).sdiv 10
  if delay.slt 1 then 1 else delay

/-- `tty_reset_interbyte_deadlines`. -/
def resetInterbyteDeadlines (s : Kernel) : Kernel :=
  { s with procs := fun i =>
      if i < s.nproc ∧ (s.procs i).state = .sleeping ∧ (s.procs i).chan = .kbd ∧
          (s.procs i).ttyDeadline ≠ 0 then
        { s.procs i with
          ttyDeadline := s.ticks + interbyteDelay s.ttyVtime
          sleepDeadline := s.ticks + interbyteDelay s.ttyVtime }
      else s.procs i }

/-- The effects `tty_receive` and `tty_close_input` have on processes. -/
def ttyReceive (s : Kernel) : TtyInput → Kernel
  | .signal number => (sendSignalGroup s.ttyForegroundPgid number s).2
  | .queued => pollWakeup s
  | .interbyte => resetInterbyteDeadlines s
  | .closed => pollWakeup s

/-- `kbd_drain` over the input the device has. -/
def kbdDrain (input : List TtyInput) (s : Kernel) : Kernel := input.foldl ttyReceive s

/-- `on_keyboard_irq` and `on_network_irq`. -/
def handleIrq (s : Kernel) : Irq → Kernel
  | .keyboard input => wakeup .kbd (kbdDrain input s)
  | .network sockets => sockets.foldl (fun s socket => pollWakeup (wakeup (.socket socket) s)) s

/-- The least deadline of a sleeper, zero when there is none. -/
def nextDeadline (s : Kernel) : Word :=
  (List.range s.nproc).foldl (fun deadline i =>
    if (s.procs i).state = .sleeping ∧ (s.procs i).sleepDeadline ≠ 0 ∧
        (deadline = 0 ∨ (s.procs i).sleepDeadline.slt deadline) then (s.procs i).sleepDeadline
    else deadline) 0

/-- Whether some process can still be woken. -/
def anyBlocked (s : Kernel) : Bool :=
  (List.range s.nproc).any (fun i =>
    (s.procs i).state == .sleeping || (s.procs i).state == .stopped)

/-- The loop of `switch_to_next` up to its choice of a process. With nothing
runnable it moves the clock to the next deadline, else halts until an interrupt. -/
def idle : Nat → Kernel → Option (Nat × Kernel)
  | 0, _ => none
  | fuel + 1, s =>
    match schedule s with
    | some next => some (next, s)
    | none =>
      if anyBlocked s then
        let deadline := nextDeadline s
        let s := if deadline ≠ 0 then expireSleepers { s with ticks := deadline } else s
        match schedule s with
        | some next => some (next, s)
        | none =>
          match s.irqs with
          | [] => none
          | burst :: rest => idle fuel (burst.foldl handleIrq { s with irqs := rest })
      else none

/-- `clear_fds`: closing a pipe end wakes the pipe and the pollers, closing a
socket the pollers. -/
def clearFds (idx : Nat) (s : Kernel) : Kernel :=
  let closed := (s.procs idx).files.foldl (fun s file =>
    match file with
    | .pipe pipe => pollWakeup (wakeup (.pipe pipe) s)
    | .socket => pollWakeup s
    | .other => s) s
  closed.setProc idx (fun p => { p with files := [] })

/-- The children a dying process leaves behind. -/
def orphaned (s : Kernel) (idx i : Nat) : Bool :=
  decide (i < s.nproc) && (s.procs i).parent == some idx && (s.procs i).state != .unused

/-- The adoption loop of `do_exit`: orphans go to slot 0, which is woken if one of
them is a zombie. -/
def adoptOrphans (idx : Nat) (s : Kernel) : Kernel :=
  let adopted := { s with procs := fun i =>
    if (orphaned s idx i) then { s.procs i with parent := some 0 } else (s.procs i) }
  if (List.range s.nproc).any (fun i => orphaned s idx i && (s.procs i).state == .zombie) then
    wakeup (.proc 0) adopted
  else adopted

/-- `do_exit`. -/
def doExit (idx : Nat) (code : Word) (s : Kernel) : Kernel :=
  let s := s.setProc idx (fun p => { p with exitCode := code, ending := some (.exited code) })
  let s := clearFds idx s
  let s := s.setProc idx (fun p => { p with state := .zombie })
  (adoptOrphans idx (notifyParent idx s)).note (.exited idx)

/-- `next_deliverable_signal`, zero when there is none. -/
def nextDeliverableSignal (p : Proc) : Nat :=
  ((List.range' 1 31).find? (fun signal =>
    (p.pendingSignals &&& ~~~p.blockedSignals).getLsbD signal)).getD 0

/-- `stop_process`. -/
def stopProcess (idx signal : Nat) (s : Kernel) : Kernel :=
  (notifyParent idx (s.setProc idx (fun p =>
    { p with
      state := .stopped
      waitEvent := wuntraced
      waitSignal := BitVec.ofNat 32 signal
      paused := true }))).note (.stopped idx)

/-- `do_exit` of a process whose handler has no restorer or no room for its frame. -/
def exitUnframed (idx : Nat) (s : Kernel) : Kernel :=
  (doExit idx (BitVec.ofNat 32 (128 + sigsegv)) s).setProc idx
    (fun p => { p with ending := some .unframed })

/-- Saving the interrupted context and raising the mask, before the handler's
return address is pushed. -/
def frameProc (signal : Nat) (p : Proc) : Proc :=
  { p with
    signalSavedCtx := p.ctx
    signalSavedMask := p.blockedSignals
    inSignal := true
    blockedSignals := p.blockedSignals ||| p.signalMasks signal ||| signalBit signal
    frame := some (p.ctx, p.blockedSignals) }

/-- The part of `prepare_signal` that builds the frame. -/
def enterHandler (idx signal : Nat) (s : Kernel) : Kernel :=
  (s.setProc idx (frameProc signal)).record
    (.delivered idx (s.procs idx).inSignal (s.procs idx).frame)

/-- A process that slept in a call gets its context back. -/
def noteResumed (idx : Nat) (ctx : CpuContext) (s : Kernel) : Kernel :=
  match (s.procs idx).call with
  | none => s
  | some call => (s.setProc idx (fun p => { p with call := none })).record (.resumed idx call ctx)

/-- The registers at handler entry. -/
def startHandler (idx signal : Nat) (handler sp : Word) (s : Kernel) : Kernel :=
  s.setProc idx (fun p =>
    { p with ctx :=
      { p.ctx with
        sp := sp
        pc := handler
        regs := Function.update p.ctx.regs 0 (BitVec.ofNat 32 signal) } })

/-- `copyout` to a user stack succeeds or not, as user memory decides. -/
abbrev Copyout := Kernel → Nat → Word → Bool

/-- `prepare_signal` around its loop: nothing is delivered to a process that is
not runnable or is inside a handler. -/
def enterPrepare (loop : Nat → Kernel → Option Kernel) (idx : Nat) (s : Kernel) :
    Option Kernel :=
  if (s.procs idx).state ≠ .runnable ∨ (s.procs idx).inSignal then some s else loop idx s

/-- `switch_to_next`, given the loop of `prepare_signal`. -/
def switchWith (loop : Nat → Kernel → Option Kernel) (fuel : Nat) (s : Kernel) : Option Kernel :=
  match idle fuel s with
  | none => none
  | some (next, s) => enterPrepare loop next { s with current := next }

/-- `switch_to_next(); idx = current; continue;` inside the loop. -/
def switchAndContinue (loop : Nat → Kernel → Option Kernel) (fuel : Nat) (s : Kernel) :
    Option Kernel :=
  match switchWith loop fuel s with
  | none => none
  | some s =>
      loop s.current (s.record (.continued s.current (s.procs s.current).inSignal
        (nextDeliverableSignal (s.procs s.current))))

/-- One turn of the loop of `prepare_signal`. -/
def prepareTurn (copyout : Copyout) (loop : Nat → Kernel → Option Kernel) (fuel idx : Nat)
    (s : Kernel) : Option Kernel :=
  let signal := nextDeliverableSignal (s.procs idx)
  if signal = 0 then some s
  else
    let s := s.setProc idx (fun p =>
      { p with pendingSignals := p.pendingSignals &&& ~~~(signalBit signal) })
    let handler := (s.procs idx).signalHandlers signal
    if handler = sigIgn ∧ ¬ signalCannotCatch signal then loop idx s
    else if handler = sigDfl ∨ signalCannotCatch signal then
      if defaultIgnored signal then loop idx s
      else if defaultStops signal then switchAndContinue loop fuel (stopProcess idx signal s)
      else
        switchAndContinue loop fuel ((doExit idx (BitVec.ofNat 32 (128 + signal)) s).setProc idx
          (fun p => { p with waitSignal := BitVec.ofNat 32 signal, ending := some (.killed signal) }))
    else
      let restorer := (s.procs idx).signalRestorers signal
      if restorer = 0 then switchAndContinue loop fuel (exitUnframed idx s)
      else
        let ctx := (s.procs idx).ctx
        let s := enterHandler idx signal s
        let sp := ctx.sp - 4
        if copyout s idx sp then
          some (startHandler idx signal handler sp (noteResumed idx ctx s))
        else switchAndContinue loop fuel (exitUnframed idx s)

/-- The loop of `prepare_signal`, at most `fuel` turns deep. -/
def prepareLoop (copyout : Copyout) : Nat → Nat → Kernel → Option Kernel
  | 0, _, _ => none
  | fuel + 1, idx, s => prepareTurn copyout (prepareLoop copyout fuel) fuel idx s

/-- `prepare_signal`. -/
def prepareSignal (copyout : Copyout) (fuel idx : Nat) (s : Kernel) : Option Kernel :=
  enterPrepare (prepareLoop copyout fuel) idx s

/-- `switch_to_next`. -/
def switchToNext (copyout : Copyout) (fuel : Nat) (s : Kernel) : Option Kernel :=
  switchWith (prepareLoop copyout fuel) fuel s

end JsEmulator.Process
