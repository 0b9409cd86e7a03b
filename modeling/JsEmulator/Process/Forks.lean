import JsEmulator.Process.Runs

/-!
# What a fork copies

The kernel keeps the execution state of a process in its context, its signal state,
its deadlines and, inside a handler, the context and mask that `sigreturn` puts back.
`fork_process` and `signal_fork_proc` copy or reset these one by one. The saved
context and mask are not copied and the child is said to be outside any handler, so a
child forked in a handler cannot return from it: its `sigreturn` fails. The deadlines
are reset. When the parent is outside any handler and has no deadline left, the child
has the parent's execution state, and the two stay alike under everything that
happens to both.
-/

namespace JsEmulator.Process

/-- The execution state of a process. The context and mask that `sigreturn` puts back
are part of it while a handler runs. -/
structure Execution where
  ctx : CpuContext
  pendingSignals : Word
  blockedSignals : Word
  signalHandlers : Nat → Word
  signalMasks : Nat → Word
  signalRestorers : Nat → Word
  interrupted : Option (CpuContext × Word)
  sleepDeadline : Word
  sleepRemaining : Word
  pollDeadline : Word
  ttyDeadline : Word
  ttyTimedOut : Bool
  pgid : Word
  sid : Word
  files : List Descriptor

def Proc.execution (p : Proc) : Execution where
  ctx := p.ctx
  pendingSignals := p.pendingSignals
  blockedSignals := p.blockedSignals
  signalHandlers := p.signalHandlers
  signalMasks := p.signalMasks
  signalRestorers := p.signalRestorers
  interrupted := if p.inSignal then some (p.signalSavedCtx, p.signalSavedMask) else none
  sleepDeadline := p.sleepDeadline
  sleepRemaining := p.sleepRemaining
  pollDeadline := p.pollDeadline
  ttyDeadline := p.ttyDeadline
  ttyTimedOut := p.ttyTimedOut
  pgid := p.pgid
  sid := p.sid
  files := p.files

/-- The parent as it would be if `fork` had returned zero and no signal were pending. -/
def Proc.answeredZero (p : Proc) : Proc :=
  { p with ctx := { p.ctx with regs := Function.update p.ctx.regs 0 0 }, pendingSignals := 0 }

/-- No deadline of an earlier wait is left. -/
structure Proc.NoDeadlines (p : Proc) : Prop where
  sleepDeadline : p.sleepDeadline = 0
  sleepRemaining : p.sleepRemaining = 0
  pollDeadline : p.pollDeadline = 0
  ttyDeadline : p.ttyDeadline = 0
  ttyTimedOut : p.ttyTimedOut = false

/-- The record of the child has the execution state of its parent exactly when there is
nothing that a fork resets. -/
theorem forked_execution (parent : Nat) (p old : Proc) :
    (forkedProc parent p old).execution = p.answeredZero.execution ↔
      p.inSignal = false ∧ p.NoDeadlines := by
  constructor
  · intro same
    simp only [Proc.execution, forkedProc, Proc.answeredZero, Execution.mk.injEq, true_and, and_true,
      Bool.false_eq_true, if_false] at same
    obtain ⟨interrupted, sleepDeadline, sleepRemaining, pollDeadline, ttyDeadline, ttyTimedOut⟩ := same
    refine ⟨?_, sleepDeadline.symm, sleepRemaining.symm, pollDeadline.symm, ttyDeadline.symm,
      ttyTimedOut.symm⟩
    cases handling : p.inSignal with
    | false => rfl
    | true => simp [handling] at interrupted
  · rintro ⟨outside, none⟩
    simp [Proc.execution, forkedProc, Proc.answeredZero, outside, none.sleepDeadline,
      none.sleepRemaining, none.pollDeadline, none.ttyDeadline, none.ttyTimedOut]

/-- What happens to a process by its own doing or by signals and time: it runs and
traps, its call returns or is to be made again, a signal arrives, is taken, interrupts
a sleep or enters its handler, a handler returns, a deadline comes, and the calls that
change its signal state or load another program. -/
inductive OwnChange : (Proc → Proc) → Prop where
  | trapped (run : CpuContext → CpuContext) : OwnChange (fun p => { p with ctx := run p.ctx, call := none })
  | sent (signal : Nat) :
      OwnChange (fun p => { p with pendingSignals := p.pendingSignals ||| signalBit signal })
  | taken (signal : Nat) :
      OwnChange (fun p => { p with pendingSignals := p.pendingSignals &&& ~~~(signalBit signal) })
  | framed (signal : Nat) : OwnChange (frameProc signal)
  | returned : OwnChange (fun p => if p.inSignal then restoredProc p else p)
  | slept (chan : Chan) (call : Call) :
      OwnChange (fun p => { p with chan := chan, state := .sleeping, call := some call })
  | woken : OwnChange (fun p => { p with state := .runnable })
  | interrupted : OwnChange interruptSleeper
  | expired : OwnChange expireProc
  | timed (sleepDeadline sleepRemaining pollDeadline ttyDeadline : Word) :
      OwnChange (fun p =>
        { p with
          sleepDeadline := sleepDeadline
          sleepRemaining := sleepRemaining
          pollDeadline := pollDeadline
          ttyDeadline := ttyDeadline
          ttyTimedOut := false })
  | acted (signal : Nat) (handler mask restorer : Word) :
      OwnChange (fun p =>
        { p with
          signalHandlers := Function.update p.signalHandlers signal handler
          signalMasks := Function.update p.signalMasks signal mask
          signalRestorers := Function.update p.signalRestorers signal restorer })
  | masked (change : Word → Word) : OwnChange (fun p => { p with blockedSignals := change p.blockedSignals })
  | executed (ctx : CpuContext) : OwnChange (fun p => signalExecProc { p with ctx := ctx })

/-- Equal execution states stay equal under one change. -/
theorem own_change_execution {f : Proc → Proc} (change : OwnChange f) {p q : Proc}
    (same : p.execution = q.execution) : (f p).execution = (f q).execution := by
  simp only [Proc.execution, Execution.mk.injEq] at same
  obtain ⟨ctx, pending, blocked, handlers, masks, restorers, interrupted, sleep, remaining, poll, tty,
    timedOut, pgid, sid, files⟩ := same
  cases change with
  | returned =>
    cases first : p.inSignal <;> cases second : q.inSignal <;>
      simp_all [Proc.execution, restoredProc]
  | interrupted =>
    simp only [interruptSleeper, sleep, poll, tty]
    split <;> [split <;> [skip; split]; skip] <;>
      simp_all [Proc.execution]
  | expired =>
    simp only [expireProc, poll, tty]
    split <;> [skip; split] <;>
      simp_all [Proc.execution]
  | framed signal => simp_all [Proc.execution, frameProc]
  | executed loaded => simp_all [Proc.execution, signalExecProc]
  | _ => simp_all [Proc.execution]

/-- Equal execution states stay equal under any sequence of changes. -/
theorem own_changes_execution (changes : List (Proc → Proc)) (own : ∀ f ∈ changes, OwnChange f)
    (p q : Proc) (same : p.execution = q.execution) :
    (changes.foldl (fun p f => f p) p).execution = (changes.foldl (fun p f => f p) q).execution := by
  induction changes generalizing p q with
  | nil => exact same
  | cons f rest ih =>
    exact ih (fun g member => own g (List.mem_cons_of_mem f member)) (f p) (f q)
      (own_change_execution (own f List.mem_cons_self) same)

/-- What `sigreturn` gives a process: the value of the call, and the context and mask it
goes on with. -/
def sigreturnResult (idx : Nat) (s : Kernel) : Word × CpuContext × Word :=
  let (value, t) := sysSigreturn idx s
  (value, (t.procs idx).ctx, (t.procs idx).blockedSignals)

theorem sigreturn_result (idx : Nat) (s : Kernel) :
    sigreturnResult idx s = match (s.procs idx).execution.interrupted with
      | none => (-einval, (s.procs idx).ctx, (s.procs idx).blockedSignals)
      | some (ctx, mask) => (0, ctx, mask) := by
  cases handling : (s.procs idx).inSignal <;>
    simp [sigreturnResult, sysSigreturn, Proc.execution, restoredProc, handling]

/-- The child that a successful fork leaves in its slot. -/
theorem do_fork_child {env : Env} (parent : Nat) {idx : Nat} {s u : Kernel}
    (accepted : env.forkRefused s = false) (allocated : allocProc s = some (idx, u)) :
    (doFork env parent s).2.procs idx = forkedProc parent (s.procs parent) (s.procs idx) := by
  obtain ⟨procs, -⟩ := alloc_proc_same allocated
  simp [doFork, accepted, allocated, procs]

/-- Fork duplicates the execution state: for every state in which a fork succeeds, the
child has the execution state its parent would have if `fork` had returned zero with no
signal pending, if and only if the parent is outside any handler and no deadline of an
earlier wait is left. The child's `sigreturn` gives what the parent's would if and only
if the parent is outside any handler. And where the execution states agree, they agree
after everything that happens to both. -/
theorem fork_duplicates_execution (env : Env) (parent idx : Nat) (s u : Kernel)
    (accepted : env.forkRefused s = false) (allocated : allocProc s = some (idx, u)) :
    let t := (doFork env parent s).2
    let answered := s.setProc parent Proc.answeredZero
    ((t.procs idx).execution = (answered.procs parent).execution ↔
      (s.procs parent).inSignal = false ∧ (s.procs parent).NoDeadlines) ∧
    (sigreturnResult idx t = sigreturnResult parent answered ↔ (s.procs parent).inSignal = false) ∧
    ((s.procs parent).inSignal = false ∧ (s.procs parent).NoDeadlines →
      ∀ changes : List (Proc → Proc), (∀ f ∈ changes, OwnChange f) →
        (changes.foldl (fun p f => f p) (t.procs idx)).execution =
          (changes.foldl (fun p f => f p) (answered.procs parent)).execution) := by
  intro t answered
  have child : t.procs idx = forkedProc parent (s.procs parent) (s.procs idx) :=
    do_fork_child parent accepted allocated
  have same : (t.procs idx).execution = (answered.procs parent).execution ↔
      (s.procs parent).inSignal = false ∧ (s.procs parent).NoDeadlines := by
    rw [child, set_proc_same]
    exact forked_execution parent (s.procs parent) (s.procs idx)
  refine ⟨same, ?_, fun copied changes own => own_changes_execution changes own _ _ (same.mpr copied)⟩
  rw [sigreturn_result, sigreturn_result, child, set_proc_same]
  cases handling : (s.procs parent).inSignal with
  | false => simp [Proc.execution, forkedProc, Proc.answeredZero, handling]
  | true => simp [Proc.execution, forkedProc, Proc.answeredZero, handling, einval]

/-- Init forks outside any handler. -/
theorem fork_duplicates_execution_init :
    ((doFork sampleEnv 0 (booted (sampleCtx sysFork 0 0 0))).2.procs 1).execution =
      (((booted (sampleCtx sysFork 0 0 0)).setProc 0 Proc.answeredZero).procs 0).execution := by
  have allocated : allocProc (booted (sampleCtx sysFork 0 0 0)) =
      some (1, { booted (sampleCtx sysFork 0 0 0) with nproc := 2 }) := rfl
  exact (fork_duplicates_execution sampleEnv 0 1 _ _ rfl allocated).1.mpr
    ⟨rfl, rfl, rfl, rfl, rfl, rfl⟩

/-- A handler forks. The parent's `sigreturn` would go back to the interrupted program; the
child's fails and leaves it in the handler's return code. -/
theorem child_cannot_leave_handler :
    ∃ s, Reachable s ∧ (s.procs 0).inSignal = true ∧ (s.procs 1).parent = some 0 ∧
      sigreturnResult 0 s = (0, (s.procs 0).signalSavedCtx, (s.procs 0).signalSavedMask) ∧
      sigreturnResult 1 s = (-einval, (s.procs 1).ctx, (s.procs 1).blockedSignals) ∧
      (s.procs 0).signalSavedCtx.pc ≠ (s.procs 1).ctx.pc := by
  obtain ⟨s, reached, checked⟩ := run_reaches (sampleCtx 0 0 0 0)
    [sampleCall sysSigaction 10 1 0, sampleCall sysKill 0 10 0,
      .syscall sampleEnv 8 { sampleCtx sysFork 0 0 0 with pc := 0x4000105 }]
    (fun s => decide ((s.procs 0).inSignal = true ∧ (s.procs 1).parent = some 0 ∧
      (s.procs 1).inSignal = false ∧ (s.procs 0).signalSavedCtx.pc ≠ (s.procs 1).ctx.pc))
    (by decide +kernel)
  obtain ⟨handling, own, outside, different⟩ := of_decide_eq_true checked
  refine ⟨s, reached, handling, own, ?_, ?_, different⟩
  · simp [sigreturn_result, Proc.execution, handling]
  · simp [sigreturn_result, Proc.execution, outside]

end JsEmulator.Process
