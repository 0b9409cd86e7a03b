import JsEmulator.Process.Families

/-!
# What others may do to a process

A kernel entry changes the process it runs for in a few definite ways. Everything
else it does to processes is one of five small changes, collected in `Nudge`: a
wakeup on an object channel, an interrupted sleep, a restarted inter-byte timer, a
continued process, and changes of fields that no result about resumption reads.
None of them touches the saved context of a runnable process.
-/

namespace JsEmulator.Process

open Relation

variable {s : Kernel} {p q : Proc} {idx : Nat} {f : Proc → Proc}

/-- Agreement on the fields that the small changes leave alone. -/
structure SameCore (p q : Proc) : Prop where
  state : q.state = p.state
  chan : q.chan = p.chan
  inSignal : q.inSignal = p.inSignal
  signalSavedMask : q.signalSavedMask = p.signalSavedMask
  signalSavedCtx : q.signalSavedCtx = p.signalSavedCtx
  sleepDeadline : q.sleepDeadline = p.sleepDeadline
  pollDeadline : q.pollDeadline = p.pollDeadline
  ttyDeadline : q.ttyDeadline = p.ttyDeadline
  ctx : q.ctx = p.ctx
  frame : q.frame = p.frame
  call : q.call = p.call

/-- What others may do to a process. -/
inductive Nudge : Proc → Proc → Prop where
  | wake (p : Proc) (asleep : p.state = .sleeping) (object : ∀ k, p.chan ≠ .sleepDeadline k) :
      Nudge p { p with state := .runnable }
  | interrupt (p : Proc) (asleep : p.state = .sleeping) : Nudge p (interruptSleeper p)
  | interbyte (p : Proc) (deadline : Word) (asleep : p.state = .sleeping) (reading : p.chan = .kbd)
      (timed : p.ttyDeadline ≠ 0) :
      Nudge p { p with ttyDeadline := deadline, sleepDeadline := deadline }
  | proceed (p : Proc) (stopped : p.state = .stopped) : Nudge p { p with state := .runnable }
  | mark (p q : Proc) (same : SameCore p q) : Nudge p q

/-- Every process is nudged, nothing is logged, and the same process is current. -/
structure Nudged (s t : Kernel) : Prop where
  procs : ∀ i, ReflTransGen Nudge (s.procs i) (t.procs i)
  log : t.log = s.log
  nproc : t.nproc = s.nproc
  current : t.current = s.current

/-- The same, as a sequence of moves that the family sees. -/
structure Ambient (s t : Kernel) : Prop extends Nudged s t where
  kin : Kindred s t

/-- Only a change of unread fields can happen to a runnable process. -/
theorem nudge_runnable (nudged : Nudge p q) (running : p.state = .runnable) : SameCore p q := by
  cases nudged with
  | wake asleep object | interrupt asleep | interbyte deadline asleep reading timed => simp [running] at asleep
  | proceed stopped => simp [running] at stopped
  | mark q same => exact same

theorem same_core_refl (p : Proc) : SameCore p p := by
  constructor <;> rfl

theorem same_core_trans {r : Proc} (first : SameCore p q) (second : SameCore q r) :
    SameCore p r where
  state := second.state.trans first.state
  chan := second.chan.trans first.chan
  inSignal := second.inSignal.trans first.inSignal
  signalSavedMask := second.signalSavedMask.trans first.signalSavedMask
  signalSavedCtx := second.signalSavedCtx.trans first.signalSavedCtx
  sleepDeadline := second.sleepDeadline.trans first.sleepDeadline
  pollDeadline := second.pollDeadline.trans first.pollDeadline
  ttyDeadline := second.ttyDeadline.trans first.ttyDeadline
  ctx := second.ctx.trans first.ctx
  frame := second.frame.trans first.frame
  call := second.call.trans first.call

theorem nudges_runnable (nudged : ReflTransGen Nudge p q) (running : p.state = .runnable) :
    SameCore p q := by
  induction nudged with
  | refl => exact same_core_refl p
  | tail _ last ih =>
    have still := ih.state.trans running
    exact same_core_trans ih (nudge_runnable last still)

theorem nudged_refl (s : Kernel) : Nudged s s := ⟨fun _ => .refl, rfl, rfl, rfl⟩

theorem nudged_trans (s t u : Kernel) (first : Nudged s t) (second : Nudged t u) : Nudged s u :=
  ⟨fun i => (first.procs i).trans (second.procs i), second.log.trans first.log,
    second.nproc.trans first.nproc, second.current.trans first.current⟩

theorem ambient_refl (s : Kernel) : Ambient s s := ⟨nudged_refl s, kindred_refl s⟩

theorem ambient_trans (s t u : Kernel) (first : Ambient s t) (second : Ambient t u) : Ambient s u :=
  ⟨nudged_trans s t u first.toNudged second.toNudged, kindred_trans s t u first.kin second.kin⟩

/-- Nudges that the family does not see. -/
theorem calm_ambient {t : Kernel} (nudged : Nudged s t) (calm : ∀ i, Calm (s.procs i) (t.procs i))
    (history : t.history = s.history) (statuses : t.statuses = s.statuses) : Ambient s t :=
  ⟨nudged, .single (.calm calm history nudged.nproc statuses)⟩

/-- A nudge of one slot. -/
theorem set_proc_nudged (s : Kernel) (idx : Nat) (f : Proc → Proc)
    (nudged : Nudge (s.procs idx) (f (s.procs idx))) : Nudged s (s.setProc idx f) := by
  refine ⟨?_, rfl, rfl, rfl⟩
  intro i
  rw [set_proc_procs]
  split
  case isTrue same =>
    subst same
    exact .single nudged
  case isFalse => exact .refl

/-- A nudge of one slot that its family does not see. -/
theorem set_proc_ambient (nudged : Nudge (s.procs idx) (f (s.procs idx)))
    (calm : Calm (s.procs idx) (f (s.procs idx))) : Ambient s (s.setProc idx f) :=
  ⟨set_proc_nudged s idx f nudged, set_proc_kindred s idx f calm⟩

/-- A change of unread fields in one slot. -/
theorem set_proc_marks (s : Kernel) (idx : Nat) (f : Proc → Proc)
    (same : SameCore (s.procs idx) (f (s.procs idx)))
    (calm : Calm (s.procs idx) (f (s.procs idx))) : Ambient s (s.setProc idx f) :=
  set_proc_ambient (.mark _ _ same) calm

/-- A live process changes to another state of a live process. -/
theorem state_calm {state : RunState} (same : state.life = p.state.life) :
    Calm p { p with state := state } :=
  ⟨same, rfl, rfl, rfl, rfl, rfl, rfl, rfl, rfl, rfl⟩

theorem wakeup_calm (chan : Chan) (s : Kernel) (i : Nat) :
    Calm (s.procs i) ((wakeup chan s).procs i) := by
  simp only [wakeup]
  split
  case isTrue sleeper => exact state_calm (by simp [sleeper.2.1, RunState.life])
  case isFalse => exact calm_refl _

theorem wakeup_ambient (chan : Chan) (object : ∀ k, chan ≠ .sleepDeadline k) (s : Kernel) :
    Ambient s (wakeup chan s) := by
  refine calm_ambient ⟨?_, rfl, rfl, rfl⟩ (wakeup_calm chan s) rfl rfl
  intro i
  simp only [wakeup]
  split
  case isTrue sleeper =>
    obtain ⟨_, asleep, same⟩ := sleeper
    exact .single (.wake _ asleep (same ▸ object))
  case isFalse => exact .refl

theorem poll_wakeup_ambient (s : Kernel) : Ambient s (pollWakeup s) :=
  wakeup_ambient .poll (by simp) s

/-- Telling the parent sets a pending signal and wakes it. -/
theorem notify_parent_calm (idx : Nat) (s : Kernel) :
    (∀ i, Calm (s.procs i) ((notifyParent idx s).procs i)) ∧
      (notifyParent idx s).history = s.history ∧ (notifyParent idx s).statuses = s.statuses := by
  unfold notifyParent
  split
  · exact ⟨fun _ => calm_refl _, rfl, rfl⟩
  refine ⟨fun i => calm_trans ?_ (wakeup_calm _ _ i), rfl, rfl⟩
  rw [set_proc_procs]
  split
  case isTrue same =>
    subst same
    constructor <;> rfl
  case isFalse => exact calm_refl _

theorem notify_parent_nudged (idx : Nat) (s : Kernel) : Nudged s (notifyParent idx s) := by
  unfold notifyParent
  split
  · exact nudged_refl s
  · refine nudged_trans _ _ _ (set_proc_nudged s _ _ (.mark _ _ ?_))
      (wakeup_ambient _ (by simp) _).toNudged
    constructor <;> rfl

theorem interrupt_sleeper_calm (asleep : p.state = .sleeping) : Calm p (interruptSleeper p) := by
  constructor
  case life => simp [asleep, RunState.life]
  all_goals
    simp only [interruptSleeper]
    split <;> [split <;> [rfl; split <;> rfl]; rfl]

/-- A process that stops or goes on, with the event that its parent can wait for. -/
def pausedProc (state : RunState) (event : Word) (signal : Nat) (p : Proc) : Proc :=
  { p with
    state := state
    waitEvent := event
    waitSignal := BitVec.ofNat 32 signal
    paused := true }

/-- A stopped process goes on, and its parent is told. -/
theorem continue_ambient (stopped : (s.procs idx).state = .stopped) :
    Ambient s ((notifyParent idx (s.setProc idx (pausedProc .runnable wcontinued sigcont))).note (.continued idx)) := by
  have nudged : Nudged s (s.setProc idx (pausedProc .runnable wcontinued sigcont)) := by
    refine nudged_trans _ (s.setProc idx (fun p => { p with state := .runnable })) _
      (set_proc_nudged s idx _ (.proceed _ stopped)) ⟨?_, rfl, rfl, rfl⟩
    intro i
    simp only [set_proc_procs]
    split
    · refine .single (.mark _ _ ?_)
      constructor <;> rfl
    · exact .refl
  have told := nudged_trans _ _ _ nudged (notify_parent_nudged idx _)
  obtain ⟨calm, history, statuses⟩ := notify_parent_calm idx (s.setProc idx (pausedProc .runnable wcontinued sigcont))
  have alive : (s.procs idx).fate.life = .alive := by simp [Proc.fate, stopped, RunState.life]
  refine ⟨⟨told.procs, told.log, told.nproc, told.current⟩, set_proc_event
    (by simp) (by simp [ProcEvent.Legal, Proc.kin, stopped, RunState.life]) ?_ ?_ rfl ?_ calm
    (congrArg _ history) told.nproc statuses⟩
  · simp [pausedProc, Proc.kin, Kin.after, stopped, RunState.life]
  · intro i different
    simp [Kin.after, different.symm]
  · have change := FateChange.continued alive
    simp only [Proc.fate, stopped, RunState.life] at change ⊢
    exact change

/-! ## Walks -/

/-- A relation that holds between the kernels before and after each small step of an operation for
others, and composes. -/
structure Walks (R : Kernel → Kernel → Prop) : Prop where
  refl : ∀ s, R s s
  trans : ∀ s t u, R s t → R t u → R s u
  wakes : ∀ chan, (∀ k, chan ≠ .sleepDeadline k) → ∀ s, R s (wakeup chan s)
  marks : ∀ s idx f, SameCore (s.procs idx) (f (s.procs idx)) →
    Calm (s.procs idx) (f (s.procs idx)) → R s (s.setProc idx f)
  masks : ∀ s idx f, SameCore (s.procs idx) (f (s.procs idx)) →
    MaskChange (s.procs idx).masks (f (s.procs idx)).masks →
    (f (s.procs idx)).kin = (s.procs idx).kin → (f (s.procs idx)).fate = (s.procs idx).fate →
    R s (s.setProc idx f)
  installs : ∀ s idx signal handler mask restorer, R s ((s.setProc idx (fun p =>
    { p with
      signalHandlers := Function.update p.signalHandlers signal handler
      signalMasks := Function.update p.signalMasks signal mask
      signalRestorers := Function.update p.signalRestorers signal restorer })).note
        (.installed idx signal mask))
  interrupts : ∀ s idx, (s.procs idx).state = .sleeping → R s (s.setProc idx interruptSleeper)
  proceeds : ∀ s idx, (s.procs idx).state = .stopped →
    R s (s.setProc idx (fun p => { p with state := .runnable }))
  continues : ∀ s idx, (s.procs idx).state = .stopped →
    R s ((notifyParent idx (s.setProc idx (pausedProc .runnable wcontinued sigcont))).note (.continued idx))

namespace Walks

variable {R : Kernel → Kernel → Prop} (walks : Walks R)
include walks

theorem foldl {α : Type} (f : Kernel → α → Kernel) (each : ∀ s a, R s (f s a))
    (items : List α) (s : Kernel) : R s (items.foldl f s) := by
  induction items generalizing s with
  | nil => exact walks.refl s
  | cons head tail ih => exact walks.trans _ _ _ (each s head) (ih (f s head))

/-- The updates of `send_signal`. -/
theorem sendSignal (idx signal : Nat) (s : Kernel) : R s (sendSignal idx signal s).2 := by
  have continued (s : Kernel) : R s (if signal = sigcont ∧ (s.procs idx).state = .stopped then
        (notifyParent idx (s.setProc idx (fun p =>
          { p with
            state := .runnable
            waitEvent := wcontinued
            waitSignal := BitVec.ofNat 32 signal
            paused := true }))).note (.continued idx)
      else s) := by
    split
    case isTrue stopped =>
      obtain ⟨rfl, stopped⟩ := stopped
      exact walks.continues s idx stopped
    case isFalse => exact walks.refl s
  have pending (s : Kernel) : R s (s.setProc idx (fun p =>
      { p with pendingSignals := p.pendingSignals ||| signalBit signal })) := by
    refine walks.marks s idx _ ?_ ?_ <;> constructor <;> rfl
  have interrupted (s : Kernel) : R s
      (if Process.interrupts (s.procs idx) signal then s.setProc idx interruptSleeper else s) := by
    split
    case isTrue sleeper =>
      simp only [Process.interrupts, Bool.and_eq_true, beq_iff_eq] at sleeper
      exact walks.interrupts s idx sleeper.1.1.1
    case isFalse => exact walks.refl s
  have released (s : Kernel) : R s
      (if (s.procs idx).state = .stopped ∧ (signal = sigkill ∨ signal = sigcont) then
        s.setProc idx (fun p => { p with state := .runnable })
      else s) := by
    split
    case isTrue stopped => exact walks.proceeds s idx stopped.1
    case isFalse => exact walks.refl s
  unfold Process.sendSignal
  split
  · exact walks.refl s
  split
  · exact walks.refl s
  split
  · exact walks.refl s
  · exact walks.trans _ _ _ (continued s) (walks.trans _ _ _ (pending _)
      (walks.trans _ _ _ (interrupted _) (released _)))

theorem sendSignalTo (member : Proc → Bool) (signal : Nat) (s : Kernel) :
    R s (sendSignalTo member signal s).2 := by
  unfold Process.sendSignalTo
  generalize List.range s.nproc = slots
  generalize -esrch = found
  induction slots generalizing found s with
  | nil => exact walks.refl s
  | cons i rest ih =>
    rw [List.foldl_cons]
    by_cases chosen : (s.procs i).state ≠ .unused ∧ member (s.procs i) = true
    · simp only [if_pos chosen]
      exact walks.trans _ _ _ (walks.sendSignal i signal s) (ih _ _)
    · simp only [if_neg chosen]
      exact ih _ _

theorem sendSignalSelector (caller : Nat) (pid : Word) (signal : Nat) (s : Kernel) :
    R s (sendSignalSelector caller pid signal s).2 := by
  unfold Process.sendSignalSelector
  split
  · exact walks.refl s
  split
  · exact walks.sendSignal _ _ _
  split
  · exact walks.sendSignalTo _ _ _
  split
  · exact walks.sendSignalTo _ _ _
  · exact walks.sendSignalTo _ _ _

theorem clearFds (idx : Nat) (s : Kernel) : R s (clearFds idx s) := by
  unfold Process.clearFds
  refine walks.trans _ _ _ (walks.foldl _ ?_ (s.procs idx).files s) (walks.marks _ idx _ ?_ ?_)
  · intro s file
    cases file with
    | pipe pipe => exact walks.trans _ _ _ (walks.wakes _ (by simp) s) (walks.wakes _ (by simp) _)
    | socket => exact walks.wakes _ (by simp) s
    | other => exact walks.refl s
  · constructor <;> rfl
  · constructor <;> rfl

/-- What the environment's answer does to processes. -/
theorem effect (caller : Nat) (e : Effect) (s : Kernel) :
    R s ((e.wakes.foldl (fun s waker => wakeup waker.chan s) s).setProc caller
      (fun p => { p with files := e.files })) := by
  refine walks.trans _ _ _ (walks.foldl _ ?_ e.wakes s)
    (walks.marks _ caller _ (by constructor <;> rfl) (by constructor <;> rfl))
  intro s waker
  refine walks.wakes _ ?_ s
  intro k
  cases waker <;> simp [Waker.chan]

theorem sysSigaction (env : Env) (caller : Nat) (call : Call) (s : Kernel) :
    R s (sysSigactionCall env caller call s).2 := by
  unfold sysSigactionCall
  simp only
  split
  · exact walks.refl s
  split
  · exact walks.refl s
  split
  · exact walks.refl s
  split
  · exact walks.refl s
  case h_2 handler mask restorer _ =>
    split
    · exact walks.refl s
    · exact walks.installs s caller call.argument1.toNat handler mask restorer

theorem sysSigprocmask (env : Env) (caller : Nat) (call : Call) (s : Kernel) :
    R s (sysSigprocmaskCall env caller call s).2 := by
  unfold sysSigprocmaskCall
  simp only
  split
  · exact walks.refl s
  split
  · dsimp only
    refine walks.masks _ _ _ ?_ (.raised call.argument2) rfl rfl
    constructor <;> rfl
  split
  · dsimp only
    refine walks.masks _ _ _ ?_ (.lowered call.argument2) rfl rfl
    constructor <;> rfl
  split
  · dsimp only
    refine walks.masks _ _ _ ?_ (.replaced call.argument2) rfl rfl
    constructor <;> rfl
  · exact walks.refl s

theorem sysSetpgid (caller : Nat) (pid pgid : Word) (s : Kernel) :
    R s (sysSetpgid caller pid pgid s).2 := by
  unfold Process.sysSetpgid
  simp only
  generalize (if pid = 0 then caller else pid.toNat) = target
  split
  · exact walks.refl s
  split
  · exact walks.refl s
  split
  · exact walks.refl s
  · dsimp only
    refine walks.marks _ _ _ ?_ ?_ <;> constructor <;> rfl

theorem sysSetsid (caller : Nat) (s : Kernel) : R s (sysSetsid caller s).2 := by
  unfold Process.sysSetsid
  simp only
  split
  · exact walks.refl s
  · dsimp only
    refine walks.marks _ _ _ ?_ ?_ <;> constructor <;> rfl

end Walks

theorem ambient_walks : Walks Ambient where
  refl := ambient_refl
  trans := ambient_trans
  wakes := wakeup_ambient
  marks := set_proc_marks
  masks s idx f same change kin fate :=
    ⟨set_proc_nudged s idx f (.mark _ _ same), set_masks_kindred s idx f change kin fate⟩
  installs s idx signal handler mask restorer := by
    have noted (t : Kernel) (e : ProcEvent) (nudged : Nudged s t) : Nudged s (t.note e) :=
      ⟨nudged.procs, nudged.log, nudged.nproc, nudged.current⟩
    refine ⟨noted _ _ (set_proc_nudged s idx _ (.mark _ _ ?_)),
      .single (.installed idx signal mask ?_ ?_ ?_ (fun i other => ?_) rfl rfl rfl)⟩
    · constructor <;> rfl
    on_goal 4 => rw [note_procs, set_proc_other s idx i _ other]
    all_goals
      rw [note_procs, set_proc_same]
      rfl
  interrupts _ _ asleep := set_proc_ambient (.interrupt _ asleep) (interrupt_sleeper_calm asleep)
  proceeds _ _ stopped := set_proc_ambient (.proceed _ stopped)
    (state_calm (by simp [stopped, RunState.life]))
  continues _ _ stopped := continue_ambient stopped

theorem reset_interbyte_ambient (s : Kernel) : Ambient s (resetInterbyteDeadlines s) := by
  refine calm_ambient ⟨?_, rfl, rfl, rfl⟩ ?_ rfl rfl
  · intro i
    simp only [resetInterbyteDeadlines]
    split
    case isTrue reader =>
      obtain ⟨_, asleep, reading, timed⟩ := reader
      exact .single (.interbyte _ _ asleep reading timed)
    case isFalse => exact .refl
  · intro i
    simp only [resetInterbyteDeadlines]
    split
    case isTrue => constructor <;> rfl
    case isFalse => exact calm_refl _

theorem tty_receive_ambient (s : Kernel) (input : TtyInput) : Ambient s (ttyReceive s input) := by
  cases input with
  | signal number => exact ambient_walks.sendSignalTo _ _ _
  | queued | closed => exact poll_wakeup_ambient s
  | interbyte => exact reset_interbyte_ambient s

theorem kbd_drain_ambient (input : List TtyInput) (s : Kernel) : Ambient s (kbdDrain input s) :=
  ambient_walks.foldl ttyReceive tty_receive_ambient input s

theorem handle_irq_ambient (s : Kernel) (irq : Irq) : Ambient s (handleIrq s irq) := by
  cases irq with
  | keyboard input =>
    exact ambient_trans _ _ _ (kbd_drain_ambient input s) (wakeup_ambient .kbd (by simp) _)
  | network sockets =>
    refine ambient_walks.foldl _ ?_ sockets s
    intro s socket
    exact ambient_trans _ _ _ (wakeup_ambient _ (by simp) s) (poll_wakeup_ambient _)

/-- The files of a dying process are closed. -/
theorem closed_calm (files : List Descriptor) (s : Kernel) (i : Nat) :
    Calm (s.procs i) ((files.foldl (fun s file =>
      match file with
      | .pipe pipe => pollWakeup (wakeup (.pipe pipe) s)
      | .socket => pollWakeup s
      | .other => s) s).procs i) := by
  induction files generalizing s with
  | nil => exact calm_refl _
  | cons file rest ih =>
    refine calm_trans ?_ (ih _)
    cases file with
    | pipe pipe => exact calm_trans (wakeup_calm _ s i) (wakeup_calm _ _ i)
    | socket => exact wakeup_calm _ s i
    | other => exact calm_refl _

theorem clear_fds_calm (idx : Nat) (s : Kernel) (i : Nat) :
    Calm (s.procs i) ((clearFds idx s).procs i) := by
  refine calm_trans (closed_calm (s.procs idx).files s i) ?_
  unfold clearFds
  rw [set_proc_procs]
  split
  case isTrue same =>
    subst same
    constructor <;> rfl
  case isFalse => exact calm_refl _

theorem adopt_orphans_nudged (idx : Nat) (s : Kernel) : Nudged s (adoptOrphans idx s) := by
  have adopted : Nudged s { s with procs := fun i =>
      if (orphaned s idx i) then { s.procs i with parent := some 0 } else (s.procs i) } := by
    refine ⟨?_, rfl, rfl, rfl⟩
    intro i
    show ReflTransGen Nudge (s.procs i) (if orphaned s idx i then _ else _)
    split
    · refine .single (.mark _ _ ?_)
      constructor <;> rfl
    · exact .refl
  unfold adoptOrphans
  split
  · exact nudged_trans _ _ _ adopted (wakeup_ambient _ (by simp) _).toNudged
  · exact adopted

theorem adopt_orphans_history (idx : Nat) (s : Kernel) :
    (adoptOrphans idx s).history = s.history ∧ (adoptOrphans idx s).statuses = s.statuses := by
  unfold adoptOrphans
  split <;> exact ⟨rfl, rfl⟩

/-- Adoption leaves the masks and the fates alone. -/
theorem adopt_orphans_masks (idx : Nat) (s : Kernel) (i : Nat) :
    ((adoptOrphans idx s).procs i).masks = (s.procs i).masks ∧
      ((adoptOrphans idx s).procs i).fate = (s.procs i).fate := by
  have adopted : (if orphaned s idx i then { s.procs i with parent := some 0 }
      else s.procs i).masks = (s.procs i).masks ∧
      (if orphaned s idx i then { s.procs i with parent := some 0 }
        else s.procs i).fate = (s.procs i).fate := by
    split <;> exact ⟨rfl, rfl⟩
  unfold adoptOrphans
  split
  · have woken := wakeup_calm (.proc 0) { s with procs := fun i =>
      if (orphaned s idx i) then { s.procs i with parent := some 0 } else (s.procs i) } i
    exact ⟨woken.masks.trans adopted.1, woken.fate.trans adopted.2⟩
  · exact adopted

/-- The orphans of the table are adopted, and nothing else is seen. -/
theorem adopt_orphans_kin (idx : Nat) {i : Nat}
    (inTable : (s.procs i).state ≠ .unused → i < s.nproc) :
    ((adoptOrphans idx s).procs i).kin = (s.procs i).kin.adopt idx := by
  have adopted : (if orphaned s idx i then { s.procs i with parent := some 0 }
      else s.procs i).kin = (s.procs i).kin.adopt idx := by
    by_cases orphan : orphaned s idx i = true
    · have left := orphan
      simp only [orphaned, Bool.and_eq_true, decide_eq_true_eq, beq_iff_eq, bne_iff_ne] at left
      rw [if_pos orphan]
      simp [Proc.kin, Kin.adopt, left.1.2, left.2]
    · have kept : ¬ ((s.procs i).parent = some idx ∧ (s.procs i).state ≠ .unused) := by
        rintro ⟨parent, used⟩
        exact orphan (by simp [orphaned, inTable used, parent, used])
      rw [if_neg orphan, Kin.adopt, if_neg]
      simpa [Proc.kin] using kept
  unfold adoptOrphans
  split
  · exact (wakeup_calm (.proc 0) _ i).kin.trans adopted
  · exact adopted

theorem apply_effect_ambient (caller : Nat) (e : Effect) (s : Kernel) :
    Ambient s (applyEffect caller e s) := by
  have closed := ambient_walks.effect caller e s
  exact ⟨⟨closed.procs, closed.log, closed.nproc, closed.current⟩,
    kindred_trans _ _ _ closed.kin (same_procs_kindred _ _ rfl rfl rfl rfl)⟩

end JsEmulator.Process
