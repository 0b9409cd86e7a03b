import JsEmulator.Process.Moves

/-!
# Switching and delivering

The recursion of `prepare_signal` and `switch_to_next`, analysed once. Whatever
process the loop ends with, everything on the way is a sequence of moves during
which nobody goes to sleep, and the process it ends with is current and runnable.
-/

namespace JsEmulator.Process

open Relation

variable {s t : Kernel} {fuel idx signal : Nat} {loop : Nat → Kernel → Option Kernel}
variable {copyout : Copyout}

theorem schedule_runnable (s : Kernel) (next : Nat) (chosen : schedule s = some next) :
    (s.procs next).state = .runnable := by
  have found := List.find?_some chosen
  simpa using found

theorem expire_proc_calm {p : Proc} (asleep : p.state = .sleeping) : Calm p (expireProc p) := by
  constructor
  case life => simp [asleep, RunState.life]
  all_goals
    simp only [expireProc]
    split <;> [rfl; split <;> rfl]

theorem expire_sleepers_steady (s : Kernel) : Steady s (expireSleepers s) := by
  refine ⟨⟨.single (.expired rfl), ?_⟩, .single (.calm ?_ rfl rfl rfl), ?_⟩
  · intro i uncalled
    simp only [expireSleepers]
    split
    · exact (expire_proc_call _).trans uncalled
    · exact uncalled
  · intro i
    simp only [expireSleepers]
    split
    case isTrue sleeper =>
      have isDue := sleeper.2
      simp only [due, Bool.and_eq_true, beq_iff_eq] at isDue
      exact expire_proc_calm isDue.1.1
    case isFalse => exact calm_refl _
  · intro i dead
    have undue : due s (s.procs i) = false := by simp [due, dead]
    simp [expireSleepers, undue, dead]

/-- What the loop of `switch_to_next` preserves, and the process that it ends with. -/
theorem idle_keeps {P : Kernel → Prop} {next : Nat}
    (waits : ∀ u, P u → P (if nextDeadline u ≠ 0 then
      expireSleepers { u with ticks := nextDeadline u } else u))
    (serves : ∀ u burst rest, u.irqs = burst :: rest → P u →
      P (burst.foldl handleIrq { u with irqs := rest }))
    (before : P s) (found : idle fuel s = some (next, t)) :
    P t ∧ (t.procs next).state = .runnable := by
  induction fuel generalizing s with
  | zero => simp [idle] at found
  | succ fuel ih =>
    unfold idle at found
    split at found
    case h_1 chosen =>
      obtain ⟨rfl, rfl⟩ := Prod.mk.inj (Option.some.inj found)
      exact ⟨before, schedule_runnable s _ chosen⟩
    split at found
    case isFalse => simp at found
    simp only at found
    have waited := waits s before
    split at found
    case h_1 chosen =>
      cases found
      exact ⟨waited, schedule_runnable _ _ chosen⟩
    split at found
    case h_1 => simp at found
    case h_2 burst rest queue => exact ih (serves _ burst rest queue waited) found

/-- Idling only expires sleepers and serves interrupts, until some process can run. -/
theorem idle_steady {next : Nat} (found : idle fuel s = some (next, t)) :
    Steady s t ∧ (t.procs next).state = .runnable := by
  refine idle_keeps (fun u before => steady_trans _ u _ before ?_)
    (fun u burst rest _ before => steady_trans _ u _ before ?_) (steady_refl s) found
  · split
    · exact steady_trans _ { u with ticks := nextDeadline u } _
        (globals_steady _ _ rfl rfl rfl rfl rfl) (expire_sleepers_steady _)
    · exact steady_refl u
  · exact steady_trans _ { u with irqs := rest } _ (globals_steady _ _ rfl rfl rfl rfl rfl)
      (ambient_steady _ _ (ambient_walks.foldl handleIrq handle_irq_ambient burst _))

theorem stop_process_steady (stops : defaultStops signal = true)
    (running : (s.procs idx).state = .runnable) : Steady s (stopProcess idx signal s) := by
  have left : Quiet s (s.setProc idx (pausedProc .stopped wuntraced signal)) := by
    refine leave_quiet ?_ ?_ ?_
    · simp [running]
    · simp [pausedProc]
    · constructor <;> rfl
  have told := notify_parent_nudged idx (s.setProc idx (pausedProc .stopped wuntraced signal))
  obtain ⟨calm, history, statuses⟩ := notify_parent_calm idx (s.setProc idx (pausedProc .stopped wuntraced signal))
  have alive : (s.procs idx).fate.life = .alive := by simp [Proc.fate, running, RunState.life]
  refine ⟨quiet_trans left (nudges_quiet told.procs told.log), set_proc_event (by simp) (by simp [ProcEvent.Legal, Proc.kin, running, RunState.life]) ?_ ?_ rfl ?_
    calm (congrArg _ history) told.nproc statuses, fun i dead => nudges_zombie (told.procs i) ?_⟩
  · simp [pausedProc, Proc.kin, Kin.after, running, RunState.life]
  · intro i different
    simp [Kin.after, different.symm]
  · have change := FateChange.stopped signal alive stops
    simp only [Proc.fate, running, RunState.life] at change ⊢
    exact change
  · exact set_proc_zombies s idx _ (by simp [running]) i dead

/-- The end of `do_exit`: the process is a zombie, its parent is told and its
children are adopted. -/
theorem bury_kindred (running : (s.procs idx).state = .runnable)
    (ending : (s.procs idx).ending = some (.exited (s.procs idx).exitCode)) :
    Kindred s ((adoptOrphans idx (notifyParent idx (s.setProc idx (fun p =>
      { p with state := .zombie })))).note (.exited idx)) := by
  generalize dead : s.setProc idx (fun p => { p with state := .zombie }) = t
  obtain ⟨calm, history, statuses⟩ := notify_parent_calm idx t
  have told := notify_parent_nudged idx t
  have adopted := adopt_orphans_nudged idx (notifyParent idx t)
  have zombie (i : Nat) : (t.procs i).kin =
      (if idx = i then { (s.procs i).kin with life := .zombie } else (s.procs i).kin) ∧
      (t.procs i).masks = (s.procs i).masks ∧ FateChange (s.procs i).fate (t.procs i).fate := by
    by_cases same : i = idx
    · subst dead same
      have change := FateChange.exited (f := (s.procs i).fate)
        (by simp [Proc.fate, running, RunState.life]) ending
      refine ⟨by simp [Proc.kin, RunState.life], by simp [Proc.masks], ?_⟩
      rwa [set_proc_same]
    · subst dead
      simp only [set_proc_other s idx i _ same, Ne.symm same, if_false, true_and]
      exact .same
  have nproc : (notifyParent idx t).nproc = s.nproc := by
    rw [told.nproc, ← dead, set_proc_nproc]
  refine .single (.event (.exited idx) (by simp)
    (by simp [ProcEvent.Legal, Proc.kin, running, RunState.life]) ?_ ?_ ?_ ?_
    (adopted.nproc.trans nproc) ?_)
  · intro table i
    have inTable : ((notifyParent idx t).procs i).state ≠ .unused → i < (notifyParent idx t).nproc := by
      intro used
      by_contra beyond
      have unused := table i (by omega)
      have different : idx ≠ i := by
        rintro rfl
        simp [unused] at running
      have life := congrArg Kin.life (calm i).kin
      rw [(zombie i).1, if_neg different] at life
      simp only [Proc.kin, unused] at life
      exact used ((life_unused _).mp life)
    rw [note_procs, adopt_orphans_kin idx inTable, (calm i).kin, (zombie i).1]
    rfl
  · intro i
    rw [note_procs, (adopt_orphans_masks _ _ i).1, (calm i).masks, (zombie i).2.1]
  · intro i
    rw [note_procs, (adopt_orphans_masks _ _ i).2, (calm i).fate]
    exact (zombie i).2.2
  · rw [note_history, (adopt_orphans_history _ _).1, history, ← dead, set_proc_history]
  · show (adoptOrphans idx (notifyParent idx t)).statuses = s.statuses
    rw [(adopt_orphans_history _ _).2, statuses, ← dead, set_proc_statuses]

/-- `do_exit` marks the process, closes its files, makes it a zombie and tells its
parent and children. -/
theorem do_exit_steady (code : Word) (running : (s.procs idx).state = .runnable) :
    Steady s (doExit idx code s) := by
  have alive : (s.procs idx).fate.life = .alive := by simp [Proc.fate, running, RunState.life]
  have marked : Ambient s (s.setProc idx (fun p =>
      { p with exitCode := code, ending := some (.exited code) })) :=
    ⟨set_proc_nudged s idx _ (.mark _ _ (by constructor <;> rfl)),
      set_fate_kindred (.marked code alive) rfl rfl⟩
  have closed := ambient_trans _ _ _ marked (ambient_walks.clearFds idx _)
  have still := (ambient_core closed running).state.trans running
  have fate := (clear_fds_calm idx (s.setProc idx (fun p =>
    { p with exitCode := code, ending := some (.exited code) })) idx).fate
  rw [set_proc_same] at fate
  simp only [Proc.fate, Fate.mk.injEq] at fate
  obtain ⟨-, -, -, exitCode, ending⟩ := fate
  have buried := nudged_trans _ _ _ (notify_parent_nudged idx _) (adopt_orphans_nudged idx
    (notifyParent idx ((clearFds idx (s.setProc idx (fun p =>
      { p with exitCode := code, ending := some (.exited code) }))).setProc
      idx (fun p => { p with state := .zombie }))))
  refine ⟨quiet_trans (ambient_steady _ _ closed).toQuiet (quiet_trans (leave_quiet ?_ ?_ ?_) (nudges_quiet buried.procs buried.log)),
    kindred_trans _ _ _ closed.kin (bury_kindred still (by rw [ending, exitCode])),
    fun i dead => nudges_zombie (buried.procs i) ?_⟩
  · simp [still]
  · simp
  · constructor <;> rfl
  · exact set_proc_zombies _ idx _ (fun _ => rfl) i (nudges_zombie (closed.procs i) dead)

/-- What `do_exit` leaves in the slot. -/
theorem do_exit_fate (idx : Nat) (code : Word) (s : Kernel) : ((doExit idx code s).procs idx).fate =
    ⟨.zombie, (s.procs idx).paused, (s.procs idx).waitSignal, code, some (.exited code)⟩ := by
  have closed := (clear_fds_calm idx (s.setProc idx (fun p =>
    { p with exitCode := code, ending := some (.exited code) })) idx).fate
  rw [set_proc_same] at closed
  unfold doExit
  rw [note_procs, (adopt_orphans_masks _ _ idx).2, ((notify_parent_calm idx _).1 idx).fate, set_proc_same]
  simp only [Proc.fate, Fate.mk.injEq] at closed ⊢
  exact ⟨rfl, closed.2⟩

/-- A process that has exited is said to have ended by a signal. -/
theorem do_exit_ended_steady {code : Word} {f : Proc → Proc}
    (running : (s.procs idx).state = .runnable)
    (change : FateChange ((doExit idx code s).procs idx).fate (f ((doExit idx code s).procs idx)).fate)
    (same : ∀ p, SameCore p (f p)) (kin : ∀ p, (f p).kin = p.kin)
    (masks : ∀ p, (f p).masks = p.masks) :
    Steady s ((doExit idx code s).setProc idx f) :=
  steady_trans _ _ _ (do_exit_steady code running) (ambient_steady _ _
    ⟨set_proc_nudged _ idx f (.mark _ _ (same _)), set_fate_kindred change (kin _) (masks _)⟩)

theorem exit_unframed_steady (running : (s.procs idx).state = .runnable) :
    Steady s (exitUnframed idx s) := by
  refine do_exit_ended_steady running ?_ ?_ (fun _ => rfl) (fun _ => rfl)
  · have fate := do_exit_fate idx (BitVec.ofNat 32 (128 + sigsegv)) s
    exact .unframed (by rw [fate]) (by rw [fate]) (by rw [fate])
  · intro p
    constructor <;> rfl

theorem exit_killed_steady (positive : 0 < signal) (small : signal < nsig)
    (running : (s.procs idx).state = .runnable) :
    Steady s ((doExit idx (BitVec.ofNat 32 (128 + signal)) s).setProc idx
      (fun p => { p with waitSignal := BitVec.ofNat 32 signal, ending := some (.killed signal) })) := by
  refine do_exit_ended_steady running ?_ ?_ (fun _ => rfl) (fun _ => rfl)
  · have fate := do_exit_fate idx (BitVec.ofNat 32 (128 + signal)) s
    exact .killed signal (by rw [fate]) positive small
  · intro p
    constructor <;> rfl

theorem next_deliverable_small (p : Proc) : nextDeliverableSignal p < nsig := by
  unfold nextDeliverableSignal
  cases found : (List.range' 1 31).find? (fun signal =>
      (p.pendingSignals &&& ~~~p.blockedSignals).getLsbD signal) with
  | none => simp [nsig]
  | some signal =>
    have listed := List.mem_of_find?_eq_some found
    simp only [List.mem_range'_1] at listed
    simp only [Option.getD_some, nsig]
    omega

/-- When a signal is found, the process is outside any handler, or the loop of
`prepare_signal` has gone on with it although it is inside one. -/
def Guarded (s : Kernel) (idx : Nat) : Prop :=
  nextDeliverableSignal (s.procs idx) ≠ 0 →
    (s.procs idx).inSignal = false ∨
      ∃ deliverable, deliverable ≠ 0 ∧ .continued idx true deliverable ∈ s.log

/-- What the loop of `prepare_signal` does, whatever process it ends with. -/
def LoopSteady (loop : Nat → Kernel → Option Kernel) : Prop :=
  ∀ s t, Running s → Guarded s s.current → loop s.current s = some t → Steady s t ∧ Running t

theorem enter_prepare_steady (loop : Nat → Kernel → Option Kernel) (spec : LoopSteady loop)
    (s t : Kernel) (running : Running s) (prepared : enterPrepare loop s.current s = some t) :
    Steady s t ∧ Running t := by
  unfold enterPrepare at prepared
  split at prepared
  case isTrue =>
    cases prepared
    exact ⟨steady_refl s, running⟩
  case isFalse outside =>
    simp only [ne_eq, not_or, not_not, Bool.not_eq_true] at outside
    exact spec s t running (fun _ => .inl outside.2) prepared

theorem switch_with_steady (spec : LoopSteady loop) (switched : switchWith loop fuel s = some t) :
    Steady s t ∧ Running t := by
  unfold switchWith at switched
  split at switched
  case h_1 => simp at switched
  rename_i next u found
  obtain ⟨idled, runnable⟩ := idle_steady found
  have chosen : Steady u { u with current := next } := globals_steady _ _ rfl rfl rfl rfl rfl
  obtain ⟨prepared, running⟩ :=
    enter_prepare_steady loop spec { u with current := next } t runnable switched
  exact ⟨steady_trans _ _ _ idled (steady_trans _ _ _ chosen prepared), running⟩

/-- After the inner switch the loop goes on with the new process, and the log says
so. -/
theorem switch_and_continue_steady (spec : LoopSteady loop)
    (switched : switchAndContinue loop fuel s = some t) :
    Steady s t ∧ Running t := by
  unfold switchAndContinue at switched
  split at switched
  case h_1 => simp at switched
  rename_i u inner
  obtain ⟨away, running⟩ := switch_with_steady spec inner
  have noted : Steady u (u.record (.continued u.current (u.procs u.current).inSignal
      (nextDeliverableSignal (u.procs u.current)))) := by
    refine ⟨⟨.single (.changed u.current _ _ (.continued _) ?_ rfl), fun _ uncalled => uncalled⟩,
      same_procs_kindred _ _ rfl rfl rfl rfl, fun _ dead => dead⟩
    simp
  have guarded : Guarded (u.record (.continued u.current (u.procs u.current).inSignal
      (nextDeliverableSignal (u.procs u.current)))) u.current := by
    intro deliverable
    cases inSignal : (u.procs u.current).inSignal with
    | false => exact .inl inSignal
    | true => exact .inr ⟨_, deliverable, by simp [inSignal]⟩
  obtain ⟨rest, last⟩ := spec (u.record _) t running guarded switched
  exact ⟨steady_trans _ _ _ away (steady_trans _ _ _ noted rest), last⟩

theorem note_resumed_steady (idx : Nat) (s : Kernel) (awake : (s.procs idx).state ≠ .sleeping) :
    Steady s (noteResumed idx (s.procs idx).ctx s) ∧
      ((noteResumed idx (s.procs idx).ctx s).procs idx).call = none ∧
      (noteResumed idx (s.procs idx).ctx s).current = s.current ∧
      ∀ i, ((noteResumed idx (s.procs idx).ctx s).procs i).state = (s.procs i).state := by
  unfold noteResumed
  split
  case h_1 uncalled => exact ⟨steady_refl s, uncalled, rfl, fun _ => rfl⟩
  rename_i call called
  have resumed := change_quiet s idx (fun p => { p with call := none }) [_]
    (.resumed _ call awake called) (fun _ => rfl)
  have unseen : Kindred s ((s.setProc idx (fun p => { p with call := none })).record
      (.resumed idx call (s.procs idx).ctx)) :=
    kindred_trans _ _ _ (set_proc_kindred s idx (fun p => { p with call := none })
      (by constructor <;> rfl)) (same_procs_kindred _ _ rfl rfl rfl rfl)
  refine ⟨⟨resumed, unseen, set_proc_zombies s idx (fun p => { p with call := none }) id⟩, ?_, rfl, ?_⟩
  · simp
  · intro i
    rw [record_procs, set_proc_procs]
    split
    case isTrue same => rw [same]
    case isFalse => rfl

/-- Building the frame and starting the handler. -/
theorem deliver_steady (handler sp : Word) (running : (s.procs idx).state = .runnable)
    (catchable : signalCannotCatch signal = false) (guarded : (s.procs idx).inSignal = false ∨
      ∃ deliverable, deliverable ≠ 0 ∧ .continued idx true deliverable ∈ s.log) :
    let started := startHandler idx signal handler sp
      (noteResumed idx (s.procs idx).ctx (enterHandler idx signal s))
    Steady s (enterHandler idx signal s) ∧ Steady s started ∧ started.current = s.current ∧
      (started.procs idx).state = .runnable := by
  have framed : Kindred s (enterHandler idx signal s) :=
    kindred_trans _ _ _ (set_masks_kindred s idx (frameProc signal) (.framed signal catchable) rfl rfl)
      (same_procs_kindred _ _ rfl rfl rfl rfl)
  have entered : Steady s (enterHandler idx signal s) :=
    ⟨change_quiet s idx (frameProc signal) [_] (.delivered _ signal running guarded)
      (fun uncalled => uncalled), framed, set_proc_zombies s idx (frameProc signal) id⟩
  have sameCtx : ((enterHandler idx signal s).procs idx).ctx = (s.procs idx).ctx := by
    simp [enterHandler, frameProc]
  have still : ((enterHandler idx signal s).procs idx).state = .runnable := by
    simp [enterHandler, frameProc, running]
  obtain ⟨noted, uncalled, sameCurrent, sameState⟩ :=
    note_resumed_steady idx (enterHandler idx signal s) (by simp [still])
  rw [sameCtx] at noted uncalled sameCurrent sameState
  refine ⟨entered, steady_trans _ _ _ entered (steady_trans _ _ _ noted
    (adjust_steady uncalled ?_ ?_)), sameCurrent, ?_⟩
  · constructor <;> rfl
  · constructor <;> rfl
  · simp [startHandler, sameState, still]

/-- One turn of the loop. An ignored signal goes round again, a stop or a fatal
signal switches away, a caught one builds a frame. -/
theorem prepare_turn_steady (copyout : Copyout) (spec : LoopSteady loop) (fuel : Nat) :
    LoopSteady (prepareTurn copyout loop fuel) := by
  intro s t running guarded turned
  unfold prepareTurn at turned
  simp only at turned
  split at turned
  case isTrue =>
    cases turned
    exact ⟨steady_refl s, running⟩
  rename_i pending
  have guard := guarded pending
  have small := next_deliverable_small (s.procs s.current)
  generalize nextDeliverableSignal (s.procs s.current) = signal at turned pending small
  generalize cleared : s.setProc s.current (fun p =>
    { p with pendingSignals := p.pendingSignals &&& ~~~(signalBit signal) }) = u at turned
  have ambient : Ambient s u := by
    subst cleared
    refine set_proc_marks s s.current _ ?_ ?_ <;> constructor <;> rfl
  have core := ambient_core ambient running
  have runnable := core.state.trans running
  have guard' : (u.procs s.current).inSignal = false ∨
      ∃ deliverable, deliverable ≠ 0 ∧ .continued s.current true deliverable ∈ u.log := by
    rwa [core.inSignal, ambient.log]
  have again (looped : loop s.current u = some t) : Steady s t ∧ Running t := by
    rw [← ambient.current] at looped guard'
    obtain ⟨rest, last⟩ := spec u t (ambient_running ambient running) (fun _ => guard') looped
    exact ⟨steady_trans _ _ _ (ambient_steady _ _ ambient) rest, last⟩
  have away (v : Kernel) (left : Steady u v) (switched : switchAndContinue loop fuel v = some t) :
      Steady s t ∧ Running t := by
    obtain ⟨rest, last⟩ := switch_and_continue_steady spec switched
    exact ⟨steady_trans _ _ _ (ambient_steady _ _ ambient) (steady_trans _ _ _ left rest), last⟩
  split at turned
  case isTrue => exact again turned
  split at turned
  case isTrue =>
    split at turned
    case isTrue => exact again turned
    split at turned
    case isTrue stops => exact away _ (stop_process_steady stops runnable) turned
    case isFalse =>
      exact away _ (exit_killed_steady (Nat.pos_of_ne_zero pending) small runnable) turned
  rename_i caught
  split at turned
  case isTrue => exact away _ (exit_unframed_steady runnable) turned
  obtain ⟨entered, started, sameCurrent, still⟩ := deliver_steady
    ((u.procs s.current).signalHandlers signal) ((u.procs s.current).ctx.sp - 4)
    runnable (by simpa using fun uncaught => caught (.inr uncaught)) guard'
  split at turned
  case isTrue =>
    cases turned
    refine ⟨steady_trans _ _ _ (ambient_steady _ _ ambient) started, ?_⟩
    unfold Running
    rwa [sameCurrent, ambient.current]
  case isFalse =>
    have still : ((enterHandler s.current signal u).procs s.current).state = .runnable := by
      simp [enterHandler, frameProc, runnable]
    exact away _ (steady_trans _ _ _ entered (exit_unframed_steady still)) turned

theorem prepare_loop_steady (copyout : Copyout) (fuel : Nat) :
    LoopSteady (prepareLoop copyout fuel) := by
  induction fuel with
  | zero =>
    intro s t running guarded prepared
    simp [prepareLoop] at prepared
  | succ fuel ih =>
    exact prepare_turn_steady copyout ih fuel

theorem prepare_signal_steady (running : Running s)
    (prepared : prepareSignal copyout fuel s.current s = some t) : Steady s t ∧ Running t :=
  enter_prepare_steady _ (prepare_loop_steady copyout fuel) s t running prepared

theorem switch_to_next_steady (switched : switchToNext copyout fuel s = some t) :
    Steady s t ∧ Running t :=
  switch_with_steady (prepare_loop_steady copyout fuel) switched

end JsEmulator.Process
