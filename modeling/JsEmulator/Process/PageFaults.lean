import JsEmulator.Process.Unblockable

/-!
# Page faults that nothing resolves

`on_page_fault` sends `SIGSEGV` to the faulting process and leaves the rest to
`prepare_signal`, which looks at the pending signals from the lowest number on, drops the
ignored ones and acts on the first that is left. The fault is settled by `SIGSEGV`, or by a
signal that ends or stops the process, exactly when such a signal comes first.
-/

namespace JsEmulator.Process

variable {s t : Kernel} {idx : Nat} {p : Proc} {copyout : Copyout}
variable {signal : Nat}

/-- A signal that `prepare_signal` drops. -/
def Ignored (p : Proc) (signal : Nat) : Prop :=
  p.signalHandlers signal = sigIgn ∧ signalCannotCatch signal = false ∨
    (p.signalHandlers signal = sigDfl ∨ signalCannotCatch signal = true) ∧
      defaultIgnored signal = true

/-- The signal that `prepare_signal` acts on: the lowest deliverable one that is not ignored,
zero when there is none. -/
structure ActsOn (p : Proc) (signal : Nat) : Prop where
  dropped : ∀ lower, 1 ≤ lower → (signal = 0 ∨ lower < signal) → Deliverable p lower →
    Ignored p lower
  found : signal ≠ 0 → Deliverable p signal ∧ ¬ Ignored p signal

theorem acts_on_unique {first second : Nat} (one : ActsOn p first) (two : ActsOn p second) :
    first = second := by
  rcases Nat.lt_trichotomy first second with below | same | above
  · by_cases none : first = 0
    · have later := two.found (by omega)
      exact absurd (one.dropped second (by omega) (.inl none) later.1) later.2
    · have earlier := one.found none
      exact absurd (two.dropped first (by omega) (.inr below) earlier.1) earlier.2
  · exact same
  · by_cases none : second = 0
    · have later := one.found (by omega)
      exact absurd (two.dropped first (by omega) (.inl none) later.1) later.2
    · have earlier := two.found none
      exact absurd (one.dropped second (by omega) (.inr above) earlier.1) earlier.2

theorem set_proc_twice (s : Kernel) (idx : Nat) (f g : Proc → Proc) :
    (s.setProc idx f).setProc idx g = s.setProc idx (fun p => g (f p)) := by
  simp only [Kernel.setProc, Function.update_self, Function.update_idem]

/-- The same state with other pending signals in one slot. -/
def withPending (idx : Nat) (pending : Word) (s : Kernel) : Kernel :=
  s.setProc idx (fun p => { p with pendingSignals := pending })

theorem with_pending_same (idx : Nat) (s : Kernel) :
    withPending idx (s.procs idx).pendingSignals s = s := by
  have same : ({ s.procs idx with pendingSignals := (s.procs idx).pendingSignals } : Proc) =
      s.procs idx := rfl
  simp only [withPending, Kernel.setProc, same, Function.update_eq_self]

theorem with_pending_twice (idx : Nat) (first second : Word) (s : Kernel) :
    withPending idx second (withPending idx first s) = withPending idx second s :=
  set_proc_twice s idx _ _

/-- A dropped signal only leaves the pending ones. -/
theorem prepare_turn_drops {loop : Nat → Kernel → Option Kernel} {fuel : Nat}
    (some : nextDeliverableSignal (s.procs idx) ≠ 0)
    (ignored : Ignored (s.procs idx) (nextDeliverableSignal (s.procs idx))) :
    prepareTurn copyout loop fuel idx s = loop idx (withPending idx ((s.procs idx).pendingSignals &&&
      ~~~(signalBit (nextDeliverableSignal (s.procs idx)))) s) := by
  simp only [prepareTurn, if_neg some, set_proc_same, withPending]
  rcases ignored with ⟨handler, catchable⟩ | ⟨default, harmless⟩
  · rw [if_pos ⟨handler, by simp [catchable]⟩]
    rfl
  · simp only [default, harmless, if_true]
    split <;> rfl

theorem next_deliverable_found (p : Proc) (some : nextDeliverableSignal p ≠ 0) :
    Deliverable p (nextDeliverableSignal p) := by
  unfold nextDeliverableSignal at some ⊢
  cases found : (List.range' 1 31).find? (fun signal =>
      (p.pendingSignals &&& ~~~p.blockedSignals).getLsbD signal) with
  | none =>
    rw [found] at some
    exact absurd rfl some
  | some first => exact List.find?_some found

/-- The next deliverable signal is the one acted on, unless it is ignored. -/
theorem next_acts_on (p : Proc) (kept : ¬ (nextDeliverableSignal p ≠ 0 ∧
    Ignored p (nextDeliverableSignal p))) : ActsOn p (nextDeliverableSignal p) := by
  constructor
  · intro lower positive before deliverable
    obtain ⟨some, least, _⟩ := next_deliverable_least positive deliverable
    omega
  · intro some
    exact ⟨next_deliverable_found p some, fun ignored => kept ⟨some, ignored⟩⟩

/-- What is acted on does not change when an ignored signal is dropped. -/
theorem acts_on_dropped {ignored : Nat} (drops : Ignored p ignored)
    (acts : ActsOn { p with pendingSignals := p.pendingSignals &&& ~~~(signalBit ignored) } signal) :
    ActsOn p signal := by
  constructor
  · intro lower positive before deliverable
    by_cases same : lower = ignored
    · exact same ▸ drops
    · exact acts.dropped lower positive before ((deliverable_cleared _ _ _).mpr ⟨deliverable, same⟩)
  · intro some
    exact ⟨((deliverable_cleared _ _ _).mp (acts.found some).1).1, (acts.found some).2⟩

/-- The loop drops ignored signals until it is at the one it acts on, and enough turns bring
it there: a signal is at most 31. -/
theorem prepare_loop_acts (fuel turns : Nat) (s : Kernel)
    (late : ∀ signal, 1 ≤ signal → Deliverable (s.procs idx) signal → 32 ≤ signal + turns) :
    prepareLoop copyout fuel idx s = none ∧ fuel ≤ turns ∨
    ∃ pending rest, ActsOn (s.procs idx)
        (nextDeliverableSignal ((withPending idx pending s).procs idx)) ∧
      prepareLoop copyout fuel idx s =
        prepareTurn copyout (prepareLoop copyout rest) rest idx (withPending idx pending s) := by
  induction fuel generalizing s turns with
  | zero => exact .inl ⟨rfl, Nat.zero_le _⟩
  | succ fuel ih =>
    by_cases dropped : nextDeliverableSignal (s.procs idx) ≠ 0 ∧
        Ignored (s.procs idx) (nextDeliverableSignal (s.procs idx))
    · obtain ⟨some, ignored⟩ := dropped
      have small := next_deliverable_small (s.procs idx)
      have enough := late _ (by omega) (next_deliverable_found _ some)
      have later := ih (turns - 1) (withPending idx ((s.procs idx).pendingSignals &&&
          ~~~(signalBit (nextDeliverableSignal (s.procs idx)))) s) (by
        intro signal positive deliverable
        rw [withPending, set_proc_same, deliverable_cleared] at deliverable
        obtain ⟨_, least, _⟩ := next_deliverable_least positive deliverable.1
        have different := deliverable.2
        omega)
      rw [prepareLoop, prepare_turn_drops some ignored]
      rcases later with ⟨none, short⟩ | ⟨pending, rest, acts, turn⟩
      · simp only [nsig] at small
        exact .inl ⟨none, by omega⟩
      · rw [with_pending_twice] at acts turn
        rw [withPending, set_proc_same] at acts
        exact .inr ⟨pending, rest, acts_on_dropped ignored acts, turn⟩
    · refine .inr ⟨(s.procs idx).pendingSignals, fuel, ?_, ?_⟩
      · rw [with_pending_same]
        exact next_acts_on _ dropped
      · rw [with_pending_same]
        rfl

/-- The record of a process that has just faulted without resolution. -/
def faulted (trap : CpuContext) (p : Proc) : Proc :=
  { p with
    ctx := trap
    call := none
    pendingSignals := p.pendingSignals ||| signalBit sigsegv }

/-- A signal sent to a runnable process only becomes pending. -/
theorem send_signal_running (inTable : idx < s.nproc) (running : (s.procs idx).state = .runnable)
    (positive : signal ≠ 0) (small : signal < nsig) :
    (sendSignal idx signal s).2 = s.setProc idx (fun p =>
      { p with pendingSignals := p.pendingSignals ||| signalBit signal }) := by
  simp [sendSignal, Nat.not_le.mpr inTable, Nat.not_le.mpr small, positive, running, interrupts]

/-- What the fault leads to: the process is a zombie, it has been stopped, or it is at the first
instruction of its `SIGSEGV` handler, with the faulting context saved for its return. -/
def FaultSettled (s t : Kernel) (trap : CpuContext) : Prop :=
  (t.procs s.current).state = .zombie ∨
  (∃ new, t.history = new ++ s.history ∧ .stopped s.current ∈ new) ∨
  ((t.procs s.current).ctx.pc = (s.procs s.current).signalHandlers sigsegv ∧
    (t.procs s.current).ctx.sp = trap.sp - 4 ∧
    (t.procs s.current).ctx.regs 0 = BitVec.ofNat 32 sigsegv ∧
    (t.procs s.current).signalSavedCtx = trap)

/-- The process is outside any handler, and the signal `prepare_signal` acts on is `SIGSEGV`
or one for which no handler can be entered. -/
def FaultHandled (p : Proc) : Prop :=
  p.inSignal = false ∧ ∃ signal, ActsOn (faulted p.ctx p) signal ∧ signal ≠ 0 ∧
    (signal = sigsegv ∨ p.signalHandlers signal = sigDfl ∨ signalCannotCatch signal = true ∨
      p.signalRestorers signal = 0)

/-- The fault is a signal to the current process and a run of `prepare_signal` for it. -/
theorem on_page_fault_unresolved (env : Env) (fuel : Nat) (trap : CpuContext) (running : Running s)
    (inTable : s.current < s.nproc) : onPageFault env fuel trap false s =
      (prepareSignal env.copyout fuel s.current (s.setProc s.current (faulted trap))).map loadCtx := by
  have sent : (sendSignal s.current sigsegv (saveCtx s.current trap s)).2 =
      s.setProc s.current (faulted trap) := by
    have awake : ((saveCtx s.current trap s).procs s.current).state = .runnable := by
      rw [saveCtx, set_proc_same]
      exact running
    have listed : s.current < (saveCtx s.current trap s).nproc := inTable
    rw [send_signal_running listed awake (by decide) (by decide), saveCtx, set_proc_twice]
    rfl
  simp only [onPageFault, Bool.false_eq_true, if_false]
  rw [show (saveCtx s.current trap s).current = s.current from rfl, sent]
  rfl

/-- Loading the context changes no process otherwise, and no history. -/
theorem load_ctx_keeps (s : Kernel) (idx : Nat) :
    (∃ call, (loadCtx s).procs idx = { s.procs idx with call := call }) ∧
      (loadCtx s).history = s.history := by
  unfold loadCtx noteResumed
  cases called : (s.procs s.current).call with
  | none => exact ⟨⟨_, rfl⟩, rfl⟩
  | some call =>
    refine ⟨?_, rfl⟩
    simp only [record_procs, set_proc_procs]
    split
    case isTrue same => exact ⟨none, by rw [same]⟩
    case isFalse => exact ⟨_, rfl⟩

/-- The history only grows. -/
theorem kindred_history (moved : Kindred s t) : s.history <:+ t.history := by
  induction moved with
  | refl => exact List.suffix_refl _
  | tail _ last ih =>
    refine ih.trans ?_
    cases last with
    | calm _ history _ _
    | fated _ _ _ _ _ history _ _
    | told _ _ _ history _ _
    | masked _ _ _ _ _ history _ _ => exact history ▸ List.suffix_refl _
    | event _ _ _ _ _ _ history _ _ => exact history ▸ List.suffix_cons _ _
    | forked _ _ _ _ _ _ _ _ history _ => exact history ▸ List.suffix_cons _ _
    | installed _ _ _ _ _ _ _ history _ _ => exact history ▸ List.suffix_cons _ _

theorem stop_process_history (idx signal : Nat) (s : Kernel) :
    (stopProcess idx signal s).history = .stopped idx :: s.history := by
  unfold stopProcess notifyParent
  rw [note_history]
  split <;> rfl

/-- Entering a handler, as the interrupted process sees it. -/
theorem start_handler_keeps (idx signal : Nat) (handler sp : Word) (s : Kernel) :
    let t := startHandler idx signal handler sp
      (noteResumed idx (s.procs idx).ctx (enterHandler idx signal s))
    (t.procs idx).state = (s.procs idx).state ∧ t.history = s.history ∧ (t.procs idx).ctx.pc = handler ∧ (t.procs idx).ctx.sp = sp ∧
      (t.procs idx).ctx.regs 0 = BitVec.ofNat 32 signal ∧
      (t.procs idx).signalSavedCtx = (s.procs idx).ctx := by
  simp only [startHandler, noteResumed, enterHandler, record_procs, set_proc_same, frameProc]
  split <;> simp [frameProc]

section

variable (next : nextDeliverableSignal (s.procs idx) = signal) (some : signal ≠ 0)
  (acted : ¬ Ignored (s.procs idx) signal)
include next some acted

/-- The outcomes of the turn that acts: the process is a zombie, it has been stopped, or it
enters the handler of the signal. -/
theorem prepare_turn_acts {rest : Nat}
    (turn : prepareTurn copyout (prepareLoop copyout rest) rest idx s = .some t) :
    (t.procs idx).state = .zombie ∨
    (∃ new, t.history = new ++ s.history ∧ .stopped idx ∈ new) ∨
    (s.procs idx).signalHandlers signal ≠ sigDfl ∧ signalCannotCatch signal = false ∧
      (s.procs idx).signalRestorers signal ≠ 0 ∧ t.history = s.history ∧
      (t.procs idx).ctx.pc = (s.procs idx).signalHandlers signal ∧
      (t.procs idx).ctx.sp = (s.procs idx).ctx.sp - 4 ∧
      (t.procs idx).ctx.regs 0 = BitVec.ofNat 32 signal ∧
      (t.procs idx).signalSavedCtx = (s.procs idx).ctx := by
  simp only [prepareTurn, next, if_neg some, set_proc_same] at turn
  have unframed (u : Kernel) : ((exitUnframed idx u).procs idx).state = .zombie := by
    rw [exitUnframed, set_proc_same]
    exact do_exit_zombie idx _ u
  split at turn
  case isTrue ignored => exact absurd (.inl ⟨ignored.1, by simpa using ignored.2⟩) acted
  split at turn
  case isTrue default =>
    split at turn
    case isTrue harmless => exact absurd (.inr ⟨default, harmless⟩) acted
    split at turn
    case isTrue stops =>
      have moved := (switch_and_continue_steady (prepare_loop_steady copyout rest) turn).1.kin
      obtain ⟨later, grown⟩ := kindred_history moved
      refine .inr (.inl ⟨later ++ [.stopped idx], ?_, by simp⟩)
      rw [← grown, stop_process_history, List.append_assoc]
      rfl
    case isFalse =>
      refine .inl (fatal_zombie ?_ turn)
      rw [set_proc_same]
      exact do_exit_zombie idx _ _
  case isFalse caught =>
    rw [not_or, Bool.not_eq_true] at caught
    split at turn
    case isTrue unrestored => exact .inl (fatal_zombie (unframed _) turn)
    case isFalse restored =>
      split at turn
      case isTrue =>
        cases turn
        refine .inr (.inr ⟨caught.1, caught.2, restored, ?_⟩)
        have entered := start_handler_keeps idx signal ((s.procs idx).signalHandlers signal)
          ((s.procs idx).ctx.sp - 4) (s.setProc idx (fun p =>
            { p with pendingSignals := p.pendingSignals &&& ~~~(signalBit signal) }))
        simpa only [set_proc_same, set_proc_history] using entered.2
      case isFalse => exact .inl (fatal_zombie (unframed _) turn)

/-- With room for its frame a caught signal enters its handler. -/
theorem prepare_turn_enters {loop : Nat → Kernel → Option Kernel} {fuel : Nat}
    (handler : (s.procs idx).signalHandlers signal ≠ sigDfl)
    (catchable : signalCannotCatch signal = false)
    (restored : (s.procs idx).signalRestorers signal ≠ 0) :
    ∃ t, prepareTurn (fun _ _ _ => true) loop fuel idx s = .some t ∧
      (t.procs idx).state = (s.procs idx).state ∧ t.history = s.history ∧
      (t.procs idx).ctx.regs 0 = BitVec.ofNat 32 signal := by
  have caught : (s.procs idx).signalHandlers signal ≠ sigIgn :=
    fun ignored => acted (.inl ⟨ignored, catchable⟩)
  have entered := start_handler_keeps idx signal ((s.procs idx).signalHandlers signal)
    ((s.procs idx).ctx.sp - 4) (s.setProc idx (fun p =>
      { p with pendingSignals := p.pendingSignals &&& ~~~(signalBit signal) }))
  simp only [set_proc_same, set_proc_history] at entered
  refine ⟨_, ?_, entered.1, entered.2.1, entered.2.2.2.2.1⟩
  simp only [prepareTurn, next, if_neg some, set_proc_same, caught, handler, catchable, restored,
    false_and, Bool.false_eq_true, or_self, if_false, if_true]

end

/-- A runnable process that has not been stopped has its fault settled only by being at the
first instruction of its `SIGSEGV` handler. -/
theorem settled_running {trap : CpuContext} (awake : (t.procs s.current).state = .runnable)
    (history : t.history = s.history) (settled : FaultSettled s t trap) :
    (t.procs s.current).ctx.sp = trap.sp - 4 ∧
      (t.procs s.current).ctx.regs 0 = BitVec.ofNat 32 sigsegv := by
  rcases settled with dead | ⟨new, grown, stopped⟩ | ⟨_, sp, number, _⟩
  · rw [awake] at dead
    contradiction
  · rw [history, List.self_eq_append_left] at grown
    subst grown
    simp at stopped
  · exact ⟨sp, number⟩

/-- The processor gets the process as `prepare_signal` left it. -/
theorem fault_settled_loaded (u : Kernel) (trap : CpuContext) :
    FaultSettled s (loadCtx u) trap ↔ FaultSettled s u trap := by
  obtain ⟨⟨call, record⟩, same⟩ := load_ctx_keeps u s.current
  simp only [FaultSettled, record, same]

theorem stack_moved (sp : Word) : sp ≠ sp - 4 := by
  bv_omega

/-- The loop settles the fault of a process whose first signal settles it. -/
theorem prepare_loop_settles {fuel : Nat} {trap : CpuContext}
    (acts : ActsOn (faulted trap (s.procs s.current)) signal) (some : signal ≠ 0)
    (settles : signal = sigsegv ∨ (s.procs s.current).signalHandlers signal = sigDfl ∨ signalCannotCatch signal = true ∨ (s.procs s.current).signalRestorers signal = 0)
    (looped : prepareLoop copyout fuel s.current (s.setProc s.current (faulted trap)) = .some t) :
    FaultSettled s t trap := by
  rcases prepare_loop_acts fuel 31 _ (fun signal positive _ => by omega) with
    ⟨none, _⟩ | ⟨pending, rest, found, turned⟩
  · rw [none] at looped
    contradiction
  rw [set_proc_same] at found
  rw [turned] at looped
  have outcome := prepare_turn_acts (acts_on_unique found acts) some (by
    rw [withPending, set_proc_same, set_proc_same]
    exact (acts.found some).2) looped
  simp only [withPending, set_proc_same, set_proc_history] at outcome
  rcases outcome with dead | stopped | ⟨handler, catchable, restored, _, pc, sp, number, saved⟩
  · exact .inl dead
  · exact .inr (.inl stopped)
  · rcases settles with own | default | uncatchable | unrestored
    · subst own
      exact .inr (.inr ⟨pc, sp, number, saved⟩)
    · exact absurd default handler
    · rw [catchable] at uncatchable
      contradiction
    · exact absurd unrestored restored

/-- Outside any handler the loop reaches a signal it acts on. If that settles nothing, the
process is where it was, or at the first instruction of another handler. -/
theorem prepare_loop_unsettled (trap : CpuContext) (running : Running s)
    (unhandled : ∀ signal, ActsOn (faulted trap (s.procs s.current)) signal → signal ≠ 0 →
      signal ≠ sigsegv ∧ (s.procs s.current).signalHandlers signal ≠ sigDfl ∧
        signalCannotCatch signal = false ∧ (s.procs s.current).signalRestorers signal ≠ 0) :
    ∃ t, prepareLoop (fun _ _ _ => true) 32 s.current (s.setProc s.current (faulted trap)) =
      .some t ∧ ¬ FaultSettled s t trap := by
  rcases prepare_loop_acts 32 31 _ (fun signal positive _ => by omega) with
    ⟨_, short⟩ | ⟨pending, rest, found, turned⟩
  · omega
  rw [set_proc_same] at found
  rw [turned]
  have record : (withPending s.current pending (s.setProc s.current (faulted trap))).procs
      s.current = { faulted trap (s.procs s.current) with pendingSignals := pending } := by
    rw [withPending, set_proc_same, set_proc_same]
  have awake : (s.procs s.current).state = .runnable := running
  generalize acted : nextDeliverableSignal _ = signal at found
  by_cases none : signal = 0
  · rw [none] at acted
    refine ⟨_, by rw [prepareTurn, acted, if_pos rfl], fun settled => ?_⟩
    have still : ((withPending s.current pending (s.setProc s.current (faulted trap))).procs
        s.current).state = .runnable := record ▸ awake
    have moved := (settled_running still rfl settled).1
    rw [record] at moved
    exact stack_moved trap.sp moved
  · obtain ⟨other, handler, catchable, restored⟩ := unhandled signal found none
    obtain ⟨t, entered, still, history, number⟩ := prepare_turn_enters acted none
      (by rw [record]; exact (found.found none).2) (by rw [record]; exact handler) catchable
      (by rw [record]; exact restored)
    refine ⟨t, entered, fun settled => other ?_⟩
    rw [record] at still
    have reached := (settled_running (still.trans awake) history settled).2
    rw [number, ← BitVec.toNat_inj, BitVec.toNat_ofNat, BitVec.toNat_ofNat] at reached
    have small := next_deliverable_small ((withPending s.current pending
      (s.setProc s.current (faulted trap))).procs s.current)
    simp only [acted, nsig, sigsegv] at small reached ⊢
    omega

/-- A fault is settled, whatever user memory holds, exactly when the signal that
`prepare_signal` acts on settles it. -/
theorem page_fault_settled_iff (s : Kernel) (trap : CpuContext) (running : Running s)
    (inTable : s.current < s.nproc) :
    (∀ env fuel t, onPageFault env fuel trap false s = some t → FaultSettled s t trap) ↔
      FaultHandled (s.procs s.current) := by
  constructor
  · intro settled
    have awake : (s.procs s.current).state = .runnable := running
    -- a machine on which every copy succeeds, and enough turns
    have loaded (t : Kernel) (prepared : prepareSignal sampleEnv.copyout 32 s.current
        (s.setProc s.current (faulted trap)) = some t) : FaultSettled s t trap := by
      rw [← fault_settled_loaded]
      refine settled sampleEnv 32 (loadCtx t) ?_
      rw [on_page_fault_unresolved sampleEnv 32 trap running inTable, prepared]
      rfl
    simp only [prepareSignal, enterPrepare, set_proc_same] at loaded
    by_contra unhandled
    by_cases outside : (s.procs s.current).inSignal = false
    · obtain ⟨t, looped, unsettled⟩ := prepare_loop_unsettled trap running (by
        intro signal acts some
        by_contra settles
        refine unhandled ⟨outside, signal, ⟨acts.dropped, acts.found⟩, some, ?_⟩
        rw [← Bool.not_eq_true] at settles
        tauto)
      refine unsettled (loaded t ?_)
      rw [if_neg (by simp [faulted, outside, awake])]
      exact looped
    · have stays := loaded _ (if_pos (.inr (by simpa [faulted] using outside)))
      have still : ((s.setProc s.current (faulted trap)).procs s.current).state = .runnable := by
        rw [set_proc_same]
        exact awake
      have moved := (settled_running still rfl stays).1
      rw [set_proc_same] at moved
      exact stack_moved trap.sp moved
  · rintro ⟨outside, signal, acts, some, settles⟩ env fuel t entered
    have awake : (s.procs s.current).state = .runnable := running
    rw [on_page_fault_unresolved env fuel trap running inTable, prepareSignal, enterPrepare,
      set_proc_same, if_neg (by simp [faulted, outside, awake]), Option.map_eq_some_iff] at entered
    obtain ⟨u, looped, rfl⟩ := entered
    rw [fault_settled_loaded]
    exact prepare_loop_settles ⟨acts.dropped, acts.found⟩ some settles looped

/-- A parent without handlers faults: it is a zombie, and its child goes on. -/
theorem page_fault_settled_iff_parent :
    ∃ s t, Reachable s ∧ onPageFault sampleEnv 8 (sampleCtx 0 0 0 0) false s = some t ∧
      FaultSettled s t (sampleCtx 0 0 0 0) := by
  obtain ⟨s, reached, checked⟩ := run_reaches (sampleCtx 0 0 0 0) [sampleCall sysFork 0 0 0]
    (fun s => decide ((s.procs s.current).state = .runnable ∧ s.current < s.nproc ∧
      (s.procs s.current).inSignal = false ∧ (s.procs s.current).pendingSignals = 0 ∧
      (s.procs s.current).blockedSignals = 0 ∧ (s.procs s.current).signalHandlers 11 = sigDfl ∧
      (onPageFault sampleEnv 8 (sampleCtx 0 0 0 0) false s).isSome = true))
    (by decide +kernel)
  obtain ⟨running, inTable, outside, pending, blocked, default, entered⟩ := of_decide_eq_true checked
  obtain ⟨t, entered⟩ := Option.isSome_iff_exists.mp entered
  refine ⟨s, t, reached, entered, (page_fault_settled_iff s _ running inTable).mpr ?_ _ _ _ entered⟩
  have only {signal : Nat} (deliverable : Deliverable
      (faulted (s.procs s.current).ctx (s.procs s.current)) signal) : signal = sigsegv := by
    simp only [Deliverable, faulted, pending, BitVec.getLsbD_and, BitVec.getLsbD_or,
      BitVec.ofNat_eq_ofNat, BitVec.getLsbD_zero, Bool.false_or, Bool.and_eq_true,
      signal_bit_at] at deliverable
    exact deliverable.1.2
  refine ⟨outside, sigsegv, ⟨?_, ?_⟩, by decide, .inr (.inl default)⟩
  · intro lower positive before deliverable
    simp [only deliverable, sigsegv] at before
  · intro _
    constructor
    · simp only [Deliverable, faulted, pending, blocked]
      decide
    · rintro (⟨ignored, _⟩ | ⟨_, harmless⟩)
      · exact absurd (default.symm.trans ignored) (by decide)
      · exact absurd harmless (by decide)

/-- A fault inside a `SIGSEGV` handler: the process resumes at the faulting instruction, with
nothing changed. -/
theorem fault_in_handler_repeats :
    ∃ s, Reachable s ∧ ∀ env fuel, ∃ t, onPageFault env fuel (sampleCtx 0 0 0 0) false s = some t ∧
      (t.procs s.current).state = .runnable ∧ (t.procs s.current).ctx = sampleCtx 0 0 0 0 ∧
      ¬ FaultSettled s t (sampleCtx 0 0 0 0) := by
  obtain ⟨s, reached, checked⟩ := run_reaches (sampleCtx 0 0 0 0)
    [sampleCall sysSigaction 11 1 0, sampleCall sysKill 0 11 0]
    (fun s => decide ((s.procs s.current).state = .runnable ∧ s.current < s.nproc ∧
      (s.procs s.current).inSignal = true))
    (by decide +kernel)
  obtain ⟨running, inTable, handling⟩ := of_decide_eq_true checked
  refine ⟨s, reached, fun env fuel => ⟨loadCtx (s.setProc s.current (faulted (sampleCtx 0 0 0 0))), ?_⟩⟩
  obtain ⟨⟨call, record⟩, history⟩ :=
    load_ctx_keeps (s.setProc s.current (faulted (sampleCtx 0 0 0 0))) s.current
  rw [set_proc_same] at record
  have awake := (congrArg Proc.state record).trans running
  refine ⟨?_, awake, congrArg Proc.ctx record, fun settled => ?_⟩
  · rw [on_page_fault_unresolved env fuel _ running inTable, prepareSignal, enterPrepare,
      set_proc_same, if_pos (.inr handling)]
    rfl
  · have moved := (settled_running awake history settled).1
    rw [record] at moved
    exact stack_moved _ moved

end JsEmulator.Process
