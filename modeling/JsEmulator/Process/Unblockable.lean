import JsEmulator.Process.Runs

/-!
# The signals that cannot be blocked

`sys_sigprocmask` keeps `SIGKILL` and `SIGSTOP` out of the mask it is given, but
`sys_sigaction` stores the mask of an action as it finds it in user memory, and a
handler runs with that mask. `prepare_signal` delivers nothing to a process inside a
handler, and takes the lowest signal first, so that a caught one goes before
`SIGKILL`.

In every run in which no installed mask has one of the two signals, no process ever
blocks them; and a process outside any handler that has `SIGKILL` pending, and no
lower signal that it catches, is a zombie when `prepare_signal` returns.
-/

namespace JsEmulator.Process

variable {s t : Kernel} {idx signal : Nat} {copyout : Copyout} {first : Word}

/-- Neither of the two signals is in the mask. -/
def FreeMask (mask : Word) : Prop :=
  mask.getLsbD sigkill = false ∧ mask.getLsbD sigstop = false

instance (mask : Word) : Decidable (FreeMask mask) := inferInstanceAs (Decidable (_ ∧ _))

/-- An installed action leaves the two signals out of its mask. -/
def ProcEvent.InstallsFree : ProcEvent → Prop
  | .installed _ _ mask => FreeMask mask
  | _ => True

/-- None of the masks of a process has one of the two signals. -/
structure MasksFree (m : SignalMasks) : Prop where
  blocked : FreeMask m.blocked
  actions : ∀ signal, FreeMask (m.actions signal)
  saved : FreeMask m.saved

theorem free_zero : FreeMask 0 := by decide

theorem free_or {second : Word} (freeFirst : FreeMask first) (freeSecond : FreeMask second) :
    FreeMask (first ||| second) := by
  simp [FreeMask, freeFirst.1, freeFirst.2, freeSecond.1, freeSecond.2]

theorem free_and (second : Word) (free : FreeMask first) : FreeMask (first &&& second) := by
  simp [FreeMask, free.1, free.2]

theorem signal_bit_at (signal k : Nat) :
    (signalBit signal).getLsbD k = true ↔ k < 32 ∧ k = signal := by
  simp only [signalBit, BitVec.getLsbD_shiftLeft, BitVec.getLsbD_one, Bool.and_eq_true,
    decide_eq_true_eq, Bool.not_eq_true', decide_eq_false_iff_not]
  omega

/-- The bit of a signal that can be caught. -/
theorem free_signal_bit (catchable : signalCannotCatch signal = false) :
    FreeMask (signalBit signal) := by
  simp only [signalCannotCatch, Bool.or_eq_false_iff, beq_eq_false_iff_ne] at catchable
  constructor
  · rw [← Bool.not_eq_true, signal_bit_at]
    exact fun bit => catchable.1 bit.2.symm
  · rw [← Bool.not_eq_true, signal_bit_at]
    exact fun bit => catchable.2 bit.2.symm

theorem free_blockable (mask : Word) : FreeMask (blockable mask) := by
  simp [FreeMask, blockable, signalBit, sigkill, sigstop]

/-- Masks that are free stay so, whatever happens to them. -/
theorem mask_change_free {m n : SignalMasks} (change : MaskChange m n) (free : MasksFree m) :
    MasksFree n := by
  cases change with
  | framed signal catchable =>
    exact ⟨free_or (free_or free.blocked (free.actions signal))
      (free_signal_bit catchable), free.actions, free.blocked⟩
  | restored => exact ⟨free.saved, free.actions, free.saved⟩
  | raised mask =>
    exact ⟨free_or free.blocked (free_blockable mask), free.actions, free.saved⟩
  | lowered mask => exact ⟨free_and _ free.blocked, free.actions, free.saved⟩
  | replaced mask => exact ⟨free_blockable mask, free.actions, free.saved⟩
  | executed actions each =>
    refine ⟨free.blocked, fun signal => ?_, free.saved⟩
    show FreeMask (actions signal)
    rcases each signal with cleared | kept
    · rw [cleared]
      exact free_zero
    · rw [kept]
      exact free.actions signal

/-- When every installed mask is free, all masks are. -/
def Unblockable (s : Kernel) : Prop :=
  (∀ e ∈ s.history, e.InstallsFree) → ∀ i, MasksFree (s.procs i).masks

/-- One slot is changed, and the others are the same. -/
theorem masks_free_everywhere (own : MasksFree (t.procs idx).masks)
    (others : ∀ i, i ≠ idx → t.procs i = s.procs i) (free : ∀ i, MasksFree (s.procs i).masks)
    (i : Nat) : MasksFree (t.procs i).masks := by
  by_cases same : i = idx
  · rwa [same]
  · rw [others i same]
    exact free i

theorem unblockable_move (s t : Kernel) (move : KinMove s t) (before : Unblockable s) :
    Unblockable t := by
  intro installs
  cases move with
  | calm procs history nproc statuses =>
    intro i
    rw [(procs i).masks]
    exact before (history ▸ installs) i
  | event e unforked legal kin masks fates history nproc statuses =>
    intro i
    rw [masks i]
    rw [history] at installs
    exact before (fun e member => installs e (List.mem_cons_of_mem _ member)) i
  | fated idx change kin masks others history nproc statuses =>
    have kept := before (history ▸ installs)
    exact masks_free_everywhere (masks ▸ kept idx) others kept
  | told status sound procs history nproc statuses =>
    intro i
    rw [procs]
    exact before (history ▸ installs) i
  | forked parent child free living kin masks fate others history statuses =>
    rw [history] at installs
    have kept := before (fun e member => installs e (List.mem_cons_of_mem _ member))
    refine masks_free_everywhere ?_ others kept
    rw [masks]
    exact ⟨(kept parent).blocked, (kept parent).actions, (kept child).saved⟩
  | masked idx change kin fate others history nproc statuses =>
    have kept := before (history ▸ installs)
    exact masks_free_everywhere (mask_change_free change (kept idx)) others kept
  | installed idx signal mask masks kin fate others history nproc statuses =>
    rw [history] at installs
    have kept := before (fun e member => installs e (List.mem_cons_of_mem _ member))
    refine masks_free_everywhere ?_ others kept
    rw [masks]
    refine ⟨(kept idx).blocked, fun n => ?_, (kept idx).saved⟩
    have stored : FreeMask mask := installs _ List.mem_cons_self
    by_cases same : n = signal
    · subst same
      simpa using stored
    · have old : FreeMask ((s.procs idx).signalMasks n) := (kept idx).actions n
      simpa [same] using old

theorem kindred_unblockable (moved : Kindred s t) (before : Unblockable s) : Unblockable t := by
  induction moved with
  | refl => exact before
  | tail _ last ih => exact unblockable_move _ _ last ih

theorem reachable_unblockable (reached : Reachable s) : Unblockable s := by
  refine (reachable_kin Unblockable ?_ unblockable_move s reached).2
  intro ctx _ i
  have fresh : (((booted ctx).procs i).masks) = ⟨0, fun _ => 0, 0⟩ := by
    by_cases first : i = 0
    · subst first
      rfl
    · simp [booted, first, Proc.masks, emptyProc]
  rw [fresh]
  exact ⟨free_zero, fun _ => free_zero, free_zero⟩

/-- A signal that is pending and not blocked. -/
def Deliverable (p : Proc) (signal : Nat) : Prop :=
  (p.pendingSignals &&& ~~~p.blockedSignals).getLsbD signal = true

/-- The lowest deliverable signal is found. -/
theorem next_deliverable_least {p : Proc} (positive : 1 ≤ signal)
    (deliverable : Deliverable p signal) :
    1 ≤ nextDeliverableSignal p ∧ nextDeliverableSignal p ≤ signal ∧
      Deliverable p (nextDeliverableSignal p) := by
  have small : signal < 32 := by
    by_contra large
    simp [Deliverable, BitVec.getLsbD_of_ge _ _ (not_lt.mp large)] at deliverable
  unfold nextDeliverableSignal
  cases found : (List.range' 1 31).find? (fun signal =>
      (p.pendingSignals &&& ~~~p.blockedSignals).getLsbD signal) with
  | none =>
    have absent := List.find?_eq_none.mp found signal (List.mem_range'_1.mpr ⟨positive, by omega⟩)
    exact absurd deliverable absent
  | some first =>
    rw [List.find?_range'_eq_some] at found
    obtain ⟨holds, member, least⟩ := found
    have bounds : 1 ≤ first ∧ first < 32 := by
      have inside := List.mem_range'_1.mp member
      omega
    refine ⟨bounds.1, ?_, holds⟩
    by_contra above
    have missing := least signal positive (by simpa using above)
    rw [deliverable] at missing
    simp at missing

/-- A process that exits is a zombie. -/
theorem do_exit_zombie (idx : Nat) (code : Word) (s : Kernel) :
    ((doExit idx code s).procs idx).state = .zombie :=
  (life_zombie _).mp (congrArg Fate.life (do_exit_fate idx code s))

/-- After a fatal signal the process is a zombie, whatever the loop of `prepare_signal`
goes on with. -/
theorem fatal_zombie {fuel : Nat} (dead : (s.procs idx).state = .zombie)
    (switched : switchAndContinue (prepareLoop copyout fuel) fuel s = some t) :
    (t.procs idx).state = .zombie :=
  (switch_and_continue_steady (prepare_loop_steady copyout fuel) switched).1.zombies
    idx dead

/-- No signal below `SIGKILL` that is deliverable is caught. -/
def KillsFirst (p : Proc) : Prop :=
  ∀ signal, 1 ≤ signal → signal < sigkill → Deliverable p signal →
    p.signalHandlers signal = sigDfl ∨ p.signalHandlers signal = sigIgn

/-- Taking a signal out of the pending ones leaves the others. -/
theorem deliverable_cleared (p : Proc) (signal other : Nat) :
    Deliverable { p with pendingSignals := p.pendingSignals &&& ~~~(signalBit signal) } other ↔
      Deliverable p other ∧ other ≠ signal := by
  by_cases small : other < 32
  · have bit : (signalBit signal).getLsbD other = true ↔ other = signal := by
      rw [signal_bit_at]
      exact and_iff_right small
    simp only [Deliverable, BitVec.getLsbD_and, BitVec.getLsbD_not, small, decide_true,
      Bool.true_and, Bool.and_eq_true, Bool.not_eq_true', ← Bool.not_eq_true, bit]
    tauto
  · simp [Deliverable, BitVec.getLsbD_of_ge _ _ (not_lt.mp small)]

/-- The loop of `prepare_signal` goes through the ignored signals below `SIGKILL` and
ends the process with the first that is not. -/
theorem prepare_loop_kills (fuel : Nat) (s : Kernel) (killed : Deliverable (s.procs idx) sigkill)
    (first : KillsFirst (s.procs idx)) (looped : prepareLoop copyout fuel idx s = some t) :
    (t.procs idx).state = .zombie := by
  induction fuel generalizing s with
  | zero => simp [prepareLoop] at looped
  | succ fuel ih =>
    obtain ⟨positive, bounded, found⟩ := next_deliverable_least (by decide) killed
    simp only [prepareLoop, prepareTurn] at looped
    generalize nextDeliverableSignal (s.procs idx) = signal at positive bounded found looped
    have harmless : defaultIgnored signal = false ∧ defaultStops signal = false := by
      simp only [sigkill] at bounded
      simp only [defaultIgnored, defaultStops, sigchld, sigcont, sigstop, sigtstp, sigttin, sigttou,
        Bool.or_eq_false_iff, beq_eq_false_iff_ne]
      omega
    rw [if_neg (by omega)] at looped
    simp only [set_proc_same, harmless.1, harmless.2, Bool.false_eq_true, if_false] at looped
    have ended (code : Word) (v : Kernel) (last : switchAndContinue (prepareLoop copyout fuel) fuel
        ((doExit idx code v).setProc idx (fun p =>
          { p with waitSignal := BitVec.ofNat 32 signal, ending := some (.killed signal) })) = some t) :
        (t.procs idx).state = .zombie := by
      refine fatal_zombie ?_ last
      rw [set_proc_same]
      exact do_exit_zombie idx code v
    by_cases own : signal = sigkill
    · have uncatchable : signalCannotCatch signal = true := by simp [signalCannotCatch, own]
      simp only [uncatchable, not_true_eq_false, and_false, if_false, or_true, if_true] at looped
      exact ended _ _ looped
    have catchable : signalCannotCatch signal = false := by
      simp only [sigkill] at bounded own
      simp only [signalCannotCatch, sigkill, sigstop, Bool.or_eq_false_iff, beq_eq_false_iff_ne]
      omega
    rcases first signal positive (by omega) found with default | ignored
    · simp only [default, catchable, sigDfl, sigIgn] at looped
      rw [if_neg (by decide), if_pos (by decide)] at looped
      exact ended _ _ looped
    simp only [ignored, catchable, Bool.false_eq_true, not_false_eq_true, and_self,
      if_true] at looped
    refine ih _ ?_ ?_ looped
    · rw [set_proc_same, deliverable_cleared]
      exact ⟨killed, Ne.symm own⟩
    · intro other least below deliverable
      rw [set_proc_same] at deliverable ⊢
      exact first other least below ((deliverable_cleared _ _ _).mp deliverable).1

/-- A process that `prepare_signal` kills: it is runnable, outside any handler, and
catches no deliverable signal that comes before `SIGKILL`. -/
structure KillReady (p : Proc) : Prop where
  running : p.state = .runnable
  outside : p.inSignal = false
  first : KillsFirst p

/-- `SIGKILL` and `SIGSTOP` cannot be blocked: at every point of a run in which every
installed mask leaves them out, no process blocks them; and if `prepare_signal` is
then run for a process with `SIGKILL` pending that is outside any handler and catches
no signal that comes first, the process is a zombie when it returns. -/
theorem kill_and_stop_unblocked (s u : Kernel) (reached : Reachable s) (during : Kindred s u)
    (installs : ∀ e ∈ u.history, e.InstallsFree) :
    (∀ i, (u.procs i).blockedSignals.getLsbD sigkill = false ∧
      (u.procs i).blockedSignals.getLsbD sigstop = false) ∧
    (∀ copyout fuel idx t, (u.procs idx).pendingSignals.getLsbD sigkill = true →
      KillReady (u.procs idx) → prepareSignal copyout fuel idx u = some t →
      (t.procs idx).state = .zombie) := by
  have free := kindred_unblockable during (reachable_unblockable reached) installs
  refine ⟨fun i => (free i).blocked, ?_⟩
  intro copyout fuel idx t pending ready prepared
  have killed : Deliverable (u.procs idx) sigkill := by
    have unblocked : (u.procs idx).blockedSignals.getLsbD sigkill = false := (free idx).blocked.1
    simp only [Deliverable, BitVec.getLsbD_and, BitVec.getLsbD_not, pending, unblocked]
    rfl
  rw [prepareSignal, enterPrepare, if_neg (by simp [ready.running, ready.outside])] at prepared
  exact prepare_loop_kills fuel u killed ready.first prepared

/-- A child that its parent has killed dies when `prepare_signal` is run for it. -/
theorem kill_and_stop_unblocked_child :
    ∃ s t, Reachable s ∧ (s.procs 1).pendingSignals.getLsbD sigkill = true ∧
      KillReady (s.procs 1) ∧ prepareSignal sampleEnv.copyout 8 1 s = some t ∧
      (t.procs 1).state = .zombie := by
  obtain ⟨s, reached, checked⟩ := run_reaches (sampleCtx 0 0 0 0)
    [sampleCall sysFork 0 0 0, sampleCall sysKill 1 9 0]
    (fun s => decide (s.history = [.forked 0 1] ∧
      (s.procs 1).pendingSignals.getLsbD sigkill = true ∧ (s.procs 1).state = .runnable ∧
      (s.procs 1).inSignal = false ∧ (∀ n < sigkill, (s.procs 1).signalHandlers n = sigDfl) ∧
      (prepareSignal sampleEnv.copyout 8 1 s).isSome = true))
    (by decide +kernel)
  obtain ⟨told, pending, running, outside, default, prepared⟩ := of_decide_eq_true checked
  obtain ⟨t, prepared⟩ := Option.isSome_iff_exists.mp prepared
  have ready : KillReady (s.procs 1) :=
    ⟨running, outside, fun signal _ below _ => .inl (default signal below)⟩
  refine ⟨s, t, reached, pending, ready, prepared, ?_⟩
  refine (kill_and_stop_unblocked s s reached (kindred_refl s) ?_).2 _ _ 1 t pending ready prepared
  rw [told]
  simp [ProcEvent.InstallsFree]

/-- A handler installed with a full mask is entered, and the process is sent `SIGKILL`
while it runs: the process blocks both signals, and `prepare_signal` does nothing. -/
theorem kill_deferred_in_handler :
    ∃ s, Reachable s ∧ (s.procs 0).blockedSignals.getLsbD sigkill = true ∧
      (s.procs 0).blockedSignals.getLsbD sigstop = true ∧
      (s.procs 0).pendingSignals.getLsbD sigkill = true ∧ (s.procs 0).state = .runnable ∧
      ∀ copyout fuel, prepareSignal copyout fuel 0 s = some s := by
  obtain ⟨s, reached, checked⟩ := run_reaches (sampleCtx 0 0 0 0)
    [.syscall { sampleEnv with action := fun _ => some (0x4000100, -1, 0x4000200) } 8
        (sampleCtx sysSigaction 10 1 0),
      sampleCall sysKill 0 10 0, sampleCall sysKill 0 9 0]
    (fun s => decide ((s.procs 0).blockedSignals.getLsbD sigkill = true ∧
      (s.procs 0).blockedSignals.getLsbD sigstop = true ∧
      (s.procs 0).pendingSignals.getLsbD sigkill = true ∧ (s.procs 0).state = .runnable ∧
      (s.procs 0).inSignal = true))
    (by decide +kernel)
  obtain ⟨kill, stop, pending, running, handling⟩ := of_decide_eq_true checked
  refine ⟨s, reached, kill, stop, pending, running, fun copyout fuel => ?_⟩
  rw [prepareSignal, enterPrepare, if_pos (.inr handling)]

end JsEmulator.Process
