import JsEmulator.Process.Runs

/-!
# Signal frames

A process has room for one saved context. `prepare_signal` tests on entry that the
process is outside any handler, but after a stop or a fatal signal its loop goes on
with the process that `switch_to_next` chose, and that process may just have entered
a handler. A second caught signal then overwrites the frame.

In every run in which the loop never goes on with such a process while it has a
deliverable signal, frames do not nest, and each `sigreturn` gives back exactly the
context and mask at which the process was interrupted.
-/

namespace JsEmulator.Process

/-- The guard field, the frame of the history, and the saved context and mask agree. -/
structure FrameKept (p : Proc) : Prop where
  guarded : p.inSignal = p.frame.isSome
  saved : ∀ ctx mask, p.frame = some (ctx, mask) →
    p.signalSavedCtx = ctx ∧ p.signalSavedMask = mask

/-- The loop of `prepare_signal` has not gone on with a process inside a handler
that has a deliverable signal. -/
def Event.LoopsOutside : Event → Prop
  | .continued _ inSignal deliverable => inSignal = true → deliverable = 0
  | _ => True

/-- A delivery finds no frame, and a return restores the interrupted context. -/
def Event.FrameSound : Event → Prop
  | .delivered _ inSignal frame => inSignal = false ∧ frame = none
  | .restored _ ctx mask frame => frame = some (ctx, mask)
  | _ => True

theorem frame_kept_same (p q : Proc) (inSignal : q.inSignal = p.inSignal)
    (mask : q.signalSavedMask = p.signalSavedMask) (ctx : q.signalSavedCtx = p.signalSavedCtx)
    (frame : q.frame = p.frame) (kept : FrameKept p) : FrameKept q := by
  refine ⟨by rw [inSignal, frame, kept.guarded], ?_⟩
  intro savedCtx savedMask found
  rw [frame] at found
  rw [mask, ctx]
  exact kept.saved _ _ found

theorem frame_kept_fresh (p : Proc) (inSignal : p.inSignal = false) (frame : p.frame = none) :
    FrameKept p := by
  refine ⟨by simp [inSignal, frame], ?_⟩
  intro ctx mask found
  simp [frame] at found

theorem frame_kept_expired {p : Proc} (kept : FrameKept p) : FrameKept (expireProc p) := by
  refine frame_kept_same p _ ?_ ?_ ?_ ?_ kept <;>
    (simp only [expireProc]; split <;> [rfl; split <;> rfl])

theorem frame_kept_nudged (p q : Proc) (nudged : Nudge p q) (kept : FrameKept p) : FrameKept q := by
  cases nudged with
  | wake asleep object | interbyte deadline asleep reading timed | proceed stopped => exact frame_kept_same p _ rfl rfl rfl rfl kept
  | interrupt asleep =>
    refine frame_kept_same p _ ?_ ?_ ?_ ?_ kept <;>
      (simp only [interruptSleeper]; split <;> [split <;> [rfl; split <;> rfl]; rfl])
  | mark q same =>
    exact frame_kept_same p q same.inSignal same.signalSavedMask same.signalSavedCtx same.frame kept

/-- Only a delivery and a return touch the frame. A delivery finds the process
outside any handler, by the test on entry or by the assumption on the loop. -/
theorem frame_kept_changed (log : List Event) (i : Nat) (p : Proc) (events : List Event) (q : Proc)
    (change : Change log i p events q) (assumed : ∀ e ∈ events ++ log, e.LoopsOutside)
    (kept : FrameKept p) : FrameKept q ∧ ∀ e ∈ events, e.FrameSound := by
  cases change with
  | trapped ctx running => exact ⟨frame_kept_same p _ rfl rfl rfl rfl kept, by simp⟩
  | adjusted q uncalled same | left q awake away same =>
    exact ⟨frame_kept_same p q same.inSignal same.signalSavedMask same.signalSavedCtx same.frame
      kept, by simp⟩
  | replaced q inSignal frame uncalled => exact ⟨frame_kept_fresh q inSignal frame, by simp⟩
  | slept call chan running uncalled suspended | resumed call awake called =>
    exact ⟨frame_kept_same p _ rfl rfl rfl rfl kept, by simp [Event.FrameSound]⟩
  | continued => exact ⟨kept, by simp [Event.FrameSound]⟩
  | delivered signal running guarded =>
    have outside : p.inSignal = false := by
      rcases guarded with outside | ⟨deliverable, nonzero, looped⟩
      · exact outside
      · exact absurd (assumed _ (List.mem_append_right _ looped) rfl) nonzero
    have empty : p.frame = none := by simpa [outside] using kept.guarded
    refine ⟨⟨rfl, ?_⟩, by simp [Event.FrameSound, outside, empty]⟩
    intro ctx mask found
    simpa [frameProc] using found
  | restored handling uncalled =>
    refine ⟨frame_kept_fresh _ rfl rfl, ?_⟩
    obtain ⟨⟨ctx, mask⟩, framed⟩ := Option.isSome_iff_exists.mp (kept.guarded.symm.trans handling)
    obtain ⟨sameCtx, sameMask⟩ := kept.saved ctx mask framed
    simp [Event.FrameSound, framed, sameCtx, sameMask]

/-- The frame invariant, as one that runs preserve. -/
def frameInvariant : ProcessInvariant where
  holds := FrameKept
  assumed := Event.LoopsOutside
  sound := Event.FrameSound
  fresh := fun p inSignal frame _ => frame_kept_fresh p inSignal frame
  nudge := frame_kept_nudged
  expire := fun _ _ _ _ _ kept => ⟨frame_kept_expired kept, trivial⟩
  change := frame_kept_changed

/-- A completed `sigreturn` continues with the context and mask of the frame; no
result overwrites `R0`. -/
theorem sigreturn_returns (env : Env) (fuel : Nat) {trap ctx : CpuContext} {mask : Word}
    {s : Kernel} (number : trap.regs 0 = sysSigreturnNumber)
    (framed : (s.procs s.current).frame = some (ctx, mask)) (kept : FrameKept (s.procs s.current)) :
    ∃ u, onSyscall env fuel trap s = returnToUser env fuel u ∧ u.current = s.current ∧
      (u.procs s.current).ctx = ctx ∧ (u.procs s.current).blockedSignals = mask := by
  obtain ⟨sameCtx, sameMask⟩ := kept.saved ctx mask framed
  have handling : (s.procs s.current).inSignal = true := by
    rw [kept.guarded, framed]
    rfl
  refine ⟨(sysSigreturn s.current (saveCtx s.current trap s)).2, ?_, ?_⟩
  · have called : (callOf trap).number = sysSigreturnNumber := number
    have served : serve env fuel s.current (callOf trap) (saveCtx s.current trap s) =
        some (0, true, (sysSigreturn s.current (saveCtx s.current trap s)).2) := by
      have done : (sysSigreturn s.current (saveCtx s.current trap s)).1 = 0 := by
        simp [sysSigreturn, saveCtx, handling]
      unfold serve
      rw [called, done]
      simp [sysExit, sysYield, sysFork, sysExec, sysWait, sysWaitpid, sysKill, sysSigaction,
        sysSigprocmask, sysSigreturnNumber]
    simp [onSyscall, served]
  · refine ⟨?_, ?_, ?_⟩ <;> simp [sysSigreturn, saveCtx, handling, restoredProc, sameCtx, sameMask]

instance : DecidablePred Event.LoopsOutside := fun e =>
  match e with
  | .continued _ inSignal deliverable =>
      inferInstanceAs (Decidable (inSignal = true → deliverable = 0))
  | .delivered .. => .isTrue trivial
  | .restored .. => .isTrue trivial
  | .slept .. => .isTrue trivial
  | .expired .. => .isTrue trivial
  | .resumed .. => .isTrue trivial

/-- Signal frames do not nest: in every state reached without the loop of
`prepare_signal` going on with a process inside a handler, every delivery found the
process outside any handler with no saved frame, every `sigreturn` restored the
context and mask of its delivery, and the next one of the current process will. -/
theorem signal_frames_never_nest (s : Kernel) (reached : Reachable s)
    (outside : ∀ e ∈ s.log, e.LoopsOutside) :
    (∀ i inSignal frame, .delivered i inSignal frame ∈ s.log → inSignal = false ∧ frame = none) ∧
    (∀ i ctx mask frame, .restored i ctx mask frame ∈ s.log → frame = some (ctx, mask)) ∧
    (∀ i ctx mask, (s.procs i).frame = some (ctx, mask) → (s.procs i).inSignal = true ∧
      (s.procs i).signalSavedCtx = ctx ∧ (s.procs i).signalSavedMask = mask) ∧
    (∀ env fuel trap ctx mask, trap.regs 0 = sysSigreturnNumber →
      (s.procs s.current).frame = some (ctx, mask) →
      ∃ u, onSyscall env fuel trap s = returnToUser env fuel u ∧ u.current = s.current ∧
        (u.procs s.current).ctx = ctx ∧ (u.procs s.current).blockedSignals = mask) := by
  have good := (reachable_good frameInvariant reached).2 outside
  refine ⟨?_, ?_, ?_, ?_⟩
  · intro i inSignal frame logged
    exact good.sound _ logged
  · intro i ctx mask frame logged
    exact good.sound _ logged
  · intro i ctx mask framed
    have kept : FrameKept (s.procs i) := good.holds i
    refine ⟨?_, kept.saved ctx mask framed⟩
    rw [kept.guarded, framed]
    rfl
  · intro env fuel trap ctx mask number framed
    exact sigreturn_returns env fuel number framed (good.holds s.current)

/-- The parent faults and dies; the child it switches to enters a handler, has
nothing more to deliver, and returns. -/
theorem signal_frames_never_nest_handled :
    ∃ s, Reachable s ∧ (∀ e ∈ s.log, e.LoopsOutside) ∧
      ∃ i ctx mask, .restored i ctx mask (some (ctx, mask)) ∈ s.log := by
  obtain ⟨s, reached, checked⟩ := run_reaches (sampleCtx 0 0 0 0)
    [sampleCall sysSigaction 10 1 0, sampleCall sysFork 0 0 0, sampleCall sysKill 1 10 0,
      .pageFault sampleEnv 8 (sampleCtx 0 0 0 0) false, sampleCall sysSigreturnNumber 0 0 0]
    (fun s => s.log.all (fun e => decide e.LoopsOutside) &&
      s.log.any (fun e => match e with | .restored .. => true | _ => false))
    (by decide +kernel)
  simp only [Bool.and_eq_true, List.all_eq_true, decide_eq_true_eq, List.any_eq_true] at checked
  obtain ⟨outside, e, logged, restores⟩ := checked
  refine ⟨s, reached, outside, ?_⟩
  cases e with
  | restored i ctx mask frame =>
    have same := (signal_frames_never_nest s reached outside).2.1 i ctx mask frame logged
    exact ⟨i, ctx, mask, same ▸ logged⟩
  | _ => simp at restores

/-- A delivery to a process that is inside a handler. -/
def Event.nests : Event → Bool
  | .delivered _ true (some _) => true
  | _ => false

/-- The child has two caught signals pending when its parent faults and dies. The
first enters its handler in `switch_to_next`; back in the loop of `prepare_signal`
the second is delivered to the process inside that handler. -/
theorem fatal_switch_nests_frames :
    ∃ s i frame, Reachable s ∧ .delivered i true (some frame) ∈ s.log := by
  obtain ⟨s, reached, checked⟩ := run_reaches (sampleCtx 0 0 0 0)
    [sampleCall sysSigaction 1 1 0, sampleCall sysSigaction 10 1 0, sampleCall sysFork 0 0 0,
      sampleCall sysKill 1 1 0, sampleCall sysKill 1 10 0,
      .pageFault sampleEnv 8 (sampleCtx 0 0 0 0) false]
    (fun s => s.log.any Event.nests)
    (by decide +kernel)
  obtain ⟨e, logged, nests⟩ := List.any_eq_true.mp checked
  unfold Event.nests at nests
  split at nests
  case h_1 i frame => exact ⟨s, i, frame, reached, logged⟩
  case h_2 => simp at nests

end JsEmulator.Process
