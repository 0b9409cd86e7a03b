import JsEmulator.Process.SignalFrames

/-!
# Restarting blocked system calls

A blocking call other than `nanosleep` steps back to its `INT` before it sleeps, so
that waking it makes the call again; an interrupted or expired call is moved past
its `INT` with a result in `R0`. Which of the two happens is read off three deadline
fields.

Two things break the protocol. An expired timer of a terminal read clears `R0` but
leaves the process at its `INT`, so it makes a different system call. And a deadline
left over from an earlier call is taken for one of the call that sleeps now. In every
run without either, each process that slept in a call resumes at that call's `INT`
with its arguments intact, or right after it with a result.
-/

namespace JsEmulator.Process

variable {p : Proc} {call : Call}

/-- A result that a call can be given while it sleeps. -/
def Call.Yields (call : Call) (value : Word) : Prop :=
  value = -eintr ∨
    (value = 0 ∧ (call.number = sysNanosleepNumber ∨ call.number = sysPollNumber))

/-- The process makes the call again, or continues after it with a result. -/
inductive Resumes (call : Call) (ctx : CpuContext) : Prop where
  | again (pc : ctx.pc = call.intAddress) (loaded : call.Loaded ctx)
  | after (pc : ctx.pc = call.intAddress + syscallInstrSize) (result : call.Yields (ctx.regs 0))

/-- A process asleep in a call. Off its own deadline field it is at its `INT`, and a
deadline can only be its own: that of a poll, or that of a terminal read. -/
inductive Asleep (call : Call) (p : Proc) : Prop where
  | deadline (k : Nat) (chan : p.chan = .sleepDeadline k)
      (number : call.number = sysNanosleepNumber)
      (pc : p.ctx.pc = call.intAddress + syscallInstrSize) (sleep : p.sleepDeadline ≠ 0)
      (poll : p.pollDeadline = 0) (tty : p.ttyDeadline = 0)
  | object (object : ∀ k, p.chan ≠ .sleepDeadline k) (pc : p.ctx.pc = call.intAddress)
      (loaded : call.Loaded p.ctx) (reading : p.chan = .kbd → p.pollDeadline = 0)
      (timed : p.sleepDeadline ≠ 0 →
        (p.chan = .poll ∧ call.number = sysPollNumber ∧ p.pollDeadline ≠ 0) ∨
        (p.chan = .kbd ∧ p.ttyDeadline ≠ 0))

/-- What a call in progress says about its process. -/
structure CallKept (p : Proc) : Prop where
  asleep : ∀ call, p.call = some call → p.state = .sleeping → Asleep call p
  awake : ∀ call, p.call = some call → p.state ≠ .sleeping → Resumes call p.ctx

/-- No timer of a terminal read expires, and a process going to sleep has no
deadline left over from an earlier call. -/
def Event.OwnDeadlines : Event → Prop
  | .expired _ pollDeadline ttyDeadline => pollDeadline ≠ 0 ∨ ttyDeadline = 0
  | .slept _ _ chan sleepDeadline pollDeadline ttyDeadline =>
      match chan with
      | .sleepDeadline _ => sleepDeadline ≠ 0 ∧ pollDeadline = 0 ∧ ttyDeadline = 0
      | .kbd => pollDeadline = 0 ∧ (sleepDeadline ≠ 0 → ttyDeadline ≠ 0)
      | .poll => True
      | .pipe _ => sleepDeadline = 0
      | .proc _ => sleepDeadline = 0
      | .socket _ => sleepDeadline = 0
  | _ => True

/-- A process that slept in a call resumes as the protocol says. -/
def Event.RestartSound : Event → Prop
  | .resumed _ call ctx => Resumes call ctx
  | _ => True

theorem call_kept_uncalled (p : Proc) (uncalled : p.call = none) : CallKept p :=
  ⟨by simp [uncalled], by simp [uncalled]⟩

/-- The property reads only the fields of `SameCore`. -/
theorem call_kept_same {q : Proc} (same : SameCore p q) (kept : CallKept p) : CallKept q := by
  constructor
  · intro call called asleep
    rw [same.call] at called
    rw [same.state] at asleep
    cases kept.asleep call called asleep with
    | deadline k chan number pc sleep poll tty =>
      exact .deadline k (same.chan.trans chan) number (same.ctx ▸ pc) (same.sleepDeadline ▸ sleep)
        (same.pollDeadline.trans poll) (same.ttyDeadline.trans tty)
    | object object pc loaded reading timed =>
      refine .object ?_ (same.ctx ▸ pc) (same.ctx ▸ loaded) ?_ ?_
      · rwa [same.chan]
      · rwa [same.chan, same.pollDeadline]
      · rwa [same.chan, same.sleepDeadline, same.pollDeadline, same.ttyDeadline]
  · intro call called awake
    rw [same.call] at called
    rw [same.state] at awake
    rw [same.ctx]
    exact kept.awake call called awake

/-- A process that is awake keeps its context when its state changes. -/
theorem call_kept_left (p q : Proc) (awake : p.state ≠ .sleeping) (away : q.state ≠ .sleeping)
    (ctx : q.ctx = p.ctx) (call : q.call = p.call) (kept : CallKept p) : CallKept q := by
  refine ⟨fun _ _ asleep => absurd asleep away, ?_⟩
  intro made called _
  rw [call] at called
  rw [ctx]
  exact kept.awake made called awake

/-- A signal moves every sleeper past its `INT`, where `nanosleep` already is. -/
theorem interrupted_resumes (asleep : Asleep call p) : Resumes call (interruptSleeper p).ctx := by
  refine .after ?_ (.inl (interrupt_sleeper_r0 p))
  rw [interrupt_sleeper_pc]
  cases asleep with
  | deadline k chan number pc sleep poll tty => rw [if_pos ⟨sleep, poll, tty⟩, pc]
  | object object pc loaded reading timed =>
    rw [if_neg, pc]
    rintro ⟨sleep, poll, tty⟩
    rcases timed sleep with ⟨-, -, polling⟩ | ⟨-, reads⟩
    · exact polling poll
    · exact reads tty

/-- An expired deadline is that of `nanosleep` or of a poll. -/
theorem expired_resumes (asleep : Asleep call p) (isDue : p.sleepDeadline ≠ 0)
    (own : p.pollDeadline ≠ 0 ∨ p.ttyDeadline = 0) :
    Resumes call (expireProc p).ctx := by
  cases asleep with
  | deadline k chan number pc sleep poll tty =>
    refine .after ?_ (.inr ⟨expire_proc_r0 p, .inl number⟩)
    rw [expire_proc_pc, if_neg (not_not.mpr poll), pc]
  | object object pc loaded reading timed =>
    rcases timed isDue with ⟨-, number, poll⟩ | ⟨chan, tty⟩
    · refine .after ?_ (.inr ⟨expire_proc_r0 p, .inr number⟩)
      rw [expire_proc_pc, if_pos poll, pc]
    · exact absurd (reading chan) (own.resolve_right tty)

theorem call_kept_nudged (p q : Proc) (nudged : Nudge p q) (kept : CallKept p) : CallKept q := by
  cases nudged with
  | wake asleep object =>
    refine ⟨by simp, fun call called _ => ?_⟩
    cases kept.asleep call called asleep with
    | deadline k chan => exact absurd chan (object k)
    | object _ pc loaded => exact .again pc loaded
  | interrupt asleep =>
    refine ⟨by simp, fun call called _ => ?_⟩
    rw [interrupt_sleeper_call] at called
    exact interrupted_resumes (kept.asleep call called asleep)
  | interbyte deadline asleep reading timed =>
    refine ⟨fun call called _ => ?_, fun call called awake => absurd asleep awake⟩
    cases kept.asleep call called asleep with
    | deadline k chan => simp [reading] at chan
    | object object pc loaded poll _ =>
      exact .object object pc loaded poll (fun nonzero => .inr ⟨reading, nonzero⟩)
  | proceed stopped => exact call_kept_left p _ (by simp [stopped]) (by simp) rfl rfl kept
  | mark q same => exact call_kept_same same kept

/-- Going to sleep with none but one's own deadlines. -/
theorem suspended_asleep (i : Nat) (call : Call) (p : Proc) (chan : Chan)
    (suspended : Suspended call p chan)
    (own : (Event.slept i call chan p.sleepDeadline p.pollDeadline p.ttyDeadline).OwnDeadlines) :
    Asleep call { p with chan := chan, state := .sleeping, call := some call } := by
  cases suspended with
  | deadline k number pc loaded =>
    obtain ⟨sleep, poll, tty⟩ := own
    exact .deadline k rfl number pc sleep poll tty
  | object _ object polling pc loaded =>
    refine .object object pc loaded ?_ ?_
    · rintro rfl
      exact own.1
    · intro sleep
      cases chan with
      | sleepDeadline k => exact absurd rfl (object k)
      | poll => exact .inl ⟨rfl, (polling rfl).1, (polling rfl).2 sleep⟩
      | kbd => exact .inr ⟨rfl, own.2 sleep⟩
      | pipe _ | proc _ | socket _ => exact absurd own sleep

theorem call_kept_changed (log : List Event) (i : Nat) (p : Proc) (events : List Event) (q : Proc)
    (change : Change log i p events q) (assumed : ∀ e ∈ events ++ log, e.OwnDeadlines)
    (kept : CallKept p) : CallKept q ∧ ∀ e ∈ events, e.RestartSound := by
  cases change with
  | trapped ctx running => exact ⟨call_kept_uncalled _ rfl, by simp⟩
  | adjusted q uncalled same =>
    exact ⟨call_kept_uncalled q (same.call.trans uncalled), by simp⟩
  | left q awake away same => exact ⟨call_kept_left p q awake away same.ctx same.call kept, by simp⟩
  | replaced q inSignal frame uncalled => exact ⟨call_kept_uncalled q uncalled, by simp⟩
  | slept call chan running uncalled suspended =>
    refine ⟨⟨?_, by simp⟩, by simp [Event.RestartSound]⟩
    intro made called _
    cases called
    exact suspended_asleep i call p chan suspended (assumed _ (by simp))
  | continued => exact ⟨kept, by simp [Event.RestartSound]⟩
  | delivered signal running guarded =>
    exact ⟨call_kept_left p _ (by simp [running]) (by simp [frameProc, running]) rfl rfl kept,
      by simp [Event.RestartSound]⟩
  | resumed call awake called =>
    exact ⟨call_kept_uncalled _ rfl, by simpa [Event.RestartSound] using kept.awake call called awake⟩
  | restored handling uncalled =>
    exact ⟨call_kept_uncalled _ uncalled, by simp [Event.RestartSound]⟩

/-- The restart protocol, as an invariant that runs preserve. -/
def restartInvariant : ProcessInvariant where
  holds := CallKept
  assumed := Event.OwnDeadlines
  sound := Event.RestartSound
  fresh := fun p _ _ uncalled => call_kept_uncalled p uncalled
  nudge := call_kept_nudged
  expire := by
    intro i p asleep isDue own kept
    refine ⟨⟨by simp, fun call called _ => ?_⟩, trivial⟩
    rw [expire_proc_call] at called
    exact expired_resumes (kept.asleep call called asleep) isDue own
  change := call_kept_changed

instance : DecidablePred Event.OwnDeadlines := fun e =>
  match e with
  | .expired _ pollDeadline ttyDeadline =>
      inferInstanceAs (Decidable (pollDeadline ≠ 0 ∨ ttyDeadline = 0))
  | .slept _ _ (.sleepDeadline _) sleepDeadline pollDeadline ttyDeadline =>
      inferInstanceAs (Decidable (sleepDeadline ≠ 0 ∧ pollDeadline = 0 ∧ ttyDeadline = 0))
  | .slept _ _ .kbd sleepDeadline pollDeadline ttyDeadline =>
      inferInstanceAs (Decidable (pollDeadline = 0 ∧ (sleepDeadline ≠ 0 → ttyDeadline ≠ 0)))
  | .slept _ _ .poll _ _ _ => .isTrue trivial
  | .slept _ _ (.pipe _) sleepDeadline _ _ => inferInstanceAs (Decidable (sleepDeadline = 0))
  | .slept _ _ (.proc _) sleepDeadline _ _ => inferInstanceAs (Decidable (sleepDeadline = 0))
  | .slept _ _ (.socket _) sleepDeadline _ _ => inferInstanceAs (Decidable (sleepDeadline = 0))
  | .continued .. => .isTrue trivial
  | .delivered .. => .isTrue trivial
  | .restored .. => .isTrue trivial
  | .resumed .. => .isTrue trivial

/-- The restart protocol: in every state reached without the timer of a terminal
read expiring and without a process going to sleep with another call's deadline,
every process that slept in a call has resumed, or is ready to resume, at that call's
`INT` with its arguments or right after it with a result. -/
theorem blocked_calls_restart_or_return (s : Kernel) (reached : Reachable s)
    (own : ∀ e ∈ s.log, e.OwnDeadlines) :
    (∀ i call ctx, .resumed i call ctx ∈ s.log → Resumes call ctx) ∧
    (∀ i call, (s.procs i).call = some call → (s.procs i).state = .runnable →
      Resumes call (s.procs i).ctx) := by
  have good := (reachable_good restartInvariant reached).2 own
  constructor
  · intro i call ctx logged
    exact good.sound _ logged
  · intro i call called running
    exact (good.holds i).awake call called (by simp [running])

/-- A `nanosleep` of one second with nothing else to run: the clock moves on and the
call returns. -/
theorem blocked_calls_restart_or_return_slept :
    ∃ s i call ctx, Reachable s ∧ (∀ e ∈ s.log, e.OwnDeadlines) ∧
      .resumed i call ctx ∈ s.log ∧ Resumes call ctx := by
  obtain ⟨s, reached, checked⟩ := run_reaches (sampleCtx 0 0 0 0)
    [sampleCall sysNanosleepNumber 0 0 0]
    (fun s => s.log.all (fun e => decide e.OwnDeadlines) &&
      s.log.any (fun e => match e with | .resumed .. => true | _ => false))
    (by decide +kernel)
  simp only [Bool.and_eq_true, List.all_eq_true, decide_eq_true_eq, List.any_eq_true] at checked
  obtain ⟨own, e, logged, resumes⟩ := checked
  cases e with
  | resumed i call ctx =>
    exact ⟨s, i, call, ctx, reached, own, logged,
      (blocked_calls_restart_or_return s reached own).1 i call ctx logged⟩
  | _ => simp at resumes

/-- A raw terminal read with a timer and no input: when the timer expires the process
is still at the `INT` of its read, and `R0` is the number of `exit`. -/
theorem expired_read_makes_exit :
    ∃ s i call ctx, Reachable s ∧ .resumed i call ctx ∈ s.log ∧ call.number = sysRead ∧
      ctx.pc = call.intAddress ∧ ctx.regs 0 = sysExit := by
  obtain ⟨s, reached, checked⟩ := run_reaches (sampleCtx 0 0 0 0)
    [sampleCall sysIoctl 0 0 0, sampleCall sysRead 0 0x4001000 1]
    (fun s => s.log.any (fun e => match e with
      | .resumed _ call ctx => decide (call.number = sysRead ∧ ctx.pc = call.intAddress ∧
          ctx.regs 0 = sysExit)
      | _ => false))
    (by decide +kernel)
  obtain ⟨e, logged, restarts⟩ := List.any_eq_true.mp checked
  cases e with
  | resumed i call ctx => exact ⟨s, i, call, ctx, reached, logged, of_decide_eq_true restarts⟩
  | _ => simp at restarts

end JsEmulator.Process
