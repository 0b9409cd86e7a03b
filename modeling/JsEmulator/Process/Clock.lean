import JsEmulator.Process.Timeouts

/-!
# The clock

Two places set `ticks`. The timer adds one, and `switch_to_next` with nothing runnable moves the
clock to the least deadline of a sleeper. There it goes back if some sleeper has a deadline that has
passed already: a process that was woken from a `poll` keeps its deadline, and takes it along when
it goes to sleep in another call.

`Eased` says what most operations do to a process and `Drift` what they do to the kernel: nobody
goes to sleep, no deadline is new. `Ticking` is what holds during a kernel entry, with a limit that
neither the clock nor a deadline passes before all interrupts have come.
-/

namespace JsEmulator.Process

variable {s t u : Kernel} {p q : Proc} {idx caller fuel : Nat} {f : Proc → Proc}
variable {restart : Option Word}
variable {answer : TtyAnswer}

/-! ## Operations that put nobody to sleep -/

/-- The process has not gone to sleep, and each deadline is the old one, or none, or the restarted
one of a terminal read. -/
structure Eased (restart : Option Word) (p q : Proc) : Prop where
  asleep : q.state = .sleeping → p.state = .sleeping
  sleep : q.sleepDeadline = p.sleepDeadline ∨ q.sleepDeadline = 0 ∨ restart = some q.sleepDeadline
  poll : q.pollDeadline = p.pollDeadline ∨ q.pollDeadline = 0

/-- The clock stands, and every process is eased. -/
structure Drift (restart : Option Word) (s t : Kernel) : Prop where
  procs : ∀ i, Eased restart (s.procs i) (t.procs i)
  nproc : t.nproc = s.nproc
  ticks : t.ticks = s.ticks
  vtime : t.ttyVtime = s.ttyVtime
  irqs : t.irqs = s.irqs

theorem eased_refl (p : Proc) : Eased restart p p := ⟨id, .inl rfl, .inl rfl⟩

theorem eased_trans {r : Proc} (first : Eased restart p q) (second : Eased restart q r) :
    Eased restart p r := by
  refine ⟨fun asleep => first.asleep (second.asleep asleep), ?_, ?_⟩
  · rcases second.sleep with same | zero | new
    · rw [same]
      exact first.sleep
    · exact .inr (.inl zero)
    · exact .inr (.inr new)
  · rcases second.poll with same | zero
    · rw [same]
      exact first.poll
    · exact .inr zero

/-- A process that is awake afterwards and keeps its deadlines. -/
theorem eased_awake (awake : q.state ≠ .sleeping) (sleep : q.sleepDeadline = p.sleepDeadline)
    (poll : q.pollDeadline = p.pollDeadline) : Eased restart p q :=
  ⟨fun asleep => absurd asleep awake, .inl sleep, .inl poll⟩

theorem drift_refl (s : Kernel) : Drift restart s s := ⟨fun _ => eased_refl _, rfl, rfl, rfl, rfl⟩

theorem drift_trans (first : Drift restart s t) (second : Drift restart t u) : Drift restart s u :=
  ⟨fun i => eased_trans (first.procs i) (second.procs i), second.nproc.trans first.nproc,
    second.ticks.trans first.ticks, second.vtime.trans first.vtime, second.irqs.trans first.irqs⟩

theorem set_proc_drift (eased : Eased restart (s.procs idx) (f (s.procs idx))) :
    Drift restart s (s.setProc idx f) := by
  refine ⟨fun i => ?_, rfl, rfl, rfl, rfl⟩
  rw [set_proc_procs]
  split
  case isTrue same =>
    subst same
    exact eased
  case isFalse => exact eased_refl _

/-- A change of fields that have nothing to do with sleep. -/
theorem mark_drift (state : (f (s.procs idx)).state = (s.procs idx).state)
    (sleep : (f (s.procs idx)).sleepDeadline = (s.procs idx).sleepDeadline)
    (poll : (f (s.procs idx)).pollDeadline = (s.procs idx).pollDeadline) :
    Drift restart s (s.setProc idx f) :=
  set_proc_drift ⟨fun asleep => state.symm.trans asleep, .inl sleep, .inl poll⟩

theorem wakeup_drift (chan : Chan) (s : Kernel) : Drift restart s (wakeup chan s) := by
  refine ⟨fun i => ?_, rfl, rfl, rfl, rfl⟩
  simp only [wakeup]
  split
  · exact eased_awake (by simp) rfl rfl
  · exact eased_refl _

theorem notify_parent_drift (idx : Nat) (s : Kernel) : Drift restart s (notifyParent idx s) := by
  unfold notifyParent
  split
  · exact drift_refl s
  · exact drift_trans (mark_drift rfl rfl rfl) (wakeup_drift _ _)

theorem interrupt_sleeper_eased (p : Proc) : Eased restart p (interruptSleeper p) := by
  refine ⟨nofun, ?_, ?_⟩
  · simp only [interruptSleeper]
    split
    · split <;> [exact .inr (.inl rfl); split <;> exact .inr (.inl rfl)]
    · exact .inl rfl
  · simp only [interruptSleeper]
    split
    · split <;> [exact .inr rfl; split <;> exact .inl rfl]
    · exact .inl rfl

/-- A change of globals that belong to neither a process nor the clock. -/
theorem globals_drift (procs : t.procs = s.procs) (nproc : t.nproc = s.nproc)
    (ticks : t.ticks = s.ticks) (vtime : t.ttyVtime = s.ttyVtime) (irqs : t.irqs = s.irqs) :
    Drift restart s t :=
  ⟨fun _ => procs ▸ eased_refl _, nproc, ticks, vtime, irqs⟩

theorem note_drift {e : ProcEvent} (drift : Drift restart s t) : Drift restart s (t.note e) :=
  drift_trans drift (globals_drift rfl rfl rfl rfl rfl)

theorem drift_walks : Walks (Drift restart) where
  refl := drift_refl
  trans _ _ _ := drift_trans
  wakes chan _ := wakeup_drift chan
  marks _ _ _ same _ := mark_drift same.state same.sleepDeadline same.pollDeadline
  masks _ _ _ same _ _ _ := mark_drift same.state same.sleepDeadline same.pollDeadline
  installs _ _ _ _ _ _ := note_drift (mark_drift rfl rfl rfl)
  interrupts _ _ _ := set_proc_drift (interrupt_sleeper_eased _)
  proceeds _ _ _ := set_proc_drift (eased_awake nofun rfl rfl)
  continues s idx _ := by
    have paused : Drift restart s (s.setProc idx (pausedProc .runnable wcontinued sigcont)) :=
      set_proc_drift (eased_awake nofun rfl rfl)
    exact note_drift (drift_trans paused (notify_parent_drift idx _))

theorem adopt_orphans_drift (idx : Nat) (s : Kernel) : Drift restart s (adoptOrphans idx s) := by
  have adopted : Drift restart s { s with procs := fun i =>
      if (orphaned s idx i) then { s.procs i with parent := some 0 } else (s.procs i) } := by
    refine ⟨fun i => ?_, rfl, rfl, rfl, rfl⟩
    dsimp only
    split
    · exact ⟨id, .inl rfl, .inl rfl⟩
    · exact eased_refl _
  unfold adoptOrphans
  split
  · exact drift_trans adopted (wakeup_drift _ _)
  · exact adopted

theorem do_exit_drift (idx : Nat) (code : Word) (s : Kernel) : Drift restart s (doExit idx code s) := by
  have marked : Drift restart s (s.setProc idx (fun p =>
      { p with exitCode := code, ending := some (.exited code) })) := mark_drift rfl rfl rfl
  have closed := drift_trans marked (drift_walks.clearFds idx _)
  have dead := drift_trans closed
    (@set_proc_drift _ idx (fun p => { p with state := .zombie }) _ (eased_awake nofun rfl rfl))
  exact note_drift
    (drift_trans dead (drift_trans (notify_parent_drift idx _) (adopt_orphans_drift idx _)))

theorem stop_process_drift (idx signal : Nat) (s : Kernel) :
    Drift restart s (stopProcess idx signal s) :=
  note_drift (drift_trans (set_proc_drift (f := pausedProc .stopped wuntraced signal)
    (eased_awake nofun rfl rfl)) (notify_parent_drift idx _))

theorem exit_unframed_drift (idx : Nat) (s : Kernel) : Drift restart s (exitUnframed idx s) :=
  drift_trans (do_exit_drift idx _ s) (mark_drift rfl rfl rfl)

theorem note_resumed_drift (idx : Nat) (ctx : CpuContext) (s : Kernel) :
    Drift restart s (noteResumed idx ctx s) := by
  unfold noteResumed
  split
  · exact drift_refl s
  exact drift_trans (mark_drift (f := fun p => { p with call := none }) rfl rfl rfl)
    (globals_drift rfl rfl rfl rfl rfl)

theorem enter_handler_drift (idx signal : Nat) (s : Kernel) :
    Drift restart s (enterHandler idx signal s) :=
  drift_trans (mark_drift (f := frameProc signal) rfl rfl rfl) (globals_drift rfl rfl rfl rfl rfl)

/-- The timer loop takes the deadlines of those it wakes. -/
theorem expire_sleepers_drift (s : Kernel) : Drift restart s (expireSleepers s) := by
  refine ⟨fun i => ?_, rfl, rfl, rfl, rfl⟩
  simp only [expireSleepers]
  split
  · refine ⟨fun asleep => (by cases asleep), .inr (.inl rfl), ?_⟩
    simp only [expireProc]
    split <;> [exact .inr rfl; split <;> exact .inl rfl]
  · exact eased_refl _

/-! ## Terminal input -/

/-- The deadline that a raw byte gives to the readers of the terminal. -/
def restarted (s : Kernel) : Word := s.ticks + interbyteDelay s.ttyVtime

theorem tty_receive_drift (s : Kernel) (input : TtyInput) :
    Drift (some (restarted s)) s (ttyReceive s input) := by
  cases input with
  | signal number => exact drift_walks.sendSignalTo _ _ _
  | queued | closed => exact wakeup_drift _ s
  | interbyte =>
    refine ⟨fun i => ?_, rfl, rfl, rfl, rfl⟩
    simp only [ttyReceive, resetInterbyteDeadlines]
    split
    · exact ⟨id, .inr (.inr rfl), .inl rfl⟩
    · exact eased_refl _

theorem restarted_drift (drift : Drift restart s t) : restarted t = restarted s := by
  rw [restarted, drift.ticks, drift.vtime, restarted]

/-- Operations that restart the deadlines, one after the other. -/
theorem foldl_restarted {α : Type} (g : Kernel → α → Kernel)
    (each : ∀ u a, Drift (some (restarted u)) u (g u a)) (items : List α) (s : Kernel) :
    Drift (some (restarted s)) s (items.foldl g s) := by
  induction items generalizing s with
  | nil => exact drift_refl s
  | cons head tail ih =>
    have first := each s head
    have rest := ih (g s head)
    rw [restarted_drift first] at rest
    exact drift_trans first rest

theorem kbd_drain_drift (input : List TtyInput) (s : Kernel) :
    Drift (some (restarted s)) s (kbdDrain input s) :=
  foldl_restarted ttyReceive tty_receive_drift input s

theorem handle_irq_drift (s : Kernel) (irq : Irq) :
    Drift (some (restarted s)) s (handleIrq s irq) := by
  cases irq with
  | keyboard input => exact drift_trans (kbd_drain_drift input s) (wakeup_drift .kbd _)
  | network sockets =>
    refine drift_walks.foldl _ ?_ sockets s
    intro u socket
    exact drift_trans (wakeup_drift _ u) (wakeup_drift _ _)

/-! ## The clock during an entry -/

/-- The deadline is not far ahead of the clock, and restarting it with each interrupt still to come
keeps it below the limit. The longest `nanosleep` takes 100000100 ticks, the longest wait between
two bytes with a VTIME of one byte 2550. -/
def Near (limit : Int) (s : Kernel) (deadline : Word) : Prop :=
  deadline.toInt ≤ s.ticks.toInt + 100000100 ∧ deadline.toInt + 2550 * s.irqs.length ≤ limit

/-- The clock has not gone back behind `start`, no sleeper's deadline has passed, and all deadlines
are near. -/
structure Ticking (start limit : Int) (s : Kernel) : Prop where
  started : start ≤ s.ticks.toInt
  clock : s.ticks.toInt + 2550 * s.irqs.length ≤ limit
  asleep : ∀ i < s.nproc, (s.procs i).state = .sleeping → (s.procs i).sleepDeadline ≠ 0 →
    s.ticks.toInt ≤ (s.procs i).sleepDeadline.toInt
  sleep : ∀ i, (s.procs i).sleepDeadline ≠ 0 → Near limit s (s.procs i).sleepDeadline
  poll : ∀ i, (s.procs i).pollDeadline ≠ 0 → Near limit s (s.procs i).pollDeadline
  vtime : s.ttyVtime.toNat ≤ 255

variable {start limit : Int} {next : Nat}

/-- A sum with the clock that does not wrap. -/
theorem ticks_add {delay : Word} (positive : 0 ≤ delay.toInt)
    (fits : s.ticks.toInt + delay.toInt < 2147483648) :
    (s.ticks + delay).toInt = s.ticks.toInt + delay.toInt := by
  obtain ⟨turns, sum, low, high⟩ := wrapped (s.ticks.toInt + delay.toInt)
  have clockLow := s.ticks.le_toInt
  rw [BitVec.toInt_add]
  omega

/-- The tenths of a second of a VTIME of one byte, in ticks. -/
theorem vtime_ticks {vtime : Word} (small : vtime.toNat ≤ 255) :
    0 ≤ ((vtime * ticksPerSec).sdiv 10).toInt ∧ ((vtime * ticksPerSec).sdiv 10).toInt ≤ 2550 := by
  have product : (vtime * ticksPerSec).toInt = (vtime.toInt * 100).bmod (2 ^ 32) :=
    BitVec.toInt_mul _ _
  have value : vtime.toInt = vtime.toNat := BitVec.toInt_eq_toNat_of_lt (by omega)
  obtain ⟨turns, exact, low, high⟩ := wrapped (vtime.toInt * 100)
  have unwrapped : turns = 0 := by omega
  have quotient := sdiv_to_int (vtime * ticksPerSec) 10 (by decide)
  have ten : (10 : Word).toInt = 10 := by decide
  rw [ten, if_pos (by omega)] at quotient
  omega

theorem interbyte_ticks {vtime : Word} (small : vtime.toNat ≤ 255) :
    0 ≤ (interbyteDelay vtime).toInt ∧ (interbyteDelay vtime).toInt ≤ 2550 := by
  unfold interbyteDelay
  dsimp only
  split
  · decide
  · exact vtime_ticks small

/-- A restarted deadline is after the clock, and near if one more interrupt fits. -/
theorem restarted_near (small : s.ttyVtime.toNat ≤ 255) (fits : limit < 2147483648)
    (room : s.ticks.toInt + 2550 * (s.irqs.length + 1) ≤ limit) :
    s.ticks.toInt ≤ (restarted s).toInt ∧ Near limit s (restarted s) := by
  obtain ⟨low, high⟩ := interbyte_ticks small
  have sum : (restarted s).toInt = s.ticks.toInt + (interbyteDelay s.ttyVtime).toInt :=
    ticks_add low (by omega)
  unfold Near
  omega

/-- What drifts goes on ticking, if a restarted deadline is near. -/
theorem ticking_drift (ticking : Ticking start limit s) (drift : Drift restart s t)
    (near : ∀ d, restart = some d → s.ticks.toInt ≤ d.toInt ∧ Near limit s d) :
    Ticking start limit t := by
  have ahead : ∀ {d}, Near limit s d → Near limit t d := by
    intro d close
    unfold Near at close ⊢
    rw [drift.ticks, drift.irqs]
    exact close
  refine ⟨?_, ?_, fun i inTable asleep deadline => ?_, fun i deadline => ahead ?_,
    fun i deadline => ahead ?_, ?_⟩
  · rw [drift.ticks]
    exact ticking.started
  · rw [drift.ticks, drift.irqs]
    exact ticking.clock
  · rw [drift.ticks]
    rw [drift.nproc] at inTable
    rcases (drift.procs i).sleep with same | zero | new
    · rw [same] at deadline ⊢
      exact ticking.asleep i inTable ((drift.procs i).asleep asleep) deadline
    · exact absurd zero deadline
    · exact (near _ new).1
  · rcases (drift.procs i).sleep with same | zero | new
    · rw [same] at deadline ⊢
      exact ticking.sleep i deadline
    · exact absurd zero deadline
    · exact (near _ new).2
  · rcases (drift.procs i).poll with same | zero
    · rw [same] at deadline ⊢
      exact ticking.poll i deadline
    · exact absurd zero deadline
  · rw [drift.vtime]
    exact ticking.vtime

theorem ticking_calm (ticking : Ticking start limit s) (drift : Drift none s t) :
    Ticking start limit t :=
  ticking_drift ticking drift nofun

theorem ticking_restart (ticking : Ticking start limit s) (drift : Drift (some (restarted s)) s t)
    (fits : limit < 2147483648) (room : s.ticks.toInt + 2550 * (s.irqs.length + 1) ≤ limit) :
    Ticking start limit t := by
  refine ticking_drift ticking drift ?_
  rintro d ⟨⟩
  exact restarted_near ticking.vtime fits room

/-! ## Idling -/

/-- The least deadline is one of a sleeper, and no sleeper has an earlier one. -/
theorem next_deadline_least (deadline : nextDeadline s ≠ 0) :
    (∃ i < s.nproc, (s.procs i).state = .sleeping ∧ (s.procs i).sleepDeadline = nextDeadline s) ∧
      ∀ i < s.nproc, (s.procs i).state = .sleeping → (s.procs i).sleepDeadline ≠ 0 →
        (nextDeadline s).toInt ≤ (s.procs i).sleepDeadline.toInt := by
  have prefixes : ∀ n, ∀ d, d = (List.range n).foldl (fun deadline i =>
      if (s.procs i).state = .sleeping ∧ (s.procs i).sleepDeadline ≠ 0 ∧
          (deadline = 0 ∨ (s.procs i).sleepDeadline.slt deadline) then (s.procs i).sleepDeadline
      else deadline) 0 →
      (d ≠ 0 → ∃ i < n, (s.procs i).state = .sleeping ∧ (s.procs i).sleepDeadline = d) ∧
      ∀ i < n, (s.procs i).state = .sleeping → (s.procs i).sleepDeadline ≠ 0 →
        d ≠ 0 ∧ d.toInt ≤ (s.procs i).sleepDeadline.toInt := by
    intro n
    induction n with
    | zero =>
      rintro d rfl
      exact ⟨fun bad => absurd rfl bad, nofun⟩
    | succ n ih =>
      intro d least
      rw [List.range_succ, List.foldl_append, List.foldl_cons, List.foldl_nil] at least
      obtain ⟨found, earlier⟩ := ih _ rfl
      generalize (List.range n).foldl _ _ = before at least found earlier
      split at least
      case isTrue sooner =>
        obtain ⟨asleep, deadline, first⟩ := sooner
        subst least
        refine ⟨fun _ => ⟨n, by omega, asleep, rfl⟩, fun i small sleeper timed => ⟨deadline, ?_⟩⟩
        rcases Nat.lt_succ_iff_lt_or_eq.mp small with below | rfl
        · obtain ⟨nonzero, bound⟩ := earlier i below sleeper timed
          have less := first.resolve_left nonzero
          simp only [BitVec.slt, decide_eq_true_eq] at less
          omega
        · exact le_refl _
      rename_i later
      subst least
      refine ⟨fun nonzero => ?_, fun i small sleeper timed => ?_⟩
      · obtain ⟨i, below, sleeper⟩ := found nonzero
        exact ⟨i, by omega, sleeper⟩
      · rcases Nat.lt_succ_iff_lt_or_eq.mp small with below | rfl
        · exact earlier i below sleeper timed
        · simp only [BitVec.slt, decide_eq_true_eq, not_and, not_or, not_lt] at later
          exact later sleeper timed
  obtain ⟨found, least⟩ := prefixes s.nproc (nextDeadline s) rfl
  exact ⟨found deadline, fun i inTable sleeper timed => (least i inTable sleeper timed).2⟩

/-- The clock moves forward to the least deadline. -/
theorem jump_ticking (ticking : Ticking start limit s) (deadline : nextDeadline s ≠ 0) :
    Ticking start limit { s with ticks := nextDeadline s } := by
  obtain ⟨⟨i, inTable, sleeper, same⟩, least⟩ := next_deadline_least deadline
  rw [← same] at deadline
  have forward := ticking.asleep i inTable sleeper deadline
  have close := ticking.sleep i deadline
  rw [same] at forward close
  have ahead : ∀ {d}, Near limit s d → Near limit { s with ticks := nextDeadline s } d := by
    intro d ⟨soon, bound⟩
    exact ⟨by dsimp only; omega, bound⟩
  exact ⟨ticking.started.trans forward, close.2, least, fun j timed => ahead (ticking.sleep j timed),
    fun j timed => ahead (ticking.poll j timed), ticking.vtime⟩

theorem idle_ticking (fits : limit < 2147483648) (ticking : Ticking start limit s)
    (found : idle fuel s = some (next, t)) : Ticking start limit t := by
  refine (idle_keeps (fun u ticking => ?_) (fun u burst rest queue waited => ?_) ticking found).1
  · split
    case isTrue deadline => exact ticking_calm (jump_ticking ticking deadline) (expire_sleepers_drift _)
    case isFalse => exact ticking
  · have length : u.irqs.length = rest.length + 1 := by rw [queue, List.length_cons]
    have room : u.ticks.toInt + 2550 * (rest.length + 1) ≤ limit := by
      have := waited.clock
      omega
    have fewer : Ticking start limit { u with irqs := rest } := by
      have ahead : ∀ {d}, Near limit u d → Near limit { u with irqs := rest } d := by
        intro d ⟨soon, bound⟩
        exact ⟨soon, by dsimp only; omega⟩
      exact ⟨waited.started, by dsimp only; omega, waited.asleep,
        fun i timed => ahead (waited.sleep i timed),
        fun i timed => ahead (waited.poll i timed), waited.vtime⟩
    exact ticking_restart fewer (foldl_restarted handleIrq handle_irq_drift burst _) fits room

/-! ## Switching and delivering -/

section

variable {loop : Nat → Kernel → Option Kernel} {copyout : Copyout} {signal : Nat}

/-- The loop of `prepare_signal` leaves a kernel ticking. -/
def LoopTicking (start limit : Int) (loop : Nat → Kernel → Option Kernel) : Prop :=
  ∀ idx s t, Ticking start limit s → loop idx s = some t → Ticking start limit t

theorem enter_prepare_ticking (spec : LoopTicking start limit loop) (ticking : Ticking start limit s)
    (prepared : enterPrepare loop idx s = some t) : Ticking start limit t := by
  unfold enterPrepare at prepared
  split at prepared
  · cases prepared
    exact ticking
  · exact spec idx s t ticking prepared

section

variable (fits : limit < 2147483648) (spec : LoopTicking start limit loop)
  (ticking : Ticking start limit s)
include fits spec ticking

theorem switch_with_ticking (switched : switchWith loop fuel s = some t) :
    Ticking start limit t := by
  unfold switchWith at switched
  split at switched
  case h_1 => cases switched
  case h_2 next u found =>
    have idled := idle_ticking fits ticking found
    have chosen : Ticking start limit { u with current := next } :=
      ticking_calm idled (globals_drift rfl rfl rfl rfl rfl)
    exact enter_prepare_ticking spec chosen switched

theorem switch_and_continue_ticking (switched : switchAndContinue loop fuel s = some t) :
    Ticking start limit t := by
  unfold switchAndContinue at switched
  split at switched
  case h_1 => cases switched
  case h_2 u inner =>
    have away := switch_with_ticking fits spec ticking inner
    have noted : Ticking start limit (u.record (.continued u.current (u.procs u.current).inSignal
        (nextDeliverableSignal (u.procs u.current)))) :=
      ticking_calm away (globals_drift rfl rfl rfl rfl rfl)
    exact spec _ _ _ noted switched

theorem prepare_turn_ticking (turned : prepareTurn copyout loop fuel idx s = some t) :
    Ticking start limit t := by
  unfold prepareTurn at turned
  dsimp only at turned
  split_ifs at turned with none ignored default quiet stops unrestored room
  · cases turned
    exact ticking
  all_goals
    have taken := ticking_calm ticking (@mark_drift s idx (fun p =>
      { p with pendingSignals := p.pendingSignals &&&
        ~~~(signalBit (nextDeliverableSignal (s.procs idx))) }) .none rfl rfl rfl)
  · exact spec _ _ _ taken turned
  · exact spec _ _ _ taken turned
  · exact switch_and_continue_ticking fits spec (ticking_calm taken (stop_process_drift _ _ _)) turned
  · exact switch_and_continue_ticking fits spec (ticking_calm taken
      (drift_trans (do_exit_drift _ _ _) (mark_drift rfl rfl rfl))) turned
  · exact switch_and_continue_ticking fits spec (ticking_calm taken (exit_unframed_drift _ _)) turned
  · cases turned
    exact ticking_calm taken (drift_trans (enter_handler_drift _ _ _)
      (drift_trans (note_resumed_drift _ _ _) (mark_drift rfl rfl rfl)))
  · exact switch_and_continue_ticking fits spec (ticking_calm taken
      (drift_trans (enter_handler_drift _ _ _) (exit_unframed_drift _ _))) turned

end

theorem prepare_loop_ticking (fits : limit < 2147483648) (copyout : Copyout) (fuel : Nat) :
    LoopTicking start limit (prepareLoop copyout fuel) := by
  induction fuel with
  | zero =>
    intro idx s t _ looped
    cases looped
  | succ fuel ih =>
    intro idx s t ticking looped
    exact prepare_turn_ticking fits ih ticking looped

theorem switch_to_next_ticking (fits : limit < 2147483648) (ticking : Ticking start limit s)
    (switched : switchToNext copyout fuel s = some t) : Ticking start limit t :=
  switch_with_ticking fits (prepare_loop_ticking fits copyout fuel) ticking switched

theorem return_to_user_ticking {env : Env} (fits : limit < 2147483648)
    (ticking : Ticking start limit s) (returned : returnToUser env fuel s = some t) :
    Ticking start limit t := by
  obtain ⟨u, prepared, rfl⟩ := Option.map_eq_some_iff.mp returned
  have loaded := enter_prepare_ticking (prepare_loop_ticking fits env.copyout fuel) ticking prepared
  exact ticking_calm loaded (note_resumed_drift _ _ _)

end

/-! ## System calls -/

section

variable {env : Env} {call : Call} {value : Word} {noret : Bool}

/-- The clock and the deadlines when a system call goes to sleep: the caller has no deadline, or one
that has not passed. -/
def Fresh (s : Kernel) (caller : Nat) : Prop :=
  (s.procs caller).sleepDeadline = 0 ∨ s.ticks.toInt ≤ (s.procs caller).sleepDeadline.toInt

/-- The machine has run for less than 2^30 ticks, and not very many interrupts come while it idles. -/
def Early (s : Kernel) : Prop := s.ticks.toInt < 1073741824 ∧ s.irqs.length ≤ 131072

/-- A limit that no deadline passes during one entry. -/
def horizon : Int := 1507978074

theorem horizon_fits : horizon < 2147483648 := by decide

theorem set_proc_ticking (ticking : Ticking start limit s)
    (asleep : (f (s.procs idx)).state = .sleeping → (f (s.procs idx)).sleepDeadline ≠ 0 →
      s.ticks.toInt ≤ (f (s.procs idx)).sleepDeadline.toInt)
    (sleep : (f (s.procs idx)).sleepDeadline ≠ 0 → Near limit s (f (s.procs idx)).sleepDeadline)
    (poll : (f (s.procs idx)).pollDeadline ≠ 0 → Near limit s (f (s.procs idx)).pollDeadline) :
    Ticking start limit (s.setProc idx f) := by
  refine ⟨ticking.started, ticking.clock, fun i inTable => ?_, fun i => ?_, fun i => ?_, ticking.vtime⟩
  all_goals rw [set_proc_procs]
  · split
    · exact asleep
    · exact ticking.asleep i inTable
  · split
    · exact sleep
    · exact ticking.sleep i
  · split
    · exact poll
    · exact ticking.poll i

theorem block_ticking (fits : limit < 2147483648) {chan : Chan} (ticking : Ticking start limit s)
    (fresh : Fresh s caller) (blocked : blockOn env fuel caller call chan s = some (value, noret, t)) :
    Ticking start limit t := by
  obtain ⟨u, switched, same⟩ := Option.map_eq_some_iff.mp blocked
  cases same
  have asleep : Ticking start limit (s.setProc caller (fun p =>
      { p with chan := chan, state := .sleeping, call := some call })) :=
    set_proc_ticking ticking (fun _ timed => fresh.resolve_left timed) (ticking.sleep caller)
      (ticking.poll caller)
  have recorded : Ticking start limit (goToSleep caller call chan s) :=
    ticking_calm asleep (globals_drift rfl rfl rfl rfl rfl)
  exact switch_to_next_ticking fits recorded switched

theorem rewind_drift (idx : Nat) (s : Kernel) : Drift restart s (rewind idx s) :=
  mark_drift rfl rfl rfl

/-- A call that will be made again. -/
theorem block_rewound_ticking (fits : limit < 2147483648) {chan : Chan}
    (ticking : Ticking start limit s) (fresh : Fresh s caller)
    (blocked : blockOn env fuel caller call chan (rewind caller s) = some (value, noret, t)) :
    Ticking start limit t := by
  refine block_ticking fits (ticking_calm ticking (rewind_drift caller s)) ?_ blocked
  unfold Fresh rewind
  rw [set_proc_same]
  exact fresh

/-- A deadline that a call sets is after the clock and near. -/
theorem delay_near {delay : Word} (early : Early s) (positive : 0 ≤ delay.toInt)
    (short : delay.toInt ≤ 100000100) :
    s.ticks.toInt ≤ (s.ticks + delay).toInt ∧ Near horizon s (s.ticks + delay) := by
  obtain ⟨young, few⟩ := early
  have sum := @ticks_add s delay positive (by omega)
  unfold Near horizon
  omega

section

variable (early : Early s) (ticking : Ticking start horizon s)
include early ticking

theorem sys_nanosleep_ticking
    (served : sysNanosleep env fuel caller call s = some (value, noret, t)) :
    Ticking start horizon t := by
  unfold sysNanosleep at served
  split at served
  · cases served
    exact ticking
  rename_i seconds nanoseconds _
  split at served
  · cases served
    exact ticking
  rename_i inRange
  simp only [BitVec.slt, BitVec.sle, decide_eq_true_eq, not_or, not_lt, not_le,
    show (0 : Word).toInt = 0 by decide, show (1000000#32).toInt = 1000000 by decide,
    show (1000000000#32).toInt = 1000000000 by decide] at inRange
  have accepted : (TimedCall.nanosleep seconds nanoseconds).Accepted := by
    unfold TimedCall.Accepted
    omega
  dsimp only at served
  split at served
  · cases served
    exact ticking
  have delay := nanosleep_delay accepted
  have bounds : 0 ≤ (TimedCall.nanosleep seconds nanoseconds).requested ∧
      (TimedCall.nanosleep seconds nanoseconds).requested ≤ 100000100 := by
    simp only [TimedCall.requested]
    omega
  rw [← delay] at bounds
  obtain ⟨ahead, near⟩ := delay_near early bounds.1 bounds.2
  refine block_ticking horizon_fits ?_ ?_ served
  · exact set_proc_ticking ticking (fun _ _ => ahead) (fun _ => near) (ticking.poll caller)
  · unfold Fresh
    rw [set_proc_same]
    exact .inr ahead

/-- The deadline of a `poll` is near. -/
theorem poll_deadline_near (timeout : Word) :
    Near horizon s (pollDeadlineFor s (s.procs caller) timeout) := by
  unfold pollDeadlineFor
  split
  case isTrue =>
    refine (delay_near early ?_ ?_).2
    all_goals
      have quotient := sdiv_to_int (timeout * ticksPerSec + 999) 1000 (by decide)
      have thousand : (1000 : Word).toInt = 1000 := by decide
      have one : (1 : Word).toInt = 1 := by decide
      have high := (timeout * ticksPerSec + 999).toInt_lt
      rw [thousand] at quotient
      simp only [BitVec.slt, decide_eq_true_eq, one]
      split
      · decide
      · split at quotient <;> omega
  case isFalse timed => exact ticking.poll caller timed

theorem sys_poll_ticking
    (served : sysPoll env fuel caller call s = some (value, noret, t)) : Ticking start horizon t := by
  have cleared : Ticking start horizon (s.setProc caller (fun p =>
      { p with pollDeadline := 0, sleepDeadline := 0 })) :=
    set_proc_ticking ticking (fun _ timed => absurd rfl timed) (fun timed => absurd rfl timed)
      (fun timed => absurd rfl timed)
  unfold sysPoll at served
  dsimp only at served
  split at served
  · cases served
    exact ticking
  split at served
  · cases served
    exact ticking
  split at served
  · cases served
    exact cleared
  split at served
  · split at served
    · cases served
      exact cleared
    case isFalse later =>
      have near := @poll_deadline_near s caller start early ticking call.argument3
      simp only [BitVec.sle, decide_eq_true_eq, not_le] at later
      refine block_rewound_ticking horizon_fits ?_ ?_ served
      · exact set_proc_ticking ticking (fun _ _ => later.le) (fun _ => near) (fun _ => near)
      · unfold Fresh
        rw [set_proc_same]
        exact .inr later.le
  · refine block_rewound_ticking horizon_fits ?_ ?_ served
    · exact set_proc_ticking ticking (fun _ timed => absurd rfl timed)
        (fun timed => absurd rfl timed) (ticking.poll caller)
    · unfold Fresh
      rw [set_proc_same]
      exact .inl rfl

end

/-- A caller's deadline stays fresh through operations that put nobody to sleep. -/
theorem fresh_drift (fresh : Fresh s caller) (drift : Drift restart s t)
    (near : ∀ d, restart = some d → s.ticks.toInt ≤ d.toInt) : Fresh t caller := by
  unfold Fresh at fresh ⊢
  rw [drift.ticks]
  rcases (drift.procs caller).sleep with same | zero | new
  · rw [same]
    exact fresh
  · exact .inl zero
  · exact .inr (near _ new)

/-- The deadline that a raw terminal read sets. -/
theorem tty_deadline_near (early : Early s) (small : s.ttyVtime.toNat ≤ 255) :
    s.ticks.toInt ≤ (ttyDeadlineFor s).toInt ∧ Near horizon s (ttyDeadlineFor s) := by
  obtain ⟨low, high⟩ := vtime_ticks small
  unfold ttyDeadlineFor
  dsimp only
  split
  · exact delay_near early (by decide) (by decide)
  · exact delay_near early low (by omega)

theorem tty_block_ticking {minimum : Word} (early : Early s) (ticking : Ticking start horizon s)
    (fresh : Fresh s caller)
    (served : ttyBlock env fuel caller call answer minimum s = some (value, noret, t)) :
    Ticking start horizon t := by
  unfold ttyBlock at served
  split at served
  · cases served
    exact ticking
  split at served
  · cases served
    exact ticking
  split at served
  · cases served
    exact ticking
  dsimp only at served
  split at served
  · obtain ⟨ahead, near⟩ := tty_deadline_near early ticking.vtime
    refine block_rewound_ticking horizon_fits ?_ ?_ served
    · exact set_proc_ticking ticking (fun _ _ => ahead) (fun _ => near) (ticking.poll caller)
    · unfold Fresh
      rw [set_proc_same]
      exact .inr ahead
  · exact block_rewound_ticking horizon_fits ticking fresh served

theorem tty_take_ticking {minimum : Word} {timedOut : Bool} (early : Early s)
    (ticking : Ticking start horizon s) (fresh : Fresh s caller)
    (served : ttyTake env fuel caller call answer minimum timedOut s = some (value, noret, t)) :
    Ticking start horizon t := by
  unfold ttyTake at served
  split at served
  · cases served
    exact ticking
  split at served
  · exact tty_block_ticking early ticking fresh served
  cases served
  exact set_proc_ticking ticking (fun _ timed => absurd rfl timed) (fun timed => absurd rfl timed)
    (ticking.poll caller)

theorem early_drift (early : Early s) (drift : Drift restart s t) : Early t := by
  unfold Early
  rw [drift.ticks, drift.irqs]
  exact early

/-- Early enough for one more restarted deadline. -/
theorem early_restart (early : Early s) (ticking : Ticking start horizon s)
    (drift : Drift (some (restarted s)) s t) : Ticking start horizon t := by
  refine ticking_restart ticking drift horizon_fits ?_
  obtain ⟨young, few⟩ := early
  unfold horizon
  omega

theorem tty_read_ticking (early : Early s) (ticking : Ticking start horizon s)
    (fresh : Fresh s caller)
    (served : ttyRead env fuel caller call answer s = some (value, noret, t)) :
    Ticking start horizon t := by
  have drift := kbd_drain_drift answer.input s
  have drained := early_restart early ticking drift
  have still : Fresh (kbdDrain answer.input s) caller := by
    refine fresh_drift fresh drift ?_
    rintro d ⟨⟩
    obtain ⟨young, few⟩ := early
    exact (restarted_near ticking.vtime horizon_fits (by unfold horizon; omega)).1
  have soon := early_drift early drift
  unfold ttyRead at served
  dsimp only at served
  generalize kbdDrain answer.input s = u at served drained still soon
  split at served
  · cases served
    exact ticking
  split at served
  · cases served
    exact ticking_calm drained (drift_walks.sendSignalTo _ _ _)
  generalize (if call.argument3.slt u.ttyVmin = true then call.argument3 else u.ttyVmin) =
    minimum at served
  split at served
  · have cleared : Drift none u (u.setProc caller (fun p =>
        { p with ttyTimedOut := false, ttyDeadline := 0, sleepDeadline := 0 })) :=
      set_proc_drift ⟨id, .inr (.inl rfl), .inl rfl⟩
    exact tty_take_ticking (early_drift soon cleared) (ticking_calm drained cleared)
      (fresh_drift still cleared nofun) served
  · exact tty_take_ticking soon drained still served

/-- Every VTIME that the environment's answers set is one byte. -/
def Env.ByteVtime (env : Env) : Prop :=
  (∀ u value e, env.io u = .returns value e → e.vtime.toNat ≤ 255) ∧
    (∀ u ctx e, env.exec u = .loaded ctx e → e.vtime.toNat ≤ 255) ∧
    ∀ u, (env.other u).2.vtime.toNat ≤ 255

theorem apply_effect_ticking {e : Effect} (ticking : Ticking start limit s)
    (small : e.vtime.toNat ≤ 255) : Ticking start limit (applyEffect caller e s) := by
  obtain ⟨started, clock, asleep, sleep, poll, -⟩ :=
    ticking_calm ticking (drift_walks.effect caller e s)
  exact ⟨started, clock, asleep, sleep, poll, small⟩

theorem sys_io_ticking (early : Early s) (bytes : env.ByteVtime) (ticking : Ticking start horizon s)
    (fresh : Fresh s caller) (served : sysIo env fuel caller call s = some (value, noret, t)) :
    Ticking start horizon t := by
  unfold sysIo at served
  split at served
  case h_1 answered =>
    cases served
    exact apply_effect_ticking ticking (bytes.1 _ _ _ answered)
  · exact tty_read_ticking early ticking fresh served
  · exact block_rewound_ticking horizon_fits ticking fresh served
  · exact block_rewound_ticking horizon_fits ticking fresh served

theorem set_result_drift (idx : Nat) (value : Word) (s : Kernel) :
    Drift restart s (setResult idx value s) := mark_drift rfl rfl rfl

theorem reap_drift (parent child : Nat) (s : Kernel) : Drift restart s (reap parent child s) := by
  have freed := drift_trans (set_result_drift parent (BitVec.ofNat 32 child) s)
    (@set_proc_drift _ child (fun p => { p with state := .unused }) restart (eased_awake nofun rfl rfl))
  exact drift_trans freed (globals_drift rfl rfl rfl rfl rfl)

theorem report_drift (parent child : Nat) (s : Kernel) : Drift restart s (report parent child s) := by
  have taken := drift_trans (@mark_drift s child (fun p => { p with waitEvent := 0 }) restart rfl rfl rfl)
    (set_result_drift parent (BitVec.ofNat 32 child) _)
  exact drift_trans taken (globals_drift rfl rfl rfl rfl rfl)

theorem do_waitpid_ticking {pid status options : Word} (ticking : Ticking start horizon s)
    (fresh : Fresh s caller)
    (served : doWaitpid env fuel caller call pid status options s = some (value, noret, t)) :
    Ticking start horizon t := by
  have stored (told : WaitStatus) : Drift none s (storeStatus status told s) :=
    globals_drift rfl rfl rfl rfl rfl
  refine waitpid_cases (P := fun _ t => Ticking start horizon t)
    (fun _ => ticking_calm ticking (set_result_drift _ _ _)) ?_ ?_
    (block_rewound_ticking horizon_fits ticking fresh) served
  · intro i _ _
    exact ticking_calm ticking (drift_trans (stored _) (reap_drift _ _ _))
  · intro i _ _
    exact ticking_calm ticking (drift_trans (stored _) (report_drift _ _ _))

/-- A child has no deadlines. -/
theorem do_fork_ticking (ticking : Ticking start limit s) :
    Ticking start limit (doFork env caller s).2 := by
  unfold doFork
  split
  · exact ticking
  split
  · exact ticking
  rename_i idx u allocated
  have cleared (p old : Proc) : (forkedProc caller p old).state ≠ .sleeping ∧
      (forkedProc caller p old).sleepDeadline = 0 ∧
      (forkedProc caller p old).pollDeadline = 0 := ⟨nofun, rfl, rfl⟩
  unfold allocProc at allocated
  split at allocated
  · cases allocated
    obtain ⟨started, clock, asleep, sleep, poll, vtime⟩ := @set_proc_ticking s idx
      (forkedProc caller (s.procs caller)) start limit ticking nofun
      (fun timed => absurd rfl timed) (fun timed => absurd rfl timed)
    exact ⟨started, clock, asleep, sleep, poll, vtime⟩
  · split at allocated
    · cases allocated
    cases allocated
    -- the new slot is the one that is filled
    obtain ⟨awake, sleepless, pollless⟩ := cleared (s.procs caller) (s.procs s.nproc)
    refine ⟨ticking.started, ticking.clock, fun i inTable => ?_, fun i => ?_, fun i => ?_,
      ticking.vtime⟩
    all_goals rw [note_procs, set_proc_procs]
    · split
      · exact fun asleep => absurd asleep awake
      case isFalse other =>
        have below : i < s.nproc := by
          have inTable : i < s.nproc + 1 := inTable
          omega
        exact ticking.asleep i below
    · split
      · exact fun timed => absurd sleepless timed
      · exact ticking.sleep i
    · split
      · exact fun timed => absurd pollless timed
      · exact ticking.poll i

theorem sys_sigreturn_drift : Drift restart s (sysSigreturn caller s).2 := by
  unfold sysSigreturn
  dsimp only
  split
  · exact drift_refl s
  · exact drift_trans (@mark_drift s caller restoredProc restart rfl rfl rfl)
      (globals_drift rfl rfl rfl rfl rfl)

theorem do_exec_ticking (bytes : env.ByteVtime) (ticking : Ticking start limit s) :
    Ticking start limit (doExec env caller s) := by
  unfold doExec
  split
  · exact ticking_calm ticking (set_result_drift _ _ _)
  case h_2 ctx effect loaded =>
    exact apply_effect_ticking (ticking_calm ticking (mark_drift rfl rfl rfl))
      (bytes.2.1 _ _ _ loaded)

/-- A system call that does not sleep with a deadline that has passed. -/
theorem serve_ticking (early : Early s) (bytes : env.ByteVtime) (ticking : Ticking start horizon s)
    (fresh : call.number = sysNanosleepNumber ∨ call.number = sysPollNumber ∨ Fresh s caller)
    (served : serve env fuel caller call s = some (value, noret, t)) : Ticking start horizon t := by
  have timeless {number : Word} (other : number ≠ sysNanosleepNumber)
      (another : number ≠ sysPollNumber) (same : call.number = number) : Fresh s caller := by
    rcases fresh with sleeps | polls | fresh
    · exact absurd (same.symm.trans sleeps) other
    · exact absurd (same.symm.trans polls) another
    · exact fresh
  refine serve_cases (P := fun _ t => Ticking start horizon t) ?_
    (fun u => switch_to_next_ticking horizon_fits ticking) (do_fork_ticking ticking)
    (do_exec_ticking bytes ticking) ?_ (fun u walks => ticking_calm ticking (walks _ drift_walks))
    (fun _ => ticking_calm ticking sys_sigreturn_drift) (fun _ => sys_nanosleep_ticking early ticking)
    (fun _ => sys_poll_ticking early ticking) ?_ (apply_effect_ticking ticking (bytes.2.2 s)) served
  · intro u switched
    exact switch_to_next_ticking horizon_fits (ticking_calm ticking (do_exit_drift _ _ _)) switched
  · intro waits pid status options
    refine do_waitpid_ticking ticking (waits.elim ?_ ?_)
    all_goals exact timeless (by decide) (by decide)
  · intro transfers
    refine sys_io_ticking early bytes ticking ?_
    rcases transfers with reads | writes | receives | receives
    · exact timeless (by decide) (by decide) reads
    · exact timeless (by decide) (by decide) writes
    · exact timeless (by decide) (by decide) receives
    · exact timeless (by decide) (by decide) receives

end

/-! ## Runs -/

/-- What holds between two entries. -/
structure Timely (s : Kernel) : Prop where
  asleep : ∀ i < s.nproc, (s.procs i).state = .sleeping → (s.procs i).sleepDeadline ≠ 0 →
    s.ticks.toInt ≤ (s.procs i).sleepDeadline.toInt
  sleep : ∀ i, (s.procs i).sleepDeadline ≠ 0 →
    (s.procs i).sleepDeadline.toInt ≤ s.ticks.toInt + 100000100
  poll : ∀ i, (s.procs i).pollDeadline ≠ 0 →
    (s.procs i).pollDeadline.toInt ≤ s.ticks.toInt + 100000100
  vtime : s.ttyVtime.toNat ≤ 255

/-- The condition on an entry. It comes early; and a system call whose VTIME is at most one byte
does not go to sleep with a deadline of an earlier call that has passed: only `poll` and `nanosleep`
set a deadline of their own. -/
def Punctual (s : Kernel) : Entry → Prop
  | .syscall env _ trap => Early s ∧ env.ByteVtime ∧
      (trap.regs 0 = sysNanosleepNumber ∨ trap.regs 0 = sysPollNumber ∨ Fresh s s.current)
  | .arrival _ => True
  | _ => Early s

/-- Runs from boot whose entries all meet the condition. -/
inductive PunctualRun : Kernel → Prop where
  | boot (ctx : CpuContext) : PunctualRun (booted ctx)
  | step (s t : Kernel) (e : Entry) (before : PunctualRun s) (punctual : Punctual s e)
      (entered : step s e = some t) : PunctualRun t

theorem timely_ticking (timely : Timely s) (early : Early s) : Ticking s.ticks.toInt horizon s := by
  obtain ⟨young, few⟩ := early
  have near : ∀ {d : Word}, d.toInt ≤ s.ticks.toInt + 100000100 → Near horizon s d := by
    intro d close
    unfold Near horizon
    omega
  exact ⟨le_refl _, by unfold horizon; omega, timely.asleep, fun i timed => near (timely.sleep i timed),
    fun i timed => near (timely.poll i timed), timely.vtime⟩

theorem ticking_timely (ticking : Ticking start limit s) : Timely s :=
  ⟨ticking.asleep, fun i timed => (ticking.sleep i timed).1, fun i timed => (ticking.poll i timed).1,
    ticking.vtime⟩

/-- The timer: whoever sleeps on has a later deadline. -/
theorem tick_ticking (timely : Timely s) (early : Early s) :
    Ticking s.ticks.toInt horizon (expireSleepers { s with ticks := s.ticks + 1 }) := by
  obtain ⟨young, few⟩ := early
  have sum : (s.ticks + 1).toInt = s.ticks.toInt + 1 :=
    @ticks_add s 1 (by decide) (by have : (1 : Word).toInt = 1 := rfl; omega)
  have drift := @expire_sleepers_drift none { s with ticks := s.ticks + 1 }
  have near : ∀ {d : Word}, d.toInt ≤ s.ticks.toInt + 100000100 →
      Near horizon (expireSleepers { s with ticks := s.ticks + 1 }) d := by
    intro d close
    refine ⟨?_, ?_⟩
    · show d.toInt ≤ (s.ticks + 1).toInt + 100000100
      omega
    · show d.toInt + 2550 * s.irqs.length ≤ horizon
      unfold horizon
      omega
  refine ⟨?_, ?_, fun i inTable asleep timed => ?_, fun i timed => ?_, fun i timed => ?_, timely.vtime⟩
  · show s.ticks.toInt ≤ (s.ticks + 1).toInt
    omega
  · show (s.ticks + 1).toInt + 2550 * s.irqs.length ≤ horizon
    unfold horizon
    omega
  · show (s.ticks + 1).toInt ≤ _
    simp only [expireSleepers] at asleep timed ⊢
    split at asleep
    · cases asleep
    rename_i waits
    rw [if_neg waits] at timed ⊢
    by_contra passed
    refine waits ⟨inTable, ?_⟩
    simp only [due, asleep, BitVec.sle, beq_self_eq_true, Bool.true_and, Bool.and_eq_true,
      bne_iff_ne, decide_eq_true_eq]
    exact ⟨timed, by omega⟩
  · rcases (drift.procs i).sleep with same | zero | impossible
    · rw [same] at timed ⊢
      exact near (timely.sleep i timed)
    · exact absurd zero timed
    · cases impossible
  · rcases (drift.procs i).poll with same | zero
    · rw [same] at timed ⊢
      exact near (timely.poll i timed)
    · exact absurd zero timed

/-- One entry: the clock does not go back, and the next entry finds no deadline that has passed. -/
theorem step_timely {e : Entry} (timely : Timely s) (punctual : Punctual s e)
    (entered : step s e = some t) : s.ticks.toInt ≤ t.ticks.toInt ∧ Timely t := by
  suffices ∃ limit, Ticking s.ticks.toInt limit t by
    obtain ⟨limit, ticking⟩ := this
    exact ⟨ticking.started, ticking_timely ticking⟩
  cases e with
  | syscall env fuel trap =>
    obtain ⟨early, bytes, fresh⟩ := punctual
    have saved : Drift none s (saveCtx s.current trap s) := mark_drift rfl rfl rfl
    have trapped := ticking_calm (timely_ticking timely early) saved
    refine ⟨horizon, ?_⟩
    simp only [step, onSyscall] at entered
    split at entered
    case h_1 => cases entered
    rename_i value noret u served
    have done := serve_ticking (early_drift early saved) bytes trapped
      (fresh.imp_right (Or.imp_right fun fresh => fresh_drift fresh saved nofun)) served
    refine return_to_user_ticking horizon_fits ?_ entered
    split
    · exact done
    · exact ticking_calm done (set_result_drift _ _ _)
  | timer env fuel trap =>
    -- the trapped process is awake or not; saving its context does not matter to the loop
    have saved : Drift none s (saveCtx s.current trap s) := mark_drift rfl rfl rfl
    have early := early_drift punctual saved
    have later : Timely (saveCtx s.current trap s) :=
      ticking_timely (ticking_calm (timely_ticking timely punctual) saved)
    have ticked := tick_ticking later early
    refine ⟨horizon, ?_⟩
    simp only [step, onTimer] at entered
    split at entered
    case h_1 => cases entered
    case h_2 next chosen =>
      refine return_to_user_ticking horizon_fits ?_ entered
      exact ticking_calm ticked (globals_drift rfl rfl rfl rfl rfl)
  | pageFault env fuel trap resolved =>
    have saved : Drift none s (saveCtx s.current trap s) := mark_drift rfl rfl rfl
    have trapped := ticking_calm (timely_ticking timely punctual) saved
    refine ⟨horizon, ?_⟩
    simp only [step, onPageFault] at entered
    split at entered
    · cases entered
      exact ticking_calm trapped (note_resumed_drift _ _ _)
    · exact return_to_user_ticking horizon_fits
        (ticking_calm trapped (drift_walks.sendSignal _ _ _)) entered
  | irq irq =>
    cases entered
    exact ⟨horizon, early_restart punctual (timely_ticking timely punctual) (handle_irq_drift s irq)⟩
  | arrival irqs =>
    cases entered
    refine ⟨s.ticks.toInt + 100000100 + 2550 * irqs.length, le_refl _, ?_, timely.asleep,
      fun i timed => ⟨timely.sleep i timed, ?_⟩, fun i timed => ⟨timely.poll i timed, ?_⟩,
      timely.vtime⟩
    · dsimp only
      omega
    · have close := timely.sleep i timed
      dsimp only
      omega
    · have close := timely.poll i timed
      dsimp only
      omega

theorem punctual_timely (run : PunctualRun s) : Timely s := by
  induction run with
  | boot ctx =>
    have idle (i : Nat) : ((booted ctx).procs i).state ≠ .sleeping ∧
        ((booted ctx).procs i).sleepDeadline = 0 ∧ ((booted ctx).procs i).pollDeadline = 0 := by
      by_cases first : i = 0 <;> simp [booted, emptyProc, first]
    exact ⟨fun i _ asleep => absurd asleep (idle i).1, fun i timed => absurd (idle i).2.1 timed,
      fun i timed => absurd (idle i).2.2 timed, Nat.zero_le _⟩
  | step s t e before punctual entered ih =>
    exact (step_timely ih punctual entered).2

/-- In a run whose entries all meet the condition, no entry sets the clock back. -/
theorem clock_moves_forward {e : Entry} (run : PunctualRun s) (punctual : Punctual s e)
    (entered : step s e = some t) : s.ticks.toInt ≤ t.ticks.toInt :=
  (step_timely (punctual_timely run) punctual entered).1

/-- Init sleeps for a second, alone. -/
theorem clock_moves_forward_nanosleep :
    ∃ t, step (booted (sampleCtx 0 0 0 0)) (sampleCall sysNanosleepNumber 0 0 0) = some t ∧
      t.ticks = 100 ∧ (booted (sampleCtx 0 0 0 0)).ticks.toInt ≤ t.ticks.toInt := by
  cases entered : step (booted (sampleCtx 0 0 0 0)) (sampleCall sysNanosleepNumber 0 0 0) with
  | none =>
    have returned : (step (booted (sampleCtx 0 0 0 0)) (sampleCall sysNanosleepNumber 0 0 0)).isSome =
      true := by decide
    rw [entered] at returned
    cases returned
  | some t =>
    have clock : (step (booted (sampleCtx 0 0 0 0)) (sampleCall sysNanosleepNumber 0 0 0)).map
        (fun u => u.ticks) = some 100 := by decide
    rw [entered] at clock
    refine ⟨t, rfl, Option.some.inj clock, clock_moves_forward (.boot _) ?_ entered⟩
    exact ⟨⟨by decide, by decide⟩, ⟨nofun, nofun, fun _ => show 1 ≤ 255 by decide⟩, .inl rfl⟩

/-- A `read` of an empty pipe. -/
def readEmptyPipe : Entry :=
  .syscall { sampleEnv with io := fun _ => .pipe 0 } 8 (sampleCtx sysRead 0 0 1)

/-- Process 1 sleeps in a `poll` until tick 1, is woken by a write, and enters a handler at tick 1.
At tick 2 it reads an empty pipe there, while init waits for it: nobody can run, and the clock is
set to the deadline of the `poll`. -/
theorem stale_deadline_sets_clock_back :
    ∃ s t, Reachable s ∧ step s readEmptyPipe = some t ∧ s.ticks = 2 ∧ t.ticks = 1 := by
  obtain ⟨s, reached, checked⟩ := run_reaches (sampleCtx 0 0 0 0)
    [sampleCall sysSigaction 10 1 0, sampleCall sysFork 0 0 0, sampleCall sysYield 0 0 0,
      .syscall { sampleEnv with poll := fun _ => some 0 } 8 (sampleCtx sysPollNumber 0 1 10),
      .syscall { sampleEnv with io := fun _ => .returns 1 ⟨[.poll], [], 0, true, 1, 0⟩ } 8
        (sampleCtx sysWrite 0 0 1),
      sampleCall sysKill 1 10 0, .timer sampleEnv 8 (sampleCtx 0 0 0 0),
      .timer sampleEnv 8 (sampleCtx 0 0 0 0), sampleCall sysWait 0 0 0]
    (fun s => decide (s.ticks = 2 ∧ (step s readEmptyPipe).map (fun t => t.ticks) = some 1))
    (by decide +kernel)
  obtain ⟨clock, back⟩ := of_decide_eq_true checked
  obtain ⟨t, entered, earlier⟩ := Option.map_eq_some_iff.mp back
  exact ⟨s, t, reached, entered, clock, earlier⟩

end JsEmulator.Process
