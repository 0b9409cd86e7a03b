import JsEmulator.Process.Ambient
import Mathlib.Data.List.Infix

/-!
# The moves of the kernel

`Change` lists what a kernel entry can do to one process beyond the nudges of
others, with the events it logs; a move is a change of one process, a round of
nudges or the timer loop. `ProcessInvariant` collects what a property of a single
process must survive, with an assumption and a conclusion about each logged event.
A sequence of moves then keeps the property.
-/

namespace JsEmulator.Process

open Relation

variable {s t : Kernel} {i : Nat} {f : Proc → Proc} {p q : Proc}

/-- The four argument registers hold the call. -/
structure Call.Loaded (call : Call) (ctx : CpuContext) : Prop where
  number : ctx.regs 0 = call.number
  argument1 : ctx.regs 1 = call.argument1
  argument2 : ctx.regs 2 = call.argument2
  argument3 : ctx.regs 3 = call.argument3

/-- How a process goes to sleep: `nanosleep` after its `INT`, every other call at
it. A sleeping `poll` has a deadline of its own whenever it has one at all. -/
inductive Suspended (call : Call) (p : Proc) : Chan → Prop where
  | deadline (k : Nat) (number : call.number = sysNanosleepNumber)
      (pc : p.ctx.pc = call.intAddress + syscallInstrSize) (loaded : call.Loaded p.ctx) :
      Suspended call p (.sleepDeadline k)
  | object (chan : Chan) (object : ∀ k, chan ≠ .sleepDeadline k)
      (polling : chan = .poll →
        call.number = sysPollNumber ∧ (p.sleepDeadline ≠ 0 → p.pollDeadline ≠ 0))
      (pc : p.ctx.pc = call.intAddress) (loaded : call.Loaded p.ctx) : Suspended call p chan

/-- Agreement on everything but the context, the deadlines and the channel. -/
structure SameFrame (p q : Proc) : Prop where
  state : q.state = p.state
  inSignal : q.inSignal = p.inSignal
  signalSavedMask : q.signalSavedMask = p.signalSavedMask
  signalSavedCtx : q.signalSavedCtx = p.signalSavedCtx
  frame : q.frame = p.frame
  call : q.call = p.call

/-- What a kernel entry may do to a process, with the events it logs. The guard of
`delivered` is the one `prepare_signal` tests on entry, or its loop going on with
another process. -/
inductive Change (log : List Event) (i : Nat) : Proc → List Event → Proc → Prop where
  | trapped (p : Proc) (ctx : CpuContext) (running : p.state = .runnable) :
      Change log i p [] { p with ctx := ctx, call := none }
  | adjusted (p q : Proc) (uncalled : p.call = none) (same : SameFrame p q) : Change log i p [] q
  | left (p q : Proc) (awake : p.state ≠ .sleeping) (away : q.state ≠ .sleeping)
      (same : SameCore { p with state := q.state } q) : Change log i p [] q
  | replaced (p q : Proc) (inSignal : q.inSignal = false) (frame : q.frame = none)
      (uncalled : q.call = none) : Change log i p [] q
  | slept (p : Proc) (call : Call) (chan : Chan) (running : p.state = .runnable)
      (uncalled : p.call = none) (suspended : Suspended call p chan) :
      Change log i p [.slept i call chan p.sleepDeadline p.pollDeadline p.ttyDeadline]
        { p with chan := chan, state := .sleeping, call := some call }
  | continued (p : Proc) : Change log i p [.continued i p.inSignal (nextDeliverableSignal p)] p
  | delivered (p : Proc) (signal : Nat) (running : p.state = .runnable)
      (guarded : p.inSignal = false ∨ ∃ deliverable, deliverable ≠ 0 ∧
        .continued i true deliverable ∈ log) :
      Change log i p [.delivered i p.inSignal p.frame] (frameProc signal p)
  | resumed (p : Proc) (call : Call) (awake : p.state ≠ .sleeping) (called : p.call = some call) :
      Change log i p [.resumed i call p.ctx] { p with call := none }
  | restored (p : Proc) (handling : p.inSignal = true) (uncalled : p.call = none) :
      Change log i p [.restored i p.signalSavedCtx p.signalSavedMask p.frame] (restoredProc p)

/-- One move of the kernel. -/
inductive Move (s t : Kernel) : Prop where
  | ambient (procs : ∀ i, ReflTransGen Nudge (s.procs i) (t.procs i)) (log : t.log = s.log)
  | expired (same : t = expireSleepers s)
  | changed (i : Nat) (events : List Event) (q : Proc)
      (change : Change s.log i (s.procs i) events q)
      (procs : t.procs = Function.update s.procs i q) (log : t.log = events ++ s.log)

/-- A property of single processes that runs preserve. `assumed` restricts the runs
considered, `sound` is what the property yields for each event. -/
structure ProcessInvariant where
  holds : Proc → Prop
  assumed : Event → Prop
  sound : Event → Prop
  fresh : ∀ p, p.inSignal = false → p.frame = none → p.call = none → holds p
  nudge : ∀ p q, Nudge p q → holds p → holds q
  expire : ∀ i p, p.state = .sleeping → p.sleepDeadline ≠ 0 →
    assumed (.expired i p.pollDeadline p.ttyDeadline) → holds p →
      holds (expireProc p) ∧ sound (.expired i p.pollDeadline p.ttyDeadline)
  change : ∀ log i p events q, Change log i p events q → (∀ e ∈ events ++ log, assumed e) →
    holds p → holds q ∧ ∀ e ∈ events, sound e

namespace ProcessInvariant

variable (inv : ProcessInvariant)

/-- The property holds of every process and its conclusion of every event. -/
structure Good (s : Kernel) : Prop where
  holds : ∀ i, inv.holds (s.procs i)
  sound : ∀ e ∈ s.log, inv.sound e

/-- Moves only extend the log. -/
theorem move_log (move : Move s t) : s.log <:+ t.log := by
  cases move with
  | ambient procs log => exact log ▸ List.suffix_refl _
  | expired same => exact same ▸ List.suffix_append _ _
  | changed i events q change procs log => exact log ▸ List.suffix_append _ _

theorem moves_log (moves : ReflTransGen Move s t) : s.log <:+ t.log := by
  induction moves with
  | refl => exact List.suffix_refl _
  | tail _ last ih => exact ih.trans (move_log last)

theorem nudges_hold (p q : Proc) (nudged : ReflTransGen Nudge p q) (held : inv.holds p) :
    inv.holds q := by
  induction nudged with
  | refl => exact held
  | tail _ last ih => exact inv.nudge _ _ last ih

/-- The timer loop expires only due sleepers, each with its event. -/
theorem expire_sleepers_good (s : Kernel) (assumed : ∀ e ∈ (expireSleepers s).log, inv.assumed e)
    (good : inv.Good s) : inv.Good (expireSleepers s) := by
  have each (i : Nat) (inTable : i < s.nproc) (isDue : due s (s.procs i) = true) :
      inv.holds (expireProc (s.procs i)) ∧
        inv.sound (.expired i (s.procs i).pollDeadline (s.procs i).ttyDeadline) := by
    have logged : .expired i (s.procs i).pollDeadline (s.procs i).ttyDeadline ∈
        (expireSleepers s).log := by
      refine List.mem_append_left _ (List.mem_map.mpr ⟨i, ?_, rfl⟩)
      exact List.mem_filter.mpr ⟨List.mem_range.mpr inTable, isDue⟩
    simp only [due, Bool.and_eq_true, beq_iff_eq, bne_iff_ne] at isDue
    exact inv.expire i _ isDue.1.1 isDue.1.2 (assumed _ logged) (good.holds i)
  constructor
  · intro i
    simp only [expireSleepers]
    split
    case isTrue sleeper => exact (each i sleeper.1 sleeper.2).1
    case isFalse => exact good.holds i
  · intro e logged
    rcases List.mem_append.mp logged with new | old
    · obtain ⟨i, chosen, rfl⟩ := List.mem_map.mp new
      obtain ⟨inTable, isDue⟩ := List.mem_filter.mp chosen
      exact (each i (List.mem_range.mp inTable) isDue).2
    · exact good.sound e old

/-- One move keeps the property. -/
theorem move_good (s t : Kernel) (move : Move s t) (assumed : ∀ e ∈ t.log, inv.assumed e)
    (good : inv.Good s) : inv.Good t := by
  cases move with
  | ambient procs log =>
    exact ⟨fun i => inv.nudges_hold _ _ (procs i) (good.holds i), log ▸ good.sound⟩
  | expired same =>
    subst same
    exact inv.expire_sleepers_good s assumed good
  | changed i events q change procs log =>
    rw [log] at assumed
    obtain ⟨held, sound⟩ := inv.change _ _ _ _ _ change assumed (good.holds i)
    constructor
    · intro j
      rw [procs]
      by_cases same : j = i
      · subst same
        rwa [Function.update_self]
      · rw [Function.update_of_ne same]
        exact good.holds j
    · intro e logged
      rw [log] at logged
      exact (List.mem_append.mp logged).elim (sound e) (good.sound e)

/-- A sequence of moves keeps the property. -/
theorem moves_good (s t : Kernel) (moves : ReflTransGen Move s t)
    (assumed : ∀ e ∈ t.log, inv.assumed e) (good : inv.Good s) : inv.Good t := by
  induction moves with
  | refl => exact good
  | tail _ last ih =>
    have earlier := ih (fun e logged =>
      assumed e ((move_log last).subset logged))
    exact inv.move_good _ _ last assumed earlier

end ProcessInvariant

/-- The current process can run. -/
def Running (s : Kernel) : Prop := (s.procs s.current).state = .runnable

/-- Moves during which nobody goes to sleep. -/
structure Quiet (s t : Kernel) : Prop where
  moves : ReflTransGen Move s t
  calls : ∀ i, (s.procs i).call = none → (t.procs i).call = none

theorem quiet_refl (s : Kernel) : Quiet s s := ⟨.refl, fun _ uncalled => uncalled⟩

theorem quiet_trans {u : Kernel} (first : Quiet s t) (second : Quiet t u) : Quiet s u :=
  ⟨first.moves.trans second.moves, fun i uncalled => second.calls i (first.calls i uncalled)⟩

theorem nudges_call (nudged : ReflTransGen Nudge p q) : q.call = p.call := by
  induction nudged with
  | refl => rfl
  | tail _ last ih =>
    rw [← ih]
    cases last with
    | wake asleep object => rfl
    | interrupt asleep => exact interrupt_sleeper_call _
    | interbyte deadline asleep reading timed => rfl
    | proceed stopped => rfl
    | mark q same => exact same.call

/-- Nudges of processes and changes of other globals. -/
theorem nudges_quiet (procs : ∀ i, ReflTransGen Nudge (s.procs i) (t.procs i)) (log : t.log = s.log) :
    Quiet s t :=
  ⟨.single (.ambient procs log), fun i uncalled => (nudges_call (procs i)).trans uncalled⟩

theorem nudged_quiet (nudged : Nudged s t) : Quiet s t :=
  nudges_quiet nudged.procs nudged.log

/-- A zombie can only be marked. -/
theorem nudges_zombie (nudged : ReflTransGen Nudge p q) (dead : p.state = .zombie) :
    q.state = .zombie := by
  induction nudged with
  | refl => exact dead
  | tail _ last ih =>
    cases last with
    | wake asleep object | interrupt asleep | interbyte deadline asleep reading timed => simp [ih] at asleep
    | proceed stopped => simp [ih] at stopped
    | mark q same => exact same.state.trans ih

/-- Quiet moves that are moves of the family too, and during which nobody is reaped. -/
structure Steady (s t : Kernel) : Prop extends Quiet s t where
  kin : Kindred s t
  zombies : ∀ i, (s.procs i).state = .zombie → (t.procs i).state = .zombie

theorem steady_refl (s : Kernel) : Steady s s := ⟨quiet_refl s, kindred_refl s, fun _ dead => dead⟩

theorem steady_trans (s t u : Kernel) (first : Steady s t) (second : Steady t u) : Steady s u :=
  ⟨quiet_trans first.toQuiet second.toQuiet, kindred_trans s t u first.kin second.kin,
    fun i dead => second.zombies i (first.zombies i dead)⟩

theorem ambient_steady (s t : Kernel) (ambient : Ambient s t) : Steady s t :=
  ⟨nudged_quiet ambient.toNudged, ambient.kin, fun i => nudges_zombie (ambient.procs i)⟩

/-- A change of globals that belong to no process. -/
theorem globals_steady (s t : Kernel) (procs : t.procs = s.procs) (log : t.log = s.log)
    (history : t.history = s.history) (nproc : t.nproc = s.nproc)
    (statuses : t.statuses = s.statuses) : Steady s t :=
  ⟨nudges_quiet (fun _ => procs ▸ .refl) log, same_procs_kindred s t procs history nproc statuses,
    fun _ => procs ▸ id⟩

/-- A slot whose process is no zombie, or stays one. -/
theorem set_proc_zombies (s : Kernel) (i : Nat) (f : Proc → Proc)
    (kept : (s.procs i).state = .zombie → (f (s.procs i)).state = .zombie) (j : Nat)
    (dead : (s.procs j).state = .zombie) : ((s.setProc i f).procs j).state = .zombie := by
  rw [set_proc_procs]
  split
  case isTrue same =>
    subst same
    exact kept dead
  case isFalse => exact dead

/-- A change of one process with its events. -/
theorem change_moves (s : Kernel) (i : Nat) (f : Proc → Proc) (events : List Event)
    (change : Change s.log i (s.procs i) events (f (s.procs i))) :
    ReflTransGen Move s { s.setProc i f with log := events ++ s.log } :=
  .single (.changed i events _ change rfl rfl)

theorem change_quiet (s : Kernel) (i : Nat) (f : Proc → Proc) (events : List Event)
    (change : Change s.log i (s.procs i) events (f (s.procs i)))
    (calls : (s.procs i).call = none → (f (s.procs i)).call = none) :
    Quiet s { s.setProc i f with log := events ++ s.log } := by
  refine ⟨change_moves s i f events change, ?_⟩
  intro j uncalled
  show ((s.setProc i f).procs j).call = none
  rw [set_proc_procs]
  split
  case isTrue same =>
    subst same
    exact calls uncalled
  case isFalse => exact uncalled

/-- A runnable process keeps its context through nudges. -/
theorem ambient_core (ambient : Ambient s t) (running : (s.procs i).state = .runnable) :
    SameCore (s.procs i) (t.procs i) :=
  nudges_runnable (ambient.procs i) running

theorem ambient_running (ambient : Ambient s t) (running : Running s) : Running t := by
  unfold Running
  rw [ambient.current]
  exact (ambient_core ambient running).state.trans running

/-- An awake process leaves the running state for another one that is not sleep. -/
theorem leave_quiet (awake : (s.procs i).state ≠ .sleeping)
    (away : (f (s.procs i)).state ≠ .sleeping)
    (same : SameCore { s.procs i with state := (f (s.procs i)).state } (f (s.procs i))) :
    Quiet s (s.setProc i f) :=
  change_quiet s i f [] (.left _ _ awake away same) (fun uncalled => same.call.trans uncalled)

/-- A process outside any call changes its context or its deadlines. -/
theorem adjust_quiet (uncalled : (s.procs i).call = none)
    (same : SameFrame (s.procs i) (f (s.procs i))) :
    Quiet s (s.setProc i f) :=
  change_quiet s i f [] (.adjusted _ _ uncalled same) (fun uncalled => same.call.trans uncalled)

/-- The same, when the family sees nothing of it. -/
theorem adjust_steady (uncalled : (s.procs i).call = none)
    (same : SameFrame (s.procs i) (f (s.procs i))) (calm : Calm (s.procs i) (f (s.procs i))) :
    Steady s (s.setProc i f) :=
  ⟨adjust_quiet uncalled same, set_proc_kindred s i f calm,
    set_proc_zombies s i f (fun dead => same.state.trans dead)⟩

/-- A slot is filled with a process that has no frame and no call. -/
theorem replace_quiet (inSignal : (f (s.procs i)).inSignal = false)
    (frame : (f (s.procs i)).frame = none) (uncalled : (f (s.procs i)).call = none) :
    Quiet s (s.setProc i f) :=
  change_quiet s i f [] (.replaced _ _ inSignal frame uncalled) (fun _ => uncalled)

end JsEmulator.Process
