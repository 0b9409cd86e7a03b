import JsEmulator.Process.Switching

/-!
# Runs of the kernel

`step_entered` says that every kernel entry, from a state whose current process is
runnable, is a sequence of moves and ends with a runnable current process.
`reachable_good` is the induction over runs: an invariant of single processes holds
in every state that runs from boot reach.
-/

namespace JsEmulator.Process

open Relation

variable {s t : Kernel} {trap : CpuContext} {caller child fuel parent : Nat} {env : Env}
variable {noret : Bool} {minimum options pid status value : Word} {answer : TtyAnswer}
variable {f : Proc → Proc} {chan : Chan}

/-- The caller of a system call, between the trap and the first switch. -/
structure Serving (s : Kernel) (caller : Nat) (trap : CpuContext) : Prop where
  current : s.current = caller
  running : (s.procs caller).state = .runnable
  uncalled : (s.procs caller).call = none
  ctx : (s.procs caller).ctx = trap

/-- Nudges leave the caller of a system call alone. -/
theorem serving_ambient (s t : Kernel) (caller : Nat) (trap : CpuContext)
    (serving : Serving s caller trap) (ambient : Ambient s t) : Serving t caller trap := by
  have core := ambient_core ambient serving.running
  exact ⟨ambient.current.trans serving.current, core.state.trans serving.running,
    core.call.trans serving.uncalled, core.ctx.trans serving.ctx⟩

/-- A system call has been served: the state after it, as `on_syscall` goes on. -/
structure Served (s t : Kernel) (caller : Nat) (noret : Bool) : Prop where
  moves : ReflTransGen Move s t
  kin : Kindred s t
  running : Running t
  uncalled : noret = false → (t.procs caller).call = none

/-- A call that returns at once, after steady moves that keep the caller runnable. -/
theorem served_here (s t : Kernel) (caller : Nat) (trap : CpuContext) (noret : Bool)
    (serving : Serving s caller trap) (steady : Steady s t) (current : t.current = s.current)
    (running : (t.procs caller).state = .runnable) : Served s t caller noret := by
  refine ⟨steady.moves, steady.kin, ?_, fun _ => steady.calls caller serving.uncalled⟩
  unfold Running
  rwa [current, serving.current]

theorem served_ambient (noret : Bool) (serving : Serving s caller trap) (ambient : Ambient s t) :
    Served s t caller noret :=
  served_here s t caller trap noret serving (ambient_steady _ _ ambient) ambient.current
    (serving_ambient s t caller trap serving ambient).running

/-- A call that changes its caller's context or deadlines and returns. -/
theorem served_adjusted (noret : Bool) (serving : Serving s caller trap)
    (same : SameFrame (s.procs caller) (f (s.procs caller)))
    (calm : Calm (s.procs caller) (f (s.procs caller))) :
    Served s (s.setProc caller f) caller noret := by
  refine served_here s _ caller trap noret serving (adjust_steady serving.uncalled same calm) rfl ?_
  rw [set_proc_same]
  exact same.state.trans serving.running

theorem served_after (s t u : Kernel) (caller : Nat) (noret : Bool) (first : Steady s t)
    (second : Served t u caller noret) : Served s u caller noret :=
  ⟨first.moves.trans second.moves, kindred_trans _ _ _ first.kin second.kin, second.running,
    second.uncalled⟩

/-- A change of deadlines leaves the caller as it was at the trap. -/
theorem serving_adjusted (serving : Serving s caller trap)
    (same : SameFrame (s.procs caller) (f (s.procs caller)))
    (ctx : (f (s.procs caller)).ctx = (s.procs caller).ctx) :
    Serving (s.setProc caller f) caller trap := by
  refine ⟨serving.current, ?_, ?_, ?_⟩
  · rw [set_proc_same]
    exact same.state.trans serving.running
  · rw [set_proc_same]
    exact same.call.trans serving.uncalled
  · rw [set_proc_same]
    exact ctx.trans serving.ctx

/-- A call that first changes its caller's deadlines and then goes on. -/
theorem served_after_adjusting (serving : Serving s caller trap)
    (same : SameFrame (s.procs caller) (f (s.procs caller)))
    (calm : Calm (s.procs caller) (f (s.procs caller)))
    (ctx : (f (s.procs caller)).ctx = (s.procs caller).ctx)
    (rest : Serving (s.setProc caller f) caller trap → Served (s.setProc caller f) t caller noret) :
    Served s t caller noret :=
  served_after _ _ _ caller noret (adjust_steady serving.uncalled same calm)
    (rest (serving_adjusted serving same ctx))

/-- A call that returns a value without touching any process. -/
theorem returned_served {code : Word} (serving : Serving s caller trap)
    (done : some (code, false, s) = some (value, noret, t)) : Served s t caller noret := by
  obtain ⟨-, -, rfl⟩ := by simpa using done
  exact served_ambient noret serving (ambient_refl s)

/-- Going to sleep and switching away. -/
theorem block_on_served {call : Call} (running : (s.procs caller).state = .runnable)
    (uncalled : (s.procs caller).call = none) (suspended : Suspended call (s.procs caller) chan)
    (blocked : blockOn env fuel caller call chan s = some (value, noret, t)) :
    Served s t caller noret := by
  obtain ⟨u, switched, same⟩ := Option.map_eq_some_iff.mp blocked
  cases same
  obtain ⟨steady, running'⟩ := switch_to_next_steady switched
  have slept : ReflTransGen Move s (goToSleep caller call chan s) :=
    change_moves s caller (fun p => { p with chan := chan, state := .sleeping, call := some call })
      [_] (.slept _ call chan running uncalled suspended)
  have unseen : Kindred s (goToSleep caller call chan s) := by
    refine kindred_trans _ _ _ (set_proc_kindred s caller (fun p =>
      { p with chan := chan, state := .sleeping, call := some call })
      ⟨?_, rfl, rfl, rfl, rfl, rfl, rfl, rfl, rfl, rfl⟩) (same_procs_kindred _ _ rfl rfl rfl rfl)
    simp [running, RunState.life]
  exact ⟨slept.trans steady.moves, kindred_trans _ _ _ unseen steady.kin, running', by simp⟩

section

variable (serving : Serving s caller trap)
include serving

/-- Blocking at the `INT`: step back, sleep, switch away. -/
theorem block_rewound_served (object : ∀ k, chan ≠ .sleepDeadline k)
    (polling : chan = .poll → (callOf trap).number = sysPollNumber ∧
      ((s.procs caller).sleepDeadline ≠ 0 → (s.procs caller).pollDeadline ≠ 0))
    (blocked : blockOn env fuel caller (callOf trap) chan (rewind caller s) =
      some (value, noret, t)) : Served s t caller noret := by
  have rewound : Steady s (rewind caller s) :=
    adjust_steady serving.uncalled (by constructor <;> rfl) (by constructor <;> rfl)
  refine served_after _ _ _ caller noret rewound (block_on_served ?_ ?_ ?_ blocked)
  · simp [rewind, serving.running]
  · simp [rewind, serving.uncalled]
  · refine .object chan object ?_ ?_ ?_
    · simpa [rewind] using polling
    · simp [rewind, serving.ctx, callOf]
    · constructor <;> simp [rewind, serving.ctx, callOf]

theorem sys_nanosleep_served (number : (callOf trap).number = sysNanosleepNumber)
    (served : sysNanosleep env fuel caller (callOf trap) s = some (value, noret, t)) :
    Served s t caller noret := by
  unfold sysNanosleep at served
  split at served
  case h_1 => exact returned_served serving served
  rename_i seconds nanoseconds _
  split at served
  case isTrue => exact returned_served serving served
  simp only at served
  split at served
  case isTrue => exact returned_served serving served
  -- The deadline is set and the context stays as trapped.
  refine served_after_adjusting serving ?_ ?_ ?_ (fun adjusted =>
    block_on_served adjusted.running
      adjusted.uncalled (.deadline caller number ?_ ?_) served)
  · constructor <;> rfl
  · constructor <;> rfl
  · rfl
  · simp [serving.ctx, callOf]
  · constructor <;> simp [serving.ctx, callOf]

theorem sys_poll_served (number : (callOf trap).number = sysPollNumber)
    (served : sysPoll env fuel caller (callOf trap) s = some (value, noret, t)) :
    Served s t caller noret := by
  have cleared (code : Word) (done : some (code, false, s.setProc caller (fun p =>
      { p with pollDeadline := 0, sleepDeadline := 0 })) = some (value, noret, t)) :
      Served s t caller noret := by
    obtain ⟨-, -, rfl⟩ := by simpa using done
    exact served_adjusted noret serving (by constructor <;> rfl) (by constructor <;> rfl)
  unfold sysPoll at served
  simp only at served
  split at served
  case isTrue => exact returned_served serving served
  split at served
  case h_1 => exact returned_served serving served
  rename_i ready _
  split at served
  case isTrue => exact cleared _ served
  split at served
  on_goal 1 =>
    split at served
    case isTrue => exact cleared _ served
  all_goals
    refine served_after_adjusting serving ?_ ?_ ?_ (fun adjusted =>
      block_rewound_served adjusted
        (by simp) (fun _ => ⟨number, ?_⟩) served)
    · constructor <;> rfl
    · constructor <;> rfl
    · rfl
    · simp

theorem tty_block_served
    (served : ttyBlock env fuel caller (callOf trap) answer minimum s = some (value, noret, t)) :
    Served s t caller noret := by
  unfold ttyBlock at served
  split at served
  case isTrue => exact returned_served serving served
  split at served
  case isTrue => exact returned_served serving served
  split at served
  case isTrue => exact returned_served serving served
  simp only at served
  split at served
  case isTrue =>
    refine served_after_adjusting serving ?_ ?_ ?_ (fun adjusted =>
      block_rewound_served adjusted
        (by simp) (by simp) served)
    · constructor <;> rfl
    · constructor <;> rfl
    · rfl
  case isFalse =>
    exact block_rewound_served serving (by simp) (by simp) served

theorem tty_take_served {timedOut : Bool}
    (served : ttyTake env fuel caller (callOf trap) answer minimum timedOut s =
      some (value, noret, t)) : Served s t caller noret := by
  unfold ttyTake at served
  split at served
  case isTrue => exact returned_served serving served
  split at served
  case isTrue =>
    exact tty_block_served serving served
  obtain ⟨-, -, rfl⟩ := by simpa using served
  exact served_adjusted noret serving (by constructor <;> rfl) (by constructor <;> rfl)

theorem tty_read_served
    (served : ttyRead env fuel caller (callOf trap) answer s = some (value, noret, t)) :
    Served s t caller noret := by
  unfold ttyRead at served
  simp only at served
  split at served
  case isTrue => exact returned_served serving served
  generalize drained : kbdDrain answer.input s = u at served
  have ambient : Ambient s u := drained ▸ kbd_drain_ambient answer.input s
  have still := serving_ambient s u caller trap serving ambient
  refine served_after s u t caller noret (ambient_steady _ _ ambient) ?_
  split at served
  case isTrue =>
    obtain ⟨-, -, rfl⟩ := by simpa using served
    exact served_ambient noret still (ambient_walks.sendSignalTo _ _ u)
  generalize (if (callOf trap).argument3.slt u.ttyVmin then (callOf trap).argument3
    else u.ttyVmin) = minimum at served
  split at served
  case isTrue =>
    refine served_after_adjusting still ?_ ?_ ?_ (fun adjusted =>
      tty_take_served adjusted served)
    · constructor <;> rfl
    · constructor <;> rfl
    · rfl
  case isFalse =>
    exact tty_take_served still served

theorem sys_io_served (served : sysIo env fuel caller (callOf trap) s = some (value, noret, t)) :
    Served s t caller noret := by
  unfold sysIo at served
  split at served
  case h_1 result effect _ =>
    obtain ⟨-, -, rfl⟩ := by simpa using served
    exact served_ambient noret serving (apply_effect_ambient caller effect s)
  case h_2 answer _ =>
    exact tty_read_served serving served
  case h_3 | h_4 =>
    exact block_rewound_served serving (by simp) (by simp) served

end

/-- Storing a result in the caller's `R0`. -/
theorem set_result_serving (s : Kernel) (caller : Nat) (trap : CpuContext) (value : Word)
    (serving : Serving s caller trap) :
    Served s (setResult caller value s) caller true := by
  exact served_adjusted true serving (by constructor <;> rfl) (by constructor <;> rfl)

/-- Storing a status reaches no process. -/
theorem store_status_ambient (address : Word) (status : WaitStatus) (s : Kernel)
    (sound : status.Told s) : Ambient s (storeStatus address status s) :=
  ⟨⟨fun _ => .refl, rfl, rfl, rfl⟩, store_status_kindred address sound⟩

theorem wait_matches_parent (matched : waitMatches s parent child pid = true) :
    (s.procs child).parent = some parent := by
  simp only [waitMatches, Bool.and_eq_true, beq_iff_eq] at matched
  exact matched.1

/-- The result of a `waitpid` is stored, and the zombie it names is released. -/
def reap (parent child : Nat) (s : Kernel) : Kernel :=
  ((setResult parent (BitVec.ofNat 32 child) s).setProc child
    (fun p => { p with state := .unused })).note (.reaped parent child (s.procs child).waitEvent)

/-- A stop or continue event is taken back and the result of the `waitpid` stored. -/
def report (parent child : Nat) (s : Kernel) : Kernel :=
  (setResult parent (BitVec.ofNat 32 child)
    (s.setProc child (fun p => { p with waitEvent := 0 }))).note
      (.reported parent child (s.procs child).waitEvent)

theorem reap_served (serving : Serving s parent trap)
    (dead : (s.procs child).state = .zombie) (own : (s.procs child).parent = some parent) :
    Served s (reap parent child s) parent true := by
  have different : child ≠ parent := by
    rintro rfl
    simp [serving.running] at dead
  have stored := set_result_serving s parent trap (BitVec.ofNat 32 child) serving
  unfold reap
  generalize result : setResult parent (BitVec.ofNat 32 child) s = t at stored
  have same : t.procs child = s.procs child := by
    rw [← result, setResult, set_proc_other s parent child _ different]
  have current : t.current = parent := by
    rw [← result, setResult, set_proc_current, serving.current]
  have released : Quiet t (t.setProc child (fun p => { p with state := .unused })) := by
    refine leave_quiet (by simp [same, dead]) (by simp) ?_
    constructor <;> rfl
  have unmoved : ReflTransGen Move (t.setProc child (fun p => { p with state := .unused }))
      ((t.setProc child (fun p => { p with state := .unused })).note
        (.reaped parent child (s.procs child).waitEvent)) :=
    .single (.ambient (fun _ => .refl) rfl)
  have reaped : Kindred t ((t.setProc child (fun p => { p with state := .unused })).note
      (.reaped parent child (s.procs child).waitEvent)) := by
    refine event_kindred (by simp) ?_ ?_ ?_ rfl (.reaped ?_)
    · simp [ProcEvent.Legal, Proc.kin, same, dead, own]
    · simp [Kin.after, Proc.kin, RunState.life]
    · intro i other
      simp [Kin.after, other.symm]
    · simp [Proc.fate, same, dead]
  refine ⟨(stored.moves.trans released.moves).trans unmoved, kindred_trans _ _ _ stored.kin reaped,
    ?_, by simp⟩
  have still : (t.procs parent).state = .runnable := current ▸ stored.running
  have last : ((t.setProc child (fun p => { p with state := .unused })).procs t.current).state =
      .runnable := by
    rwa [current, set_proc_other t child parent _ different.symm]
  exact last

theorem report_served (serving : Serving s parent trap) (own : (s.procs child).parent = some parent)
    (pending : (s.procs child).waitEvent = wuntraced ∨ (s.procs child).waitEvent = wcontinued) :
    Served s (report parent child s) parent true := by
  have noted : Nudged s ((s.setProc child (fun p => { p with waitEvent := 0 })).note
      (.reported parent child (s.procs child).waitEvent)) := by
    have nudged := set_proc_nudged s child (fun p => { p with waitEvent := 0 })
      (.mark _ _ (by constructor <;> rfl))
    exact ⟨nudged.procs, nudged.log, nudged.nproc, nudged.current⟩
  have reported : Kindred s ((s.setProc child (fun p => { p with waitEvent := 0 })).note
      (.reported parent child (s.procs child).waitEvent)) := by
    refine event_kindred (by simp) ?_ ?_ ?_ rfl .same
    · simp [ProcEvent.Legal, Proc.kin, own, pending]
    · simp [Kin.after, Proc.kin]
    · intro i other
      simp [Kin.after, other.symm]
  have ambient : Ambient s _ := ⟨noted, reported⟩
  exact served_after _ _ _ parent true (ambient_steady _ _ ambient)
    (set_result_serving _ parent trap _ (serving_ambient s _ parent trap serving ambient))

/-- What `do_waitpid` can do: store a result, with the status of a child that it reaps or whose
event it reports, or block. -/
theorem waitpid_cases {call : Call} {P : Bool → Kernel → Prop}
    (results : ∀ value, P true (setResult parent value s))
    (reaps : ∀ i, (s.procs i).parent = some parent → (s.procs i).state = .zombie →
      P true (reap parent i (storeStatus status
        (.ended i (s.procs i).ending (s.procs i).paused (exitStatus (s.procs i))) s)))
    (reports : ∀ i, (s.procs i).parent = some parent →
      (s.procs i).waitEvent = wuntraced ∨ (s.procs i).waitEvent = wcontinued →
      P true (report parent i
        (storeStatus status (.event i (s.procs i).waitEvent (eventStatus (s.procs i))) s)))
    (blocks : blockOn env fuel parent call (.proc parent) (rewind parent s) = some (value, noret, t) →
      P noret t)
    (served : doWaitpid env fuel parent call pid status options s = some (value, noret, t)) :
    P noret t := by
  have scans (slots : List Nat) (u : Kernel)
      (scanned : waitScan env parent pid status options s slots = some u) : P true u := by
    induction slots with
    | nil => cases scanned
    | cons i rest ih =>
      unfold waitScan at scanned
      simp only at scanned
      split at scanned
      case isTrue isZombie =>
        split at scanned
        · cases scanned
          exact results _
        cases scanned
        exact reaps i (wait_matches_parent isZombie.1) isZombie.2
      case isFalse =>
        split at scanned
        case isTrue pending =>
          split at scanned
          · cases scanned
            exact results _
          cases scanned
          exact reports i (wait_matches_parent pending.1) (pending.2.imp And.left And.left)
        case isFalse => exact ih scanned
  unfold doWaitpid at served
  split at served
  case h_1 u scanned =>
    cases served
    exact scans _ _ scanned
  split at served
  · split at served
    · cases served
      exact results _
    · exact blocks served
  · cases served
    exact results _

theorem do_waitpid_served (serving : Serving s parent trap)
    (served : doWaitpid env fuel parent (callOf trap) pid status options s =
      some (value, noret, t)) : Served s t parent noret := by
  refine waitpid_cases (P := fun noret t => Served s t parent noret)
    (fun value => set_result_serving s parent trap value serving) ?_ ?_
    (block_rewound_served serving (by simp) (by simp)) served
  · intro i own dead
    have stored := store_status_ambient status (.ended i (s.procs i).ending (s.procs i).paused
      (exitStatus (s.procs i))) s ⟨dead, rfl, rfl, rfl⟩
    exact served_after _ _ _ parent true (ambient_steady _ _ stored)
      (reap_served (serving_ambient _ _ parent trap serving stored) dead own)
  · intro i own pending
    have stored := store_status_ambient status (.event i (s.procs i).waitEvent
      (eventStatus (s.procs i))) s trivial
    exact served_after _ _ _ parent true (ambient_steady _ _ stored)
      (report_served (serving_ambient _ _ parent trap serving stored) own pending)

/-- Finding a slot for a child changes no process. The slot is free, or the first
one that was never used. -/
theorem alloc_proc_same {i : Nat} (allocated : allocProc s = some (i, t)) :
    t.procs = s.procs ∧ t.log = s.log ∧ t.current = s.current ∧ t.history = s.history ∧
      t.statuses = s.statuses ∧ ((s.procs i).state = .unused ∧ i < s.nproc ∧ t.nproc = s.nproc ∨
        i = s.nproc ∧ s.nproc < maxProc ∧ t.nproc = s.nproc + 1) := by
  unfold allocProc at allocated
  split at allocated
  case h_1 found =>
    cases allocated
    have free := List.find?_some found
    have below := List.mem_range.mp (List.mem_of_find?_eq_some found)
    exact ⟨rfl, rfl, rfl, rfl, rfl, .inl ⟨by simpa using free, below, rfl⟩⟩
  case h_2 =>
    split at allocated
    case isTrue => simp at allocated
    case isFalse room =>
      cases allocated
      exact ⟨rfl, rfl, rfl, rfl, rfl, .inr ⟨rfl, not_le.mp room, rfl⟩⟩

/-- The child gets a slot with no frame and no call. -/
theorem do_fork_served (env : Env) (noret : Bool) (serving : Serving s parent trap) :
    Served s (doFork env parent s).2 parent noret := by
  unfold doFork
  split
  case isTrue => exact served_ambient noret serving (ambient_refl s)
  split
  case h_1 => exact served_ambient noret serving (ambient_refl s)
  rename_i i u allocated
  obtain ⟨procs, log, current, history, statuses, free⟩ := alloc_proc_same allocated
  have reached : Quiet s u := nudges_quiet (fun _ => procs ▸ .refl) log
  have filled : Quiet u (u.setProc i (forkedProc parent (u.procs parent))) :=
    replace_quiet rfl rfl rfl
  have noted : Quiet (u.setProc i (forkedProc parent (u.procs parent)))
      ((u.setProc i (forkedProc parent (u.procs parent))).note (.forked parent i)) :=
    nudges_quiet (fun _ => .refl) rfl
  have forked : Kindred s
      ((u.setProc i (forkedProc parent (u.procs parent))).note (.forked parent i)) := by
    have living : (s.procs parent).kin.life = .alive := by
      rw [Proc.kin, serving.running]
      rfl
    refine .single (.forked parent i free living ?_ ?_ ?_ ?_ (congrArg _ history) statuses)
    · rw [note_procs, set_proc_same]
      rfl
    · rw [note_procs, set_proc_same, procs]
      rfl
    · rw [note_procs, set_proc_same, procs]
      rfl
    · intro j other
      rw [note_procs, set_proc_other u i j _ other, procs]
  have quiet := quiet_trans reached (quiet_trans filled noted)
  refine ⟨quiet.moves, forked, ?_, fun _ => quiet.calls parent serving.uncalled⟩
  have still : ((u.setProc i (forkedProc parent (u.procs parent))).procs u.current).state =
      .runnable := by
    rw [set_proc_procs]
    split
    case isTrue => rfl
    case isFalse =>
      rw [current, serving.current, procs]
      exact serving.running
  exact still

theorem do_exec_served (env : Env) (serving : Serving s caller trap) :
    Served s (doExec env caller s) caller true := by
  unfold doExec
  split
  case h_1 => exact set_result_serving s caller trap _ serving
  rename_i ctx effect _
  have replaced : Quiet s (s.setProc caller (fun p => signalExecProc { p with ctx := ctx })) :=
    replace_quiet rfl rfl serving.uncalled
  have masked : Kindred s (s.setProc caller (fun p => signalExecProc { p with ctx := ctx })) := by
    refine set_masks_kindred s caller _ (.executed _ ?_) rfl rfl
    intro n
    simp only [signalExecProc]
    split
    · exact .inl rfl
    · exact .inr rfl
  have applied := apply_effect_ambient caller effect
    (s.setProc caller (fun p => signalExecProc { p with ctx := ctx }))
  refine served_here s _ caller trap true serving
    (steady_trans _ _ _ ⟨replaced, masked, set_proc_zombies s caller _ id⟩
      (ambient_steady _ _ applied)) applied.current ?_
  refine (ambient_core applied ?_).state.trans ?_ <;>
    simp [signalExecProc, serving.running]

theorem sys_sigreturn_served (noret : Bool) (serving : Serving s caller trap) :
    Served s (sysSigreturn caller s).2 caller noret := by
  unfold sysSigreturn
  simp only
  split
  case isTrue => exact served_ambient noret serving (ambient_refl s)
  rename_i handling
  have restored := change_quiet s caller restoredProc [_]
    (.restored _ (by simpa using handling) serving.uncalled) (fun uncalled => uncalled)
  have unmasked := kindred_trans _ _ _ (set_masks_kindred s caller restoredProc .restored rfl rfl)
    (same_procs_kindred _ ((s.setProc caller restoredProc).record (.restored caller
      (s.procs caller).signalSavedCtx (s.procs caller).signalSavedMask (s.procs caller).frame))
      rfl rfl rfl rfl)
  refine served_here s _ caller trap noret serving
    ⟨restored, unmasked, set_proc_zombies s caller restoredProc id⟩ rfl ?_
  simp [restoredProc, serving.running]

/-- The calls by what they do: those that only act for others take the steps of a walk. -/
theorem serve_cases {call : Call} {P : Bool → Kernel → Prop}
    (exits : ∀ u, switchToNext env.copyout fuel (doExit caller call.argument1 s) = some u → P true u)
    (yields : ∀ u, switchToNext env.copyout fuel s = some u → P false u)
    (forks : P false (doFork env caller s).2) (executes : P true (doExec env caller s))
    (waits : call.number = sysWait ∨ call.number = sysWaitpid → ∀ pid status options,
      doWaitpid env fuel caller call pid status options s = some (value, noret, t) → P noret t)
    (walks : ∀ u, (∀ R, Walks R → R s u) → P false u)
    (returns : ∀ noret, P noret (sysSigreturn caller s).2)
    (sleeps : call.number = sysNanosleepNumber →
      sysNanosleep env fuel caller call s = some (value, noret, t) → P noret t)
    (polls : call.number = sysPollNumber →
      sysPoll env fuel caller call s = some (value, noret, t) → P noret t)
    (transfers : call.number = sysRead ∨ call.number = sysWrite ∨ call.number = sysRecv ∨
      call.number = sysRecvfrom → sysIo env fuel caller call s = some (value, noret, t) → P noret t)
    (others : P false (applyEffect caller (env.other s).2 s))
    (served : serve env fuel caller call s = some (value, noret, t)) : P noret t := by
  have switched {start : Kernel} {away : Bool} (after : ∀ u, switchToNext env.copyout fuel start = some u → P away u)
      (left : (switchToNext env.copyout fuel start).map (fun u => (0, away, u)) =
        some (value, noret, t)) : P noret t := by
    obtain ⟨u, found, same⟩ := Option.map_eq_some_iff.mp left
    cases same
    exact after _ found
  have returned (result : Word × Kernel) (right : P false result.2)
      (done : returning result = some (value, noret, t)) : P noret t := by
    cases done
    exact right
  unfold serve at served
  rcases ite_eq_iff.mp served with ⟨-, served⟩ | ⟨-, served⟩
  · exact switched exits served
  rcases ite_eq_iff.mp served with ⟨-, served⟩ | ⟨-, served⟩
  · exact switched yields served
  rcases ite_eq_iff.mp served with ⟨-, served⟩ | ⟨-, served⟩
  · exact returned _ forks served
  rcases ite_eq_iff.mp served with ⟨-, served⟩ | ⟨-, served⟩
  · cases served
    exact executes
  rcases ite_eq_iff.mp served with ⟨wait, served⟩ | ⟨-, served⟩
  · exact waits (.inl wait) _ _ _ served
  rcases ite_eq_iff.mp served with ⟨wait, served⟩ | ⟨-, served⟩
  · exact waits (.inr wait) _ _ _ served
  rcases ite_eq_iff.mp served with ⟨-, served⟩ | ⟨-, served⟩
  · exact returned _ (walks _ fun _ walk => walk.sendSignalSelector _ _ _ s) served
  rcases ite_eq_iff.mp served with ⟨-, served⟩ | ⟨-, served⟩
  · exact returned _ (walks _ fun _ walk => walk.sysSigaction _ _ _ s) served
  rcases ite_eq_iff.mp served with ⟨-, served⟩ | ⟨-, served⟩
  · exact returned _ (walks _ fun _ walk => walk.sysSigprocmask _ _ _ s) served
  rcases ite_eq_iff.mp served with ⟨-, served⟩ | ⟨-, served⟩
  · cases served
    exact returns _
  rcases ite_eq_iff.mp served with ⟨-, served⟩ | ⟨-, served⟩
  · exact returned _ (walks _ fun _ walk => walk.sysSetpgid _ _ _ s) served
  rcases ite_eq_iff.mp served with ⟨-, served⟩ | ⟨-, served⟩
  · exact returned _ (walks _ fun _ walk => walk.sysSetsid _ s) served
  rcases ite_eq_iff.mp served with ⟨sleep, served⟩ | ⟨-, served⟩
  · exact sleeps sleep served
  rcases ite_eq_iff.mp served with ⟨poll, served⟩ | ⟨-, served⟩
  · exact polls poll served
  rcases ite_eq_iff.mp served with ⟨transfer, served⟩ | ⟨-, served⟩
  · exact transfers transfer served
  · exact returned _ others served

/-- Every system call. -/
theorem serve_served (serving : Serving s caller trap)
    (served : serve env fuel caller (callOf trap) s = some (value, noret, t)) :
    Served s t caller noret := by
  refine serve_cases (P := fun noret t => Served s t caller noret) ?_ ?_ (do_fork_served env _ serving)
    (do_exec_served env serving) (fun _ _ _ _ => do_waitpid_served serving)
    (fun u walks => served_ambient _ serving (walks _ ambient_walks))
    (fun noret => sys_sigreturn_served noret serving) (sys_nanosleep_served serving)
    (sys_poll_served serving) (fun _ => sys_io_served serving)
    (served_ambient _ serving (apply_effect_ambient caller _ s)) served
  · intro u switched
    obtain ⟨steady, running⟩ := switch_to_next_steady switched
    have exited := do_exit_steady (callOf trap).argument1 serving.running
    exact ⟨exited.moves.trans steady.moves, kindred_trans _ _ _ exited.kin steady.kin, running,
      by simp⟩
  · intro u switched
    obtain ⟨steady, running⟩ := switch_to_next_steady switched
    exact ⟨steady.moves, steady.kin, running, fun _ => steady.calls caller serving.uncalled⟩

/-- `save_ctx` for the process that trapped. -/
theorem save_ctx_serving (s : Kernel) (trap : CpuContext) (running : Running s) :
    Steady s (saveCtx s.current trap s) ∧ Serving (saveCtx s.current trap s) s.current trap := by
  have trapped := change_quiet s s.current (fun p => { p with ctx := trap, call := none }) []
    (.trapped _ trap running) (fun _ => rfl)
  refine ⟨⟨trapped, set_proc_kindred s s.current _ (by constructor <;> rfl),
    set_proc_zombies s s.current _ id⟩, rfl, ?_, ?_, ?_⟩
  · simpa [saveCtx, Running] using running
  · simp [saveCtx]
  · simp [saveCtx]

theorem load_ctx_steady (running : Running s) : Steady s (loadCtx s) ∧ Running (loadCtx s) := by
  obtain ⟨steady, -, current, state⟩ := note_resumed_steady s.current s (by
    rw [show (s.procs s.current).state = .runnable from running]
    simp)
  refine ⟨steady, ?_⟩
  unfold Running loadCtx
  rw [current, state]
  exact running

theorem return_to_user_steady (env : Env) (fuel : Nat) (s t : Kernel) (running : Running s)
    (returned : returnToUser env fuel s = some t) : Steady s t ∧ Running t := by
  obtain ⟨u, prepared, rfl⟩ := Option.map_eq_some_iff.mp returned
  obtain ⟨steady, running'⟩ := prepare_signal_steady running prepared
  obtain ⟨loaded, last⟩ := load_ctx_steady running'
  exact ⟨steady_trans _ _ _ steady loaded, last⟩

/-- A kernel entry has been made. -/
structure Entered (s t : Kernel) : Prop where
  moves : ReflTransGen Move s t
  kin : Kindred s t
  running : Running t

theorem entered_steady (s t u : Kernel) (first : Steady s t) (second : Steady t u ∧ Running u) :
    Entered s u :=
  ⟨first.moves.trans second.1.moves, kindred_trans _ _ _ first.kin second.1.kin, second.2⟩

theorem on_syscall_entered (running : Running s) (entered : onSyscall env fuel trap s = some t) :
    Entered s t := by
  obtain ⟨saved, serving⟩ := save_ctx_serving s trap running
  unfold onSyscall at entered
  simp only at entered
  split at entered
  case h_1 => simp at entered
  rename_i value noret u served
  have done := served_after _ _ _ _ _ saved (serve_served serving served)
  have rest : Steady u t ∧ Running t := by
    cases noret with
    | true => exact return_to_user_steady env fuel u t done.running entered
    | false =>
      have stored : Steady u (setResult s.current value u) :=
        adjust_steady (done.uncalled rfl) (by constructor <;> rfl)
          (by constructor <;> rfl)
      have still : Running (setResult s.current value u) := by
        unfold Running setResult
        rw [set_proc_current, set_proc_procs]
        split
        case isTrue same => exact same ▸ done.running
        case isFalse => exact done.running
      obtain ⟨steady, last⟩ := return_to_user_steady env fuel _ t still entered
      exact ⟨steady_trans _ _ _ stored steady, last⟩
  exact ⟨done.moves.trans rest.1.moves, kindred_trans _ _ _ done.kin rest.1.kin, rest.2⟩

theorem on_timer_entered (running : Running s) (entered : onTimer env fuel trap s = some t) :
    Entered s t := by
  have ticked : Steady s { s with ticks := s.ticks + 1 } := globals_steady _ _ rfl rfl rfl rfl rfl
  obtain ⟨saved, -⟩ := save_ctx_serving { s with ticks := s.ticks + 1 } trap running
  have expired := expire_sleepers_steady (saveCtx s.current trap { s with ticks := s.ticks + 1 })
  unfold onTimer at entered
  simp only at entered
  generalize expireSleepers (saveCtx s.current trap { s with ticks := s.ticks + 1 }) = u
    at entered expired
  split at entered
  case h_1 => simp at entered
  case h_2 next chosen =>
    have switched : Steady u { u with current := next } := globals_steady _ _ rfl rfl rfl rfl rfl
    exact entered_steady _ _ _ (steady_trans _ _ _ ticked (steady_trans _ _ _ saved
      (steady_trans _ _ _ expired switched)))
      (return_to_user_steady env fuel { u with current := next } t
        (schedule_runnable u next chosen) entered)

theorem on_page_fault_entered {resolved : Bool} (running : Running s)
    (entered : onPageFault env fuel trap resolved s = some t) : Entered s t := by
  obtain ⟨saved, serving⟩ := save_ctx_serving s trap running
  have still : Running (saveCtx s.current trap s) := serving.running
  unfold onPageFault at entered
  simp only at entered
  split at entered
  case isTrue =>
    cases entered
    exact entered_steady _ _ _ saved (load_ctx_steady still)
  have sent := ambient_walks.sendSignal s.current sigsegv (saveCtx s.current trap s)
  exact entered_steady _ _ _ (steady_trans _ _ _ saved (ambient_steady _ _ sent))
    (return_to_user_steady env fuel _ t (ambient_running sent still) entered)

/-- Every kernel entry is a sequence of moves and ends with a runnable process. -/
theorem step_entered {e : Entry} (running : Running s) (entered : step s e = some t) :
    Entered s t := by
  cases e with
  | syscall env fuel trap => exact on_syscall_entered running entered
  | timer env fuel trap => exact on_timer_entered running entered
  | pageFault env fuel trap resolved =>
    exact on_page_fault_entered running entered
  | irq irq =>
    cases entered
    have served := handle_irq_ambient s irq
    exact ⟨(ambient_steady _ _ served).moves, served.kin, ambient_running served running⟩
  | arrival irqs =>
    cases entered
    have arrived : Steady s { s with irqs := irqs } := globals_steady _ _ rfl rfl rfl rfl rfl
    exact ⟨arrived.moves, arrived.kin, running⟩

/-- The induction over runs: the current process can always run, and a process
invariant holds as long as every logged event meets its assumption. -/
theorem reachable_good (inv : ProcessInvariant) (reached : Reachable s) :
    Running s ∧ ((∀ e ∈ s.log, inv.assumed e) → inv.Good s) := by
  induction reached with
  | boot ctx =>
    refine ⟨rfl, fun _ => ⟨fun i => ?_, by simp [booted]⟩⟩
    by_cases first : i = 0
    · subst first
      exact inv.fresh _ rfl rfl rfl
    · simp only [booted, Function.update_of_ne first]
      exact inv.fresh _ rfl rfl rfl
  | step s t e before entered ih =>
    obtain ⟨running, earlier⟩ := ih
    have after := step_entered running entered
    refine ⟨after.running, fun assumed => inv.moves_good s t after.moves assumed (earlier ?_)⟩
    exact fun e logged => assumed e ((ProcessInvariant.moves_log after.moves).subset logged)

/-- The induction over runs for a property that the moves of families keep. -/
theorem reachable_kin (holds : Kernel → Prop) (boot : ∀ ctx, holds (booted ctx))
    (move : ∀ s t, KinMove s t → holds s → holds t) (s : Kernel) (reached : Reachable s) :
    Running s ∧ holds s := by
  induction reached with
  | boot ctx => exact ⟨rfl, boot ctx⟩
  | step s t e before entered ih =>
    obtain ⟨running, held⟩ := ih
    have after := step_entered running entered
    refine ⟨after.running, ?_⟩
    have moves := after.kin
    clear entered after
    induction moves with
    | refl => exact held
    | tail _ last ih => exact move _ _ last ih

/-- Make entries one after another. -/
def enterAll (s : Kernel) (entries : List Entry) : Option Kernel := entries.foldlM step s

theorem enter_all_reachable (s : Kernel) (entries : List Entry) (reached : Reachable s)
    (entered : enterAll s entries = some t) : Reachable t := by
  induction entries generalizing s with
  | nil =>
    cases entered
    exact reached
  | cons first rest ih =>
    simp only [enterAll, List.foldlM_cons, Option.bind_eq_bind, Option.bind_eq_some_iff] at entered
    obtain ⟨u, stepped, remaining⟩ := entered
    exact ih u (.step s u first reached stepped) remaining

/-- A run from boot whose last state passes a check reaches such a state. -/
theorem run_reaches (ctx : CpuContext) (entries : List Entry) (check : Kernel → Bool)
    (passed : (enterAll (booted ctx) entries).any check = true) :
    ∃ s, Reachable s ∧ check s = true := by
  cases entered : enterAll (booted ctx) entries with
  | none => simp [entered] at passed
  | some s =>
    rw [entered] at passed
    exact ⟨s, enter_all_reachable _ entries (.boot ctx) entered, passed⟩

/-- The answers of a machine on which every copy succeeds, `sigaction` reads one
handler with its restorer, sleeps last a second, terminal reads find an empty queue,
and other calls put the terminal in raw mode with a timer. -/
def sampleEnv : Env where
  copyout := fun _ _ _ => true
  io := fun _ => .tty ⟨[], 0, false, false, 0⟩
  poll := fun _ => none
  timespec := fun _ => some (1, 0)
  action := fun _ => some (0x4000100, 0, 0x4000200)
  exec := fun _ => .failed 0
  forkRefused := fun _ => false
  other := fun _ => (0, ⟨[], [], 0, false, 0, 1⟩)

/-- A user context right after an `INT` with the given argument registers. -/
def sampleCtx (number argument1 argument2 argument3 : Word) : CpuContext where
  regs := fun r =>
    if r = 0 then number else if r = 1 then argument1 else if r = 2 then argument2
    else if r = 3 then argument3 else 0
  pc := 0x4000005
  sp := 0x8000000
  flags := 0
  mode := 1

/-- The system call with these arguments. -/
def sampleCall (number argument1 argument2 argument3 : Word) : Entry :=
  .syscall sampleEnv 8 (sampleCtx number argument1 argument2 argument3)

end JsEmulator.Process
