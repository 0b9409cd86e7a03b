import JsEmulator.Process.Syscalls
import Mathlib.Logic.Relation

/-!
# Parents, children and signal masks

What a kernel entry can do to the part of a process that its family sees (whether
its slot is free, its parent and its pending stop or continue event) and to its
signal masks. `KinMove` lists it: a family event, a fork, a change of one process's
masks, or nothing. The history records every family event and every mask that
`sigaction` installs, so a property of runs can be read off the history.
-/

namespace JsEmulator.Process

open Relation

variable {p q : Proc} {s : Kernel} {f : Proc → Proc} {idx : Nat}

/-- A slot is free, holds a process, or holds one that is to be reaped. -/
inductive Life where
  | unused
  | alive
  | zombie
deriving DecidableEq, Repr

def RunState.life : RunState → Life
  | .unused => .unused
  | .zombie => .zombie
  | .runnable => .alive
  | .sleeping => .alive
  | .stopped => .alive

@[simp] theorem life_unused (state : RunState) : state.life = .unused ↔ state = .unused := by
  cases state <;> simp [RunState.life]

@[simp] theorem life_zombie (state : RunState) : state.life = .zombie ↔ state = .zombie := by
  cases state <;> simp [RunState.life]

/-- What the family of a process sees of it. -/
structure Kin where
  life : Life
  parent : Option Nat
  waitEvent : Word
deriving DecidableEq, Repr

def Proc.kin (p : Proc) : Kin := ⟨p.state.life, p.parent, p.waitEvent⟩

/-- The signal masks of a process: the one in force, those of its actions, and the
one that `sigreturn` puts back. -/
@[ext]
structure SignalMasks where
  blocked : Word
  actions : Nat → Word
  saved : Word

def Proc.masks (p : Proc) : SignalMasks := ⟨p.blockedSignals, p.signalMasks, p.signalSavedMask⟩

/-- What decides the status of a process that ends, with what its history says of it. -/
@[ext]
structure Fate where
  life : Life
  paused : Bool
  waitSignal : Word
  exitCode : Word
  ending : Option Ending

def Proc.fate (p : Proc) : Fate := ⟨p.state.life, p.paused, p.waitSignal, p.exitCode, p.ending⟩

/-- What can happen to the fate of one process, apart from a fork into its slot. -/
inductive FateChange (f : Fate) : Fate → Prop where
  | same : FateChange f f
  | stopped (signal : Nat) (alive : f.life = .alive) (stops : defaultStops signal = true) :
      FateChange f { f with paused := true, waitSignal := BitVec.ofNat 32 signal }
  | continued (alive : f.life = .alive) :
      FateChange f { f with paused := true, waitSignal := BitVec.ofNat 32 sigcont }
  | marked (code : Word) (alive : f.life = .alive) :
      FateChange f { f with exitCode := code, ending := some (.exited code) }
  | exited (alive : f.life = .alive) (ending : f.ending = some (.exited f.exitCode)) :
      FateChange f { f with life := .zombie }
  | killed (signal : Nat) (dead : f.life = .zombie) (positive : 0 < signal) (small : signal < nsig) :
      FateChange f { f with waitSignal := BitVec.ofNat 32 signal, ending := some (.killed signal) }
  | unframed (dead : f.life = .zombie) (ending : f.ending = some (.exited f.exitCode))
      (code : f.exitCode = BitVec.ofNat 32 (128 + sigsegv)) :
      FateChange f { f with ending := some .unframed }
  | reaped (dead : f.life = .zombie) : FateChange f { f with life := .unused }

/-- A change that neither the family nor signal delivery notices. -/
structure Calm (p q : Proc) : Prop where
  life : q.state.life = p.state.life
  parent : q.parent = p.parent
  waitEvent : q.waitEvent = p.waitEvent
  blockedSignals : q.blockedSignals = p.blockedSignals
  signalMasks : q.signalMasks = p.signalMasks
  signalSavedMask : q.signalSavedMask = p.signalSavedMask
  paused : q.paused = p.paused
  waitSignal : q.waitSignal = p.waitSignal
  exitCode : q.exitCode = p.exitCode
  ending : q.ending = p.ending

theorem Calm.fate (calm : Calm p q) : q.fate = p.fate := by
  simp [Proc.fate, calm.life, calm.paused, calm.waitSignal, calm.exitCode, calm.ending]

theorem Calm.kin (calm : Calm p q) : q.kin = p.kin := by
  simp [Proc.kin, calm.life, calm.parent, calm.waitEvent]

theorem Calm.masks (calm : Calm p q) : q.masks = p.masks := by
  simp [Proc.masks, calm.blockedSignals, calm.signalMasks, calm.signalSavedMask]

/-- A child whose parent dies goes to slot 0. -/
def Kin.adopt (k : Kin) (dead : Nat) : Kin :=
  if k.parent = some dead ∧ k.life ≠ .unused then { k with parent := some 0 } else k

/-- What an event makes of the process in slot `i`. -/
def Kin.after (i : Nat) (k : Kin) : ProcEvent → Kin
  | .forked parent child => if child = i then ⟨.alive, some parent, 0⟩ else k
  | .exited child => (if child = i then { k with life := .zombie } else k).adopt child
  | .stopped child => if child = i then { k with waitEvent := wuntraced } else k
  | .continued child => if child = i then { k with waitEvent := wcontinued } else k
  | .reaped _ child _ => if child = i then { k with life := .unused } else k
  | .reported _ child _ => if child = i then { k with waitEvent := 0 } else k
  | .installed _ _ _ => k

/-- When an event can happen. A fork is made by a process that runs. A report of a stop or continue event asks for the
parent and the pending event only. -/
def ProcEvent.Legal (kins : Nat → Kin) : ProcEvent → Prop
  | .forked parent child => (kins child).life = .unused ∧ (kins parent).life = .alive
  | .exited child => (kins child).life = .alive
  | .stopped child => (kins child).life = .alive
  | .continued child => (kins child).life = .alive
  | .reaped parent child waitEvent =>
      (kins child).life = .zombie ∧ (kins child).parent = some parent ∧
        (kins child).waitEvent = waitEvent
  | .reported parent child waitEvent =>
      (kins child).parent = some parent ∧ (kins child).waitEvent = waitEvent ∧
        (waitEvent = wuntraced ∨ waitEvent = wcontinued)
  | .installed _ _ _ => True

/-- `sys_sigprocmask` takes the two signals that cannot be blocked out of the mask it
is given. -/
def blockable (mask : Word) : Word := mask &&& ~~~(signalBit sigkill) &&& ~~~(signalBit sigstop)

/-- What can happen to the masks of one process, apart from `sigaction`. -/
inductive MaskChange (m : SignalMasks) : SignalMasks → Prop where
  | framed (signal : Nat) (catchable : signalCannotCatch signal = false) :
      MaskChange m ⟨m.blocked ||| m.actions signal ||| signalBit signal, m.actions, m.blocked⟩
  | restored : MaskChange m ⟨m.saved, m.actions, m.saved⟩
  | raised (mask : Word) : MaskChange m ⟨m.blocked ||| blockable mask, m.actions, m.saved⟩
  | lowered (mask : Word) : MaskChange m ⟨m.blocked &&& ~~~(blockable mask), m.actions, m.saved⟩
  | replaced (mask : Word) : MaskChange m ⟨blockable mask, m.actions, m.saved⟩
  | executed (actions : Nat → Word) (each : ∀ n, actions n = 0 ∨ actions n = m.actions n) :
      MaskChange m ⟨m.blocked, actions, m.saved⟩

/-- The slots that `nproc` does not count have never been used. -/
def InTable (s : Kernel) : Prop := ∀ i, s.nproc ≤ i → (s.procs i).state = .unused

/-- The status of a zombie is the one `exitStatus` gives. -/
def WaitStatus.Told (s : Kernel) : WaitStatus → Prop
  | .ended child ending paused value =>
      (s.procs child).state = .zombie ∧ ending = (s.procs child).ending ∧
        paused = (s.procs child).paused ∧ value = exitStatus (s.procs child)
  | .event _ _ _ => True

/-- One move, as the family and signal delivery see it. An event reaches the whole
table, and nobody outside it. -/
inductive KinMove (s t : Kernel) : Prop where
  | calm (procs : ∀ i, Calm (s.procs i) (t.procs i)) (history : t.history = s.history)
      (nproc : t.nproc = s.nproc) (statuses : t.statuses = s.statuses)
  | fated (idx : Nat) (change : FateChange (s.procs idx).fate (t.procs idx).fate)
      (kin : (t.procs idx).kin = (s.procs idx).kin) (masks : (t.procs idx).masks = (s.procs idx).masks)
      (others : ∀ i, i ≠ idx → t.procs i = s.procs i)
      (history : t.history = s.history) (nproc : t.nproc = s.nproc)
      (statuses : t.statuses = s.statuses)
  | told (status : WaitStatus) (sound : status.Told s) (procs : t.procs = s.procs)
      (history : t.history = s.history) (nproc : t.nproc = s.nproc)
      (statuses : t.statuses = status :: s.statuses)
  | event (e : ProcEvent) (unforked : ∀ parent child, e ≠ .forked parent child)
      (legal : e.Legal (fun i => (s.procs i).kin))
      (kin : InTable s → ∀ i, (t.procs i).kin = (s.procs i).kin.after i e)
      (masks : ∀ i, (t.procs i).masks = (s.procs i).masks)
      (fates : ∀ i, FateChange (s.procs i).fate (t.procs i).fate)
      (history : t.history = e :: s.history) (nproc : t.nproc = s.nproc)
      (statuses : t.statuses = s.statuses)
  | forked (parent child : Nat)
      (free : (s.procs child).state = .unused ∧ child < s.nproc ∧ t.nproc = s.nproc ∨
        child = s.nproc ∧ s.nproc < maxProc ∧ t.nproc = s.nproc + 1)
      (living : (s.procs parent).kin.life = .alive)
      (kin : (t.procs child).kin = ⟨.alive, some parent, 0⟩)
      (masks : (t.procs child).masks = ⟨(s.procs parent).blockedSignals,
        (s.procs parent).signalMasks, (s.procs child).signalSavedMask⟩)
      (fate : (t.procs child).fate = ⟨.alive, false, 0, (s.procs child).exitCode, none⟩)
      (others : ∀ i, i ≠ child → t.procs i = s.procs i)
      (history : t.history = .forked parent child :: s.history)
      (statuses : t.statuses = s.statuses)
  | masked (idx : Nat) (change : MaskChange (s.procs idx).masks (t.procs idx).masks)
      (kin : (t.procs idx).kin = (s.procs idx).kin)
      (fate : (t.procs idx).fate = (s.procs idx).fate)
      (others : ∀ i, i ≠ idx → t.procs i = s.procs i)
      (history : t.history = s.history) (nproc : t.nproc = s.nproc)
      (statuses : t.statuses = s.statuses)
  | installed (idx signal : Nat) (mask : Word)
      (masks : (t.procs idx).masks = ⟨(s.procs idx).blockedSignals,
        Function.update (s.procs idx).signalMasks signal mask, (s.procs idx).signalSavedMask⟩)
      (kin : (t.procs idx).kin = (s.procs idx).kin)
      (fate : (t.procs idx).fate = (s.procs idx).fate)
      (others : ∀ i, i ≠ idx → t.procs i = s.procs i)
      (history : t.history = .installed idx signal mask :: s.history) (nproc : t.nproc = s.nproc)
      (statuses : t.statuses = s.statuses)

/-- A sequence of such moves. -/
def Kindred : Kernel → Kernel → Prop := ReflTransGen KinMove

theorem kindred_refl (s : Kernel) : Kindred s s := .refl

theorem kindred_trans (s t u : Kernel) (first : Kindred s t) (second : Kindred t u) :
    Kindred s u := ReflTransGen.trans first second

theorem calm_refl (p : Proc) : Calm p p := by
  constructor <;> rfl

theorem calm_trans {r : Proc} (first : Calm p q) (second : Calm q r) : Calm p r where
  life := second.life.trans first.life
  parent := second.parent.trans first.parent
  waitEvent := second.waitEvent.trans first.waitEvent
  blockedSignals := second.blockedSignals.trans first.blockedSignals
  signalMasks := second.signalMasks.trans first.signalMasks
  signalSavedMask := second.signalSavedMask.trans first.signalSavedMask
  paused := second.paused.trans first.paused
  waitSignal := second.waitSignal.trans first.waitSignal
  exitCode := second.exitCode.trans first.exitCode
  ending := second.ending.trans first.ending

/-- A change of other globals. -/
theorem same_procs_kindred (s t : Kernel) (procs : t.procs = s.procs)
    (history : t.history = s.history) (nproc : t.nproc = s.nproc)
    (statuses : t.statuses = s.statuses) : Kindred s t :=
  .single (.calm (fun _ => procs ▸ calm_refl _) history nproc statuses)

/-- Fields of one slot that neither side reads. -/
theorem set_proc_kindred (s : Kernel) (idx : Nat) (f : Proc → Proc)
    (calm : Calm (s.procs idx) (f (s.procs idx))) : Kindred s (s.setProc idx f) := by
  refine .single (.calm ?_ rfl rfl rfl)
  intro i
  rw [set_proc_procs]
  split
  case isTrue same =>
    subst same
    exact calm
  case isFalse => exact calm_refl _

section

variable {e : ProcEvent} (unforked : ∀ parent child, e ≠ .forked parent child)
  (legal : e.Legal (fun i => (s.procs i).kin))
  (own : (f (s.procs idx)).kin = (s.procs idx).kin.after idx e)
  (others : ∀ i, i ≠ idx → (s.procs i).kin.after i e = (s.procs i).kin)
  (masks : (f (s.procs idx)).masks = (s.procs idx).masks)
  (fate : FateChange (s.procs idx).fate (f (s.procs idx)).fate)
include unforked legal own others masks fate

/-- An event of one slot, followed by changes that nobody notices. -/
theorem set_proc_event {t : Kernel}
    (calm : ∀ i, Calm ((s.setProc idx f).procs i) (t.procs i))
    (history : t.history = e :: s.history) (nproc : t.nproc = s.nproc)
    (statuses : t.statuses = s.statuses) : Kindred s t := by
  have changed (i : Nat) : ((s.setProc idx f).procs i).kin = (s.procs i).kin.after i e ∧
      ((s.setProc idx f).procs i).masks = (s.procs i).masks ∧
      FateChange (s.procs i).fate ((s.setProc idx f).procs i).fate := by
    by_cases same : i = idx
    · subst same
      rw [set_proc_same]
      exact ⟨own, masks, fate⟩
    · rw [set_proc_other s idx i f same, others i same]
      exact ⟨rfl, rfl, .same⟩
  refine .single (.event e unforked legal ?_ ?_ ?_ history nproc statuses)
  · intro _ i
    exact (calm i).kin.trans (changed i).1
  · intro i
    exact (calm i).masks.trans (changed i).2.1
  · intro i
    rw [(calm i).fate]
    exact (changed i).2.2

/-- The same with nothing following. -/
theorem event_kindred : Kindred s ((s.setProc idx f).note e) :=
  set_proc_event unforked legal own others masks fate (fun _ => calm_refl _) rfl rfl rfl

end

/-- A new fate in one slot. -/
theorem set_fate_kindred (change : FateChange (s.procs idx).fate (f (s.procs idx)).fate)
    (kin : (f (s.procs idx)).kin = (s.procs idx).kin)
    (masks : (f (s.procs idx)).masks = (s.procs idx).masks) : Kindred s (s.setProc idx f) := by
  refine .single (.fated idx ?_ ?_ ?_ (fun i => set_proc_other s idx i f) rfl rfl rfl)
  all_goals rwa [set_proc_same]

/-- A status is stored, or there is no address for it. -/
theorem store_status_kindred (address : Word) {status : WaitStatus} (sound : status.Told s) :
    Kindred s (storeStatus address status s) := by
  by_cases stored : address ≠ 0
  · exact .single (.told status sound rfl rfl rfl (if_pos stored))
  · exact same_procs_kindred _ _ rfl rfl rfl (if_neg stored)

/-- A new mask in one slot. -/
theorem set_masks_kindred (s : Kernel) (idx : Nat) (f : Proc → Proc)
    (change : MaskChange (s.procs idx).masks (f (s.procs idx)).masks)
    (kin : (f (s.procs idx)).kin = (s.procs idx).kin)
    (fate : (f (s.procs idx)).fate = (s.procs idx).fate) : Kindred s (s.setProc idx f) := by
  refine .single (.masked idx ?_ ?_ ?_ (fun i => set_proc_other s idx i f) rfl rfl rfl)
  all_goals rwa [set_proc_same]

end JsEmulator.Process
