import JsEmulator.Process.Waits

/-!
# The status of a child that has ended

`do_waitpid` takes the status of a zombie from `wait_signal`, and from the exit code
when that field is zero. A fatal signal sets the field, but so does every stop and
every continue, and nothing clears it before the next fork into the slot. A child
that has been stopped or continued and then calls `exit` is therefore reported as
killed by the last of these signals. A child that the kernel ends because it cannot
build the frame of a handler gets an exit code and no `wait_signal`. In every other
case the status says how the child ended.
-/

namespace JsEmulator.Process

variable {s : Kernel}

/-- The status that says how a process ended. -/
def Ending.status : Ending → Word
  | .exited code => code <<< 8
  | .killed signal => BitVec.ofNat 32 signal
  | .unframed => BitVec.ofNat 32 sigsegv

/-- The endings that `wait_signal` and the exit code tell. -/
def Ending.Told (paused : Bool) : Ending → Prop
  | .exited _ => paused = false
  | .killed _ => True
  | .unframed => False

/-- What stops and continues leave in `wait_signal`. -/
def LeftSignal (paused : Bool) (waitSignal : Word) : Prop :=
  if paused then ∃ signal, (defaultStops signal = true ∨ signal = sigcont) ∧
    waitSignal = BitVec.ofNat 32 signal
  else waitSignal = 0

/-- How the fields of a zombie follow from its ending. -/
def Fate.Ended (f : Fate) : Option Ending → Prop
  | none => False
  | some (.exited code) => f.exitCode = code ∧ LeftSignal f.paused f.waitSignal
  | some (.killed signal) => f.waitSignal = BitVec.ofNat 32 signal ∧ 0 < signal ∧ signal < nsig
  | some .unframed =>
      f.exitCode = BitVec.ofNat 32 (128 + sigsegv) ∧ LeftSignal f.paused f.waitSignal

/-- The fields agree with the history of the process. -/
def Fate.Sound (f : Fate) : Prop :=
  match f.life with
  | .unused => True
  | .alive => LeftSignal f.paused f.waitSignal
  | .zombie => f.Ended f.ending

/-- One change keeps the agreement. -/
theorem fate_change_sound {f g : Fate} (change : FateChange f g) (sound : f.Sound) : g.Sound := by
  cases change with
  | same => exact sound
  | stopped signal alive stops =>
    simp only [Fate.Sound, alive]
    exact ⟨signal, .inl stops, rfl⟩
  | continued alive =>
    simp only [Fate.Sound, alive]
    exact ⟨sigcont, .inr rfl, rfl⟩
  | marked code alive =>
    simp only [Fate.Sound, alive] at sound ⊢
    exact sound
  | exited alive ending =>
    simp only [Fate.Sound, alive, ending] at sound ⊢
    exact ⟨rfl, sound⟩
  | killed signal dead positive small =>
    simp only [Fate.Sound, dead]
    exact ⟨rfl, positive, small⟩
  | unframed dead ending code =>
    simp only [Fate.Sound, dead, ending] at sound ⊢
    exact ⟨code, sound.2⟩
  | reaped dead => trivial

/-- The stop and continue signals are those from 18 to 22: none is zero, and none is an
exit code shifted by eight. -/
theorem left_signal_bit {signal : Nat} (left : defaultStops signal = true ∨ signal = sigcont) :
    (BitVec.ofNat 32 signal).getLsbD 4 = true := by
  simp only [defaultStops, sigstop, sigtstp, sigttin, sigttou, sigcont, Bool.or_eq_true,
    beq_iff_eq] at left
  rcases left with (((rfl | rfl) | rfl) | rfl) | rfl <;> decide

/-- The status of a zombie says how it ended, in exactly the endings told. -/
theorem exit_status_told {p : Proc} (dead : p.state = .zombie) (sound : p.fate.Sound) :
    ∃ ending, p.ending = some ending ∧ (exitStatus p = ending.status ↔ ending.Told p.paused) := by
  have ended : p.fate.Ended p.ending := by
    simpa only [Fate.Sound, Proc.fate, dead, RunState.life] using sound
  have paused (is : p.paused = true) (left : LeftSignal p.paused p.waitSignal) :
      exitStatus p = p.waitSignal ∧ p.waitSignal.getLsbD 4 = true := by
    simp only [LeftSignal, is, if_true] at left
    obtain ⟨signal, kind, set⟩ := left
    have bit := left_signal_bit kind
    rw [← set] at bit
    have nonzero : p.waitSignal ≠ 0 := by
      intro zero
      simp [zero] at bit
    exact ⟨if_pos nonzero, bit⟩
  have unpaused (is : p.paused = false) (left : LeftSignal p.paused p.waitSignal) :
      exitStatus p = p.exitCode <<< 8 := by
    simp only [LeftSignal, is, Bool.false_eq_true, if_false] at left
    simp [exitStatus, left]
  rcases kind : p.ending with - | ending <;> rw [kind] at ended
  · exact ended.elim
  cases ending with
  | exited code =>
    obtain ⟨rfl, left⟩ := ended
    refine ⟨_, rfl, ?_⟩
    cases is : p.paused with
    | false => exact iff_of_true (unpaused is left) rfl
    | true =>
      obtain ⟨value, bit⟩ := paused is left
      refine iff_of_false ?_ (by simp [Ending.Told])
      intro same
      rw [← value, same] at bit
      simp [Ending.status] at bit
  | killed signal =>
    obtain ⟨set, positive, small⟩ := ended
    change p.waitSignal = BitVec.ofNat 32 signal at set
    refine ⟨_, rfl, iff_of_true ?_ trivial⟩
    have nonzero : p.waitSignal ≠ 0 := by
      rw [set]
      intro zero
      have value := congrArg BitVec.toNat zero
      simp only [nsig] at small
      rw [BitVec.toNat_ofNat] at value
      simp only [BitVec.ofNat_eq_ofNat, BitVec.toNat_ofNat] at value
      omega
    exact (if_pos nonzero).trans set
  | unframed =>
    obtain ⟨code, left⟩ := ended
    change p.exitCode = BitVec.ofNat 32 (128 + sigsegv) at code
    refine ⟨_, rfl, iff_of_false ?_ id⟩
    cases is : p.paused with
    | false =>
      rw [unpaused is left, code]
      decide
    | true =>
      obtain ⟨value, bit⟩ := paused is left
      intro same
      rw [← value, same] at bit
      revert bit
      decide

/-- A status stored for a parent says how the child ended, in exactly the endings told. -/
def WaitStatus.Right : WaitStatus → Prop
  | .ended _ ending paused value =>
      ∃ kind, ending = some kind ∧ (value = kind.status ↔ kind.Told paused)
  | .event _ _ _ => True

/-- Every process agrees with its history, and so does every status stored. -/
structure Reported (s : Kernel) : Prop where
  fates : ∀ i, (s.procs i).fate.Sound
  statuses : ∀ status ∈ s.statuses, status.Right

/-- A move that changes one slot. -/
theorem reported_slot {t : Kernel} {idx : Nat} (own : (t.procs idx).fate.Sound)
    (others : ∀ i, i ≠ idx → t.procs i = s.procs i) (statuses : t.statuses = s.statuses)
    (before : Reported s) : Reported t := by
  refine ⟨fun i => ?_, statuses ▸ before.statuses⟩
  by_cases same : i = idx
  · rw [same]
    exact own
  · rw [others i same]
    exact before.fates i

theorem reported_move (s t : Kernel) (move : KinMove s t) (before : Reported s) : Reported t := by
  cases move with
  | calm procs history nproc statuses =>
    exact ⟨fun i => (procs i).fate ▸ before.fates i, statuses ▸ before.statuses⟩
  | fated idx change kin masks others history nproc statuses =>
    exact reported_slot (fate_change_sound change (before.fates idx)) others statuses before
  | told status sound procs history nproc statuses =>
    refine ⟨procs ▸ before.fates, ?_⟩
    intro other member
    rw [statuses] at member
    rcases List.mem_cons.mp member with rfl | old
    · cases other with
      | event child waitEvent value => trivial
      | ended child ending paused value =>
        obtain ⟨dead, rfl, rfl, rfl⟩ := sound
        exact exit_status_told dead (before.fates child)
    · exact before.statuses other old
  | event e unforked legal kin masks fates history nproc statuses =>
    exact ⟨fun i => fate_change_sound (fates i) (before.fates i), statuses ▸ before.statuses⟩
  | forked parent child free living kin masks fate others history statuses =>
    refine reported_slot ?_ others statuses before
    rw [fate]
    rfl
  | masked idx change kin fate others history nproc statuses
  | installed idx signal mask masks kin fate others history nproc statuses =>
    exact reported_slot (fate ▸ before.fates idx) others statuses before

theorem reachable_reported (reached : Reachable s) : Reported s := by
  refine (reachable_kin Reported ?_ reported_move s reached).2
  intro ctx
  refine ⟨fun i => ?_, by simp [booted]⟩
  by_cases first : i = 0
  · subst first
    rfl
  · simp [booted, first, emptyProc, Proc.fate, RunState.life, Fate.Sound]

/-- The status of a child: in every run, for every stop and continue before its end,

* a status that `waitpid` has stored for a child that ended says how it ended if and
  only if the child was killed by a signal with its default action, or called `exit`
  without having been stopped or continued since its fork;
* the same holds of the status that a zombie would give now;
* and a parent that asks for a zombie with a good address has that status stored. -/
theorem wait_status_tells_ending (s : Kernel) (reached : Reachable s) :
    (∀ child ending paused value, .ended child ending paused value ∈ s.statuses →
      ∃ kind, ending = some kind ∧ (value = kind.status ↔ kind.Told paused)) ∧
    (∀ child, (s.procs child).state = .zombie →
      ∃ kind, (s.procs child).ending = some kind ∧
        (exitStatus (s.procs child) = kind.status ↔ kind.Told (s.procs child).paused)) ∧
    (∀ env fuel parent child call status options, (s.procs child).state = .zombie →
      (s.procs child).parent = some parent → status ≠ 0 → env.copyout s parent status = true →
      ∃ t, doWaitpid env fuel parent call (BitVec.ofNat 32 child) status options s =
          some (0, true, t) ∧
        t.statuses = .ended child (s.procs child).ending (s.procs child).paused
          (exitStatus (s.procs child)) :: s.statuses) := by
  have reported := reachable_reported reached
  refine ⟨fun child ending paused value stored => reported.statuses _ stored,
    fun child dead => exit_status_told dead (reported.fates child), ?_⟩
  intro env fuel parent child call status options dead own address copied
  have recorded := reachable_recorded reached
  have found := wait_scan_reaps options (List.range s.nproc)
    (List.mem_range.mpr (recorded.zombie_listed child dead)) (recorded.child_positive child parent own)
    ((recorded.zombie_listed child dead).trans_le recorded.slots) dead own (.inr copied)
  exact ⟨_, by rw [doWaitpid, found], if_pos address⟩

/-- A child calls `exit(3)` and its parent gets `3 << 8`. -/
theorem wait_status_tells_ending_exit :
    ∃ s child, Reachable s ∧
      .ended child (some (.exited 3)) false ((3 : Word) <<< 8) ∈ s.statuses ∧
      ((3 : Word) <<< 8 = (Ending.exited 3).status ↔ (Ending.exited 3).Told false) := by
  obtain ⟨s, reached, checked⟩ := run_reaches (sampleCtx 0 0 0 0)
    [sampleCall sysFork 0 0 0, sampleCall sysYield 0 0 0, sampleCall sysExit 3 0 0,
      sampleCall sysWaitpid 1 0x4001000 0]
    (fun s => decide (s.statuses = [.ended 1 (some (.exited 3)) false 768]))
    (by decide +kernel)
  have told := of_decide_eq_true checked
  have stored : .ended 1 (some (.exited 3)) false ((3 : Word) <<< 8) ∈ s.statuses := by
    rw [told]
    decide
  obtain ⟨kind, same, right⟩ := (wait_status_tells_ending s reached).1 _ _ _ _ stored
  cases same
  exact ⟨s, 1, reached, stored, right⟩

/-- A child is stopped and continued and calls `exit(0)`: its parent gets `SIGCONT`, the
status of a child that was killed by that signal. -/
theorem continued_child_reported_killed :
    ∃ s, Reachable s ∧
      s.statuses = [.ended 1 (some (.exited 0)) true (BitVec.ofNat 32 sigcont)] ∧
      BitVec.ofNat 32 sigcont ≠ (Ending.exited 0).status := by
  obtain ⟨s, reached, checked⟩ := run_reaches (sampleCtx 0 0 0 0)
    [sampleCall sysFork 0 0 0, sampleCall sysKill 1 19 0, sampleCall sysYield 0 0 0,
      sampleCall sysKill 1 18 0, sampleCall sysYield 0 0 0, sampleCall sysExit 0 0 0,
      sampleCall sysWaitpid 1 0x4001000 0]
    (fun s => decide (s.statuses = [.ended 1 (some (.exited 0)) true (BitVec.ofNat 32 sigcont)]))
    (by decide +kernel)
  exact ⟨s, reached, of_decide_eq_true checked, by decide⟩

end JsEmulator.Process
