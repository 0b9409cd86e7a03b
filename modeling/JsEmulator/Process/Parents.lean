import JsEmulator.Process.Waits

/-!
# Parents

Process numbers are slots of the table and are used again. A process that exits gives its
children to init, so when its slot is free nobody names it as parent: `family_valid` is the
induction over the history. The parent of a process is therefore the one that forked it, or
init after that one exited, and this is who is told of its exit and who can reap it. The
links form a tree.

A free slot keeps its last parent and, after a zombie was reaped with a stop or continue
event left, that event. Once the parent's slot is used again, the new process gets the event
of a child that was never its own.
-/

namespace JsEmulator.Process

variable {earlier : List ProcEvent}

/-- The parent that a process has by its history: the one that forked it last, or init when
that one has exited since. -/
def RightParent (history : List ProcEvent) (child parent : Nat) : Prop :=
  ∃ later forker earlier, history = later ++ .forked forker child :: earlier ∧
    (∀ other, .forked other child ∉ later) ∧
    (parent = forker ∧ .exited forker ∉ later ∨ parent = 0 ∧ .exited forker ∈ later)

/-- Only a fork into the slot or the exit of its parent makes another parent right. -/
theorem right_parent_kept {child parent : Nat} (right : RightParent earlier child parent)
    {e : ProcEvent} (unforked : ∀ other, e ≠ .forked other child) (stays : e ≠ .exited parent) :
    RightParent (e :: earlier) child parent := by
  obtain ⟨later, forker, older, rfl, unique, exited⟩ := right
  refine ⟨e :: later, forker, older, rfl, ?_, ?_⟩
  · intro other member
    rcases List.mem_cons.mp member with same | old
    · exact unforked other same.symm
    · exact unique other old
  · rcases exited with ⟨rfl, lives⟩ | ⟨adopted, gone⟩
    · refine .inl ⟨rfl, fun member => ?_⟩
      rcases List.mem_cons.mp member with same | old
      · exact stays same.symm
      · exact lives old
    · exact .inr ⟨adopted, List.mem_cons_of_mem e gone⟩

/-- When the parent exits, init is right. -/
theorem right_parent_exited {child parent : Nat} (right : RightParent earlier child parent) :
    RightParent (.exited parent :: earlier) child 0 := by
  obtain ⟨later, forker, older, rfl, unique, exited⟩ := right
  refine ⟨.exited parent :: later, forker, older, rfl, ?_, .inr ⟨rfl, ?_⟩⟩
  · intro other member
    rcases List.mem_cons.mp member with same | old
    · simp at same
    · exact unique other old
  · rcases exited with ⟨rfl, -⟩ | ⟨-, gone⟩
    · exact List.mem_cons_self
    · exact List.mem_cons_of_mem _ gone

/-- The parent of a slot after a history is the right one, and it runs or is init. -/
def ValidParent (history : List ProcEvent) (i : Nat) : Prop :=
  ∃ parent, (replay i history).parent = some parent ∧
    ((replay parent history).life = .alive ∨ parent = 0) ∧ RightParent history i parent

/-- An event that neither moves the process to another parent nor ends its parent. -/
theorem valid_parent_kept {i : Nat} (valid : ValidParent earlier i) {e : ProcEvent}
    (same : (replay i (e :: earlier)).parent = (replay i earlier).parent)
    (unforked : ∀ other, e ≠ .forked other i)
    (lives : ∀ parent, (replay i earlier).parent = some parent → (replay parent earlier).life = .alive → (replay parent (e :: earlier)).life = .alive)
    (stays : ∀ parent, (replay i earlier).parent = some parent → e ≠ .exited parent) :
    ValidParent (e :: earlier) i := by
  obtain ⟨parent, own, living, right⟩ := valid
  refine ⟨parent, same.trans own, ?_, right_parent_kept right unforked (stays parent own)⟩
  exact living.imp_left (lives parent own)

/-- Every process but init has a valid parent, after every history. -/
theorem family_valid (history : List ProcEvent) (lawful : Lawful history) (i : Nat) (child : i ≠ 0)
    (used : (replay i history).life ≠ .unused) : ValidParent history i := by
  induction history with
  | nil => simp [replay, firstKin, child] at used
  | cons e earlier ih =>
    obtain ⟨legal, past⟩ := lawful
    -- Stop and continue events and their reports leave lives and parents.
    have quiet (same : ∀ j, (replay j (e :: earlier)).life = (replay j earlier).life ∧
          (replay j (e :: earlier)).parent = (replay j earlier).parent)
        (unforked : ∀ other, e ≠ .forked other i) (stays : ∀ dead, e ≠ .exited dead) :
        ValidParent (e :: earlier) i := by
      rw [(same i).1] at used
      refine valid_parent_kept (ih past used) (same i).2 unforked ?_ (fun parent _ => stays parent)
      intro parent _ alive
      rw [(same parent).1, alive]
    cases e with
    | forked forker slot =>
      have apart : forker ≠ slot := by
        rintro rfl
        exact absurd (legal.1.symm.trans legal.2) (by decide)
      by_cases new : i = slot
      · subst new
        refine ⟨forker, by simp [replay, Kin.after], .inl ?_, [], forker, earlier, rfl, by simp,
          .inl ⟨rfl, by simp⟩⟩
        simpa [replay, Kin.after, Ne.symm apart] using legal.2
      · have same : replay i (.forked forker slot :: earlier) = replay i earlier := by
          simp [replay, Kin.after, Ne.symm new]
        rw [same] at used
        refine valid_parent_kept (ih past used) (by rw [same]) ?_ ?_ (by simp)
        · rintro other equal
          exact new (ProcEvent.forked.inj equal).2.symm
        · intro parent _ alive
          simp only [replay, Kin.after]
          split
          · rfl
          · exact alive
    | exited dead =>
      have before : (replay i earlier).life ≠ .unused := by
        intro unused
        by_cases own : dead = i
        · subst own
          exact absurd (unused.symm.trans legal) (by decide)
        · simp [replay, Kin.after, own, adopt_life, unused] at used
      have valid := ih past before
      obtain ⟨parent, own, living, right⟩ := valid
      have kept : (if dead = i then { replay i earlier with life := .zombie }
          else replay i earlier).parent = some parent := by
        split <;> exact own
      have still : (if dead = i then { replay i earlier with life := .zombie }
          else replay i earlier).life ≠ .unused := by
        split
        · simp
        · exact before
      by_cases orphan : parent = dead
      · -- The children of the process that exits go to init.
        subst orphan
        refine ⟨0, ?_, .inr rfl, right_parent_exited right⟩
        simp only [replay, Kin.after, Kin.adopt]
        rw [if_pos ⟨kept, still⟩]
      · refine ⟨parent, ?_, living.imp_left fun alive => ?_,
          right_parent_kept right (by simp) (by simpa using Ne.symm orphan)⟩
        · simp only [replay, Kin.after, Kin.adopt]
          rw [if_neg (by simp [kept, orphan]), kept]
        · simpa [replay, Kin.after, adopt_life, Ne.symm orphan] using alive
    | reaped parent slot waitEvent =>
      have other : slot ≠ i := by
        rintro rfl
        simp [replay, Kin.after] at used
      have same : replay i (.reaped parent slot waitEvent :: earlier) = replay i earlier := by
        simp [replay, Kin.after, other]
      rw [same] at used
      refine valid_parent_kept (ih past used) (by rw [same]) (by simp) ?_ (by simp)
      intro named _ alive
      have lives : slot ≠ named := by
        rintro rfl
        exact absurd (legal.1.symm.trans alive) (by decide)
      simpa [replay, Kin.after, lives] using alive
    | stopped slot | continued slot | reported parent slot waitEvent =>
      refine quiet (fun j => ?_) (by simp) (by simp)
      simp only [replay, Kin.after]
      split <;> exact ⟨rfl, rfl⟩
    | installed idx signal mask => exact quiet (fun _ => ⟨rfl, rfl⟩) (by simp) (by simp)

/-- A valid parent is in use: init is never freed. -/
theorem valid_parent_used {history : List ProcEvent} (lawful : Lawful history) {i : Nat}
    (valid : ValidParent history i) :
    ∃ parent, (replay i history).parent = some parent ∧
      (replay parent history).life ≠ .unused ∧ RightParent history i parent := by
  obtain ⟨parent, own, living, right⟩ := valid
  refine ⟨parent, own, ?_, right⟩
  rcases living with alive | rfl
  · simp [alive]
  · exact (init_parentless history lawful).2

/-- The parent of a process that is in use is the right one. -/
theorem parent_right {history : List ProcEvent} (lawful : Lawful history) {child parent : Nat}
    (used : (replay child history).life ≠ .unused)
    (own : (replay child history).parent = some parent) : RightParent history child parent := by
  have notInit : child ≠ 0 := by
    rintro rfl
    simp [(init_parentless history lawful).1] at own
  obtain ⟨valid, same, -, right⟩ := family_valid history lawful child notInit used
  obtain rfl : valid = parent := by simpa [own, eq_comm] using same
  exact right

/-- Parent links stay valid: in every run in which no stop or continue event is left in a slot
that is freed,

* the history tells what the families see;
* every process but init has a parent in use, which is the one that forked it or init after
  that one exited;
* no process names a slot as its parent when the slot is forked into;
* a process that exits has such a parent, who is told;
* whoever gets a termination, a stop or a continue event from `waitpid` is that parent, and
  the child is not a free slot. -/
theorem parents_stay_valid (s : Kernel) (reached : Reachable s)
    (consumed : ∀ e ∈ s.history, e.Consumed) :
    (∀ i, (s.procs i).kin = replay i s.history) ∧
    (∀ i, i ≠ 0 → (s.procs i).state ≠ .unused →
      ∃ parent, (s.procs i).parent = some parent ∧ (s.procs parent).state ≠ .unused ∧
        RightParent s.history i parent) ∧
    (∀ later forker slot earlier, s.history = later ++ .forked forker slot :: earlier →
      ∀ i, (replay i earlier).life ≠ .unused → (replay i earlier).parent ≠ some slot) ∧
    (∀ later child earlier, s.history = later ++ .exited child :: earlier → child ≠ 0 →
      ∃ parent, (replay child earlier).parent = some parent ∧
        (replay parent earlier).life ≠ .unused ∧ RightParent earlier child parent) ∧
    (∀ later e earlier parent child waitEvent, s.history = later ++ e :: earlier →
      e = .reaped parent child waitEvent ∨ e = .reported parent child waitEvent →
      (replay child earlier).life ≠ .unused ∧ RightParent earlier child parent) := by
  have recorded := reachable_recorded reached
  refine ⟨recorded.kin, ?_, ?_, ?_, ?_⟩
  · intro i notInit used
    have usedThen : (replay i s.history).life ≠ .unused := by
      rw [← recorded.kin, Ne, Proc.kin, life_unused]
      exact used
    obtain ⟨parent, own, living, right⟩ := valid_parent_used recorded.lawful
      (family_valid s.history recorded.lawful i notInit usedThen)
    rw [← recorded.kin] at own living
    exact ⟨parent, own, fun unused => living ((life_unused _).mpr unused), right⟩
  · intro later forker slot earlier split i used own
    have lawful := recorded.lawful
    rw [split] at lawful
    obtain ⟨⟨free, -⟩, past⟩ := lawful_earlier later lawful
    have notInit : i ≠ 0 := by
      rintro rfl
      simp [(init_parentless earlier past).1] at own
    obtain ⟨parent, same, living, -⟩ := valid_parent_used past
      (family_valid earlier past i notInit used)
    obtain rfl : parent = slot := by simpa [own, eq_comm] using same
    exact living free
  · intro later child earlier split notInit
    have lawful := recorded.lawful
    rw [split] at lawful
    obtain ⟨alive, past⟩ := lawful_earlier later lawful
    refine valid_parent_used past (family_valid earlier past child notInit ?_)
    rw [show (replay child earlier).life = .alive from alive]
    decide
  · rintro later e earlier parent child waitEvent split returned
    have lawful := recorded.lawful
    rw [split] at lawful consumed
    obtain ⟨legal, past⟩ := lawful_earlier later lawful
    rcases returned with rfl | rfl
    · have used : (replay child earlier).life ≠ .unused := by simp [legal.1]
      exact ⟨used, parent_right past used legal.2.1⟩
    -- The event is pending, so the slot is not free.
    obtain ⟨own, same, pending⟩ := legal
    have used : (replay child earlier).life ≠ .unused := by
      intro unused
      have none := unused_event earlier past
        (fun e member => consumed e (List.mem_append_right _ (List.mem_cons_of_mem _ member))) unused
      rw [← same, none] at pending
      simp [wuntraced, wcontinued] at pending
    exact ⟨used, parent_right past used own⟩

/-- The general statement at an orphan: its parent exits, and init is its parent. -/
theorem parents_stay_valid_orphan :
    ∃ s, Reachable s ∧ (s.procs 2).state ≠ .unused ∧ (s.procs 2).parent = some 0 ∧
      RightParent s.history 2 0 := by
  obtain ⟨s, reached, checked⟩ := run_reaches (sampleCtx 0 0 0 0)
    [sampleCall sysFork 0 0 0, sampleCall sysYield 0 0 0, sampleCall sysFork 0 0 0,
      sampleCall sysExit 0 0 0]
    (fun s => decide (s.history = [.exited 1, .forked 1 2, .forked 0 1] ∧
      (s.procs 2).state ≠ .unused ∧ (s.procs 2).parent = some 0))
    (by decide +kernel)
  obtain ⟨told, used, own⟩ := of_decide_eq_true checked
  have consumed : ∀ e ∈ s.history, e.Consumed := by
    rw [told]
    decide
  obtain ⟨parent, same, -, right⟩ := (parents_stay_valid s reached consumed).2.1 2 (by decide) used
  obtain rfl : 0 = parent := by simpa [own] using same
  exact ⟨s, reached, used, own, right⟩

/-- Process 1 reaps its child 2 while the stop of the child is still pending, and exits. The
next process in slot 1, which forks nothing, asks for stopped children and gets 2. -/
theorem stale_stop_misdelivered :
    ∃ s earlier, Reachable s ∧
      s.history = .reported 1 2 wuntraced :: .forked 0 1 :: .reaped 0 1 0 :: .exited 1 :: earlier ∧
      (s.procs 1).ctx.regs 0 = 2 ∧ (s.procs 2).state = .unused := by
  obtain ⟨s, reached, checked⟩ := run_reaches (sampleCtx 0 0 0 0)
    [sampleCall sysFork 0 0 0, sampleCall sysYield 0 0 0, sampleCall sysFork 0 0 0,
      sampleCall sysKill 2 19 0, sampleCall sysYield 0 0 0, sampleCall sysYield 0 0 0,
      sampleCall sysKill 2 9 0, sampleCall sysYield 0 0 0, sampleCall sysYield 0 0 0,
      sampleCall sysWaitpid 2 0 0, sampleCall sysExit 0 0 0, sampleCall sysWaitpid 1 0 0,
      sampleCall sysFork 0 0 0, sampleCall sysYield 0 0 0, sampleCall sysWaitpid (-1) 0 2]
    (fun s => decide (s.history = [.reported 1 2 2, .forked 0 1, .reaped 0 1 0, .exited 1,
        .reaped 1 2 2, .exited 2, .stopped 2, .forked 1 2, .forked 0 1] ∧
      (s.procs 1).ctx.regs 0 = 2 ∧ (s.procs 2).state = .unused))
    (by decide +kernel)
  obtain ⟨told, result, unused⟩ := of_decide_eq_true checked
  exact ⟨s, _, reached, told, result, unused⟩

/-! ## The tree -/

/-- After every history there is an order in which every parent but init comes before its
children: that of their forks. -/
theorem parents_first (history : List ProcEvent) (lawful : Lawful history) :
    ∃ born : Nat → Nat, ∀ i parent, (replay i history).life ≠ .unused →
      (replay i history).parent = some parent → parent = 0 ∨ born parent < born i := by
  induction history with
  | nil => exact ⟨id, by grind [replay, firstKin]⟩
  | cons e earlier ih =>
    obtain ⟨born, first⟩ := ih lawful.2
    have legal := lawful.1
    cases e with
    | forked forker slot =>
      refine ⟨Function.update born slot (born forker + 1), fun i parent => ?_⟩
      -- No process names the free slot as its parent.
      have valid := family_valid earlier lawful.2 i
      have init := init_parentless earlier lawful.2
      by_cases new : i = slot <;>
        grind [replay, Kin.after, ValidParent, ProcEvent.Legal, Function.update_apply]
    | _ => exact ⟨born, by grind [replay, Kin.after, Kin.adopt, ProcEvent.Legal]⟩

end JsEmulator.Process
