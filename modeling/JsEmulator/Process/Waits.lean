import JsEmulator.Process.Runs

/-!
# Waiting for children

The history of a run determines what every family sees: `replay` reads it back, and
each event was possible when it happened (`Lawful`). A termination is therefore
returned by one `waitpid`, to the parent of that moment.

`do_waitpid` frees the slot of a zombie without clearing its `wait_event`, and its
other two tests do not look at the state of the slot. A process that is stopped,
killed and reaped is returned once more, as stopped, to a parent that then asks for
stopped children. In every run in which no zombie is reaped with such an event left,
nothing is returned for a free slot and each event once.
-/

namespace JsEmulator.Process

/-- The table at boot: init in slot 0 and free slots after it. -/
def firstKin (i : Nat) : Kin := if i = 0 then ⟨.alive, none, 0⟩ else ⟨.unused, some 0, 0⟩

/-- What the family sees of slot `i` after a history (latest event first). -/
def replay (i : Nat) : List ProcEvent → Kin
  | [] => firstKin i
  | e :: earlier => (replay i earlier).after i e

/-- Every event was possible when it happened. -/
def Lawful : List ProcEvent → Prop
  | [] => True
  | e :: earlier => e.Legal (fun i => replay i earlier) ∧ Lawful earlier

/-- The history tells the table. -/
structure Recorded (s : Kernel) : Prop where
  kin : ∀ i, (s.procs i).kin = replay i s.history
  lawful : Lawful s.history
  table : InTable s
  slots : s.nproc ≤ maxProc

/-- The process whose life or pending event an event changes. -/
def ProcEvent.child : ProcEvent → Option Nat
  | .forked _ child => some child
  | .exited child => some child
  | .stopped child => some child
  | .continued child => some child
  | .reaped _ child _ => some child
  | .reported _ child _ => some child
  | .installed _ _ _ => none

theorem adopt_life (k : Kin) (dead : Nat) : (k.adopt dead).life = k.life := by
  unfold Kin.adopt
  split <;> rfl

theorem adopt_wait_event (k : Kin) (dead : Nat) : (k.adopt dead).waitEvent = k.waitEvent := by
  unfold Kin.adopt
  split <;> rfl

variable {earlier : List ProcEvent} {s : Kernel} {e : ProcEvent} {i : Nat}

/-- An event of another process can only change the parent. -/
theorem after_other (k : Kin) (other : e.child ≠ some i) :
    (k.after i e).life = k.life ∧ (k.after i e).waitEvent = k.waitEvent := by
  cases e <;> simp_all [Kin.after, ProcEvent.child, adopt_life, adopt_wait_event]

/-- An event other than a fork leaves a free slot free. -/
theorem after_unused {kins : Nat → Kin} (legal : e.Legal kins)
    (unforked : ∀ parent, e ≠ .forked parent i) (unused : (kins i).life = .unused) :
    ((kins i).after i e).life = .unused := by
  by_cases own : e.child = some i
  · cases e with
    | forked parent child => exact absurd (by simpa [ProcEvent.child] using own) (unforked parent)
    | exited child =>
      cases own
      simp [ProcEvent.Legal, unused] at legal
    | stopped child | continued child | reported parent child waitEvent => simp [Kin.after, Option.some.inj own, unused]
    | reaped parent child waitEvent => simp [Kin.after, Option.some.inj own]
    | installed idx signal mask => exact unused
  · exact (after_other (kins i) own).1.trans unused

/-- A slot outside the table stays free when its life does not change. -/
theorem in_table_same {t : Kernel}
    (life : ∀ i, s.nproc ≤ i → (t.procs i).kin.life = (s.procs i).kin.life)
    (nproc : t.nproc = s.nproc) (table : InTable s) : InTable t := by
  intro i beyond
  have same := life i (nproc ▸ beyond)
  rw [show (s.procs i).kin.life = .unused by simp [Proc.kin, table i (nproc ▸ beyond)]] at same
  exact (life_unused _).mp same

/-- Moves that the history does not record leave the table as it tells it. -/
theorem recorded_unseen {t : Kernel} (kin : ∀ i, (t.procs i).kin = (s.procs i).kin)
    (told : ∀ i, replay i t.history = replay i s.history) (lawful : Lawful t.history)
    (nproc : t.nproc = s.nproc) (recorded : Recorded s) : Recorded t :=
  ⟨fun i => by rw [kin, told, recorded.kin], lawful,
    in_table_same (fun i _ => congrArg Kin.life (kin i)) nproc recorded.table,
    nproc ▸ recorded.slots⟩

/-- One slot is changed, and the others are the same. -/
theorem kin_everywhere {t : Kernel} {idx : Nat} (own : (t.procs idx).kin = (s.procs idx).kin)
    (others : ∀ i, i ≠ idx → t.procs i = s.procs i) (i : Nat) :
    (t.procs i).kin = (s.procs i).kin := by
  by_cases same : i = idx
  · rw [same, own]
  · rw [others i same]

/-- One move keeps the history true. -/
theorem recorded_move (s t : Kernel) (move : KinMove s t) (recorded : Recorded s) : Recorded t := by
  have told : (fun i => (s.procs i).kin) = fun i => replay i s.history := funext recorded.kin
  cases move with
  | calm procs history nproc statuses =>
    exact recorded_unseen (fun i => (procs i).kin) (fun _ => by rw [history])
      (history ▸ recorded.lawful) nproc recorded
  | event e unforked legal kin masks fates history nproc statuses =>
    rw [told] at legal
    refine ⟨?_, history ▸ ⟨legal, recorded.lawful⟩, ?_, nproc ▸ recorded.slots⟩
    · intro i
      rw [kin recorded.table i, recorded.kin, history]
      rfl
    · refine in_table_same ?_ nproc recorded.table
      intro i beyond
      have unused : (s.procs i).kin.life = .unused := by simp [Proc.kin, recorded.table i beyond]
      rw [kin recorded.table i, unused, recorded.kin]
      rw [recorded.kin] at unused
      exact after_unused legal (fun parent => unforked parent i) unused
  | fated idx change kin masks others history nproc statuses
  | masked idx change kin fate others history nproc statuses =>
    exact recorded_unseen (kin_everywhere kin others) (fun _ => by rw [history])
      (history ▸ recorded.lawful) nproc recorded
  | told status sound procs history nproc statuses =>
    exact recorded_unseen (fun _ => by rw [procs]) (fun _ => by rw [history])
      (history ▸ recorded.lawful) nproc recorded
  | forked parent child free living kin masks fate others history statuses =>
    have unused : (s.procs child).state = .unused := by
      rcases free with ⟨unused, _⟩ | ⟨rfl, _⟩
      · exact unused
      · exact recorded.table s.nproc le_rfl
    refine ⟨?_, ?_, ?_, ?_⟩
    · intro i
      rw [history]
      by_cases same : i = child
      · subst same
        simpa [replay, Kin.after] using kin
      · rw [others i same, recorded.kin]
        simp [replay, Kin.after, Ne.symm same]
    · rw [history]
      refine ⟨?_, recorded.lawful⟩
      simp only [ProcEvent.Legal, ← recorded.kin]
      exact ⟨by simp [Proc.kin, unused], living⟩
    · intro i beyond
      have outside : i ≠ child ∧ s.nproc ≤ i := by
        rcases free with ⟨_, below, same⟩ | ⟨rfl, _, grown⟩ <;> omega
      rw [others i outside.1]
      exact recorded.table i outside.2
    · rcases free with ⟨_, _, same⟩ | ⟨_, room, grown⟩
      · exact same ▸ recorded.slots
      · omega
  | installed idx signal mask masks kin fate others history nproc statuses =>
    exact recorded_unseen (kin_everywhere kin others) (fun _ => by rw [history]; rfl)
      (history ▸ ⟨trivial, recorded.lawful⟩) nproc recorded

theorem reachable_recorded (reached : Reachable s) : Recorded s := by
  refine (reachable_kin Recorded ?_ recorded_move s reached).2
  intro ctx
  refine ⟨?_, trivial, ?_, by simp [booted, maxProc]⟩
  · intro i
    by_cases first : i = 0
    · subst first
      simp [booted, Proc.kin, replay, firstKin, emptyProc, RunState.life]
    · simp [booted, first, Proc.kin, replay, firstKin, emptyProc, RunState.life]
  · intro i beyond
    have later : i ≠ 0 := by
      rintro rfl
      simp [booted] at beyond
    simp [booted, later, emptyProc]

/-- A `waitpid` that returns this child. -/
def ProcEvent.Returns (child : Nat) : ProcEvent → Bool
  | .reaped _ returned _ => returned == child
  | .reported _ returned _ => returned == child
  | _ => false

/-- A `waitpid` that returns this child's termination. -/
def ProcEvent.Reaps (child : Nat) : ProcEvent → Bool
  | .reaped _ returned _ => returned == child
  | _ => false

/-- No stop or continue event is left in a slot that is freed. -/
def ProcEvent.Consumed : ProcEvent → Prop
  | .reaped _ _ waitEvent => waitEvent = 0
  | _ => True

theorem lawful_earlier (later : List ProcEvent) (lawful : Lawful (later ++ earlier)) :
    Lawful earlier := by
  induction later with
  | nil => exact lawful
  | cons e rest ih => exact ih lawful.2

/-- When every event was consumed, a free slot has none. -/
theorem unused_event (history : List ProcEvent) (lawful : Lawful history)
    (consumed : ∀ e ∈ history, e.Consumed) (unused : (replay i history).life = .unused) :
    (replay i history).waitEvent = 0 := by
  induction history with
  | nil =>
    simp only [replay, firstKin]
    split <;> rfl
  | cons e earlier ih =>
    have before := ih lawful.2 (fun event member => consumed event (List.mem_cons_of_mem e member))
    obtain ⟨legal, -⟩ := lawful
    simp only [replay] at unused ⊢
    by_cases own : e.child = some i
    · cases e with
      | forked parent child | reported parent child waitEvent => simp [Kin.after, Option.some.inj own]
      | exited child => simp [Kin.after, Option.some.inj own, adopt_life] at unused
      | stopped child | continued child =>
        cases own
        simp only [Kin.after, if_pos] at unused
        simp [ProcEvent.Legal, unused] at legal
      | reaped parent child waitEvent =>
        cases own
        simp only [Kin.after, if_pos]
        exact legal.2.2.trans (consumed _ List.mem_cons_self)
      | installed idx signal mask => exact before unused
    · rw [(after_other _ own).1] at unused
      rw [(after_other _ own).2]
      exact before unused

/-- What a `waitpid` returns belongs to the child it names. -/
theorem returns_child {child : Nat} (returns : e.Returns child = true) : e.child = some child := by
  cases e <;> simp_all [ProcEvent.Returns, ProcEvent.child]

/-- A free slot is not returned, and is free until it is forked into. -/
theorem unused_until_forked {child : Nat} (later : List ProcEvent)
    (lawful : Lawful (later ++ earlier)) (consumed : ∀ e ∈ later ++ earlier, e.Consumed)
    (unused : (replay child earlier).life = .unused)
    (unforked : ∀ parent, .forked parent child ∉ later) :
    (replay child (later ++ earlier)).life = .unused ∧ ∀ e ∈ later, e.Returns child = false := by
  induction later with
  | nil => exact ⟨unused, by simp⟩
  | cons e rest ih =>
    have still : ∀ event ∈ rest ++ earlier, event.Consumed :=
      fun event member => consumed event (List.mem_cons_of_mem e member)
    obtain ⟨free, quiet⟩ := ih lawful.2 still
      (fun parent member => unforked parent (List.mem_cons_of_mem e member))
    have first : ∀ parent, e ≠ .forked parent child := by
      rintro parent rfl
      exact unforked parent List.mem_cons_self
    refine ⟨after_unused lawful.1 first free, ?_⟩
    intro event member
    rcases List.mem_cons.mp member with rfl | old
    · by_contra returned
      have legal := lawful.1
      have none := unused_event _ lawful.2 still free
      cases event with
      | reaped parent reaped waitEvent =>
        obtain rfl : reaped = child := by simpa [ProcEvent.Returns] using returned
        simp [ProcEvent.Legal, free] at legal
      | reported parent reported waitEvent =>
        obtain rfl : reported = child := by simpa [ProcEvent.Returns] using returned
        obtain ⟨-, same, pending⟩ := legal
        rw [← same, none] at pending
        simp [wuntraced, wcontinued] at pending
      | _ => simp [ProcEvent.Returns] at returned
    · exact quiet event old

/-- A zombie stays one until it is reaped. -/
theorem after_zombie {kins : Nat → Kin} {child : Nat} (legal : e.Legal kins)
    (zombie : (kins child).life = .zombie) :
    ((kins child).after child e).life = if e.Reaps child then .unused else .zombie := by
  by_cases own : e.child = some child
  · cases e with
    | installed idx signal mask => exact zombie
    | reaped parent returned waitEvent => simp [Kin.after, ProcEvent.Reaps, Option.some.inj own]
    | reported parent returned waitEvent =>
      simp [Kin.after, ProcEvent.Reaps, Option.some.inj own, zombie]
    | _ =>
      cases own
      simp [ProcEvent.Legal, zombie] at legal
  · have unreaped : e.Reaps child = false := by
      cases e <;> simp_all [ProcEvent.Reaps, ProcEvent.child]
    rw [(after_other _ own).1, zombie, unreaped]
    rfl

/-- A termination is returned once: never while the zombie is there, and once when its
slot is free again. -/
theorem zombie_reaped_once {child : Nat} (later : List ProcEvent)
    (lawful : Lawful (later ++ earlier)) (zombie : (replay child earlier).life = .zombie)
    (unforked : ∀ parent, .forked parent child ∉ later) :
    (replay child (later ++ earlier)).life = .zombie ∧ later.countP (·.Reaps child) = 0 ∨
      (replay child (later ++ earlier)).life = .unused ∧ later.countP (·.Reaps child) = 1 := by
  induction later with
  | nil => exact .inl ⟨zombie, rfl⟩
  | cons e rest ih =>
    have before := ih lawful.2
      (fun parent member => unforked parent (List.mem_cons_of_mem e member))
    have first : ∀ parent, e ≠ .forked parent child := by
      rintro parent rfl
      exact unforked parent List.mem_cons_self
    have legal := lawful.1
    rw [List.countP_cons]
    rcases before with ⟨still, none⟩ | ⟨free, one⟩
    · have next := after_zombie legal still
      cases reaps : e.Reaps child with
      | true =>
        rw [reaps] at next
        exact .inr ⟨next, by simp [none]⟩
      | false =>
        rw [reaps] at next
        exact .inl ⟨next, by simp [none]⟩
    · have unreaped : e.Reaps child = false := by
        cases e <;> simp_all [ProcEvent.Reaps, ProcEvent.Legal]
        rintro rfl
        simp_all
      refine .inr ⟨after_unused legal first free, ?_⟩
      simp [unreaped, one]

/-- A pending event goes back to the stop or continue that set it, and has not been
returned since. -/
theorem pending_since {child : Nat} (history : List ProcEvent) (lawful : Lawful history)
    (consumed : ∀ e ∈ history, e.Consumed) (pending : (replay child history).waitEvent ≠ 0) :
    ∃ between event older, history = between ++ event :: older ∧
      (event = .stopped child ∧ (replay child history).waitEvent = wuntraced ∨
        event = .continued child ∧ (replay child history).waitEvent = wcontinued) ∧
      ∀ e ∈ between, e.Returns child = false := by
  induction history with
  | nil =>
    simp only [replay, firstKin] at pending
    split at pending <;> simp at pending
  | cons e earlier ih =>
    have extend (same : (replay child (e :: earlier)).waitEvent = (replay child earlier).waitEvent)
        (silent : e.Returns child = false) :
        ∃ between event older, e :: earlier = between ++ event :: older ∧
          (event = .stopped child ∧ (replay child (e :: earlier)).waitEvent = wuntraced ∨
            event = .continued child ∧ (replay child (e :: earlier)).waitEvent = wcontinued) ∧
          ∀ e ∈ between, e.Returns child = false := by
      rw [same] at pending ⊢
      obtain ⟨between, event, older, rfl, set, quiet⟩ := ih lawful.2
        (fun event member => consumed event (List.mem_cons_of_mem e member)) pending
      exact ⟨e :: between, event, older, rfl, set, by simpa [silent] using quiet⟩
    by_cases own : e.child = some child
    · cases e with
      | forked parent forked => simp [replay, Kin.after, Option.some.inj own] at pending
      | exited exited =>
        refine extend ?_ rfl
        simp [replay, Kin.after, Option.some.inj own, adopt_wait_event]
      | stopped stopped =>
        cases own
        exact ⟨[], _, earlier, rfl, .inl ⟨rfl, by simp [replay, Kin.after]⟩, by simp⟩
      | continued continued =>
        cases own
        exact ⟨[], _, earlier, rfl, .inr ⟨rfl, by simp [replay, Kin.after]⟩, by simp⟩
      | reaped parent reaped waitEvent =>
        cases own
        have clear : waitEvent = 0 := consumed _ List.mem_cons_self
        exact absurd (lawful.1.2.2.trans clear) (by simpa [replay, Kin.after] using pending)
      | reported parent reported waitEvent =>
        simp [replay, Kin.after, Option.some.inj own] at pending
      | installed idx signal mask => exact extend rfl rfl
    · refine extend (after_other _ own).2 ?_
      by_contra returned
      exact own (returns_child (by simpa using returned))

/-- Nobody is the parent of init, and its slot is never freed. -/
theorem init_parentless (history : List ProcEvent) (lawful : Lawful history) :
    (replay 0 history).parent = none ∧ (replay 0 history).life ≠ .unused := by
  induction history with
  | nil => simp [replay, firstKin]
  | cons e earlier ih =>
    obtain ⟨parentless, used⟩ := ih lawful.2
    have legal := lawful.1
    cases e <;> simp only [replay, Kin.after, ProcEvent.Legal] at legal ⊢
    case forked parent child =>
      have other : child ≠ 0 := by
        rintro rfl
        exact used legal.1
      simp [other, parentless, used]
    case exited child => split <;> simp [Kin.adopt, parentless, used]
    case reaped parent child waitEvent =>
      have other : child ≠ 0 := by
        rintro rfl
        simp [parentless] at legal
      simp [other, parentless, used]
    case installed => exact ⟨parentless, used⟩
    all_goals split <;> simp [parentless, used]

/-- A zombie is in the table. -/
theorem Recorded.zombie_listed (recorded : Recorded s) (child : Nat)
    (dead : (s.procs child).state = .zombie) : child < s.nproc := by
  by_contra beyond
  simp [recorded.table child (not_lt.mp beyond)] at dead

/-- A process with a parent is not init. -/
theorem Recorded.child_positive (recorded : Recorded s) (child parent : Nat)
    (own : (s.procs child).parent = some parent) : 0 < child := by
  rcases Nat.eq_zero_or_pos child with rfl | positive
  · have parentless := (init_parentless _ recorded.lawful).1
    rw [← recorded.kin] at parentless
    simp [Proc.kin, own] at parentless
  · exact positive

/-- A `waitpid` for one zombie child finds it, whatever else the table holds. -/
theorem wait_scan_reaps {env : Env} {parent child : Nat} {status : Word} (options : Word)
    (slots : List Nat) (listed : child ∈ slots) (positive : 0 < child) (small : child < maxProc)
    (dead : (s.procs child).state = .zombie) (own : (s.procs child).parent = some parent)
    (copied : status = 0 ∨ env.copyout s parent status = true) :
    waitScan env parent (BitVec.ofNat 32 child) status options s slots =
      some (((setResult parent (BitVec.ofNat 32 child) (storeStatus status (.ended child
        (s.procs child).ending (s.procs child).paused (exitStatus (s.procs child))) s)).setProc child
        (fun p => { p with state := .unused })).note
          (.reaped parent child (s.procs child).waitEvent)) := by
  have selects (i : Nat) : waitMatches s parent i (BitVec.ofNat 32 child) =
      ((s.procs i).parent == some parent && i == child) := by
    have signed : (0#32).slt (BitVec.ofNat 32 child) = true := by
      have each : ∀ n < maxProc, 0 < n → (0#32).slt (BitVec.ofNat 32 n) = true := by decide
      exact each child small positive
    have number : (BitVec.ofNat 32 child).toNat = child := by
      simp only [maxProc] at small
      rw [BitVec.toNat_ofNat]
      omega
    simp [waitMatches, signed, number]
  induction slots with
  | nil => simp at listed
  | cons i rest ih =>
    unfold waitScan
    by_cases same : i = child
    · subst same
      have accepted : ¬ (status ≠ 0 ∧ env.copyout s parent status = false) := by
        rintro ⟨nonzero, refused⟩
        rcases copied with zero | stored
        · exact nonzero zero
        · simp [refused] at stored
      simp only [selects, own, dead, beq_self_eq_true, Bool.and_self, and_self, if_true]
      rw [if_neg accepted]
    · have unmatched : waitMatches s parent i (BitVec.ofNat 32 child) = false := by
        simp [selects, same]
      simp only [unmatched, Bool.false_eq_true, false_and, if_false]
      refine ih ((List.mem_cons.mp listed).resolve_left (Ne.symm same))

/-- Each child is reaped once: in every run in which no stop or continue event is left
in a slot that is freed,

* the history tells what the families see;
* a termination is returned to the parent of that moment, and nothing more is returned
  for that slot until it is forked into;
* since a process exited its termination has been returned once, or not at all while
  it is still a zombie;
* and once before its slot is used again;
* a stop or continue event is returned to the parent of that moment for a slot in use,
  and has not been returned since it happened;
* the parent of a zombie gets it by asking for it. -/
theorem children_reaped_once (s : Kernel) (reached : Reachable s)
    (consumed : ∀ e ∈ s.history, e.Consumed) :
    (∀ i, (s.procs i).kin = replay i s.history) ∧
    (∀ later parent child waitEvent earlier,
      s.history = later ++ .reaped parent child waitEvent :: earlier →
      (replay child earlier).life = .zombie ∧ (replay child earlier).parent = some parent ∧
        ((∀ other, .forked other child ∉ later) → ∀ e ∈ later, e.Returns child = false)) ∧
    (∀ later child earlier, s.history = later ++ .exited child :: earlier →
      (∀ other, .forked other child ∉ later) →
      later.countP (·.Reaps child) = if (s.procs child).state = .zombie then 0 else 1) ∧
    (∀ later parent child between earlier,
      s.history = later ++ .forked parent child :: (between ++ .exited child :: earlier) →
      (∀ other, .forked other child ∉ between) → between.countP (·.Reaps child) = 1) ∧
    (∀ later parent child waitEvent earlier,
      s.history = later ++ .reported parent child waitEvent :: earlier →
      (replay child earlier).life ≠ .unused ∧ (replay child earlier).parent = some parent ∧
        ∃ between event older, earlier = between ++ event :: older ∧
          (event = .stopped child ∧ waitEvent = wuntraced ∨
            event = .continued child ∧ waitEvent = wcontinued) ∧
          ∀ e ∈ between, e.Returns child = false) ∧
    (∀ env fuel parent child call status options, (s.procs child).state = .zombie →
      (s.procs child).parent = some parent →
      (status = 0 ∨ env.copyout s parent status = true) →
      ∃ t, doWaitpid env fuel parent call (BitVec.ofNat 32 child) status options s =
          some (0, true, t) ∧ (t.procs parent).ctx.regs 0 = BitVec.ofNat 32 child ∧
        t.history = .reaped parent child (s.procs child).waitEvent :: s.history) := by
  have recorded := reachable_recorded reached
  have lawful := recorded.lawful
  -- What holds after an exit, in any later part of the history.
  have exited (later : List ProcEvent) (child : Nat) (earlier : List ProcEvent)
      (past : Lawful (later ++ .exited child :: earlier))
      (unforked : ∀ other, .forked other child ∉ later) :=
    zombie_reaped_once later past
      (by simp [replay, Kin.after, adopt_life]) unforked
  refine ⟨recorded.kin, ?_, ?_, ?_, ?_, ?_⟩
  · intro later parent child waitEvent earlier split
    rw [split] at lawful consumed
    have legal := (lawful_earlier later lawful).1
    refine ⟨legal.1, legal.2.1, fun unforked => ?_⟩
    exact (unused_until_forked later lawful consumed (by simp [replay, Kin.after]) unforked).2
  · intro later child earlier split unforked
    have once := exited later child earlier (split ▸ lawful) unforked
    rw [← split, ← recorded.kin] at once
    simp only [Proc.kin, life_zombie, life_unused] at once
    rcases once with ⟨zombie, none⟩ | ⟨unused, one⟩
    · simp [zombie, none]
    · simp [unused, one]
  · intro later parent child between earlier split unforked
    rw [split] at lawful
    obtain ⟨legal, past⟩ := lawful_earlier later lawful
    rcases exited between child earlier past unforked with ⟨zombie, -⟩ | ⟨-, one⟩
    · simp [ProcEvent.Legal, zombie] at legal
    · exact one
  · intro later parent child waitEvent earlier split
    rw [split] at lawful consumed
    obtain ⟨⟨own, same, pending⟩, past⟩ := lawful_earlier later lawful
    have nonzero : waitEvent ≠ 0 := by
      rcases pending with rfl | rfl <;> decide
    have kept : ∀ e ∈ earlier, e.Consumed := fun e member =>
      consumed e (List.mem_append_right _ (List.mem_cons_of_mem _ member))
    refine ⟨fun unused => nonzero ?_, own, ?_⟩
    · rw [← same]
      exact unused_event earlier past kept unused
    · have since := pending_since earlier past kept (same ▸ nonzero)
      rwa [same] at since
  · intro env fuel parent child call status options dead own copied
    have positive := recorded.child_positive child parent own
    have below := recorded.zombie_listed child dead
    have found := wait_scan_reaps options (List.range s.nproc)
      (List.mem_range.mpr below) positive (below.trans_le recorded.slots) dead own copied
    refine ⟨_, by rw [doWaitpid, found], ?_, rfl⟩
    rw [note_procs, set_proc_procs]
    split
    case isTrue same => simp [setResult, same]
    case isFalse => simp [setResult]

instance : DecidablePred ProcEvent.Consumed := fun e =>
  match e with
  | .reaped _ _ waitEvent => inferInstanceAs (Decidable (waitEvent = 0))
  | .forked .. => .isTrue trivial
  | .exited .. => .isTrue trivial
  | .stopped .. => .isTrue trivial
  | .continued .. => .isTrue trivial
  | .reported .. => .isTrue trivial
  | .installed .. => .isTrue trivial

/-- A child is stopped and its stop returned, then killed and reaped. -/
theorem children_reaped_once_stopped :
    ∃ s, Reachable s ∧ (∀ e ∈ s.history, e.Consumed) ∧
      ∃ later earlier, s.history = later ++ .exited 1 :: earlier ∧
        (∀ other, .forked other 1 ∉ later) ∧ (s.procs 1).state = .unused ∧
        later.countP (·.Reaps 1) = 1 := by
  obtain ⟨s, reached, checked⟩ := run_reaches (sampleCtx 0 0 0 0)
    [sampleCall sysFork 0 0 0, sampleCall sysKill 1 19 0, sampleCall sysYield 0 0 0,
      sampleCall sysWaitpid 1 0 2, sampleCall sysKill 1 9 0, sampleCall sysYield 0 0 0,
      sampleCall sysWaitpid 1 0 2]
    (fun s => decide (s.history = [.reaped 0 1 0, .exited 1, .reported 0 1 2, .stopped 1,
      .forked 0 1] ∧ (s.procs 1).state = .unused))
    (by decide +kernel)
  obtain ⟨told, unused⟩ := of_decide_eq_true checked
  have consumed : ∀ e ∈ s.history, e.Consumed := by
    rw [told]
    decide
  have split : s.history = [.reaped 0 1 0] ++ .exited 1 :: [.reported 0 1 2, .stopped 1,
    .forked 0 1] := told
  have unforked : ∀ other, ProcEvent.forked other 1 ∉ [ProcEvent.reaped 0 1 0] := by simp
  have once := (children_reaped_once s reached consumed).2.2.1 _ _ _ split unforked
  refine ⟨s, reached, consumed, _, _, split, unforked, unused, ?_⟩
  simpa [unused] using once

/-- A child is stopped, killed and reaped without its stop having been returned. Its
slot is free, and a `waitpid` for stopped children returns it. -/
theorem stale_stop_returned :
    ∃ s earlier, Reachable s ∧
      s.history = .reported 0 1 wuntraced :: .reaped 0 1 wuntraced :: earlier ∧
      (s.procs 1).state = .unused ∧ (s.procs 0).ctx.regs 0 = 1 := by
  obtain ⟨s, reached, checked⟩ := run_reaches (sampleCtx 0 0 0 0)
    [sampleCall sysFork 0 0 0, sampleCall sysKill 1 19 0, sampleCall sysYield 0 0 0,
      sampleCall sysKill 1 9 0, sampleCall sysYield 0 0 0, sampleCall sysWaitpid 1 0 0,
      sampleCall sysWaitpid 1 0 2]
    (fun s => decide (s.history = [.reported 0 1 2, .reaped 0 1 2, .exited 1, .stopped 1,
      .forked 0 1] ∧ (s.procs 1).state = .unused ∧ (s.procs 0).ctx.regs 0 = 1))
    (by decide +kernel)
  obtain ⟨told, unused, result⟩ := of_decide_eq_true checked
  exact ⟨s, _, reached, told, unused, result⟩

end JsEmulator.Process
