import JsEmulator.Custom32.Attempts
import Mathlib.Algebra.BigOperators.Group.Finset.Basic
import Mathlib.Algebra.Order.BigOperators.Group.Finset

/-!
# Restarting after a page fault

When an instruction raises a page fault, `run` sets the program counter and the stack pointer
back, and the handler maps the missing page or replaces a read-only frame by a writable copy.
The instruction is executed again, until no access faults. It ends as it would have on a
machine whose pages had been mapped that way before.

What an attempt has stored by the time it faults is stored again by the last one. Two things
are lost. The registers of the last fault are those of the instruction's own fault, which
`RDPFLA` and `RDERR` see when they are restarted. And a store that crosses into a second page has
changed the first one when it faults: if the frame to be copied is the one it has just stored
to, the copy has that change in it.
-/

namespace JsEmulator.Custom32

open JsEmulator.Library JsEmulator.Library.Logged

variable {D : Type} (bus : PortBus D)
variable {own old lost : Set Int} {u t : Cpu D} {e : PageFault} {log : List Event} {n : Nat}
variable {bound q : Int}

/-! ## Handlers -/

/-- The translation of a page. -/
def Cpu.page (s : Cpu D) (z : Nat) : Option PageEntry := entry s.mem s.space.ptbr z

/-- There are `2 ^ 20` pages. -/
theorem page_wrap (s : Cpu D) {y z : Nat} (same : y % 2 ^ 20 = z) : s.page y = s.page z := by
  have directory : z / 1024 % 1024 = y / 1024 % 1024 := by omega
  have table : z % 1024 = y % 1024 := by omega
  rw [Cpu.page, Cpu.page, entry, entry, walk, walk, directory, table]

/-- A byte of a page that the machine maps. -/
def Mapped (s : Cpu D) (q : Int) : Prop :=
  ∃ z e, s.page z = some e ∧ ∃ off : Nat, off < 4096 ∧ q = e.frame + off

/-- An attempt at an instruction that does not load what it stores to, as its own code, or what
is to be avoided, and that does not store to the page tables. -/
structure Apart (avoid : Set Int) (u : Cpu D) : Prop where
  loads : ∀ a p, .access a ∈ (step bus u).log → a.write = false → a.result = .ok p →
    ∀ i : Nat, i < a.bytes → p + i ∉ avoid ∪ stores (step bus u).log
  tables : ∀ q ∈ stores (step bus u).log, q ∉ u.tables

theorem Apart.fine {avoid : Set Int} (apart : Apart bus avoid u) :
    ∀ event ∈ (step bus u).log,
      Fine (avoid ∪ stores (step bus u).log) (stores (step bus u).log) event := by
  intro event member
  cases event with
  | access a =>
    intro p found i bound
    split_ifs with write
    · exact ⟨a, p, member, write, found, by omega, by omega⟩
    · exact apart.loads a p member (by simpa using write) found i bound
  | change c => exact step_harmless bus apart.tables c member
  | flush => trivial
  | report => trivial

/-- How a page fault is resolved: the missing page is mapped, or its read-only frame is replaced
by a writable one with the same contents. -/
inductive Resolved (own : Set Int) (before after : Cpu D) (z : Nat) : Prop
  | mapped {e : PageEntry} (missing : before.page z = none) (present : after.page z = some e)
  | copied {e e' : PageEntry} (original : before.page z = some e) (copy : after.page z = some e')
      (readOnly : e.writable = false) (writable : e'.writable = true)
      (user : e.user = true → e'.user = true)
      (inside : Inside before.mem.size e ∧ Inside before.mem.size e')
      (apart : ∀ off : Nat, off < 4096 → e.frame + off ∉ own)
      (contents : ∀ off : Nat, off < 4096 →
        after.mem.at? (e'.frame + off) = before.mem.at? (e.frame + off))

/-- What a handler does between the fault and its return, but for the bytes that it uses
itself. -/
structure Handled (own : Set Int) (z : Nat) (before after : Cpu D) : Prop where
  core : after.core = before.core
  space : after.space = before.space
  paged : after.space.pagingEnabled = true
  coherent : Coherent after
  size : after.mem.size = before.mem.size
  others : ∀ y, y % 2 ^ 20 ≠ z → after.page y = before.page y
  kept : ∀ q, q ∉ own → Mapped before q → after.mem.at? q = before.mem.at? q
  resolved : Resolved own before after z

/-- The same page on a machine that has not attempted the instruction. What the handler puts
into a new frame is there; a writable copy has the contents the original has there. -/
structure Premapped (own : Set Int) (z : Nat) (before after t t' : Cpu D) : Prop where
  core : t'.core = t.core
  space : t'.space = t.space
  coherent : Coherent t'
  size : t'.mem.size = t.mem.size
  table : ∀ y, t'.page y = after.page y
  kept : ∀ q, q ∉ own → Mapped t q → t'.mem.at? q = t.mem.at? q
  supplied : ∀ e, before.page z = none → after.page z = some e → ∀ off : Nat, off < 4096 →
    ¬ Mapped before (e.frame + off) → t'.mem.at? (e.frame + off) = after.mem.at? (e.frame + off)
  copied : ∀ e e', before.page z = some e → after.page z = some e' → ∀ off : Nat, off < 4096 →
    t'.mem.at? (e'.frame + off) = t.mem.at? (e.frame + off)

/-- The machine as the handler finds it. -/
def interrupted (u : Cpu D) (e : PageFault) : Cpu D := (rewind u e (step bus u).state).state

/-- The bytes of a frame that is replaced by a copy, among those that have been stored to. -/
def carried (stored : Set Int) (z : Nat) (before after : Cpu D) : Set Int :=
  { q ∈ stored | ∃ f f', before.page z = some f ∧ after.page z = some f' ∧ f'.number ≠ f.number ∧
    ∃ off : Nat, off < 4096 ∧ q = f.frame + off }

/-- The attempts at an instruction: their number, the machine that has mapped the pages from
the start, the one that executes, the bytes that its attempts have stored to, and those of them
that the handler has copied. -/
inductive Restarts (own : Set Int) (s : Cpu D) :
    Nat → Cpu D → Cpu D → Set Int → Set Int → Prop
  | start : Restarts own s 0 s s ∅ ∅
  | again {n : Nat} {t u t' u' : Cpu D} {old lost : Set Int} {e : PageFault}
      (earlier : Restarts own s n t u old lost)
      (faulted : (step bus u).result = .error (.pageFault e))
      (apart : Apart bus (own ∪ old) u)
      (handled : Handled own (pageNumber e.vaddr) (interrupted bus u e) u')
      (premapped : Premapped own (pageNumber e.vaddr) (interrupted bus u e) u' t t') :
      Restarts own s (n + 1) t' u' (old ∪ stores (step bus u).log)
        (lost ∪ carried (old ∪ stores (step bus u).log) (pageNumber e.vaddr)
          (interrupted bus u e) u')

/-- The machine as the handler finds it is the one before the attempt, but for the stores. -/
theorem interrupted_held (faulted : (step bus u).result = .error (.pageFault e))
    (outside : ∀ q ∈ stores (step bus u).log, q ∉ u.tables) :
    (interrupted bus u e).core = u.core ∧ (interrupted bus u e).space = u.space ∧
      (interrupted bus u e).mem.size = u.mem.size ∧
      (∀ z, (interrupted bus u e).page z = u.page z) ∧
      ∀ q, q ∉ stores (step bus u).log → (interrupted bus u e).mem.at? q = u.mem.at? q := by
  obtain ⟨held, core⟩ := step_held bus faulted
  refine ⟨?_, held.space, held.memory.1, fun z => ?_, held.memory.2⟩
  · change { (step bus u).state.core with pc := u.core.pc, sp := u.core.sp } = u.core
    unfold Core.Kept at core
    rw [core]
  · change entry (step bus u).state.mem (step bus u).state.space.ptbr z = _
    rw [held.space, entry, held.memory.walk outside]
    rfl

/-! ## The restarts come to an end -/

/-- A fault and its handling. -/
def Again (own : Set Int) (u u' : Cpu D) : Prop :=
  ∃ e, (step bus u).result = .error (.pageFault e) ∧
    (∀ q ∈ stores (step bus u).log, q ∉ u.tables) ∧
    Handled own (pageNumber e.vaddr) (interrupted bus u e) u'

/-- How often a page can still be resolved. -/
def faultsLeft : Option PageEntry → Nat
  | none => 2
  | some e => if e.writable = true then 0 else 1

theorem Resolved.fewer {before after : Cpu D} {z : Nat} (resolved : Resolved own before after z) :
    faultsLeft (after.page z) < faultsLeft (before.page z) := by
  cases resolved with
  | mapped missing present =>
    rw [missing, present, faultsLeft, faultsLeft]
    split_ifs <;> omega
  | copied original copy readOnly writable =>
    rw [original, copy, faultsLeft, faultsLeft, if_pos writable, if_neg (by simp [readOnly])]
    omega

theorem pageNumber_lt (v : Int) : pageNumber v < 2 ^ 20 := by
  unfold pageNumber
  omega

theorem again_wellFounded (own : Set Int) : WellFounded fun u' u => Again bus own u u' := by
  refine Subrelation.wf (r := InvImage (· < ·) fun u : Cpu D =>
    ∑ z ∈ Finset.range (2 ^ 20), faultsLeft (u.page z)) ?_ (InvImage.wf _ wellFounded_lt)
  rintro u' u ⟨e, faulted, outside, handled⟩
  obtain ⟨-, -, -, table, -⟩ := interrupted_held bus faulted outside
  have fewer := handled.resolved.fewer
  rw [table] at fewer
  refine Finset.sum_lt_sum (fun z _ => ?_)
    ⟨pageNumber e.vaddr, Finset.mem_range.mpr (pageNumber_lt _), fewer⟩
  by_cases same : z % 2 ^ 20 = pageNumber e.vaddr
  · rw [page_wrap u' same, page_wrap u same]
    exact fewer.le
  · rw [handled.others z same, table]

/-! ## Every attempt stores a part of what the last one stores -/

/-- A machine after some more restarts: what was mapped still is, with the contents it had but
for what has been stored since. -/
structure Later (own old new : Set Int) (u v : Cpu D) : Prop where
  core : v.core = u.core
  space : v.space = u.space
  size : v.mem.size = u.mem.size
  grown : old ⊆ new
  table : ∀ z e, u.page z = some e → ∃ e', v.page z = some e' ∧
    (e.user = true → e'.user = true) ∧
    (e.writable = true → e'.writable = true ∧ e'.number = e.number) ∧
    (e'.number = e.number ∨ (Inside u.mem.size e ∧ Inside u.mem.size e') ∧
      ∀ off : Nat, off < 4096 → e.frame + off ∉ own ∪ old)
  bytes : ∀ z e e', u.page z = some e → v.page z = some e' → ∀ off : Nat, off < 4096 →
    e'.frame + off ∉ own ∪ new → v.mem.at? (e'.frame + off) = u.mem.at? (e.frame + off)

theorem frame_congr {e e' : PageEntry} (number : e'.number = e.number) : e'.frame = e.frame := by
  rw [PageEntry.frame, PageEntry.frame, number]

theorem Later.refl (own old : Set Int) (u : Cpu D) : Later own old old u u :=
  ⟨rfl, rfl, rfl, subset_rfl, fun _ e mapped => ⟨e, mapped, id, fun writable => ⟨writable, rfl⟩,
    .inl rfl⟩, fun _ e e' mapped mapped' off _ _ => by
      rw [Option.some.inj (mapped'.symm.trans mapped)]⟩

theorem Later.trans {mid new : Set Int} {v w : Cpu D} (first : Later own old mid u v)
    (second : Later own mid new v w) : Later own old new u w := by
  refine ⟨second.core.trans first.core, second.space.trans first.space,
    second.size.trans first.size, first.grown.trans second.grown, fun z e mapped => ?_,
    fun z e e'' mapped mapped'' off bound outside => ?_⟩
  · obtain ⟨e', mapped', user, writable, frame⟩ := first.table z e mapped
    obtain ⟨e'', mapped'', user', writable', frame'⟩ := second.table z e' mapped'
    refine ⟨e'', mapped'', fun on => user' (user on), fun on => ?_, ?_⟩
    · obtain ⟨on', number⟩ := writable on
      obtain ⟨on'', number'⟩ := writable' on'
      exact ⟨on'', number'.trans number⟩
    · rw [first.size] at frame'
      rcases frame with number | ⟨inside, apart⟩
      · rcases frame' with number' | ⟨inside', apart'⟩
        · exact .inl (number'.trans number)
        refine .inr ⟨⟨?_, inside'.2⟩, fun off bound bad => ?_⟩
        · have here := inside'.1
          rwa [Inside, frame_congr number] at here
        · rw [← frame_congr number] at bad
          exact apart' off bound (bad.imp_right (first.grown ·))
      · refine .inr ⟨⟨inside.1, ?_⟩, apart⟩
        rcases frame' with number' | ⟨inside', -⟩
        · rw [Inside, frame_congr number']
          exact inside.2
        · exact inside'.2
  · obtain ⟨e', mapped', -⟩ := first.table z e mapped
    rw [second.bytes z e' e'' mapped' mapped'' off bound outside]
    refine first.bytes z e e' mapped mapped' off bound fun bad => ?_
    obtain ⟨e₂, mapped₂, -, -, frame⟩ := second.table z e' mapped'
    obtain rfl : e'' = e₂ := Option.some.inj (mapped''.symm.trans mapped₂)
    rcases frame with number | ⟨-, apart⟩
    · rw [frame_congr number] at outside
      exact outside (bad.imp_right (second.grown ·))
    · exact apart off bound bad

theorem not_carried {stored : Set Int} {z : Nat} {before after : Cpu D} {f f' : PageEntry}
    (clean : carried stored z before after = ∅) (original : before.page z = some f)
    (copy : after.page z = some f') (number : f'.number ≠ f.number) {off : Nat} (bound : off < 4096) :
    f.frame + off ∉ stored := fun bad =>
  Set.eq_empty_iff_forall_notMem.mp clean (f.frame + off)
    ⟨bad, f, f', original, copy, number, off, bound, rfl⟩

/-- One restart. -/
theorem Handled.later {u' : Cpu D} (faulted : (step bus u).result = .error (.pageFault e))
    (outside : ∀ q ∈ stores (step bus u).log, q ∉ u.tables)
    (handled : Handled own (pageNumber e.vaddr) (interrupted bus u e) u')
    (clean : carried (old ∪ stores (step bus u).log) (pageNumber e.vaddr) (interrupted bus u e) u' = ∅) :
    Later own old (old ∪ stores (step bus u).log) u u' := by
  obtain ⟨core, space, size, table, bytes⟩ := interrupted_held bus faulted outside
  refine ⟨handled.core.trans core, handled.space.trans space, handled.size.trans size,
    Set.subset_union_left, fun z f mapped => ?_, fun z f f' mapped mapped' off bound outside => ?_⟩
  · by_cases here : z % 2 ^ 20 = pageNumber e.vaddr
    · rw [page_wrap u here] at mapped
      rw [page_wrap u' here]
      cases handled.resolved with
      | mapped missing present =>
        rw [table, mapped] at missing
        cases missing
      | @copied f₁ f' original copy readOnly writable user inside apart contents =>
        obtain rfl : f = f₁ := Option.some.inj (mapped.symm.trans ((table _).symm.trans original))
        refine ⟨f', copy, user, fun on => ?_, ?_⟩
        · rw [readOnly] at on
          cases on
        · by_cases number : f'.number = f.number
          · exact .inl number
          refine .inr ⟨size ▸ inside, fun off bound => ?_⟩
          rintro (bad | bad)
          · exact apart off bound bad
          · exact not_carried clean original copy number bound (.inl bad)
    · refine ⟨f, by rw [handled.others z here, table, mapped], id, fun on => ⟨on, rfl⟩, .inl rfl⟩
  · by_cases here : z % 2 ^ 20 = pageNumber e.vaddr
    · rw [page_wrap u here] at mapped
      rw [page_wrap u' here] at mapped'
      cases handled.resolved with
      | mapped missing present =>
        rw [table, mapped] at missing
        cases missing
      | @copied f₁ f₂ original copy readOnly writable user inside apart contents =>
        obtain rfl : f = f₁ := Option.some.inj (mapped.symm.trans ((table _).symm.trans original))
        obtain rfl : f' = f₂ := Option.some.inj (mapped'.symm.trans copy)
        rw [contents off bound]
        refine bytes _ fun bad => ?_
        by_cases number : f'.number = f.number
        · rw [frame_congr number] at outside
          exact outside (.inr (.inr bad))
        · exact not_carried clean original copy number bound (.inr bad)
    · rw [handled.others z here, table, mapped] at mapped'
      obtain rfl : f = f' := Option.some.inj mapped'
      have still := handled.kept (f.frame + off) (fun bad => outside (.inl bad))
        ⟨z, f, by rw [table, mapped], off, bound, rfl⟩
      rw [still]
      exact bytes _ fun bad => outside (.inr (.inr bad))

/-- The machines of one instruction, as far as `Later` goes, are in step. -/
theorem Later.stores_subset {new : Set Int} {v : Cpu D} (later : Later own old new u v)
    (coherent₁ : Coherent u) (coherent₂ : Coherent v) (paged : v.space.pagingEnabled = true)
    (apart₁ : Apart bus (own ∪ old) u) (apart₂ : Apart bus (own ∪ new) v)
    (quiet : .report ∉ (step bus v).log) (settled : Settled (step bus v).result) :
    stores (step bus u).log ⊆ stores (step bus v).log := by
  let g : Setting :=
    { old₁ := own ∪ old
      old₂ := own ∪ new
      new₁ := stores (step bus u).log
      new₂ := stores (step bus v).log
      map₁ := u.page
      map₂ := v.page
      size := u.mem.size
      fits := fun z e mapped => by
        obtain ⟨e', mapped', user, writable, frame⟩ := later.table z e mapped
        exact ⟨e', mapped', user, writable, frame.imp_right And.left⟩ }
  have link : Link g ∅ u v := by
    refine ⟨⟨later.core.symm, later.space.symm, fun z e e' mapped mapped' off bound _ outside => ?_,
      fun q impossible => absurd impossible (Set.notMem_empty q)⟩, paged, coherent₁, coherent₂, rfl,
      later.size, fun _ => rfl, fun _ => rfl⟩
    rw [Set.union_empty] at outside
    exact (later.bytes z e e' mapped mapped' off bound outside).symm
  rcases step_follows bus link (apart₁.fine bus) (apart₂.fine bus) quiet settled with ⟨-, same, -⟩ | ⟨part, -⟩
  · exact same.subset
  · exact part

/-! ## The machine that never faults -/

/-- The executing machine and the one that has mapped the pages from the start. -/
structure Near (own old : Set Int) (t u : Cpu D) : Prop where
  core : t.core = u.core
  space : t.space = u.space
  size : t.mem.size = u.mem.size
  coherent : Coherent t
  coherent' : Coherent u
  table : ∀ z, t.page z = u.page z
  bytes : ∀ q, Mapped u q → q ∉ own ∪ old → t.mem.at? q = u.mem.at? q

theorem Mapped.congr {s : Cpu D} (table : ∀ z, t.page z = s.page z) (mapped : Mapped s q) : Mapped t q := by
  obtain ⟨z, e, found, inside⟩ := mapped
  exact ⟨z, e, (table z).trans found, inside⟩

theorem Restarts.near {s : Cpu D} (restarts : Restarts bus own s n t u old lost)
    (coherent : Coherent s) (clean : lost = ∅) :
    Near own old t u := by
  induction restarts with
  | start => exact ⟨rfl, rfl, rfl, coherent, coherent, fun _ => rfl, fun _ _ _ => rfl⟩
  | @again n t u t' u' old lost e earlier faulted apart handled premapped ih =>
    obtain ⟨cleanBefore, cleanNow⟩ := Set.union_empty_iff.mp clean
    have near := ih cleanBefore
    obtain ⟨core, space, size, table, bytes⟩ := interrupted_held bus faulted apart.tables
    refine ⟨?_, ?_, ?_, premapped.coherent, handled.coherent, premapped.table, fun q mapped outside => ?_⟩
    · rw [premapped.core, handled.core, core, near.core]
    · rw [premapped.space, handled.space, space, near.space]
    · rw [premapped.size, handled.size, size, near.size]
    -- a byte that was mapped before is as it was on both machines
    have still : Mapped (interrupted bus u e) q → t'.mem.at? q = u'.mem.at? q := by
      intro earlier
      have mapped₁ : Mapped u q := earlier.congr fun z => (table z).symm
      rw [handled.kept q (fun bad => outside (.inl bad)) earlier,
        premapped.kept q (fun bad => outside (.inl bad))
          (mapped₁.congr near.table),
        bytes q (fun bad => outside (.inr (.inr bad)))]
      exact near.bytes q mapped₁ (fun bad => outside (bad.imp_right .inl))
    by_cases before : Mapped (interrupted bus u e) q
    · exact still before
    obtain ⟨z, f, found, off, bound, rfl⟩ := mapped
    by_cases here : z % 2 ^ 20 = pageNumber e.vaddr
    · rw [page_wrap u' here] at found
      cases handled.resolved with
      | mapped missing present => exact premapped.supplied f missing found off bound before
      | @copied f₁ f₂ original copy readOnly writable user inside own contents =>
        obtain rfl : f = f₂ := Option.some.inj (found.symm.trans copy)
        have other : f.number ≠ f₁.number := fun number =>
          before ⟨_, f₁, original, off, bound, by rw [frame_congr number]⟩
        have apart₁ := not_carried cleanNow original copy other bound
        rw [premapped.copied f₁ f original copy off bound, contents off bound,
          bytes _ (fun bad => apart₁ (.inr bad))]
        refine near.bytes _ ⟨_, f₁, (table _).symm.trans original, off, bound, rfl⟩ ?_
        rintro (bad | bad)
        · exact own off bound bad
        · exact apart₁ (.inl bad)
    · rw [handled.others z here] at found
      exact absurd ⟨z, f, found, off, bound, rfl⟩ before

theorem Restarts.paged {s : Cpu D} (restarts : Restarts bus own s n t u old lost)
    (restarted : n ≠ 0) :
    u.space.pagingEnabled = true := by
  cases restarts with
  | start => exact absurd rfl restarted
  | again _ _ _ handled _ => exact handled.paged

/-- What all attempts have stored to, the last one stores to. -/
theorem Restarts.old_subset {s : Cpu D} (restarts : Restarts bus own s n t u old lost)
    (coherent : Coherent s) (clean : lost = ∅) :
    ∀ new v, Later own old new u v → Coherent v → v.space.pagingEnabled = true →
      Apart bus (own ∪ new) v → .report ∉ (step bus v).log →
      Settled (step bus v).result → old ⊆ stores (step bus v).log := by
  induction restarts with
  | start => exact fun _ _ _ _ _ _ _ _ => Set.empty_subset _
  | @again n t u t' u' old lost e earlier faulted apart handled premapped ih =>
    obtain ⟨cleanBefore, cleanNow⟩ := Set.union_empty_iff.mp clean
    intro new v later coherent' paged apart' quiet settled
    have whole : Later own old new u v :=
      (handled.later bus faulted apart.tables cleanNow).trans later
    refine Set.union_subset (ih cleanBefore new v whole coherent' paged apart' quiet settled) ?_
    exact whole.stores_subset bus (earlier.near bus coherent cleanBefore).coherent' coherent' paged apart
      apart'      quiet settled

/-- The last attempt ends as the machine does that has mapped the pages from the start. -/
theorem Restarts.same {s : Cpu D} (restarts : Restarts bus own s n t u old lost)
    (coherent : Coherent s) (clean : lost = ∅) (restarted : n ≠ 0)
    (settled : Settled (step bus u).result) (apart : Apart bus (own ∪ old) u)
    (apart' : Apart bus own t) (quiet : .report ∉ (step bus u).log) :
    (step bus t).result = (step bus u).result ∧
      (checkedStep bus t).state.core = (checkedStep bus u).state.core ∧
      (checkedStep bus t).state.space = (checkedStep bus u).state.space ∧
      ∀ q, Mapped u q → q ∉ own →
        (checkedStep bus t).state.mem.at? q = (checkedStep bus u).state.mem.at? q := by
  have near := restarts.near bus coherent clean
  have paged := restarts.paged bus restarted
  have covered := restarts.old_subset bus coherent clean old u (.refl own old u) near.coherent' paged
    apart quiet settled
  let g : Setting :=
    { old₁ := own
      old₂ := own ∪ old
      new₁ := stores (step bus t).log
      new₂ := stores (step bus u).log
      map₁ := u.page
      map₂ := u.page
      size := u.mem.size
      fits := fun z e mapped => ⟨e, mapped, id, fun writable => ⟨writable, rfl⟩, .inl rfl⟩ }
  have link : Link g ∅ t u := by
    refine ⟨⟨near.core, near.space, fun z e e' mapped mapped' off bound _ outside => ?_,
      fun q impossible => absurd impossible (Set.notMem_empty q)⟩, paged, near.coherent,
      near.coherent', near.size, rfl, near.table, fun _ => rfl⟩
    obtain rfl : e = e' := Option.some.inj (mapped.symm.trans mapped')
    rw [Set.union_empty] at outside
    exact near.bytes _ ⟨z, e, mapped, off, bound, rfl⟩ outside
  rcases step_follows bus link (apart'.fine bus) (apart.fine bus) quiet settled with
    ⟨result, -, after⟩ | ⟨-, differs⟩
  · refine ⟨result, after.core, after.space, fun q mapped outside => ?_⟩
    by_cases stored : q ∈ stores (step bus u).log
    · exact after.same q stored
    obtain ⟨z, e, found, off, bound, rfl⟩ := mapped
    refine after.bytes z e e found found off bound (fun bad => ?_) fun bad => ?_
    · exact bad.elim outside stored
    · exact bad.elim (fun bad => bad.elim outside fun bad => stored (covered bad)) stored
  · exact absurd rfl differs

/-- A page fault can be handled only finitely often before an instruction is executed; then it
ends with the registers, flags, program counter, stack pointer and memory it would have if
every page had been mapped with sufficient permission from the start. The handler must not copy
what the instruction has stored already, and an instruction that reads the registers of the
last fault must not have faulted itself. -/
theorem restarts_agree (own : Set Int) :
    (WellFounded fun u' u => Again bus own u u') ∧
    ∀ s n t u old, Coherent s → Restarts bus own s n t u old ∅ → Settled (step bus u).result →
      (n ≠ 0 → Apart bus (own ∪ old) u ∧ Apart bus own t ∧ .report ∉ (step bus u).log) →
      (step bus u).result = (step bus t).result ∧
      (∀ r, (step bus u).result = .ok r → (step bus u).state.core = (step bus t).state.core) ∧
      { (step bus u).state.core with pc := 0 } = { (step bus t).state.core with pc := 0 } ∧
      (step bus u).state.space = (step bus t).state.space ∧
      ∀ q, Mapped u q → q ∉ own → (step bus u).state.mem.at? q = (step bus t).state.mem.at? q := by
  refine ⟨again_wellFounded bus own, fun s n t u old coherent restarts settled conditions => ?_⟩
  by_cases restarted : n = 0
  · subst restarted
    generalize (∅ : Set Int) = lost at restarts
    cases restarts
    exact ⟨rfl, fun _ _ => rfl, rfl, rfl, fun _ _ _ => rfl⟩
  · obtain ⟨apart, apart', quiet⟩ := conditions restarted
    obtain ⟨result, core, space, bytes⟩ :=
      restarts.same bus coherent rfl restarted settled apart apart' quiet
    obtain ⟨-, -, ended₁, pc₁, moved₁⟩ := step_checked bus u
    obtain ⟨-, -, ended₂, pc₂, moved₂⟩ := step_checked bus t
    refine ⟨result.symm, fun r ok => ?_, ?_, ?_, fun q mapped outside => ?_⟩
    · rw [ended₁ ⟨r, ok⟩, ended₂ ⟨r, result.trans ok⟩, core]
    · rw [moved₁, moved₂]
      dsimp only
      rw [core]
    · rw [moved₁, moved₂]
      exact space.symm
    · rw [moved₁, moved₂]
      exact (bytes q mapped outside).symm

/-! ## On a small machine -/

/-- The page directory of a small machine: the first page table follows it, and there is no
other. -/
structure OneTable (s : Cpu D) : Prop where
  ptbr : s.space.ptbr = 0x1000
  pages : 3 ≤ s.mem.pages
  low : s.mem.bytes 0x1000 = 0x07
  high : s.mem.bytes 0x1001 = 0x20
  rest : ∀ p, 0x1002 ≤ p → p < 0x2000 → s.mem.bytes p = 0

/-- What an entry of the table says. -/
def slot (pte : Option Word) : Option PageEntry :=
  match pte with
  | some pte => if present pte then some ⟨frameNumber pte, writable pte, userAccessible pte⟩ else none
  | none => none

theorem read32_nat {m : PhysicalMemory} {p : Nat} (inside : p + 4 ≤ m.pages * 4096) :
    m.read32 p = some (joined [some (m.bytes p), some (m.bytes (p + 1)), some (m.bytes (p + 2)),
      some (m.bytes (p + 3))]) := by
  have byte : ∀ i : Nat, i < 4 → m.at? ((p : Int) + i) = some (m.bytes (p + i)) := by
    intro i bound
    rw [PhysicalMemory.at?, PhysicalMemory.size, if_pos (by omega)]
    exact congrArg (fun q => some (m.bytes q)) (by omega)
  rw [PhysicalMemory.read32, PhysicalMemory.size, if_pos (by omega), PhysicalMemory.span]
  have spans : (List.range 4).map (fun i : Nat => m.at? ((p : Int) + i)) =
      (List.range 4).map fun i : Nat => some (m.bytes (p + i)) :=
    List.map_congr_left fun i member => byte i (List.mem_range.mp member)
  rw [spans]
  rfl

namespace OneTable

variable {s : Cpu D} (small : OneTable s)
include small

theorem directory {d : Nat} (bound : d < 1024) :
    s.mem.read32 (s.space.ptbr.toNat + (d : Int) * 4) = some (if d = 0 then 0x2007 else 0) := by
  have base : ((s.space.ptbr.toNat : Nat) : Int) + (d : Int) * 4 = ((0x1000 + d * 4 : Nat) : Int) := by
    rw [small.ptbr]
    push_cast
    rfl
  have pages := small.pages
  rw [base, read32_nat (by omega)]
  by_cases first : d = 0
  · subst first
    simp (disch := omega) only [small.low, small.high, small.rest]
    rfl
  · simp (disch := omega) only [small.rest, if_neg first]
    rfl

theorem page_eq (y : Nat) : s.page y =
    if y / 1024 % 1024 = 0 then slot (s.mem.read32 (((0x2000 + y % 1024 * 4 : Nat)) : Int))
    else none := by
  rw [Cpu.page, entry, walk, small.directory (Nat.mod_lt _ (by omega))]
  dsimp only
  by_cases first : y / 1024 % 1024 = 0
  · have frame : frameNumber 0x2007 * 4096 + ((y % 1024 : Nat) : Int) * 4 =
        (((0x2000 + y % 1024 * 4 : Nat)) : Int) := by
      rw [show frameNumber 0x2007 = 2 by decide]
      push_cast
      omega
    rw [if_pos first, if_pos first, frame]
    rcases s.mem.read32 (((0x2000 + y % 1024 * 4 : Nat)) : Int) with - | pte
    · rfl
    have there : present 8199#32 = true := by decide
    have opens : userAccessible 8199#32 = true := by decide
    rw [slot]
    cases listed : present pte <;> simp [listed, there, opens]
  · rw [if_neg first, if_neg first]
    rfl

theorem tables_between (member : q ∈ s.tables) : 0x1000 ≤ q ∧ q < 0x3000 := by
  obtain ⟨d, bound, ⟨low, high⟩ | ⟨pde, listed, there, low, high⟩⟩ := member
  · rw [small.ptbr] at low high
    change (0x1000 : Int) + d * 4 ≤ q at low
    change q < (0x1000 : Int) + d * 4 + 4 at high
    omega
  · rw [small.directory bound] at listed
    cases listed
    by_cases first : d = 0
    · rw [if_pos first, show frameNumber 0x2007 = 2 by decide] at low high
      omega
    · rw [if_neg first] at there
      cases there

end OneTable

theorem OneTable.congr {s : Cpu D} (small : OneTable s) (ptbr : t.space.ptbr = s.space.ptbr)
    (size : t.mem.size = s.mem.size) (bytes : ∀ p : Nat, p < 0x2000 → t.mem.at? p = s.mem.at? p) :
    OneTable t := by
  have pages : t.mem.pages = s.mem.pages := by
    rw [PhysicalMemory.size, PhysicalMemory.size] at size
    omega
  have enough := small.pages
  have same : ∀ p : Nat, p < 0x2000 → t.mem.bytes p = s.mem.bytes p := by
    intro p bound
    have both := bytes p bound
    rw [PhysicalMemory.at?, PhysicalMemory.at?, size, PhysicalMemory.size, if_pos (by omega),
      if_pos (by omega)] at both
    exact Option.some.inj both
  refine ⟨ptbr.trans small.ptbr, pages ▸ enough, ?_, ?_, fun p low high => ?_⟩
  · rw [same _ (by omega), small.low]
  · rw [same _ (by omega), small.high]
  · rw [same p high, small.rest p low high]

/-- What the handler of a small machine uses itself: the page table. -/
def tableBytes : Set Int := { q | 0x2000 ≤ q ∧ q < 0x3000 }

/-- A memory with one page mapped to a frame that has the contents of another one. -/
def remapped (z f g : Nat) (m : PhysicalMemory) : PhysicalMemory :=
  ⟨m.pages, fun p =>
    if p / 4 = 0x800 + z then (bytesOf 4 (BitVec.ofNat 32 (f * 4096 + 7))).getD (p % 4) 0
    else if p / 4096 = f then m.bytes (g * 4096 + p % 4096)
    else m.bytes p⟩

/-- The handler of a small machine. -/
def resolve (z f g : Nat) (s : Cpu D) : Cpu D :=
  { s with mem := remapped z f g s.mem, tlb := fun _ => none, fetch := none }

theorem coherent_empty {s : Cpu D} (tlb : s.tlb = fun _ => none) (fetch : s.fetch = none) :
    Coherent s := by
  refine ⟨fun a member => absurd member List.not_mem_nil, ?_, ?_⟩
  · intro i t held
    rw [tlb] at held
    cases held
  · intro page base held
    rw [fetch] at held
    cases held

/-- A small machine on which the handler can map a page: both frames are in the memory, and the
entry it writes says what it should. -/
structure Resolvable (z f g : Nat) (s : Cpu D) : Prop extends OneTable s where
  page : z < 1024
  frame : 3 ≤ f
  inside : f < s.mem.pages
  source : g < s.mem.pages
  listed : slot (some (joined ((bytesOf 4 (BitVec.ofNat 32 (f * 4096 + 7))).map some))) =
    some ⟨f, true, true⟩

section Resolve

variable {z f g : Nat} {s : Cpu D} (able : Resolvable z f g s)
include able

theorem resolve_byte {off : Nat} (bound : off < 4096) :
    (resolve z f g s).mem.at? ((f : Int) * 4096 + off) = s.mem.at? ((g : Int) * 4096 + off) := by
  obtain ⟨-, page, frame, inside, source, -⟩ := able
  have size : (resolve z f g s).mem.size = s.mem.size := rfl
  rw [PhysicalMemory.at?, PhysicalMemory.at?, size, PhysicalMemory.size, if_pos (by omega),
    if_pos (by omega)]
  refine congrArg some ?_
  change (if _ then _ else _) = _
  rw [if_neg (by omega), if_pos (by omega)]
  exact congrArg s.mem.bytes (by omega)

theorem resolve_kept (outside : q ∉ tableBytes) (other : g = f ∨ q / 4096 ≠ f) :
    (resolve z f g s).mem.at? q = s.mem.at? q := by
  have page := able.page
  have apart : ¬ (0x2000 ≤ q ∧ q < 0x3000) := outside
  have size : (resolve z f g s).mem.size = s.mem.size := rfl
  rw [PhysicalMemory.at?, PhysicalMemory.at?, size]
  split_ifs with inside
  · refine congrArg some ?_
    change (if _ then _ else _) = _
    rw [if_neg (by omega)]
    split_ifs with there
    · rcases other with rfl | other
      · exact congrArg s.mem.bytes (by omega)
      · omega
    · rfl
  · rfl

theorem resolve_small : OneTable (resolve z f g s) := by
  have frame := able.frame
  refine able.toOneTable.congr rfl rfl fun p bound => resolve_kept able ?_ (.inr (by omega))
  rintro ⟨low, -⟩
  omega

theorem resolve_page (y : Nat) :
    (resolve z f g s).page y = if y % 2 ^ 20 = z then some ⟨f, true, true⟩ else s.page y := by
  have resolved := resolve_small able
  obtain ⟨small, page, frame, -, -, listed⟩ := able
  have pages := small.pages
  have bytes : ∀ i < 4, ∀ k < 1024, (resolve z f g s).mem.bytes (0x2000 + k * 4 + i) =
      if k = z then (bytesOf 4 (BitVec.ofNat 32 (f * 4096 + 7))).getD i 0
      else s.mem.bytes (0x2000 + k * 4 + i) := by
    intro i bound k limit
    change (if _ then _ else _) = _
    by_cases here : k = z
    · rw [if_pos (by omega), if_pos here, show (0x2000 + k * 4 + i) % 4 = i by omega]
    · rw [if_neg (by omega), if_neg here, if_neg (by omega)]
  rw [resolved.page_eq, small.page_eq]
  by_cases first : y / 1024 % 1024 = 0
  · have size : (resolve z f g s).mem.pages = s.mem.pages := rfl
    rw [if_pos first, if_pos first, read32_nat (by rw [size]; omega), read32_nat (by omega),
      bytes 1 (by omega) _ (by omega), bytes 2 (by omega) _ (by omega),
      bytes 3 (by omega) _ (by omega)]
    have zero := bytes 0 (by omega) (y % 1024) (by omega)
    rw [Nat.add_zero] at zero
    rw [zero]
    by_cases here : y % 1024 = z
    · rw [if_pos here, if_pos here, if_pos here, if_pos here, if_pos (by omega), ← listed]
      rfl
    · rw [if_neg here, if_neg here, if_neg here, if_neg here, if_neg (by omega)]
  · rw [if_neg first, if_neg first, if_neg (by omega)]

end Resolve

theorem inside_frame {m : PhysicalMemory} (bound : n < m.pages) {w u : Bool} :
    Inside m.size ⟨n, w, u⟩ := by
  rw [Inside, PageEntry.frame, PhysicalMemory.size]
  dsimp only
  omega

/-- A page that waits for a frame: it is missing, or it is read-only and the new frame is free. -/
def Awaits (z f g : Nat) (s : Cpu D) : Prop :=
  (s.page z = none ∧ g = f) ∨
    (s.page z = some ⟨g, false, true⟩ ∧ 3 ≤ g ∧ ∀ y e, s.page y = some e → e.number ≠ f)

theorem Awaits.congr {z f g : Nat} {s : Cpu D} (awaits : Awaits z f g s)
    (table : ∀ y, t.page y = s.page y) : Awaits z f g t := by
  simpa only [Awaits, table] using awaits

/-- The handler of a small machine keeps what is mapped. -/
theorem Awaits.kept {z f g : Nat} {s : Cpu D} (awaits : Awaits z f g s) (able : Resolvable z f g s)
    (outside : q ∉ tableBytes) (mapped : Mapped s q) :
    (resolve z f g s).mem.at? q = s.mem.at? q := by
  refine resolve_kept able outside ?_
  obtain ⟨y, e, found, off, bound, rfl⟩ := mapped
  rcases awaits with ⟨-, same⟩ | ⟨-, -, free⟩
  · exact .inl same
  · refine .inr fun bad => free y e found ?_
    rw [PageEntry.frame] at bad
    omega

theorem resolve_handled {z f g : Nat} {s : Cpu D} (able : Resolvable z f g s)
    (paged : s.space.pagingEnabled = true) (awaits : Awaits z f g s) :
    Handled tableBytes z s (resolve z f g s) := by
  have table := resolve_page able
  have page := able.page
  have here : (resolve z f g s).page z = some ⟨f, true, true⟩ := by
    rw [table, if_pos (by omega)]
  refine ⟨rfl, rfl, paged, coherent_empty rfl rfl, rfl, fun y other => ?_,
    fun q => awaits.kept able, ?_⟩
  · rw [table, if_neg other]
  · rcases awaits with ⟨missing, -⟩ | ⟨original, high, -⟩
    · exact .mapped missing here
    refine .copied original here rfl rfl id ⟨inside_frame able.source, inside_frame able.inside⟩
      (fun off bound bad => ?_) fun off bound => resolve_byte able bound
    have bad' : (0x2000 : Int) ≤ (g : Int) * 4096 + off ∧ (g : Int) * 4096 + off < 0x3000 := bad
    omega

/-- The same on a machine with the same page table. -/
theorem resolve_premapped {z f g : Nat} {s : Cpu D} (able : Resolvable z f g s)
    (able' : Resolvable z f g t) (table : ∀ y, t.page y = s.page y) (awaits : Awaits z f g s)
    (contents : s.page z = none → ∀ q, t.mem.at? q = s.mem.at? q) :
    Premapped tableBytes z s (resolve z f g s) t (resolve z f g t) := by
  have pages := resolve_page able
  have page := able.page
  have here : (resolve z f g s).page z = some ⟨f, true, true⟩ := by
    rw [pages, if_pos (by omega)]
  refine ⟨rfl, rfl, coherent_empty rfl rfl, rfl, fun y => ?_,
    fun q => (awaits.congr table).kept able', fun e missing found off bound _ => ?_,
    fun e e' original found off bound => ?_⟩
  · rw [pages, resolve_page able', table]
  · obtain rfl : e = ⟨f, true, true⟩ := Option.some.inj (found.symm.trans here)
    rw [PageEntry.frame]
    dsimp only
    rw [resolve_byte able bound, resolve_byte able' bound, contents missing]
  · obtain rfl : e' = ⟨f, true, true⟩ := Option.some.inj (found.symm.trans here)
    rcases awaits with ⟨missing, -⟩ | ⟨readOnly, -⟩
    · rw [original] at missing
      cases missing
    obtain rfl : e = ⟨g, false, true⟩ := Option.some.inj (original.symm.trans readOnly)
    exact resolve_byte able' bound

/-- The loads of a log are between the tables and a bound, its stores are above. -/
def tidy (bound : Int) (log : List Event) : Bool :=
  log.all fun event =>
    match event with
    | .access a =>
      match a.result with
      | .ok p => if a.write then bound ≤ p else 0x3000 ≤ p && p + a.bytes ≤ bound
      | .error _ => true
    | _ => true

theorem tidy_access (ordered : tidy bound log = true) {a : Access} {p : Int}
    (member : .access a ∈ log) (found : a.result = .ok p) :
    if a.write then bound ≤ p else 0x3000 ≤ p ∧ p + a.bytes ≤ bound := by
  have checked := List.all_eq_true.mp ordered _ member
  simp only [found] at checked
  split_ifs at checked ⊢
  · exact of_decide_eq_true checked
  · simpa using checked

theorem tidy_stores (ordered : tidy bound log = true) : ∀ q ∈ stores log, bound ≤ q := by
  rintro q ⟨a, p, member, write, found, low, -⟩
  have checked := tidy_access ordered member found
  rw [if_pos write] at checked
  omega

theorem tidy_apart {bus : PortBus D} (bound : Int) (old : Set Int) (small : OneTable u)
    (ordered : tidy bound (step bus u).log = true) (high : 0x3000 ≤ bound)
    (earlier : ∀ q ∈ old, bound ≤ q) : Apart bus (tableBytes ∪ old) u := by
  refine ⟨fun a p member write found i limit => ?_, fun q member bad => ?_⟩
  · have checked := tidy_access ordered member found
    rw [if_neg (by simp [write])] at checked
    rintro ((bad | bad) | bad)
    · have bad' : (0x2000 : Int) ≤ p + i ∧ p + (i : Int) < 0x3000 := bad
      omega
    · have := earlier _ bad
      omega
    · have := tidy_stores ordered _ bad
      omega
  · have := tidy_stores ordered q member
    have := small.tables_between bad
    omega

/-- Nothing has been stored before. -/
theorem tidy_alone {bus : PortBus D} (bound : Int) (small : OneTable u)
    (ordered : tidy bound (step bus u).log = true) (high : 0x3000 ≤ bound) :
    Apart bus (tableBytes ∪ ∅) u ∧ Apart bus tableBytes u := by
  have apart : Apart bus (tableBytes ∪ ∅) u :=
    tidy_apart bound ∅ small ordered high fun q bad => absurd bad (Set.notMem_empty q)
  refine ⟨apart, ?_⟩
  rwa [Set.union_empty] at apart

theorem interrupted_able {bus : PortBus D} {s : Cpu D} {z f g : Nat} (able : Resolvable z f g s)
    (faulted : (step bus s).result = .error (.pageFault e))
    (ordered : tidy bound (step bus s).log = true) (high : 0x3000 ≤ bound) :
    Resolvable z f g (interrupted bus s e) := by
  obtain ⟨-, space, size, -, bytes⟩ := interrupted_held bus faulted
    (tidy_alone bound able.toOneTable ordered high).1.tables
  have small : OneTable (interrupted bus s e) := by
    refine able.toOneTable.congr (by rw [space]) size fun p limit => bytes p fun bad => ?_
    have := tidy_stores ordered _ bad
    omega
  have pages : (interrupted bus s e).mem.pages = s.mem.pages := by
    rw [PhysicalMemory.size, PhysicalMemory.size] at size
    omega
  exact ⟨small, able.page, able.frame, pages ▸ able.inside, pages ▸ able.source, able.listed⟩

theorem quiet_of_check (silent : (log.all fun | .report => false | _ => true) = true) :
    .report ∉ log := fun member => by
  cases List.all_eq_true.mp silent _ member

/-- One restart on a small machine. -/
theorem resolve_restarts {bus : PortBus D} {s : Cpu D} {f g : Nat}
    (faulted : (step bus s).result = .error (.pageFault e))
    (able : Resolvable (pageNumber e.vaddr) f g s) (paged : s.space.pagingEnabled = true)
    (ordered : tidy bound (step bus s).log = true) (high : 0x3000 ≤ bound)
    (awaits : Awaits (pageNumber e.vaddr) f g s)
    (unstored : s.page (pageNumber e.vaddr) = none → stores (step bus s).log = ∅) :
    Restarts bus tableBytes s 1 (resolve (pageNumber e.vaddr) f g s)
      (resolve (pageNumber e.vaddr) f g (interrupted bus s e)) (∅ ∪ stores (step bus s).log)
      (∅ ∪ carried (∅ ∪ stores (step bus s).log) (pageNumber e.vaddr) (interrupted bus s e)
        (resolve (pageNumber e.vaddr) f g (interrupted bus s e))) := by
  obtain ⟨apart, -⟩ := tidy_alone bound able.toOneTable ordered high
  obtain ⟨-, space, -, table, bytes⟩ := interrupted_held bus faulted apart.tables
  have able' := interrupted_able able faulted ordered high
  refine .again .start faulted apart
    (resolve_handled able' (space ▸ paged) (awaits.congr table))
    (resolve_premapped able' able (fun y => (table y).symm) (awaits.congr table) fun missing q => ?_)
  rw [table] at missing
  refine (bytes q ?_).symm
  rw [unstored missing]
  exact Set.notMem_empty q

theorem oneTable_small {mode : Mode} {pages : Nat} {bytes : Nat → Byte} {pc : Int}
    (enough : 3 ≤ pages) (zero : ∀ p, 0x1002 ≤ p → p < 0x2000 → bytes p = 0) :
    OneTable (smallCpu mode (smallMemory pages bytes) pc) := by
  refine ⟨rfl, enough, rfl, rfl, fun p low high => ?_⟩
  change (if _ then _ else _) = _
  simp (disch := omega) only [if_neg, zero p low high]

/-- An instruction whose operand is on a second page, which is missing; its frame is there. -/
def crossing (opcode : Byte) : Cpu Unit :=
  smallCpu .kernel (smallMemory 5 fun p => if p = 0x3fff then opcode else 0) 0xfff

/-- The fault of its operand. -/
def operandFault : PageFault := ⟨0x1000, false, false, false⟩

theorem crossing_able (opcode : Byte) : Resolvable 1 4 4 (crossing opcode) :=
  ⟨oneTable_small (by omega) fun p low high => if_neg (by omega), by omega, by omega,
    show 4 < 5 by omega, show 4 < 5 by omega, by decide⟩

/-- A log without stores. -/
theorem stores_eq_empty (loads : (log.all fun | .access a => !a.write | _ => true) = true) :
    stores log = ∅ := by
  refine Set.eq_empty_of_forall_notMem ?_
  rintro q ⟨a, p, member, write, -⟩
  have checked := List.all_eq_true.mp loads _ member
  simp [write] at checked

/-- The machine that has mapped the page, and the one that is restarted. -/
theorem crossing_restarts {opcode : Byte} {u : Cpu Unit}
    (handled : resolve 1 4 4 (interrupted emptyBus (crossing opcode) operandFault) = u)
    (faulted : (step emptyBus (crossing opcode)).result = .error (.pageFault operandFault))
    (missing : (crossing opcode).page 1 = none)
    (loads : ((step emptyBus (crossing opcode)).log.all fun
      | .access a => !a.write
      | _ => true) = true)
    (first : tidy 0x5000 (step emptyBus (crossing opcode)).log = true)
    (second : tidy 0x5000 (step emptyBus u).log = true)
    (never : tidy 0x5000 (step emptyBus (resolve 1 4 4 (crossing opcode))).log = true) :
    Restarts emptyBus tableBytes (crossing opcode) 1 (resolve 1 4 4 (crossing opcode)) u ∅ ∅ ∧
      Apart emptyBus (tableBytes ∪ ∅) u ∧
      Apart emptyBus tableBytes (resolve 1 4 4 (crossing opcode)) := by
  subst handled
  have able := crossing_able opcode
  have able' := interrupted_able able faulted first (by omega)
  have unstored := stores_eq_empty loads
  have restarts := resolve_restarts faulted able rfl first (by omega) (.inl ⟨missing, rfl⟩)
    fun _ => unstored
  have clean (before after : Cpu Unit) : carried ∅ (pageNumber operandFault.vaddr) before after = ∅ :=
    Set.eq_empty_of_forall_notMem fun q bad => bad.1
  rw [unstored, Set.union_empty, Set.empty_union, clean] at restarts
  exact ⟨restarts, (tidy_alone 0x5000 (resolve_small able') second (by omega)).1,
    (tidy_alone 0x5000 (resolve_small able) never (by omega)).2⟩

/-- `INC` with its operand on a missing page: the restart ends as on the machine that has the
page. -/
theorem restarts_agree_increment :
    (step emptyBus (crossing 0x1b)).result = .error (.pageFault operandFault) ∧
    (step emptyBus (resolve 1 4 4 (interrupted emptyBus (crossing 0x1b) operandFault))).state.core =
      (step emptyBus (resolve 1 4 4 (crossing 0x1b))).state.core := by
  have faulted : (step emptyBus (crossing 0x1b)).result = .error (.pageFault operandFault) := by
    decide +kernel
  obtain ⟨restarts, apart, apart'⟩ := crossing_restarts rfl faulted (by decide +kernel)
    (by decide +kernel) (by decide +kernel) (by decide +kernel) (by decide +kernel)
  have returned : (step emptyBus (resolve 1 4 4
      (interrupted emptyBus (crossing 0x1b) operandFault))).result = .ok none := by decide +kernel
  exact ⟨faulted, ((restarts_agree emptyBus tableBytes).2 _ 1 _ _ ∅ (coherent_empty rfl rfl)
    restarts (.inl ⟨none, returned⟩) fun _ => ⟨apart, apart', quiet_of_check (by decide +kernel)⟩).2.1
    none returned⟩

/-- A word stored across two pages that map the same frame, the second one read-only. -/
def doubled : Cpu Unit :=
  let s := smallCpu .kernel (smallMemory 7 fun p =>
    if p = 0x2004 then 0x07 else if p = 0x2005 then 0x50 else if p = 0x2008 then 0x05
    else if p = 0x2009 then 0x50 else if p = 0x3000 then 0x06 else if p = 0x3001 then 1
    else if p = 0x3002 then 2 else 0) 0
  { s with core := { s.core with regs := fun i => if i = 1 then 0x1ffe else 0xffffffff } }

/-- The fault of its third byte. -/
def storeFault : PageFault := ⟨0x2000, true, false, true⟩

theorem doubled_able : Resolvable 2 6 5 doubled := by
  have small : OneTable (smallCpu .kernel doubled.mem 0) :=
    oneTable_small (by omega) fun p low high => by simp (disch := omega) only [if_neg]
  exact ⟨⟨small.ptbr, small.pages, small.low, small.high, small.rest⟩, by omega, by omega,
    show 6 < 7 by omega, show 5 < 7 by omega, by decide⟩

/-- Its pages are in two frames. -/
theorem doubled_free (y : Nat) (e : PageEntry) (found : doubled.page y = some e) :
    e.number ≠ 6 := by
  have zero : ∀ p, 0x200a ≤ p → p < 0x3000 → doubled.mem.bytes p = 0 := by
    intro p low high
    change (if _ then _ else _) = _
    simp (disch := omega) only [if_neg]
  have pages : doubled.mem.pages = 7 := rfl
  have listed : ∀ i < 3, (slot (doubled.mem.read32 ((0x2000 + i * 4 : Nat) : Int))).map
      PageEntry.number ≠ some 6 := by decide +kernel
  rw [doubled_able.page_eq] at found
  split_ifs at found
  by_cases early : y % 1024 < 3
  · have other := listed _ early
    rw [found] at other
    exact fun same => other (congrArg some same)
  · rw [read32_nat (by rw [pages]; omega)] at found
    simp (disch := omega) only [zero] at found
    cases found

/-- The registers of the last fault, and a copy of what has been stored already, differ from
what the machine has that never faults. -/
theorem restarts_differ :
    (∃ s t u : Cpu Unit, Coherent s ∧ Restarts emptyBus tableBytes s 1 t u ∅ ∅ ∧
      (step emptyBus u).result = .ok none ∧ Apart emptyBus (tableBytes ∪ ∅) u ∧
      Apart emptyBus tableBytes t ∧
      (step emptyBus u).state.core.regs 0 ≠ (step emptyBus t).state.core.regs 0) ∧
    ∃ s t u : Cpu Unit, ∃ old lost, Coherent s ∧ Restarts emptyBus tableBytes s 1 t u old lost ∧
      (step emptyBus u).result = .ok none ∧ Apart emptyBus (tableBytes ∪ old) u ∧
      Apart emptyBus tableBytes t ∧ .report ∉ (step emptyBus u).log ∧
      ∃ q, Mapped u q ∧ q ∉ tableBytes ∧
        (step emptyBus u).state.mem.at? q ≠ (step emptyBus t).state.mem.at? q := by
  constructor
  · obtain ⟨restarts, apart, apart'⟩ := @crossing_restarts 0x48 _ rfl (by decide +kernel)
      (by decide +kernel) (by decide +kernel) (by decide +kernel) (by decide +kernel)
      (by decide +kernel)
    exact ⟨_, _, _, coherent_empty rfl rfl, restarts, by decide +kernel, apart, apart',
      by decide +kernel⟩
  · have faulted : (step emptyBus doubled).result = .error (.pageFault storeFault) := by
      decide +kernel
    have ordered : tidy 0x4000 (step emptyBus doubled).log = true := by decide +kernel
    have able' := interrupted_able doubled_able faulted ordered (by omega)
    have original : doubled.page 2 = some ⟨5, false, true⟩ := by decide +kernel
    refine ⟨doubled, _, _, _, _, coherent_empty rfl rfl,
      resolve_restarts faulted doubled_able rfl ordered (by omega)
        (.inr ⟨original, by omega, doubled_free⟩) (fun missing => ?_), by decide +kernel, ?_, ?_,
      quiet_of_check (by decide +kernel), 0x6ffe, ?_, by simp [tableBytes], by decide +kernel⟩
    · cases original.symm.trans missing
    · refine tidy_apart 0x4000 _ (resolve_small able') (by decide +kernel) (by omega) fun q bad => ?_
      rw [Set.empty_union] at bad
      exact tidy_stores ordered q bad
    · exact (tidy_alone 0x4000 (resolve_small doubled_able) (by decide +kernel) (by omega)).2
    · exact ⟨2, ⟨6, true, true⟩, by decide +kernel, 0xffe, by omega, by decide⟩

end JsEmulator.Custom32
