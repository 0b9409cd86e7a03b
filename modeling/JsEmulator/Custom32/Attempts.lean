import JsEmulator.Custom32.Lockstep

/-!
# One attempt at an instruction

`step` on two machines in step, what it leaves when it ends in a page fault, and what it does to
the bytes it does not store to. No instruction changes a register before its last access, so a
page fault finds the registers as they were but for the program counter and the stack pointer.
A store outside of the page tables does not change a translation.
-/

namespace JsEmulator.Custom32

open JsEmulator.Library JsEmulator.Library.Logged

variable {D α β : Type} {g : Setting} (bus : PortBus D)
variable {m : CpuM D α} {f : α → CpuM D β} {s : Cpu D} {trap : Trap} {stored : Set Int}
variable {m' : PhysicalMemory}

/-! ## The instruction on two machines -/

/-- `step` without its fast path. -/
def checkedStep : CpuM D (Option Stop) := decodeWith fetch8 fetch32 >>= complete bus

theorem step_checked (s : Cpu D) :
    (step bus s).result = (checkedStep bus s).result ∧
      (step bus s).log = (checkedStep bus s).log ∧
      ((∃ r, (step bus s).result = .ok r) → (step bus s).state = (checkedStep bus s).state) ∧
      ∃ pc, (step bus s).state = { (checkedStep bus s).state with
        core := { (checkedStep bus s).state.core with pc := pc } } := by
  obtain ⟨result, log, state, pc, moved⟩ := decode_checked s
  rcases returned : (decode s).result with trap | decoded
  · rw [step, checkedStep, bind_error returned, bind_error (result ▸ returned)]
    refine ⟨rfl, log, fun ok => ?_, pc, moved⟩
    obtain ⟨r, impossible⟩ := ok
    cases impossible
  · rw [step, checkedStep, bind_ok returned, bind_ok (result ▸ returned), log,
      state ⟨decoded, returned⟩]
    exact ⟨rfl, rfl, fun _ => rfl, _, rfl⟩

theorem followsTo_of_follows (follows : Follows g m) : FollowsTo g (Match g) m := by
  intro stored s t within₁ within₂ link fine₁ fine₂ quiet settled
  rcases follows stored s t within₁ within₂ link fine₁ fine₂ quiet settled with
    ⟨result, sameStores, after⟩ | short
  · exact .inl ⟨result, sameStores, after.toMatch⟩
  · exact .inr short

/-- The instructions that change the address space do so at their end. -/
theorem followsTo_switch {m : CpuM D Unit} (log : ∀ s, stores (m s).log = ∅)
    (agrees : ∀ s t : Cpu D, s.core = t.core → s.space = t.space →
      (m s).result = (m t).result ∧ (m s).state.core = (m t).state.core ∧
        (m s).state.space = (m t).state.space)
    (mem : ∀ s, (m s).state.mem = s.mem) : FollowsTo g (Match g) m := by
  intro stored s t _ _ link _ _ _ _
  obtain ⟨result, core, space⟩ := agrees s t link.core link.space
  refine .inl ⟨result, by rw [log, log], core, space, ?_, ?_⟩
  · rw [log, Set.union_empty, mem, mem]
    exact link.bytes
  · rw [log, Set.union_empty, mem, mem]
    exact link.same

theorem followsTo_exec (m : Mnemonic) (a b : Word) : FollowsTo g (Match g) (exec bus m a b) := by
  by_cases switches : m.switches = true
  · have change : ∀ f, FollowsTo g (Match g) (setSpace f : CpuM D Unit) := fun f =>
      followsTo_switch (fun s => by simp [setSpace, flushTlb, stores])
        (fun s t core space => ⟨rfl, core, by simp only [setSpace, flushTlb, space]⟩) fun _ => rfl
    cases m with
    | lptbr => exact followsTo_bind (fun _ _ _ link => link.toMatch) (follows_core _) fun x => change _
    | pgon => exact change _
    | pgoff => exact change _
    | iret =>
      refine followsTo_bind (fun _ _ _ link => link.toMatch) rules_follows.quiet.popFrame fun frame => ?_
      exact followsTo_switch (fun _ => stores_nil)
        (fun s t core space => ⟨rfl, by simp only [returnTo, Logged.update, core],
          by simp only [returnTo, Logged.update, space]⟩) fun _ => rfl
    | _ => cases switches
  · exact followsTo_of_follows (rules_follows.exec m a b (by simpa using switches))

theorem Settled.of_map {r : Except Trap α} {f : α → β} (settled : Settled (r.map f)) :
    Settled r := by
  rcases r with trap | a
  · obtain ⟨x, impossible⟩ | ⟨kind, same⟩ := settled
    · cases impossible
    · cases same
      exact .inr ⟨kind, rfl⟩
  · exact .inl ⟨a, rfl⟩

/-- What follows to matching states still does with a result appended. -/
theorem followsTo_then {m : CpuM D Unit} (follows : FollowsTo g (Match g) m) (x : α) :
    FollowsTo g (Match g) (m >>= fun _ => pure x) := by
  intro stored s t within₁ within₂ link
  rw [bind_pure_apply, bind_pure_apply]
  intro fine₁ fine₂ quiet settled
  rcases follows stored s t within₁ within₂ link fine₁ fine₂ quiet settled.of_map with
    ⟨result, sameStores, after⟩ | ⟨⟨trap, stopped⟩, part, differs⟩
  · exact .inl ⟨by rw [result], sameStores, after⟩
  · exact .inr ⟨⟨trap, by rw [stopped]; rfl⟩, part, differs⟩

theorem followsTo_checkedStep : FollowsTo g (Match g) (checkedStep bus) :=
  followsTo_bind (fun _ _ _ link => link.toMatch) rules_follows.quiet.decodeWith fun decoded =>
    followsTo_then (followsTo_exec bus decoded.1 _ _) _

/-! ## What is left as it was -/

/-- Memories that agree but for some bytes. -/
def Agree (stored : Set Int) (m m' : PhysicalMemory) : Prop :=
  m'.size = m.size ∧ ∀ q, q ∉ stored → m'.at? q = m.at? q

theorem Agree.refl (stored : Set Int) (m : PhysicalMemory) : Agree stored m m :=
  ⟨rfl, fun _ _ => rfl⟩

theorem Agree.mono {stored' : Set Int} {m : PhysicalMemory} (agree : Agree stored m m')
    (more : stored ⊆ stored') : Agree stored' m m' :=
  ⟨agree.1, fun q outside => agree.2 q fun bad => outside (more bad)⟩

theorem Agree.trans {m m'' : PhysicalMemory} (first : Agree stored m m')
    (second : Agree stored m' m'') : Agree stored m m'' :=
  ⟨second.1.trans first.1, fun q outside => (second.2 q outside).trans (first.2 q outside)⟩

/-- A computation stays in its address space, and every memory it goes through agrees with the
first one but for what is stored to. -/
structure Left (s : Cpu D) (o : Outcome Trap (Cpu D) Event α) : Prop where
  space : o.state.space = s.space
  memory : Agree (stores o.log) s.mem o.state.mem
  changes : ∀ c, .change c ∈ o.log → c.space = s.space ∧
    Agree (stores o.log) s.mem c.before ∧ Agree (stores o.log) s.mem c.after

theorem Left.trans {a : α} (first : Left s (m s)) (returned : (m s).result = .ok a)
    (second : Left (m s).state (f a (m s).state)) :
    Left s ((m >>= f) s) := by
  rw [bind_ok returned]
  have here : Agree (stores ((m s).log ++ (f a (m s).state).log)) s.mem (m s).state.mem :=
    first.memory.mono (by rw [stores_append]; exact Set.subset_union_left)
  have part : stores (f a (m s).state).log ⊆ stores ((m s).log ++ (f a (m s).state).log) := by
    rw [stores_append]
    exact Set.subset_union_right
  refine ⟨second.space.trans first.space, here.trans (second.memory.mono part), fun c member => ?_⟩
  rcases List.mem_append.mp member with member | member
  · obtain ⟨space, before, after⟩ := first.changes c member
    have part : stores (m s).log ⊆ stores ((m s).log ++ (f a (m s).state).log) := by
      rw [stores_append]
      exact Set.subset_union_left
    exact ⟨space, before.mono part, after.mono part⟩
  · obtain ⟨space, before, after⟩ := second.changes c member
    exact ⟨space.trans first.space, here.trans (before.mono part), here.trans (after.mono part)⟩

theorem Left.stopped (first : Left s (m s)) (thrown : (m s).result = .error trap) : Left s ((m >>= f) s) := by
  rw [bind_error thrown]
  exact ⟨first.space, first.memory, first.changes⟩

theorem left_bind (first : ∀ s, Left s (m s)) (next : ∀ a s, Left s (f a s)) (s : Cpu D) :
    Left s ((m >>= f) s) := by
  rcases returned : (m s).result with trap | a
  · exact (first s).stopped returned
  · exact (first s).trans returned (next a _)

theorem left_quiet {o : Outcome Trap (Cpu D) Event α} (space : o.state.space = s.space)
    (mem : o.state.mem = s.mem) (log : ∀ c, .change c ∉ o.log) : Left s o :=
  ⟨space, mem ▸ .refl _ _, fun c member => absurd member (log c)⟩

theorem Looks.left (looks : Looks m) (s : Cpu D) : Left s (m s) := by
  obtain ⟨log, space, mem, -⟩ := looks s
  refine left_quiet space mem fun c member => ?_
  obtain ⟨a, impossible, -⟩ := log _ member
  cases impossible

/-- A store that is done, and one that is not. -/
theorem store_spec (v : Int) (items : List Byte) (s : Cpu D) : ∃ pfla tlb,
    (∃ trap walked, store v items s = ⟨.error trap, { s with pfla := pfla, tlb := tlb },
      [.access ⟨s.space, s.mem, v, items.length, true, walked⟩]⟩) ∨
    ∃ p, store v items s = ⟨.ok (), { s with pfla := pfla, tlb := tlb, mem := s.mem.putAll p items },
      [.access ⟨s.space, s.mem, v, items.length, true, .ok p⟩,
        .change ⟨s.space, s.mem, s.mem.putAll p items⟩]⟩ := by
  obtain ⟨log, pfla, tlb, state⟩ := xlateN_spec v items.length true s
  refine ⟨pfla, tlb, ?_⟩
  rcases returned : (xlateN v items.length true s).result with trap | p
  · rw [store, bind_error returned, log, state]
    exact .inl ⟨trap, _, rfl⟩
  rw [store, bind_ok returned, log, returned, state, writeSpan]
  split_ifs
  · exact .inl ⟨.rangeError, _, rfl⟩
  · exact .inr ⟨p, rfl⟩

theorem agree_putAll (m : PhysicalMemory) (p : Int) (items : List Byte) :
    Agree { q | p ≤ q ∧ q < p + items.length } m (m.putAll p items) := by
  refine ⟨PhysicalMemory.putAll_size _ _ _, fun q outside => ?_⟩
  refine PhysicalMemory.at?_putAll_outside _ ?_
  have apart : ¬ (p ≤ q ∧ q < p + items.length) := outside
  omega

theorem left_store (v : Int) (items : List Byte) (s : Cpu D) :
    Left s (store v items s) ∧ (store v items s).state.core = s.core := by
  obtain ⟨pfla, tlb, ⟨trap, walked, ended⟩ | ⟨p, ended⟩⟩ := store_spec v items s
  · rw [ended]
    exact ⟨left_quiet rfl rfl (by simp), rfl⟩
  rw [ended]
  have stored := agree_putAll s.mem p items
  refine ⟨⟨rfl, ?_, fun c member => ?_⟩, rfl⟩
  · rw [stores_store]
    exact stored
  · obtain rfl : c = ⟨s.space, s.mem, s.mem.putAll p items⟩ := by simpa using member
    rw [stores_store]
    exact ⟨rfl, .refl _ _, stored⟩

/-- Every operation of an instruction leaves what it does not store to. -/
theorem rules_left : Rules (fun {_} m => ∀ s, Left s ((m : CpuM D _) s)) where
  pure x := (looks_pure x).left
  bind first next := left_bind first next
  raise trap := (looks_raise trap).left
  core f := fun s => left_quiet rfl rfl (by simp [onCore, Logged.update])
  lines f := fun s => left_quiet rfl rfl (by simp [onLines, Logged.update])
  mode := fun s => left_quiet rfl rfl (by simp [Logged.update])
  fetch8 := codeReads_looks.fetch8.left
  fetch32 := codeReads_looks.fetch32.left
  rdN n v := (codeReads_looks.rdN n v).left
  wrN := Sequences.wrN (C := fun {_} m => ∀ s, Left s (m s))
    ⟨fun x => (looks_pure x).left, left_bind, fun trap => (looks_raise trap).left⟩
    fun v items s => (left_store v items s).1
  pfla := fun s => left_quiet rfl rfl (by simp [report])
  errorCode := fun s => left_quiet rfl rfl (by simp [report])

/-- The bytes that a walk of the page tables may read. -/
def Cpu.tables (s : Cpu D) : Set Int :=
  { q | ∃ d : Nat, d < 1024 ∧ (s.space.ptbr.toNat + (d : Int) * 4 ≤ q ∧
      q < s.space.ptbr.toNat + (d : Int) * 4 + 4 ∨
    ∃ pde, s.mem.read32 (s.space.ptbr.toNat + (d : Int) * 4) = some pde ∧ present pde = true ∧
      frameNumber pde * 4096 ≤ q ∧ q < frameNumber pde * 4096 + 4096) }

theorem Agree.read32 {m : PhysicalMemory} (agree : Agree stored m m') {p : Int}
    (outside : ∀ i : Nat, i < 4 → p + i ∉ stored) : m'.read32 p = m.read32 p := by
  rw [PhysicalMemory.read32, PhysicalMemory.read32, agree.1]
  have spans : m'.span p 4 = m.span p 4 :=
    List.map_congr_left fun (i : Nat) member => agree.2 _ (outside i (List.mem_range.mp member))
  rw [spans]

/-- Memories that agree on the page tables have the same translations. -/
theorem Agree.walk {m : PhysicalMemory} (agree : Agree stored s.mem m)
    (outside : ∀ q ∈ stored, q ∉ s.tables) (page : Nat) (write user : Bool) :
    walk m s.space.ptbr page write user = walk s.mem s.space.ptbr page write user := by
  have directory : m.read32 (s.space.ptbr.toNat + (page / 1024 % 1024 : Nat) * 4) =
      s.mem.read32 (s.space.ptbr.toNat + (page / 1024 % 1024 : Nat) * 4) :=
    agree.read32 fun i bound bad => outside _ bad ⟨page / 1024 % 1024, by omega, .inl (by omega)⟩
  rw [Custom32.walk, Custom32.walk, directory]
  rcases listed : s.mem.read32 (s.space.ptbr.toNat + (page / 1024 % 1024 : Nat) * 4) with - | pde
  · rfl
  dsimp only
  by_cases there : present pde = true
  · have table : m.read32 (frameNumber pde * 4096 + (page % 1024 : Nat) * 4) =
        s.mem.read32 (frameNumber pde * 4096 + (page % 1024 : Nat) * 4) :=
      agree.read32 fun i bound bad => outside _ bad
        ⟨page / 1024 % 1024, by omega, .inr ⟨pde, listed, there, by omega, by omega⟩⟩
    rw [table]
  · rw [if_pos (by simpa using there), if_pos (by simpa using there)]

/-! ## What a fault leaves -/

/-- No register has changed, and no byte but those stored to. -/
structure Held (s : Cpu D) (o : Outcome Trap (Cpu D) Event α) : Prop extends Left s o where
  core : o.state.core = s.core

/-- A computation that changes nothing else. -/
def Gentle (m : CpuM D α) : Prop := ∀ s, Held s (m s)

/-- A computation that changes nothing else if it throws. -/
def Careful (m : CpuM D α) : Prop := ∀ s trap, (m s).result = .error trap → Held s (m s)

/-- A computation that does not throw. -/
def Silent (m : CpuM D α) : Prop := ∀ s trap, (m s).result ≠ .error trap

theorem Held.trans {a : α} (first : Held s (m s)) (returned : (m s).result = .ok a)
    (second : Held (m s).state (f a (m s).state)) :
    Held s ((m >>= f) s) := by
  refine ⟨first.toLeft.trans returned second.toLeft, ?_⟩
  rw [bind_ok returned]
  exact second.core.trans first.core

theorem Held.stopped (first : Held s (m s)) (thrown : (m s).result = .error trap) : Held s ((m >>= f) s) := by
  refine ⟨first.toLeft.stopped thrown, ?_⟩
  rw [bind_error thrown]
  exact first.core

theorem gentle_bind (first : Gentle m) (next : ∀ a, Gentle (f a)) : Gentle (m >>= f) := by
  intro s
  rcases returned : (m s).result with trap | a
  · exact (first s).stopped returned
  · exact (first s).trans returned (next a _)

theorem careful_bind (first : Gentle m) (next : ∀ a, Careful (f a)) : Careful (m >>= f) := by
  intro s trap thrown
  rcases bind_thrown thrown with stopped | ⟨a, returned, thrown⟩
  · exact (first s).stopped stopped
  · exact (first s).trans returned (next a _ trap thrown)

theorem careful_then (first : Careful m) (next : ∀ a, Silent (f a)) : Careful (m >>= f) := by
  intro s trap thrown
  rcases bind_thrown thrown with stopped | ⟨a, -, thrown⟩
  · exact (first s trap stopped).stopped stopped
  · exact absurd thrown (next a _ trap)

theorem Gentle.careful (gentle : Gentle m) : Careful m := fun s _ _ => gentle s

theorem Silent.careful (silent : Silent m) : Careful m :=
  fun s trap thrown => absurd thrown (silent s trap)

theorem silent_bind (first : Silent m) (next : ∀ a, Silent (f a)) : Silent (m >>= f) := by
  intro s trap thrown
  rcases bind_thrown thrown with stopped | ⟨a, -, thrown⟩
  · exact first s trap stopped
  · exact next a _ trap thrown

theorem silent_core (f : Core D → α × Core D) : Silent (onCore f) := fun _ _ impossible => by
  cases impossible

theorem gentle_core (f : Core D → α) : Gentle (onCore fun c => (f c, c)) := fun _ =>
  ⟨left_quiet rfl rfl (by simp [onCore, Logged.update]), rfl⟩

theorem gentle_pure (x : α) : Gentle (pure x : CpuM D α) := fun s => ⟨(looks_pure x).left s, rfl⟩

theorem gentle_raise (trap : Trap) : Gentle (raise trap : CpuM D α) := fun s =>
  ⟨(looks_raise trap).left s, rfl⟩

theorem careful_divide (f : Word → Word → Word) (a b : Word) :
    Careful (divide f a b : CpuM D Unit) := by
  refine careful_bind (gentle_core _) fun divisor => ?_
  split_ifs
  · exact (gentle_raise _).careful
  · exact (silent_core _).careful

theorem careful_readPort (port : Word) : Careful (readPort bus port) := by
  intro s trap thrown
  rcases answer : bus.read s.core.dev port with - | ⟨x, dev, raised, off⟩
  · have ended : readPort bus port s = ⟨.error .portError, s, []⟩ := by
      simp [readPort, onCore, Logged.update, bind, answer, raise]
    rw [ended]
    exact ⟨left_quiet rfl rfl (by simp), rfl⟩
  · simp [readPort, onCore, Logged.update, bind, answer, signalled, onLines, pure] at thrown

theorem careful_writePort (port x : Word) : Careful (writePort bus port x) := by
  intro s trap thrown
  rcases answer : bus.write s.core.dev port x with - | ⟨dev, raised, off⟩
  · have ended : writePort bus port x s = ⟨.error .portError, s, []⟩ := by
      simp [writePort, onCore, Logged.update, bind, answer, raise]
    rw [ended]
    exact ⟨left_quiet rfl rfl (by simp), rfl⟩
  · simp [writePort, onCore, Logged.update, bind, answer, signalled, onLines] at thrown

theorem gentle_load (n : Nat) (v : Int) : Gentle (load n v : CpuM D (List (Option Byte))) := by
  intro s
  refine ⟨(looks_load n v).left s, ?_⟩
  obtain ⟨-, pfla, tlb, state⟩ := xlateN_spec v n false s
  rcases returned : (xlateN v n false s).result with trap | p
  · rw [load, bind_error returned, state]
  · rw [load, bind_ok returned, state, readSpan]
    split_ifs <;> rfl

theorem sequences_gentle : Sequences (fun {_} m => Gentle (m : CpuM D _)) :=
  ⟨gentle_pure, gentle_bind, gentle_raise⟩

theorem loads_gentle : Loads (fun {_} m => Gentle (m : CpuM D _)) :=
  ⟨sequences_gentle, sequences_gentle.rdN gentle_load⟩

theorem gentle_wrN : ∀ n v x, Gentle (wrN n v x : CpuM D Unit) :=
  sequences_gentle.wrN fun v items s => ⟨(left_store v items s).1, (left_store v items s).2⟩

theorem careful_pop : Careful (pop : CpuM D Word) :=
  careful_bind (gentle_core _) fun sp => careful_bind (loads_gentle.rd32 sp) fun _ =>
    (silent_core _).careful

/-- A push moves the stack pointer first. -/
theorem push_moved (x : Word) (s : Cpu D) : Left s (push x s) ∧
    (push x s).state.core = { s.core with sp := s.core.sp - 4 } := by
  have stored := gentle_wrN 4 (s.core.sp - 4) x { s with core := { s.core with sp := s.core.sp - 4 } }
  refine ⟨?_, ?_⟩
  · refine Left.trans (m := onCore fun c => (c.sp - 4, { c with sp := c.sp - 4 })) (s := s)
      (left_quiet rfl rfl (by simp [onCore, Logged.update])) rfl stored.toLeft
  · rw [push, bind_ok (a := s.core.sp - 4) rfl]
    exact stored.core

theorem pop_moved {x : Word} (returned : (pop s).result = .ok x) :
    (pop s).state.core = { s.core with sp := s.core.sp + 4 } := by
  have loaded := (loads_gentle.rd32 s.core.sp s).core
  have path : pop s = (rd32 s.core.sp >>= fun x =>
      onCore fun c => (x, { c with sp := c.sp + 4 })) s := rfl
  rw [path] at returned ⊢
  rcases ended : (rd32 s.core.sp s).result with trap | y
  · rw [bind_error ended] at returned
    cases returned
  · rw [bind_ok ended]
    change { (rd32 s.core.sp s).state.core with sp := (rd32 s.core.sp s).state.core.sp + 4 } = _
    rw [loaded]

/-- The instructions that move the stack pointer before an access that may throw. -/
def Mnemonic.moves : Mnemonic → Bool
  | .push | .call | .callr | .iret => true
  | _ => false

/-- The others change no register before their last access. -/
theorem careful_exec (m : Mnemonic) (a b : Word) (stays : m.moves = false) :
    Careful (exec bus m a b) := by
  have look : ∀ i, Gentle (regOf i : CpuM D Word) := fun i => gentle_core _
  have load : ∀ (read : Int → CpuM D Word) (f : Word → Word), (∀ v, Gentle (read v)) →
      Careful (do into a (f (← read (← regOf b).toNat)) : CpuM D Unit) := fun read f gentle =>
    careful_bind (look b) fun v => careful_bind (gentle _) fun _ => (silent_core _).careful
  have store : ∀ n, Careful (do wrN n (← regOf a).toNat (← regOf b) : CpuM D Unit) := fun n =>
    (gentle_bind (look a) fun v => gentle_bind (look b) fun x => gentle_wrN n v.toNat x).careful
  cases m with
  | push | call | callr | iret => cases stays
  | load => exact careful_bind (loads_gentle.rd32 _) fun _ => (silent_core _).careful
  | store => exact (gentle_bind (look a) fun _ => gentle_wrN 4 _ _).careful
  | loadr => exact load rd32 id loads_gentle.rd32
  | lb => exact load rd8 id loads_gentle.rd8
  | lbs => exact load rd8 (fun x => (x.setWidth 8).signExtend 32) loads_gentle.rd8
  | lh => exact load rd16 id loads_gentle.rd16
  | lhs => exact load rd16 (fun x => (x.setWidth 16).signExtend 32) loads_gentle.rd16
  | storer => exact store 4
  | sb => exact store 1
  | sh => exact store 2
  | ret | pop => exact careful_then careful_pop fun _ => silent_core _
  | div | mod | idiv | imod => exact careful_divide _ a b
  | portIn =>
    exact careful_bind (look b) fun _ => (careful_then (careful_readPort bus _)
      fun _ => silent_core _ : Careful (readPort bus _ >>= fun x => into a x))
  | portOut =>
    exact careful_bind (look a) fun _ => careful_bind (look b) fun _ => careful_writePort bus _ _
  | movr | rdpfla | rderr | stmr | lptbr =>
    exact Silent.careful (silent_bind (fun _ _ impossible => by cases impossible)
      fun _ _ _ impossible => by cases impossible)
  | _ => exact Silent.careful fun _ _ impossible => by cases impossible

/-- `PUSH`, `CALL` and `CALLR` have moved the stack pointer whenever they throw. -/
theorem push_stopped {m : Mnemonic} {a b : Word} (stack : m = .push ∨ m = .call ∨ m = .callr)
    (thrown : (exec bus m a b s).result = .error trap) : Left s (exec bus m a b s) ∧
      (exec bus m a b s).state.core = { s.core with sp := s.core.sp - 4 } := by
  have pushed : ∀ (value : Core D → Word) (rest : Unit → CpuM D Unit), (∀ u, Silent (rest u)) →
      ((onCore (fun c => (value c, c)) >>= fun x => push x >>= rest) s).result = .error trap →
      Left s ((onCore (fun c => (value c, c)) >>= fun x => push x >>= rest) s) ∧
        ((onCore (fun c => (value c, c)) >>= fun x => push x >>= rest) s).state.core =
          { s.core with sp := s.core.sp - 4 } := by
    intro value rest silent thrown
    have path : (onCore (fun c => (value c, c)) >>= fun x => push x >>= rest) s =
        (push (value s.core) >>= rest) s := rfl
    obtain ⟨left, moved⟩ := push_moved (value s.core) s
    rw [path] at thrown ⊢
    rcases bind_thrown thrown with stopped | ⟨u, -, thrown⟩
    · exact ⟨left.stopped stopped, by rw [bind_error stopped]; exact moved⟩
    · exact absurd thrown (silent u _ trap)
  rcases stack with rfl | rfl | rfl
  · obtain ⟨left, moved⟩ := push_moved (s.core.reg a) s
    exact ⟨left, moved⟩
  · exact pushed _ _ (fun _ => silent_core _) thrown
  · exact pushed _ _ (fun _ => silent_core _) thrown

/-- A computation that pops first: it stops there, or goes on with the stack pointer moved. -/
theorem pop_stopped {f : Word → CpuM D α} (thrown : ((pop >>= f) s).result = .error trap) :
    (∃ trap', (pop s).result = .error trap') ∧ ((pop >>= f) s).state.core = s.core ∨
    ∃ x, (pop s).result = .ok x ∧ (f x (pop s).state).result = .error trap ∧
      (pop s).state.core = { s.core with sp := s.core.sp + 4 } ∧
      ((pop >>= f) s).state = (f x (pop s).state).state := by
  rcases returned : (pop s).result with trap' | x
  · rw [bind_error returned]
    exact .inl ⟨⟨trap', rfl⟩, (careful_pop s trap' returned).core⟩
  · rw [bind_ok returned] at thrown ⊢
    exact .inr ⟨x, rfl, thrown, pop_moved returned, rfl⟩

/-- `IRET` has moved the stack pointer if it throws after its first word. -/
theorem iret_stopped {a b : Word} (thrown : (exec bus .iret a b s).result = .error trap) :
    Left s (exec bus .iret a b s) ∧
      ∃ k : Nat, k < 4 ∧ (exec bus .iret a b s).state.core = { s.core with sp := s.core.sp + 4 * k } ∧
        (k = 0 ↔ ∃ trap', (pop s).result = .error trap') := by
  have stopped : ((popFrame : CpuM D _) s).result = .error trap := by
    rw [exec] at thrown
    rcases bind_thrown thrown with stopped | ⟨frame, -, impossible⟩
    · exact stopped
    · cases impossible
  have path : exec bus .iret a b s = ⟨.error trap, (popFrame s).state, (popFrame s).log⟩ := by
    rw [exec, bind_error stopped]
  have left := rules_left.quiet.popFrame s
  refine ⟨by rw [path]; exact ⟨left.space, left.memory, left.changes⟩, ?_⟩
  rw [path]
  dsimp only
  -- the words are popped one after the other
  rcases pop_stopped stopped with ⟨first, core⟩ | ⟨x₀, ok₀, stopped₁, core₀, state₀⟩
  · refine ⟨0, by omega, ?_, iff_of_true rfl first⟩
    rw [popFrame, core]
    simp
  have later : ¬ ∃ trap', (pop s).result = .error trap' := by
    rintro ⟨trap'', impossible⟩
    rw [ok₀] at impossible
    cases impossible
  rcases pop_stopped stopped₁ with ⟨-, core⟩ | ⟨x₁, -, stopped₂, core₁, state₁⟩
  · refine ⟨1, by omega, ?_, iff_of_false (by omega) later⟩
    rw [popFrame, state₀, core, core₀]
    simp
  rcases pop_stopped stopped₂ with ⟨-, core⟩ | ⟨x₂, -, stopped₃, core₂, state₂⟩
  · refine ⟨2, by omega, ?_, iff_of_false (by omega) later⟩
    rw [popFrame, state₀, state₁, core, core₁, core₀]
    simp [add_assoc]
  rcases pop_stopped stopped₃ with ⟨-, core⟩ | ⟨x₃, -, impossible, -⟩
  · refine ⟨3, by omega, ?_, iff_of_false (by omega) later⟩
    rw [popFrame, state₀, state₁, state₂, core, core₂, core₁, core₀]
    simp [add_assoc]
  · cases impossible

/-- What an instruction that throws has changed. -/
theorem exec_stopped {m : Mnemonic} {a b : Word} (thrown : (exec bus m a b s).result = .error trap) :
    Left s (exec bus m a b s) ∧
      ∃ sp, (exec bus m a b s).state.core = { s.core with sp := sp } := by
  by_cases moves : m.moves = true
  · by_cases iret : m = .iret
    · subst iret
      obtain ⟨left, k, -, core, -⟩ := iret_stopped bus thrown
      exact ⟨left, _, core⟩
    have stack : m = .push ∨ m = .call ∨ m = .callr := by
      cases m <;> simp_all [Mnemonic.moves]
    obtain ⟨left, core⟩ := push_stopped bus stack thrown
    exact ⟨left, _, core⟩
  · have held := careful_exec bus m a b (by simpa using moves) s trap thrown
    exact ⟨held.toLeft, s.core.sp, held.core⟩

theorem looks_popFrame : Looks (popFrame : CpuM D (Word × Word × Word × Word)) := by
  have one : Looks (pop : CpuM D Word) :=
    looks_bind (m := onCore fun c => (c.sp, c)) (looks_update fun _ => ⟨rfl, rfl, rfl⟩) fun sp =>
      looks_bind (codeReads_looks.rd32 sp) fun x =>
        looks_update (f := fun s => (x, { s with core := { s.core with sp := s.core.sp + 4 } }))
          fun _ => ⟨rfl, rfl, rfl⟩
  exact looks_bind one fun _ => looks_bind one fun _ => looks_bind one fun _ =>
    looks_bind one fun _ => looks_pure _

theorem looks_decodeWith : Looks (decodeWith fetch8 fetch32 : CpuM D (Mnemonic × Word × Word)) :=
  codeReads_looks.decodes.decodeWith

/-- An instruction stays in its address space, or it does not store. -/
theorem left_exec (m : Mnemonic) (a b : Word) :
    (∀ s, Left s (exec bus m a b s)) ∨ ∀ s c, .change c ∉ (exec bus m a b s).log := by
  by_cases switches : m.switches = true
  · refine .inr fun s c member => ?_
    cases m with
    | lptbr => simp [exec, regOf, onCore, Logged.update, setSpace, flushTlb, bind] at member
    | pgon | pgoff => simp [exec, setSpace, flushTlb] at member
    | iret =>
      have popped := (looks_popFrame s).1
      rcases returned : ((popFrame : CpuM D _) s).result with trap | frame
      · rw [exec, bind_error returned] at member
        obtain ⟨access, impossible, -⟩ := popped _ member
        cases impossible
      · rw [exec, bind_ok returned] at member
        obtain ⟨access, impossible, -⟩ := popped _ ((List.append_nil _) ▸ member)
        cases impossible
    | _ => cases switches
  · exact .inl (rules_left.exec m a b (by simpa using switches))

/-- The changes of the memory that an instruction makes. -/
theorem changes_checkedStep (s : Cpu D) :
    ∀ c, .change c ∈ (checkedStep bus s).log → c.space = s.space ∧
      Agree (stores (checkedStep bus s).log) s.mem c.before ∧
      Agree (stores (checkedStep bus s).log) s.mem c.after := by
  have decoding := looks_decodeWith.left s
  rcases returned : (decodeWith fetch8 fetch32 s).result with trap | decoded
  · exact (decoding.stopped returned : Left s (checkedStep bus s)).changes
  rcases left_exec bus decoded.1 decoded.2.1 decoded.2.2 with left | unchanged
  · have whole : Left s (checkedStep bus s) := decoding.trans returned
      (left_bind left (fun _ => (looks_pure _).left) _)
    exact whole.changes
  intro c member
  rw [checkedStep, bind_ok returned] at member
  rcases List.mem_append.mp member with member | member
  · obtain ⟨access, impossible, -⟩ := (looks_decodeWith s).1 _ member
    cases impossible
  rw [complete, bind_pure_apply] at member
  exact absurd member (unchanged (decodeWith fetch8 fetch32 s).state c)

/-- A step that throws has changed nothing but the program counter, the stack pointer and what it
stored. -/
theorem step_held (thrown : (step bus s).result = .error trap) :
    Left s (step bus s) ∧ s.core.Kept (step bus s).state.core := by
  obtain ⟨result, log, -, pc, moved⟩ := step_checked bus s
  rw [result] at thrown
  obtain ⟨left, core⟩ : Left s (checkedStep bus s) ∧ s.core.Kept (checkedStep bus s).state.core := by
    have decoding := looks_decodeWith.left s
    have kept := (looks_decodeWith s).2.2.2
    rcases bind_thrown thrown with stopped | ⟨decoded, returned, thrown⟩
    · refine ⟨decoding.stopped stopped, ?_⟩
      rw [checkedStep, bind_error stopped]
      exact kept
    rcases bind_thrown thrown with ended | ⟨u, -, impossible⟩
    · obtain ⟨left, sp, core⟩ := exec_stopped bus ended
      refine ⟨decoding.trans returned (left.stopped ended), ?_⟩
      rw [checkedStep, bind_ok returned, complete, bind_error ended]
      refine kept.trans ?_
      unfold Core.Kept
      dsimp only
      rw [core]
    · cases impossible
  refine ⟨⟨?_, ?_, ?_⟩, ?_⟩
  · rw [moved]
    exact left.space
  · rw [moved, log]
    exact left.memory
  · rw [log]
    exact left.changes
  · rw [moved]
    unfold Core.Kept at core ⊢
    dsimp only
    rw [core]

/-- An instruction whose stores avoid the page tables changes no translation. -/
theorem step_harmless (outside : ∀ q ∈ stores (step bus s).log, q ∉ s.tables) :
    ∀ c, .change c ∈ (step bus s).log → c.Harmless := by
  obtain ⟨-, log, -⟩ := step_checked bus s
  intro c member page write user
  obtain ⟨space, before, after⟩ : c.space = s.space ∧
      Agree (stores (step bus s).log) s.mem c.before ∧
      Agree (stores (step bus s).log) s.mem c.after := by
    rw [log] at member ⊢
    exact changes_checkedStep bus s c member
  rw [space, before.walk outside, after.walk outside]

/-- Two machines in step, at the level of whole instructions. -/
theorem step_follows {u v : Cpu D} (link : Link g ∅ u v)
    (fine₁ : ∀ event ∈ (step bus u).log, Fine (g.old₁ ∪ g.new₁) g.new₁ event)
    (fine₂ : ∀ event ∈ (step bus v).log, Fine (g.old₂ ∪ g.new₂) g.new₂ event)
    (quiet : .report ∉ (step bus v).log) (settled : Settled (step bus v).result) :
    ((step bus u).result = (step bus v).result ∧
      stores (step bus u).log = stores (step bus v).log ∧
      Match g (stores (step bus v).log) (checkedStep bus u).state (checkedStep bus v).state) ∨
    (stores (step bus u).log ⊆ stores (step bus v).log ∧ g.map₁ ≠ g.map₂) := by
  obtain ⟨result₁, log₁, -⟩ := step_checked bus u
  obtain ⟨result₂, log₂, -⟩ := step_checked bus v
  rw [log₁] at fine₁
  rw [log₂] at fine₂ quiet
  rw [result₂] at settled
  rw [result₁, result₂, log₁, log₂]
  rcases followsTo_checkedStep bus ∅ u v (Set.empty_subset _) (Set.empty_subset _) link fine₁ fine₂
    quiet settled with ⟨result, same, after⟩ | ⟨-, part, differs⟩
  · rw [Set.empty_union] at after
    exact .inl ⟨result, same, after⟩
  · exact .inr ⟨part, differs⟩

end JsEmulator.Custom32
