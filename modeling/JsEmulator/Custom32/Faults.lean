import JsEmulator.Custom32.Attempts

/-!
# The registers of a fault

A CPU fault is delivered with the program counter of the instruction, but what else `run` saves or
reports is what the instruction has left. A page fault is different: `rewind` sets the program
counter and the stack pointer back first.

The trap frame of a CPU fault holds the registers before the instruction unless that is one
that has moved the stack pointer when it faults, as `PUSH` outside of the memory does. The host
sees the program counter where decoding has left it: at the instruction only if it could not be
decoded from the cached code page.
-/

namespace JsEmulator.Custom32

open JsEmulator.Library JsEmulator.Library.Logged

variable {D α β : Type} (bus : PortBus D)
variable {s : Cpu D} {kind : FaultKind} {m : CpuM D α} {f : α → CpuM D β} {n : Nat} {v : Int}

/-! ## Fetching moves the program counter -/

/-- A computation that changes no register but the program counter, which moves ahead. -/
def Fetches (m : CpuM D α) : Prop :=
  ∀ s, (m s).state.core = { s.core with pc := (m s).state.core.pc } ∧
    s.core.pc ≤ (m s).state.core.pc

theorem fetches_bind (first : Fetches m) (next : ∀ a, Fetches (f a)) : Fetches (m >>= f) := by
  intro s
  obtain ⟨core, ahead⟩ := first s
  rcases returned : (m s).result with trap | a
  · rw [bind_error returned]
    exact ⟨core, ahead⟩
  rw [bind_ok returned]
  obtain ⟨core', ahead'⟩ := next a (m s).state
  refine ⟨?_, ahead.trans ahead'⟩
  dsimp only
  rw [core', core]

theorem Gentle.fetches (gentle : Gentle m) : Fetches m := by
  intro s
  rw [(gentle s).core]
  exact ⟨rfl, le_rfl⟩

/-- The program counter has moved when the computation returns or raises a CPU fault. -/
def Leads (m : CpuM D α) : Prop :=
  Fetches m ∧ ∀ s, (∃ x, (m s).result = .ok x) ∨ (∃ kind, (m s).result = .error (.cpuFault kind)) →
    s.core.pc < (m s).state.core.pc

theorem leads_bind (first : Leads m) (next : ∀ a, Fetches (f a)) : Leads (m >>= f) := by
  refine ⟨fetches_bind first.1 next, fun s ended => ?_⟩
  rcases returned : (m s).result with trap | a
  · rw [bind_error returned] at ended ⊢
    rcases ended with ⟨x, impossible⟩ | ⟨kind, same⟩
    · cases impossible
    obtain rfl : trap = .cpuFault kind := Except.error.inj same
    exact first.2 s (.inr ⟨kind, returned⟩)
  · rw [bind_ok returned]
    exact (first.2 s (.inl ⟨a, returned⟩)).trans_le (next a _).2

/-- A computation before that neither moves the program counter nor raises a CPU fault. -/
theorem leads_after (first : ∀ s, (m s).state.core = s.core)
    (unfaulted : ∀ s kind, (m s).result ≠ .error (.cpuFault kind)) (next : ∀ a, Leads (f a)) :
    Leads (m >>= f) := by
  have fetches : Fetches m := by
    intro s
    rw [first s]
    exact ⟨rfl, le_rfl⟩
  refine ⟨fetches_bind fetches fun a => (next a).1, fun s ended => ?_⟩
  rcases returned : (m s).result with trap | a
  · rw [bind_error returned] at ended
    rcases ended with ⟨x, impossible⟩ | ⟨kind, same⟩
    · cases impossible
    obtain rfl : trap = .cpuFault kind := Except.error.inj same
    exact absurd returned (unfaulted s kind)
  · rw [bind_ok returned] at ended ⊢
    have ahead := (next a).2 (m s).state ended
    rwa [first s] at ahead

theorem leads_advance (positive : 0 < n) : Leads (advance n : CpuM D Unit) := by
  refine ⟨fun s => ⟨rfl, ?_⟩, fun s _ => ?_⟩
  · change s.core.pc ≤ s.core.pc + n
    omega
  · change s.core.pc < s.core.pc + n
    omega

theorem xlateN_paged {write : Bool}
    (faulted : (xlateN v n write s).result = .error (.cpuFault kind)) :
    s.space.pagingEnabled = false := by
  by_contra paged
  unfold xlateN at faulted
  rw [if_neg paged] at faulted
  dsimp only at faulted
  split at faulted
  · cases faulted
  · split at faulted <;> cases faulted

/-- The code page is looked up without a CPU fault. -/
theorem refill_apply (s : Cpu D) : ((refill : CpuM D (Option Int)) s).state.core = s.core ∧
    ∀ kind, ((refill : CpuM D (Option Int)) s).result ≠ .error (.cpuFault kind) := by
  have path : (refill : CpuM D (Option Int)) s =
      (if s.space.pagingEnabled = true then xlateN s.core.pc 1 false >>= cacheCode s.core.pc
        else pure none) s := rfl
  rw [path]
  split_ifs with paged
  · obtain ⟨-, pfla, tlb, state⟩ := xlateN_spec s.core.pc 1 false s
    rcases returned : (xlateN s.core.pc 1 false s).result with trap | p
    · rw [bind_error returned, state]
      refine ⟨rfl, fun kind same => ?_⟩
      obtain rfl : trap = .cpuFault kind := Except.error.inj same
      rw [xlateN_paged returned] at paged
      cases paged
    · rw [bind_ok returned, state]
      unfold cacheCode Logged.update
      refine ⟨?_, fun kind impossible => by cases impossible⟩
      dsimp only
      split_ifs <;> rfl
  · exact ⟨rfl, fun kind impossible => by cases impossible⟩

/-- A byte of code moves the program counter, also if it is outside of the memory. -/
theorem leads_fetch8 : Leads (fetch8 : CpuM D Word) := by
  have cached : ∀ base, Leads (cached8 base : CpuM D Word) := by
    intro base
    refine leads_after (m := readCode base 1) (fun _ => rfl)
      (fun _ _ impossible => by cases impossible) fun found => ?_
    exact leads_bind (leads_advance (by omega)) fun _ => (loads_gentle.defined found).fetches
  have slow : Leads (fetchByteSlow : CpuM D Word) := by
    refine leads_after (m := Logged.update fun s => (s, s)) (fun _ => rfl)
      (fun _ _ impossible => by cases impossible) fun s => ?_
    refine leads_after (fun s => (refill_apply s).1) (fun s => (refill_apply s).2) fun filled => ?_
    refine leads_bind (leads_advance (by omega)) fun _ => ?_
    cases filled with
    | none => exact (loads_gentle.rd8 _).fetches
    | some p => exact (loads_gentle.defined _).fetches
  refine leads_after (m := Logged.update fun s => (codeBase s, s)) (fun _ => rfl)
    (fun _ _ impossible => by cases impossible) fun base => ?_
  cases base with
  | none => exact slow
  | some base => exact cached base

theorem fetches_fetch32 : Fetches (fetch32 : CpuM D Word) := by
  refine fetches_bind (m := Logged.update fun s => (s, s)) (fun s => ⟨rfl, le_rfl⟩) fun s => ?_
  rcases (if pageOffset s.core.pc ≤ 0xffc then codeBase s else none) with - | base
  · exact fetches_bind (loads_gentle.rd32 _).fetches fun x =>
      fetches_bind (leads_advance (by omega)).1 fun _ => (gentle_pure x).fetches
  · exact fetches_bind (m := readCode base 4) (fun s => ⟨rfl, le_rfl⟩) fun found =>
      fetches_bind (leads_advance (by omega)).1 fun _ => (gentle_pure _).fetches

theorem fetches_operand (k : ArgKind) : Fetches (operand fetch8 fetch32 k : CpuM D Word) := by
  cases k with
  | none => exact (gentle_pure 0).fetches
  | reg =>
    refine fetches_bind leads_fetch8.1 fun r => ?_
    unfold register
    split_ifs
    · exact (gentle_raise _).fetches
    · exact (gentle_pure r).fetches
  | word => exact fetches_fetch32

/-- What the decoder does after the first byte. -/
theorem fetches_operands (m : Mnemonic) :
    Fetches (operands fetch8 fetch32 m : CpuM D (Mnemonic × Word × Word)) := by
  refine fetches_bind (fun s => ⟨rfl, le_rfl⟩) fun mode => ?_
  split_ifs
  · exact (gentle_raise _).fetches
  · exact fetches_bind (fetches_operand _) fun a => fetches_bind (fetches_operand _) fun b =>
      (gentle_pure (m, a, b)).fetches

/-- Decoding byte by byte leaves the program counter ahead of the instruction, whether that is
decoded or not. -/
theorem leads_decodeWith : Leads (decodeWith fetch8 fetch32 : CpuM D (Mnemonic × Word × Word)) := by
  refine leads_bind leads_fetch8 fun opcode => ?_
  rcases mnemonicOf opcode.toNat with - | m
  · exact (gentle_raise _).fetches
  · exact fetches_operands m

/-! ## The stack pointer -/

/-- An instruction of the stack that moves the stack pointer and then reaches the access that
throws: `IRET` if the first word of its frame is in the memory, the others always. -/
def Shifts (s : Cpu D) : Mnemonic → Prop
  | .push | .call | .callr => True
  | .iret => 0 ≤ s.core.sp ∧ s.core.sp + 4 ≤ s.mem.size
  | _ => False

/-- A computation that raises a CPU fault only if paging is off. -/
def Unpaged (m : CpuM D α) : Prop :=
  ∀ s kind, (m s).result = .error (.cpuFault kind) → s.space.pagingEnabled = false

theorem unpaged_bind (first : Unpaged m) (kept : ∀ s, (m s).state.space = s.space)
    (next : ∀ a, Unpaged (f a)) : Unpaged (m >>= f) := by
  intro s kind faulted
  rcases bind_thrown faulted with faulted | ⟨a, -, faulted⟩
  · exact first s kind faulted
  · exact kept s ▸ next a _ kind faulted

theorem Silent.unpaged (silent : Silent m) : Unpaged m :=
  fun s _ faulted => absurd faulted (silent s _)

theorem silent_pure (x : α) : Silent (pure x : CpuM D α) := fun _ _ impossible => by
  cases impossible

/-- Loads fault with paging on only by page faults. -/
theorem load_unpaged (faulted : (load n v s).result = .error (.cpuFault kind)) :
    s.space.pagingEnabled = false := by
  rcases bind_thrown faulted with faulted | ⟨p, -, faulted⟩
  · exact xlateN_paged faulted
  · rw [readSpan] at faulted
    split_ifs at faulted
    cases faulted

/-- A load without paging succeeds within the memory. -/
theorem load_plain (plain : s.space.pagingEnabled = false) :
    load n v s = if v < 0 ∨ s.mem.size < v + n
      then ⟨.error (.cpuFault .physRange), s,
        [.access ⟨s.space, s.mem, v, n, false, .error (.cpuFault .physRange)⟩]⟩
      else ⟨.ok (s.mem.span v n), s, [.access ⟨s.space, s.mem, v, n, false, .ok v⟩]⟩ := by
  have walked : xlateN v n false s = if v < 0 ∨ s.mem.size < v + n
      then ⟨.error (.cpuFault .physRange), s,
        [.access ⟨s.space, s.mem, v, n, false, .error (.cpuFault .physRange)⟩]⟩
      else ⟨.ok v, s, [.access ⟨s.space, s.mem, v, n, false, .ok v⟩]⟩ := by
    rw [xlateN, if_pos plain]
  split_ifs at walked ⊢ with outside
  · rw [load, bind_error (e := .cpuFault .physRange) (by rw [walked]), walked]
  rw [load, bind_ok (a := v) (by rw [walked]), walked, readSpan]
  dsimp only
  rw [if_neg (by omega)]
  rfl

theorem unpaged_rd32 (v : Int) : Unpaged (rd32 v : CpuM D Word) := by
  have bytewise : ∀ n v, Unpaged (loadBytes n v : CpuM D (List (Option Byte))) := by
    intro n
    induction n with
    | zero => exact fun v => (silent_pure []).unpaged
    | succ n ih =>
      refine fun v => unpaged_bind (fun _ _ => load_unpaged) (fun s => (gentle_load 1 v s).space)
        fun b => unpaged_bind (ih (v + 1)) (fun s => ?_) fun rest =>
        (silent_pure _).unpaged
      exact (sequences_gentle.loadBytes gentle_load n (v + 1) s).space
  refine unpaged_bind ?_ (fun s => (loads_gentle.rdN 4 v s).space) fun found => (silent_pure _).unpaged
  unfold rdN
  split_ifs
  · exact fun _ _ => load_unpaged
  · exact bytewise 4 v

theorem unpaged_pop : Unpaged (pop : CpuM D Word) :=
  unpaged_bind (silent_core _).unpaged (fun _ => rfl) fun sp =>
    unpaged_bind (unpaged_rd32 sp) (fun s => (loads_gentle.rd32 sp s).space) fun _ =>
    (silent_core _).unpaged

theorem unpaged_popFrame : Unpaged (popFrame : CpuM D (Word × Word × Word × Word)) := by
  have kept : ∀ s : Cpu D, (pop s).state.space = s.space := fun s => (rules_left.quiet.pop s).space
  exact unpaged_bind unpaged_pop kept fun _ => unpaged_bind unpaged_pop kept fun _ =>
    unpaged_bind unpaged_pop kept fun _ => unpaged_bind unpaged_pop kept fun _ =>
    (silent_pure _).unpaged

/-- Single bytes without paging. -/
theorem loadBytes_plain (plain : s.space.pagingEnabled = false) (n : Nat) (v : Int) :
    (∃ found, (loadBytes n v s).result = .ok found) ↔ n = 0 ∨ 0 ≤ v ∧ v + n ≤ s.mem.size := by
  induction n generalizing v with
  | zero => exact iff_of_true ⟨[], rfl⟩ (.inl rfl)
  | succ n ih =>
    have first := load_plain (n := 1) (v := v) plain
    by_cases outside : v < 0 ∨ s.mem.size < v + (1 : Nat)
    · rw [if_pos outside] at first
      rw [loadBytes, bind_error (e := .cpuFault .physRange) (by rw [first])]
      refine iff_of_false (fun ⟨_, impossible⟩ => by cases impossible) ?_
      rintro (impossible | ⟨low, high⟩) <;> omega
    · rw [if_neg outside] at first
      rw [loadBytes, bind_ok (a := s.mem.span v 1) (by rw [first]), first]
      have rest := ih (v + 1)
      rcases returned : (loadBytes n (v + 1) s).result with trap | found
      · rw [returned] at rest
        have none : ¬ (n = 0 ∨ 0 ≤ v + 1 ∧ v + 1 + n ≤ s.mem.size) := fun inside => by
          obtain ⟨_, impossible⟩ := rest.mpr inside
          cases impossible
        rw [bind_error returned]
        refine iff_of_false (fun ⟨_, impossible⟩ => by cases impossible) ?_
        rintro (impossible | ⟨low, high⟩)
        · omega
        · exact none (.inr ⟨by omega, by omega⟩)
      · have inside := rest.mp ⟨found, returned⟩
        rw [bind_ok returned]
        exact iff_of_true ⟨_, rfl⟩ (.inr ⟨by omega, by omega⟩)

/-- A word without paging. -/
theorem pop_plain (plain : s.space.pagingEnabled = false) :
    (∃ x, (pop s).result = .ok x) ↔ 0 ≤ s.core.sp ∧ s.core.sp + 4 ≤ s.mem.size := by
  have words : (∃ found, (rdN 4 s.core.sp s).result = .ok found) ↔
      0 ≤ s.core.sp ∧ s.core.sp + 4 ≤ s.mem.size := by
    unfold rdN
    split_ifs
    · rw [load_plain plain]
      split_ifs with outside
      · refine iff_of_false (by simp) ?_
        push_cast at outside
        omega
      · refine iff_of_true ⟨_, rfl⟩ ?_
        push_cast at outside
        omega
    · rw [loadBytes_plain plain]
      exact or_iff_right (by omega)
  have path : pop s = (rd32 s.core.sp >>= fun x =>
      onCore fun c => (x, { c with sp := c.sp + 4 })) s := rfl
  rw [← words, path]
  rcases returned : (rdN 4 s.core.sp s).result with trap | found
  · have stopped : (rd32 s.core.sp s).result = .error trap := by rw [rd32, bind_error returned]
    rw [bind_error stopped]
    exact iff_of_false (by simp) (by simp)
  · have word : (rd32 s.core.sp s).result = .ok (joined found) := by
      rw [rd32, bind_ok returned]
      rfl
    rw [bind_ok word]
    exact iff_of_true ⟨_, rfl⟩ ⟨_, rfl⟩

/-! ## What a CPU fault leaves -/

/-- The instruction is decoded from the cached code page. -/
def FastPath (s : Cpu D) : Prop :=
  pageOffset s.core.pc ≤ 0xff7 ∧ ∃ base, s.fetch = some (pageNumber s.core.pc, base)

theorem fastPath_iff (s : Cpu D) :
    FastPath s ↔ ∃ base, (if pageOffset s.core.pc ≤ 0xff7 then codeBase s else none) = some base := by
  by_cases near : pageOffset s.core.pc ≤ 0xff7
  · rw [if_pos near]
    constructor
    · rintro ⟨-, base, held⟩
      exact ⟨base, by rw [codeBase, held]; exact if_pos rfl⟩
    · rintro ⟨base, cached⟩
      exact ⟨near, base, codeBase_some cached⟩
  · rw [if_neg near]
    exact iff_of_false (fun fast => near fast.1) (by simp)

/-- A decoder that faults leaves the program counter at the instruction on the fast path only. -/
theorem decode_faulted (faulted : (decode s).result = .error (.cpuFault kind)) :
    ∃ pc, (decode s).state.core = { s.core with pc := pc } ∧ (pc = s.core.pc ↔ FastPath s) := by
  obtain ⟨result, -, -, pc, moved⟩ := decode_checked s
  have core := (leads_decodeWith.1 s).1
  have path := decode_path s
  refine ⟨(decode s).state.core.pc, by rw [moved, core], ?_⟩
  rw [fastPath_iff]
  rcases cached : (if pageOffset s.core.pc ≤ 0xff7 then codeBase s else none) with - | base
  · rw [cached] at path
    have ahead := leads_decodeWith.2 s (.inr ⟨kind, result ▸ faulted⟩)
    rw [path]
    exact iff_of_false ahead.ne' (by simp)
  · rw [cached] at path
    refine iff_of_true ?_ ⟨base, rfl⟩
    rw [path] at faulted ⊢
    dsimp only at faulted ⊢
    rcases returned : (decodeWith (cached8 base) (cached32 base) s).result with trap | decoded
    · have tried : (attempt (decodeWith (cached8 base) (cached32 base)) s).result =
          .ok (.error trap) := congrArg Except.ok returned
      rw [decodeFast, bind_ok tried]
      rfl
    · have tried : (attempt (decodeWith (cached8 base) (cached32 base)) s).result =
          .ok (.ok decoded) := congrArg Except.ok returned
      rw [decodeFast, bind_ok tried] at faulted
      cases faulted

/-- What an instruction that is decoded leaves of the stack pointer. -/
theorem exec_faulted {m : Mnemonic} {a b : Word}
    (faulted : (exec bus m a b s).result = .error (.cpuFault kind)) :
    ∃ k : Int, -4 ≤ k ∧ k ≤ 12 ∧
      (exec bus m a b s).state.core = { s.core with sp := s.core.sp + k } ∧
      (k = 0 ↔ ¬ Shifts s m) := by
  by_cases moves : m.moves = true
  · by_cases iret : m = .iret
    · subst iret
      obtain ⟨-, k, bound, core, first⟩ := iret_stopped bus faulted
      refine ⟨4 * k, by omega, by omega, core, ?_⟩
      have plain : s.space.pagingEnabled = false := by
        rw [exec] at faulted
        rcases bind_thrown faulted with stopped | ⟨frame, -, impossible⟩
        · exact unpaged_popFrame s kind stopped
        · cases impossible
      have popped := pop_plain plain
      have zero : (4 * (k : Int) = 0) ↔ k = 0 := by omega
      rw [zero, first]
      change _ ↔ ¬ (0 ≤ s.core.sp ∧ s.core.sp + 4 ≤ s.mem.size)
      rw [← popped]
      rcases (pop s).result with trap | x
      · exact iff_of_true ⟨trap, rfl⟩ (by simp)
      · exact iff_of_false (by simp) fun none => none ⟨x, rfl⟩
    · have stack : m = .push ∨ m = .call ∨ m = .callr := by
        cases m <;> simp_all [Mnemonic.moves]
      obtain ⟨-, core⟩ := push_stopped bus stack faulted
      refine ⟨-4, by omega, by omega, core, iff_of_false (by omega) fun kept => kept ?_⟩
      rcases stack with rfl | rfl | rfl <;> trivial
  · have held := careful_exec bus m a b (by simpa using moves) s _ faulted
    refine ⟨0, by omega, by omega, by rw [held.core, add_zero], iff_of_true rfl ?_⟩
    intro shifts
    cases m <;> first | exact shifts | exact moves rfl

/-- A CPU fault leaves every register but the program counter and the stack pointer. The program
counter is back only if the fast path could not decode the instruction, and the stack pointer
has moved if the instruction was decoded and shifts it. -/
theorem step_faulted (faulted : (step bus s).result = .error (.cpuFault kind)) :
    ∃ pc, ∃ k : Int, -4 ≤ k ∧ k ≤ 12 ∧
      (step bus s).state.core = { s.core with pc := pc, sp := s.core.sp + k } ∧
      (pc = s.core.pc ↔ FastPath s ∧ ∀ d, (decode s).result ≠ .ok d) ∧
      (k = 0 ↔ ∀ d, (decode s).result = .ok d → ¬ Shifts s d.1) := by
  rcases returned : (decode s).result with trap | d
  · rw [step, bind_error returned] at faulted ⊢
    obtain rfl : trap = .cpuFault kind := Except.error.inj faulted
    obtain ⟨pc, core, back⟩ := decode_faulted returned
    refine ⟨pc, 0, by omega, by omega, by rw [core, add_zero], ?_, iff_of_true rfl ?_⟩
    · rw [back]
      exact ⟨fun fast => ⟨fast, fun d impossible => by cases impossible⟩, And.left⟩
    · intro d impossible
      cases impossible
  · obtain ⟨result, -, state, -⟩ := decode_checked s
    have same := state ⟨d, returned⟩
    have ahead := leads_decodeWith.2 s (.inl ⟨d, result ▸ returned⟩)
    obtain ⟨core, -⟩ := leads_decodeWith.1 s
    obtain ⟨-, -, mem, -⟩ := looks_decodeWith s
    rw [← same] at core ahead mem
    rw [step, bind_ok returned] at faulted ⊢
    rcases ended : (exec bus d.1 d.2.1 d.2.2 (decode s).state).result with trap | u
    · rw [complete, bind_error ended] at faulted ⊢
      obtain rfl : trap = .cpuFault kind := Except.error.inj faulted
      obtain ⟨k, low, high, moved, kept⟩ := exec_faulted bus ended
      have shifts : Shifts (decode s).state d.1 ↔ Shifts s d.1 := by
        have sp : (decode s).state.core.sp = s.core.sp := by rw [core]
        cases d.1 <;> simp [Shifts, sp, mem]
      refine ⟨(decode s).state.core.pc, k, low, high, ?_, ?_, ?_⟩
      · dsimp only
        rw [moved, core]
      · exact iff_of_false ahead.ne' fun back => back.2 d rfl
      · rw [kept, shifts]
        exact ⟨fun kept d' same => by cases same; exact kept, fun kept => kept d rfl⟩
    · rw [complete, bind_ok ended] at faulted
      cases faulted

/-! ## What `run` saves and reports -/

/-- Pushing the frame moves the stack pointer only. -/
theorem pushAll_moved (words : List Word) (s : Cpu D) :
    ∃ sp, (pushAll words s).state.core = { s.core with sp := sp } := by
  induction words generalizing s with
  | nil => exact ⟨s.core.sp, rfl⟩
  | cons x rest ih =>
    obtain ⟨-, moved⟩ := push_moved x s
    rcases returned : (push x s).result with trap | u
    · rw [pushAll, bind_error returned]
      exact ⟨_, moved⟩
    · rw [pushAll, bind_ok returned]
      obtain ⟨sp, core⟩ := ih (push x s).state
      exact ⟨sp, by rw [core, moved]⟩

/-- A trap that does not enter the handler leaves the registers alone. -/
theorem deliver_core {vector : Nat} {returnPc : Int} {errorCode : Word} {delivery : Delivery}
    (other : delivery ≠ .guest)
    (returned : (deliver vector returnPc errorCode false s).result = .ok delivery) :
    (deliver vector returnPc errorCode false s).state.core = s.core := by
  rcases deliver_cases vector returnPc errorCode false s with
    ⟨_, ended⟩ | ⟨handler, pushed, t, log, pushing, ended⟩
  · rw [ended]
  obtain ⟨sp, core⟩ := pushAll_moved (trapFrame s returnPc) (entered s errorCode)
  rw [← pushFrame, pushing] at core
  rw [ended] at returned ⊢
  rcases pushed with trap | done
  · change { t.core with flags := s.core.flags, sp := s.core.sp } = s.core
    rw [core]
    rfl
  · cases returned
    exact absurd rfl other

/-- The fault of an instruction is delivered in the state the instruction has left, with its own
address. -/
theorem instruction_faulted (faulted : (step bus s).result = .error (.cpuFault kind)) :
    (instruction bus s).result =
        (trapTo (faultVector kind) s.core.pc 0 (.fault kind) (step bus s).state).result ∧
      (instruction bus s).state =
        (trapTo (faultVector kind) s.core.pc 0 (.fault kind) (step bus s).state).state := by
  have settled : ∀ ended, ended = (step bus s).result →
      (instruction bus s).result = (settle s ended (step bus s).state).result ∧
      (instruction bus s).state = (settle s ended (step bus s).state).state := by
    rintro ended rfl
    exact ⟨rfl, rfl⟩
  exact settled _ faulted.symm

/-- Words that differ by less than the number of words are the same only if they do not
differ. -/
theorem ofInt_add_eq_iff {k : Int} (low : -4 ≤ k) (high : k ≤ 12) :
    BitVec.ofInt 32 (v + k) = BitVec.ofInt 32 v ↔ k = 0 := by
  constructor
  · intro same
    have words := congrArg BitVec.toNat same
    rw [BitVec.toNat_ofInt, BitVec.toNat_ofInt] at words
    omega
  · rintro rfl
    rw [add_zero]

/-- When an instruction ends in a CPU fault, the trap frame that is pushed for it and the
registers the handler finds are those before the instruction exactly if it is not one that has
shifted the stack pointer. What the host sees, if there is no handler, is what was before
exactly if the fast path could not decode the instruction. -/
theorem fault_registers (s : Cpu D) (kind : FaultKind)
    (faulted : (step bus s).result = .error (.cpuFault kind)) :
    (trapFrame (step bus s).state s.core.pc = trapFrame s s.core.pc ∧
        (step bus s).state.core.regs = s.core.regs ↔
      ∀ d, (decode s).result = .ok d → ¬ Shifts s d.1) ∧
    ∀ r, (instruction bus s).result = .ok (some r) →
      ((instruction bus s).state.core = s.core ↔
        FastPath s ∧ ∀ d, (decode s).result ≠ .ok d) := by
  obtain ⟨pc, k, low, high, core, back, kept⟩ := step_faulted bus faulted
  obtain ⟨⟨space, -, -⟩, -⟩ := step_held bus faulted
  refine ⟨?_, fun r reported => ?_⟩
  · rw [← kept, trapFrame, trapFrame, core, space]
    dsimp only
    constructor
    · rintro ⟨frame, -⟩
      exact (ofInt_add_eq_iff low high).mp (List.cons.inj frame).1
    · rintro rfl
      rw [add_zero]
      exact ⟨rfl, rfl⟩
  · obtain ⟨result, state⟩ := instruction_faulted bus faulted
    have unhandled : (instruction bus s).state.core = (step bus s).state.core := by
      rw [result] at reported
      rw [state]
      rcases delivered : (deliver (faultVector kind) s.core.pc 0 false (step bus s).state).result
        with trap | delivery
      · rw [trapTo, bind_error delivered] at reported
        cases reported
      have other : delivery ≠ .guest := by
        rintro rfl
        rw [trapTo, bind_ok delivered] at reported
        cases reported
      have left := deliver_core other delivered
      rw [trapTo, bind_ok delivered]
      cases delivery with
      | guest => exact absurd rfl other
      | host => exact left
      | double => exact left
      | denied => exact left
    rw [unhandled, core, ← back]
    constructor
    · intro same
      exact congrArg Core.pc same
    · rintro rfl
      have undecoded := (back.mp rfl).2
      obtain rfl : k = 0 := kept.mpr fun d decoded => absurd decoded (undecoded d)
      rw [add_zero]

/-- An opcode that does not exist, in a page that is not cached or that is. -/
def unknownOpcode (cached : Bool) : Cpu Unit :=
  { smallCpu .user (smallMemory 4 fun p => if p = 0x3001 then 0x0d else 0) 1 with
    fetch := if cached then some (0, 0x3000) else none }

/-- A push of the user below the memory, without paging, and a handler for its fault. -/
def pushOutside : Cpu Unit :=
  { smallCpu .user ⟨1, fun p => if p = 0x169 then 0x03 else if p = 0x16c then 1
      else if p = 0x200 then 0x30 else 0⟩ 0x200 with
    core := ⟨fun _ => 0, 0x200, 0, 0, 0x100, 0x1000, ()⟩
    space := ⟨.user, 0, false⟩ }

/-- The fault of an unknown opcode is at its address if it is fetched from the cached page. -/
theorem fault_registers_cached :
    (step emptyBus (unknownOpcode true)).result = .error (.cpuFault .illegalOpcode) ∧
    (instruction emptyBus (unknownOpcode true)).state.core = (unknownOpcode true).core := by
  have faulted : (step emptyBus (unknownOpcode true)).result =
      .error (.cpuFault .illegalOpcode) := by decide +kernel
  have undecoded : (decode (unknownOpcode true)).result = .error (.cpuFault .illegalOpcode) := by
    decide +kernel
  refine ⟨faulted, ((fault_registers emptyBus _ _ faulted).2 (.fault .illegalOpcode)
    (by decide +kernel)).mpr ⟨⟨by decide, 0x3000, rfl⟩, fun d decoded => ?_⟩⟩
  rw [undecoded] at decoded
  cases decoded

/-- The host sees the program counter behind the opcode if it is fetched byte by byte, and at the
opcode otherwise; and the frame of a push that faults has the stack pointer it has moved. -/
theorem fault_registers_differ :
    ((run emptyBus 1 (unknownOpcode false)).result = .ok (.fault .illegalOpcode) ∧
      (unknownOpcode false).core.pc = 1 ∧
      (run emptyBus 1 (unknownOpcode false)).state.core.pc = 2 ∧
      (run emptyBus 1 (unknownOpcode true)).result = .ok (.fault .illegalOpcode) ∧
      (run emptyBus 1 (unknownOpcode true)).state.core.pc = 1) ∧
    (run emptyBus 1 pushOutside).state.core.pc = 0x300 ∧
    pushOutside.core.sp = 0 ∧
    (run emptyBus 1 pushOutside).state.mem.read32 0xffc = some 0xfffffffc := by
  decide +kernel

end JsEmulator.Custom32
