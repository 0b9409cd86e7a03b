import JsEmulator.Custom32.Instructions

/-!
# The execution loop

`run` of `cpu.ts`, with the delivery of traps to the guest, and what the host does between
two runs. An execution is any sequence of these from a processor with empty caches.

The caches are not observed: as long as the guest flushes before it accesses a page whose
translation it has taken away, every access is that of a fresh walk of the page tables, for
the mode the processor is in.
-/

namespace JsEmulator.Custom32

open JsEmulator.Library JsEmulator.Library.Logged

variable {D : Type} (bus : PortBus D)

/-- Why `run` returns. -/
inductive RunResult where
  | timer
  | syscall (num : Word)
  | pagefault (fault : PageFault)
  | fault (kind : FaultKind)
  | halt
  | irq (line : Nat)
deriving DecidableEq, Repr

/-- How `deliver` ends. -/
inductive Delivery where
  | guest
  | host
  | double
  | denied
deriving DecidableEq, Repr

/-- `pfErrorCode`. -/
def pfErrorCode (e : PageFault) : Word :=
  (if e.present then 1 else 0) ||| (if e.write then 2 else 0) ||| (if e.user then 4 else 0)

/-- `faultVector`. -/
def faultVector : FaultKind → Nat
  | .divideByZero => 0
  | .illegalOpcode | .illegal => 6
  | .privileged | .physRange => 13

/-- The trap frame is pushed in kernel mode, on the kernel stack when the user was running. -/
def entered (s : Cpu D) (errorCode : Word) : Cpu D :=
  { s with
    space := { s.space with mode := .kernel }
    core := { s.core with sp := if s.space.mode = .user then s.core.ksp.toNat else s.core.sp }
    errorCode := errorCode }

def trapFrame (old : Cpu D) (returnPc : Int) : List Word :=
  [BitVec.ofInt 32 old.core.sp, old.core.flags, if old.space.mode = .user then 1 else 0,
    BitVec.ofInt 32 returnPc]

def pushAll : List Word → CpuM D Unit
  | [] => pure ()
  | x :: rest => do
    push x
    pushAll rest

def pushFrame (old : Cpu D) (returnPc : Int) : CpuM D Unit := pushAll (trapFrame old returnPc)

/-- The end of `deliver`: the handler is entered, or the trap frame could not be pushed and
the registers are as they were. -/
def finishEntry (old : Cpu D) (handler : Word) (pushed : Except Trap Unit) : CpuM D Delivery :=
  match pushed with
  | .ok _ => Logged.update fun s => (.guest, { s with
      core := { s.core with flags := s.core.flags &&& ~~~interruptFlag, pc := handler.toNat }
      fetch := none })
  | .error _ => Logged.update fun s => (.double, { s with
      space := { s.space with mode := old.space.mode }
      core := { s.core with flags := old.core.flags, sp := old.core.sp }
      errorCode := old.errorCode })

/-- `deliver`. -/
def deliver (vector : Nat) (returnPc : Int) (errorCode : Word) (software : Bool) :
    CpuM D Delivery := do
  let s ← Logged.update fun s => (s, s)
  if s.core.idtr = 0 then pure .host
  else
    match s.mem.read32 (s.core.idtr.toNat + vector * 8),
      s.mem.read32 (s.core.idtr.toNat + vector * 8 + 4) with
    | some handler, some flags =>
      if flags.getLsbD 0 = false then pure .host
      else if software = true ∧ s.space.mode = .user ∧ flags.getLsbD 1 = false then pure .denied
      else do
        Logged.update fun s => ((), entered s errorCode)
        let pushed ← attempt (pushFrame s returnPc)
        finishEntry s handler pushed
    | _, _ => pure .double

/-- `doubleFault`. -/
def doubleFault : RunResult := .fault .illegal

/-- A trap that is not a software interrupt: the result of `run` if the host has to see it. -/
def trapTo (vector : Nat) (returnPc : Int) (errorCode : Word) (otherwise : RunResult) :
    CpuM D (Option RunResult) := do
  match ← deliver vector returnPc errorCode false with
  | .double => pure (some doubleFault)
  | .guest => pure none
  | .host | .denied => pure (some otherwise)

/-- What `run` undoes after a page fault. -/
def rewind (old : Cpu D) (e : PageFault) : CpuM D Unit := do
  Logged.update fun s => ((), { s with
    core := { s.core with pc := old.core.pc, sp := old.core.sp }, pfla := e.vaddr })
  flushTlb

/-- What `run` does with what a step returned or threw. -/
def settle (old : Cpu D) : Except Trap (Option Stop) → CpuM D (Option RunResult)
  | .ok none => pure none
  | .ok (some .halt) => pure (some .halt)
  | .ok (some (.syscall num)) => do
    match ← deliver num.toNat (← onCore fun c => (c.pc, c)) 0 true with
    | .denied => trapTo 13 old.core.pc 0 (.fault .privileged)
    | .host => pure (some (.syscall num))
    | .double => pure (some doubleFault)
    | .guest => pure none
  | .error (.pageFault e) => do
    rewind old e
    trapTo 14 old.core.pc (pfErrorCode e) (.pagefault e)
  | .error (.cpuFault kind) => trapTo (faultVector kind) old.core.pc 0 (.fault kind)
  | .error trap => raise trap

/-- One instruction. -/
def instruction : CpuM D (Option RunResult) := do
  let old ← Logged.update fun s => (s, s)
  let ended ← attempt (step bus)
  settle old ended

/-- The timer: on expiry its interrupt is raised. -/
def Lines.tick (l : Lines) : Lines :=
  if 0 < l.timerInterval then
    if l.timerCount - 1 ≤ 0 then { l with timerCount := l.timerInterval }.raiseIrq 0
    else { l with timerCount := l.timerCount - 1 }
  else l

/-- One round of the loop of `run`, after the check of the power line. -/
def cycle : CpuM D (Option RunResult) := do
  onLines Lines.tick
  let s ← Logged.update fun s => (s, s)
  match s.lines.pending, hasFlag s.core.flags interruptFlag with
  | line :: rest, true =>
    onLines fun l => { l with pending := rest }
    trapTo (32 + line) s.core.pc 0 (.irq line)
  | _, _ => instruction bus

/-- `run`. -/
def run : Nat → CpuM D RunResult
  | 0 => pure .timer
  | n + 1 => do
    let s ← Logged.update fun s => (s, s)
    if s.lines.poweredOff then pure .halt
    else
      match ← cycle bus with
      | some result => pure result
      | none => run n

/-- One round of `run`. -/
theorem run_path (n : Nat) (s : Cpu D) : run bus (n + 1) s =
    (if s.lines.poweredOff = true then pure .halt
      else cycle bus >>= fun
        | some result => pure result
        | none => run bus n) s := rfl

/-! ## Executions -/

/-- What the host does with the processor. -/
inductive HostAct where
  | run (maxCycles : Nat)
  | loadState (regs : Fin 8 → Word) (pc sp : Int) (flags : Word) (space : Space)
  | raiseIrq (line : Nat)
  | powerOff
  | resetTransientState
  | write (bytes : Nat → Byte)

def HostAct.perform : HostAct → CpuM D Unit
  | .run maxCycles => do
    let _ ← Custom32.run bus maxCycles
    pure ()
  | .loadState regs pc sp flags space => do
    onCore fun c => ((), { c with regs := regs, pc := pc, sp := sp, flags := flags })
    setSpace fun _ => space
  | .raiseIrq line => onLines fun l => l.raiseIrq line
  | .powerOff => onLines fun l => { l with poweredOff := true }
  | .resetTransientState => do
    onLines fun _ => ⟨[], 0, 0, false⟩
    onCore fun c => ((), { c with idtr := 0, ksp := 0 })
    Logged.update fun s => ((), { s with pfla := 0, errorCode := 0 })
    flushTlb
  | .write bytes => fun s =>
    ⟨.ok (), { s with mem := { s.mem with bytes := bytes } },
      [.change ⟨s.space, s.mem, { s.mem with bytes := bytes }⟩]⟩

/-- An execution: what one act throws does not keep the host from the next. -/
def execute : List HostAct → CpuM D Unit
  | [] => pure ()
  | act :: rest => do
    let _ ← attempt (act.perform bus)
    execute rest

/-! ## The caches are not observed -/

/-- The caches are sound for the mode the processor is in. -/
def Now (past : List Event) (s : Cpu D) : Prop := Tracked s.space.mode s.space.mode past s

/-- The invariant depends on what concerns translation only. -/
theorem Tracked.congr {mode current : Mode} {past : List Event} {s t : Cpu D}
    (tracked : Tracked mode current past s) (space : t.space = s.space) (mem : t.mem = s.mem)
    (tlb : t.tlb = s.tlb) (fetch : t.fetch = s.fetch) : Tracked mode current past t := by
  refine ⟨space ▸ tracked.1, fun disciplined => ?_⟩
  have sound := tracked.2 disciplined
  refine ⟨sound.fresh, ?_, ?_⟩
  · rw [tlb, space, mem]
    exact sound.tlb
  · rw [fetch, space, mem]
    exact sound.code

theorem keeps_report (mode current : Mode) (f : Cpu D → Word) :
    Keeps (Tracked mode current) (report f) := by
  intro past s tracked
  refine ⟨tracked.1, fun disciplined => ?_⟩
  have sound := tracked.2 disciplined.before
  refine ⟨fun a member => sound.fresh a (by simpa [report] using member), fun i t held => ?_,
    fun page base held => ?_⟩
  · obtain ⟨paged, outdated | backed⟩ := sound.tlb i t held
    · exact ⟨paged, .inl (outdated.later (by simp))⟩
    · exact ⟨paged, .inr backed⟩
  · obtain ⟨paged, low, high, outdated | backed⟩ := sound.code page base held
    · exact ⟨paged, low, high, .inl (outdated.later (by simp))⟩
    · exact ⟨paged, low, high, .inr backed⟩

theorem keeps_lines (mode current : Mode) (f : Lines → Lines) :
    Keeps (Tracked mode current) (onLines f : CpuM D Unit) :=
  keeps_update fun _ _ tracked => tracked.congr rfl rfl rfl rfl

/-- Every operation of an instruction keeps the caches sound. -/
theorem rules_tracked (mode : Mode) :
    Rules (fun {_} m => Keeps (Tracked mode mode) (m : CpuM D _)) where
  pure x := keeps_pure x
  bind first next := keeps_bind first next
  raise trap := keeps_raise trap
  core f := keeps_core mode mode f
  lines f := keeps_lines mode mode f
  mode := keeps_update fun _ _ tracked => tracked
  fetch8 := keeps_fetch8 mode
  fetch32 := keeps_fetch32 mode
  rdN n v := (loads_keep mode mode).rdN n v
  wrN n v x := keeps_wrN mode mode n v x
  pfla := keeps_report mode mode _
  errorCode := keeps_report mode mode _

theorem keeps_now {α : Type} {m : CpuM D α} (kept : ∀ mode, Keeps (Tracked mode mode) m) :
    Keeps Now m := by
  intro past s now
  have after := kept s.space.mode past s now
  rw [Now, after.1]
  exact after

/-- A computation on the registers and lines, whatever it looks at. -/
theorem keeps_now_update {α : Type} {f : Cpu D → α × Cpu D}
    (same : ∀ s, (f s).2.space = s.space ∧ (f s).2.mem = s.mem ∧ (f s).2.tlb = s.tlb ∧
      (f s).2.fetch = s.fetch) : Keeps Now (Logged.update f : CpuM D α) := by
  refine keeps_update fun past s now => ?_
  obtain ⟨space, mem, tlb, fetch⟩ := same s
  rw [Now, space]
  exact now.congr space mem tlb fetch

theorem keeps_decode : Keeps Now (decode : CpuM D (Mnemonic × Word × Word)) := by
  have slow : Keeps Now (decodeWith fetch8 fetch32 : CpuM D (Mnemonic × Word × Word)) :=
    keeps_now fun mode => (rules_tracked mode).quiet.decodeWith
  refine keeps_read fun past s now => ?_
  rcases cached : (if pageOffset s.core.pc ≤ 0xff7 then codeBase s else none) with - | base
  · exact slow past s now
  have hit : Hit base 9 s := by
    split_ifs at cached with inside
    exact ⟨cached, by omega⟩
  refine kept_bind ?_ fun result => ?_
  · have fast := slow past s now
    rw [decodeWith_hit hit] at fast
    exact fast
  · cases result with
    | ok decoded => exact keeps_pure decoded
    | error trap =>
      exact keeps_bind (keeps_now fun mode => keeps_core mode mode _) fun _ => keeps_raise trap

theorem keeps_setSpace (f : Space → Space) : Keeps Now (setSpace f : CpuM D Unit) := by
  intro past s now
  refine ⟨rfl, fun disciplined => ⟨fun a member => ?_, ?_, ?_⟩⟩
  · refine (now.2 disciplined.before).fresh a ?_
    simpa [setSpace, flushTlb] using member
  · intro i t held
    cases held
  · intro page base held
    cases held

/-- A change of the mode that forgets the code page. -/
theorem Tracked.forget {mode current : Mode} {past : List Event} {s t : Cpu D}
    (tracked : Tracked mode current past s) (ptbr : t.space.ptbr = s.space.ptbr)
    (paging : t.space.pagingEnabled = s.space.pagingEnabled) (mem : t.mem = s.mem)
    (tlb : t.tlb = s.tlb) (fetch : t.fetch = none) : Now past t := by
  refine ⟨rfl, fun disciplined => ⟨(tracked.2 disciplined).fresh, ?_, ?_⟩⟩
  · rw [tlb, ptbr, paging, mem]
    exact (tracked.2 disciplined).tlb
  · intro page base held
    rw [fetch] at held
    cases held

theorem keeps_exec (m : Mnemonic) (a b : Word) : Keeps Now (exec bus m a b) := by
  by_cases switches : m.switches = true
  · have look : Keeps Now (regOf a : CpuM D Word) := keeps_now fun mode => keeps_core mode mode _
    cases m with
    | lptbr => exact keeps_bind look fun x => keeps_setSpace _
    | pgon | pgoff => exact keeps_setSpace _
    | iret =>
      refine keeps_bind (keeps_now fun mode => (rules_tracked mode).quiet.popFrame) fun frame => ?_
      exact keeps_update fun past s now => now.forget rfl rfl rfl rfl rfl
    | _ => cases switches
  · exact keeps_now fun mode => (rules_tracked mode).exec m a b (by simpa using switches)

theorem keeps_step : Keeps Now (step bus) :=
  keeps_bind keeps_decode fun decoded => keeps_bind (keeps_exec bus decoded.1 _ _) fun _ =>
    keeps_pure _

/-- The trap frame is pushed in kernel mode; the code page stays that of the mode before. -/
theorem keeps_pushFrame (mode current : Mode) (old : Cpu D) (returnPc : Int) :
    Keeps (Tracked mode current) (pushFrame old returnPc) := by
  have one : ∀ x, Keeps (Tracked mode current) (push x : CpuM D Unit) := fun x =>
    keeps_bind (keeps_core mode current _) fun sp => keeps_wrN mode current 4 sp x
  have all : ∀ words, Keeps (Tracked mode current) (pushAll words : CpuM D Unit) := by
    intro words
    induction words with
    | nil => exact keeps_pure ()
    | cons x rest ih => exact keeps_bind (one x) fun _ => ih
  exact all _

/-- A trap is not delivered at all, or its frame is pushed and `deliver` finishes with what came of
that. -/
theorem deliver_cases (vector : Nat) (returnPc : Int) (errorCode : Word) (software : Bool)
    (s : Cpu D) :
    (∃ delivery, deliver vector returnPc errorCode software s = ⟨.ok delivery, s, []⟩) ∨
    ∃ handler pushed t log, pushFrame s returnPc (entered s errorCode) = ⟨pushed, t, log⟩ ∧
      deliver vector returnPc errorCode software s =
        ⟨(finishEntry s handler pushed t).result, (finishEntry s handler pushed t).state, log⟩ := by
  rw [deliver, bind_ok (a := s) rfl]
  split_ifs
  · exact .inl ⟨_, rfl⟩
  rcases s.mem.read32 (s.core.idtr.toNat + vector * 8) with - | handler
  · exact .inl ⟨_, rfl⟩
  rcases s.mem.read32 (s.core.idtr.toNat + vector * 8 + 4) with - | flags
  · exact .inl ⟨_, rfl⟩
  dsimp only
  split_ifs
  · exact .inl ⟨_, rfl⟩
  · exact .inl ⟨_, rfl⟩
  refine .inr ⟨handler, _, _, _, rfl, ?_⟩
  have silent : ∀ pushed t, (finishEntry s handler pushed t).log = [] := by
    rintro (trap | done) t <;> rfl
  rw [bind_ok (a := ()) rfl, bind_ok (m := attempt _) rfl, silent, List.append_nil]
  rfl

theorem keeps_deliver (vector : Nat) (returnPc : Int) (errorCode : Word) (software : Bool) :
    Keeps Now (deliver vector returnPc errorCode software : CpuM D Delivery) := by
  intro past s now
  rcases deliver_cases vector returnPc errorCode software s with
    ⟨delivery, ended⟩ | ⟨handler, pushed, t, log, pushing, ended⟩
  · rw [ended, List.append_nil]
    exact now
  have kernel : Tracked s.space.mode .kernel past (entered s errorCode) :=
    ⟨rfl, fun disciplined => ⟨(now.2 disciplined).fresh, (now.2 disciplined).tlb,
      (now.2 disciplined).code⟩⟩
  have after := keeps_pushFrame s.space.mode .kernel s returnPc past _ kernel
  rw [pushing] at after
  rw [ended]
  rcases pushed with trap | done
  · exact ⟨rfl, fun disciplined => ⟨(after.2 disciplined).fresh, (after.2 disciplined).tlb,
      (after.2 disciplined).code⟩⟩
  · exact after.forget rfl rfl rfl rfl rfl

theorem keeps_trapTo (vector : Nat) (returnPc : Int) (errorCode : Word) (otherwise : RunResult) :
    Keeps Now (trapTo vector returnPc errorCode otherwise : CpuM D (Option RunResult)) := by
  refine keeps_bind (keeps_deliver _ _ _ _) fun delivery => ?_
  cases delivery <;> exact keeps_pure _

theorem keeps_settle (old : Cpu D) (ended : Except Trap (Option Stop)) :
    Keeps Now (settle old ended) := by
  rcases ended with (e | kind | - | - | -) | (- | num | -)
  · exact keeps_bind (keeps_bind (keeps_now_update fun s => ⟨rfl, rfl, rfl, rfl⟩) fun _ =>
      keeps_now fun mode => keeps_flushTlb mode mode) fun _ => keeps_trapTo _ _ _ _
  · exact keeps_trapTo _ _ _ _
  · exact keeps_raise _
  · exact keeps_raise _
  · exact keeps_raise _
  · exact keeps_pure _
  · refine keeps_bind (keeps_now fun mode => keeps_core mode mode _) fun pc =>
      keeps_bind (keeps_deliver _ _ _ _) fun delivery => ?_
    cases delivery with
    | denied => exact keeps_trapTo _ _ _ _
    | _ => exact keeps_pure _
  · exact keeps_pure _

theorem keeps_cycle : Keeps Now (cycle bus) := by
  refine keeps_bind (keeps_now fun mode => keeps_lines mode mode _) fun _ =>
    keeps_read fun past s now => ?_
  have stepped : Keeps Now (instruction bus) := keeps_read fun past s now =>
    kept_bind (keeps_attempt (keeps_step bus) past s now) fun ended => keeps_settle s ended
  rcases s.lines.pending with - | ⟨line, rest⟩
  · exact stepped past s now
  rcases hasFlag s.core.flags interruptFlag with - | -
  · exact stepped past s now
  · exact keeps_bind (keeps_now fun mode => keeps_lines mode mode _)
      (fun _ => keeps_trapTo _ _ _ _) past s now

theorem keeps_run (n : Nat) : Keeps Now (run bus n) := by
  induction n with
  | zero => exact keeps_pure _
  | succ n ih =>
    refine keeps_read fun past s now => ?_
    split_ifs
    · exact keeps_pure _ past s now
    refine keeps_bind (keeps_cycle bus) (fun result => ?_) past s now
    cases result with
    | none => exact ih
    | some result => exact keeps_pure result

theorem keeps_perform (act : HostAct) : Keeps Now (act.perform bus) := by
  cases act with
  | run maxCycles => exact keeps_bind (keeps_run bus maxCycles) fun _ => keeps_pure ()
  | loadState regs pc sp flags space =>
    exact keeps_bind (keeps_now fun mode => keeps_core mode mode _) fun _ => keeps_setSpace _
  | raiseIrq line | powerOff => exact keeps_now fun mode => keeps_lines mode mode _
  | resetTransientState =>
    exact keeps_bind (keeps_now fun mode => keeps_lines mode mode _) fun _ =>
      keeps_bind (keeps_now fun mode => keeps_core mode mode _) fun _ =>
      keeps_bind (keeps_now_update fun s => ⟨rfl, rfl, rfl, rfl⟩) fun _ =>
      keeps_now fun mode => keeps_flushTlb mode mode
  | write bytes =>
    intro past s now
    exact ⟨rfl, fun disciplined => (now.2 disciplined.before).changed rfl⟩

theorem keeps_execute (acts : List HostAct) : Keeps Now (execute bus acts) := by
  induction acts with
  | nil => exact keeps_pure ()
  | cons act rest ih =>
    exact keeps_bind (keeps_attempt (keeps_perform bus act)) fun _ => ih

/-- A bus without devices. -/
def emptyBus : PortBus Unit := ⟨fun _ _ => none, fun _ _ _ => none⟩

/-- A page directory at `0x1000`, its first table at `0x2000`, and a first page at `0x3000`
that holds zeros; pages of the table may follow. -/
def smallMemory (pages : Nat) (bytes : Nat → Byte) : PhysicalMemory :=
  ⟨pages, fun p =>
    if p = 0x1000 then 0x07 else if p = 0x1001 then 0x20
    else if p = 0x2000 then 0x07 else if p = 0x2001 then 0x30 else bytes p⟩

/-- A processor with paging on, in a memory. -/
def smallCpu (mode : Mode) (mem : PhysicalMemory) (pc : Int) : Cpu Unit :=
  { core := ⟨fun _ => 0, pc, 0, 0, 0, 0, ()⟩
    space := ⟨mode, 0x1000, true⟩
    mem := mem
    pfla := 0
    errorCode := 0
    lines := ⟨[], 0, 0, false⟩
    tlb := fun _ => none
    fetch := none }

/-- A log without changes of the memory needs no flush. -/
theorem disciplined_of_unchanged {log : List Event} (unchanged : ∀ c, .change c ∉ log) :
    Disciplined log := by
  intro earlier c between a later split
  exact absurd (split ▸ by simp) (unchanged c)

end JsEmulator.Custom32
