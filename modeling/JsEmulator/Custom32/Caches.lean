import JsEmulator.Custom32.Paging
import JsEmulator.Library.Logged

/-!
# Memory accesses through the caches

The part of `cpu.ts` that translates addresses: `xlateN` with the software TLB, the loads and
stores over it, and the instruction fetch with its code-page cache. Every access and every
change of the memory is logged, with what was in force at that moment, so that an execution
can be compared with fresh walks of the page tables.

An entry of the TLB may be used as long as the page tables back it: they translate the page
to the same frame with at least the same permissions. A change that takes this away makes
the page outdated until the next flush.
-/

namespace JsEmulator.Custom32

open JsEmulator.Library JsEmulator.Library.Logged

/-- The privilege levels. -/
inductive Mode where
  | kernel
  | user
deriving DecidableEq, Repr

/-- The exception of an access that the page tables do not allow. -/
structure PageFault where
  vaddr : Int
  write : Bool
  user : Bool
  present : Bool
deriving DecidableEq, Repr

/-- `FaultKind`. -/
inductive FaultKind where
  | illegalOpcode
  | divideByZero
  | privileged
  | illegal
  | physRange
deriving DecidableEq, Repr

/-- What is thrown in the execution loop. An `undefined` byte is not an exception of the
source: it would become the value of a register or an operand, and the model ends there. -/
inductive Trap where
  | pageFault (fault : PageFault)
  | cpuFault (kind : FaultKind)
  | rangeError
  | portError
  | undefinedByte
deriving DecidableEq, Repr

/-- What decides how an address is translated. -/
structure Space where
  mode : Mode
  ptbr : Word
  pagingEnabled : Bool
deriving DecidableEq, Repr

/-- The registers a program works with, and the devices behind the ports. -/
structure Core (D : Type) where
  regs : Fin 8 → Word
  pc : Int
  sp : Int
  flags : Word
  idtr : Word
  ksp : Word
  dev : D

/-- Pending interrupts in the order they were raised, the timer, and the power line. -/
structure Lines where
  pending : List Nat
  timerInterval : Int
  timerCount : Int
  poweredOff : Bool

/-- An occupied entry of the TLB. -/
structure TlbEntry where
  tag : Nat
  entry : PageEntry
deriving DecidableEq, Repr

/-- The processor with its memory. The code-page cache holds a page and its physical base. -/
structure Cpu (D : Type) where
  core : Core D
  space : Space
  mem : PhysicalMemory
  pfla : Int
  errorCode : Word
  lines : Lines
  tlb : Nat → Option TlbEntry
  fetch : Option (Nat × Int)

/-- One access: the translation in force, the memory, what was asked for, and the physical
address that was used or the exception. -/
structure Access where
  space : Space
  mem : PhysicalMemory
  vaddr : Int
  bytes : Nat
  write : Bool
  result : Except Trap Int

/-- One change of the memory. -/
structure Change where
  space : Space
  before : PhysicalMemory
  after : PhysicalMemory

/-- What is logged. A report is an instruction that reads the registers of the last fault. -/
inductive Event where
  | access (a : Access)
  | change (c : Change)
  | flush
  | report

abbrev CpuM (D : Type) := Logged Trap (Cpu D) Event

variable {D : Type}

/-! ## Translation -/

/-- What a fresh walk of the page tables gives for an access. -/
def freshXlate (space : Space) (m : PhysicalMemory) (vaddr : Int) (bytes : Nat) (write : Bool) :
    Except Trap Int :=
  if space.pagingEnabled = false then
    if vaddr < 0 ∨ m.size < vaddr + bytes then .error (.cpuFault .physRange) else .ok vaddr
  else
    match walk m space.ptbr (pageNumber vaddr) write (space.mode = .user) with
    | none => .error .rangeError
    | some (.fault present) => .error (.pageFault ⟨vaddr, write, space.mode = .user, present⟩)
    | some (.found e) => .ok (e.frame + pageOffset vaddr)

/-- `TLB_ENTRIES`. -/
def tlbEntries : Nat := 4096

/-- A hit of the TLB that allows the access. -/
def tlbHit (s : Cpu D) (page : Nat) (write : Bool) : Option PageEntry :=
  match s.tlb (page % tlbEntries) with
  | none => none
  | some t =>
    if t.tag = page ∧ (s.space.mode = .user → t.entry.user = true) ∧
        (write = true → t.entry.writable = true) then some t.entry
    else none

/-- `xlateN`. -/
def xlateN (vaddr : Int) (bytes : Nat) (write : Bool) : CpuM D Int := fun s =>
  let log (r : Except Trap Int) : List Event :=
    [.access ⟨s.space, s.mem, vaddr, bytes, write, r⟩]
  if s.space.pagingEnabled = false then
    if vaddr < 0 ∨ s.mem.size < vaddr + bytes then
      ⟨.error (.cpuFault .physRange), s, log (.error (.cpuFault .physRange))⟩
    else ⟨.ok vaddr, s, log (.ok vaddr)⟩
  else
    let page := pageNumber vaddr
    match tlbHit s page write with
    | some e => ⟨.ok (e.frame + pageOffset vaddr), s, log (.ok (e.frame + pageOffset vaddr))⟩
    | none =>
      match walk s.mem s.space.ptbr page write (s.space.mode = .user) with
      | none => ⟨.error .rangeError, s, log (.error .rangeError)⟩
      | some (.fault present) =>
        let fault : PageFault := ⟨vaddr, write, s.space.mode = .user, present⟩
        ⟨.error (.pageFault fault), { s with pfla := vaddr }, log (.error (.pageFault fault))⟩
      | some (.found e) =>
        ⟨.ok (e.frame + pageOffset vaddr),
          { s with tlb := Function.update s.tlb (page % tlbEntries) (some ⟨page, e⟩) },
          log (.ok (e.frame + pageOffset vaddr))⟩

/-- `flushTlb`. -/
def flushTlb : CpuM D Unit := fun s => ⟨.ok (), { s with tlb := fun _ => none, fetch := none }, [.flush]⟩

/-! ## Loads and stores -/

/-- Bytes of the memory at a translated address. -/
def readSpan (p : Int) (n : Nat) : CpuM D (List (Option Byte)) := fun s =>
  if s.mem.size < p + n then ⟨.error .rangeError, s, []⟩ else ⟨.ok (s.mem.span p n), s, []⟩

/-- Bytes put at a translated address. -/
def writeSpan (p : Int) (items : List Byte) : CpuM D Unit := fun s =>
  if s.mem.size < p + items.length then ⟨.error .rangeError, s, []⟩
  else ⟨.ok (), { s with mem := s.mem.putAll p items },
    [.change ⟨s.space, s.mem, s.mem.putAll p items⟩]⟩

/-- A load that does not leave its page. -/
def load (n : Nat) (v : Int) : CpuM D (List (Option Byte)) := do
  let p ← xlateN v n false
  readSpan p n

/-- A store that does not leave its page. -/
def store (v : Int) (items : List Byte) : CpuM D Unit := do
  let p ← xlateN v items.length true
  writeSpan p items

/-- A load across a page boundary goes byte by byte. -/
def loadBytes : Nat → Int → CpuM D (List (Option Byte))
  | 0, _ => pure []
  | n + 1, v => do
    let b ← load 1 v
    let rest ← loadBytes n (v + 1)
    pure (b ++ rest)

/-- So does a store. -/
def storeBytes : List Byte → Int → CpuM D Unit
  | [], _ => pure ()
  | b :: rest, v => do
    store v [b]
    storeBytes rest (v + 1)

/-- The loads of `rd8`, `rd16` and `rd32`. -/
def rdN (n : Nat) (v : Int) : CpuM D (List (Option Byte)) :=
  if pageOffset v + n ≤ 4096 then load n v else loadBytes n v

/-- The stores of `wr8`, `wr16` and `wr32`. -/
def wrN (n : Nat) (v : Int) (x : Word) : CpuM D Unit :=
  if pageOffset v + n ≤ 4096 then store v (bytesOf n x) else storeBytes (bytesOf n x) v

/-- A byte whose value is used. -/
def defined (found : List (Option Byte)) : CpuM D Word :=
  match found with
  | some b :: _ => pure (b.setWidth 32)
  | _ => raise .undefinedByte

def rd8 (v : Int) : CpuM D Word := do defined (← rdN 1 v)
def rd16 (v : Int) : CpuM D Word := do pure (joined (← rdN 2 v))
def rd32 (v : Int) : CpuM D Word := do pure (joined (← rdN 4 v))
def wr8 (v : Int) (x : Word) : CpuM D Unit := wrN 1 v x
def wr16 (v : Int) (x : Word) : CpuM D Unit := wrN 2 v x
def wr32 (v : Int) (x : Word) : CpuM D Unit := wrN 4 v x

/-! ## Instruction fetch -/

/-- A computation on the registers. -/
def onCore {α : Type} (f : Core D → α × Core D) : CpuM D α :=
  Logged.update fun s => ((f s.core).1, { s with core := (f s.core).2 })

/-- The program counter moves on. -/
def advance (n : Nat) : CpuM D Unit := onCore fun c => ((), { c with pc := c.pc + n })

/-- The base of the cached code page, if the program counter is in that page. -/
def codeBase (s : Cpu D) : Option Int :=
  match s.fetch with
  | some (page, base) => if pageNumber s.core.pc = page then some base else none
  | none => none

/-- Code bytes straight from the cached page. -/
def readCode (base : Int) (n : Nat) : CpuM D (List (Option Byte)) := fun s =>
  let p := base + pageOffset s.core.pc
  ⟨.ok (s.mem.span p n), s, [.access ⟨s.space, s.mem, s.core.pc, n, false, .ok p⟩]⟩

/-- A code page is cached if its frame lies in the memory. -/
def cacheCode (pc p : Int) : CpuM D (Option Int) :=
  Logged.update fun s =>
    if 0 ≤ p - pageOffset pc ∧ p - pageOffset pc + 4096 ≤ s.mem.size then
      (some p, { s with fetch := some (pageNumber pc, p - pageOffset pc) })
    else (none, s)

/-- The part of `fetchByteSlow` that caches the page of the program counter. It returns the
address of the byte then. -/
def refill : CpuM D (Option Int) := do
  let s ← Logged.update fun s => (s, s)
  if s.space.pagingEnabled then xlateN s.core.pc 1 false >>= cacheCode s.core.pc else pure none

/-- `fetchByteSlow`. -/
def fetchByteSlow : CpuM D Word := do
  let s ← Logged.update fun s => (s, s)
  let cached ← refill
  advance 1
  match cached with
  | some p => defined (s.mem.span p 1)
  | none => rd8 s.core.pc

/-- A byte of code from the cached page. -/
def cached8 (base : Int) : CpuM D Word := do
  let found ← readCode base 1
  advance 1
  defined found

/-- An operand of four bytes from the cached page. -/
def cached32 (base : Int) : CpuM D Word := do
  let found ← readCode base 4
  advance 4
  pure (joined found)

/-- `fetch8`. -/
def fetch8 : CpuM D Word := do
  match ← Logged.update fun s => (codeBase s, s) with
  | some base => cached8 base
  | none => fetchByteSlow

/-- `fetch32`: an operand that crosses its page, or whose page is not cached, is loaded. -/
def fetch32 : CpuM D Word := do
  let s ← Logged.update fun s => (s, s)
  match if pageOffset s.core.pc ≤ 0xffc then codeBase s else none with
  | some base => cached32 base
  | none =>
    let x ← rd32 s.core.pc
    advance 4
    pure x

/-- `fetchByteSlow` from a state. -/
theorem fetchByteSlow_path (s : Cpu D) : fetchByteSlow s =
    (refill >>= fun cached => advance 1 >>= fun _ =>
      match cached with
      | some p => defined (s.mem.span p 1)
      | none => rd8 s.core.pc) s := rfl

/-- `fetch8` reads the cached page if the program counter is in it. -/
theorem fetch8_path (s : Cpu D) : fetch8 s = (match codeBase s with
    | some base => cached8 base
    | none => fetchByteSlow) s := rfl

/-- So does `fetch32`, for an operand that does not cross its page. -/
theorem fetch32_path (s : Cpu D) : fetch32 s =
    (match if pageOffset s.core.pc ≤ 0xffc then codeBase s else none with
    | some base => cached32 base
    | none => rd32 s.core.pc >>= fun x => advance 4 >>= fun _ => pure x) s := rfl

/-! ## What accesses are made of -/

/-- A property of computations that a sequence of them keeps. -/
structure Sequences (C : ∀ {α : Type}, CpuM D α → Prop) : Prop where
  pure : ∀ {α : Type} (x : α), C (Pure.pure x : CpuM D α)
  bind : ∀ {α β : Type} {m : CpuM D α} {f : α → CpuM D β}, C m → (∀ x, C (f x)) → C (m >>= f)
  raise : ∀ {α : Type} (trap : Trap), C (Logged.raise trap : CpuM D α)

section Sequences

variable {C : ∀ {α : Type}, CpuM D α → Prop}

theorem Sequences.loadBytes (rules : Sequences C) (load : ∀ n v, C (load n v)) (n : Nat) (v : Int) :
    C (loadBytes n v) := by
  induction n generalizing v with
  | zero => exact rules.pure []
  | succ n ih =>
    exact rules.bind (load 1 v) fun b => rules.bind (ih (v + 1)) fun rest => rules.pure (b ++ rest)

theorem Sequences.rdN (rules : Sequences C) (load : ∀ n v, C (load n v)) (n : Nat) (v : Int) :
    C (rdN n v) := by
  unfold Custom32.rdN
  split_ifs
  · exact load n v
  · exact rules.loadBytes load n v

theorem Sequences.wrN (rules : Sequences C) (store : ∀ v items, C (store v items)) (n : Nat)
    (v : Int) (x : Word) : C (wrN n v x) := by
  have bytewise : ∀ items v, C (storeBytes items v) := by
    intro items
    induction items with
    | nil => exact fun v => rules.pure ()
    | cons b rest ih => exact fun v => rules.bind (store v [b]) fun _ => ih (v + 1)
  unfold Custom32.wrN
  split_ifs
  · exact store v (bytesOf n x)
  · exact bytewise (bytesOf n x) v

end Sequences

/-- A property that loads have too. -/
structure Loads (C : ∀ {α : Type}, CpuM D α → Prop) : Prop extends Sequences C where
  rdN : ∀ n v, C (rdN n v : CpuM D (List (Option Byte)))

namespace Loads

variable {C : ∀ {α : Type}, CpuM D α → Prop} (loads : Loads C)
include loads

theorem defined (found : List (Option Byte)) : C (defined found : CpuM D Word) := by
  unfold Custom32.defined
  split
  · exact loads.pure _
  · exact loads.raise _

theorem rd8 (v : Int) : C (rd8 v : CpuM D Word) :=
  loads.bind (loads.rdN 1 v) loads.defined

theorem rd16 (v : Int) : C (rd16 v : CpuM D Word) :=
  loads.bind (loads.rdN 2 v) fun _ => loads.pure _

theorem rd32 (v : Int) : C (rd32 v : CpuM D Word) :=
  loads.bind (loads.rdN 4 v) fun _ => loads.pure _

end Loads

/-- The operations of an instruction fetch have the property too. -/
structure CodeReads (C : ∀ {α : Type}, CpuM D α → Prop) : Prop extends Loads C where
  look : ∀ {α : Type} (f : Cpu D → α), C (Logged.update fun s => (f s, s))
  advance : ∀ n, C (advance n : CpuM D Unit)
  xlateN : ∀ v, C (xlateN v 1 false : CpuM D Int)
  cacheCode : ∀ pc p, C (cacheCode pc p : CpuM D (Option Int))
  readCode : ∀ base n, C (readCode base n : CpuM D (List (Option Byte)))

namespace CodeReads

variable {C : ∀ {α : Type}, CpuM D α → Prop} (reads : CodeReads C)
include reads

theorem refill : C (refill : CpuM D (Option Int)) := by
  refine reads.bind (reads.look _) fun s => ?_
  split_ifs
  · exact reads.bind (reads.xlateN _) fun p => reads.cacheCode _ p
  · exact reads.pure none

theorem fetch8 : C (fetch8 : CpuM D Word) := by
  refine reads.bind (reads.look _) fun cached => ?_
  cases cached with
  | some base =>
    exact reads.bind (reads.readCode base 1) fun found => reads.bind (reads.advance 1) fun _ =>
      reads.defined found
  | none =>
    refine reads.bind (reads.look _) fun s => reads.bind reads.refill fun filled =>
      reads.bind (reads.advance 1) fun _ => ?_
    cases filled with
    | some p => exact reads.defined _
    | none => exact reads.rd8 _

theorem fetch32 : C (fetch32 : CpuM D Word) := by
  refine reads.bind (reads.look _) fun s => ?_
  rcases (if pageOffset s.core.pc ≤ 0xffc then codeBase s else none) with - | base
  · exact reads.bind (reads.rd32 _) fun x => reads.bind (reads.advance 4) fun _ => reads.pure x
  · exact reads.bind (reads.readCode base 4) fun found => reads.bind (reads.advance 4) fun _ =>
      reads.pure _

end CodeReads

/-! ## Outdated pages -/

/-- Page tables back an entry: the same frame, and at least the same permissions. -/
def Backs (found : Option PageEntry) (e : PageEntry) : Prop :=
  ∃ now, found = some now ∧ now.number = e.number ∧ (e.writable = true → now.writable = true) ∧
    (e.user = true → now.user = true)

theorem Backs.refl (e : PageEntry) : Backs (some e) e := ⟨e, rfl, rfl, id, id⟩

/-- A change removes, redirects or restricts the translation of a page. -/
def Change.Curtails (c : Change) (page : Nat) : Prop :=
  c.space.pagingEnabled = true ∧
    ∃ e, entry c.before c.space.ptbr page = some e ∧ ¬ Backs (entry c.after c.space.ptbr page) e

/-- A change has curtailed the translation of a page, and nothing was flushed since. -/
def Outdated (past : List Event) (page : Nat) : Prop :=
  ∃ earlier c since, past = earlier ++ .change c :: since ∧ .flush ∉ since ∧ c.Curtails page

/-- After a change that curtails the translation of a page, the caches are flushed before the
page is accessed. -/
def Disciplined (log : List Event) : Prop :=
  ∀ earlier c between a later,
    log = earlier ++ .change c :: (between ++ .access a :: later) →
      c.Curtails (pageNumber a.vaddr) → .flush ∈ between

variable {past : List Event} {s : Cpu D} {write : Bool}

theorem Disciplined.before {later : List Event} (whole : Disciplined (past ++ later)) :
    Disciplined past := by
  intro earlier c between a rest split
  refine whole earlier c between a (rest ++ later) ?_
  rw [split]
  simp only [List.append_assoc, List.cons_append]

theorem Disciplined.current {a : Access} (whole : Disciplined (past ++ [.access a])) :
    ¬ Outdated past (pageNumber a.vaddr) := by
  rintro ⟨earlier, c, since, rfl, unflushed, curtails⟩
  refine unflushed (whole earlier c since a [] ?_ curtails)
  simp only [List.append_assoc, List.cons_append]

theorem Outdated.later {page : Nat} {event : Event} (outdated : Outdated past page)
    (other : event ≠ .flush) :
    Outdated (past ++ [event]) page := by
  obtain ⟨earlier, c, since, rfl, unflushed, curtails⟩ := outdated
  refine ⟨earlier, c, since ++ [event], by simp, ?_, curtails⟩
  simp only [List.mem_append, List.mem_singleton, not_or]
  exact ⟨unflushed, fun same => other same.symm⟩

/-! ## Soundness of the caches -/

/-- Every logged access is that of a fresh walk, and what is cached is backed by the page
tables unless it is outdated: the code page for the given mode. -/
structure Sound (mode : Mode) (past : List Event) (s : Cpu D) : Prop where
  fresh : ∀ a, .access a ∈ past → a.result = freshXlate a.space a.mem a.vaddr a.bytes a.write
  tlb : ∀ i t, s.tlb i = some t → s.space.pagingEnabled = true ∧
    (Outdated past t.tag ∨ Backs (entry s.mem s.space.ptbr t.tag) t.entry)
  code : ∀ page base, s.fetch = some (page, base) → s.space.pagingEnabled = true ∧
    0 ≤ base ∧ base + 4096 ≤ s.mem.size ∧
    (Outdated past page ∨ ∃ e, entry s.mem s.space.ptbr page = some e ∧ e.frame = base ∧
      (mode = .user → e.user = true))

/-- The invariant of an execution: the processor is in the mode `current`, and the caches are
sound, with the code page for the mode `mode`. -/
def Tracked (mode current : Mode) (past : List Event) (s : Cpu D) : Prop :=
  s.space.mode = current ∧ (Disciplined past → Sound mode past s)

/-- A computation on the registers does not touch what the invariant is about. -/
theorem keeps_core {α : Type} (mode current : Mode) (f : Core D → α × Core D) :
    Keeps (Tracked mode current) (onCore f) :=
  keeps_update fun _ _ tracked =>
    ⟨tracked.1, fun disciplined => ⟨(tracked.2 disciplined).fresh, (tracked.2 disciplined).tlb,
      (tracked.2 disciplined).code⟩⟩

/-- An access that is logged with the result of a fresh walk. -/
theorem Sound.access {mode : Mode} {a : Access} (sound : Sound mode past s)
    (right : a.result = freshXlate a.space a.mem a.vaddr a.bytes a.write) :
    Sound mode (past ++ [.access a]) s where
  fresh b member := by
    rcases List.mem_append.mp member with old | new
    · exact sound.fresh b old
    obtain rfl : b = a := by simpa using new
    exact right
  tlb i t held := by
    obtain ⟨paged, outdated | backed⟩ := sound.tlb i t held
    · exact ⟨paged, .inl (outdated.later (by simp))⟩
    · exact ⟨paged, .inr backed⟩
  code page base held := by
    obtain ⟨paged, low, high, outdated | backed⟩ := sound.code page base held
    · exact ⟨paged, low, high, .inl (outdated.later (by simp))⟩
    · exact ⟨paged, low, high, .inr backed⟩

/-- A change of the memory leaves the caches sound: what it curtails is outdated. -/
theorem Sound.changed {mode : Mode} {after : PhysicalMemory} (sound : Sound mode past s)
    (size : after.size = s.mem.size) :
    Sound mode (past ++ [.change ⟨s.space, s.mem, after⟩]) { s with mem := after } where
  fresh a member := by
    rcases List.mem_append.mp member with old | new
    · exact sound.fresh a old
    · simp at new
  tlb i t held := by
    obtain ⟨paged, outdated | backed⟩ := sound.tlb i t held
    · exact ⟨paged, .inl (outdated.later (by simp))⟩
    refine ⟨paged, ?_⟩
    obtain ⟨now, found, number, writes, opens⟩ := backed
    by_cases still : Backs (entry after s.space.ptbr t.tag) now
    · obtain ⟨next, there, same, writes', opens'⟩ := still
      exact .inr ⟨next, there, same.trans number, writes' ∘ writes, opens' ∘ opens⟩
    · exact .inl ⟨past, _, [], rfl, by simp, paged, now, found, still⟩
  code page base held := by
    obtain ⟨paged, low, high, outdated | ⟨e, found, frame, opens⟩⟩ := sound.code page base held
    · exact ⟨paged, low, high.trans_eq size.symm, .inl (outdated.later (by simp))⟩
    refine ⟨paged, low, high.trans_eq size.symm, ?_⟩
    by_cases still : Backs (entry after s.space.ptbr page) e
    · obtain ⟨next, there, same, -, opens'⟩ := still
      refine .inr ⟨next, there, ?_, fun user => opens' (opens user)⟩
      rw [← frame, PageEntry.frame, PageEntry.frame, same]
    · exact .inl ⟨past, _, [], rfl, by simp, paged, e, found, still⟩

/-- A page whose translation allows the access. -/
theorem freshXlate_entry {space : Space} {m : PhysicalMemory} {vaddr : Int} {bytes : Nat}
    {e : PageEntry} (paged : space.pagingEnabled = true)
    (found : entry m space.ptbr (pageNumber vaddr) = some e)
    (opens : space.mode = .user → e.user = true) (writes : write = true → e.writable = true) :
    freshXlate space m vaddr bytes write = .ok (e.frame + pageOffset vaddr) := by
  have walked : walk m space.ptbr (pageNumber vaddr) write (space.mode = .user) =
      some (.found e) :=
    (walk_found_iff _ _ _ _ _ _).mpr ⟨found, fun user => opens (by simpa using user), writes⟩
  rw [freshXlate, if_neg (by simp [paged]), walked]

/-- What a hit of the TLB holds. -/
theorem tlbHit_some {page : Nat} {e : PageEntry} (hit : tlbHit s page write = some e) :
    s.tlb (page % tlbEntries) = some ⟨page, e⟩ ∧ (s.space.mode = .user → e.user = true) ∧
      (write = true → e.writable = true) := by
  unfold tlbHit at hit
  rcases held : s.tlb (page % tlbEntries) with - | ⟨tag, kept⟩
  · rw [held] at hit
    cases hit
  rw [held] at hit
  dsimp only at hit
  split_ifs at hit with allowed
  obtain rfl : kept = e := Option.some.inj hit
  obtain ⟨rfl, opens, writes⟩ := allowed
  exact ⟨rfl, opens, writes⟩

section

variable (mode current : Mode)
include mode current

theorem keeps_xlateN (vaddr : Int) (bytes : Nat) (write : Bool) :
    Keeps (Tracked mode current) (xlateN vaddr bytes write : CpuM D Int) := by
  intro past s tracked
  unfold xlateN
  dsimp only
  by_cases paged : s.space.pagingEnabled = false
  · rw [if_pos paged]
    split_ifs with outside <;>
      exact ⟨tracked.1, fun disciplined => (tracked.2 disciplined.before).access
        (by simp [freshXlate, paged, outside])⟩
  · rw [if_neg paged]
    have paged' : s.space.pagingEnabled = true := by simpa using paged
    rcases hit : tlbHit s (pageNumber vaddr) write with - | e
    · dsimp only
      -- a miss: the access is a walk, and a page that is found is cached as it was found
      rcases walked : walk s.mem s.space.ptbr (pageNumber vaddr) write
        (s.space.mode = .user) with - | ⟨present⟩ | ⟨e⟩
      · exact ⟨tracked.1, fun disciplined => (tracked.2 disciplined.before).access
          (by simp [freshXlate, paged, walked])⟩
      · refine ⟨tracked.1, fun disciplined => ?_⟩
        have sound := (tracked.2 disciplined.before).access (a := ⟨s.space, s.mem, vaddr, bytes,
          write, .error (.pageFault ⟨vaddr, write, s.space.mode = .user, present⟩)⟩)
          (by simp [freshXlate, paged, walked])
        exact ⟨sound.fresh, sound.tlb, sound.code⟩
      · refine ⟨tracked.1, fun disciplined => ?_⟩
        have sound := (tracked.2 disciplined.before).access (a := ⟨s.space, s.mem, vaddr, bytes,
          write, .ok (e.frame + pageOffset vaddr)⟩) (by simp [freshXlate, paged, walked])
        refine ⟨sound.fresh, fun i t held => ?_, sound.code⟩
        dsimp only at held
        by_cases here : i = pageNumber vaddr % tlbEntries
        · rw [here, Function.update_self] at held
          obtain rfl : _ = t := Option.some.inj held
          have found := ((walk_found_iff _ _ _ _ _ _).mp walked).1
          exact ⟨paged', .inr (found ▸ Backs.refl e)⟩
        · rw [Function.update_of_ne here] at held
          exact sound.tlb i t held
    · -- a hit: the page is not outdated, since it is accessed, so its entry is backed
      refine ⟨tracked.1, fun disciplined => ?_⟩
      have sound := tracked.2 disciplined.before
      obtain ⟨held, opens, writes⟩ := tlbHit_some hit
      obtain ⟨-, outdated | ⟨now, found, same, writes', opens'⟩⟩ := sound.tlb _ _ held
      · exact absurd outdated disciplined.current
      refine sound.access ?_
      have frame : now.frame = e.frame := by rw [PageEntry.frame, same, PageEntry.frame]
      rw [freshXlate_entry paged' found (fun user => opens' (opens user))
        (fun writing => writes' (writes writing)), frame]

theorem keeps_flushTlb : Keeps (Tracked mode current) (flushTlb : CpuM D Unit) := by
  intro past s tracked
  refine ⟨tracked.1, fun disciplined => ⟨fun a member => ?_, ?_, ?_⟩⟩
  · refine (tracked.2 disciplined.before).fresh a ?_
    simpa [flushTlb] using member
  · intro i t held
    cases held
  · intro page base held
    cases held

theorem keeps_readSpan (p : Int) (n : Nat) :
    Keeps (Tracked mode current) (readSpan p n : CpuM D (List (Option Byte))) := by
  intro past s tracked
  unfold readSpan
  split_ifs <;> simpa only [List.append_nil] using tracked

theorem keeps_writeSpan (p : Int) (items : List Byte) :
    Keeps (Tracked mode current) (writeSpan p items : CpuM D Unit) := by
  intro past s tracked
  unfold writeSpan
  split_ifs
  · simpa only [List.append_nil] using tracked
  · exact ⟨tracked.1, fun disciplined =>
      (tracked.2 disciplined.before).changed (PhysicalMemory.putAll_size _ _ _)⟩

theorem keeps_load (n : Nat) (v : Int) :
    Keeps (Tracked mode current) (load n v : CpuM D (List (Option Byte))) :=
  keeps_bind (keeps_xlateN mode current v n false) fun p => keeps_readSpan mode current p n

theorem keeps_store (v : Int) (items : List Byte) :
    Keeps (Tracked mode current) (store v items : CpuM D Unit) :=
  keeps_bind (keeps_xlateN mode current v items.length true) fun p =>
    keeps_writeSpan mode current p items

theorem sequences_keep : Sequences (fun {_} m => Keeps (Tracked mode current) (m : CpuM D _)) :=
  ⟨keeps_pure, keeps_bind, keeps_raise⟩

theorem loads_keep : Loads (fun {_} m => Keeps (Tracked mode current) (m : CpuM D _)) :=
  ⟨sequences_keep mode current, (sequences_keep mode current).rdN (keeps_load mode current)⟩

theorem keeps_wrN : ∀ n v x, Keeps (Tracked mode current) (wrN n v x : CpuM D Unit) :=
  (sequences_keep mode current).wrN (keeps_store mode current)

end

/-- An access is logged with its result, and only the TLB and the fault address change. -/
theorem xlateN_spec (vaddr : Int) (bytes : Nat) (write : Bool) (s : Cpu D) :
    (xlateN vaddr bytes write s).log =
        [.access ⟨s.space, s.mem, vaddr, bytes, write, (xlateN vaddr bytes write s).result⟩] ∧
      ∃ pfla tlb, (xlateN vaddr bytes write s).state = { s with pfla := pfla, tlb := tlb } := by
  unfold xlateN
  dsimp only
  by_cases paged : s.space.pagingEnabled = false
  · rw [if_pos paged]
    split_ifs <;> exact ⟨rfl, s.pfla, s.tlb, rfl⟩
  rw [if_neg paged]
  rcases tlbHit s (pageNumber vaddr) write with - | e
  · dsimp only
    rcases walk s.mem s.space.ptbr (pageNumber vaddr) write (s.space.mode = .user) with
      - | ⟨present⟩ | ⟨e⟩
    · exact ⟨rfl, s.pfla, s.tlb, rfl⟩
    · exact ⟨rfl, vaddr, s.tlb, rfl⟩
    · exact ⟨rfl, s.pfla, _, rfl⟩
  · exact ⟨rfl, s.pfla, s.tlb, rfl⟩

/-- A fresh walk that succeeds has found a page that allows the access. -/
theorem freshXlate_ok {space : Space} {m : PhysicalMemory} {vaddr p : Int} {bytes : Nat}
    (paged : space.pagingEnabled = true) (walked : freshXlate space m vaddr bytes write = .ok p) :
    ∃ e, entry m space.ptbr (pageNumber vaddr) = some e ∧ p = e.frame + pageOffset vaddr ∧
      (space.mode = .user → e.user = true) ∧ (write = true → e.writable = true) := by
  rw [freshXlate, if_neg (by simp [paged])] at walked
  rcases found : walk m space.ptbr (pageNumber vaddr) write (space.mode = .user) with
    - | ⟨present⟩ | ⟨e⟩
  · simp [found] at walked
  · simp [found] at walked
  · obtain ⟨listed, opens, writes⟩ := (walk_found_iff _ _ _ _ _ _).mp found
    rw [found] at walked
    exact ⟨e, listed, (Except.ok.inj walked).symm, fun user => opens (by simpa using user), writes⟩

/-- The code page is cached for the mode it was translated in. -/
theorem keeps_refill (mode : Mode) : Keeps (Tracked mode mode) (refill : CpuM D (Option Int)) := by
  refine keeps_read fun past s tracked => ?_
  split_ifs with paged
  · have after := keeps_xlateN mode mode s.core.pc 1 false past s tracked
    obtain ⟨log, pfla, tlb, state⟩ := xlateN_spec s.core.pc 1 false s
    rcases translated : (xlateN s.core.pc 1 false s).result with e | p
    · rw [bind_error translated]
      exact after
    rw [bind_ok translated]
    simp only [cacheCode, Logged.update, List.append_nil]
    split_ifs with inside
    · refine ⟨after.1, fun disciplined => ?_⟩
      have sound := after.2 disciplined
      refine ⟨sound.fresh, sound.tlb, fun page base held => ?_⟩
      obtain ⟨rfl, rfl⟩ : pageNumber s.core.pc = page ∧ p - pageOffset s.core.pc = base := by
        simpa using held
      have walked : (xlateN s.core.pc 1 false s).result =
          freshXlate s.space s.mem s.core.pc 1 false :=
        sound.fresh ⟨s.space, s.mem, s.core.pc, 1, false, (xlateN s.core.pc 1 false s).result⟩
          (by rw [log]; simp)
      rw [translated] at walked
      obtain ⟨e, found, rfl, opens, -⟩ := freshXlate_ok paged walked.symm
      rw [state] at inside ⊢
      exact ⟨paged, inside.1, inside.2,
        .inr ⟨e, found, by omega, fun user => opens (tracked.1.trans user)⟩⟩
    · exact after
  · exact keeps_pure none past s tracked

theorem codeBase_some {base : Int} (cached : codeBase s = some base) :
    s.fetch = some (pageNumber s.core.pc, base) := by
  unfold codeBase at cached
  rcases fetched : s.fetch with - | ⟨page, kept⟩
  · rw [fetched] at cached
    cases cached
  rw [fetched] at cached
  dsimp only at cached
  split_ifs at cached with here
  rw [here, Option.some.inj cached]

/-- Code that is read from the cached page is read where a fresh walk finds it. -/
theorem keeps_readCode (mode : Mode) (n : Nat) {base : Int} (s : Cpu D) (past : List Event)
    (tracked : Tracked mode mode past s) (cached : codeBase s = some base) :
    Tracked mode mode (past ++ (readCode base n s).log) (readCode base n s).state := by
  refine ⟨tracked.1, fun disciplined => ?_⟩
  have sound := tracked.2 disciplined.before
  have held : s.fetch = some (pageNumber s.core.pc, base) := codeBase_some cached
  obtain ⟨paged, -, -, outdated | ⟨e, found, rfl, opens⟩⟩ := sound.code _ _ held
  · exact absurd outdated disciplined.current
  · exact sound.access (freshXlate_entry paged found
      (fun user => opens (tracked.1.symm.trans user)) (by simp)).symm

theorem keeps_fetchByteSlow (mode : Mode) :
    Keeps (Tracked mode mode) (fetchByteSlow : CpuM D Word) := by
  refine keeps_read fun past s tracked => kept_bind (keeps_refill mode past s tracked)
    fun cached => keeps_bind (keeps_core mode mode _) fun _ => ?_
  cases cached with
  | none => exact (loads_keep mode mode).rd8 _
  | some p => exact (loads_keep mode mode).defined _

theorem keeps_fetch8 (mode : Mode) : Keeps (Tracked mode mode) (fetch8 : CpuM D Word) := by
  refine keeps_read fun past s tracked => ?_
  rcases cached : codeBase s with - | base
  · exact keeps_fetchByteSlow mode past s tracked
  · exact kept_bind (keeps_readCode mode 1 s past tracked cached) fun found =>
      keeps_bind (keeps_core mode mode _) fun _ => (loads_keep mode mode).defined found

theorem keeps_fetch32 (mode : Mode) : Keeps (Tracked mode mode) (fetch32 : CpuM D Word) := by
  refine keeps_read fun past s tracked => ?_
  rcases cached : (if pageOffset s.core.pc ≤ 0xffc then codeBase s else none) with - | base
  · exact keeps_bind ((loads_keep mode mode).rd32 _)
      (fun x => keeps_bind (keeps_core mode mode _) fun _ => keeps_pure x) past s tracked
  have here : codeBase s = some base := by
    split_ifs at cached
    exact cached
  exact kept_bind (keeps_readCode mode 4 s past tracked here) fun found =>
    keeps_bind (keeps_core mode mode _) fun _ => keeps_pure _

end JsEmulator.Custom32
