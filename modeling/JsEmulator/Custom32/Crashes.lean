import JsEmulator.Custom32.Devices
import JsEmulator.Custom32.Faults

/-!
# What `run` throws

`run` catches page faults and CPU faults. The other exceptions of a step reach the host: a
`RangeError` for a frame or a page table outside of the memory, a `PortError` for a port without
a device, and what the disk throws for a sector it does not have.

As long as the page tables and the pages that can be reached lie in the memory and the ports are
used as the devices allow, `run` returns. A word that is stored across two pages must not change
the page tables between its bytes.
-/

namespace JsEmulator.Custom32

open JsEmulator.Library JsEmulator.Library.Logged

variable {D α β : Type}
variable {f : α → CpuM D β} {m : CpuM D α} {trap : Trap} {bus : PortBus D} {v : Int} {n : Nat}

/-- The exceptions that `run` catches. -/
def Trap.Caught : Trap → Prop
  | .pageFault _ | .cpuFault _ => True
  | .rangeError | .portError | .undefinedByte => False

/-- A translation that can be used for a page: that of the page tables, or one in the TLB. -/
def Reaches (s : Cpu D) (page : Nat) (e : PageEntry) : Prop :=
  entry s.mem s.space.ptbr page = some e ∨ ∃ i, s.tlb i = some ⟨page, e⟩

/-- The page tables, the pages that can be reached and the cached code page lie in the memory. -/
structure Housed (s : Cpu D) : Prop where
  tables : s.space.pagingEnabled = true →
    ∀ page write user, walk s.mem s.space.ptbr page write user ≠ none
  pages : s.space.pagingEnabled = true → ∀ page e, Reaches s page e → Inside s.mem.size e
  code : ∀ page base, s.fetch = some (page, base) → 0 ≤ base ∧ base + 4096 ≤ s.mem.size

/-- A machine with the same page tables that can reach no other pages. -/
structure Like (s t : Cpu D) : Prop where
  space : t.space = s.space
  size : t.mem.size = s.mem.size
  tables : s.space.pagingEnabled = true → Agree s.tablesᶜ s.mem t.mem
  tlb : ∀ i page e, t.tlb i = some ⟨page, e⟩ → Reaches s page e
  code : ∀ page base, t.fetch = some (page, base) → 0 ≤ base ∧ base + 4096 ≤ s.mem.size

theorem Housed.like {s : Cpu D} (housed : Housed s) : Like s s :=
  ⟨rfl, rfl, fun _ => .refl _ _, fun i _ _ held => .inr ⟨i, held⟩, housed.code⟩

/-- What does not concern translation may change. -/
theorem Like.congr {s t t' : Cpu D} (like : Like s t) (space : t'.space = t.space)
    (mem : t'.mem = t.mem) (tlb : t'.tlb = t.tlb) (fetch : t'.fetch = t.fetch) : Like s t' :=
  ⟨space.trans like.space, mem ▸ like.size, fun paged => mem ▸ like.tables paged, tlb ▸ like.tlb,
    fetch ▸ like.code⟩

/-- A computation goes on with the same page tables, or it throws what is caught. -/
def Sane (s : Cpu D) (m : CpuM D α) (post : α → Prop) : Prop :=
  ∀ t, Like s t →
    match (m t).result with
    | .ok x => Like s (m t).state ∧ post x
    | .error trap => trap.Caught

theorem sane_bind {s : Cpu D} {mid : α → Prop} {post : β → Prop} (first : Sane s m mid)
    (next : ∀ x, mid x → Sane s (f x) post) : Sane s (m >>= f) post := by
  intro t like
  have head := first t like
  rcases returned : (m t).result with trap | x
  · rw [returned] at head
    rw [bind_error returned]
    exact head
  · rw [returned] at head
    rw [bind_ok returned]
    exact next x head.2 _ head.1

/-- What follows a look at the machine. -/
theorem sane_read {s : Cpu D} {look : Cpu D → α} {post : β → Prop}
    (next : ∀ t, Like s t → Sane s (f (look t)) post) :
    Sane s (Logged.update (fun t => (look t, t)) >>= f) post :=
  fun t like => next t like t like

theorem sane_pure {s : Cpu D} {x : α} {post : α → Prop} (holds : post x) :
    Sane s (pure x) post := fun _ like => ⟨like, holds⟩

theorem sane_fault {s : Cpu D} (kind : FaultKind) (post : α → Prop) :
    Sane s (raise (.cpuFault kind)) post := fun _ _ => trivial

theorem sane_core {s : Cpu D} (f : Core D → α × Core D) : Sane s (onCore f) fun _ => True :=
  fun _ like => ⟨like.congr rfl rfl rfl rfl, trivial⟩

/-- As many bytes as were asked for, all in the memory. -/
def Full (n : Nat) (found : List (Option Byte)) : Prop := found.length = n ∧ none ∉ found

/-- Bytes in the memory are defined. -/
theorem span_full {s t : Cpu D} (like : Like s t) {p : Int} (low : 0 ≤ p)
    (high : p + n ≤ s.mem.size) : Full n (t.mem.span p n) := by
  refine ⟨by simp [PhysicalMemory.span], fun member => ?_⟩
  obtain ⟨i, inside, missing⟩ := List.mem_map.mp member
  have bound := List.mem_range.mp inside
  rw [PhysicalMemory.at?, if_pos (by rw [like.size]; omega)] at missing
  cases missing

theorem sane_defined {s : Cpu D} {found : List (Option Byte)} (full : Full 1 found) :
    Sane s (defined found) fun _ => True := by
  obtain ⟨length, whole⟩ := full
  rcases found with - | ⟨- | b, rest⟩
  · cases length
  · exact absurd List.mem_cons_self whole
  · exact sane_pure trivial

/-! ## Loads and fetches -/

section Loads

variable {s : Cpu D} (housed : Housed s)
include housed

/-- An access within a page faults, or it is in the memory. -/
theorem sane_xlateN (fits : pageOffset v + n ≤ 4096) (write : Bool) :
    Sane s (xlateN v n write) fun p => 0 ≤ p ∧ p + n ≤ s.mem.size ∧
      (s.space.pagingEnabled = true → ∃ e, Reaches s (pageNumber v) e ∧ p = e.frame + pageOffset v) := by
  intro t like
  have inside : ∀ e, s.space.pagingEnabled = true → Reaches s (pageNumber v) e →
      0 ≤ e.frame + pageOffset v ∧ e.frame + pageOffset v + n ≤ s.mem.size := by
    intro e paged reached
    obtain ⟨low, high⟩ := housed.pages paged _ e reached
    omega
  unfold xlateN
  rw [like.space, like.size]
  by_cases paged : s.space.pagingEnabled = true
  · rw [if_neg (by simp [paged])]
    dsimp only
    rcases hit : tlbHit t (pageNumber v) write with - | e
    · dsimp only
      rw [(like.tables paged).walk fun q outside => outside]
      rcases walked : walk s.mem s.space.ptbr (pageNumber v) write (s.space.mode = .user) with
        - | present | e
      · exact absurd walked (housed.tables paged _ _ _)
      · trivial
      · have reached : Reaches s (pageNumber v) e := .inl ((walk_found_iff _ _ _ _ _ _).mp walked).1
        obtain ⟨low, high⟩ := inside e paged reached
        refine ⟨⟨rfl, like.size, like.tables, fun i page e' held => ?_, like.code⟩,
          low, high, fun _ => ⟨e, reached, rfl⟩⟩
        dsimp only at held
        by_cases here : i = pageNumber v % tlbEntries
        · subst here
          rw [Function.update_self] at held
          cases held
          exact reached
        · exact like.tlb i page e' (by rwa [Function.update_of_ne here] at held)
    · have reached : Reaches s (pageNumber v) e := like.tlb _ _ _ (tlbHit_some hit).1
      obtain ⟨low, high⟩ := inside e paged reached
      exact ⟨like, low, high, fun _ => ⟨_, reached, rfl⟩⟩
  · rw [if_pos (by simpa using paged)]
    split_ifs with outside
    · trivial
    · exact ⟨like, by omega, by omega, fun on => absurd on paged⟩

theorem sane_load (fits : pageOffset v + n ≤ 4096) : Sane s (load n v) (Full n) := by
  refine sane_bind (sane_xlateN housed fits false) fun p ⟨low, high, _⟩ t like => ?_
  rw [readSpan, if_neg (by rw [like.size]; omega)]
  exact ⟨like, span_full like low high⟩

theorem sane_loadBytes (n : Nat) (v : Int) : Sane s (loadBytes n v) (Full n) := by
  induction n generalizing v with
  | zero => exact sane_pure ⟨rfl, List.not_mem_nil⟩
  | succ n ih =>
    refine sane_bind (sane_load housed (pageOffset_lt v)) fun b ⟨one, first⟩ =>
      sane_bind (ih (v + 1)) fun rest ⟨length, others⟩ => sane_pure ⟨?_, ?_⟩
    · rw [List.length_append, one, length, Nat.add_comm]
    · exact fun member => (List.mem_append.mp member).elim first others

theorem sane_rdN (n : Nat) (v : Int) : Sane s (rdN n v) (Full n) := by
  unfold rdN
  split_ifs with fits
  · exact sane_load housed fits
  · exact sane_loadBytes housed n v

theorem sane_rd8 (v : Int) : Sane s (rd8 v) fun _ => True :=
  sane_bind (sane_rdN housed 1 v) fun _ full => sane_defined full

theorem sane_rd16 (v : Int) : Sane s (rd16 v) fun _ => True :=
  sane_bind (sane_rdN housed 2 v) fun _ _ => sane_pure trivial

theorem sane_rd32 (v : Int) : Sane s (rd32 v) fun _ => True :=
  sane_bind (sane_rdN housed 4 v) fun _ _ => sane_pure trivial

theorem sane_pop : Sane s pop fun _ => True :=
  sane_bind (sane_core _) fun sp _ => sane_bind (sane_rd32 housed sp) fun _ _ => sane_core _

theorem sane_popFrame : Sane s popFrame fun _ => True :=
  sane_bind (sane_pop housed) fun _ _ => sane_bind (sane_pop housed) fun _ _ =>
    sane_bind (sane_pop housed) fun _ _ => sane_bind (sane_pop housed) fun _ _ => sane_pure trivial

/-- The code page is cached only if it is in the memory. -/
theorem sane_refill :
    Sane s refill fun cached => ∀ p, cached = some p → 0 ≤ p ∧ p + (1 : Nat) ≤ s.mem.size := by
  refine sane_read fun t _ => ?_
  split_ifs
  · refine sane_bind (sane_xlateN housed (pageOffset_lt t.core.pc) false)
      fun p ⟨low, high, _⟩ u like => ?_
    unfold cacheCode Logged.update
    dsimp only
    split_ifs with inside
    · refine ⟨⟨like.space, like.size, like.tables, like.tlb, fun page base held => ?_⟩, ?_⟩
      · obtain ⟨-, rfl⟩ := Prod.mk.inj (Option.some.inj held)
        exact like.size ▸ inside
      · rintro q ⟨⟩
        exact ⟨low, high⟩
    · exact ⟨like, fun q impossible => by cases impossible⟩
  · exact sane_pure fun p impossible => by cases impossible

theorem sane_fetchByteSlow : Sane s fetchByteSlow fun _ => True := by
  refine sane_read fun t like => sane_bind (sane_refill housed) fun cached inside =>
    sane_bind (sane_core _) fun _ _ => ?_
  cases cached with
  | none => exact sane_rd8 housed _
  | some p =>
    obtain ⟨low, high⟩ := inside p rfl
    exact sane_defined (span_full like low high)

theorem sane_fetch8 : Sane s fetch8 fun _ => True := by
  refine sane_read fun t like => ?_
  rcases cached : codeBase t with - | base
  · exact sane_fetchByteSlow housed
  obtain ⟨low, high⟩ := like.code _ _ (codeBase_some cached)
  have reads : Sane s (readCode base 1) (Full 1) := fun u like => by
    have := pageOffset_lt u.core.pc
    exact ⟨like, span_full like (by omega) (by omega)⟩
  exact sane_bind reads fun found full => sane_bind (sane_core _) fun _ _ => sane_defined full

theorem sane_fetch32 : Sane s fetch32 fun _ => True := by
  refine sane_read fun t _ => ?_
  rcases (if pageOffset t.core.pc ≤ 0xffc then codeBase t else none) with - | base
  · exact sane_bind (sane_rd32 housed _) fun x _ => sane_bind (sane_core _) fun _ _ =>
      sane_pure trivial
  · have reads : Sane s (readCode base 4) fun _ => True := fun u like => ⟨like, trivial⟩
    exact sane_bind reads fun found _ => sane_bind (sane_core _) fun _ _ => sane_pure trivial

theorem sane_operand (k : ArgKind) : Sane s (operand fetch8 fetch32 k) fun _ => True := by
  cases k with
  | none => exact sane_pure trivial
  | reg =>
    refine sane_bind (sane_fetch8 housed) fun r _ => ?_
    unfold register
    split_ifs
    · exact sane_fault _ _
    · exact sane_pure trivial
  | word => exact sane_fetch32 housed

theorem sane_decodeWith : Sane s (decodeWith fetch8 fetch32) fun _ => True := by
  refine sane_bind (sane_fetch8 housed) fun opcode _ => ?_
  rcases mnemonicOf opcode.toNat with - | m
  · exact sane_fault _ _
  refine sane_read fun t _ => ?_
  split_ifs
  · exact sane_fault _ _
  · exact sane_bind (sane_operand housed _) fun a _ => sane_bind (sane_operand housed _)
      fun b _ => sane_pure trivial

end Loads

/-! ## Stores -/

/-- A computation that throws only what is caught. -/
def Ends (s : Cpu D) (m : CpuM D α) : Prop :=
  ∀ t, Like s t → ∀ trap, (m t).result = .error trap → trap.Caught

theorem Sane.ends {s : Cpu D} {post : α → Prop} (sane : Sane s m post) : Ends s m := by
  intro t like trap thrown
  have ended := sane t like
  rw [thrown] at ended
  exact ended

theorem Silent.ends {s : Cpu D} (silent : Silent m) : Ends s m :=
  fun t _ trap thrown => absurd thrown (silent t trap)

theorem ends_bind {s : Cpu D} {mid : α → Prop} (first : Sane s m mid)
    (next : ∀ x, mid x → Ends s (f x)) : Ends s (m >>= f) := by
  intro t like trap thrown
  have head := first t like
  rcases bind_thrown thrown with thrown | ⟨x, returned, thrown⟩
  · rwa [thrown] at head
  · rw [returned] at head
    exact next x head.2 _ head.1 trap thrown

theorem ends_then {s : Cpu D} (first : Ends s m) (next : ∀ x, Silent (f x)) : Ends s (m >>= f) := by
  intro t like trap thrown
  rcases bind_thrown thrown with thrown | ⟨x, -, thrown⟩
  · exact first t like trap thrown
  · exact absurd thrown (next x _ trap)

/-- A store of some bytes that crosses its page does not reach the page tables. -/
def Spared (s : Cpu D) (n : Nat) (v : Int) : Prop :=
  s.space.pagingEnabled = true → 4096 < pageOffset v + n →
    ∀ i : Nat, i < n → ∀ e, Reaches s (pageNumber (v + i)) e →
      e.frame + pageOffset (v + i) ∉ s.tables

section Stores

variable {s : Cpu D} (housed : Housed s)
include housed

theorem ends_store {items : List Byte} (fits : pageOffset v + items.length ≤ 4096) :
    Ends s (store v items) := by
  refine ends_bind (sane_xlateN housed fits true) fun p ⟨_, high, _⟩ t like trap thrown => ?_
  rw [writeSpan, if_neg (by rw [like.size]; omega)] at thrown
  cases thrown

/-- A byte outside of the page tables leaves them alone. -/
theorem sane_store (b : Byte)
    (spared : s.space.pagingEnabled = true → ∀ e, Reaches s (pageNumber v) e → e.frame + pageOffset v ∉ s.tables) :
    Sane s (store v [b]) fun _ => True := by
  refine sane_bind (sane_xlateN housed (pageOffset_lt v) true) fun p ⟨_, high, at_⟩ t like => ?_
  rw [writeSpan, if_neg (by rw [like.size]; exact not_lt.mpr high)]
  refine ⟨⟨like.space, ?_, fun paged => ?_, like.tlb, like.code⟩, trivial⟩
  · exact (PhysicalMemory.putAll_size _ _ _).trans like.size
  · obtain ⟨e, reached, rfl⟩ := at_ paged
    refine (like.tables paged).trans ((agree_putAll t.mem _ [b]).mono ?_)
    rintro q ⟨low, below⟩
    have here : q = e.frame + pageOffset v := by
      rw [List.length_singleton] at below
      omega
    rw [here]
    exact spared paged e reached

theorem sane_storeBytes (items : List Byte) (v : Int) (spared : s.space.pagingEnabled = true →
      ∀ i : Nat, i < items.length → ∀ e, Reaches s (pageNumber (v + i)) e →
        e.frame + pageOffset (v + i) ∉ s.tables) :
    Sane s (storeBytes items v) fun _ => True := by
  induction items generalizing v with
  | nil => exact sane_pure trivial
  | cons b rest ih =>
    refine sane_bind (sane_store housed b fun paged e reached => ?_) fun _ _ =>
      ih (v + 1) fun paged i bound e reached => ?_
    · have first := spared paged 0 (by simp) e
      rw [Nat.cast_zero, add_zero] at first
      exact first reached
    · have later := spared paged (i + 1) (by simpa using bound) e
      rw [show v + ((i + 1 : Nat) : Int) = v + 1 + i by omega] at later
      exact later reached

theorem ends_wrN (x : Word) (spared : Spared s n v) : Ends s (wrN n v x) := by
  have length : (bytesOf n x).length = n := by simp [bytesOf]
  unfold wrN
  split_ifs with fits
  · exact ends_store housed (by rw [length]; exact fits)
  · refine (sane_storeBytes housed _ v fun paged i bound => ?_).ends
    exact spared paged (by omega) i (by rwa [length] at bound)

end Stores

/-! ## An instruction -/

theorem readPort_returns {t : Cpu D} {port : Word} (wired : bus.read t.core.dev port ≠ none) :
    ∃ x, (readPort bus port t).result = .ok x := by
  rcases answer : bus.read t.core.dev port with - | ⟨x, dev, raised, off⟩
  · exact absurd answer wired
  · exact ⟨x, by
      simp [readPort, onCore, Logged.update, bind, answer, signalled, onLines, pure]⟩

theorem writePort_returns {t : Cpu D} {port x : Word} (wired : bus.write t.core.dev port x ≠ none) :
    (writePort bus port x t).result = .ok () := by
  rcases answer : bus.write t.core.dev port x with - | ⟨dev, raised, off⟩
  · exact absurd answer wired
  · simp [writePort, onCore, Logged.update, bind, answer, signalled, onLines]

/-- What an instruction may do with registers as they are: use a port as its device allows, and
store a word across two pages that are not page tables. -/
def Allowed (s : Cpu Devices) (c : Core Devices) (m : Mnemonic) (a b : Word) : Prop :=
  match m with
  | .portIn => c.dev.Readable (c.reg b)
  | .portOut => c.dev.Writable (c.reg a) (c.reg b)
  | .store => Spared s 4 b.toNat
  | .storer => Spared s 4 (c.reg a).toNat
  | .sh => Spared s 2 (c.reg a).toNat
  | .push | .call | .callr => Spared s 4 (c.sp - 4)
  | _ => True

section Instructions

variable {s t : Cpu Devices} (housed : Housed s)
include housed

theorem push_caught (like : Like s t) (x : Word) (spared : Spared s 4 (t.core.sp - 4))
    (thrown : (push x t).result = .error trap) : trap.Caught :=
  ends_wrN housed x spared { t with core := { t.core with sp := t.core.sp - 4 } }
    (like.congr rfl rfl rfl rfl) trap thrown

theorem call_caught (like : Like s t) (target : Core Devices → Core Devices)
    (spared : Spared s 4 (t.core.sp - 4))
    (thrown : ((push (BitVec.ofInt 32 t.core.pc) >>= fun _ => onCore fun c => ((), target c)) t).result = .error trap) :
    trap.Caught := by
  rcases bind_thrown thrown with thrown | ⟨u, -, thrown⟩
  · exact push_caught housed like _ spared thrown
  · cases thrown

/-- An instruction throws only what is caught if it does what is allowed. -/
theorem exec_caught (like : Like s t) {m : Mnemonic} {a b : Word} (allowed : Allowed s t.core m a b)
    (thrown : (exec machineBus m a b t).result = .error trap) : trap.Caught := by
  have load : ∀ (read : Int → CpuM Devices Word) (f : Word → Word),
      (∀ v, Sane s (read v) fun _ => True) →
      Ends s (do into a (f (← read (← regOf b).toNat)) : CpuM Devices Unit) := fun read f sane =>
    ends_bind (sane_core _) fun v _ => ends_then (sane _).ends fun _ => silent_core _
  have divides : ∀ f, Ends s (divide f a b : CpuM Devices Unit) := by
    intro f
    refine ends_bind (sane_core _) fun divisor _ => ?_
    split_ifs
    · exact (sane_fault _ fun _ => True).ends
    · exact (silent_core _).ends
  cases m with
  | portIn =>
    obtain ⟨x, returned⟩ := readPort_returns ((machineBus_read_iff _ _).mpr allowed)
    change ((readPort machineBus (t.core.reg b) >>= into a) t).result = _ at thrown
    rw [bind_ok returned] at thrown
    cases thrown
  | portOut =>
    have returned := writePort_returns ((machineBus_write_iff _ _ _).mpr allowed)
    change (writePort machineBus (t.core.reg a) (t.core.reg b) t).result = _ at thrown
    rw [returned] at thrown
    cases thrown
  | store => exact ends_wrN housed (t.core.reg a) allowed t like trap thrown
  | storer | sh => exact ends_wrN housed (t.core.reg b) allowed t like trap thrown
  | sb =>
    refine ends_wrN (n := 1) (v := (t.core.reg a).toNat) housed (t.core.reg b) ?_ t like trap thrown
    intro paged crosses
    have := pageOffset_lt (t.core.reg a).toNat
    omega
  | push => exact push_caught housed like (t.core.reg a) allowed thrown
  | call | callr => exact call_caught housed like _ allowed thrown
  | load => exact ends_then (sane_rd32 housed _).ends (fun _ => silent_core _) t like trap thrown
  | loadr => exact load rd32 id (sane_rd32 housed) t like trap thrown
  | lb => exact load rd8 id (sane_rd8 housed) t like trap thrown
  | lbs => exact load rd8 (fun x => (x.setWidth 8).signExtend 32) (sane_rd8 housed) t like trap thrown
  | lh => exact load rd16 id (sane_rd16 housed) t like trap thrown
  | lhs =>
    exact load rd16 (fun x => (x.setWidth 16).signExtend 32) (sane_rd16 housed) t like trap thrown
  | ret | pop => exact ends_then (sane_pop housed).ends (fun _ => silent_core _) t like trap thrown
  | iret =>
    exact ends_then (sane_popFrame housed).ends (fun _ _ _ impossible => by cases impossible)
      t like trap thrown
  | div | mod | idiv | imod => exact divides _ t like trap thrown
  | _ => cases thrown

end Instructions

/-! ## A run -/

/-- The machine can execute its next instruction: what it can reach is in the memory, and the
instruction at the program counter does what is allowed. -/
def Safe (s : Cpu Devices) : Prop :=
  Housed s ∧ ∀ m a b, (decode s).result = .ok (m, a, b) → Allowed s s.core m a b

theorem step_caught {s : Cpu Devices} (safe : Safe s)
    (thrown : (step machineBus s).result = .error trap) : trap.Caught := by
  obtain ⟨housed, allowed⟩ := safe
  rw [(step_checked machineBus s).1] at thrown
  have decodes := sane_decodeWith housed s housed.like
  rcases bind_thrown thrown with thrown | ⟨⟨m, a, b⟩, returned, thrown⟩
  · rwa [thrown] at decodes
  · rw [returned] at decodes
    have core := (leads_decodeWith.1 s).1
    have permitted : Allowed s (decodeWith fetch8 fetch32 s).state.core m a b := by
      have before := allowed m a b ((decode_checked s).1.trans returned)
      rw [core]
      cases m <;> exact before
    rcases bind_thrown thrown with thrown | ⟨u, -, thrown⟩
    · exact exec_caught housed decodes.1 permitted thrown
    · cases thrown

theorem silent_deliver (vector : Nat) (returnPc : Int) (errorCode : Word) (software : Bool) :
    Silent (deliver vector returnPc errorCode software : CpuM D Delivery) := by
  intro s trap thrown
  rcases deliver_cases vector returnPc errorCode software s with
    ⟨delivery, ended⟩ | ⟨handler, pushed, t, log, -, ended⟩
  · rw [ended] at thrown
    cases thrown
  · rw [ended] at thrown
    cases pushed <;> cases thrown

theorem silent_trapTo (vector : Nat) (returnPc : Int) (errorCode : Word) (otherwise : RunResult) :
    Silent (trapTo vector returnPc errorCode otherwise : CpuM D (Option RunResult)) := by
  refine silent_bind (silent_deliver _ _ _ _) fun delivery => ?_
  cases delivery <;> exact silent_pure _

/-- `run` throws only what it does not catch. -/
theorem silent_settle (old : Cpu D) {ended : Except Trap (Option Stop)}
    (caught : ∀ trap, ended = .error trap → trap.Caught) : Silent (settle old ended) := by
  rcases ended with (e | kind | - | - | -) | (- | num | -)
  · exact silent_bind (silent_bind (fun _ _ impossible => by cases impossible)
      fun _ _ _ impossible => by cases impossible) fun _ => silent_trapTo _ _ _ _
  · exact silent_trapTo _ _ _ _
  · exact absurd rfl fun same => caught _ same
  · exact absurd rfl fun same => caught _ same
  · exact absurd rfl fun same => caught _ same
  · exact silent_pure _
  · refine silent_bind (silent_core _) fun pc => silent_bind (silent_deliver _ _ _ _)
      fun delivery => ?_
    cases delivery with
    | denied => exact silent_trapTo _ _ _ _
    | _ => exact silent_pure _
  · exact silent_pure _

/-- The machine in which the next instruction is executed. -/
def ticked (s : Cpu D) : Cpu D := { s with lines := s.lines.tick }

/-- A round takes the first pending interrupt if the flag is set, and executes an instruction
otherwise. -/
theorem cycle_path (bus : PortBus D) (s : Cpu D) : cycle bus s =
    (match (ticked s).lines.pending, hasFlag s.core.flags interruptFlag with
    | line :: rest, true => do
      onLines fun l => { l with pending := rest }
      trapTo (32 + line) s.core.pc 0 (.irq line)
    | _, _ => instruction bus) (ticked s) := rfl

/-- A machine after some rounds of the loop of `run`. -/
inductive Visits (bus : PortBus D) (s : Cpu D) : Nat → Cpu D → Prop
  | start : Visits bus s 0 s
  | next {k : Nat} {t : Cpu D} : Visits bus s k t → t.lines.poweredOff = false →
      (cycle bus t).result = .ok none → Visits bus s (k + 1) (cycle bus t).state

theorem Visits.after {s t : Cpu D} {k : Nat} (on : s.lines.poweredOff = false)
    (stays : (cycle bus s).result = .ok none) (visits : Visits bus (cycle bus s).state k t) :
    Visits bus s (k + 1) t := by
  induction visits with
  | start => exact .next .start on stays
  | next _ on' stays' ih => exact .next ih on' stays'

/-- A round of the loop throws only if its instruction does. -/
theorem cycle_returns {s : Cpu Devices} (safe : Safe (ticked s)) :
    ∃ r, (cycle machineBus s).result = .ok r := by
  have silent : ∀ trap, (cycle machineBus s).result ≠ .error trap := by
    rw [cycle_path]
    have stepped : ∀ trap, (instruction machineBus (ticked s)).result ≠ .error trap :=
      silent_settle (ticked s) (fun trap thrown => step_caught safe thrown) _
    rcases (ticked s).lines.pending with - | ⟨line, rest⟩
    · exact stepped
    rcases hasFlag s.core.flags interruptFlag with - | -
    · exact stepped
    · exact silent_bind (fun _ _ impossible => by cases impossible)
        (fun _ => silent_trapTo _ _ _ _) (ticked s)
  rcases returned : (cycle machineBus s).result with trap | r
  · exact absurd returned (silent trap)
  · exact ⟨r, rfl⟩

/-- `run` returns if every machine on the way can execute its next instruction. -/
theorem run_returns (n : Nat) (s : Cpu Devices)
    (safe : ∀ k < n, ∀ t, Visits machineBus s k t → Safe (ticked t)) :
    ∃ r, (run machineBus n s).result = .ok r := by
  induction n generalizing s with
  | zero => exact ⟨.timer, rfl⟩
  | succ n ih =>
    rw [run_path]
    split_ifs with off
    · exact ⟨.halt, rfl⟩
    obtain ⟨ended | result, returned⟩ := cycle_returns (safe 0 (by omega) s .start)
    · rw [bind_ok returned]
      refine ih _ fun k below t visits => ?_
      exact safe (k + 1) (by omega) t (visits.after (by simpa using off) returned)
    · rw [bind_ok returned]
      exact ⟨result, rfl⟩

/-! ## A small machine with devices -/

/-- The devices of a machine with an empty disk. -/
def noDevices : Devices :=
  ⟨[], [], false, ⟨0, fun _ => 0, 0⟩, fun _ => 0, 0, 1, ⟨[], 0, 0, [], []⟩⟩

/-- A machine at the start of its memory, or of its first page. -/
def machineAt (paged : Bool) (mem : PhysicalMemory) (regs : Fin 8 → Word) : Cpu Devices :=
  { core := ⟨regs, 0, 0, 0, 0, 0, noDevices⟩
    space := ⟨.kernel, 0x1000, paged⟩
    mem := mem
    pfla := 0
    errorCode := 0
    lines := ⟨[], 0, 0, false⟩
    tlb := fun _ => none
    fetch := none }

/-- One instruction on two registers: the first holds a port, the second the number seven. -/
def portInstruction (opcode : Byte) (port : Word) : Cpu Devices :=
  machineAt false ⟨1, fun p => if p = 0 then opcode else if p = 2 then 1 else 0⟩
    fun r => if r = 0 then port else 7

/-- A byte is written to the console. -/
theorem run_returns_console : ∃ r, (run machineBus 1 (portInstruction 0x44 0x3f8)).result = .ok r := by
  refine run_returns 1 _ fun k below t visits => ?_
  obtain rfl : k = 0 := by omega
  cases visits
  refine ⟨⟨?_, ?_, ?_⟩, fun m a b decoded => ?_⟩
  · intro impossible
    cases impossible
  · intro impossible
    cases impossible
  · intro page base impossible
    cases impossible
  · have found : (decode (ticked (portInstruction 0x44 0x3f8))).result = .ok (.portOut, 0, 1) := by
      rfl
    rw [found] at decoded
    cases decoded
    trivial

/-- A port without a device, a sector that the disk does not have, and a page whose frame is
outside of the memory. -/
theorem run_throws :
    (run machineBus 1 (portInstruction 0x43 0x3f8)).result = .error .portError ∧
    (run machineBus 1 (portInstruction 0x44 0x1f2)).result = .error .portError ∧
    (run machineBus 1 (machineAt true (smallMemory 4 fun p => if p = 0x2004 then 0x07
      else if p = 0x2005 then 0x50 else if p = 0x3000 then 0x03 else if p = 0x3003 then 0x10
      else 0) fun _ => 0)).result = .error .rangeError := by
  refine ⟨rfl, rfl, ?_⟩
  decide +kernel

end JsEmulator.Custom32
