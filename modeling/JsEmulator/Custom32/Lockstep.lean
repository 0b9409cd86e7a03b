import JsEmulator.Custom32.Execution
import Mathlib.Data.Set.Basic
import Mathlib.Data.Set.Insert

/-!
# Two machines in step

An instruction executed on two machines with the same registers. The second one maps at least
the pages of the first, with at least the same permissions; a page may have another frame
there, with the same contents, if the first machine cannot write it. Then the first machine
either does what the second does, or it stops at a page that the second maps differently,
after a part of the second one's stores.

Bytes in which the memories may differ are named: those the instruction has stored to in an
earlier attempt, which it must not read, and those it stores to now.
-/

namespace JsEmulator.Custom32

open JsEmulator.Library JsEmulator.Library.Logged

variable {D α β : Type}
variable {s : Cpu D} {m : CpuM D α} {f : α → CpuM D β} {items : List Byte}

namespace PhysicalMemory

theorem at?_put (m : PhysicalMemory) (p q : Int) (b : Byte) :
    (m.put p b).at? q = if q = p ∧ 0 ≤ p ∧ p < m.size then some b else m.at? q := by
  rw [at?, put_size]
  by_cases there : 0 ≤ q ∧ q < m.size
  · rw [if_pos there, at?, if_pos there, put]
    by_cases here : q = p
    · subst here
      rw [if_pos there, if_pos ⟨rfl, there⟩]
      exact congrArg some (Function.update_self ..)
    rw [if_neg (fun both : q = p ∧ _ => here both.1)]
    split_ifs
    · exact congrArg some (Function.update_of_ne (by omega) ..)
    · rfl
  · rw [if_neg there, at?, if_neg there, if_neg (by omega)]

theorem at?_putAll_outside (m : PhysicalMemory) {p q : Int} (outside : q < p ∨ p + items.length ≤ q) :
    (m.putAll p items).at? q = m.at? q := by
  induction items generalizing m p with
  | nil => rfl
  | cons b rest ih =>
    rw [List.length_cons] at outside
    rw [putAll, ih (m.put p b) (by push_cast at outside; omega), at?_put,
      if_neg (by push_cast at outside; omega)]

/-- What is written to two memories of one size is the same afterwards. -/
theorem at?_putAll_same {m m' : PhysicalMemory} {p q : Int} (size : m.size = m'.size)
    (covered : (p ≤ q ∧ q < p + items.length) ∨ m.at? q = m'.at? q) :
    (m.putAll p items).at? q = (m'.putAll p items).at? q := by
  induction items generalizing m m' p with
  | nil =>
    rcases covered with covered | same
    · simp only [List.length_nil] at covered
      omega
    · exact same
  | cons b rest ih =>
    refine ih (by rw [put_size, put_size, size]) ?_
    rw [List.length_cons] at covered
    by_cases here : q = p
    · refine .inr ?_
      rw [at?_put, at?_put, size]
      split_ifs with inside
      · rfl
      · have outside : ¬ (0 ≤ q ∧ q < m'.size) := by omega
        rw [at?, at?, if_neg outside, if_neg (by omega)]
    · rcases covered with covered | same
      · exact .inl (by push_cast at covered; omega)
      · refine .inr ?_
        rw [at?_put, at?_put, if_neg (fun both => here both.1), if_neg (fun both => here both.1),
          same]

end PhysicalMemory

/-! ## Coherent caches -/

/-- The caches agree with the page tables. -/
def Coherent (s : Cpu D) : Prop := Sound s.space.mode [] s

theorem Coherent.congr {t : Cpu D} (coherent : Coherent s) (space : t.space = s.space)
    (mem : t.mem = s.mem) (tlb : t.tlb = s.tlb) (fetch : t.fetch = s.fetch) : Coherent t := by
  refine ⟨fun a member => absurd member List.not_mem_nil, ?_, ?_⟩
  · rw [tlb, space, mem]
    exact coherent.tlb
  · rw [fetch, space, mem]
    exact coherent.code

/-- A change that no walk of the page tables notices, as one outside of them. -/
def Change.Harmless (c : Change) : Prop :=
  ∀ page write user,
    walk c.after c.space.ptbr page write user = walk c.before c.space.ptbr page write user

theorem Change.Harmless.kept {c : Change} (harmless : c.Harmless) (page : Nat) :
    ¬ c.Curtails page := by
  rintro ⟨-, e, found, lost⟩
  refine lost ?_
  have same : entry c.after c.space.ptbr page = entry c.before c.space.ptbr page := by
    rw [entry, entry, harmless]
  rw [same, found]
  exact .refl e

/-- What keeps the caches sound keeps them coherent, and every access is that of a fresh walk,
if its stores leave the page tables alone. -/
theorem coherent_after (kept : Keeps (Tracked s.space.mode s.space.mode) m) (coherent : Coherent s)
    (harmless : ∀ c, .change c ∈ (m s).log → c.Harmless) :
    Coherent (m s).state ∧ ∀ a, .access a ∈ (m s).log →
      a.result = freshXlate a.space a.mem a.vaddr a.bytes a.write := by
  have after : Tracked s.space.mode s.space.mode (m s).log (m s).state :=
    kept [] s ⟨rfl, fun _ => coherent⟩
  have current : ∀ page, ¬ Outdated (m s).log page := by
    rintro page ⟨earlier, c, since, split, -, curtails⟩
    exact (harmless c (by rw [split]; simp)).kept page curtails
  have sound := after.2 fun earlier c between a later split curtails =>
    absurd curtails ((harmless c (by rw [split]; simp)).kept _)
  refine ⟨?_, sound.fresh⟩
  rw [Coherent, after.1]
  refine ⟨fun a member => absurd member List.not_mem_nil, fun i t held => ?_,
    fun page base held => ?_⟩
  · obtain ⟨paged, outdated | backed⟩ := sound.tlb i t held
    · exact absurd outdated (current _)
    · exact ⟨paged, .inr backed⟩
  · obtain ⟨paged, low, high, outdated | backed⟩ := sound.code page base held
    · exact absurd outdated (current _)
    · exact ⟨paged, low, high, .inr backed⟩

theorem xlateN_fresh (coherent : Coherent s) (v : Int) (n : Nat) (write : Bool) :
    (xlateN v n write s).result = freshXlate s.space s.mem v n write ∧
      Coherent (xlateN v n write s).state := by
  obtain ⟨log, -⟩ := xlateN_spec v n write s
  obtain ⟨after, fresh⟩ := coherent_after (keeps_xlateN _ _ v n write) coherent
    (fun c member => by rw [log] at member; simp at member)
  exact ⟨fresh ⟨s.space, s.mem, v, n, write, (xlateN v n write s).result⟩
    (by rw [log]; simp), after⟩

/-- The cached code page is where a fresh walk finds it. -/
theorem codeBase_fresh (coherent : Coherent s) {base : Int} (cached : codeBase s = some base)
    (n : Nat) :
    freshXlate s.space s.mem s.core.pc n false = .ok (base + pageOffset s.core.pc) ∧
      0 ≤ base ∧ base + 4096 ≤ s.mem.size := by
  have held : s.fetch = some (pageNumber s.core.pc, base) := codeBase_some cached
  obtain ⟨paged, low, high, ⟨_, _, _, split, -⟩ | ⟨e, found, rfl, opens⟩⟩ := coherent.code _ _ held
  · simp at split
  · exact ⟨freshXlate_entry paged found opens (by simp), low, high⟩

/-! ## What a log says -/

/-- The bytes that the stores of a log go to. -/
def stores (log : List Event) : Set Int :=
  { q | ∃ a p, .access a ∈ log ∧ a.write = true ∧ a.result = .ok p ∧ p ≤ q ∧ q < p + a.bytes }

@[simp] theorem stores_nil : stores [] = ∅ := by
  ext q
  simp [stores]

@[simp] theorem stores_append (first rest : List Event) :
    stores (first ++ rest) = stores first ∪ stores rest := by
  ext q
  constructor
  · rintro ⟨a, p, member, found⟩
    rcases List.mem_append.mp member with member | member
    · exact .inl ⟨a, p, member, found⟩
    · exact .inr ⟨a, p, member, found⟩
  · rintro (⟨a, p, member, found⟩ | ⟨a, p, member, found⟩)
    · exact ⟨a, p, List.mem_append_left _ member, found⟩
    · exact ⟨a, p, List.mem_append_right _ member, found⟩

/-- What an instruction may do: its loads avoid some bytes, its stores stay within some bytes
and leave the page tables alone. -/
def Fine (avoid within : Set Int) : Event → Prop
  | .access a => ∀ p, a.result = .ok p → ∀ i : Nat, i < a.bytes →
      if a.write = true then p + i ∈ within else p + i ∉ avoid
  | .change c => c.Harmless
  | .flush | .report => True

theorem stores_within {avoid within : Set Int} {log : List Event}
    (fine : ∀ event ∈ log, Fine avoid within event) : stores log ⊆ within := by
  rintro q ⟨a, p, member, write, found, low, high⟩
  have inside := fine _ member p found (q - p).toNat (by omega)
  rw [if_pos write, Int.toNat_of_nonneg (by omega)] at inside
  rwa [show p + (q - p) = q by omega] at inside

/-- An instruction that has been executed to its end: it returned, or it raised a fault that is
not one of its memory accesses. -/
def Settled (r : Except Trap α) : Prop :=
  (∃ a, r = .ok a) ∨ ∃ kind, r = .error (.cpuFault kind)

/-! ## The two machines -/

/-- A frame that lies in the memory. -/
def Inside (size : Int) (e : PageEntry) : Prop := 0 ≤ e.frame ∧ e.frame + 4096 ≤ size

/-- What is fixed while an instruction is executed on two machines: the bytes of each that it
leaves alone and those it may store to, and the translations of the two machines. The second
one allows what the first one allows, and has the same frame if that can be written. -/
structure Setting where
  old₁ : Set Int
  old₂ : Set Int
  new₁ : Set Int
  new₂ : Set Int
  map₁ : Nat → Option PageEntry
  map₂ : Nat → Option PageEntry
  size : Int
  fits : ∀ z e, map₁ z = some e → ∃ e', map₂ z = some e' ∧
    (e.user = true → e'.user = true) ∧
    (e.writable = true → e'.writable = true ∧ e'.number = e.number) ∧
    (e'.number = e.number ∨ Inside size e ∧ Inside size e')

/-- The registers agree, and so does the memory, page by page: in the bytes that were stored to
since the instruction began, and in those that no attempt has stored to. -/
structure Match (g : Setting) (stored : Set Int) (s t : Cpu D) : Prop where
  core : s.core = t.core
  space : s.space = t.space
  bytes : ∀ z e e', g.map₁ z = some e → g.map₂ z = some e' → ∀ off : Nat, off < 4096 →
    e.frame + off ∉ g.old₁ ∪ stored → e'.frame + off ∉ g.old₂ ∪ stored →
    s.mem.at? (e.frame + off) = t.mem.at? (e'.frame + off)
  same : ∀ q ∈ stored, s.mem.at? q = t.mem.at? q

/-- The machines are at the same point of the instruction. -/
structure Link (g : Setting) (stored : Set Int) (s t : Cpu D) : Prop extends
    Match g stored s t where
  paged : t.space.pagingEnabled = true
  coherent₁ : Coherent s
  coherent₂ : Coherent t
  size₁ : s.mem.size = g.size
  size₂ : t.mem.size = g.size
  table₁ : ∀ z, entry s.mem s.space.ptbr z = g.map₁ z
  table₂ : ∀ z, entry t.mem t.space.ptbr z = g.map₂ z

/-- The first machine stops at a page that the second one maps differently, after a part of the
stores. -/
def Short (g : Setting) (first second : Outcome Trap (Cpu D) Event α) : Prop :=
  (∃ trap, first.result = .error trap) ∧ stores first.log ⊆ stores second.log ∧
    g.map₁ ≠ g.map₂

/-- What the second machine settles without a look at its last fault, the first one does as
well, to states in a relation, or it stops short. -/
def FollowsTo (g : Setting) (rel : Set Int → Cpu D → Cpu D → Prop) (m : CpuM D α) : Prop :=
  ∀ stored s t, stored ⊆ g.new₁ → stored ⊆ g.new₂ → Link g stored s t →
    (∀ event ∈ (m s).log, Fine (g.old₁ ∪ g.new₁) g.new₁ event) →
    (∀ event ∈ (m t).log, Fine (g.old₂ ∪ g.new₂) g.new₂ event) →
    .report ∉ (m t).log → Settled (m t).result →
    ((m s).result = (m t).result ∧ stores (m s).log = stores (m t).log ∧
      rel (stored ∪ stores (m t).log) (m s).state (m t).state) ∨ Short g (m s) (m t)

/-- The machines stay at the same point. -/
def Follows (g : Setting) (m : CpuM D α) : Prop := FollowsTo g (Link g) m

variable {g : Setting}

/-- States with the same registers, and the memory and the page tables the machines had. -/
theorem Link.moved {stored : Set Int} {t s' t' : Cpu D} (link : Link g stored s t)
    (core : s'.core = t'.core) (kept₁ : s'.space = s.space ∧ s'.mem = s.mem)
    (kept₂ : t'.space = t.space ∧ t'.mem = t.mem) (coherent₁ : Coherent s')
    (coherent₂ : Coherent t') : Link g stored s' t' := by
  obtain ⟨space₁, mem₁⟩ := kept₁
  obtain ⟨space₂, mem₂⟩ := kept₂
  refine ⟨⟨core, by rw [space₁, space₂, link.space], ?_, ?_⟩, by rw [space₂, link.paged],
    coherent₁, coherent₂, by rw [mem₁, link.size₁], by rw [mem₂, link.size₂], ?_, ?_⟩
  · rw [mem₁, mem₂]
    exact link.bytes
  · rw [mem₁, mem₂]
    exact link.same
  · rw [mem₁, space₁]
    exact link.table₁
  · rw [mem₂, space₂]
    exact link.table₂

theorem followsTo_bind {rel : Set Int → Cpu D → Cpu D → Prop}
    (weaker : ∀ stored s t, Link g stored s t → rel stored s t) (first : Follows g m)
    (next : ∀ a, FollowsTo g rel (f a)) : FollowsTo g rel (m >>= f) := by
  intro stored s t within₁ within₂ link fine₁ fine₂ quiet settled
  have head₁ : ∀ event ∈ (m s).log, Fine (g.old₁ ∪ g.new₁) g.new₁ event :=
    fun event member => fine₁ event (mem_bind_log member)
  rcases returned₂ : (m t).result with trap | a
  · -- the second machine raised a fault in the first part
    rw [bind_error returned₂] at fine₂ quiet settled ⊢
    have ended : Settled (m t).result := by
      rw [returned₂]
      obtain ⟨x, impossible⟩ | ⟨kind, same⟩ := settled
      · cases impossible
      cases same
      exact .inr ⟨kind, rfl⟩
    rcases first stored s t within₁ within₂ link head₁ fine₂ quiet ended with
      ⟨same, sameStores, after⟩ | ⟨⟨trap', stopped⟩, part, differs⟩
    · rw [returned₂] at same
      rw [bind_error same]
      exact .inl ⟨rfl, sameStores, weaker _ _ _ after⟩
    · rw [bind_error stopped]
      exact .inr ⟨⟨trap', rfl⟩, part, differs⟩
  · rw [bind_ok returned₂] at fine₂ quiet settled ⊢
    have head₂ : ∀ event ∈ (m t).log, Fine (g.old₂ ∪ g.new₂) g.new₂ event :=
      fun event member => fine₂ event (List.mem_append_left _ member)
    rcases first stored s t within₁ within₂ link head₁ head₂
      (fun member => quiet (List.mem_append_left _ member)) (returned₂ ▸ .inl ⟨a, rfl⟩) with
      ⟨same, sameStores, after⟩ | ⟨⟨trap', stopped⟩, part, differs⟩
    · rw [returned₂] at same
      rw [bind_ok same] at fine₁ ⊢
      have grown₂ : stores (m t).log ⊆ g.new₂ := stores_within head₂
      have grown₁ : stores (m t).log ⊆ g.new₁ := sameStores ▸ stores_within head₁
      rcases next a _ _ _ (Set.union_subset within₁ grown₁) (Set.union_subset within₂ grown₂)
        after (fun event member => fine₁ event (List.mem_append_right _ member))
        (fun event member => fine₂ event (List.mem_append_right _ member))
        (fun member => quiet (List.mem_append_right _ member)) settled with
        ⟨same', sameStores', after'⟩ | ⟨stopped, part, differs⟩
      · refine .inl ⟨same', ?_, ?_⟩
        · rw [stores_append, stores_append, sameStores, sameStores']
        · rw [stores_append, ← Set.union_assoc]
          exact after'
      · refine .inr ⟨stopped, ?_, differs⟩
        rw [stores_append, stores_append, sameStores]
        exact Set.union_subset_union_right _ part
    · rw [bind_error stopped]
      refine .inr ⟨⟨trap', rfl⟩, ?_, differs⟩
      rw [stores_append]
      exact part.trans Set.subset_union_left

theorem follows_bind (first : Follows g m) (next : ∀ a, Follows g (f a)) : Follows g (m >>= f) :=
  followsTo_bind (fun _ _ _ link => link) first next

/-- A computation that changes the registers or the lines alone, in the same way. -/
theorem follows_quiet (log : ∀ s, (m s).log = [])
    (agrees : ∀ s t : Cpu D, s.core = t.core → s.space = t.space → (m s).result = (m t).result ∧ (m s).state.core = (m t).state.core)
    (kept : ∀ s, (m s).state.space = s.space ∧ (m s).state.mem = s.mem ∧ (m s).state.tlb = s.tlb ∧ (m s).state.fetch = s.fetch) :
    Follows g m := by
  intro stored s t _ _ link _ _ _ _
  obtain ⟨result, core⟩ := agrees s t link.core link.space
  obtain ⟨space₁, mem₁, tlb₁, fetch₁⟩ := kept s
  obtain ⟨space₂, mem₂, tlb₂, fetch₂⟩ := kept t
  refine .inl ⟨result, by rw [log, log], ?_⟩
  rw [log, stores_nil, Set.union_empty]
  exact link.moved core ⟨space₁, mem₁⟩ ⟨space₂, mem₂⟩
    (link.coherent₁.congr space₁ mem₁ tlb₁ fetch₁) (link.coherent₂.congr space₂ mem₂ tlb₂ fetch₂)

/-! ## Loads -/

/-- What comes of loading a number of bytes of one page. -/
def loaded (s : Cpu D) (n : Nat) (v : Int) (make : List (Option Byte) → Except Trap α) :
    Except Trap α :=
  match freshXlate s.space s.mem v n false with
  | .error trap => .error trap
  | .ok p => if s.mem.size < p + n then .error .rangeError else make (s.mem.span p n)

theorem loaded_make (s : Cpu D) (n : Nat) (v : Int) (make : List (Option Byte) → Except Trap α) :
    loaded s n v make =
      match loaded s n v .ok with
      | .error trap => .error trap
      | .ok found => make found := by
  unfold loaded
  rcases freshXlate s.space s.mem v n false with trap | p
  · rfl
  · dsimp only
    split_ifs <;> rfl

/-- A computation loads a number of bytes of one page, makes a result of them, and moves the
program counter. -/
structure Reads (n adv : Nat) (v : Int) (make : List (Option Byte) → Except Trap α)
    (s : Cpu D) (o : Outcome Trap (Cpu D) Event α) : Prop where
  result : o.result = loaded s n v make
  ends : ∀ x, o.result = .ok x → o.state.core = { s.core with pc := s.core.pc + adv }
  logged : .access ⟨s.space, s.mem, v, n, false, freshXlate s.space s.mem v n false⟩ ∈ o.log
  silent : stores o.log = ∅
  space : o.state.space = s.space
  mem : o.state.mem = s.mem
  coherent : Coherent o.state

/-- A page that the second machine can access: the first one cannot, or it can where the page
is in its own memory. -/
theorem Link.translate {stored : Set Int} {t : Cpu D} (link : Link g stored s t) {v p : Int}
    {n : Nat} {write : Bool} (fits : pageOffset v + n ≤ 4096)
    (found : freshXlate t.space t.mem v n write = .ok p) (inside : ¬ t.mem.size < p + n) :
    ((∃ trap, freshXlate s.space s.mem v n write = .error trap) ∧
      g.map₁ ≠ g.map₂) ∨
    ∃ e e', g.map₁ (pageNumber v) = some e ∧ g.map₂ (pageNumber v) = some e' ∧
      p = e'.frame + pageOffset v ∧
      freshXlate s.space s.mem v n write = .ok (e.frame + pageOffset v) ∧
      ¬ s.mem.size < e.frame + pageOffset v + n ∧
      (write = true → e'.frame = e.frame) := by
  obtain ⟨e', listed, rfl, opens, writes⟩ := freshXlate_ok link.paged found
  rw [link.table₂] at listed
  have paged : s.space.pagingEnabled = true := link.space ▸ link.paged
  rcases first : freshXlate s.space s.mem v n write with trap | p
  · refine .inl ⟨⟨trap, rfl⟩, fun same => ?_⟩
    have mapped : entry s.mem s.space.ptbr (pageNumber v) = some e' := by
      rw [link.table₁, same, listed]
    rw [freshXlate_entry paged mapped (fun user => opens (link.space ▸ user)) writes] at first
    cases first
  · obtain ⟨e, mapped, rfl, -, writes₁⟩ := freshXlate_ok paged first
    rw [link.table₁] at mapped
    obtain ⟨e₂, listed₂, -, frame, near⟩ := g.fits _ e mapped
    obtain rfl : e' = e₂ := Option.some.inj (listed.symm.trans listed₂)
    refine .inr ⟨e, e', mapped, listed, rfl, rfl, ?_, fun writing => ?_⟩
    · rw [link.size₁]
      rw [link.size₂] at inside
      rcases near with number | ⟨here, -⟩
      · rw [PageEntry.frame, ← number, ← PageEntry.frame]
        exact inside
      · have := here.2
        omega
    · rw [PageEntry.frame, (frame (writes₁ writing)).2, PageEntry.frame]

theorem follows_reads {n adv : Nat} {v : Core D → Int} {make : List (Option Byte) → Except Trap α}
    (plain : ∀ found kind, make found ≠ .error (.cpuFault kind))
    (reads : ∀ s : Cpu D, Coherent s → s.space.pagingEnabled = true → pageOffset (v s.core) + n ≤ 4096 → Reads n adv (v s.core) make s (m s)) :
    ∀ stored s t, pageOffset (v s.core) + n ≤ 4096 → stored ⊆ g.new₁ → stored ⊆ g.new₂ →
    Link g stored s t →
    (∀ event ∈ (m s).log, Fine (g.old₁ ∪ g.new₁) g.new₁ event) →
    (∀ event ∈ (m t).log, Fine (g.old₂ ∪ g.new₂) g.new₂ event) →
    .report ∉ (m t).log → Settled (m t).result →
    ((m s).result = (m t).result ∧ stores (m s).log = stores (m t).log ∧
      Link g (stored ∪ stores (m t).log) (m s).state (m t).state) ∨ Short g (m s) (m t) := by
  intro stored s t fits within₁ within₂ link fine₁ fine₂ quiet settled
  have paged : s.space.pagingEnabled = true := link.space ▸ link.paged
  have reads₁ := reads s link.coherent₁ paged fits
  have reads₂ := reads t link.coherent₂ link.paged (link.core ▸ fits)
  rw [← link.core] at reads₂
  have access₂ := fine₂ _ reads₂.logged
  have result₁ := reads₁.result
  have result₂ := reads₂.result
  rw [result₂] at settled
  unfold loaded at result₁ result₂ settled
  rcases walked : freshXlate t.space t.mem (v s.core) n false with trap | p
  · -- a load that the second machine cannot do settles nothing
    rw [walked] at settled
    obtain ⟨x, impossible⟩ | ⟨kind, same⟩ := settled
    · cases impossible
    cases same
    rw [freshXlate, if_neg (by simp [link.paged])] at walked
    split at walked <;> cases walked
  rw [walked] at settled result₂
  dsimp only at settled result₂
  by_cases beyond : t.mem.size < p + n
  · rw [if_pos beyond] at settled
    obtain ⟨x, impossible⟩ | ⟨kind, impossible⟩ := settled <;> cases impossible
  rw [if_neg beyond] at settled result₂
  rcases link.translate fits walked beyond with
    ⟨⟨trap, blocked⟩, differs⟩ | ⟨e, e', mapped, listed, rfl, here, inside, -⟩
  · rw [blocked] at result₁
    exact .inr ⟨⟨trap, result₁⟩, by rw [reads₁.silent]; exact Set.empty_subset _, differs⟩
  rw [here] at result₁
  dsimp only at result₁
  rw [if_neg inside] at result₁
  have access₁ := fine₁ _ reads₁.logged
  have spans : s.mem.span (e.frame + pageOffset (v s.core)) n =
      t.mem.span (e'.frame + pageOffset (v s.core)) n := by
    refine List.map_congr_left fun (i : Nat) (member : i ∈ List.range n) => ?_
    have bound : i < n := List.mem_range.mp member
    have avoid₁ := access₁ _ here i bound
    have avoid₂ := access₂ _ walked i bound
    rw [if_neg (by simp)] at avoid₁ avoid₂
    have bytes := link.bytes _ e e' mapped listed (pageOffset (v s.core) + i) (by omega)
    rw [Nat.cast_add, ← add_assoc, ← add_assoc] at bytes
    exact bytes (fun bad => avoid₁ (bad.imp_right (within₁ ·)))
      (fun bad => avoid₂ (bad.imp_right (within₂ ·)))
  have result : (m s).result = (m t).result := by rw [result₁, result₂, spans]
  obtain ⟨x, returned⟩ : ∃ x, (m t).result = .ok x := by
    obtain ⟨x, ok⟩ | ⟨kind, impossible⟩ := settled
    · exact ⟨x, result₂.trans ok⟩
    · exact absurd impossible (plain _ kind)
  refine .inl ⟨result, by rw [reads₁.silent, reads₂.silent], ?_⟩
  rw [reads₂.silent, Set.union_empty]
  refine link.moved ?_ ⟨reads₁.space, reads₁.mem⟩ ⟨reads₂.space, reads₂.mem⟩ reads₁.coherent
    reads₂.coherent
  rw [reads₁.ends x (result.trans returned), reads₂.ends x returned, link.core]

/-! ## Computations that only look -/

/-- Registers that agree but for the program counter and the stack pointer. -/
def Core.Kept (c c' : Core D) : Prop := c' = { c with pc := c'.pc, sp := c'.sp }

theorem Core.Kept.trans {c c' c'' : Core D} (first : c.Kept c') (second : c'.Kept c'') :
    c.Kept c'' := by
  unfold Core.Kept at *
  rw [second, first]

/-- A computation that loads only, and moves no more than the program counter and the stack
pointer. -/
def Looks (m : CpuM D α) : Prop :=
  ∀ s, (∀ event ∈ (m s).log, ∃ a, event = .access a ∧ a.write = false) ∧
    (m s).state.space = s.space ∧ (m s).state.mem = s.mem ∧ s.core.Kept (m s).state.core

theorem looks_pure (x : α) : Looks (pure x : CpuM D α) := fun _ => ⟨by simp [pure_apply], rfl, rfl, rfl⟩

theorem looks_raise (trap : Trap) : Looks (raise trap : CpuM D α) :=
  fun _ => ⟨by simp [raise], rfl, rfl, rfl⟩

theorem looks_update {f : Cpu D → α × Cpu D}
    (kept : ∀ s, (f s).2.space = s.space ∧ (f s).2.mem = s.mem ∧ s.core.Kept (f s).2.core) :
    Looks (Logged.update f : CpuM D α) := fun s => ⟨by simp [Logged.update], kept s⟩

theorem looks_bind (first : Looks m) (next : ∀ a, Looks (f a)) : Looks (m >>= f) := by
  intro s
  obtain ⟨log, space, mem, core⟩ := first s
  rcases returned : (m s).result with e | a
  · rw [bind_error returned]
    exact ⟨log, space, mem, core⟩
  obtain ⟨log', space', mem', core'⟩ := next a (m s).state
  rw [bind_ok returned]
  refine ⟨fun event member => ?_, space'.trans space, mem'.trans mem, core.trans core'⟩
  exact (List.mem_append.mp member).elim (log event) (log' event)

theorem looks_xlateN (v : Int) (n : Nat) : Looks (xlateN v n false : CpuM D Int) := by
  intro s
  obtain ⟨log, pfla, tlb, state⟩ := xlateN_spec v n false s
  rw [log, state]
  exact ⟨fun event member => ⟨_, List.mem_singleton.mp member, rfl⟩, rfl, rfl, rfl⟩

theorem looks_load (n : Nat) (v : Int) : Looks (load n v : CpuM D (List (Option Byte))) := by
  refine looks_bind (looks_xlateN v n) fun p s => ?_
  unfold readSpan
  split_ifs <;> exact ⟨by simp, rfl, rfl, rfl⟩

/-- Loads and instruction fetches only look. -/
theorem codeReads_looks : CodeReads (fun {_} m => Looks (m : CpuM D _)) where
  pure := looks_pure
  bind := looks_bind
  raise := looks_raise
  rdN := Sequences.rdN ⟨looks_pure, looks_bind, looks_raise⟩ looks_load
  look f := looks_update fun _ => ⟨rfl, rfl, rfl⟩
  advance n := looks_update fun _ => ⟨rfl, rfl, rfl⟩
  xlateN v := looks_xlateN v 1
  cacheCode pc p := looks_update fun s => by split_ifs <;> exact ⟨rfl, rfl, rfl⟩
  readCode base n := fun s =>
    ⟨fun event member => ⟨_, List.mem_singleton.mp member, rfl⟩, rfl, rfl, rfl⟩

/-- What a computation that only looks leaves behind. -/
theorem Looks.coherent (looks : Looks m) (kept : Keeps (Tracked s.space.mode s.space.mode) m)
    (coherent : Coherent s) :
    stores (m s).log = ∅ ∧ Coherent (m s).state := by
  refine ⟨?_, (coherent_after kept coherent fun c member => ?_).1⟩
  · refine Set.eq_empty_of_forall_notMem ?_
    rintro q ⟨a, p, member, write, -⟩
    obtain ⟨b, same, read⟩ := (looks s).1 _ member
    cases same
    rw [read] at write
    cases write
  · obtain ⟨b, same, -⟩ := (looks s).1 _ member
    cases same

theorem pageOffset_lt (v : Int) : pageOffset v < 4096 := by
  unfold pageOffset
  omega

/-- A computation that only looks, by its result, the program counter and its first access. -/
theorem Looks.reads {n adv : Nat} {v : Int} {make : List (Option Byte) → Except Trap α}
    (looks : Looks m) (kept : Keeps (Tracked s.space.mode s.space.mode) m) (coherent : Coherent s)
    (logged : .access ⟨s.space, s.mem, v, n, false, freshXlate s.space s.mem v n false⟩ ∈ (m s).log)
    (ended : (m s).result = loaded s n v make ∧ ∀ x, (m s).result = .ok x →
      (m s).state.core = { s.core with pc := s.core.pc + adv }) : Reads n adv v make s (m s) := by
  obtain ⟨silent, after⟩ := looks.coherent kept coherent
  obtain ⟨-, space, mem, -⟩ := looks s
  exact ⟨ended.1, ended.2, logged, silent, space, mem, after⟩

theorem load_reads (coherent : Coherent s) (n : Nat) (v : Int) :
    Reads n 0 v .ok s (load n v s) := by
  obtain ⟨translated, -⟩ := xlateN_fresh coherent v n false
  obtain ⟨log, pfla, tlb, state⟩ := xlateN_spec v n false s
  rw [translated] at log
  refine (looks_load n v).reads (keeps_load _ _ n v) coherent
    (mem_bind_log (by rw [log]; exact List.mem_singleton.mpr rfl)) ?_
  unfold loaded
  rcases walked : freshXlate s.space s.mem v n false with trap | p
  · rw [load, bind_error (translated.trans walked)]
    exact ⟨rfl, fun x impossible => by cases impossible⟩
  rw [load, bind_ok (translated.trans walked), state, readSpan]
  split_ifs with beyond
  · exact ⟨(if_pos beyond).symm, fun x _ => by simp⟩
  · exact ⟨(if_neg beyond).symm, fun x _ => by simp⟩

/-- The value of a byte of code. -/
def codeByte : List (Option Byte) → Except Trap Word
  | some b :: _ => .ok (b.setWidth 32)
  | _ => .error .undefinedByte

theorem defined_apply (found : List (Option Byte)) (s : Cpu D) :
    defined found s = ⟨codeByte found, s, []⟩ := by
  rcases found with - | ⟨- | b, rest⟩ <;> rfl

theorem slow_reads (coherent : Coherent s) (paged : s.space.pagingEnabled = true)
    (missed : codeBase s = none) : Reads 1 1 s.core.pc codeByte s (fetch8 s) := by
  have slow := fetch8_path s
  rw [missed] at slow
  dsimp only at slow
  rw [fetchByteSlow_path] at slow
  have filled : (refill : CpuM D (Option Int)) s =
      (xlateN s.core.pc 1 false >>= cacheCode s.core.pc) s := by
    change (if s.space.pagingEnabled then xlateN s.core.pc 1 false >>= cacheCode s.core.pc
      else pure none) s = _
    rw [if_pos paged]
  obtain ⟨translated, coherent'⟩ := xlateN_fresh coherent s.core.pc 1 false
  obtain ⟨log, pfla, tlb, state⟩ := xlateN_spec s.core.pc 1 false s
  rw [translated] at log
  refine codeReads_looks.fetch8.reads (keeps_fetch8 _) coherent ?_ ?_
  · rw [slow]
    refine mem_bind_log ?_
    rw [filled]
    exact mem_bind_log (by rw [log]; exact List.mem_singleton.mpr rfl)
  unfold loaded
  rw [slow]
  rcases walked : freshXlate s.space s.mem s.core.pc 1 false with trap | p
  · rw [bind_error (e := trap) (by rw [filled, bind_error (translated.trans walked)])]
    exact ⟨rfl, fun x impossible => by cases impossible⟩
  have first := bind_ok (f := cacheCode s.core.pc) (translated.trans walked)
  rw [← filled, state] at first
  by_cases inside : 0 ≤ p - pageOffset s.core.pc ∧ p - pageOffset s.core.pc + 4096 ≤ s.mem.size
  · simp only [cacheCode, Logged.update, if_pos inside] at first
    have low : ¬ s.mem.size < p + (1 : Nat) := by
      have := pageOffset_lt s.core.pc
      omega
    rw [bind_ok (a := some p) (congrArg Outcome.result first), first, bind_ok (a := ()) rfl]
    dsimp only
    rw [defined_apply]
    exact ⟨(if_neg low).symm, fun x _ => rfl⟩
  simp only [cacheCode, Logged.update, if_neg inside] at first
  rw [bind_ok (a := none) (congrArg Outcome.result first), first, bind_ok (a := ()) rfl]
  dsimp only
  have moved : Coherent (advance 1 { s with pfla := pfla, tlb := tlb } :
      Outcome Trap (Cpu D) Event Unit).state := by
    rw [state] at coherent'
    exact coherent'.congr rfl rfl rfl rfl
  have again := load_reads moved 1 s.core.pc
  have result : (load 1 s.core.pc (advance 1 { s with pfla := pfla, tlb := tlb } :
      Outcome Trap (Cpu D) Event Unit).state).result = loaded s 1 s.core.pc .ok := again.result
  rw [loaded, walked] at result
  dsimp only at result
  rw [rd8, rdN, if_pos (by have := pageOffset_lt s.core.pc; omega)]
  by_cases beyond : s.mem.size < p + (1 : Nat)
  · rw [if_pos beyond] at result
    rw [bind_error result]
    exact ⟨(if_pos beyond).symm, fun x impossible => by cases impossible⟩
  · rw [if_neg beyond] at result
    rw [bind_ok result, defined_apply]
    exact ⟨(if_neg beyond).symm, fun x _ =>
      (again.ends _ result).trans (by simp [advance, onCore, Logged.update])⟩

theorem fetch8_reads (coherent : Coherent s) (paged : s.space.pagingEnabled = true) :
    Reads 1 1 s.core.pc codeByte s (fetch8 s) := by
  rcases cached : codeBase s with - | base
  · exact slow_reads coherent paged cached
  obtain ⟨walked, low, high⟩ := codeBase_fresh coherent cached 1
  have fast : fetch8 s = cached8 base s := by rw [fetch8_path, cached]
  have inside : ¬ s.mem.size < base + pageOffset s.core.pc + (1 : Nat) := by
    have := pageOffset_lt s.core.pc
    omega
  refine codeReads_looks.fetch8.reads (keeps_fetch8 _) coherent ?_ ?_
  · rw [fast, walked]
    exact mem_bind_log (List.mem_singleton.mpr rfl)
  · rw [fast, cached8, bind_ok (a := s.mem.span (base + pageOffset s.core.pc) 1) rfl,
      bind_ok (a := ()) rfl, defined_apply, loaded, walked]
    exact ⟨(if_neg inside).symm, fun x _ => rfl⟩

/-- An operand that does not leave its page. -/
theorem fetch32_reads (coherent : Coherent s) (fits : pageOffset s.core.pc + 4 ≤ 4096) :
    Reads 4 4 s.core.pc (fun found => .ok (joined found)) s (fetch32 s) := by
  have path := fetch32_path s
  rw [if_pos (by omega)] at path
  rcases cached : codeBase s with - | base
  · rw [cached] at path
    have first := load_reads coherent 4 s.core.pc
    have word : rd32 s.core.pc s = (load 4 s.core.pc >>= fun found => pure (joined found)) s := by
      rw [rd32, rdN, if_pos fits]
    refine codeReads_looks.fetch32.reads (keeps_fetch32 _) coherent ?_ ?_
    · rw [path]
      refine mem_bind_log ?_
      rw [word]
      exact mem_bind_log first.logged
    rw [path, loaded_make, ← first.result]
    rcases returned : (load 4 s.core.pc s).result with trap | found
    · rw [bind_error returned] at word
      dsimp only
      rw [bind_error (e := trap) (by rw [word])]
      exact ⟨rfl, fun x impossible => by cases impossible⟩
    · rw [bind_ok returned] at word
      dsimp only
      rw [bind_ok (a := joined found) (by rw [word]; rfl), word]
      refine ⟨rfl, fun x _ => ?_⟩
      change { (load 4 s.core.pc s).state.core with
        pc := (load 4 s.core.pc s).state.core.pc + (4 : Nat) } = _
      rw [first.ends found returned]
      simp
  · obtain ⟨walked, low, high⟩ := codeBase_fresh coherent cached 4
    rw [cached] at path
    have inside : ¬ s.mem.size < base + pageOffset s.core.pc + (4 : Nat) := by omega
    refine codeReads_looks.fetch32.reads (keeps_fetch32 _) coherent ?_ ?_
    · rw [path, walked]
      exact mem_bind_log (List.mem_singleton.mpr rfl)
    · rw [path, loaded, walked]
      exact ⟨(if_neg inside).symm, fun x _ => rfl⟩

theorem follows_load {n : Nat} {v : Int} (fits : pageOffset v + n ≤ 4096) :
    Follows g (load n v : CpuM D (List (Option Byte))) := fun stored s t =>
  follows_reads (v := fun _ => v) (fun _ _ impossible => by cases impossible)
    (fun _ coherent _ _ => load_reads coherent n v) stored s t fits

theorem follows_fetch8 : Follows g (fetch8 : CpuM D Word) := fun stored s t =>
  follows_reads (v := Core.pc) (fun found kind impossible => by
      rcases found with - | ⟨- | b, rest⟩ <;> cases impossible)
    (fun _ coherent paged _ => fetch8_reads coherent paged) stored s t (pageOffset_lt _)

/-- A computation without an effect. -/
theorem follows_pure (x : α) : Follows g (pure x : CpuM D α) :=
  follows_quiet (fun _ => rfl) (fun _ _ core _ => ⟨rfl, core⟩) fun _ => ⟨rfl, rfl, rfl, rfl⟩

theorem follows_rdN (n : Nat) (v : Int) : Follows g (rdN n v : CpuM D (List (Option Byte))) := by
  have bytewise : ∀ n v, Follows g (loadBytes n v : CpuM D (List (Option Byte))) := by
    intro n
    induction n with
    | zero => exact fun v => follows_pure []
    | succ n ih =>
      exact fun v => follows_bind (follows_load (pageOffset_lt v)) fun b =>
        follows_bind (ih (v + 1)) fun rest => follows_pure (b ++ rest)
  unfold rdN
  split_ifs with fits
  · exact follows_load fits
  · exact bytewise n v

theorem follows_core (f : Core D → α × Core D) : Follows g (onCore f) :=
  follows_quiet (fun _ => rfl)
    (fun s t core _ => by
      change Except.ok (f s.core).1 = Except.ok (f t.core).1 ∧ (f s.core).2 = (f t.core).2
      rw [core]
      exact ⟨rfl, rfl⟩)
    fun _ => ⟨rfl, rfl, rfl, rfl⟩

theorem follows_fetch32 : Follows g (fetch32 : CpuM D Word) := by
  intro stored s t within₁ within₂ link
  by_cases fits : pageOffset s.core.pc + 4 ≤ 4096
  · exact follows_reads (v := Core.pc) (fun _ _ impossible => by cases impossible)
      (fun _ coherent _ inside => fetch32_reads coherent inside) stored s t fits within₁ within₂ link
  have path : ∀ s : Cpu D, ¬ pageOffset s.core.pc + 4 ≤ 4096 →
      fetch32 s = (rd32 s.core.pc >>= fun x => advance 4 >>= fun _ => pure x) s := by
    intro s crosses
    rw [fetch32_path, if_neg (by omega)]
  rw [path s fits, path t (link.core ▸ fits), ← link.core]
  exact follows_bind (follows_bind (follows_rdN 4 _) fun found => follows_pure (joined found))
    (fun x => follows_bind (follows_core _) fun _ => follows_pure x) stored s t within₁ within₂ link

/-! ## Stores -/

/-- A store, by what a fresh walk says. -/
theorem store_apply (coherent : Coherent s) (v : Int) (items : List Byte) :
    (∀ trap, freshXlate s.space s.mem v items.length true = .error trap →
      (store v items s).result = .error trap ∧ stores (store v items s).log = ∅) ∧
    ∀ p, freshXlate s.space s.mem v items.length true = .ok p →
      if s.mem.size < p + items.length then (store v items s).result = .error .rangeError
      else ∃ pfla tlb, store v items s =
        ⟨.ok (), { s with pfla := pfla, tlb := tlb, mem := s.mem.putAll p items },
          [.access ⟨s.space, s.mem, v, items.length, true, .ok p⟩,
            .change ⟨s.space, s.mem, s.mem.putAll p items⟩]⟩ := by
  obtain ⟨translated, -⟩ := xlateN_fresh coherent v items.length true
  obtain ⟨log, pfla, tlb, state⟩ := xlateN_spec v items.length true s
  refine ⟨fun trap blocked => ?_, fun p found => ?_⟩
  · rw [store, bind_error (translated.trans blocked)]
    refine ⟨rfl, Set.eq_empty_of_forall_notMem ?_⟩
    rintro q ⟨a, p, member, -, returned, -⟩
    rw [log, List.mem_singleton] at member
    cases member
    rw [translated, blocked] at returned
    cases returned
  · rw [store, bind_ok (translated.trans found), state, writeSpan, log, translated, found]
    split_ifs with beyond
    · rfl
    · exact ⟨pfla, tlb, rfl⟩

/-- The bytes of one store. -/
theorem stores_store (space : Space) (m : PhysicalMemory) (v p : Int) (n : Nat) (c : Change) :
    stores [.access ⟨space, m, v, n, true, .ok p⟩, .change c] = { q | p ≤ q ∧ q < p + n } := by
  ext q
  constructor
  · rintro ⟨a, p', member, -, returned, low, high⟩
    obtain rfl : a = ⟨space, m, v, n, true, .ok p⟩ := by simpa using member
    cases returned
    exact ⟨low, high⟩
  · rintro ⟨low, high⟩
    exact ⟨_, p, List.mem_cons_self, rfl, rfl, low, high⟩

theorem follows_store {v : Int} (fits : pageOffset v + items.length ≤ 4096) :
    Follows g (store v items : CpuM D Unit) := by
  intro stored s t within₁ within₂ link fine₁ fine₂ quiet settled
  obtain ⟨blocked₁, done₁⟩ := store_apply link.coherent₁ v items
  obtain ⟨blocked₂, done₂⟩ := store_apply link.coherent₂ v items
  rcases walked : freshXlate t.space t.mem v items.length true with trap | p
  · rw [(blocked₂ trap walked).1] at settled
    obtain ⟨x, impossible⟩ | ⟨kind, same⟩ := settled
    · cases impossible
    cases same
    rw [freshXlate, if_neg (by simp [link.paged])] at walked
    split at walked <;> cases walked
  have ended₂ := done₂ p walked
  by_cases beyond : t.mem.size < p + items.length
  · rw [if_pos beyond] at ended₂
    rw [ended₂] at settled
    obtain ⟨x, impossible⟩ | ⟨kind, impossible⟩ := settled <;> cases impossible
  rw [if_neg beyond] at ended₂
  obtain ⟨pfla₂, tlb₂, ended₂⟩ := ended₂
  have harmless₂ : Change.Harmless ⟨t.space, t.mem, t.mem.putAll p items⟩ :=
    fine₂ (.change _) (by rw [ended₂]; exact .tail _ (.head _))
  rcases link.translate fits walked beyond with
    ⟨⟨trap, blocked⟩, differs⟩ | ⟨e, e', -, -, here₂, here, inside, frame⟩
  · refine .inr ⟨⟨trap, (blocked₁ trap blocked).1⟩, ?_, differs⟩
    rw [(blocked₁ trap blocked).2]
    exact Set.empty_subset _
  rw [← frame rfl, ← here₂] at here inside
  have ended₁ := done₁ p here
  rw [if_neg inside] at ended₁
  obtain ⟨pfla₁, tlb₁, ended₁⟩ := ended₁
  have harmless₁ : Change.Harmless ⟨s.space, s.mem, s.mem.putAll p items⟩ :=
    fine₁ (.change _) (by rw [ended₁]; exact .tail _ (.head _))
  have after₁ := (coherent_after (keeps_store _ _ v items) link.coherent₁ fun c member =>
    fine₁ (.change c) member).1
  have after₂ := (coherent_after (keeps_store _ _ v items) link.coherent₂ fun c member =>
    fine₂ (.change c) member).1
  rw [ended₁] at after₁ ⊢
  rw [ended₂] at after₂ ⊢
  refine .inl ⟨rfl, by rw [stores_store, stores_store], ?_⟩
  rw [stores_store]
  refine ⟨⟨link.core, link.space, fun z f f' mapped listed off bound old₁ old₂ => ?_,
    fun q member => ?_⟩, link.paged, after₁, after₂, ?_, ?_, fun z => ?_, fun z => ?_⟩
  · have apart₁ : ¬ (p ≤ f.frame + off ∧ f.frame + off < p + items.length) :=
      fun bad => old₁ (.inr (.inr bad))
    have apart₂ : ¬ (p ≤ f'.frame + off ∧ f'.frame + off < p + items.length) :=
      fun bad => old₂ (.inr (.inr bad))
    dsimp only
    rw [PhysicalMemory.at?_putAll_outside _ (by omega),
      PhysicalMemory.at?_putAll_outside _ (by omega)]
    exact link.bytes z f f' mapped listed off bound
      (fun bad => old₁ (bad.imp_right .inl)) (fun bad => old₂ (bad.imp_right .inl))
  · exact PhysicalMemory.at?_putAll_same (link.size₁.trans link.size₂.symm)
      (member.symm.imp_right (link.same q))
  · exact (PhysicalMemory.putAll_size _ _ _).trans link.size₁
  · exact (PhysicalMemory.putAll_size _ _ _).trans link.size₂
  · rw [← link.table₁ z, entry, entry]
    dsimp only
    rw [harmless₁]
  · rw [← link.table₂ z, entry, entry]
    dsimp only
    rw [harmless₂]

theorem follows_wrN (n : Nat) (v : Int) (x : Word) : Follows g (wrN n v x : CpuM D Unit) := by
  have bytewise : ∀ items v, Follows g (storeBytes items v : CpuM D Unit) := by
    intro items
    induction items with
    | nil => exact fun v => follows_pure ()
    | cons b rest ih =>
      exact fun v => follows_bind (follows_store (pageOffset_lt v)) fun _ =>
        ih (v + 1)
  unfold wrN
  split_ifs with fits
  · exact follows_store (by simpa [bytesOf] using fits)
  · exact bytewise (bytesOf n x) v

/-- Every operation of an instruction follows. -/
theorem rules_follows : Rules (fun {_} m => Follows g (m : CpuM D _)) where
  pure x := follows_pure x
  bind first next := follows_bind first next
  raise trap := follows_quiet (fun _ => rfl) (fun _ _ core _ => ⟨rfl, core⟩)
    fun _ => ⟨rfl, rfl, rfl, rfl⟩
  core f := follows_core f
  lines f := follows_quiet (fun _ => rfl) (fun _ _ core _ => ⟨rfl, core⟩)
    fun _ => ⟨rfl, rfl, rfl, rfl⟩
  mode := follows_quiet (fun _ => rfl)
    (fun s t core space => by
      change Except.ok s.space.mode = Except.ok t.space.mode ∧ s.core = t.core
      rw [space]
      exact ⟨rfl, core⟩)
    fun _ => ⟨rfl, rfl, rfl, rfl⟩
  fetch8 := follows_fetch8
  fetch32 := follows_fetch32
  rdN n v := follows_rdN n v
  wrN n v x := follows_wrN n v x
  pfla := fun _ _ _ _ _ _ _ _ quiet _ => absurd (List.Mem.head _) quiet
  errorCode := fun _ _ _ _ _ _ _ _ quiet _ => absurd (List.Mem.head _) quiet

end JsEmulator.Custom32
