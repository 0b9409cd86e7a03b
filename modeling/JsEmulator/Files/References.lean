import JsEmulator.Files.Calls
import JsEmulator.Library.RefCounts
import Mathlib.Data.Fintype.Basic
import Mathlib.Tactic.DeriveFintype

/-!
# Who refers to what

A place that can hold a reference is a descriptor, an area or an entry of the page
cache. What it refers to is an open file, one end of a pipe or a socket. Read this
way, the tables are an instance of reference counting: retaining, dropping and
allocating an object are its three moves.
-/

namespace JsEmulator.Files

open JsEmulator.Library (Exact FinitelyHeld uses)
open JsEmulator.Memory (Vm Area maxProc pageCacheSize maxVmas)
open JsEmulator.Process (RunState Chan)

variable {s t : Kernel} {n : Nat}

/-- A place that can refer to an object. -/
inductive Holder where
  | fd (idx : Fin maxProc) (fd : Fin nfd)
  | area (idx : Fin maxProc) (i : Fin maxVmas)
  | cached (slot : Fin pageCacheSize)
deriving DecidableEq, Fintype

/-- What is counted. -/
inductive Object where
  | file (n : Nat)
  | pipe (n : Nat) (pipeEnd : PipeEnd)
  | socket (n : Nat)
deriving DecidableEq, Repr

/-- An entry of one of the three object tables. -/
inductive Entry where
  | file (n : Nat)
  | pipe (n : Nat)
  | socket (n : Nat)
deriving DecidableEq, Repr

/-- The table entry of an object. -/
def Object.entry : Object → Entry
  | .file n => .file n
  | .pipe n _ => .pipe n
  | .socket n => .socket n

/-- The object of a descriptor. -/
def File.refers (file : File) : Option Object :=
  match file.type with
  | .none => none
  | .file => some (.file file.object)
  | .pipe => some (.pipe file.object file.pipeEnd)
  | .socket => some (.socket file.object)

/-- The object of an area. -/
def areaRefers (a : Area) : Option Object := if a.used then a.file.map .file else none

/-- The object of an entry of the page cache. -/
def CachedPage.refers (e : CachedPage) : Option Object := if e.used then some (.file e.file) else none

/-- What each place refers to. -/
def Kernel.holds (s : Kernel) : Holder → Option Object
  | .fd idx fd => ((s.procs idx).files fd).refers
  | .area idx i => areaRefers ((s.procs idx).vm.areas i)
  | .cached slot => (s.pageCache slot).refers

/-- The count that the kernel keeps of an object. -/
def Kernel.refs (s : Kernel) : Object → Int
  | .file n => (s.openFiles n).refs
  | .pipe n .read => (s.pipes n).nread
  | .pipe n .write => (s.pipes n).nwrite
  | .socket n => (s.sockets n).refs

/-- Whether a table entry is in use. -/
def Kernel.live (s : Kernel) : Entry → Prop
  | .file n => (s.openFiles n).used = true
  | .pipe n => (s.pipes n).used = true
  | .socket n => (s.sockets n).used = true

theorem holds_finite (holds : Holder → Option Object) : FinitelyHeld holds := Set.toFinite _

/-! ## What the updates touch -/

section Updates

variable (s : Kernel)

@[simp] theorem set_proc_proc (idx : Fin maxProc) (f : Proc → Proc) :
    (s.setProc idx f).procs idx = f (s.procs idx) := by
  simp [Kernel.setProc]

theorem set_proc_elsewhere (idx other : Fin maxProc) (f : Proc → Proc) (different : other ≠ idx) :
    (s.setProc idx f).procs other = s.procs other := by
  simp [Kernel.setProc, different]

theorem set_file_holds (idx : Fin maxProc) (fd : Fin nfd) (file : File) :
    (s.setFile idx fd file).holds = Function.update s.holds (.fd idx fd) file.refers := by
  funext h
  cases h with
  | fd other fd' =>
    by_cases here : other = idx
    · subst here
      by_cases same : fd' = fd <;> simp [Kernel.holds, Kernel.setFile, same]
    · simp [Kernel.holds, Kernel.setFile, set_proc_elsewhere s idx other _ here, here]
  | area other i =>
    by_cases here : other = idx
    · subst here
      simp [Kernel.holds, Kernel.setFile]
    · simp [Kernel.holds, Kernel.setFile, set_proc_elsewhere s idx other _ here]
  | cached slot => simp [Kernel.holds, Kernel.setFile, Kernel.setProc]

theorem set_area_holds (idx : Fin maxProc) (i : Fin maxVmas) (a : Area) :
    (s.setVm idx ((s.procs idx).vm.setArea i a)).holds =
      Function.update s.holds (.area idx i) (areaRefers a) := by
  funext h
  cases h with
  | fd other fd' =>
    by_cases here : other = idx
    · subst here
      simp [Kernel.holds, Kernel.setVm]
    · simp [Kernel.holds, Kernel.setVm, set_proc_elsewhere s idx other _ here]
  | area other j =>
    by_cases here : other = idx
    · subst here
      by_cases same : j = i <;> simp [Kernel.holds, Kernel.setVm, Vm.setArea, same]
    · simp [Kernel.holds, Kernel.setVm, set_proc_elsewhere s idx other _ here, here]
  | cached slot => simp [Kernel.holds, Kernel.setVm, Kernel.setProc]

theorem set_cache_holds (slot : Fin pageCacheSize) (e : CachedPage) :
    (s.setCache slot e).holds = Function.update s.holds (.cached slot) e.refers := by
  funext h
  cases h with
  | fd idx fd | area idx i => simp [Kernel.holds, Kernel.setCache]
  | cached other => by_cases here : other = slot <;> simp [Kernel.holds, Kernel.setCache, here]

end Updates

/-- The places refer to the same objects when descriptors, areas and the cache are the
same. -/
theorem same_holds (files : ∀ idx, (t.procs idx).files = (s.procs idx).files)
    (areas : ∀ idx, (t.procs idx).vm.areas = (s.procs idx).vm.areas)
    (cache : t.pageCache = s.pageCache) : t.holds = s.holds := by
  funext h
  cases h with
  | fd idx fd => simp [Kernel.holds, files]
  | area idx i => simp [Kernel.holds, areas]
  | cached slot => simp [Kernel.holds, cache]

@[simp] theorem wakeup_holds (s : Kernel) (chan : Chan) : (wakeup s chan).holds = s.holds := by
  refine same_holds ?_ ?_ rfl
  all_goals
    intro idx
    simp only [wakeup]
    split <;> rfl

@[simp] theorem set_open_holds (s : Kernel) (n : Nat) (f : OpenFile → OpenFile) :
    (s.setOpen n f).holds = s.holds := same_holds (fun _ => rfl) (fun _ => rfl) rfl

@[simp] theorem set_pipe_holds (s : Kernel) (n : Nat) (f : Pipe → Pipe) :
    (s.setPipe n f).holds = s.holds := same_holds (fun _ => rfl) (fun _ => rfl) rfl

@[simp] theorem set_socket_holds (s : Kernel) (n : Nat) (f : Socket → Socket) :
    (s.setSocket n f).holds = s.holds := same_holds (fun _ => rfl) (fun _ => rfl) rfl

/-! ## Counts after an update -/

section Counts

variable (s : Kernel)

theorem set_open_refs (n : Nat) (f : OpenFile → OpenFile) (o : Object) :
    (s.setOpen n f).refs o = if o = .file n then (f (s.openFiles n)).refs else s.refs o := by
  rcases o with m | ⟨m, _ | _⟩ | m
  all_goals by_cases same : m = n <;> simp [Kernel.refs, Kernel.setOpen, same]

theorem set_pipe_refs (n : Nat) (f : Pipe → Pipe) (o : Object) :
    (s.setPipe n f).refs o =
      if o = .pipe n .read then (f (s.pipes n)).nread
      else if o = .pipe n .write then (f (s.pipes n)).nwrite else s.refs o := by
  rcases o with m | ⟨m, _ | _⟩ | m
  all_goals by_cases same : m = n <;> simp [Kernel.refs, Kernel.setPipe, same]

theorem set_socket_refs (n : Nat) (f : Socket → Socket) (o : Object) :
    (s.setSocket n f).refs o = if o = .socket n then (f (s.sockets n)).refs else s.refs o := by
  rcases o with m | ⟨m, _ | _⟩ | m
  all_goals by_cases same : m = n <;> simp [Kernel.refs, Kernel.setSocket, same]

theorem set_open_live (n : Nat) (f : OpenFile → OpenFile) (e : Entry) :
    (s.setOpen n f).live e ↔ if e = .file n then (f (s.openFiles n)).used = true else s.live e := by
  rcases e with m | m | m
  all_goals by_cases same : m = n <;> simp [Kernel.live, Kernel.setOpen, same]

theorem set_pipe_live (n : Nat) (f : Pipe → Pipe) (e : Entry) :
    (s.setPipe n f).live e ↔ if e = .pipe n then (f (s.pipes n)).used = true else s.live e := by
  rcases e with m | m | m
  all_goals by_cases same : m = n <;> simp [Kernel.live, Kernel.setPipe, same]

theorem set_socket_live (n : Nat) (f : Socket → Socket) (e : Entry) :
    (s.setSocket n f).live e ↔
      if e = .socket n then (f (s.sockets n)).used = true else s.live e := by
  rcases e with m | m | m
  all_goals by_cases same : m = n <;> simp [Kernel.live, Kernel.setSocket, same]

/-- Counts and use depend on the object tables alone. -/
theorem same_counts (t : Kernel) (files : t.openFiles = s.openFiles) (pipes : t.pipes = s.pipes)
    (sockets : t.sockets = s.sockets) : t.refs = s.refs ∧ t.live = s.live := by
  constructor
  · funext o
    rcases o with m | ⟨m, _ | _⟩ | m <;> simp [Kernel.refs, files, pipes, sockets]
  · funext e
    rcases e with m | m | m <;> simp [Kernel.live, files, pipes, sockets]

end Counts

/-! ## The three moves -/

/-- One more reference to an object. -/
def retainObject (s : Kernel) : Object → Kernel
  | .file n => s.setOpen n fun f => { f with refs := f.refs + 1 }
  | .pipe n pipeEnd => pipeRetainOp s n pipeEnd
  | .socket n => s.setSocket n fun k => { k with refs := k.refs + 1 }

/-- One reference less. -/
def dropObject (s : Kernel) : Object → Kernel
  | .file n => dropOpenFile s n
  | .pipe n pipeEnd => pipeCloseOp s n pipeEnd
  | .socket n => socketClose s n

/-- The bounds of the three tables. -/
def Entry.InTable : Entry → Prop
  | .file n => n < nfile
  | .pipe n => n < npipe
  | .socket n => n < nsocket

/-- The counts are exact, and only entries of the tables are in use. -/
structure Sound (s : Kernel) : Prop where
  exact : Exact Object.entry s.holds s.refs s.live
  bounded : ∀ e, s.live e → e.InTable

theorem sound_held_live (s : Kernel) (sound : Sound s) (h : Holder) (o : Object)
    (held : s.holds h = some o) : s.live o.entry :=
  Library.exact_held_live sound.exact (holds_finite _) h o held

theorem retain_holds (s : Kernel) (o : Object) : (retainObject s o).holds = s.holds := by
  cases o <;> simp [retainObject, pipeRetainOp]

theorem retain_refs (s : Kernel) (o o' : Object) :
    (retainObject s o).refs o' = s.refs o' + if o' = o then 1 else 0 := by
  rcases o with n | ⟨n, _ | _⟩ | n
  · simp only [retainObject, set_open_refs]
    split <;> simp_all [Kernel.refs]
  iterate 2
    simp only [retainObject, pipeRetainOp, set_pipe_refs]
    split <;> [skip; split] <;> simp_all [Kernel.refs, Pipe.adjust]
  · simp only [retainObject, set_socket_refs]
    split <;> simp_all [Kernel.refs]

theorem retain_live (s : Kernel) (o : Object) (e : Entry) :
    (retainObject s o).live e ↔ s.live e := by
  rcases o with n | ⟨n, _ | _⟩ | n
  · simp only [retainObject, set_open_live]
    split <;> simp_all [Kernel.live]
  iterate 2
    simp only [retainObject, pipeRetainOp, set_pipe_live]
    split <;> simp_all [Kernel.live, Pipe.adjust]
  · simp only [retainObject, set_socket_live]
    split <;> simp_all [Kernel.live]

@[simp] theorem wakeup_refs (s : Kernel) (chan : Chan) : (wakeup s chan).refs = s.refs :=
  (same_counts s (wakeup s chan) rfl rfl rfl).1

@[simp] theorem wakeup_live (s : Kernel) (chan : Chan) : (wakeup s chan).live = s.live :=
  (same_counts s (wakeup s chan) rfl rfl rfl).2

@[simp] theorem vnode_release_counts (s : Kernel) (node : Vnode) :
    (vnodeRelease s node).holds = s.holds ∧ (vnodeRelease s node).refs = s.refs ∧
      (vnodeRelease s node).live = s.live := by
  obtain ⟨refs, live⟩ := same_counts s (vnodeRelease s node) rfl rfl rfl
  exact ⟨same_holds (fun _ => rfl) (fun _ => rfl) rfl, refs, live⟩

/-- What dropping a reference does to the counts: the object has one less, and its entry
stays in use while one of its counts is not zero. -/
structure Dropped (s t : Kernel) (o : Object) : Prop where
  holds : t.holds = s.holds
  refs : ∀ o', t.refs o' = s.refs o' - if o' = o then 1 else 0
  elsewhere : ∀ e, e ≠ o.entry → (t.live e ↔ s.live e)
  here : t.live o.entry ↔ ∃ o', o'.entry = o.entry ∧ t.refs o' ≠ 0

theorem drop_open_file_dropped (used : s.live (.file n)) :
    Dropped s (dropOpenFile s n) (.file n) := by
  have refs : ∀ o', (s.setOpen n fun f => { f with refs := f.refs - 1 }).refs o' =
      s.refs o' - if o' = .file n then 1 else 0 := by
    intro o'
    rw [set_open_refs]
    split <;> simp_all [Kernel.refs]
  have single : ∀ o' : Object, o'.entry = (Object.file n).entry → o' = .file n := by
    rintro (m | ⟨m, _⟩ | m) same <;> simp_all [Object.entry]
  unfold dropOpenFile
  simp only
  split
  case isTrue last =>
    have count : (s.openFiles n).refs - 1 = 0 := by simpa [Kernel.setOpen] using last
    refine ⟨by simp, ?_, ?_, ?_⟩
    · intro o'
      rw [set_open_refs, (vnode_release_counts _ _).2.1, refs o']
      split <;> simp_all [Kernel.refs, Kernel.setOpen, vnodeRelease]
    · intro e different
      rw [set_open_live, (vnode_release_counts _ _).2.2, set_open_live]
      simp [Object.entry] at different
      simp [different]
    · constructor
      · intro live
        simp [Object.entry, set_open_live] at live
      · rintro ⟨o', same, nonzero⟩
        obtain rfl := single o' same
        rw [set_open_refs] at nonzero
        simp [vnodeRelease, Kernel.setOpen, count] at nonzero
  case isFalse more =>
    have count : (s.openFiles n).refs - 1 ≠ 0 := by simpa [Kernel.setOpen] using more
    refine ⟨by simp, refs, ?_, ?_⟩
    · intro e different
      rw [set_open_live]
      simp [Object.entry] at different
      simp [different]
    · constructor
      · intro live
        refine ⟨.file n, rfl, ?_⟩
        rw [refs]
        simpa [Kernel.refs] using count
      · intro _
        rw [set_open_live]
        simpa [Object.entry, Kernel.live] using used

theorem pipe_close_dropped (pipeEnd : PipeEnd) (used : s.live (.pipe n)) :
    Dropped s (pipeCloseOp s n pipeEnd) (.pipe n pipeEnd) := by
  have refs : ∀ o', (pipeClosing s n pipeEnd).refs o' =
      s.refs o' - if o' = .pipe n pipeEnd then 1 else 0 := by
    intro o'
    simp only [pipeClosing, pollWakeup, wakeup_refs, set_pipe_refs]
    cases pipeEnd <;> split <;> [skip; split; skip; split] <;>
      simp_all [Kernel.refs, Pipe.adjust, Int.sub_eq_add_neg]
  have ends : ∀ o' : Object, o'.entry = .pipe n → o' = .pipe n .read ∨ o' = .pipe n .write := by
    rintro (m | ⟨m, _ | _⟩ | m) same <;> simp_all [Object.entry]
  have live : ∀ e, (pipeClosing s n pipeEnd).live e ↔ s.live e := by
    intro e
    simp only [pipeClosing, pollWakeup, wakeup_live, set_pipe_live]
    cases pipeEnd <;> split <;> simp_all [Pipe.adjust, Kernel.live]
  have holds : (pipeClosing s n pipeEnd).holds = s.holds := by
    simp [pipeClosing, pollWakeup]
  unfold pipeCloseOp
  simp only
  split
  case isTrue last =>
    have same : ∀ o', ((pipeClosing s n pipeEnd).setPipe n fun p => { p with used := false }).refs o' =
        (pipeClosing s n pipeEnd).refs o' := by
      intro o'
      rw [set_pipe_refs]
      split <;> [skip; split] <;> simp_all [Kernel.refs]
    refine ⟨by simp [holds], fun o' => by rw [same, refs], ?_, ?_⟩
    · intro e different
      rw [set_pipe_live]
      simp only [Object.entry] at different
      simp [different, live]
    · constructor
      · intro alive
        simp [Object.entry, set_pipe_live] at alive
      · rintro ⟨o', inside, nonzero⟩
        rw [same] at nonzero
        rcases ends o' inside with rfl | rfl
        · exact absurd last.1 nonzero
        · exact absurd last.2 nonzero
  case isFalse more =>
    refine ⟨holds, refs, fun e _ => live e, ?_⟩
    constructor
    · intro _
      by_cases readers : ((pipeClosing s n pipeEnd).pipes n).nread = 0
      · exact ⟨.pipe n .write, rfl, fun writers => more ⟨readers, writers⟩⟩
      · exact ⟨.pipe n .read, rfl, readers⟩
    · intro _
      exact (live _).mpr used

theorem socket_close_dropped (used : s.live (.socket n)) (inTable : n < nsocket) :
    Dropped s (socketClose s n) (.socket n) := by
  have used' : (s.sockets n).used = true := used
  have single : ∀ o' : Object, o'.entry = (Object.socket n).entry → o' = .socket n := by
    rintro (m | ⟨m, _⟩ | m) same <;> simp_all [Object.entry]
  unfold socketClose
  rw [if_neg (by simp [used', inTable])]
  simp only [pollWakeup]
  have refs : ∀ o', (((s.setSocket n fun k => { k with refs := k.refs - 1 }).setSocket n fun k =>
      { k with used := k.used && k.refs != 0 })).refs o' =
      s.refs o' - if o' = .socket n then 1 else 0 := by
    intro o'
    rw [set_socket_refs, set_socket_refs]
    split <;> simp_all [Kernel.refs, Kernel.setSocket]
  refine ⟨by simp, fun o' => by rw [wakeup_refs, refs o'], ?_, ?_⟩
  · intro e different
    rw [wakeup_live, set_socket_live, set_socket_live]
    simp only [Object.entry] at different
    simp [different]
  · rw [wakeup_live, set_socket_live, if_pos (show (Object.socket n).entry = .socket n from rfl),
      wakeup_refs]
    have after : (s.refs (.socket n)) - 1 = (s.sockets n).refs - 1 := rfl
    constructor
    · intro alive
      refine ⟨.socket n, rfl, ?_⟩
      rw [refs, if_pos rfl, after]
      simpa [Kernel.setSocket, used'] using alive
    · rintro ⟨o', inside, nonzero⟩
      obtain rfl := single o' inside
      rw [refs, if_pos rfl, after] at nonzero
      simpa [Kernel.setSocket, used'] using nonzero

/-- Dropping a reference that some place holds. -/
theorem drop_object_dropped (s : Kernel) (sound : Sound s) (o : Object) (alive : s.live o.entry) :
    Dropped s (dropObject s o) o := by
  cases o with
  | file n => exact drop_open_file_dropped alive
  | pipe n pipeEnd => exact pipe_close_dropped pipeEnd alive
  | socket n => exact socket_close_dropped alive (sound.bounded _ alive)

/-- A place gives up what it holds. -/
theorem detach_sound (s t : Kernel) (sound : Sound s) (h : Holder) (o : Object)
    (held : s.holds h = some o) (holds : t.holds = Function.update s.holds h none)
    (refs : ∀ o', t.refs o' = (dropObject s o).refs o')
    (live : ∀ e, t.live e ↔ (dropObject s o).live e) : Sound t := by
  have dropped := drop_object_dropped s sound o (sound_held_live s sound h o held)
  constructor
  · rw [holds]
    refine Library.exact_detach sound.exact (holds_finite _) h o held t.refs t.live ?_ ?_ ?_ ?_
    · rw [refs, dropped.refs, if_pos rfl]
    · intro o' different
      rw [refs, dropped.refs, if_neg different]
      simp
    · intro e different
      rw [live, dropped.elsewhere e different]
    · rw [live, dropped.here]
      simp only [refs]
  · intro e alive
    by_cases here : e = o.entry
    · rw [here]
      exact sound.bounded _ (sound_held_live s sound h o held)
    · exact sound.bounded e ((dropped.elsewhere e here).mp ((live e).mp alive))

/-- A free place takes a reference to an object in use. -/
theorem attach_sound (s t : Kernel) (sound : Sound s) (h : Holder) (o : Object)
    (free : s.holds h = none) (alive : s.live o.entry)
    (holds : t.holds = Function.update s.holds h (some o))
    (refs : ∀ o', t.refs o' = (retainObject s o).refs o')
    (live : ∀ e, t.live e ↔ s.live e) : Sound t := by
  constructor
  · rw [holds]
    refine Library.exact_attach sound.exact (holds_finite _) h o free alive t.refs t.live ?_ ?_ live
    · rw [refs, retain_refs, if_pos rfl]
    · intro o' different
      rw [refs, retain_refs, if_neg different]
      simp
  · exact fun e isLive => sound.bounded e ((live e).mp isLive)

/-- No reference moves. The counts of entries that are not in use do not matter. -/
theorem unmoved_sound (sound : Sound s) (holds : t.holds = s.holds)
    (refs : ∀ o, s.live o.entry → t.refs o = s.refs o) (live : ∀ e, t.live e ↔ s.live e) :
    Sound t := by
  refine ⟨⟨?_, ?_, ?_⟩, fun e alive => sound.bounded e ((live e).mp alive)⟩
  · intro o alive
    have before := (live _).mp alive
    rw [refs o before, holds, sound.exact.counted o before]
  · intro o unused
    rw [holds]
    exact sound.exact.dead o fun alive => unused ((live _).mpr alive)
  · intro e alive
    rw [holds]
    exact sound.exact.wanted e ((live e).mp alive)

theorem keep_sound (sound : Sound s) (holds : t.holds = s.holds) (refs : ∀ o, t.refs o = s.refs o)
    (live : ∀ e, t.live e ↔ s.live e) : Sound t :=
  unmoved_sound sound holds (fun o _ => refs o) live

end JsEmulator.Files
