import JsEmulator.Files.References

/-!
# Descriptor calls keep the counts

Closing, copying and opening descriptors, for each of the four kinds of object and on
every failure path.
-/

namespace JsEmulator.Files

open JsEmulator.Memory (Byte Word Vm Area maxProc pageCacheSize maxVmas)
open JsEmulator.Process (RunState Chan)

variable {s t : Kernel} {fd : Fin nfd} {idx : Fin maxProc} {file : File} {n : Nat}

/-! ## One descriptor -/

theorem set_file_counts (s : Kernel) (idx : Fin maxProc) (fd : Fin nfd) (file : File) :
    (s.setFile idx fd file).refs = s.refs ∧ (s.setFile idx fd file).live = s.live :=
  same_counts s _ rfl rfl rfl

theorem set_proc_counts (s : Kernel) (idx : Fin maxProc) (f : Proc → Proc) :
    (s.setProc idx f).refs = s.refs ∧ (s.setProc idx f).live = s.live :=
  same_counts s _ rfl rfl rfl

/-- A descriptor changes without changing its object. -/
theorem set_file_sound (sound : Sound s) (same : file.refers = ((s.procs idx).files fd).refers) :
    Sound (s.setFile idx fd file) := by
  obtain ⟨refs, live⟩ := set_file_counts s idx fd file
  refine keep_sound sound ?_ (fun o => by rw [refs]) (fun e => by rw [live])
  rw [set_file_holds, same]
  exact Function.update_eq_self _ _

/-- A process changes in other fields than its descriptors and areas. -/
theorem set_proc_sound (s : Kernel) (sound : Sound s) (idx : Fin maxProc) (f : Proc → Proc)
    (files : (f (s.procs idx)).files = (s.procs idx).files)
    (areas : (f (s.procs idx)).vm.areas = (s.procs idx).vm.areas) : Sound (s.setProc idx f) := by
  obtain ⟨refs, live⟩ := set_proc_counts s idx f
  refine keep_sound sound ?_ (fun o => by rw [refs]) (fun e => by rw [live])
  refine same_holds ?_ ?_ rfl
  · intro other
    by_cases here : other = idx
    · subst here
      rw [set_proc_proc, files]
    · rw [set_proc_elsewhere s idx other f here]
  · intro other
    by_cases here : other = idx
    · subst here
      rw [set_proc_proc, areas]
    · rw [set_proc_elsewhere s idx other f here]

theorem wakeup_sound (sound : Sound s) (chan : Chan) : Sound (wakeup s chan) :=
  keep_sound sound (wakeup_holds s chan) (fun o => by rw [wakeup_refs])
    (fun e => by rw [wakeup_live])

theorem sleep_sound (sound : Sound s) (idx : Fin maxProc) (chan : Chan) :
    Sound (sleep s idx chan) := set_proc_sound s sound idx _ rfl rfl

/-- A pipe changes in other fields than its counts. -/
theorem set_pipe_sound (sound : Sound s) {f : Pipe → Pipe}
    (nread : (f (s.pipes n)).nread = (s.pipes n).nread)
    (nwrite : (f (s.pipes n)).nwrite = (s.pipes n).nwrite)
    (used : (f (s.pipes n)).used = (s.pipes n).used) : Sound (s.setPipe n f) := by
  refine keep_sound sound (set_pipe_holds s n f) ?_ ?_
  · intro o
    rw [set_pipe_refs]
    split <;> [skip; split] <;> simp_all [Kernel.refs]
  · intro e
    rw [set_pipe_live]
    split <;> simp_all [Kernel.live]

theorem fd_close_eq (s : Kernel) (idx : Fin maxProc) (fd : Fin nfd) :
    fdClose s idx fd =
      ((((s.procs idx).files fd).refers.elim s (dropObject s)).setFile idx fd noFile) := by
  unfold fdClose File.refers
  simp only
  split <;> rename_i type <;> simp [type, dropObject]

/-- `fd_close`. -/
theorem fd_close_sound (sound : Sound s) (idx : Fin maxProc) (fd : Fin nfd) :
    Sound (fdClose s idx fd) := by
  rw [fd_close_eq]
  cases held : ((s.procs idx).files fd).refers with
  | none => exact set_file_sound sound held.symm
  | some o =>
    obtain ⟨refs, live⟩ := set_file_counts (dropObject s o) idx fd noFile
    have dropped := drop_object_dropped s sound o (sound_held_live s sound (.fd idx fd) o held)
    refine detach_sound s _ sound (.fd idx fd) o held ?_ (fun o' => ?_) (fun e => ?_)
    · simp only [Option.elim]
      rw [set_file_holds, dropped.holds]
      rfl
    · simp only [Option.elim]
      rw [refs]
    · simp only [Option.elim]
      rw [live]

theorem file_retain_eq (alive : ∀ o, file.refers = some o → s.live o.entry ∧ o.entry.InTable) :
    fileRetain s file = file.refers.elim s (retainObject s) := by
  unfold fileRetain File.refers at *
  split <;> rename_i type <;> simp only [type] at alive ⊢ <;> try rfl
  obtain ⟨used, inTable⟩ := alive _ rfl
  have used' : (s.sockets file.object).used = true := used
  have inTable' : file.object < nsocket := inTable
  simp [socketRetain, retainObject, used', inTable']

/-- `copy_file`, onto a free descriptor. -/
theorem copy_file_sound (sound : Sound s) {src : File} (free : s.holds (.fd idx fd) = none)
    (alive : ∀ o, src.refers = some o → s.live o.entry) : Sound (copyFile s idx fd src) := by
  obtain ⟨refs, live⟩ := set_file_counts s idx fd { src with statusFlags := 0 }
  unfold copyFile
  rw [file_retain_eq fun o refers => by
    rw [live]
    exact ⟨alive o refers, sound.bounded _ (alive o refers)⟩]
  cases refers : src.refers with
  | none => exact set_file_sound sound (refers.trans free.symm)
  | some o =>
    refine attach_sound s _ sound (.fd idx fd) o free (alive o refers) ?_ (fun o' => ?_)
      (fun e => ?_)
    · simp only [Option.elim]
      rw [retain_holds, set_file_holds]
      exact congrArg _ refers
    · simp only [Option.elim]
      rw [retain_refs, retain_refs, refs]
    · simp only [Option.elim]
      rw [retain_live, live]

theorem alloc_fd_free {minimum : Int} (found : allocFdFrom s idx minimum = some fd) :
    s.holds (.fd idx fd) = none := by
  have test := List.find?_some found
  simp only [Bool.and_eq_true, decide_eq_true_eq] at test
  simp [Kernel.holds, File.refers, test.2]

/-! ## Opening -/

/-- `file_set_node`, onto a free descriptor. -/
theorem file_set_node_sound (sound : Sound s) {node : Vnode} (free : s.holds (.fd idx fd) = none)
    (set : fileSetNode s idx fd node = some t) : Sound t := by
  obtain ⟨⟨n, s'⟩, allocated, rfl⟩ := Option.map_eq_some_iff.mp set
  obtain ⟨m, found, same⟩ := Option.map_eq_some_iff.mp allocated
  obtain ⟨rfl, rfl⟩ := Prod.mk.inj same
  have unused : ¬ s.live (.file m) := by simpa [Kernel.live] using List.find?_some found
  have inTable : m < nfile := List.mem_range.mp (List.mem_of_find?_eq_some found)
  have single : ∀ o' : Object, o'.entry = (Object.file m).entry → o' = .file m := by
    rintro (k | ⟨k, _⟩ | k) same <;> simp_all [Object.entry]
  obtain ⟨refs, live⟩ := set_file_counts (s.setOpen m fun _ => ⟨true, 1, 0, node⟩) idx fd
    { noFile with type := .file, readable := true, object := m }
  constructor
  · rw [set_file_holds, set_open_holds]
    refine Library.exact_create sound.exact (holds_finite _) (.fd idx fd) (.file m) free unused
      _ _ ?_ ?_ ?_ ?_ ?_
    · rw [refs, set_open_refs, if_pos rfl]
    · intro o' inside different
      exact absurd (single o' inside) different
    · intro o' outside
      rw [refs, set_open_refs, if_neg]
      rintro rfl
      exact outside rfl
    · rw [live, set_open_live]
      simp [Object.entry]
    · intro e different
      have elsewhere : e ≠ .file m := different
      rw [live, set_open_live, if_neg elsewhere]
  · intro e alive
    rw [live, set_open_live] at alive
    split at alive
    case isTrue here =>
      rw [here]
      exact inTable
    case isFalse => exact sound.bounded e alive

/-- The status flags of a descriptor are not counted. -/
theorem set_status_flags_sound (sound : Sound s) (idx : Fin maxProc) (fd : Fin nfd) (flags : Word) :
    Sound (fileSetStatusFlags s idx fd flags) := by
  unfold fileSetStatusFlags
  simp only
  split
  · refine keep_sound sound (set_open_holds _ _ _) (fun o => ?_) (fun e => ?_)
    · rw [set_open_refs]
      split <;> simp_all [Kernel.refs]
    · rw [set_open_live]
      split <;> simp_all [Kernel.live]
  · split
    · split
      · exact set_pipe_sound sound rfl rfl rfl
      · exact set_pipe_sound sound rfl rfl rfl
    split
    · refine keep_sound sound (set_socket_holds _ _ _) (fun o => ?_) (fun e => ?_)
      · rw [set_socket_refs]
        split <;> simp_all [Kernel.refs]
      · rw [set_socket_live]
        split <;> simp_all [Kernel.live]
    · exact set_file_sound sound rfl

theorem file_set_pipe_fields (s : Kernel) (idx : Fin maxProc) (fd : Fin nfd) (n : Nat)
    (pipeEnd : PipeEnd) :
    (fileSetPipe s idx fd n pipeEnd).holds =
        Function.update s.holds (.fd idx fd) (some (.pipe n pipeEnd)) ∧
      (∀ o, (fileSetPipe s idx fd n pipeEnd).refs o = s.refs o) ∧
      ∀ e, (fileSetPipe s idx fd n pipeEnd).live e ↔ s.live e := by
  refine ⟨?_, ?_, ?_⟩
  · cases pipeEnd <;> simp only [fileSetPipe, set_pipe_holds, set_file_holds] <;> rfl
  · intro o
    cases pipeEnd <;> simp only [fileSetPipe, set_pipe_refs, (set_file_counts s idx fd _).1] <;>
      split <;> [skip; split; skip; split] <;> simp_all [Kernel.refs, Kernel.setFile, Kernel.setProc]
  · intro e
    cases pipeEnd <;> simp only [fileSetPipe, set_pipe_live, (set_file_counts s idx fd _).2] <;>
      split <;> simp_all [Kernel.live, Kernel.setFile, Kernel.setProc]

/-- A new pipe, with a descriptor at each end. -/
theorem new_pipe_sound (sound : Sound s) {caller : Fin maxProc} {rfd wfd : Fin nfd}
    (unused : ¬ s.live (.pipe n)) (inTable : n < npipe) (freeRead : s.holds (.fd caller rfd) = none)
    (freeWrite : s.holds (.fd caller wfd) = none) (different : wfd ≠ rfd)
    (holds : t.holds = Function.update (Function.update s.holds (.fd caller rfd)
      (some (.pipe n .read))) (.fd caller wfd) (some (.pipe n .write)))
    (refs : ∀ o, t.refs o = if o = .pipe n .read then 1 else if o = .pipe n .write then 1
      else s.refs o) (live : ∀ e, t.live e ↔ e = .pipe n ∨ s.live e) : Sound t := by
  -- The reading end is created with the pipe, the writing end is attached to it.
  have created := Library.exact_create sound.exact (holds_finite _) (.fd caller rfd)
    (.pipe n .read) freeRead unused
    (fun o => if o = .pipe n .read then 1 else if o = .pipe n .write then 0 else s.refs o)
    (fun e => e = .pipe n ∨ s.live e) (by simp)
    (by rintro (m | ⟨m, _ | _⟩ | m) inside other <;> simp_all [Object.entry])
    (by rintro (m | ⟨m, _ | _⟩ | m) outside <;> simp_all [Object.entry])
    (.inl rfl) (by
      intro e elsewhere
      have other : e ≠ .pipe n := elsewhere
      simp [other])
  constructor
  · rw [holds]
    refine Library.exact_attach created (holds_finite _) (.fd caller wfd) (.pipe n .write) ?_
      (.inl rfl) t.refs t.live ?_ ?_ live
    · rw [Function.update_of_ne (by simp [different])]
      exact freeWrite
    · simp [refs]
    · intro o other
      rw [refs]
      simp [other]
  · intro e alive
    rcases (live e).mp alive with rfl | before
    · exact inTable
    · exact sound.bounded e before

/-- `sys_pipe`, whether it succeeds or runs out of pipes or descriptors. -/
theorem sys_pipe_sound (sound : Sound s) (caller : Fin maxProc) (access : Bool) :
    Sound (sysPipe s caller access).2 := by
  unfold sysPipe
  split
  · exact sound
  split
  · exact sound
  rename_i n s₁ allocated
  obtain ⟨m, found, same⟩ := Option.map_eq_some_iff.mp allocated
  obtain ⟨rfl, rfl⟩ := Prod.mk.inj same
  have unused : ¬ s.live (.pipe m) := by simpa [Kernel.live] using List.find?_some found
  have inTable : m < npipe := List.mem_range.mp (List.mem_of_find?_eq_some found)
  -- Giving the entry back leaves every other count as it was.
  have undone (t : Kernel) (holds : t.holds = s.holds)
      (refs : ∀ o, o ≠ .pipe m .read → o ≠ .pipe m .write → t.refs o = s.refs o)
      (dead : ¬ t.live (.pipe m)) (live : ∀ e, e ≠ .pipe m → (t.live e ↔ s.live e)) :
      Sound t := by
    refine unmoved_sound sound holds (fun o alive => refs o ?_ ?_) fun e => ?_
    · rintro rfl
      exact unused alive
    · rintro rfl
      exact unused alive
    · by_cases here : e = .pipe m
      · rw [here]
        exact ⟨fun alive => absurd alive dead, fun alive => absurd alive unused⟩
      · exact live e here
  split
  · refine undone _ (by simp) (fun o notRead notWrite => ?_) ?_ (fun e other => ?_)
    · simp [set_pipe_refs, notRead, notWrite]
    · simp [set_pipe_live]
    · simp [set_pipe_live, other]
  · rename_i rfd foundRead
    have freeRead : s.holds (.fd caller rfd) = none := by
      simpa using alloc_fd_free foundRead
    generalize state : (s.setPipe m fun p =>
      { p with
        used := true, count := 0, head := 0, nread := 1, nwrite := 1
        readStatusFlags := 0, writeStatusFlags := 1, written := [], taken := [] }) = s₁ at *
    have holds₁ : s₁.holds = s.holds := by
      rw [← state, set_pipe_holds]
    have refs₁ : ∀ o, s₁.refs o = if o = .pipe m .read then 1 else if o = .pipe m .write then 1
        else s.refs o := by
      intro o
      rw [← state, set_pipe_refs]
    have live₁ : ∀ e, s₁.live e ↔ e = .pipe m ∨ s.live e := by
      intro e
      rw [← state, set_pipe_live]
      by_cases here : e = .pipe m <;> simp [here]
    obtain ⟨holds₂, refs₂, live₂⟩ := file_set_pipe_fields s₁ caller rfd m .read
    simp only
    split
    · refine undone _ ?_ (fun o notRead notWrite => ?_) ?_ (fun e other => ?_)
      · rw [set_pipe_holds, set_file_holds, holds₂, Function.update_idem, holds₁]
        exact Function.update_eq_self_iff.mpr freeRead.symm
      · rw [set_pipe_refs, if_neg notRead, if_neg notWrite, (set_file_counts _ _ _ _).1, refs₂,
          refs₁, if_neg notRead, if_neg notWrite]
      · simp [set_pipe_live]
      · rw [set_pipe_live, if_neg other, (set_file_counts _ _ _ _).2, live₂, live₁]
        simp [other]
    · rename_i wfd foundWrite
      have freeAfter := alloc_fd_free foundWrite
      have different : wfd ≠ rfd := by
        rintro rfl
        rw [holds₂, Function.update_self] at freeAfter
        exact absurd freeAfter (by simp)
      obtain ⟨holds₃, refs₃, live₃⟩ :=
        file_set_pipe_fields (fileSetPipe s₁ caller rfd m .read) caller wfd m .write
      refine new_pipe_sound sound unused inTable freeRead ?_ different ?_
        (fun o => ?_) (fun e => ?_)
      · rw [holds₂, Function.update_of_ne (by simp [different]), holds₁] at freeAfter
        exact freeAfter
      · rw [holds₃, holds₂, holds₁]
      · rw [refs₃, refs₂, refs₁]
      · rw [live₃, live₂, live₁]

/-- A new socket for a free descriptor. -/
theorem new_socket_sound (sound : Sound s) {caller : Fin maxProc} (unused : ¬ s.live (.socket n))
    (inTable : n < nsocket) (free : s.holds (.fd caller fd) = none) :
    Sound (fileSetSocket (s.setSocket n fun _ => ⟨true, 1, 2⟩) caller fd n) := by
  have single : ∀ o' : Object, o'.entry = (Object.socket n).entry → o' = .socket n := by
    rintro (k | ⟨k, _⟩ | k) same <;> simp_all [Object.entry]
  have refs : ∀ o, (fileSetSocket (s.setSocket n fun _ => ⟨true, 1, 2⟩) caller fd n).refs o =
      if o = .socket n then 1 else s.refs o := by
    intro o
    simp only [fileSetSocket, set_socket_refs, (set_file_counts _ _ _ _).1]
    split <;> simp_all [Kernel.setFile, Kernel.setProc, Kernel.setSocket]
  have live : ∀ e, (fileSetSocket (s.setSocket n fun _ => ⟨true, 1, 2⟩) caller fd n).live e ↔
      e = .socket n ∨ s.live e := by
    intro e
    simp only [fileSetSocket, set_socket_live, (set_file_counts _ _ _ _).2]
    by_cases here : e = .socket n <;>
      simp [here, Kernel.setFile, Kernel.setProc, Kernel.setSocket]
  constructor
  · simp only [fileSetSocket, set_socket_holds, set_file_holds]
    refine Library.exact_create sound.exact (holds_finite _) (.fd caller fd) (.socket n) free
      unused _ _ ?_ ?_ ?_ ?_ ?_
    · exact (refs _).trans (if_pos rfl)
    · intro o' inside different
      exact absurd (single o' inside) different
    · intro o' outside
      refine (refs o').trans (if_neg ?_)
      rintro rfl
      exact outside rfl
    · exact (live _).mpr (.inl rfl)
    · intro e different
      have other : e ≠ .socket n := different
      exact (live e).trans (by simp [other])
  · intro e alive
    rcases (live e).mp alive with rfl | before
    · exact inTable
    · exact sound.bounded e before

end JsEmulator.Files
