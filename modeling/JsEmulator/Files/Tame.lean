import JsEmulator.Files.AreaHolders

/-!
# What the calls leave alone

Most of what a call does is tame: it changes descriptors and areas of one process only,
it wakes sleepers and does nothing else to the scheduling state, it leaves the bytes in
every pipe alone, and it wakes everybody who sleeps on a pipe when an end of it is
closed for good. Tame changes compose, so one lemma for each function carries over to
the loops and the calls.
-/

namespace JsEmulator.Files

open JsEmulator.Memory (Byte Word Vm Area MmapArgs maxProc pageCacheSize maxVmas)
open JsEmulator.Process (RunState Chan)

variable {s t : Kernel} {caller who : Fin maxProc} {address length : Word} {answer : Int × Kernel}
variable {f : Pipe → Pipe} {n : Nat} {α : Type}

/-! ## Tame changes -/

/-- The ring buffer and the history of a pipe are the same. -/
structure Pipe.SameStream (p q : Pipe) : Prop where
  count : q.count = p.count
  head : q.head = p.head
  data : q.data = p.data
  written : q.written = p.written
  taken : q.taken = p.taken

/-- A change on behalf of one process leaves the descriptors and areas of the others alone,
and changes nobody's scheduling state except by waking. -/
structure Around (who : Fin maxProc) (s t : Kernel) : Prop where
  nproc : t.nproc = s.nproc
  state : ∀ idx, (t.procs idx).state = (s.procs idx).state ∨
    (s.procs idx).state = .sleeping ∧ (t.procs idx).state = .runnable
  chan : ∀ idx, (t.procs idx).chan = (s.procs idx).chan
  files : ∀ idx, idx ≠ who → (t.procs idx).files = (s.procs idx).files
  vm : ∀ idx, idx ≠ who → (t.procs idx).vm = (s.procs idx).vm

/-- A tame change on behalf of one process. -/
structure Tame (who : Fin maxProc) (s t : Kernel) : Prop extends Around who s t where
  streams : ∀ n, (s.pipes n).SameStream (t.pipes n)
  writers : ∀ n idx, idx.val < s.nproc → (t.procs idx).state = .sleeping →
    (t.procs idx).chan = .pipe n → (t.pipes n).nwrite = 0 → (s.pipes n).nwrite = 0
  readers : ∀ n idx, idx.val < s.nproc → (t.procs idx).state = .sleeping →
    (t.procs idx).chan = .pipe n → (t.pipes n).nread = 0 → (s.pipes n).nread = 0

theorem same_stream_refl (p : Pipe) : p.SameStream p := ⟨rfl, rfl, rfl, rfl, rfl⟩

/-- Nothing about processes and pipes changes, except what one process refers to. -/
theorem tame_of_same (nproc : t.nproc = s.nproc)
    (others : ∀ idx, idx ≠ who → t.procs idx = s.procs idx)
    (state : (t.procs who).state = (s.procs who).state)
    (chan : (t.procs who).chan = (s.procs who).chan) (pipes : t.pipes = s.pipes) :
    Tame who s t := by
  refine ⟨⟨nproc, ?_, ?_, ?_, ?_⟩, ?_, ?_, ?_⟩
  · intro idx
    by_cases here : idx = who
    · subst here
      exact .inl state
    · exact .inl (by rw [others idx here])
  · intro idx
    by_cases here : idx = who
    · subst here
      exact chan
    · rw [others idx here]
  · intro idx different
    rw [others idx different]
  · intro idx different
    rw [others idx different]
  · intro n
    rw [pipes]
    exact same_stream_refl _
  · intro n idx _ _ _ none'
    rwa [pipes] at none'
  · intro n idx _ _ _ none'
    rwa [pipes] at none'

theorem tame_refl (who : Fin maxProc) (s : Kernel) : Tame who s s :=
  tame_of_same rfl (fun _ _ => rfl) rfl rfl rfl

theorem around_trans {u : Kernel} (first : Around who s t) (second : Around who t u) :
    Around who s u := by
  refine ⟨second.nproc.trans first.nproc, ?_, fun idx => (second.chan idx).trans (first.chan idx),
    fun idx other => (second.files idx other).trans (first.files idx other),
    fun idx other => (second.vm idx other).trans (first.vm idx other)⟩
  intro idx
  rcases first.state idx with same | ⟨asleep, woken⟩
  · rcases second.state idx with same' | ⟨asleep, woken⟩
    · exact .inl (same'.trans same)
    · exact .inr ⟨same ▸ asleep, woken⟩
  rcases second.state idx with same' | ⟨asleep', -⟩
  · exact .inr ⟨asleep, same'.trans woken⟩
  · rw [woken] at asleep'
    cases asleep'

/-- A process that sleeps in the end slept all the time. -/
theorem around_slept (around : Around who s t) {idx : Fin maxProc}
    (asleep : (t.procs idx).state = .sleeping) :
    (s.procs idx).state = .sleeping := by
  rcases around.state idx with same | ⟨-, woken⟩
  · rw [← same, asleep]
  · rw [woken] at asleep
    cases asleep

theorem tame_trans (who : Fin maxProc) (s t u : Kernel) (first : Tame who s t)
    (second : Tame who t u) : Tame who s u := by
  refine ⟨around_trans first.toAround second.toAround, ?_, ?_, ?_⟩
  · intro n
    have before := first.streams n
    have after := second.streams n
    exact ⟨after.count.trans before.count, after.head.trans before.head,
      after.data.trans before.data, after.written.trans before.written,
      after.taken.trans before.taken⟩
  · intro n idx inTable asleep onPipe none'
    have inTable' : idx.val < t.nproc := first.nproc.symm ▸ inTable
    exact first.writers n idx inTable (around_slept second.toAround asleep)
      ((second.chan idx).symm.trans onPipe) (second.writers n idx inTable' asleep onPipe none')
  · intro n idx inTable asleep onPipe none'
    have inTable' : idx.val < t.nproc := first.nproc.symm ▸ inTable
    exact first.readers n idx inTable (around_slept second.toAround asleep)
      ((second.chan idx).symm.trans onPipe) (second.readers n idx inTable' asleep onPipe none')

/-- A loop of tame turns is tame. -/
theorem foldl_tame (who : Fin maxProc) (turn : Kernel → α → Kernel)
    (tame : ∀ s x, Tame who s (turn s x)) (xs : List α) (s : Kernel) :
    Tame who s (xs.foldl turn s) := by
  induction xs generalizing s with
  | nil => exact tame_refl who s
  | cons x rest ih =>
    exact tame_trans who _ _ _ (tame s x) (ih (turn s x))

/-- A loop of tame turns that may get stuck is tame. -/
theorem foldlM_tame (who : Fin maxProc) (turn : Kernel → α → Option Kernel)
    (tame : ∀ s x t, turn s x = some t → Tame who s t) (xs : List α) (s t : Kernel)
    (looped : xs.foldlM turn s = some t) : Tame who s t := by
  induction xs generalizing s with
  | nil =>
    obtain rfl := Option.some.inj looped
    exact tame_refl who s
  | cons x rest ih =>
    rw [List.foldlM_cons] at looped
    obtain ⟨next, turned, remaining⟩ := Option.bind_eq_some_iff.mp looped
    exact tame_trans who _ _ _ (tame s x next turned) (ih next remaining)

/-! ## The functions are tame -/

theorem set_file_tame (s : Kernel) (who : Fin maxProc) (fd : Fin nfd) (file : File) :
    Tame who s (s.setFile who fd file) :=
  tame_of_same rfl (fun idx other => set_proc_elsewhere s who idx _ other)
    (by rw [Kernel.setFile, set_proc_proc]) (by rw [Kernel.setFile, set_proc_proc]) rfl

theorem set_vm_tame (s : Kernel) (who : Fin maxProc) (vm : Vm) : Tame who s (s.setVm who vm) :=
  tame_of_same rfl (fun idx other => set_proc_elsewhere s who idx _ other)
    (by rw [Kernel.setVm, set_proc_proc]) (by rw [Kernel.setVm, set_proc_proc]) rfl

/-- Processes and pipes stay as they are. -/
theorem tame_of_tables (who : Fin maxProc) (nproc : t.nproc = s.nproc) (procs : t.procs = s.procs)
    (pipes : t.pipes = s.pipes) : Tame who s t :=
  tame_of_same nproc (fun idx _ => by rw [procs]) (by rw [procs]) (by rw [procs]) pipes

theorem wakeup_tame (s : Kernel) (who : Fin maxProc) (chan : Chan) : Tame who s (wakeup s chan) := by
  refine ⟨⟨rfl, ?_, ?_, ?_, ?_⟩, fun n => same_stream_refl _, fun _ _ _ _ _ none' => none',
    fun _ _ _ _ _ none' => none'⟩
  · intro idx
    simp only [wakeup]
    split
    · rename_i woken
      exact .inr ⟨woken.2.1, rfl⟩
    · exact .inl rfl
  all_goals
    intros
    simp only [wakeup]
    split <;> rfl

/-- Whoever sleeps after a `wakeup` sleeps on something else, or has no slot yet. -/
theorem wakeup_asleep (s : Kernel) (chan : Chan) (idx : Fin maxProc) (inTable : idx.val < s.nproc)
    (asleep : ((wakeup s chan).procs idx).state = .sleeping) :
    ((wakeup s chan).procs idx).chan ≠ chan := by
  simp only [wakeup] at asleep ⊢
  split at asleep
  · cases asleep
  · rename_i untouched
    rw [if_neg untouched]
    exact fun same => untouched ⟨inTable, asleep, same⟩

theorem drop_open_file_tame (s : Kernel) (who : Fin maxProc) (n : Nat) :
    Tame who s (dropOpenFile s n) := by
  simp only [dropOpenFile]
  split
  · exact tame_of_tables who rfl rfl rfl
  · exact tame_of_tables who rfl rfl rfl

theorem retain_file_tame (s : Kernel) (who : Fin maxProc) (file : Option Nat) :
    Tame who s (retainFile s file) := by
  cases file with
  | none => exact tame_refl who s
  | some n =>
    simp only [retainFile, fileMmapRetainObject]
    split
    · exact tame_of_tables who rfl rfl rfl
    · exact tame_refl who s

theorem release_tame (s : Kernel) (who : Fin maxProc) (n : Nat) :
    Tame who s (fileMmapRelease s n) := by
  simp only [fileMmapRelease]
  split
  · exact tame_refl who s
  · exact drop_open_file_tame s who n

theorem release_file_tame (s : Kernel) (who : Fin maxProc) (file : Option Nat) :
    Tame who s (releaseFile s file) := by
  cases file with
  | none => exact tame_refl who s
  | some n => exact release_tame s who n

theorem socket_close_tame (s : Kernel) (who : Fin maxProc) (n : Nat) :
    Tame who s (socketClose s n) := by
  simp only [socketClose]
  split
  · exact tame_refl who s
  · refine tame_trans who s _ _ ?_ (wakeup_tame _ who .poll)
    exact tame_of_tables who rfl rfl rfl

theorem set_pipe_around (s : Kernel) (who : Fin maxProc) (n : Nat) (f : Pipe → Pipe) :
    Around who s (s.setPipe n f) :=
  ⟨rfl, fun _ => .inl rfl, fun _ => rfl, fun _ _ => rfl, fun _ _ => rfl⟩

/-- A pipe changes in its flags, its use or its counts, where no count becomes zero. -/
theorem set_pipe_tame (who : Fin maxProc) (stream : (s.pipes n).SameStream (f (s.pipes n)))
    (nwrite : (f (s.pipes n)).nwrite = 0 → (s.pipes n).nwrite = 0)
    (nread : (f (s.pipes n)).nread = 0 → (s.pipes n).nread = 0) : Tame who s (s.setPipe n f) := by
  have here : (s.setPipe n f).pipes n = f (s.pipes n) := by simp [Kernel.setPipe]
  have elsewhere (m : Nat) (different : m ≠ n) : (s.setPipe n f).pipes m = s.pipes m := by
    simp [Kernel.setPipe, different]
  refine ⟨set_pipe_around s who n f, ?_, ?_, ?_⟩
  · intro m
    by_cases same : m = n
    · subst same
      rw [here]
      exact stream
    · rw [elsewhere m same]
      exact same_stream_refl _
  · intro m idx _ _ _ none'
    by_cases same : m = n
    · subst same
      exact nwrite (here ▸ none')
    · rwa [elsewhere m same] at none'
  · intro m idx _ _ _ none'
    by_cases same : m = n
    · subst same
      exact nread (here ▸ none')
    · rwa [elsewhere m same] at none'

/-- A pipe changes its counts and everybody who sleeps on it is woken. -/
theorem wake_pipe_tame (who : Fin maxProc) (stream : (s.pipes n).SameStream (f (s.pipes n))) :
    Tame who s (wakeup (s.setPipe n f) (.pipe n)) := by
  have woken := wakeup_tame (s.setPipe n f) who (.pipe n)
  have here : (s.setPipe n f).pipes n = f (s.pipes n) := by simp [Kernel.setPipe]
  have elsewhere (m : Nat) (different : m ≠ n) : (s.setPipe n f).pipes m = s.pipes m := by
    simp [Kernel.setPipe, different]
  -- Nobody is left on this pipe, so the two last conditions are about the others.
  have other (m : Nat) (idx : Fin maxProc) (inTable : idx.val < s.nproc)
      (asleep : ((wakeup (s.setPipe n f) (.pipe n)).procs idx).state = .sleeping)
      (onPipe : ((wakeup (s.setPipe n f) (.pipe n)).procs idx).chan = .pipe m) : m ≠ n := by
    rintro rfl
    exact wakeup_asleep (s.setPipe m f) (.pipe m) idx inTable asleep onPipe
  refine ⟨around_trans (set_pipe_around s who n f) woken.toAround, ?_, ?_, ?_⟩
  · intro m
    change (s.pipes m).SameStream ((s.setPipe n f).pipes m)
    by_cases same : m = n
    · subst same
      rw [here]
      exact stream
    · rw [elsewhere m same]
      exact same_stream_refl _
  · intro m idx inTable asleep onPipe none'
    change ((s.setPipe n f).pipes m).nwrite = 0 at none'
    rwa [elsewhere m (other m idx inTable asleep onPipe)] at none'
  · intro m idx inTable asleep onPipe none'
    change ((s.setPipe n f).pipes m).nread = 0 at none'
    rwa [elsewhere m (other m idx inTable asleep onPipe)] at none'

theorem pipe_close_tame (s : Kernel) (who : Fin maxProc) (n : Nat) (pipeEnd : PipeEnd) :
    Tame who s (pipeCloseOp s n pipeEnd) := by
  have closing : Tame who s (pipeClosing s n pipeEnd) := by
    refine tame_trans who s _ _ (wake_pipe_tame who ?_) (wakeup_tame _ who .poll)
    cases pipeEnd <;> exact ⟨rfl, rfl, rfl, rfl, rfl⟩
  simp only [pipeCloseOp]
  split
  · exact tame_trans who s _ _ closing
      (set_pipe_tame who ⟨rfl, rfl, rfl, rfl, rfl⟩ (fun none' => none') (fun none' => none'))
  · exact closing

theorem fd_close_tame (s : Kernel) (who : Fin maxProc) (fd : Fin nfd) :
    Tame who s (fdClose s who fd) := by
  simp only [fdClose]
  refine tame_trans who s _ _ ?_ (set_file_tame _ who fd noFile)
  split
  · exact tame_refl who s
  · exact drop_open_file_tame s who _
  · exact pipe_close_tame s who _ _
  · exact socket_close_tame s who _

theorem clear_fds_tame (s : Kernel) (who : Fin maxProc) : Tame who s (clearFds s who) := by
  refine foldl_tame who _ (fun s fd => ?_) _ s
  split
  · exact tame_refl who s
  · exact fd_close_tame s who fd

theorem close_exec_fds_tame (s : Kernel) (who : Fin maxProc) : Tame who s (closeExecFds s who) := by
  refine foldl_tame who _ (fun s fd => ?_) _ s
  split
  · exact fd_close_tame s who fd
  · exact tame_refl who s

/-- An object with references gets one more. -/
theorem file_retain_tame (s : Kernel) (who : Fin maxProc) (file : File)
    (positive : ∀ o, file.refers = some o → 0 < s.refs o) : Tame who s (fileRetain s file) := by
  unfold fileRetain
  split
  · exact tame_refl who s
  · exact tame_of_tables who rfl rfl rfl
  · rename_i type
    have count := positive (.pipe file.object file.pipeEnd) (by simp [File.refers, type])
    refine set_pipe_tame who ?_ ?_ ?_
    all_goals cases isEnd : file.pipeEnd <;> simp only [isEnd, Kernel.refs] at count
    all_goals first
      | exact ⟨rfl, rfl, rfl, rfl, rfl⟩
      | (simp only [Pipe.adjust]; omega)
  · simp only [socketRetain]
    split
    · exact tame_of_tables who rfl rfl rfl
    · exact tame_refl who s

/-- What some place holds has references. -/
theorem held_positive (s : Kernel) (sound : Sound s) (h : Holder) (o : Object)
    (held : s.holds h = some o) : 0 < s.refs o := by
  rw [sound.exact.counted o (sound_held_live s sound h o held)]
  exact_mod_cast Library.uses_pos s.holds (holds_finite _) h o held

/-- `copy_file` of a descriptor that some process has. -/
theorem copy_file_tame (sound : Sound s) (who idx : Fin maxProc) (fd fd' : Fin nfd) :
    Tame who s (copyFile s who fd ((s.procs idx).files fd')) := by
  refine tame_trans who s _ _ (set_file_tame s who fd _) (file_retain_tame _ who _ ?_)
  intro o refers
  rw [(set_file_counts s who fd _).1]
  exact held_positive s sound (.fd idx fd') o refers

/-! ## The calls are tame -/

theorem set_status_flags_tame (s : Kernel) (who : Fin maxProc) (fd : Fin nfd) (flags : Word) :
    Tame who s (fileSetStatusFlags s who fd flags) := by
  simp only [fileSetStatusFlags]
  split
  · exact tame_of_tables who rfl rfl rfl
  split
  · split <;>
      exact set_pipe_tame who ⟨rfl, rfl, rfl, rfl, rfl⟩ (fun none' => none') (fun none' => none')
  split
  · exact tame_of_tables who rfl rfl rfl
  · exact set_file_tame s who fd _

theorem file_set_node_tame {fd : Fin nfd} {node : Vnode} (set : fileSetNode s who fd node = some t) :
    Tame who s t := by
  obtain ⟨⟨n, s'⟩, allocated, rfl⟩ := Option.map_eq_some_iff.mp set
  obtain ⟨m, -, same⟩ := Option.map_eq_some_iff.mp allocated
  cases same
  refine tame_trans who s _ _ ?_ (set_file_tame _ who fd _)
  exact tame_of_tables who rfl rfl rfl

theorem munmap_turn_tame {start stop : Int} {i : Fin maxVmas}
    (turned : munmapTurn caller start stop s i = some t) : Tame caller s t := by
  unfold munmapTurn at turned
  obtain ⟨vm, -, rfl⟩ := Option.map_eq_some_iff.mp turned
  refine tame_trans caller s _ _ (set_vm_tame s caller vm) ?_
  split
  · exact retain_file_tame _ caller _
  split
  · exact release_file_tame _ caller _
  · exact tame_refl caller _

theorem vm_release_tame (s : Kernel) (idx : Fin maxProc) : Tame idx s (vmRelease s idx) := by
  refine foldl_tame idx _ (fun s i => ?_) _ s
  simp only [releaseTurn]
  refine tame_trans idx s _ _ ?_ (set_vm_tame _ idx _)
  split
  · exact release_file_tame s idx _
  · exact tame_refl idx s

end JsEmulator.Files
