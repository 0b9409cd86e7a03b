import JsEmulator.Files.Steps
import Mathlib.Algebra.BigOperators.Fin
import Mathlib.Algebra.Order.BigOperators.Group.Finset
import Mathlib.Data.Fintype.BigOperators

/-!
# Exact counts in every run

The counts are exact in every state that calls lead to. Beside the counts a run keeps
what the next call relies on: the slot of a new process refers to nothing, so that
`copy_fds` and `vm_fork` overwrite no reference, and a process that sleeps on a pipe
keeps the pipe in use.
-/

namespace JsEmulator.Files

open JsEmulator.Memory (Byte Word Vm Area MmapArgs maxProc pageCacheSize maxVmas)
open JsEmulator.Process (RunState Chan)

variable {s t : Kernel} {caller child who : Fin maxProc}

/-! ## Settled tables -/

/-- What every run keeps beside the counts: a slot that is not in use refers to nothing, an
ended process has no descriptors, and a process that sleeps on a pipe has a descriptor
of it. -/
structure Settled (s : Kernel) : Prop where
  sound : Sound s
  unused : ∀ idx, (s.procs idx).state = .unused →
    (∀ fd, s.holds (.fd idx fd) = none) ∧ ∀ i, ((s.procs idx).vm.areas i).used = false
  zombie : ∀ idx, (s.procs idx).state = .zombie → ∀ fd, s.holds (.fd idx fd) = none
  beyond : ∀ idx : Fin maxProc, s.nproc ≤ idx.val → (s.procs idx).state = .unused
  asleep : ∀ idx n, (s.procs idx).state = .sleeping → (s.procs idx).chan = .pipe n →
    ∃ fd pipeEnd, s.holds (.fd idx fd) = some (.pipe n pipeEnd)

theorem same_files_holds (s t : Kernel) (idx : Fin maxProc)
    (same : (t.procs idx).files = (s.procs idx).files) (fd : Fin nfd) :
    t.holds (.fd idx fd) = s.holds (.fd idx fd) := by
  simp only [Kernel.holds, same]

/-- All but one process keep their descriptors and areas, and are at most woken. -/
structure Elsewhere (who : Fin maxProc) (s t : Kernel) : Prop where
  nproc : t.nproc = s.nproc
  state : ∀ idx, idx ≠ who → (t.procs idx).state = (s.procs idx).state ∨
    (s.procs idx).state = .sleeping ∧ (t.procs idx).state = .runnable
  chan : ∀ idx, idx ≠ who → (t.procs idx).chan = (s.procs idx).chan
  files : ∀ idx, idx ≠ who → (t.procs idx).files = (s.procs idx).files
  vm : ∀ idx, idx ≠ who → (t.procs idx).vm = (s.procs idx).vm

theorem around_elsewhere (who : Fin maxProc) (s t : Kernel) (around : Around who s t) :
    Elsewhere who s t :=
  ⟨around.nproc, fun idx _ => around.state idx, fun idx _ => around.chan idx, around.files,
    around.vm⟩

theorem set_proc_elsewhere_frame (s : Kernel) (who : Fin maxProc) (f : Proc → Proc) :
    Elsewhere who s (s.setProc who f) := by
  refine ⟨rfl, fun idx other => .inl ?_, fun idx other => ?_, fun idx other => ?_,
    fun idx other => ?_⟩
  all_goals rw [set_proc_elsewhere s who idx f other]

theorem elsewhere_trans (who : Fin maxProc) (s t u : Kernel) (first : Elsewhere who s t)
    (second : Elsewhere who t u) : Elsewhere who s u := by
  refine ⟨second.nproc.trans first.nproc, ?_,
    fun idx other => (second.chan idx other).trans (first.chan idx other),
    fun idx other => (second.files idx other).trans (first.files idx other),
    fun idx other => (second.vm idx other).trans (first.vm idx other)⟩
  intro idx other
  rcases first.state idx other with same | ⟨asleep, woken⟩
  · rcases second.state idx other with same' | ⟨asleep, woken⟩
    · exact .inl (same'.trans same)
    · exact .inr ⟨same ▸ asleep, woken⟩
  rcases second.state idx other with same' | ⟨asleep', -⟩
  · exact .inr ⟨asleep, same'.trans woken⟩
  · rw [woken] at asleep'
    cases asleep'

/-- A change to one process leaves the tables settled when that process is. -/
theorem elsewhere_settled (who : Fin maxProc) (s t : Kernel) (settled : Settled s)
    (elsewhere : Elsewhere who s t) (sound : Sound t) (inTable : who.val < s.nproc)
    (unused : (t.procs who).state = .unused →
      (∀ fd, t.holds (.fd who fd) = none) ∧ ∀ i, ((t.procs who).vm.areas i).used = false)
    (zombie : (t.procs who).state = .zombie → ∀ fd, t.holds (.fd who fd) = none)
    (asleep : ∀ n, (t.procs who).state = .sleeping → (t.procs who).chan = .pipe n →
      ∃ fd pipeEnd, t.holds (.fd who fd) = some (.pipe n pipeEnd)) : Settled t := by
  -- Any other state than runnable was the state before.
  have before (idx : Fin maxProc) (other : idx ≠ who) (here : (t.procs idx).state ≠ .runnable) :
      (s.procs idx).state = (t.procs idx).state := by
    rcases elsewhere.state idx other with same | ⟨-, woken⟩
    · exact same.symm
    · exact absurd woken here
  refine ⟨sound, ?_, ?_, ?_, ?_⟩
  · intro idx idle
    by_cases same : idx = who
    · subst same
      exact unused idle
    obtain ⟨files, areas⟩ := settled.unused idx
      ((before idx same (by rw [idle]; decide)).trans idle)
    refine ⟨fun fd => ?_, fun i => ?_⟩
    · rw [same_files_holds s t idx (elsewhere.files idx same)]
      exact files fd
    · rw [elsewhere.vm idx same]
      exact areas i
  · intro idx ended fd
    by_cases same : idx = who
    · subst same
      exact zombie ended fd
    · rw [same_files_holds s t idx (elsewhere.files idx same)]
      exact settled.zombie idx ((before idx same (by rw [ended]; decide)).trans ended) fd
  · intro idx outside
    rw [elsewhere.nproc] at outside
    have same : idx ≠ who := by
      rintro rfl
      omega
    have idle := settled.beyond idx outside
    rcases elsewhere.state idx same with same' | ⟨slept, -⟩
    · rw [same', idle]
    · rw [idle] at slept
      cases slept
  · intro idx n slept onPipe
    by_cases same : idx = who
    · subst same
      exact asleep n slept onPipe
    obtain ⟨fd, pipeEnd, held⟩ := settled.asleep idx n
      ((before idx same (by rw [slept]; decide)).trans slept)
      ((elsewhere.chan idx same).symm.trans onPipe)
    exact ⟨fd, pipeEnd, by rw [same_files_holds s t idx (elsewhere.files idx same)]; exact held⟩

/-- Every process that is not unused has a slot below `nproc`. -/
theorem settled_in_table (s : Kernel) (settled : Settled s) (idx : Fin maxProc)
    (active : (s.procs idx).state ≠ .unused) : idx.val < s.nproc := by
  by_contra outside
  exact active (settled.beyond idx (by omega))

/-- A change on behalf of a process that runs on. -/
theorem running_settled (who : Fin maxProc) (s t : Kernel) (settled : Settled s)
    (elsewhere : Elsewhere who s t) (sound : Sound t) (inTable : who.val < s.nproc)
    (running : (t.procs who).state = .runnable) : Settled t := by
  refine elsewhere_settled who s t settled elsewhere sound inTable ?_ ?_ ?_
  · intro idle
    rw [running] at idle
    cases idle
  · intro ended
    rw [running] at ended
    cases ended
  · intro n slept
    rw [running] at slept
    cases slept

theorem around_running (around : Around who s t) {idx : Fin maxProc}
    (running : (s.procs idx).state = .runnable) :
    (t.procs idx).state = .runnable := by
  rcases around.state idx with same | ⟨-, woken⟩
  · rw [same, running]
  · exact woken

theorem around_settled (settled : Settled s) (running : (s.procs who).state = .runnable)
    (around : Around who s t) (sound : Sound t) :
    Settled t :=
  running_settled who s t settled (around_elsewhere who s t around) sound
    (settled_in_table s settled who (by rw [running]; decide))
    (around_running around running)

theorem sleep_holds (s : Kernel) (idx : Fin maxProc) (chan : Chan) :
    (sleep s idx chan).holds = s.holds := by
  refine same_holds (fun other => ?_) (fun other => ?_) rfl
  all_goals
    by_cases same : other = idx
    · subst same
      rw [sleep, set_proc_proc]
    · rw [sleep, set_proc_elsewhere s idx other _ same]

/-- The caller goes to sleep, on a pipe of its own if on a pipe. -/
theorem sleep_settled (settled : Settled s) (running : (s.procs caller).state = .runnable)
    {chan : Chan}
    (own : ∀ n, chan = .pipe n → ∃ fd pipeEnd, s.holds (.fd caller fd) = some (.pipe n pipeEnd)) :
    Settled (sleep s caller chan) := by
  have here : (sleep s caller chan).procs caller =
      { s.procs caller with state := .sleeping, chan := chan } := set_proc_proc s caller _
  refine elsewhere_settled caller s _ settled (set_proc_elsewhere_frame s caller _)
    (sleep_sound settled.sound caller chan)
    (settled_in_table s settled caller (by rw [running]; decide)) ?_ ?_ ?_
  · intro idle
    rw [here] at idle
    cases idle
  · intro ended
    rw [here] at ended
    cases ended
  · intro n _ onPipe
    rw [here] at onPipe
    rw [sleep_holds]
    exact own n onPipe

/-! ## Processes -/

theorem fd_close_holds (sound : Sound s) (idx : Fin maxProc) (fd : Fin nfd) :
    (fdClose s idx fd).holds = Function.update s.holds (.fd idx fd) none := by
  rw [fd_close_eq, set_file_holds]
  cases held : ((s.procs idx).files fd).refers with
  | none => rfl
  | some o =>
    have dropped := drop_object_dropped s sound o (sound_held_live s sound (.fd idx fd) o held)
    simp only [Option.elim]
    rw [dropped.holds]
    rfl

/-- `clear_fds` keeps the counts and leaves no descriptor. -/
theorem clear_fds_sound (s : Kernel) (sound : Sound s) (idx : Fin maxProc) :
    Sound (clearFds s idx) ∧ ∀ fd, (clearFds s idx).holds (.fd idx fd) = none := by
  have looped (fds : List (Fin nfd)) (s : Kernel) (sound : Sound s) : Sound (fds.foldl (fun s fd =>
        if ((s.procs idx).files fd).type = .none then s else fdClose s idx fd) s) ∧
      ∀ fd, (fd ∈ fds ∨ s.holds (.fd idx fd) = none) → (fds.foldl (fun s fd =>
        if ((s.procs idx).files fd).type = .none then s else fdClose s idx fd) s).holds
          (.fd idx fd) = none := by
    induction fds generalizing s with
    | nil => exact ⟨sound, fun fd free => by simpa using free⟩
    | cons fd rest ih =>
      rw [List.foldl_cons]
      split
      · rename_i closed
        obtain ⟨after, cleared⟩ := ih s sound
        refine ⟨after, fun other free => cleared other ?_⟩
        by_cases here : other = fd
        · right
          simp [here, Kernel.holds, File.refers, closed]
        · simpa [here] using free
      · obtain ⟨after, cleared⟩ := ih _ (fd_close_sound sound idx fd)
        refine ⟨after, fun other free => cleared other ?_⟩
        rw [fd_close_holds sound]
        by_cases here : other = fd
        · right
          simp [here]
        · rw [Function.update_of_ne (by simp [here])]
          simpa [here] using free
  obtain ⟨after, cleared⟩ := looped (List.finRange nfd) s sound
  exact ⟨after, fun fd => cleared fd (.inl (List.mem_finRange fd))⟩

theorem file_retain_holds (s : Kernel) (file : File) : (fileRetain s file).holds = s.holds := by
  unfold fileRetain
  split
  · rfl
  · exact set_open_holds s _ _
  · exact set_pipe_holds s _ _
  · simp only [socketRetain]
    split
    · exact set_socket_holds s _ _
    · rfl

theorem copy_file_holds (s : Kernel) (idx : Fin maxProc) (fd : Fin nfd) (src : File) :
    (copyFile s idx fd src).holds = Function.update s.holds (.fd idx fd) src.refers := by
  rw [copyFile, file_retain_holds, set_file_holds]
  rfl

/-- `copy_fds`, into a slot without descriptors. -/
theorem copy_fds_sound (s : Kernel) (sound : Sound s) (dst src : Fin maxProc)
    (free : ∀ fd, s.holds (.fd dst fd) = none) :
    Sound (copyFds s dst src) ∧ Tame dst s (copyFds s dst src) := by
  have looped (fds : List (Fin nfd)) (distinct : fds.Nodup) (s : Kernel) (sound : Sound s)
      (free : ∀ fd ∈ fds, s.holds (.fd dst fd) = none) :
      Sound (fds.foldl (fun s fd => copyFile s dst fd ((s.procs src).files fd)) s) ∧
      Tame dst s (fds.foldl (fun s fd => copyFile s dst fd ((s.procs src).files fd)) s) := by
    induction fds generalizing s with
    | nil => exact ⟨sound, tame_refl dst s⟩
    | cons fd rest ih =>
      rw [List.nodup_cons] at distinct
      have copied := copy_file_sound sound (free fd (by simp))
        (fun o refers => sound_held_live s sound (.fd src fd) o refers)
      obtain ⟨after, tame⟩ := ih distinct.2 _ copied (by
        intro other member
        rw [copy_file_holds, Function.update_of_ne]
        · exact free other (by simp [member])
        · rintro same
          obtain ⟨-, rfl⟩ := Holder.fd.inj same
          exact distinct.1 member)
      exact ⟨after, tame_trans dst _ _ _ (copy_file_tame sound dst src fd fd) tame⟩
  exact looped _ (List.nodup_finRange _) s sound fun fd _ => free fd

/-- `alloc_proc` finds a slot that refers to nothing. -/
theorem alloc_proc_settled (s t : Kernel) (settled : Settled s) (idx : Fin maxProc)
    (allocated : allocProc s = some (idx, t)) :
    Settled t ∧ t.procs = s.procs ∧ (s.procs idx).state = .unused ∧ idx.val < t.nproc := by
  unfold allocProc at allocated
  split at allocated
  · rename_i found
    cases allocated
    have test := List.find?_some found
    simp only [Bool.and_eq_true, decide_eq_true_eq] at test
    exact ⟨settled, rfl, test.2, test.1⟩
  · split at allocated
    · rename_i room
      cases allocated
      have idle := settled.beyond ⟨s.nproc, room⟩ (le_refl _)
      have sound : Sound { s with nproc := s.nproc + 1 } := by
        obtain ⟨refs, live⟩ := same_counts s { s with nproc := s.nproc + 1 } rfl rfl rfl
        exact keep_sound settled.sound (same_holds (fun _ => rfl) (fun _ => rfl) rfl)
          (fun o => by rw [refs]) (fun e => by rw [live])
      refine ⟨⟨sound, settled.unused, settled.zombie, ?_, settled.asleep⟩, rfl, idle, ?_⟩
      · intro other outside
        exact settled.beyond other (by simp only at outside; omega)
      · simp
    · cases allocated

theorem vm_fork_tame (s : Kernel) (child parent : Fin maxProc) :
    Tame child s (vmFork s child parent) := by
  unfold vmFork
  refine tame_trans child s _ _ (set_vm_tame s child _) (foldl_tame child _ (fun u i => ?_) _ _)
  simp only [forkTurn]
  split
  · exact tame_trans child u _ _ (set_vm_tame u child _) (retain_file_tame _ child _)
  · exact set_vm_tame u child _

theorem set_vm_files (s : Kernel) (idx other : Fin maxProc) (vm : Vm) :
    ((s.setVm idx vm).procs other).files = (s.procs other).files := by
  by_cases same : other = idx
  · subst same
    rw [Kernel.setVm, set_proc_proc]
  · rw [Kernel.setVm, set_proc_elsewhere s idx other _ same]

/-- A loop whose turns leave the descriptors alone. -/
theorem foldl_files {turn : Kernel → Fin maxVmas → Kernel}
    (kept : ∀ s i idx, ((turn s i).procs idx).files = (s.procs idx).files)
    (slots : List (Fin maxVmas)) (s : Kernel) (idx : Fin maxProc) :
    ((slots.foldl turn s).procs idx).files = (s.procs idx).files := by
  induction slots generalizing s with
  | nil => rfl
  | cons i rest ih => exact (ih (turn s i)).trans (kept s i idx)

theorem vm_fork_files (s : Kernel) (child parent idx : Fin maxProc) :
    ((vmFork s child parent).procs idx).files = (s.procs idx).files := by
  unfold vmFork
  rw [foldl_files, set_vm_files]
  intro u i other
  simp only [forkTurn]
  split
  · rw [retain_file_procs, set_vm_files]
  · rw [set_vm_files]

theorem vm_release_files (s : Kernel) (child idx : Fin maxProc) :
    ((vmRelease s child).procs idx).files = (s.procs idx).files := by
  unfold vmRelease
  rw [foldl_files]
  intro u i other
  simp only [releaseTurn]
  rw [set_vm_files]
  split
  · rw [(release_file_untouched u _).1]
  · rfl

/-- The child of `do_fork` with its areas, before it gets descriptors. -/
def forkedChild (s : Kernel) (child parent : Fin maxProc) : Kernel :=
  (vmFork s child parent).setProc child fun p => { p with state := .runnable }

/-- The child gets areas and descriptors in a slot that refers to nothing. -/
theorem forked_child_tame (settled : Settled s) (parent : Fin maxProc)
    (idle : (s.procs child).state = .unused) :
    Tame child s (vmFork s child parent) ∧
      Tame child (forkedChild s child parent) (copyFds (forkedChild s child parent) child parent) ∧
      Sound (copyFds (forkedChild s child parent) child parent) := by
  obtain ⟨noFiles, noAreas⟩ := settled.unused child idle
  have forked := vm_fork_sound s settled.sound parent noAreas
  have tame := vm_fork_tame s child parent
  have files := vm_fork_files s child parent child
  unfold forkedChild
  generalize vmFork s child parent = u at *
  have started := set_proc_sound u forked child (fun p => { p with state := .runnable }) rfl rfl
  obtain ⟨sound, copied⟩ := copy_fds_sound _ started child parent (by
    intro fd
    rw [same_files_holds s _ child (by rw [set_proc_proc]; exact files), noFiles])
  exact ⟨tame, copied, sound⟩

/-- `do_fork`. -/
theorem do_fork_settled (settled : Settled s) (parent : Fin maxProc) (frames : Bool) :
    Settled (doFork s parent frames).2 := by
  unfold doFork
  split
  · exact settled
  split
  · exact settled
  rename_i idx s₁ allocated
  obtain ⟨settled₁, procs, idle, inTable⟩ := alloc_proc_settled s s₁ settled idx allocated
  obtain ⟨tame, copied, sound⟩ := forked_child_tame settled₁ parent (by rw [procs]; exact idle)
  change Settled (copyFds (forkedChild s₁ idx parent) idx parent)
  have started : Elsewhere idx s₁ (forkedChild s₁ idx parent) :=
    elsewhere_trans idx s₁ _ _ (around_elsewhere idx s₁ _ tame.toAround)
      (set_proc_elsewhere_frame _ idx _)
  have running : ((forkedChild s₁ idx parent).procs idx).state = .runnable := by
    rw [forkedChild, set_proc_proc]
  generalize forkedChild s₁ idx parent = w at *
  generalize copyFds w idx parent = v at *
  refine running_settled idx s₁ v settled₁ ?_ sound inTable ?_
  · exact elsewhere_trans idx s₁ w v started (around_elsewhere idx w v copied.toAround)
  · exact around_running copied.toAround running

/-- `do_exit`. -/
theorem do_exit_settled (settled : Settled s) (running : (s.procs caller).state = .runnable) :
    Settled (doExit s caller) := by
  obtain ⟨sound, cleared⟩ := clear_fds_sound s settled.sound caller
  have tame := clear_fds_tame s caller
  unfold doExit
  generalize clearFds s caller = u at *
  have ended : ((u.setProc caller fun p => { p with state := .zombie }).procs caller).state =
      .zombie := by
    rw [set_proc_proc]
  refine elsewhere_settled caller s _ settled ?_ (set_proc_sound u sound caller _ rfl rfl)
    (settled_in_table s settled caller (by rw [running]; decide)) ?_ ?_ ?_
  · exact elsewhere_trans caller s _ _ (around_elsewhere caller s _ tame.toAround)
      (set_proc_elsewhere_frame _ caller _)
  · intro idle
    rw [ended] at idle
    cases idle
  · intro _ fd
    rw [same_files_holds u _ caller (by rw [set_proc_proc])]
    exact cleared fd
  · intro n slept
    rw [ended] at slept
    cases slept

/-- A child that has ended is reaped. -/
theorem reap_settled (settled : Settled s) (ended : (s.procs child).state = .zombie) :
    Settled (reap s child) := by
  obtain ⟨sound, cleared⟩ := vm_release_sound s settled.sound child
  have tame := vm_release_tame s child
  have files := vm_release_files s child child
  unfold reap
  generalize vmRelease s child = u at *
  have idle : ((u.setProc child fun p => { p with state := .unused }).procs child).state =
      .unused := by
    rw [set_proc_proc]
  refine elsewhere_settled child s _ settled ?_ (set_proc_sound u sound child _ rfl rfl)
    (settled_in_table s settled child (by rw [ended]; decide)) ?_ ?_ ?_
  · exact elsewhere_trans child s _ _ (around_elsewhere child s _ tame.toAround)
      (set_proc_elsewhere_frame _ child _)
  · intro _
    refine ⟨fun fd => ?_, fun i => ?_⟩
    · rw [same_files_holds s _ child (by rw [set_proc_proc]; exact files)]
      exact settled.zombie child ended fd
    · rw [set_proc_proc]
      exact cleared i
  · intro still
    rw [idle] at still
    cases still
  · intro n slept
    rw [idle] at slept
    cases slept

/-! ## Reading and writing -/

/-- The counts of a pipe and its use. -/
structure Pipe.SameCounts (p q : Pipe) : Prop where
  nread : q.nread = p.nread
  nwrite : q.nwrite = p.nwrite
  used : q.used = p.used

theorem pop_bytes_counts (n : Nat) (p : Pipe) : p.SameCounts (Pipe.popBytes n p).2 := by
  induction n generalizing p with
  | zero => exact ⟨rfl, rfl, rfl⟩
  | succ n ih =>
    have rest := ih { p with head := (p.head + 1) % pipesz, count := p.count - 1 }
    exact ⟨rest.nread, rest.nwrite, rest.used⟩

theorem push_bytes_counts (bytes : List Byte) (p : Pipe) : p.SameCounts (p.pushBytes bytes) := by
  induction bytes generalizing p with
  | nil => exact ⟨rfl, rfl, rfl⟩
  | cons b rest ih =>
    have after := ih (p.push b)
    exact ⟨after.nread, after.nwrite, after.used⟩

/-- What `sys_read` and `sys_write` do: nothing, what is answered for them, a sleep on a pipe or a
transfer of its bytes. -/
inductive Transfers (s : Kernel) (caller : Fin maxProc) : Kernel → Prop where
  | refuses : Transfers s caller s
  | gives (io : IoAnswer) : Transfers s caller (io.give s caller).2
  | sleeps (fd : Fin nfd) (isPipe : ((s.procs caller).files fd).type = .pipe) :
      Transfers s caller (sleep s caller (.pipe ((s.procs caller).files fd).object))
  | pops (n len : Nat) : Transfers s caller (wakeup (pipeReadBytes s n len).2 (.pipe n))
  | pushes (n : Nat) (buf : Nat → Byte) (len : Nat) :
      Transfers s caller (wakeup (pipeWriteBytes s n buf len).2 (.pipe n))

theorem sys_read_transfers (fd : Int) (access : Bool) (len : Int) (io : IoAnswer) :
    Transfers s caller (sysRead s caller fd access len io).2 := by
  unfold sysRead
  split
  · exact .refuses
  split
  · exact .refuses
  split
  · exact .refuses
  unfold fileRead
  split
  · exact .refuses
  split
  · exact .gives io
  case isFalse isPipe =>
    split
    · exact .refuses
    unfold pipeReadOp
    simp only
    split
    · exact .refuses
    split
    · exact .pops _ _
    split
    · exact .refuses
    · exact .sleeps _ (not_not.mp isPipe)

theorem sys_write_transfers (fd : Int) (access : Bool) (buf : Nat → Byte) (len : Int)
    (io : IoAnswer) : Transfers s caller (sysWrite s caller fd access buf len io).2 := by
  unfold sysWrite
  split
  · exact .refuses
  split
  · exact .refuses
  split
  · exact .refuses
  unfold fileWrite
  split
  · exact .refuses
  split
  · exact .gives io
  case isFalse isPipe =>
    split
    · exact .refuses
    unfold pipeWriteOp
    simp only
    split
    · exact .refuses
    split
    · exact .refuses
    split
    · exact .sleeps _ (not_not.mp isPipe)
    · exact .pushes _ _ _

section

variable (settled : Settled s) (running : (s.procs caller).state = .runnable)
include settled running

theorem give_settled (io : IoAnswer) : Settled (io.give s caller).2 := by
  cases io with
  | returns value => exact settled
  | terminal | socket n => exact sleep_settled settled running (by simp)

/-- The stream of a pipe changes and its sleepers are woken. -/
theorem stream_settled
    {n : Nat} {f : Pipe → Pipe} (counts : (s.pipes n).SameCounts (f (s.pipes n))) :
    Settled (wakeup (pollWakeup (s.setPipe n f)) (.pipe n)) := by
  have set := set_pipe_sound settled.sound counts.nread counts.nwrite counts.used
  refine around_settled settled running ?_ (wakeup_sound (wakeup_sound set .poll) (.pipe n))
  refine around_trans ?_ (wakeup_tame _ caller (.pipe n)).toAround
  exact around_trans (set_pipe_around s caller n f) (wakeup_tame _ caller .poll).toAround

/-- What a read or a write does. -/
theorem transfers_settled (transfers : Transfers s caller t) : Settled t := by
  cases transfers with
  | refuses => exact settled
  | gives io => exact give_settled settled running io
  | sleeps fd isPipe =>
    refine sleep_settled settled running ?_
    intro n same
    obtain rfl := Chan.pipe.inj same
    exact ⟨fd, ((s.procs caller).files fd).pipeEnd, by simp [Kernel.holds, File.refers, isPipe]⟩
  | pops n len =>
    refine stream_settled settled running ?_
    have popped := pop_bytes_counts (min len (s.pipes n).count) (s.pipes n)
    exact ⟨popped.nread, popped.nwrite, popped.used⟩
  | pushes n buf len =>
    refine stream_settled settled running ?_
    have pushed := push_bytes_counts
      ((List.range (min len (pipesz - (s.pipes n).count))).map buf) (s.pipes n)
    exact ⟨pushed.nread, pushed.nwrite, pushed.used⟩

end

theorem file_set_pipe_around (s : Kernel) (caller : Fin maxProc) (fd : Fin nfd) (n : Nat)
    (pipeEnd : PipeEnd) : Around caller s (fileSetPipe s caller fd n pipeEnd) := by
  cases pipeEnd <;> simp only [fileSetPipe] <;>
    exact around_trans (set_file_tame s caller fd _).toAround (set_pipe_around _ caller n _)

theorem sys_pipe_around (s : Kernel) (caller : Fin maxProc) (access : Bool) :
    Around caller s (sysPipe s caller access).2 := by
  unfold sysPipe
  split
  · exact (tame_refl caller s).toAround
  split
  · exact (tame_refl caller s).toAround
  rename_i n s₁ allocated
  obtain ⟨m, -, same⟩ := Option.map_eq_some_iff.mp allocated
  obtain ⟨rfl, rfl⟩ := Prod.mk.inj same
  have allocating := set_pipe_around s caller m fun p =>
    { p with
      used := true, count := 0, head := 0, nread := 1, nwrite := 1
      readStatusFlags := 0, writeStatusFlags := 1, written := [], taken := [] }
  refine around_trans allocating ?_
  split
  · dsimp only
    exact set_pipe_around _ caller m _
  rename_i rfd _
  simp only
  refine around_trans (file_set_pipe_around _ caller rfd m .read) ?_
  split
  · dsimp only
    exact around_trans (set_file_tame _ caller rfd noFile).toAround (set_pipe_around _ caller m _)
  · exact file_set_pipe_around _ caller _ m .write

/-! ## Runs -/

/-- Every call leaves the tables settled. -/
theorem step_settled (settled : Settled s) {call : Call} {answer : Option Int}
    (ran : step s caller call = some (answer, t)) : Settled t := by
  obtain ⟨running, stepped⟩ := step_stepped settled.sound ran
  cases stepped with
  | moved moved => exact around_settled settled running moved.tame.toAround moved.sound
  | read fd access len io => exact transfers_settled settled running (sys_read_transfers ..)
  | write fd access buf len io => exact transfers_settled settled running (sys_write_transfers ..)
  | pipe access =>
    exact around_settled settled running (sys_pipe_around s caller access)
      (sys_pipe_sound settled.sound caller access)
  | fork frames => exact do_fork_settled settled caller frames
  | exit => exact do_exit_settled settled running
  | reap ended => exact reap_settled settled ended

theorem empty_kernel_settled : Settled emptyKernel := by
  have noHolder : emptyKernel.holds = fun _ => none := by
    funext h
    cases h <;> rfl
  have noEntry : ∀ e, ¬ emptyKernel.live e := by
    rintro (n | n | n) alive <;> exact absurd alive (by simp [Kernel.live, emptyKernel])
  refine ⟨⟨⟨?_, ?_, ?_⟩, fun e alive => absurd alive (noEntry e)⟩, ?_, ?_, fun _ _ => rfl, ?_⟩
  · exact fun o alive => absurd alive (noEntry _)
  · intro o _
    rw [noHolder]
    exact Library.uses_empty o
  · exact fun e alive => absurd alive (noEntry e)
  · intro idx _
    exact ⟨fun fd => by rw [noHolder], fun _ => rfl⟩
  · intro idx ended
    cases ended
  · intro idx n slept
    cases slept

theorem set_status_flags_holds (s : Kernel) (idx : Fin maxProc) (fd : Fin nfd) (flags : Word) :
    (fileSetStatusFlags s idx fd flags).holds = s.holds := by
  simp only [fileSetStatusFlags]
  split
  · exact set_open_holds s _ _
  split
  · split <;> exact set_pipe_holds s _ _
  split
  · exact set_socket_holds s _ _
  · rw [set_file_holds]
    exact Function.update_eq_self _ _

/-- One of the first three descriptors, on a free descriptor. -/
theorem init_fd_settled (s : Kernel) (settled : Settled s) (idx : Fin maxProc)
    (running : (s.procs idx).state = .runnable) (fd : Fin nfd) (writable : Bool)
    (free : s.holds (.fd idx fd) = none) :
    Settled (initFd s idx fd writable) ∧ ((initFd s idx fd writable).procs idx).state = .runnable ∧
      ∀ other, other ≠ fd →
        (initFd s idx fd writable).holds (.fd idx other) = s.holds (.fd idx other) := by
  unfold initFd
  split
  · exact ⟨settled, running, fun _ _ => rfl⟩
  rename_i t set
  have opened := file_set_node_sound settled.sound free set
  have tame := file_set_node_tame set
  have held : t.holds = Function.update s.holds (.fd idx fd) (t.holds (.fd idx fd)) := by
    obtain ⟨⟨n, s'⟩, allocated, rfl⟩ := Option.map_eq_some_iff.mp set
    obtain ⟨m, -, same⟩ := Option.map_eq_some_iff.mp allocated
    cases same
    rw [set_file_holds, set_open_holds, Function.update_self]
  generalize mode : { (t.procs idx).files fd with readable := !writable, writable := writable } =
    file
  have refers : file.refers = ((t.procs idx).files fd).refers := by
    rw [← mode]
    rfl
  have moded := set_file_sound opened refers
  have flagged := set_status_flags_sound moded idx fd (if writable then 1 else 0)
  have around : Around idx s (fileSetStatusFlags (t.setFile idx fd file) idx fd
      (if writable then 1 else 0)) :=
    around_trans tame.toAround (around_trans
      (set_file_tame t idx fd file).toAround (set_status_flags_tame _ idx fd _).toAround)
  refine ⟨around_settled settled running around flagged,
    around_running around running, fun other different => ?_⟩
  rw [set_status_flags_holds, set_file_holds, Function.update_of_ne (by simp [different]), held,
    Function.update_of_ne (by simp [different])]

theorem vm_init_tame (s : Kernel) (idx : Fin maxProc) (imageEnd : Int) :
    Tame idx s (vmInit s idx imageEnd) :=
  tame_trans idx s _ _ (vm_release_tame s idx) (set_vm_tame _ idx _)

/-- The tables after `setup_process_boot`. -/
theorem boot_settled (imageEnd : Int) : Settled (setupProcessBoot imageEnd) := by
  unfold setupProcessBoot
  split
  · exact empty_kernel_settled
  rename_i idx s allocated
  obtain ⟨settled, procs, idle, inTable⟩ :=
    alloc_proc_settled emptyKernel s empty_kernel_settled idx allocated
  have loaded := vm_init_sound s settled.sound idx imageEnd
  have tame := vm_init_tame s idx imageEnd
  have files : ((vmInit s idx imageEnd).procs idx).files = (s.procs idx).files := by
    unfold vmInit
    rw [set_vm_files, vm_release_files]
  obtain ⟨noFiles, -⟩ := settled.unused idx (by rw [procs]; exact idle)
  generalize vmInit s idx imageEnd = u at *
  have started := set_proc_sound u loaded idx (fun p => { p with state := .runnable }) rfl rfl
  have running : ((u.setProc idx fun p => { p with state := .runnable }).procs idx).state =
      .runnable := by
    rw [set_proc_proc]
  have settled₁ := running_settled idx s _ settled
    (elsewhere_trans idx s _ _ (around_elsewhere idx s u tame.toAround)
      (set_proc_elsewhere_frame u idx _)) started inTable running
  have free : ∀ fd, (u.setProc idx fun p => { p with state := .runnable }).holds (.fd idx fd) =
      none := by
    intro fd
    rw [same_files_holds s _ idx (by rw [set_proc_proc]; exact files), noFiles]
  generalize (u.setProc idx fun p => { p with state := .runnable }) = v at *
  obtain ⟨settled₂, running₂, kept₂⟩ :=
    init_fd_settled v settled₁ idx running ⟨0, by decide⟩ false (free _)
  obtain ⟨settled₃, running₃, kept₃⟩ := init_fd_settled _ settled₂ idx running₂ ⟨1, by decide⟩ true
      (by rw [kept₂ _ (by decide), free])
  exact (init_fd_settled _ settled₃ idx running₃ ⟨2, by decide⟩ true
    (by rw [kept₃ _ (by decide), kept₂ _ (by decide), free])).1

theorem wakeup_settled (settled : Settled s) (chan : Chan) : Settled (wakeup s chan) := by
  have tame := wakeup_tame s ⟨0, by decide⟩ chan
  have sound := wakeup_sound settled.sound chan
  have holds := wakeup_holds s chan
  have areas (idx : Fin maxProc) : ((wakeup s chan).procs idx).vm = (s.procs idx).vm := by
    simp only [wakeup]
    split <;> rfl
  have before (idx : Fin maxProc) (here : ((wakeup s chan).procs idx).state ≠ .runnable) :
      (s.procs idx).state = ((wakeup s chan).procs idx).state := by
    rcases tame.state idx with same | ⟨-, woken⟩
    · exact same.symm
    · exact absurd woken here
  refine ⟨sound, ?_, ?_, ?_, ?_⟩
  · intro idx idle
    rw [holds, areas idx]
    exact settled.unused idx ((before idx (by rw [idle]; decide)).trans idle)
  · intro idx ended
    rw [holds]
    exact settled.zombie idx ((before idx (by rw [ended]; decide)).trans ended)
  · intro idx outside
    have idle := settled.beyond idx outside
    rcases tame.state idx with same | ⟨slept, -⟩
    · rw [same, idle]
    · rw [idle] at slept
      cases slept
  · intro idx n slept onPipe
    rw [holds]
    exact settled.asleep idx n ((before idx (by rw [slept]; decide)).trans slept)
      ((tame.chan idx).symm.trans onPipe)

/-- The tables are settled in every state of a run. -/
theorem run_settled (run : Run s) : Settled s := by
  induction run with
  | boot memsz imageEnd _ => exact boot_settled imageEnd
  | step s t caller call answer _ ran settled => exact step_settled settled ran
  | terminal s _ settled => exact wakeup_settled settled .kbd
  | network s n _ settled => exact wakeup_settled settled (.socket n)

/-! ## The numbers of holders -/

/-- The number of descriptors, over all processes, that refer to an object. -/
def descriptors (s : Kernel) (o : Object) : Nat :=
  ∑ idx, ∑ fd, if ((s.procs idx).files fd).refers = some o then 1 else 0

/-- The number of areas, over all processes, that map an open file. -/
def mappings (s : Kernel) (n : Nat) : Nat :=
  ∑ idx, ∑ i, if areaRefers ((s.procs idx).vm.areas i) = some (.file n) then 1 else 0

/-- The number of cached pages of an open file. -/
def cachedPages (s : Kernel) (n : Nat) : Nat :=
  ∑ slot, if (s.pageCache slot).refers = some (.file n) then 1 else 0

/-- The three kinds of places. -/
def holderEquiv : Holder ≃
    (Fin maxProc × Fin nfd) ⊕ (Fin maxProc × Fin maxVmas) ⊕ Fin pageCacheSize where
  toFun
    | .fd idx fd => .inl (idx, fd)
    | .area idx i => .inr (.inl (idx, i))
    | .cached slot => .inr (.inr slot)
  invFun
    | .inl (idx, fd) => .fd idx fd
    | .inr (.inl (idx, i)) => .area idx i
    | .inr (.inr slot) => .cached slot
  left_inv h := by cases h <;> rfl
  right_inv h := by rcases h with ⟨_, _⟩ | ⟨_, _⟩ | _ <;> rfl

/-- The holders of an object are counted by kind. -/
theorem uses_by_kind (s : Kernel) (o : Object) :
    Library.uses s.holds o =
      (∑ idx, ∑ fd, if s.holds (.fd idx fd) = some o then 1 else 0) +
      ((∑ idx, ∑ i, if s.holds (.area idx i) = some o then 1 else 0) +
        ∑ slot, if s.holds (.cached slot) = some o then 1 else 0) := by
  have all : Library.uses s.holds o = ∑ h, if s.holds h = some o then 1 else 0 := by
    rw [Library.uses, Set.ncard_eq_toFinset_card', Set.toFinset_ofPred, Finset.card_filter]
  rw [all, ← holderEquiv.symm.sum_comp, Fintype.sum_sum_type, Fintype.sum_sum_type,
    Fintype.sum_prod_type, Fintype.sum_prod_type]
  rfl

theorem file_uses (s : Kernel) (n : Nat) :
    Library.uses s.holds (.file n) = descriptors s (.file n) + mappings s n + cachedPages s n := by
  rw [uses_by_kind, ← Nat.add_assoc]
  rfl

/-- Only descriptors refer to pipes and sockets. -/
theorem descriptor_uses (s : Kernel) (o : Object) (other : ∀ n, o ≠ .file n) :
    Library.uses s.holds o = descriptors s o := by
  have areas (idx : Fin maxProc) (i : Fin maxVmas) : s.holds (.area idx i) ≠ some o := by
    simp only [Kernel.holds, areaRefers]
    split
    · cases file : ((s.procs idx).vm.areas i).file with
      | none => simp
      | some n => simpa using (other n).symm
    · simp
  have cached (slot : Fin pageCacheSize) : s.holds (.cached slot) ≠ some o := by
    simp only [Kernel.holds, CachedPage.refers]
    split
    · simpa using (other _).symm
    · simp
  rw [uses_by_kind]
  simp only [areas, cached, if_false, Finset.sum_const_zero, Nat.add_zero]
  rfl

/-- Every count is the number of its holders, and the tables hold just what is referred to. -/
structure Balanced (s : Kernel) : Prop where
  files : ∀ n, (s.openFiles n).used = true →
    (s.openFiles n).refs = descriptors s (.file n) + mappings s n + cachedPages s n
  filesUsed : ∀ n, (s.openFiles n).used = true ↔
    descriptors s (.file n) + mappings s n + cachedPages s n ≠ 0
  readers : ∀ n, (s.pipes n).used = true → (s.pipes n).nread = descriptors s (.pipe n .read)
  writers : ∀ n, (s.pipes n).used = true → (s.pipes n).nwrite = descriptors s (.pipe n .write)
  pipesUsed : ∀ n, (s.pipes n).used = true ↔
    descriptors s (.pipe n .read) + descriptors s (.pipe n .write) ≠ 0
  sockets : ∀ n, (s.sockets n).used = true → (s.sockets n).refs = descriptors s (.socket n)
  socketsUsed : ∀ n, (s.sockets n).used = true ↔ descriptors s (.socket n) ≠ 0

theorem sound_balanced (sound : Sound s) : Balanced s := by
  have exact' := sound.exact
  have readers (n : Nat) := descriptor_uses s (.pipe n .read) (by simp)
  have writers (n : Nat) := descriptor_uses s (.pipe n .write) (by simp)
  have sockets (n : Nat) := descriptor_uses s (.socket n) (by simp)
  refine ⟨?_, ?_, ?_, ?_, ?_, ?_, ?_⟩
  · intro n used
    have counted := exact'.counted (.file n) used
    rw [file_uses] at counted
    exact_mod_cast counted
  · intro n
    rw [← file_uses]
    constructor
    · intro used
      obtain ⟨o, entry, positive⟩ := exact'.wanted (.file n) used
      cases o <;> cases entry
      omega
    · intro held
      by_contra unused
      exact held (exact'.dead (.file n) unused)
  · intro n used
    rw [← readers]
    exact exact'.counted (.pipe n .read) used
  · intro n used
    rw [← writers]
    exact exact'.counted (.pipe n .write) used
  · intro n
    rw [← readers, ← writers]
    constructor
    · intro used
      obtain ⟨o, entry, positive⟩ := exact'.wanted (.pipe n) used
      cases o with
      | pipe m pipeEnd => cases entry; cases pipeEnd <;> omega
      | file m => cases entry
      | socket m => cases entry
    · intro held
      by_contra unused
      have noReaders := exact'.dead (.pipe n .read) unused
      have noWriters := exact'.dead (.pipe n .write) unused
      omega
  · intro n used
    rw [← sockets]
    exact exact'.counted (.socket n) used
  · intro n
    rw [← sockets]
    constructor
    · intro used
      obtain ⟨o, entry, positive⟩ := exact'.wanted (.socket n) used
      cases o <;> cases entry
      omega
    · intro held
      by_contra unused
      exact held (exact'.dead (.socket n) unused)

/-- Reference counts are exact in every state that calls, failing ones included, page-cache
fills and evictions and wake-ups lead to. -/
theorem reference_counts_exact (s : Kernel) (run : Run s) : Balanced s :=
  sound_balanced (run_settled run).sound

/-- The first process opens a pipe. -/
theorem reference_counts_exact_after_pipe :
    ∃ s, Run s ∧ (s.pipes 0).used = true ∧ (s.pipes 0).nread = 1 ∧ Balanced s := by
  have after : (step (setupProcessBoot (Memory.userBase + 4096)) ⟨0, by decide⟩ (.pipe true)).map
      (fun result => ((result.2.pipes 0).used, (result.2.pipes 0).nread)) = some (true, 1) := by
    decide +kernel
  obtain ⟨⟨answer, s⟩, stepped, counts⟩ := Option.map_eq_some_iff.mp after
  have run : Run s := .step _ s _ (.pipe true) answer (.boot 4096 _ (by decide +kernel)) stepped
  obtain ⟨used, one⟩ := Prod.mk.inj counts
  exact ⟨s, run, used, one, reference_counts_exact s run⟩

end JsEmulator.Files
