import JsEmulator.Files.Tame

/-!
# What a call does

Each call is followed once: what it leaves has exact counts, and the change is tame. The reads and
writes, `pipe`, `fork`, `exit` and the reaping of a child are told apart, as they sleep, change
pipes or start and end processes.
-/

namespace JsEmulator.Files

open JsEmulator.Memory (Byte Word MmapArgs maxProc maxVmas)

variable {s t : Kernel} {caller who : Fin maxProc} {answer : Int × Kernel}

/-- A tame change that keeps the counts. -/
structure Moved (who : Fin maxProc) (s t : Kernel) : Prop where
  sound : Sound t
  tame : Tame who s t

theorem moved_refl (who : Fin maxProc) (sound : Sound s) : Moved who s s := ⟨sound, tame_refl who s⟩

/-! ## Descriptors -/

theorem sys_open_moved (sound : Sound s) (caller : Fin maxProc) (found : Except Int Vnode)
    (flags : Word) : Moved caller s (sysOpen s caller found flags).2 := by
  unfold sysOpen
  split
  · exact moved_refl caller sound
  split
  · exact moved_refl caller sound
  rename_i fd allocated
  split
  · exact moved_refl caller sound
  rename_i t set
  have opened := file_set_node_sound sound (alloc_fd_free allocated) set
  have flagged := set_status_flags_sound opened caller fd flags
  constructor
  · refine set_file_sound flagged ?_
    unfold File.withMode
    split
    · rfl
    · split <;> rfl
  · refine tame_trans caller s _ _ (file_set_node_tame set) ?_
    exact tame_trans caller t _ _ (set_status_flags_tame t caller fd flags)
      (set_file_tame _ caller fd _)

theorem sys_close_moved (sound : Sound s) (caller : Fin maxProc) (fd : Int) :
    Moved caller s (sysClose s caller fd).2 := by
  unfold sysClose
  split
  · exact moved_refl caller sound
  split
  · exact moved_refl caller sound
  · exact ⟨fd_close_sound sound caller _, fd_close_tame s caller _⟩

theorem dup_from_moved (sound : Sound s) (caller : Fin maxProc) (fd : Fin nfd) (minimum : Int) :
    Moved caller s (dupFrom s caller fd minimum).2 := by
  unfold dupFrom
  split
  · exact moved_refl caller sound
  rename_i newfd found
  have copied := copy_file_sound sound (alloc_fd_free found)
    (fun o refers => sound_held_live s sound (.fd caller fd) o refers)
  exact ⟨set_file_sound copied rfl, tame_trans caller s _ _
    (copy_file_tame sound caller caller newfd fd) (set_file_tame _ caller newfd _)⟩

theorem sys_dup_moved (sound : Sound s) (caller : Fin maxProc) (fd : Int) :
    Moved caller s (sysDup s caller fd).2 := by
  unfold sysDup
  split
  · exact moved_refl caller sound
  split
  · exact moved_refl caller sound
  · exact dup_from_moved sound caller _ 0

theorem sys_fcntl_moved (sound : Sound s) (caller : Fin maxProc) (fd command : Int)
    (argument : Word) : Moved caller s (sysFcntl s caller fd command argument).2 := by
  unfold sysFcntl
  split
  · exact moved_refl caller sound
  simp only
  split
  · exact moved_refl caller sound
  split
  · exact dup_from_moved sound caller _ _
  split
  · exact moved_refl caller sound
  split
  · exact ⟨set_file_sound sound rfl, set_file_tame s caller _ _⟩
  split
  · exact moved_refl caller sound
  split
  · exact ⟨set_status_flags_sound sound caller _ _, set_status_flags_tame s caller _ _⟩
  · exact moved_refl caller sound

theorem socket_create_moved (sound : Sound s) (caller : Fin maxProc) (domain type protocol : Int) :
    Moved caller s (socketCreate s caller domain type protocol).2 := by
  unfold socketCreate
  split
  · exact moved_refl caller sound
  split
  · exact moved_refl caller sound
  split
  · exact moved_refl caller sound
  rename_i n found
  split
  · exact moved_refl caller sound
  rename_i fd foundFd
  have unused : ¬ s.live (.socket n) := by simpa [Kernel.live] using List.find?_some found
  have socket (u : Kernel) (n : Nat) (f : Socket → Socket) :
      Tame caller u (u.setSocket n f) := tame_of_tables caller rfl rfl rfl
  simp only [fileSetSocket]
  refine ⟨new_socket_sound sound unused (List.mem_range.mp (List.mem_of_find?_eq_some found))
    (alloc_fd_free foundFd), ?_⟩
  exact tame_trans caller s _ _ (tame_trans caller s _ _ (socket _ _ _) (set_file_tame _ caller _ _))
    (socket _ _ _)

/-! ## Areas -/

theorem vm_mmap_moved (mapped : Int → Bool) (sound : Sound s) (caller : Fin maxProc)
    (args : Option MmapArgs) : Moved caller s (vmMmap mapped s caller args).2 := by
  cases args with
  | none => exact moved_refl caller sound
  | some args =>
    simp only [vmMmap, vmMmapArgs]
    split
    · exact moved_refl caller sound
    split
    · exact moved_refl caller sound
    split
    · exact moved_refl caller sound
    rename_i address placed
    split
    · exact moved_refl caller sound
    split
    · exact moved_refl caller sound
    rename_i slot found
    split
    · exact moved_refl caller sound
    rename_i file t retained
    unfold mmapRetain at retained
    split at retained
    · cases retained
    rename_i file' mapped'
    simp only [Except.ok.injEq, Prod.mk.injEq] at retained
    obtain ⟨rfl, rfl⟩ := retained
    refine ⟨?_, tame_trans caller s _ _ (retain_file_tame s caller _) (set_vm_tame _ caller _)⟩
    rw [← retain_file_set_vm]
    refine add_area_sound s sound caller slot
      (Memory.mmapArea args address _ file') (Memory.area_slot_unused _ slot found) rfl ?_
    intro n isFile
    refine fd_answer_live s caller args.fd n ?_
    have file'' : file' = some n := isFile
    rw [file''] at mapped'
    unfold Memory.mmapFile at mapped'
    split at mapped'
    · cases mapped'
    split at mapped'
    · cases mapped'
    · rename_i object has
      simp only [Except.ok.injEq, Option.some.injEq] at mapped'
      rw [has, mapped']

theorem vm_munmap_moved (sound : Sound s) {address length : Word}
    (ran : vmMunmap s caller address length = some answer) : Moved caller s answer.2 := by
  unfold vmMunmap at ran
  simp only at ran
  split at ran
  · cases ran
    exact moved_refl caller sound
  split at ran
  · cases ran
    exact moved_refl caller sound
  obtain ⟨t, looped, rfl⟩ := Option.map_eq_some_iff.mp ran
  exact ⟨munmap_loop_sound _ s sound looped,
    foldlM_tame caller _ (fun s i t => munmap_turn_tame) _ s t looped⟩

theorem vm_mprotect_moved (sound : Sound s) {address length prot : Word}
    (ran : vmMprotect s caller address length prot = some answer) : Moved caller s answer.2 := by
  unfold vmMprotect at ran
  simp only at ran
  split at ran
  · cases ran
    exact moved_refl caller sound
  rename_i start stop checked
  obtain ⟨t, looped, rfl⟩ := Option.map_eq_some_iff.mp ran
  have range := (Memory.mprotect_range_pages BitVec.toInt_lt BitVec.toInt_lt checked).1
  constructor
  · refine mprotect_loop_sound range.ordered _ ((List.nodup_finRange _).filter _) s sound ?_ looped
    intro i member
    simpa using List.of_mem_filter member
  · refine foldlM_tame caller _ (fun s i t turned => ?_) _ s t looped
    unfold mprotectTurn at turned
    obtain ⟨vm, -, rfl⟩ := Option.map_eq_some_iff.mp turned
    exact tame_trans caller s _ _ (set_vm_tame s caller vm)
      (foldl_tame caller _ (fun s _ => retain_file_tame s caller _) _ _)

theorem close_exec_fds_moved (sound : Sound s) (idx : Fin maxProc) :
    Moved idx s (closeExecFds s idx) := by
  refine ⟨?_, close_exec_fds_tame s idx⟩
  have looped (fds : List (Fin nfd)) (s : Kernel) (sound : Sound s) : Sound (fds.foldl (fun s fd =>
        if ((s.procs idx).files fd).fdFlags &&& fdCloexec ≠ 0 then fdClose s idx fd else s) s) := by
    induction fds generalizing s with
    | nil => exact sound
    | cons fd rest ih =>
      rw [List.foldl_cons]
      split
      · exact ih _ (fd_close_sound sound idx fd)
      · exact ih s sound
  exact looped _ s sound

theorem do_exec_moved (sound : Sound s) (caller : Fin maxProc) (memsz : Option Int) :
    Moved caller s (doExec s caller memsz) := by
  unfold doExec
  split
  · exact moved_refl caller sound
  obtain ⟨after, tame⟩ := close_exec_fds_moved (vm_init_sound s sound caller _) caller
  refine ⟨after, tame_trans caller s _ _ ?_ tame⟩
  exact tame_trans caller s _ _ (vm_release_tame s caller) (set_vm_tame _ caller _)

/-- `page_cache_get`, for the file of an area. -/
theorem page_cache_get_moved (sound : Sound s) (who : Fin maxProc) (answer : FaultAnswer)
    {file : Nat} {idx : Fin maxProc} {i : Fin maxVmas}
    (held : s.holds (.area idx i) = some (.file file)) : Moved who s (pageCacheGet s answer file) := by
  unfold pageCacheGet
  split
  · exact moved_refl who sound
  split
  · exact moved_refl who sound
  rename_i slot t allocated
  obtain ⟨after, free, areas⟩ := alloc_slot_sound sound allocated
  have slotted : Tame who s t := by
    unfold pageCacheAllocSlot at allocated
    split at allocated
    · obtain ⟨-, rfl⟩ := Prod.mk.inj (Option.some.inj allocated)
      exact tame_refl who s
    obtain ⟨evicted, -, same⟩ := Option.map_eq_some_iff.mp allocated
    obtain ⟨-, rfl⟩ := Prod.mk.inj same
    exact tame_trans who s _ _ (release_tame s who _) (tame_of_tables who rfl rfl rfl)
  split
  · exact ⟨after, slotted⟩
  constructor
  · have alive : t.live (.file file) := sound_held_live t after (.area idx i) (.file file)
      ((areas idx i).trans held)
    obtain ⟨refs, live⟩ := set_cache_counts t slot ⟨true, file⟩
    have used : ((t.setCache slot ⟨true, file⟩).openFiles file).used = true := alive
    have inTable : file < nfile := after.bounded _ alive
    have retained : fileMmapRetainObject (t.setCache slot ⟨true, file⟩) file =
        retainObject (t.setCache slot ⟨true, file⟩) (.file file) := by
      simp only [fileMmapRetainObject, retainObject]
      rw [if_pos ⟨inTable, used⟩]
    rw [retained]
    refine attach_sound t _ after (.cached slot) (.file file) free alive ?_ (fun o => ?_)
      (fun e => ?_)
    · rw [retain_holds, set_cache_holds]
      rfl
    · rw [retain_refs, retain_refs, refs]
    · rw [retain_live, live]
  · refine tame_trans who s _ _ slotted ?_
    refine tame_trans who t _ _ ?_ (retain_file_tame _ who (some _))
    exact tame_of_tables who rfl rfl rfl

theorem page_fault_moved (sound : Sound s) (caller : Fin maxProc) (page : Int) (write : Bool)
    (answer : FaultAnswer) : Moved caller s (pageFault s caller page write answer) := by
  unfold pageFault
  split
  · exact moved_refl caller sound
  rename_i prot flags file offset backing
  split
  · exact moved_refl caller sound
  split
  · exact moved_refl caller sound
  split
  · exact moved_refl caller sound
  rename_i n
  unfold Memory.faultBacking at backing
  split at backing
  · split at backing
    · cases backing
    · simp at backing
  rename_i i found
  simp only [Option.some.injEq, Prod.mk.injEq] at backing
  have inside := Memory.area_index_contains _ page i found
  have used := ((Memory.contains_iff _ page).mp inside).1
  refine @page_cache_get_moved s sound caller answer n caller i ?_
  simp [Kernel.holds, areaRefers, used, backing.2.2.1]

/-! ## Every call -/

/-- What a call leaves. -/
inductive Stepped (s : Kernel) (caller : Fin maxProc) : Kernel → Prop where
  | moved {t : Kernel} (moved : Moved caller s t) : Stepped s caller t
  | read (fd : Int) (access : Bool) (len : Int) (io : IoAnswer) :
      Stepped s caller (sysRead s caller fd access len io).2
  | write (fd : Int) (access : Bool) (buf : Nat → Byte) (len : Int) (io : IoAnswer) :
      Stepped s caller (sysWrite s caller fd access buf len io).2
  | pipe (access : Bool) : Stepped s caller (sysPipe s caller access).2
  | fork (frames : Bool) : Stepped s caller (doFork s caller frames).2
  | exit : Stepped s caller (doExit s caller)
  | reap {child : Fin maxProc} (ended : (s.procs child).state = .zombie) :
      Stepped s caller (reap s child)

theorem step_stepped (sound : Sound s) {call : Call} {answer : Option Int}
    (ran : step s caller call = some (answer, t)) :
    (s.procs caller).state = .runnable ∧ Stepped s caller t := by
  unfold step at ran
  split at ran
  · cases ran
  rename_i active
  refine ⟨not_not.mp active, ?_⟩
  have left {result : Option Int × Kernel} (ran : some result = some (answer, t))
      (stepped : Stepped s caller result.2) : Stepped s caller t := by
    rwa [Option.some.inj ran] at stepped
  cases call with
  | munmap address length =>
    obtain ⟨result, unmapped, same⟩ := Option.bind_eq_some_iff.mp ran
    obtain ⟨-, rfl⟩ := Prod.mk.inj (Option.some.inj same)
    exact .moved (vm_munmap_moved sound unmapped)
  | mprotect address length prot =>
    obtain ⟨result, protected', same⟩ := Option.bind_eq_some_iff.mp ran
    obtain ⟨-, rfl⟩ := Prod.mk.inj (Option.some.inj same)
    exact .moved (vm_mprotect_moved sound protected')
  | wait child =>
    simp only at ran
    split at ran
    · rename_i ended
      obtain ⟨-, rfl⟩ := Prod.mk.inj (Option.some.inj ran)
      exact .reap ended
    · cases ran
  | read fd access len io => exact left ran (Stepped.read fd access len io)
  | write fd access buf len io => exact left ran (Stepped.write fd access buf len io)
  | openPath found flags => exact left ran (Stepped.moved (sys_open_moved sound caller found flags))
  | close fd => exact left ran (Stepped.moved (sys_close_moved sound caller fd))
  | pipe access => exact left ran (Stepped.pipe access)
  | dup fd => exact left ran (Stepped.moved (sys_dup_moved sound caller fd))
  | fcntl fd command argument => exact left ran (Stepped.moved (sys_fcntl_moved sound caller fd command argument))
  | socket domain type protocol => exact left ran (Stepped.moved (socket_create_moved sound caller domain type protocol))
  | brk mapped address => exact left ran (Stepped.moved ⟨vm_brk_sound mapped sound caller _, set_vm_tame s caller _⟩)
  | mmap mapped args => exact left ran (Stepped.moved (vm_mmap_moved mapped sound caller args))
  | fault page write given => exact left ran (Stepped.moved (page_fault_moved sound caller page write given))
  | fork frames => exact left ran (Stepped.fork frames)
  | exec memsz => exact left ran (Stepped.moved (do_exec_moved sound caller memsz))
  | exit => exact left ran (Stepped.exit)

end JsEmulator.Files
