import JsEmulator.Files.Descriptors
import JsEmulator.Memory.AreaRuns

/-!
# Areas and cached pages keep the counts

An area that is split becomes two or three holders of its file, one that is dropped or
released is a holder less. A page fault may evict one page of the cache and load
another.
-/

namespace JsEmulator.Files

open JsEmulator.Memory (Byte Word Vm Area MmapArgs maxProc pageCacheSize maxVmas)
open JsEmulator.Process (RunState Chan)

variable {s t : Kernel} {i j slot : Fin maxVmas} {caller child idx : Fin maxProc} {start stop : Int}
variable {address length prot : Word} {a b : Area} {n : Nat} {answer : Int × Kernel}

/-! ## One area -/

theorem set_vm_counts (s : Kernel) (idx : Fin maxProc) (vm : Vm) :
    (s.setVm idx vm).refs = s.refs ∧ (s.setVm idx vm).live = s.live :=
  same_counts s _ rfl rfl rfl

@[simp] theorem set_vm_vm (s : Kernel) (idx : Fin maxProc) (vm : Vm) :
    ((s.setVm idx vm).procs idx).vm = vm := by
  simp [Kernel.setVm]

theorem set_vm_twice (s : Kernel) (idx : Fin maxProc) (vm vm' : Vm) :
    (s.setVm idx vm).setVm idx vm' = s.setVm idx vm' := by
  simp [Kernel.setVm, Kernel.setProc]

/-- A table of areas in which the same slots refer to the same files. -/
theorem set_vm_sound (sound : Sound s) {vm : Vm}
    (same : ∀ i, areaRefers (vm.areas i) = areaRefers ((s.procs idx).vm.areas i)) :
    Sound (s.setVm idx vm) := by
  obtain ⟨refs, live⟩ := set_vm_counts s idx vm
  refine keep_sound sound ?_ (fun o => by rw [refs]) (fun e => by rw [live])
  funext h
  cases h with
  | fd other fd =>
    by_cases here : other = idx
    · subst here
      simp [Kernel.holds, Kernel.setVm]
    · simp [Kernel.holds, Kernel.setVm, set_proc_elsewhere s idx other _ here]
  | area other i =>
    by_cases here : other = idx
    · subst here
      simp [Kernel.holds, same]
    · simp [Kernel.holds, Kernel.setVm, set_proc_elsewhere s idx other _ here]
  | cached slot => rfl

/-- An area is replaced by one with the same file. -/
theorem set_area_sound (s : Kernel) (sound : Sound s) (idx : Fin maxProc) (i : Fin maxVmas)
    (a : Area) (same : areaRefers a = areaRefers ((s.procs idx).vm.areas i)) :
    Sound (s.setVm idx ((s.procs idx).vm.setArea i a)) := by
  refine set_vm_sound sound fun j => ?_
  by_cases here : j = i
  · subst here
    simpa using same
  · rw [Memory.set_area_other _ _ _ _ here]

theorem release_file_counts (sound : Sound s) (used : s.live (.file n)) :
    fileMmapRelease s n = dropObject s (.file n) := by
  have used' : (s.openFiles n).used = true := used
  have inTable : n < nfile := sound.bounded _ used
  simp [fileMmapRelease, dropObject, used', inTable]

/-- A free slot gets an area, and its file a reference. -/
theorem add_area_sound (s : Kernel) (sound : Sound s) (idx : Fin maxProc) (slot : Fin maxVmas)
    (a : Area) (free : ((s.procs idx).vm.areas slot).used = false) (used : a.used = true)
    (alive : ∀ n, a.file = some n → s.live (.file n)) :
    Sound (retainFile (s.setVm idx ((s.procs idx).vm.setArea slot a)) a.file) := by
  have unheld : s.holds (.area idx slot) = none := by simp [Kernel.holds, areaRefers, free]
  obtain ⟨refs, live⟩ := set_vm_counts s idx ((s.procs idx).vm.setArea slot a)
  cases file : a.file with
  | none =>
    refine set_area_sound s sound idx slot a ?_
    simp [areaRefers, used, file, free]
  | some n =>
    have used' : (s.openFiles n).used = true := alive n file
    have inTable : n < nfile := sound.bounded _ (alive n file)
    have retained : retainFile (s.setVm idx ((s.procs idx).vm.setArea slot a)) (some n) =
        retainObject (s.setVm idx ((s.procs idx).vm.setArea slot a)) (.file n) := by
      simp [retainFile, fileMmapRetainObject, retainObject, Kernel.setVm, Kernel.setProc, used',
        inTable]
    rw [retained]
    refine attach_sound s _ sound (.area idx slot) (.file n) unheld (alive n file) ?_ (fun o => ?_)
      (fun e => ?_)
    · rw [retain_holds, set_area_holds]
      simp [areaRefers, used, file]
    · rw [retain_refs, retain_refs, refs]
    · rw [retain_live, live]

theorem drop_open_file_untouched (s : Kernel) (n : Nat) :
    (dropOpenFile s n).procs = s.procs ∧ (dropOpenFile s n).pageCache = s.pageCache := by
  simp only [dropOpenFile]
  split
  · exact ⟨rfl, rfl⟩
  · exact ⟨rfl, rfl⟩

/-- A release touches no process and no cached page. -/
theorem release_file_untouched (s : Kernel) (file : Option Nat) :
    (releaseFile s file).procs = s.procs ∧ (releaseFile s file).pageCache = s.pageCache := by
  cases file with
  | none => exact ⟨rfl, rfl⟩
  | some n =>
    simp only [releaseFile, fileMmapRelease]
    split
    · exact ⟨rfl, rfl⟩
    · exact drop_open_file_untouched s n

/-- A slot loses its area, and the file a reference. The release may come before or after
the slot is cleared. -/
theorem drop_area_sound (sound : Sound s) (gone : areaRefers a = none)
    (used : ((s.procs idx).vm.areas i).used = true)
    (holds : t.holds = (s.setVm idx ((s.procs idx).vm.setArea i a)).holds)
    (refs : t.refs = (releaseFile s ((s.procs idx).vm.areas i).file).refs)
    (live : t.live = (releaseFile s ((s.procs idx).vm.areas i).file).live) : Sound t := by
  rw [set_area_holds, gone] at holds
  cases file : ((s.procs idx).vm.areas i).file with
  | none =>
    rw [file] at refs live
    refine keep_sound sound ?_ (fun o => by rw [refs]; rfl) (fun e => by rw [live]; rfl)
    rw [holds]
    refine Function.update_eq_self_iff.mpr ?_
    simp [Kernel.holds, areaRefers, file]
  | some n =>
    have held : s.holds (.area idx i) = some (.file n) := by
      simp [Kernel.holds, areaRefers, used, file]
    have alive := sound_held_live s sound _ _ held
    rw [file] at refs live
    refine detach_sound s t sound (.area idx i) (.file n) held holds (fun o => ?_) (fun e => ?_)
    · rw [refs, releaseFile, release_file_counts sound alive]
    · rw [live, releaseFile, release_file_counts sound alive]

/-! ## Loops over the areas -/

theorem retain_file_set_vm (s : Kernel) (idx : Fin maxProc) (vm : Vm) (file : Option Nat) :
    retainFile (s.setVm idx vm) file = (retainFile s file).setVm idx vm := by
  cases file with
  | none => rfl
  | some n =>
    simp only [retainFile, fileMmapRetainObject]
    by_cases inUse : n < nfile ∧ (s.openFiles n).used = true
    · rw [if_pos inUse, if_pos (show n < nfile ∧ ((s.setVm idx vm).openFiles n).used = true from inUse)]
      rfl
    · rw [if_neg inUse,
        if_neg (show ¬ (n < nfile ∧ ((s.setVm idx vm).openFiles n).used = true) from inUse)]

theorem set_vm_holds_congr (procs : t.procs = s.procs) (cache : t.pageCache = s.pageCache)
    (idx : Fin maxProc) (vm : Vm) :
    (t.setVm idx vm).holds = (s.setVm idx vm).holds := by
  refine same_holds (fun other => ?_) (fun other => ?_) cache
  · simp only [Kernel.setVm, Kernel.setProc, procs]
  · simp only [Kernel.setVm, Kernel.setProc, procs]

theorem drop_open_file_set_vm (s : Kernel) (idx : Fin maxProc) (vm : Vm) (n : Nat) :
    dropOpenFile (s.setVm idx vm) n = (dropOpenFile s n).setVm idx vm := by
  by_cases last : (s.openFiles n).refs - 1 = 0
  · simp [dropOpenFile, Kernel.setOpen, Kernel.setVm, Kernel.setProc, vnodeRelease, inodeOpenCount,
      last]
  · simp [dropOpenFile, Kernel.setOpen, Kernel.setVm, Kernel.setProc, last]

theorem release_file_set_vm (s : Kernel) (idx : Fin maxProc) (vm : Vm) (file : Option Nat) :
    releaseFile (s.setVm idx vm) file = (releaseFile s file).setVm idx vm := by
  cases file with
  | none => rfl
  | some n =>
    simp only [releaseFile, fileMmapRelease]
    by_cases idle : nfile ≤ n ∨ (s.openFiles n).used = false
    · rw [if_pos idle,
        if_pos (show nfile ≤ n ∨ ((s.setVm idx vm).openFiles n).used = false from idle)]
    · rw [if_neg idle,
        if_neg (show ¬ (nfile ≤ n ∨ ((s.setVm idx vm).openFiles n).used = false) from idle)]
      exact drop_open_file_set_vm s idx vm n

theorem retain_file_procs (s : Kernel) (file : Option Nat) : (retainFile s file).procs = s.procs := by
  cases file with
  | none => rfl
  | some n =>
    simp only [retainFile, fileMmapRetainObject]
    split <;> rfl

/-- The file of an area is open. -/
theorem area_file_live (sound : Sound s) (used : ((s.procs idx).vm.areas i).used = true)
    (file : ((s.procs idx).vm.areas i).file = some n) : s.live (.file n) :=
  sound_held_live s sound (.area idx i) (.file n) (by simp [Kernel.holds, areaRefers, used, file])

/-- An area is cut in two: one part stays, the other goes to a free slot. -/
theorem halve_area_sound (sound : Sound s) (used : ((s.procs idx).vm.areas i).used = true)
    (free : ((s.procs idx).vm.areas slot).used = false) (other : slot ≠ i) (usedA : a.used = true)
    (usedB : b.used = true) (fileA : a.file = ((s.procs idx).vm.areas i).file)
    (fileB : b.file = ((s.procs idx).vm.areas i).file) :
    Sound (retainFile (s.setVm idx (((s.procs idx).vm.setArea i a).setArea slot b))
      ((s.procs idx).vm.areas i).file) := by
  have cut := set_area_sound s sound idx i a (by simp [areaRefers, used, usedA, fileA])
  have added := add_area_sound _ cut idx slot b
    (by rw [set_vm_vm, Memory.set_area_other _ _ _ _ other]; exact free) usedB
    (by
      intro n file
      rw [(set_vm_counts s idx _).2]
      exact area_file_live sound used (by rw [← fileB, file]))
  rwa [set_vm_vm, set_vm_twice, fileB] at added

/-- One turn of `vm_munmap`. -/
theorem munmap_turn_sound (sound : Sound s) (turned : munmapTurn caller start stop s i = some t) :
    Sound t := by
  unfold munmapTurn at turned
  simp only at turned
  obtain ⟨vm, stepped, rfl⟩ := Option.map_eq_some_iff.mp turned
  unfold Memory.munmapArea at stepped
  simp only at stepped
  by_cases split : ((s.procs caller).vm.areas i).splitBy start stop = true
  · rw [if_pos split] at stepped ⊢
    obtain ⟨vm', assigned, rfl⟩ := Option.map_eq_some_iff.mp stepped
    obtain ⟨slot, free, rfl⟩ := Memory.area_assign_slot assigned
    have used : ((s.procs caller).vm.areas i).used = true := by
      simp only [Area.splitBy, Bool.and_eq_true] at split
      exact split.1.1
    have other : slot ≠ i := by
      rintro rfl
      simp [free] at used
    rw [Memory.set_area_comm _ _ _ other]
    exact halve_area_sound sound used free other used used rfl rfl
  · rw [if_neg split] at stepped ⊢
    by_cases covered : ((s.procs caller).vm.areas i).used = true ∧
        start ≤ ((s.procs caller).vm.areas i).start ∧ ((s.procs caller).vm.areas i).stop ≤ stop
    · rw [if_pos covered] at stepped ⊢
      cases stepped
      obtain ⟨procs, cache⟩ := release_file_untouched s ((s.procs caller).vm.areas i).file
      rw [release_file_set_vm]
      exact drop_area_sound sound (if_neg (by simp)) covered.1
        (set_vm_holds_congr procs cache caller _) (set_vm_counts _ _ _).1 (set_vm_counts _ _ _).2
    · rw [if_neg covered] at stepped ⊢
      split at stepped
      · rename_i cut
        cases stepped
        exact set_area_sound s sound caller i _ rfl
      split at stepped
      · cases stepped
        exact set_area_sound s sound caller i _ rfl
      cases stepped
      exact set_vm_sound sound fun _ => rfl

/-- An area is cut in three. -/
theorem third_area_sound (sound : Sound s) {right : Fin maxVmas} {c : Area}
    (used : ((s.procs idx).vm.areas i).used = true)
    (free : ((s.procs idx).vm.areas slot).used = false)
    (freeRight : ((((s.procs idx).vm.setArea i a).setArea slot b).areas right).used = false)
    (other : slot ≠ i) (usedA : a.used = true) (usedB : b.used = true) (usedC : c.used = true)
    (fileA : a.file = ((s.procs idx).vm.areas i).file)
    (fileB : b.file = ((s.procs idx).vm.areas i).file)
    (fileC : c.file = ((s.procs idx).vm.areas i).file) :
    Sound (retainFile (retainFile (s.setVm idx ((((s.procs idx).vm.setArea i a).setArea slot
      b).setArea right c)) ((s.procs idx).vm.areas i).file) ((s.procs idx).vm.areas i).file) := by
  have halved := halve_area_sound sound used free other usedA usedB fileA fileB
  have stays : (((retainFile (s.setVm idx (((s.procs idx).vm.setArea i a).setArea slot b))
      ((s.procs idx).vm.areas i).file).procs idx).vm.areas i) = a := by
    rw [retain_file_set_vm, set_vm_vm, Memory.set_area_other _ _ _ _ other.symm,
      Memory.set_area_same]
  have added := add_area_sound _ halved idx right c
    (by rw [retain_file_set_vm, set_vm_vm]; exact freeRight) usedC
    (fun n file => area_file_live halved (by rw [stays]; exact usedA)
      (by rw [stays, fileA, ← fileC, file]))
  simp only [retain_file_set_vm, set_vm_vm, set_vm_twice, fileC] at added ⊢
  exact added

/-- One turn of `vm_mprotect_areas`. -/
theorem mprotect_turn_sound (sound : Sound s) (used : ((s.procs caller).vm.areas i).used = true)
    (turned : mprotectTurn caller start stop prot s i = some t) : Sound t := by
  unfold mprotectTurn at turned
  simp only at turned
  obtain ⟨vm, stepped, rfl⟩ := Option.map_eq_some_iff.mp turned
  unfold Memory.mprotectArea at stepped
  simp only at stepped
  split at stepped
  case isTrue apart =>
    cases stepped
    rw [Memory.areaSlotsNeeded, if_neg (by simp [apart])]
    exact set_vm_sound sound fun _ => rfl
  rename_i overlaps
  rw [Memory.areaSlotsNeeded, if_pos ⟨used, by simpa using overlaps⟩]
  split at stepped
  case isTrue whole =>
    cases stepped
    rw [if_neg (by omega), if_neg (by omega)]
    exact set_area_sound s sound caller i _ rfl
  rename_i notWhole
  split at stepped
  case isTrue front =>
    obtain ⟨vm', assigned, rfl⟩ := Option.map_eq_some_iff.mp stepped
    obtain ⟨slot, other, free, rfl⟩ := Memory.area_assign_beside _ vm' i _ _ assigned used
    rw [if_neg (by omega), if_pos (by omega), Memory.set_area_comm _ _ _ other.symm,
      Memory.set_area_twice, Memory.set_area_comm _ _ _ other]
    change Sound (retainFile (s.setVm caller (Vm.setArea (Vm.setArea _ _ _) _ _)) _)
    refine halve_area_sound sound used free other ?_ ?_ ?_ ?_
    all_goals first | exact used | rfl
  rename_i notFront
  split at stepped
  case isTrue back =>
    obtain ⟨slot, other, free, rfl⟩ := Memory.area_assign_beside _ vm i _ _ stepped used
    rw [if_pos (by omega), if_neg (by omega)]
    change Sound (retainFile (s.setVm caller (Vm.setArea (Vm.setArea _ _ _) _ _)) _)
    refine halve_area_sound sound used free other ?_ ?_ ?_ ?_
    all_goals first | exact used | rfl
  rename_i notBack
  obtain ⟨middle, assigned, last⟩ := Option.bind_eq_some_iff.mp stepped
  obtain ⟨slot, other, free, rfl⟩ := Memory.area_assign_beside _ middle i _ _ assigned used
  obtain ⟨right, unused, rfl⟩ := Memory.area_assign_slot last
  rw [if_pos (by omega), if_pos (by omega)]
  change Sound (retainFile (retainFile
    (s.setVm caller (Vm.setArea (Vm.setArea (Vm.setArea _ _ _) _ _) _ _)) _) _)
  refine third_area_sound sound used free unused other ?_ ?_ ?_ ?_ ?_ ?_
  all_goals first | exact used | rfl

/-- The loop of `vm_munmap`. -/
theorem munmap_loop_sound (slots : List (Fin maxVmas)) (s : Kernel) (sound : Sound s)
    (looped : slots.foldlM (munmapTurn caller start stop) s = some t) : Sound t := by
  induction slots generalizing s with
  | nil =>
    cases looped
    exact sound
  | cons i rest ih =>
    rw [List.foldlM_cons] at looped
    obtain ⟨next, turned, remaining⟩ := Option.bind_eq_some_iff.mp looped
    exact ih next (munmap_turn_sound sound turned) remaining

/-- One turn of `vm_mprotect_areas` leaves the other areas in use. -/
theorem mprotect_turn_used (ordered : start < stop)
    (used : ((s.procs caller).vm.areas i).used = true)
    (turned : mprotectTurn caller start stop prot s i = some t) (other : j ≠ i)
    (usedThere : ((s.procs caller).vm.areas j).used = true) :
    ((t.procs caller).vm.areas j).used = true := by
  unfold mprotectTurn at turned
  simp only at turned
  obtain ⟨vm, stepped, rfl⟩ := Option.map_eq_some_iff.mp turned
  have still := Memory.mprotect_area_still ordered used stepped other usedThere
  have kept (slots : List Nat) (u : Kernel) :
      (slots.foldl (fun u _ => retainFile u ((s.procs caller).vm.areas i).file) u).procs =
        u.procs := by
    induction slots generalizing u with
    | nil => rfl
    | cons _ rest ih =>
      rw [List.foldl_cons, ih]
      exact retain_file_procs u _
  rw [kept, set_vm_vm]
  exact still

/-- The loop of `vm_mprotect_areas`. -/
theorem mprotect_loop_sound (ordered : start < stop) (slots : List (Fin maxVmas))
    (distinct : slots.Nodup) (s : Kernel) (sound : Sound s)
    (used : ∀ i ∈ slots, ((s.procs caller).vm.areas i).used = true)
    (looped : slots.foldlM (mprotectTurn caller start stop prot) s = some t) : Sound t := by
  induction slots generalizing s with
  | nil =>
    cases looped
    exact sound
  | cons i rest ih =>
    rw [List.foldlM_cons] at looped
    obtain ⟨next, turned, remaining⟩ := Option.bind_eq_some_iff.mp looped
    rw [List.nodup_cons] at distinct
    have usedHere := used i (by simp)
    refine ih distinct.2 next (mprotect_turn_sound sound usedHere turned) ?_ remaining
    intro j member
    refine mprotect_turn_used ordered usedHere turned ?_ (used j (by simp [member]))
    rintro rfl
    exact distinct.1 member

/-! ## Whole tables of areas -/

/-- One turn of `vm_release`. -/
theorem release_turn_sound (idx : Fin maxProc) (sound : Sound s) (i : Fin maxVmas) :
    Sound (releaseTurn idx s i) := by
  unfold releaseTurn
  simp only
  by_cases used : ((s.procs idx).vm.areas i).used = true
  · rw [if_pos used]
    obtain ⟨procs, cache⟩ := release_file_untouched s ((s.procs idx).vm.areas i).file
    rw [procs]
    exact drop_area_sound sound (if_neg (by simp)) used
      (set_vm_holds_congr procs cache idx _) (set_vm_counts _ _ _).1 (set_vm_counts _ _ _).2
  · rw [if_neg used]
    refine set_area_sound s sound idx i _ ?_
    simp [areaRefers, used]

theorem release_turn_areas (idx : Fin maxProc) (s : Kernel) (i j : Fin maxVmas) :
    (((releaseTurn idx s i).procs idx).vm.areas j).used =
      if j = i then false else ((s.procs idx).vm.areas j).used := by
  have kept : ((if ((s.procs idx).vm.areas i).used = true then
      releaseFile s ((s.procs idx).vm.areas i).file else s).procs idx).vm = (s.procs idx).vm := by
    split
    · rw [(release_file_untouched s _).1]
    · rfl
  unfold releaseTurn
  simp only [set_vm_vm, kept]
  by_cases here : j = i
  · subst here
    simp
  · rw [Memory.set_area_other _ _ _ _ here, if_neg here]

/-- `vm_release` keeps the counts and leaves no area. -/
theorem vm_release_sound (s : Kernel) (sound : Sound s) (idx : Fin maxProc) :
    Sound (vmRelease s idx) ∧ ∀ i, (((vmRelease s idx).procs idx).vm.areas i).used = false := by
  have looped (slots : List (Fin maxVmas)) (s : Kernel) (sound : Sound s) :
      Sound (slots.foldl (releaseTurn idx) s) ∧
        ∀ i, (i ∈ slots ∨ ((s.procs idx).vm.areas i).used = false) →
          (((slots.foldl (releaseTurn idx) s).procs idx).vm.areas i).used = false := by
    induction slots generalizing s with
    | nil => exact ⟨sound, fun i free => by simpa using free⟩
    | cons j rest ih =>
      obtain ⟨after, cleared⟩ := ih (releaseTurn idx s j) (release_turn_sound idx sound j)
      refine ⟨after, fun i free => cleared i ?_⟩
      by_cases here : i = j
      · right
        rw [release_turn_areas, if_pos here]
      rcases free with member | free
      · left
        simpa [here] using member
      · right
        rw [release_turn_areas, if_neg here, free]
  obtain ⟨after, cleared⟩ := looped (List.finRange maxVmas) s sound
  exact ⟨after, fun i => cleared i (.inl (List.mem_finRange i))⟩

/-- `vm_init`. The stack area has no file. -/
theorem vm_init_sound (s : Kernel) (sound : Sound s) (idx : Fin maxProc) (imageEnd : Int) :
    Sound (vmInit s idx imageEnd) := by
  obtain ⟨released, cleared⟩ := vm_release_sound s sound idx
  refine set_vm_sound released fun i => ?_
  have before : areaRefers (((vmRelease s idx).procs idx).vm.areas i) = none := by
    simp [areaRefers, cleared i]
  rw [before]
  by_cases here : i = ⟨0, by decide⟩
  · subst here
    rw [Memory.vmInit, Memory.set_area_same]
    rfl
  · rw [Memory.vmInit, Memory.set_area_other _ _ _ _ here]
    simp [Memory.vmRelease, areaRefers]

/-- One turn of `vm_fork`. -/
theorem fork_turn_sound (parent : Fin maxProc) (sound : Sound s)
    (free : ((s.procs child).vm.areas i).used = false) :
    Sound (forkTurn child parent s i) := by
  unfold forkTurn
  simp only
  by_cases used : ((s.procs parent).vm.areas i).used = true
  · rw [if_pos used]
    exact add_area_sound s sound child i _ free used fun n file =>
      area_file_live sound used file
  · rw [if_neg used]
    refine set_area_sound s sound child i _ ?_
    simp [areaRefers, used, free]

theorem fork_turn_areas (child parent : Fin maxProc) (s : Kernel) (other : j ≠ i) :
    ((forkTurn child parent s i).procs child).vm.areas j = (s.procs child).vm.areas j := by
  have kept (t : Kernel) : (if ((s.procs parent).vm.areas i).used = true then
      retainFile t ((s.procs parent).vm.areas i).file else t).procs = t.procs := by
    split
    · exact retain_file_procs t _
    · rfl
  unfold forkTurn
  simp only
  rw [kept, set_vm_vm, Memory.set_area_other _ _ _ _ other]

/-- `vm_fork`, into a slot without areas. -/
theorem vm_fork_sound (s : Kernel) (sound : Sound s) (parent : Fin maxProc)
    (free : ∀ i, ((s.procs child).vm.areas i).used = false) :
    Sound (vmFork s child parent) := by
  have looped (slots : List (Fin maxVmas)) (distinct : slots.Nodup) (s : Kernel) (sound : Sound s)
      (free : ∀ i ∈ slots, ((s.procs child).vm.areas i).used = false) :
      Sound (slots.foldl (forkTurn child parent) s) := by
    induction slots generalizing s with
    | nil => exact sound
    | cons i rest ih =>
      rw [List.nodup_cons] at distinct
      refine ih distinct.2 _ (fork_turn_sound parent sound (free i (by simp))) ?_
      intro j member
      rw [fork_turn_areas child parent s (by rintro rfl; exact distinct.1 member)]
      exact free j (by simp [member])
  unfold vmFork
  refine looped _ (List.nodup_finRange _) _ ?_ ?_
  · exact set_vm_sound sound fun i => rfl
  · intro i _
    rw [set_vm_vm]
    exact free i

/-- `vm_brk`. -/
theorem vm_brk_sound (mapped : Int → Bool) (sound : Sound s) (caller : Fin maxProc) (address : Int) :
    Sound (vmBrk mapped s caller address).2 := by
  refine set_vm_sound sound fun i => ?_
  unfold Memory.vmBrk
  split_ifs <;> rfl

theorem fd_answer_live (s : Kernel) (caller : Fin maxProc) (fd : Word) (n : Nat)
    (object : (fdAnswer s caller fd).object = some n) : s.live (.file n) := by
  unfold fdAnswer at object
  split at object
  · simp at object
  · simp only [Option.ite_none_right_eq_some, Option.some.injEq] at object
    obtain ⟨⟨-, -, used, -⟩, rfl⟩ := object
    exact used

/-! ## The page cache -/

theorem set_cache_counts (s : Kernel) (slot : Fin pageCacheSize) (e : CachedPage) :
    (s.setCache slot e).refs = s.refs ∧ (s.setCache slot e).live = s.live :=
  same_counts s _ rfl rfl rfl

/-- `page_cache_alloc_slot` keeps the counts, and its slot is free. -/
theorem alloc_slot_sound (sound : Sound s) {evictable : Fin pageCacheSize → Bool}
    {slot : Fin pageCacheSize} (allocated : pageCacheAllocSlot s evictable = some (slot, t)) :
    Sound t ∧ t.holds (.cached slot) = none ∧
      ∀ idx i, t.holds (.area idx i) = s.holds (.area idx i) := by
  unfold pageCacheAllocSlot at allocated
  split at allocated
  · rename_i found
    cases allocated
    have unused := List.find?_some found
    refine ⟨sound, ?_, fun _ _ => rfl⟩
    simp only [Bool.not_eq_true'] at unused
    simp [Kernel.holds, CachedPage.refers, unused]
  · rename_i full
    obtain ⟨evicted, found, same⟩ := Option.map_eq_some_iff.mp allocated
    obtain ⟨rfl, rfl⟩ := Prod.mk.inj same
    have used : (s.pageCache evicted).used = true := by
      simpa using List.find?_eq_none.mp full evicted (List.mem_finRange _)
    have held : s.holds (.cached evicted) = some (.file (s.pageCache evicted).file) := by
      simp [Kernel.holds, CachedPage.refers, used]
    have alive := sound_held_live s sound _ _ held
    have released := release_file_counts sound alive
    have dropped := drop_object_dropped s sound _ alive
    obtain ⟨refs, live⟩ := set_cache_counts (fileMmapRelease s (s.pageCache evicted).file) evicted
      { s.pageCache evicted with used := false }
    have holds : ((fileMmapRelease s (s.pageCache evicted).file).setCache evicted
        { s.pageCache evicted with used := false }).holds =
        Function.update s.holds (.cached evicted) none := by
      rw [set_cache_holds, released, dropped.holds]
      rfl
    refine ⟨?_, ?_, ?_⟩
    · refine detach_sound s _ sound (.cached evicted) _ held holds (fun o => ?_) (fun e => ?_)
      · rw [refs, released]
      · rw [live, released]
    · rw [holds, Function.update_self]
    · intro idx i
      rw [holds, Function.update_of_ne (by simp)]

end JsEmulator.Files
