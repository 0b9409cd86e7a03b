import JsEmulator.Memory.AreaLoops

/-!
# Runs of the area table

The calls on the area table, and any sequence of them by any number of processes.

A mapping without a fixed address is placed by `vm_find_mapping`, which adds the
rounded length to its start without a check. When the sum passes the largest `int`
the range looks empty, the call succeeds, and the table gets an area that ends before
it starts. In every run whose unfixed mappings stay below that, all tables stay tidy.
-/

namespace JsEmulator.Memory

variable {vm : Vm} {address code length start stop : Int} {args : MmapArgs} {mapped : Int → Bool}
variable {fd : FdAnswer}

/-! ## The calls -/

theorem range_free_page (mapped : Int → Bool) (vm : Vm) (start stop page : Int)
    (free : vmRangeFree mapped vm start stop = true) (member : page ∈ pages start stop) :
    (∀ i, (vm.areas i).contains page = false) ∧ vmPageInHeap vm page = false := by
  have here := List.all_eq_true.mp free page member
  simp only [Bool.not_or, Bool.and_eq_true, Bool.not_eq_true'] at here
  refine ⟨fun i => ?_, here.2⟩
  by_contra inside
  rw [Bool.not_eq_false] at inside
  have found := (page_in_area_iff vm page).mpr ⟨i, inside⟩
  simp [found] at here

/-- The ends of the heap are page ends of the user range. -/
theorem heap_end_bounds (tidy : Tidy vm) :
    vm.brkEnd ≤ pageAlignUp vm.brkEnd ∧ pageAlignUp vm.brkEnd ≤ userGuardPage ∧
      pageAlignUp vm.brkEnd % 4096 = 0 := by
  have low := tidy.heapLow
  have ordered := tidy.heapOrdered
  have high := tidy.heapHigh
  unfold userBase at low
  unfold userGuardPage at *
  obtain ⟨above, close, aligned⟩ := page_align_up_bounds vm.brkEnd (by omega) (by omega)
  omega

/-- A free aligned range meets no area and not the heap. -/
theorem range_free_apart (tidy : Tidy vm) (range : PageRange start stop)
    (free : vmRangeFree mapped vm start stop = true) :
    (∀ i, (vm.areas i).used = true → stop ≤ (vm.areas i).start ∨ (vm.areas i).stop ≤ start) ∧
    (stop ≤ vm.brkStart ∨ pageAlignUp vm.brkEnd ≤ start ∨ pageAlignUp vm.brkEnd ≤ vm.brkStart) := by
  have startAligned := range.startAligned
  have ordered := range.ordered
  constructor
  · intro i used
    by_contra meets
    have placed := tidy.placed i used
    have aligned := placed.startAligned
    have nonempty := placed.nonempty
    -- The first address in both is the start of a page of the range.
    have member := (mem_pages_aligned (max start (vm.areas i).start) start stop (by omega)
      startAligned).mpr (by omega)
    have outside := (range_free_page mapped vm start stop _ free member).1 i
    have inside := (contains_iff (vm.areas i) (max start (vm.areas i).start)).mpr
      ⟨used, by omega, by omega⟩
    simp [inside] at outside
  · by_contra meets
    have aligned := tidy.heapAligned
    have member := (mem_pages_aligned (max start vm.brkStart) start stop (by omega)
      startAligned).mpr (by omega)
    have outside := (range_free_page mapped vm start stop _ free member).2
    simp only [vmPageInHeap, Bool.and_eq_false_iff, decide_eq_false_iff_not] at outside
    omega

/-- A new area apart from all others and from the heap. -/
theorem add_area_tidy (tidy : Tidy vm) (slot : Fin maxVmas) {a : Area} (placed : a.Placed)
    (apart : ∀ i, (vm.areas i).used = true → a.Apart (vm.areas i))
    (heapApart : a.stop ≤ vm.brkStart ∨ pageAlignUp vm.brkEnd ≤ a.start ∨
      pageAlignUp vm.brkEnd ≤ vm.brkStart) : Tidy (vm.setArea slot a) := by
  refine ⟨?_, ?_, tidy.heapLow, tidy.heapAligned, tidy.heapOrdered, tidy.heapHigh, ?_⟩
  · intro i used
    by_cases here : i = slot
    · rw [here, set_area_same]
      exact placed
    · rw [set_area_other _ _ _ _ here] at used ⊢
      exact tidy.placed i used
  · intro i j different usedI usedJ
    by_cases hereI : i = slot
    · have hereJ : j ≠ slot := fun same => different (hereI.trans same.symm)
      rw [set_area_other _ _ _ _ hereJ] at usedJ ⊢
      rw [hereI, set_area_same]
      exact apart j usedJ
    · rw [set_area_other _ _ _ _ hereI] at usedI ⊢
      by_cases hereJ : j = slot
      · rw [hereJ, set_area_same]
        exact (apart i usedI).symm
      · rw [set_area_other _ _ _ _ hereJ] at usedJ ⊢
        exact tidy.apart i j different usedI usedJ
  · intro i used
    by_cases here : i = slot
    · rw [here, set_area_same]
      exact heapApart
    · rw [set_area_other _ _ _ _ here] at used ⊢
      exact tidy.heapApart i used

/-- Moving the end of the heap over a free range, or back. -/
theorem vm_brk_tidy (mapped : Int → Bool) (tidy : Tidy vm) (address : Int) :
    Tidy (vmBrk mapped vm address).2 ∧
      ((vmBrk mapped vm address).1 < 0 → (vmBrk mapped vm address).2 = vm) := by
  unfold vmBrk
  split
  case isTrue => exact ⟨tidy, fun _ => rfl⟩
  split
  case isTrue => exact ⟨tidy, fun _ => rfl⟩
  rename_i bounds
  split
  case isTrue => exact ⟨tidy, fun _ => rfl⟩
  rename_i room
  have low := tidy.heapLow
  obtain ⟨oldAbove, oldHigh, oldAligned⟩ := heap_end_bounds tidy
  unfold userBase at low
  unfold userGuardPage at bounds oldHigh
  obtain ⟨newAbove, newClose, newAligned⟩ := page_align_up_bounds address (by omega) (by omega)
  refine ⟨⟨tidy.placed, tidy.apart, tidy.heapLow, tidy.heapAligned, by simp only; omega, ?_, ?_⟩,
    fun negative => by simp only at negative; omega⟩
  · unfold userGuardPage
    simp only
    omega
  · intro i used
    have nonempty := (tidy.placed i used).nonempty
    have old := tidy.heapApart i used
    simp only
    by_cases grows : pageAlignUp vm.brkEnd < pageAlignUp address
    · have free : vmRangeFree mapped vm (pageAlignUp vm.brkEnd) (pageAlignUp address) = true := by
        simpa [grows] using room
      have apart := (range_free_apart tidy ⟨grows, oldAligned, newAligned⟩ free).1 i used
      omega
    · omega

/-- The rounded length of a mapping, before it is cut to 32 bits. -/
def mappingLength (length : Int) : Int := (length + 4095) / 4096 * 4096

/-- A mapping without a fixed address ends below the largest `int` when it is put
right after the heap. -/
def MmapArgs.Fits (vm : Vm) (args : MmapArgs) : Prop :=
  hasBits args.flags mapFixed = false →
    pageAlignUp vm.brkEnd + mappingLength args.length.toInt < 2147483648

/-- The search returns a free range, or nothing. -/
theorem find_mapping_from_free (turns : Nat) (start : Int) (low : userBase ≤ start)
    (aligned : start % 4096 = 0) (positive : 0 < length) (fits : start + length < 2147483648)
    (found : findMappingFrom mapped vm length turns start ≠ 0) :
    let address := findMappingFrom mapped vm length turns start
    userBase ≤ address ∧ address % 4096 = 0 ∧ address + length ≤ userGuardPage ∧
      vmRangeFree mapped vm address (address + length) = true := by
  induction turns generalizing start with
  | zero => simp [findMappingFrom] at found
  | succ turns ih =>
    unfold findMappingFrom at found ⊢
    have low' := low
    unfold userBase at low'
    have sum : int32 (start + length) = start + length := int32_of_range _ (by omega) fits
    rw [sum] at found ⊢
    by_cases below : start + length ≤ userGuardPage
    · simp only [if_pos below] at found ⊢
      by_cases free : vmRangeFree mapped vm start (start + length) = true
      · simp only [if_pos free]
        exact ⟨low, aligned, below, free⟩
      · simp only [if_neg free] at found ⊢
        unfold userGuardPage at below
        exact ih (start + 4096) (by omega) (by omega) (by omega) found
    · simp [if_neg below] at found

/-- The rounded length of a positive word, cut to 32 bits, is that length or the
smallest `int`. -/
theorem mapping_length_cut (positive : 0 < length) (word : length < 2147483648) :
    (pageAlignUp length = mappingLength length ∧ 0 < mappingLength length) ∨
      pageAlignUp length = -2147483648 := by
  unfold pageAlignUp mappingLength int32
  omega

/-- A positive word, rounded and added to an address, is not cut to 32 bits unless the sum
looks smaller than the address. -/
theorem rounded_end (base : userBase ≤ address) (word : address < 2147483648)
    (positive : 0 < length) (lengthWord : length < 2147483648)
    (ahead : address ≤ int32 (address + pageAlignUp length)) :
    pageAlignUp length = mappingLength length ∧ 0 < mappingLength length ∧
      int32 (address + pageAlignUp length) = address + mappingLength length := by
  unfold userBase at base
  rcases mapping_length_cut positive lengthWord with ⟨cut, long⟩ | cut
  · refine ⟨cut, long, ?_⟩
    rw [cut] at ahead ⊢
    unfold mappingLength int32 at *
    omega
  · rw [cut] at ahead
    unfold int32 at ahead
    omega

/-- Where `vm_mmap` puts a mapping: a free aligned range of the rounded length. -/
theorem mmap_place_free (tidy : Tidy vm) (fits : args.Fits vm) (positive : 0 < args.length.toInt)
    (placed : mmapPlace mapped vm args (pageAlignUp args.length.toInt) = .ok address) :
    userBase ≤ address ∧ address % 4096 = 0 ∧ 0 < mappingLength args.length.toInt ∧
      address + mappingLength args.length.toInt ≤ userGuardPage ∧
      pageAlignUp args.length.toInt = mappingLength args.length.toInt ∧
      vmRangeFree mapped vm address (address + mappingLength args.length.toInt) = true := by
  have word : args.length.toInt < 2147483648 := args.length.toInt_lt
  have cut := mapping_length_cut positive word
  have low := tidy.heapLow
  obtain ⟨oldAbove, oldHigh, oldAligned⟩ := heap_end_bounds tidy
  have ordered := tidy.heapOrdered
  unfold mmapPlace at placed
  by_cases fixed : hasBits args.flags mapFixed = true
  · simp only [if_pos fixed] at placed
    split at placed
    case isTrue => cases placed
    rename_i bounds
    split at placed
    case isTrue => cases placed
    rename_i free
    injection placed with placed
    subst placed
    have checked : args.address.toInt % 4096 = 0 ∧ userBase ≤ args.address.toInt ∧
        args.address.toInt ≤ int32 (args.address.toInt + pageAlignUp args.length.toInt) ∧
        int32 (args.address.toInt + pageAlignUp args.length.toInt) ≤ userGuardPage := by
      omega
    obtain ⟨aligned, base, ahead, below⟩ := checked
    obtain ⟨rounded, long, sum⟩ := rounded_end base args.address.toInt_lt positive word ahead
    rw [sum] at below free
    exact ⟨base, aligned, long, below, rounded, by simpa using free⟩
  · simp only [if_neg fixed] at placed
    split at placed
    case isTrue => cases placed
    rename_i found
    injection placed with placed
    have room := fits (by simpa using fixed)
    have length : pageAlignUp args.length.toInt = mappingLength args.length.toInt ∧
        0 < mappingLength args.length.toInt := by
      rcases cut with cut | cut
      · exact cut
      exfalso
      unfold pageAlignUp mappingLength int32 at *
      unfold userBase at low
      omega
    rw [length.1] at placed found
    unfold vmFindMapping at placed found
    obtain ⟨base, aligned, below, free⟩ := find_mapping_from_free 32768 (pageAlignUp vm.brkEnd) (by omega) oldAligned
      length.2 room found
    rw [placed] at base aligned below free
    exact ⟨base, aligned, length.2, below, length.1, free⟩

/-- What a call of `vm_mmap` does: it fails and changes nothing, or it puts the
mapping into an unused slot. -/
inductive Mapped (args : MmapArgs) (vm : Vm) : Int × Vm → Prop where
  | failed (code : Int) (negative : code < 0) : Mapped args vm (code, vm)
  | added (slot : Fin maxVmas) (address : Int) (file : Option Nat)
      (unused : (vm.areas slot).used = false) (low : userBase ≤ address)
      (high : address + mappingLength args.length.toInt ≤ userGuardPage) :
      Mapped args vm (address, vm.setArea slot
        { used := true, start := address, stop := address + mappingLength args.length.toInt,
          prot := args.prot, flags := args.flags, file := file, offset := args.offset.toInt })

/-- The codes of the checks before a mapping is made are errors. -/
theorem mmap_place_negative (failed : mmapPlace mapped vm args length = .error code) :
    code < 0 := by
  unfold mmapPlace at failed
  simp only [einval, enomem] at failed
  split_ifs at failed <;> (injection failed with failed; omega)

theorem mmap_file_check_negative (failed : mmapFileCheck fd args = .error code) : code < 0 := by
  unfold mmapFileCheck at failed
  simp only [ebadf, einval, eacces] at failed
  split_ifs at failed <;> (injection failed with failed; omega)

theorem mmap_file_negative (failed : mmapFile fd args = .error code) : code < 0 := by
  unfold mmapFile at failed
  simp only [enodev] at failed
  split at failed
  · cases failed
  split at failed
  · injection failed with failed
    omega
  · cases failed

/-- A call of `vm_mmap` on a tidy table fails or adds a free range. -/
theorem vm_mmap_args_mapped (mapped : Int → Bool) (fd : FdAnswer) (tidy : Tidy vm)
    (fits : args.Fits vm) :
    Mapped args vm (vmMmapArgs mapped fd vm args) ∧ Tidy (vmMmapArgs mapped fd vm args).2 := by
  unfold vmMmapArgs
  split
  case isTrue => exact ⟨.failed _ (by decide), tidy⟩
  rename_i accepted
  split
  case isTrue => exact ⟨.failed _ (by decide), tidy⟩
  simp only
  cases place : mmapPlace mapped vm args (pageAlignUp args.length.toInt) with
  | error code => exact ⟨.failed _ (mmap_place_negative place), tidy⟩
  | ok address =>
    cases check : mmapFileCheck fd args with
    | error code => exact ⟨.failed _ (mmap_file_check_negative check), tidy⟩
    | ok _ =>
      cases found : vmAreaSlot vm with
      | none => exact ⟨.failed _ (by decide), tidy⟩
      | some slot =>
        cases file : mmapFile fd args with
        | error code => exact ⟨.failed _ (mmap_file_negative file), tidy⟩
        | ok object =>
          have positive : 0 < args.length.toInt := by
            by_contra small
            exact accepted (.inl (by omega))
          obtain ⟨low, aligned, ahead, high, exact', free⟩ :=
            mmap_place_free tidy fits positive place
          have lengthAligned : mappingLength args.length.toInt % 4096 = 0 := by
            unfold mappingLength
            omega
          have range : PageRange address (address + mappingLength args.length.toInt) :=
            ⟨by omega, aligned, by omega⟩
          obtain ⟨apart, heapApart⟩ := range_free_apart tidy range free
          have stop : int32 (address + pageAlignUp args.length.toInt) =
              address + mappingLength args.length.toInt := by
            rw [exact']
            unfold userBase at low
            unfold userGuardPage at high
            exact int32_of_range _ (by omega) (by omega)
          simp only [mmapArea, stop]
          refine ⟨.added slot address object (area_slot_unused vm slot found) low high,
            add_area_tidy tidy slot ?_ ?_ heapApart⟩
          · have top : userGuardPage ≤ userStackTop := by decide
            exact ⟨range.startAligned, range.stopAligned, low, range.ordered, high.trans top⟩
          · intro i used
            exact apart i used

theorem rounded_range (aligned : address % 4096 = 0) (base : userBase ≤ address)
    (word : address < 2147483648) (positive : 0 < length) (lengthWord : length < 2147483648)
    (ahead : address ≤ int32 (address + pageAlignUp length)) :
    PageRange address (int32 (address + pageAlignUp length)) := by
  obtain ⟨-, longer, sum⟩ := rounded_end base word positive lengthWord ahead
  have rounded : mappingLength length % 4096 = 0 := by
    unfold mappingLength
    omega
  rw [sum]
  exact ⟨by omega, aligned, by omega⟩

/-- What passes the checks of `vm_munmap` is a range of pages. -/
theorem munmap_range_pages (word : address < 2147483648) (lengthWord : length < 2147483648)
    (found : munmapRange address length = some (start, stop)) : PageRange start stop := by
  unfold munmapRange at found
  simp only at found
  split_ifs at found with bad bounds
  cases found
  exact rounded_range (by omega) (by omega) word (by omega) lengthWord (by omega)

/-- So is what passes those of `vm_mprotect`, and there are slots for its pieces. -/
theorem mprotect_range_pages {prot : Word} (word : address < 2147483648)
    (lengthWord : length < 2147483648)
    (found : mprotectRange vm address length prot = .ok (start, stop)) :
    PageRange start stop ∧ vmMprotectSlotsNeeded vm start stop ≤ vmFreeAreaSlots vm := by
  unfold mprotectRange at found
  simp only at found
  split_ifs at found with bad bounds room
  cases found
  exact ⟨rounded_range (by omega) (by omega) word (by omega) lengthWord (by omega), by omega⟩

/-- The area part of `vm_munmap` runs to its end. -/
theorem vm_munmap_tidy (tidy : Tidy vm) (range : PageRange start stop) :
    ∃ result vm', vmMunmap vm start stop = some (result, vm') ∧ Tidy vm' ∧
      (result < 0 → vm' = vm) := by
  rcases vm_munmap_runs range.ordered (split_unique vm tidy start stop range) with
    failed | ⟨vm', looped, done⟩
  · exact ⟨_, vm, failed, tidy, fun _ => rfl⟩
  · exact ⟨0, vm', done, munmap_loop_tidy range _ vm tidy looped,
      fun negative => absurd negative (by decide)⟩

/-- The area part of `vm_mprotect` runs to its end. -/
theorem vm_mprotect_areas_tidy (tidy : Tidy vm) (prot : Word) (range : PageRange start stop)
    (room : vmMprotectSlotsNeeded vm start stop ≤ vmFreeAreaSlots vm) :
    ∃ vm', vmMprotectAreas vm start stop prot = some vm' ∧ Tidy vm' := by
  obtain ⟨vm', looped⟩ := mprotect_areas_succeeds prot range room
  refine ⟨vm', looped, ?_⟩
  refine (mprotect_loop_kept range _ ((List.nodup_finRange _).filter _) vm ?_ looped).1 tidy
  intro i member
  simpa using List.of_mem_filter member

/-- `vm_release` leaves no area. -/
theorem vm_release_tidy (tidy : Tidy vm) : Tidy (vmRelease vm) := by
  refine ⟨?_, ?_, tidy.heapLow, tidy.heapAligned, tidy.heapOrdered, tidy.heapHigh, ?_⟩
  · intro i used
    cases used
  · intro i j _ used
    cases used
  · intro i used
    cases used

/-- `vm_init` leaves the area of the stack and an empty heap after the image. -/
theorem vm_init_tidy (vm : Vm) {memsz imageEnd : Int} (loaded : execImageEnd memsz = some imageEnd) :
    Tidy (vmInit vm imageEnd) := by
  unfold execImageEnd at loaded
  split at loaded
  case isTrue => cases loaded
  rename_i size
  cases loaded
  have unused : Tidy { vmRelease vm with
      brkStart := userBase + (memsz + 4095) / 4096 * 4096
      brkEnd := userBase + (memsz + 4095) / 4096 * 4096 } := by
    refine ⟨?_, ?_, ?_, ?_, le_rfl, ?_, ?_⟩
    · intro i used
      cases used
    · intro i j _ used
      cases used
    · simp only
      omega
    · simp only [userBase]
      omega
    · simp only [userBase, userGuardPage] at size ⊢
      omega
    · intro i used
      cases used
  refine add_area_tidy unused _ ?_ ?_ ?_
  · constructor <;> decide
  · intro i used
    cases used
  · have high := (heap_end_bounds unused).2.1
    right
    left
    exact high.trans (by decide)

/-! ## Runs -/

/-- A call on the area table of one process: the words of the user, with what the
page table and the descriptor table answer. -/
inductive VmCall where
  | mmap (mapped : Int → Bool) (fd : FdAnswer) (args : Option MmapArgs)
  | munmap (address length : Word)
  | mprotect (address length prot : Word)
  | brk (mapped : Int → Bool) (address : Word)

/-- What a call returns, and the table after it. Nothing is returned where the source
would write outside the table. -/
def vmCall (vm : Vm) : VmCall → Option (Int × Vm)
  | .mmap mapped fd args => some (vmMmap mapped fd vm args)
  | .munmap address length =>
    match munmapRange address.toInt length.toInt with
    | none => some (-einval, vm)
    | some (start, stop) => vmMunmap vm start stop
  | .mprotect address length prot =>
    match mprotectRange vm address.toInt length.toInt prot with
    | .error code => some (code, vm)
    | .ok (start, stop) => (vmMprotectAreas vm start stop prot).map (fun vm => (0, vm))
  | .brk mapped address => some (vmBrk mapped vm address.toInt)

/-- No sum of `vm_find_mapping` passes the largest `int` in the call. -/
def VmCall.Fits (call : VmCall) (vm : Vm) : Prop :=
  ∀ mapped fd args, call = .mmap mapped fd (some args) → args.Fits vm

/-- A successful mapping is one new area of the rounded length at the returned
address, in a slot that was free. -/
def VmCall.Adds (call : VmCall) (vm : Vm) (result : Int) (vm' : Vm) : Prop :=
  ∀ mapped fd args, call = .mmap mapped fd (some args) → 0 ≤ result →
    userBase ≤ result ∧ result + mappingLength args.length.toInt ≤ userGuardPage ∧
    ∃ slot file, (vm.areas slot).used = false ∧ vm' = vm.setArea slot
      { used := true, start := result, stop := result + mappingLength args.length.toInt,
        prot := args.prot, flags := args.flags, file := file, offset := args.offset.toInt }

/-- The tables of all processes, over any sequence of calls that are allowed where
they are made. A slot has no table before its first `vm_init` or `vm_fork`. -/
inductive VmRun (allowed : VmCall → Vm → Prop) : (Nat → Option Vm) → Prop where
  | start : VmRun allowed (fun _ => none)
  | init (table : Nat → Option Vm) (idx : Nat) (memsz imageEnd : Int)
      (run : VmRun allowed table) (loaded : execImageEnd memsz = some imageEnd) :
      VmRun allowed (Function.update table idx (some (vmInit ((table idx).getD emptyVm) imageEnd)))
  | fork (table : Nat → Option Vm) (parent child : Nat) (vm : Vm) (run : VmRun allowed table)
      (live : table parent = some vm) :
      VmRun allowed (Function.update table child (some (vmFork vm)))
  | release (table : Nat → Option Vm) (idx : Nat) (vm : Vm) (run : VmRun allowed table)
      (live : table idx = some vm) :
      VmRun allowed (Function.update table idx (some (vmRelease vm)))
  | call (table : Nat → Option Vm) (idx : Nat) (vm : Vm) (call : VmCall) (result : Int) (vm' : Vm)
      (run : VmRun allowed table) (live : table idx = some vm) (fits : allowed call vm)
      (answered : vmCall vm call = some (result, vm')) :
      VmRun allowed (Function.update table idx (some vm'))

/-- One call on a tidy table. -/
theorem vm_call_tidy (tidy : Tidy vm) {call : VmCall} (fits : call.Fits vm) :
    ∃ result vm', vmCall vm call = some (result, vm') ∧ Tidy vm' ∧ (result < 0 → vm' = vm) ∧
      call.Adds vm result vm' := by
  have nothing (other : ∀ mapped fd args, call ≠ .mmap mapped fd (some args)) (result : Int)
      (vm' : Vm) : call.Adds vm result vm' :=
    fun mapped fd args same => absurd same (other mapped fd args)
  cases call with
  | mmap mapped fd args =>
    cases args with
    | none => exact ⟨_, vm, rfl, tidy, fun _ => rfl, nothing (by simp) _ _⟩
    | some args =>
      obtain ⟨made, kept⟩ := vm_mmap_args_mapped mapped fd tidy (fits mapped fd args rfl)
      simp only [vmCall, vmMmap]
      generalize vmMmapArgs mapped fd vm args = answer at made kept
      refine ⟨answer.1, answer.2, rfl, kept, ?_, ?_⟩
      · intro negative
        cases made with
        | failed code _ => rfl
        | added slot address file unused low high =>
          unfold userBase at low
          omega
      · intro _ _ other same nonnegative
        obtain rfl : args = other := by simpa using (VmCall.mmap.inj same).2.2
        cases made with
        | failed code negative => omega
        | added slot address file unused low high => exact ⟨low, high, slot, file, unused, rfl⟩
  | munmap address length =>
    simp only [vmCall]
    cases checked : munmapRange address.toInt length.toInt with
    | none => exact ⟨_, vm, rfl, tidy, fun _ => rfl, nothing (by simp) _ _⟩
    | some ends =>
      have range := munmap_range_pages address.toInt_lt length.toInt_lt checked
      obtain ⟨result, vm', answered, kept, failed⟩ := vm_munmap_tidy tidy range
      exact ⟨result, vm', answered, kept, failed, nothing (by simp) _ _⟩
  | mprotect address length prot =>
    simp only [vmCall]
    cases checked : mprotectRange vm address.toInt length.toInt prot with
    | error code => exact ⟨code, vm, rfl, tidy, fun _ => rfl, nothing (by simp) _ _⟩
    | ok ends =>
      obtain ⟨range, room⟩ := mprotect_range_pages address.toInt_lt length.toInt_lt checked
      obtain ⟨vm', looped, kept⟩ := vm_mprotect_areas_tidy tidy prot range room
      exact ⟨0, vm', by simp only [looped, Option.map_some], kept,
        fun negative => absurd negative (by decide), nothing (by simp) _ _⟩
  | brk mapped address =>
    obtain ⟨kept, failed⟩ := vm_brk_tidy mapped tidy address.toInt
    exact ⟨_, _, rfl, kept, failed, nothing (by simp) _ _⟩

/-- All tables are tidy when one tidy table is put among tidy ones. -/
theorem update_tidy (table : Nat → Option Vm) (idx : Nat) (new : Vm) (kept : Tidy new)
    (others : ∀ i vm, table i = some vm → Tidy vm) (i : Nat) (vm : Vm)
    (live : Function.update table idx (some new) i = some vm) : Tidy vm := by
  by_cases here : i = idx
  · subst here
    rw [Function.update_self] at live
    exact Option.some.inj live ▸ kept
  · rw [Function.update_of_ne here] at live
    exact others i vm live

/-- Every table of a run whose mappings fit is tidy. -/
theorem vm_run_tidy {table : Nat → Option Vm} (run : VmRun VmCall.Fits table) :
    ∀ idx vm, table idx = some vm → Tidy vm := by
  induction run with
  | start =>
    intro idx vm live
    cases live
  | init table idx memsz imageEnd _ loaded ih =>
    exact update_tidy table idx _ (vm_init_tidy _ loaded) ih
  | fork table parent child vm _ live ih =>
    exact update_tidy table child _ (ih parent vm live) ih
  | release table idx vm _ live ih =>
    exact update_tidy table idx _ (vm_release_tidy (ih idx vm live)) ih
  | call table idx vm call result vm' _ live fits answered ih =>
    obtain ⟨result', vm'', answered', kept, -⟩ := vm_call_tidy (ih idx vm live) fits
    rw [answered] at answered'
    obtain ⟨rfl, rfl⟩ := Prod.mk.inj (Option.some.inj answered')
    exact update_tidy table idx _ kept ih

/-- In every run whose mappings fit, the areas of every process are aligned, in range,
apart from each other and from the heap. A call that fits then always returns: it
fails and changes nothing, or, for a mapping, adds exactly the area it was asked for. -/
theorem area_tables_stay_tidy (table : Nat → Option Vm) (run : VmRun VmCall.Fits table) (idx : Nat)
    (vm : Vm) (live : table idx = some vm) :
    Tidy vm ∧ ∀ call : VmCall, call.Fits vm →
      ∃ result vm', vmCall vm call = some (result, vm') ∧ (result < 0 → vm' = vm) ∧
        call.Adds vm result vm' := by
  have tidy := vm_run_tidy run idx vm live
  refine ⟨tidy, ?_⟩
  intro call fits
  obtain ⟨result, vm', answered, -, failed, added⟩ := vm_call_tidy tidy fits
  exact ⟨result, vm', answered, failed, added⟩

/-- An anonymous private mapping of one word's length, anywhere. -/
def anonymousArgs (length : Word) : MmapArgs :=
  ⟨0, length, protRead, mapPrivate ||| mapAnonymous, 0, 0⟩

/-- The table of a process with an image of one page. -/
def freshVm : Vm := vmInit emptyVm (userBase + 4096)

/-- The tables of a run in which only process 0 has been started. -/
def freshTable : Nat → Option Vm := Function.update (fun _ => none) 0 (some freshVm)

theorem fresh_table_run (allowed : VmCall → Vm → Prop) : VmRun allowed freshTable :=
  .init (fun _ => none) 0 4096 _ .start rfl

/-- A started process that may map 8192 bytes. -/
theorem area_tables_stay_tidy_fresh :
    Tidy freshVm ∧ ∃ result vm', vmCall freshVm (.mmap (fun _ => false) ⟨false, false, false, none⟩
      (some (anonymousArgs 8192))) = some (result, vm') ∧ (result < 0 → vm' = freshVm) ∧
      VmCall.Adds (.mmap (fun _ => false) ⟨false, false, false, none⟩ (some (anonymousArgs 8192)))
        freshVm result vm' := by
  have all := area_tables_stay_tidy freshTable (fresh_table_run _) 0 freshVm rfl
  refine ⟨all.1, all.2 _ ?_⟩
  intro mapped fd args same unfixed
  obtain rfl : anonymousArgs 8192 = args := by simpa using (VmCall.mmap.inj same).2.2
  decide

/-- A mapping of `2 ^ 31 - 4096` bytes right after the start succeeds: its area ends
before it starts, and below every user address. -/
theorem huge_mapping_ends_before_start :
    ∃ table vm i, VmRun (fun _ _ => True) table ∧ table 0 = some vm ∧
      (vm.areas i).used = true ∧ (vm.areas i).stop < (vm.areas i).start ∧
      (vm.areas i).stop < userBase := by
  refine ⟨_, _, ⟨1, by decide⟩,
    .call freshTable 0 freshVm (.mmap (fun _ => false) ⟨false, false, false, none⟩
      (some (anonymousArgs 0x7ffff000))) _ _ (fresh_table_run _) rfl trivial rfl,
    Function.update_self .., ?_⟩
  decide +kernel

/-- `vm_mprotect` changes no page's flags, file or offset, however it cuts the areas. -/
theorem mprotect_keeps_backings (address size prot : Word) {result : Int} {vm' : Vm}
    (answered : vmCall vm (.mprotect address size prot) = some (result, vm')) (page : Int)
    (b : Backing) : vm'.Backs page b ↔ vm.Backs page b := by
  simp only [vmCall] at answered
  split at answered
  · cases answered
    rfl
  rename_i checked
  obtain ⟨range, -⟩ := mprotect_range_pages address.toInt_lt size.toInt_lt checked
  obtain ⟨_, looped, same⟩ := Option.map_eq_some_iff.mp answered
  cases same
  exact (mprotect_loop_kept range _ ((List.nodup_finRange _).filter _) vm
    (fun i member => by simpa using List.of_mem_filter member) looped).2 page b

/-- The last page of the stack is made read-only. -/
theorem mprotect_keeps_backings_stack :
    ∃ vm', vmCall freshVm (.mprotect 0x7ffe000 4096 protRead) = some (0, vm') ∧
      ∀ page b, vm'.Backs page b ↔ freshVm.Backs page b :=
  ⟨_, rfl, mprotect_keeps_backings 0x7ffe000 4096 protRead rfl⟩

end JsEmulator.Memory
