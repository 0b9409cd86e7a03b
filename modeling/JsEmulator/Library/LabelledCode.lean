import Mathlib.Data.List.Basic
import Mathlib.Logic.Relation

/-!
# Straight code with labels

A program is a list of lines. A line is a label, a jump to a label that is taken or not, or an
instruction that changes the state of the machine or stops it. A block of lines is looked at where
it stands in the program, so that its runs can be put together from those of its parts.
-/

namespace JsEmulator.Library.LabelledCode

/-- A line of code for a machine with states in `M`. -/
inductive Line (M : Type) where
  | label (name : Nat)
  | jump (taken : M → Bool) (name : Nat)
  | instr (effect : M → Option M)

variable {M : Type}

/-- The line is the label of that name. -/
def Line.isLabel (name : Nat) : Line M → Bool
  | .label other => other == name
  | _ => false

/-- Where a label stands. -/
def target (code : List (Line M)) (name : Nat) : Option Nat := code.findIdx? (Line.isLabel name)

/-- One step: the position of the next line, and the machine. -/
def step (code : List (Line M)) (state : Nat × M) : Option (Nat × M) :=
  match code[state.1]? with
  | none => none
  | some (.label _) => some (state.1 + 1, state.2)
  | some (.jump taken name) =>
    if taken state.2 then (target code name).map fun position => (position, state.2)
    else some (state.1 + 1, state.2)
  | some (.instr effect) => (effect state.2).map fun machine => (state.1 + 1, machine)

/-- Any number of steps. -/
def Runs (code : List (Line M)) : Nat × M → Nat × M → Prop :=
  Relation.ReflTransGen fun state next => step code state = some next

/-- The code, run from its first line, comes to its end. -/
def Completes (code : List (Line M)) (before after : M) : Prop :=
  Runs code (0, before) (code.length, after)

theorem step_end (code : List (Line M)) (machine : M) : step code (code.length, machine) = none := by
  simp [step]

variable {code second first : List (Line M)} {taken : M → Bool} {name high : Nat}

/-- Two runs from one state to states where nothing follows end alike. -/
theorem runs_unique {state first second : Nat × M} (one : Runs code state first)
    (other : Runs code state second) (stopped : step code first = none)
    (halted : step code second = none) : first = second := by
  induction one using Relation.ReflTransGen.head_induction_on with
  | refl =>
    rcases Relation.ReflTransGen.cases_head other with same | ⟨next, move, _⟩
    · exact same
    · rw [stopped] at move
      cases move
  | head move _ ih =>
    rcases Relation.ReflTransGen.cases_head other with same | ⟨next, moved, rest⟩
    · rw [same, halted] at move
      cases move
    · rw [move] at moved
      cases moved
      exact ih rest

/-- The end of a program is reached in one way. -/
theorem completes_unique {before first second : M} (one : Completes code before first)
    (other : Completes code before second) : first = second :=
  congrArg Prod.snd (runs_unique one other (step_end code first) (step_end code second))

/-- The block of lines stands in the program, after some other lines. -/
structure Placed (code : List (Line M)) (position : Nat) (block : List (Line M)) : Prop where
  split : ∃ before after, code = before ++ block ++ after ∧ before.length = position

theorem Placed.left {position : Nat} (placed : Placed code position (first ++ second)) :
    Placed code position first := by
  obtain ⟨before, after, rfl, size⟩ := placed.split
  exact ⟨before, second ++ after, by simp, size⟩

theorem Placed.right {position : Nat} (placed : Placed code position (first ++ second)) :
    Placed code (position + first.length) second := by
  obtain ⟨before, after, rfl, size⟩ := placed.split
  exact ⟨before ++ first, after, by simp, by simp [size]⟩

theorem Placed.line {block : List (Line M)} {line : Line M} {position : Nat}
    (placed : Placed code position (line :: block)) : code[position]? = some line := by
  obtain ⟨before, after, rfl, rfl⟩ := placed.split
  simp

theorem Placed.tail {block : List (Line M)} {line : Line M} {position : Nat}
    (placed : Placed code position (line :: block)) : Placed code (position + 1) block :=
  Placed.right (show Placed code position ([line] ++ block) from placed)

variable {code : List (Line M)} {position : Nat} {machine : M}

theorem runs_label (here : code[position]? = some (.label name)) :
    Runs code (position, machine) (position + 1, machine) :=
  Relation.ReflTransGen.single (by simp only [step, here])

theorem runs_instr {effect : M → Option M} {after : M}
    (here : code[position]? = some (.instr effect)) (does : effect machine = some after) :
    Runs code (position, machine) (position + 1, after) :=
  Relation.ReflTransGen.single (by simp only [step, here, does, Option.map_some])

theorem runs_past (here : code[position]? = some (.jump taken name)) (stays : taken machine = false) :
    Runs code (position, machine) (position + 1, machine) :=
  Relation.ReflTransGen.single (by simp [step, here, stays])

theorem runs_jump {goal : Nat} (here : code[position]? = some (.jump taken name))
    (goes : taken machine = true) (found : target code name = some goal) :
    Runs code (position, machine) (goal, machine) :=
  Relation.ReflTransGen.single (by simp [step, here, goes, found])

/-- Instructions that do not stop follow each other. -/
theorem runs_straight {effects : List (M → M)}
    (placed : Placed code position (effects.map fun effect => .instr fun m => some (effect m))) :
    Runs code (position, machine)
      (position + effects.length, effects.foldl (fun m effect => effect m) machine) := by
  induction effects generalizing position machine with
  | nil => exact Relation.ReflTransGen.refl
  | cons effect effects ih =>
    have first : Runs code (position, machine) (position + 1, effect machine) :=
      runs_instr placed.line rfl
    have rest := @ih (position + 1) (effect machine) placed.tail
    rw [Nat.add_assoc, Nat.add_comm 1] at rest
    exact first.trans rest

/-- A label is found where it stands, if no line before it is the same label. -/
theorem target_of_fresh {before after : List (Line M)} {name : Nat}
    (fresh : ∀ line ∈ before, line.isLabel name = false) :
    target (before ++ .label name :: after) name = some before.length := by
  have skipped : before.findIdx? (Line.isLabel name) = none := by
    rw [List.findIdx?_eq_none_iff]
    exact fresh
  rw [target, List.findIdx?_append, skipped]
  simp [Line.isLabel, List.findIdx?_cons]

/-- The labels of a code are numbered from one number up to another. -/
def Numbered (code : List (Line M)) (low high : Nat) : Prop :=
  ∀ line ∈ code, ∀ name, line.isLabel name = true → low ≤ name ∧ name < high

theorem Numbered.fresh {low : Nat} (numbered : Numbered code low high)
    (outside : name < low ∨ high ≤ name) :
    ∀ line ∈ code, line.isLabel name = false := by
  intro line member
  rcases same : line.isLabel name with - | -
  · rfl
  · have := numbered line member name same
    omega

theorem Numbered.mono {low low' high' : Nat} (numbered : Numbered code low high)
    (lower : low' ≤ low) (higher : high ≤ high') :
    Numbered code low' high' := by
  intro line member name same
  have := numbered line member name same
  omega

theorem Numbered.append {low : Nat} (one : Numbered first low high)
    (other : Numbered second low high) :
    Numbered (first ++ second) low high := by
  intro line member name same
  rcases List.mem_append.mp member with inFirst | inSecond
  · exact one line inFirst name same
  · exact other line inSecond name same

theorem numbered_label {low : Nat} (above : low ≤ name) (below : name < high) :
    Numbered [(.label name : Line M)] low high := by
  intro line member other same
  simp only [List.mem_singleton] at member
  subst member
  simp only [Line.isLabel, beq_iff_eq] at same
  omega

theorem numbered_jump (taken : M → Bool) (name low high : Nat) :
    Numbered [(.jump taken name : Line M)] low high := by
  intro line member other same
  simp only [List.mem_singleton] at member
  subst member
  cases same

theorem numbered_straight (effects : List (M → M)) (low high : Nat) :
    Numbered (effects.map fun effect => .instr fun m => some (effect m)) low high := by
  intro line member other same
  obtain ⟨effect, _, rfl⟩ := List.mem_map.mp member
  cases same

/-- A test, and two blocks of which the jump selects one. -/
def choice (test : List (Line M)) (taken : M → Bool) (els fin : Nat)
    (first second : List (Line M)) : List (Line M) :=
  test ++ [.jump taken els] ++
    (first ++ ([.jump (fun _ => true) fin, .label els] ++ (second ++ [.label fin])))

/-- A choice runs the block that its test selects. The labels are new: no line before them carries
them. -/
theorem runs_choice {before test after : List (Line M)} {els fin : Nat} {tested result : M}
    (placed : code = before ++ choice test taken els fin first second ++ after)
    (newElse : ∀ line ∈ before ++ test ++ first, line.isLabel els = false)
    (newEnd : ∀ line ∈ before ++ test ++ first ++ second, line.isLabel fin = false)
    (differ : els ≠ fin)
    (tests : Runs code (before.length, machine) (before.length + test.length, tested))
    (selectsFirst : taken tested = false → Runs code (before.length + test.length + 1, tested) (before.length + test.length + 1 + first.length, result))
    (selectsSecond : taken tested = true → Runs code (before.length + test.length + 1 + first.length + 2, tested) (before.length + test.length + 1 + first.length + 2 + second.length, result)) :
    Runs code (before.length, machine)
      (before.length + (choice test taken els fin first second).length, result) := by
  have block : Placed code before.length (choice test taken els fin first second) :=
    ⟨before, after, placed, rfl⟩
  have jump := (block.left.right).line
  have arm := block.right
  rw [List.length_append, List.length_singleton, ← Nat.add_assoc] at arm
  have leave := arm.right.line
  have mark := arm.right.tail.line
  have close := arm.right.right.right.line
  have size : before.length + (choice test taken els fin first second).length =
      before.length + test.length + 1 + first.length + 2 + second.length + 1 := by
    simp only [choice, List.length_append, List.length_cons, List.length_nil]
    omega
  have elseAt : target code els = some (before.length + test.length + 1 + first.length + 1) := by
    have fresh : ∀ line ∈ before ++ test ++ [.jump taken els] ++ first ++
        [.jump (fun _ => true) fin], line.isLabel els = false := by
      intro line member
      simp only [List.mem_append, List.mem_singleton] at member newElse
      rcases member with ((((inside | inside) | rfl) | inside) | rfl)
      · exact newElse line (.inl (.inl inside))
      · exact newElse line (.inl (.inr inside))
      · rfl
      · exact newElse line (.inr inside)
      · rfl
    have found := @target_of_fresh M _ (second ++ [.label fin] ++ after) _ fresh
    simp only [List.length_append, List.length_singleton] at found
    rw [← found, placed, choice]
    simp only [List.append_assoc, List.cons_append, List.nil_append]
  have endAt : target code fin =
      some (before.length + test.length + 1 + first.length + 2 + second.length) := by
    have fresh : ∀ line ∈ before ++ test ++ [.jump taken els] ++ first ++
        [.jump (fun _ => true) fin, .label els] ++ second, line.isLabel fin = false := by
      intro line member
      simp only [List.mem_append, List.mem_cons, List.not_mem_nil, or_false] at member newEnd
      rcases member with (((((inside | inside) | rfl) | inside) | (rfl | rfl)) | inside)
      · exact newEnd line (.inl (.inl (.inl inside)))
      · exact newEnd line (.inl (.inl (.inr inside)))
      · rfl
      · exact newEnd line (.inl (.inr inside))
      · rfl
      · simp [Line.isLabel, differ]
      · exact newEnd line (.inr inside)
    have found := @target_of_fresh M _ after _ fresh
    simp only [List.length_append, List.length_cons, List.length_nil] at found
    rw [← found, placed, choice]
    simp only [List.append_assoc, List.cons_append, List.nil_append]
  have ends : Runs code (before.length + test.length + 1 + first.length + 2 + second.length, result)
      (before.length + test.length + 1 + first.length + 2 + second.length + 1, result) :=
    runs_label close
  rw [size]
  rcases selected : taken tested with - | -
  · have goes := (tests.trans (runs_past jump selected)).trans (selectsFirst selected)
    exact (goes.trans (runs_jump leave rfl endAt)).trans ends
  · have goes := (tests.trans (runs_jump jump selected elseAt)).trans (runs_label mark)
    exact (goes.trans (selectsSecond selected)).trans ends

/-- Instructions one after the other. -/
def plain (effects : List (M → M)) : List (Line M) :=
  effects.map fun effect => .instr fun m => some (effect m)

/-- What they do, one after the other. -/
def effectOf (effects : List (M → M)) (machine : M) : M :=
  effects.foldl (fun m effect => effect m) machine

theorem runs_plain {effects : List (M → M)} (placed : Placed code position (plain effects)) :
    Runs code (position, machine)
      (position + (plain effects).length, effectOf effects machine) := by
  rw [plain, List.length_map]
  exact runs_straight placed

/-- A loop that leaves from its top, when its test is met. -/
def loop (top out : Nat) (test : List (M → M)) (taken : M → Bool) (body : List (M → M)) :
    List (Line M) :=
  .label top :: (plain test ++ .jump taken out :: (plain body ++ [.jump (fun _ => true) top]))

/-- A loop with an invariant that counts its rounds. -/
theorem runs_loop {top out : Nat} {test body : List (M → M)} {taken : M → Bool}
    {Invariant : Nat → M → Prop} (placed : Placed code position (loop top out test taken body))
    (topAt : target code top = some position)
    (outAt : target code out = some (position + (loop top out test taken body).length))
    (again : ∀ rounds m, Invariant (rounds + 1) m →
      taken (effectOf test m) = false ∧ Invariant rounds (effectOf body (effectOf test m)))
    (stops : ∀ m, Invariant 0 m → taken (effectOf test m) = true) (rounds : Nat) (m : M)
    (invariant : Invariant rounds m) :
    ∃ last, Invariant 0 last ∧ Runs code (position, m)
      (position + (loop top out test taken body).length, effectOf test last) := by
  have tests := placed.tail.left
  have leaves := placed.tail.right
  rw [plain, List.length_map] at leaves
  have turns := leaves.tail.left
  have back := leaves.tail.right.line
  rw [plain, List.length_map] at back
  induction rounds generalizing m with
  | zero =>
    refine ⟨m, invariant, ?_⟩
    exact (runs_label placed.line).trans ((runs_straight tests).trans
      (runs_jump leaves.line (stops m invariant) outAt))
  | succ rounds ih =>
    obtain ⟨stays, kept⟩ := again rounds m invariant
    obtain ⟨last, ended, rest⟩ := ih _ kept
    refine ⟨last, ended, ?_⟩
    have round : Runs code (position, m) (position, effectOf body (effectOf test m)) :=
      (runs_label placed.line).trans ((runs_straight tests).trans
        ((runs_past leaves.line stays).trans ((runs_straight turns).trans
          (runs_jump back rfl topAt))))
    exact round.trans rest

end JsEmulator.Library.LabelledCode
