import JsEmulator.Disk.Paths
import JsEmulator.Memory.Areas
import Mathlib.Logic.Relation

/-!
# Symbolic links in paths

`namei_from_checked` turn by turn, with its error codes, its access checks and the paths
that it hands back when another file system or an absolute link takes over. Against it
stands the resolution of a path as a list of names, in which the target of a link takes the
link's place and nothing has a fixed size.
-/

namespace JsEmulator.Disk

open JsEmulator.Files (NodeType)
open JsEmulator.Memory (eacces)

variable {k : Walk} {s : Place} {path rest target : Text}

def eloop : Int := 40

/-- What `namei_from_checked` is given besides a path: the volume, the directories that the
caller may search (all, where access is not checked), the path at which a file system is
mounted on an inode, and whether a link at the end is followed. -/
structure Walk where
  volume : Volume
  searchable : Nat → Bool
  mountedPath : Nat → Option { path : Text // path.length < 8 }
  follow : Bool

/-- Where a lookup stands: the inode it has come to, the path that is left and the number of
links it has followed. -/
structure Place where
  inum : Nat
  path : Text
  depth : Nat

/-- How a lookup ends: with an inode, with the path at which to go on, or with an error. -/
inductive Found where
  | inode (inum : Nat)
  | redirect (path : Text)
  | failed (code : Int)
deriving DecidableEq

/-- The start of `namei_from_checked`. -/
def enter (start : Nat) (path : Text) (depth : Nat) : Except Found Place :=
  if 8 < depth then .error (.failed eloop)
  else .ok ⟨if path.head? = some slash then rootino else start, path.dropWhile (· = slash), depth⟩

/-- The inode that a name leads to. -/
def Walk.next (k : Walk) (inum : Nat) (name : Text) : Except Int Nat :=
  if dirsiz < name.length then .error enametoolong
  else if k.volume.inodeType inum ≠ some .dir then .error enotdir
  else if k.searchable inum = false then .error eacces
  else if dirlookup k.volume inum name = 0 then .error enoent
  else .ok (dirlookup k.volume inum name)

/-- An inode is a link that is followed, as the last one of a path or before others. -/
def Walk.IsLink (k : Walk) (inum : Nat) (final : Prop) : Prop :=
  k.volume.inodeType inum = some .symlink ∧ (¬ final ∨ k.follow = true)

instance (k : Walk) (inum : Nat) (final : Prop) [Decidable final] : Decidable (k.IsLink inum final) :=
  inferInstanceAs (Decidable (_ ∧ _))

/-- A link with a target is met before the rest of a path. -/
def substitute (s : Place) (target rest : Text) : Except Found Place :=
  if initpathLen ≤ target.length then .error (.failed enametoolong)
  else if target.head? = some slash then .error (.redirect (combinedPath target rest))
  else enter s.inum (combinedPath target rest) (s.depth + 1)

/-- Another file system takes over the rest of a path. -/
def cross (mount rest : Text) : Found :=
  if rest = [] then .redirect mount
  else if mount.length + 1 + rest.length < initpathLen then .redirect (mount ++ slash :: rest)
  else .failed enametoolong

/-- One turn of the loop of `namei_from_checked`. -/
def Walk.turn (k : Walk) (s : Place) : Except Found Place :=
  if s.path = [] then .error (.inode s.inum)
  else
    let (name, rest) := splitComponent s.path
    match k.next s.inum name with
    | .error code => .error (.failed code)
    | .ok next =>
      if k.IsLink next (rest = []) then substitute s (k.volume.inodes next).target rest
      else
        match k.mountedPath next with
        | some mount => .error (cross mount.val rest)
        | none => .ok ⟨next, rest, s.depth⟩

/-- Turns, as many as are given at most. -/
def Walk.run (k : Walk) : Nat → Except Found Place → Option Found
  | _, .error found => some found
  | 0, .ok _ => none
  | turns + 1, .ok s => k.run turns (k.turn s)

/-- `namei_from_checked`. After a link there are at most 63 letters, one for every turn. -/
def Walk.namei (k : Walk) (start : Nat) (path : Text) : Option Found :=
  k.run (9 * initpathLen + path.length) (enter start path 0)

/-! ## Paths as lists of names -/

/-- The names in a path. -/
def components (path : Text) : List Text := (path.splitOn slash).filter (· ≠ [])

/-- What a list of names leads to: an inode, or names elsewhere. -/
inductive Goal where
  | inode (inum : Nat)
  | elsewhere (names : List Text)

/-- The resolution of a list of names from an inode. The names of a link's target take the
place of the link. -/
inductive Walk.Resolves (k : Walk) : Nat → List Text → Goal → Prop
  | done (inum : Nat) : k.Resolves inum [] (.inode inum)
  | pass {inum next : Nat} {name : Text} {names : List Text} {goal : Goal} :
    k.next inum name = .ok next → ¬ k.IsLink next (names = []) → k.mountedPath next = none →
    k.Resolves next names goal → k.Resolves inum (name :: names) goal
  | cross {inum next : Nat} {name : Text} {names : List Text} {mount} :
    k.next inum name = .ok next → ¬ k.IsLink next (names = []) → k.mountedPath next = some mount →
    k.Resolves inum (name :: names) (.elsewhere (components mount.val ++ names))
  | leave {inum next : Nat} {name : Text} {names : List Text} :
    k.next inum name = .ok next → k.IsLink next (names = []) →
    (k.volume.inodes next).target.head? = some slash →
    k.Resolves inum (name :: names) (.elsewhere (components (k.volume.inodes next).target ++ names))
  | link {inum next : Nat} {name : Text} {names : List Text} {goal : Goal} :
    k.next inum name = .ok next → k.IsLink next (names = []) →
    (k.volume.inodes next).target.head? ≠ some slash →
    k.Resolves inum (components (k.volume.inodes next).target ++ names) goal →
    k.Resolves inum (name :: names) goal

/-- The end of a lookup as a goal, unless it is an error. -/
def Found.goal : Found → Option Goal
  | .inode inum => some (.inode inum)
  | .redirect path => some (.elsewhere (components path))
  | .failed _ => none

theorem components_nil : components [] = [] := by
  simp [components]

theorem components_append (before after : Text) :
    components (before ++ slash :: after) = components before ++ components after := by
  simp [components, List.splitOn_append_cons_self]

/-- Slashes at the start of a path. -/
theorem components_slash (path : Text) : components (slash :: path) = components path := by
  have split := components_append [] path
  rwa [components_nil, List.nil_append, List.nil_append] at split

theorem components_drop_slashes (path : Text) :
    components (path.dropWhile (· = slash)) = components path := by
  induction path with
  | nil => rfl
  | cons letter path ih =>
    rw [List.dropWhile_cons]
    split
    case isTrue slashed =>
      rw [ih, of_decide_eq_true slashed, components_slash]
    case isFalse => rfl

/-- Slashes at the end of a path. -/
theorem components_append_slashes (path slashes : Text) (all : ∀ l ∈ slashes, l = slash) :
    components (path ++ slashes) = components path := by
  cases slashes with
  | nil => rw [List.append_nil]
  | cons letter slashes =>
    obtain rfl := all letter List.mem_cons_self
    have none : slashes.dropWhile (· = slash) = [] := by
      rw [List.dropWhile_eq_nil_iff]
      intro l listed
      exact decide_eq_true (all l (List.mem_cons_of_mem _ listed))
    rw [components_append, ← components_drop_slashes slashes, none, components_nil, List.append_nil]

/-- The letters of the names are the letters other than slashes. -/
theorem components_letters (path : Text) : (components path).flatten = path.filter (· ≠ slash) := by
  have letters : (path.splitOn slash).flatten = path.filter (· ≠ slash) := by
    induction path with
    | nil => simp
    | cons letter path ih =>
      rw [List.splitOn_cons_eq_if_modifyHead, List.filter_cons]
      by_cases slashed : letter = slash
      · rw [if_pos (beq_iff_eq.mpr slashed), if_neg (by simp [slashed])]
        exact ih
      obtain ⟨first, later, parts⟩ := List.exists_cons_of_ne_nil (List.splitOn_ne_nil slash path)
      rw [if_neg (mt beq_iff_eq.mp slashed), if_pos (by simp [slashed]), ← ih, parts]
      rfl
  rw [components, ← letters]
  exact List.flatten_filter_ne_nil

/-- The first name of a path that does not start with a slash, and the others. -/
theorem components_split (nonempty : path ≠ []) (plain : path.head? ≠ some slash) :
    components path = (splitComponent path).1 :: components (splitComponent path).2 := by
  obtain ⟨letter, path, rfl⟩ := List.exists_cons_of_ne_nil nonempty
  have other : letter ≠ slash := fun same => plain (congrArg some same)
  have named : (letter :: path).takeWhile (· ≠ slash) ≠ [] := by
    simp [other]
  have single : components ((letter :: path).takeWhile (· ≠ slash)) =
      [(letter :: path).takeWhile (· ≠ slash)] := by
    rw [components, List.splitOn_eq_singleton]
    · simp [other]
    · intro listed
      simpa using List.mem_takeWhile_imp listed
  have whole : (letter :: path).takeWhile (· ≠ slash) ++ (letter :: path).dropWhile (· ≠ slash) =
      letter :: path := List.takeWhile_append_dropWhile
  rw [splitComponent, components_drop_slashes]
  cases after : (letter :: path).dropWhile (· ≠ slash) with
  | nil =>
    rw [after, List.append_nil] at whole
    rw [components_nil, ← single, whole]
  | cons separator later =>
    have slashed : separator = slash := by
      have stopped := List.head?_dropWhile_not (· ≠ slash) (letter :: path)
      rw [after] at stopped
      simpa using stopped
    rw [after, slashed] at whole
    rw [slashed, components_slash]
    calc components (letter :: path)
        = components ((letter :: path).takeWhile (· ≠ slash)) ++ components later := by
          rw [← components_append, whole]
      _ = _ := by
          rw [single]
          rfl

theorem drop_slashes_plain (path : Text) : (path.dropWhile (· = slash)).head? ≠ some slash := by
  intro slashed
  have stopped := List.head?_dropWhile_not (· = slash) path
  rw [slashed] at stopped
  simp at stopped

/-- What is left after a name does not start with a slash. -/
theorem rest_plain (path : Text) : (splitComponent path).2.head? ≠ some slash :=
  drop_slashes_plain _

theorem components_eq_nil (plain : path.head? ≠ some slash) : components path = [] ↔ path = [] := by
  constructor
  · intro none
    by_contra nonempty
    rw [components_split nonempty plain] at none
    contradiction
  · rintro rfl
    exact components_nil

/-! ## Links -/

/-- A lookup meets a link with a target, and `rest` is left of the path after it. -/
def Walk.Meets (k : Walk) (s : Place) (target rest : Text) : Prop :=
  s.path ≠ [] ∧ (splitComponent s.path).2 = rest ∧
    ∃ next, k.next s.inum (splitComponent s.path).1 = .ok next ∧ k.IsLink next (rest = []) ∧
      (k.volume.inodes next).target = target

/-- A lookup that has met a link goes on with the target in the place of the link, or fails. -/
def Substituted (s : Place) (target rest : Text) : Except Found Place → Prop
  | .ok t => target.head? ≠ some slash ∧ t.inum = s.inum ∧
    components t.path = components target ++ components rest
  | .error (.redirect path) => target.head? = some slash ∧ path.head? = some slash ∧
    components path = components target ++ components rest
  | .error (.inode _) => False
  | .error (.failed _) => True

/-- A link can be followed in 63 letters, or the lookup fails at once. What does not fit are
slashes at the end only, and an empty target stands before nothing or in the root directory. -/
def Fits (s : Place) (target rest : Text) : Prop :=
  initpathLen ≤ target.length ∨ (8 ≤ s.depth ∧ target.head? ≠ some slash) ∨
    ((target ≠ [] ∨ rest = [] ∨ s.inum = rootino) ∧
      ∀ l ∈ rest.drop (initpathLen - 2 - target.length), l = slash)

theorem combined_names (target rest : Text) (short : target.length < initpathLen) :
    components (combinedPath target rest) = components target ++ components rest ↔
      ∀ l ∈ rest.drop (initpathLen - 2 - target.length), l = slash := by
  unfold combinedPath
  split
  case isTrue none => simp [none, components_nil]
  rename_i more
  have cut : (target ++ slash :: rest).drop (initpathLen - 1) =
      (slash :: rest).drop (initpathLen - 1 - target.length) := by
    rw [List.drop_append, List.drop_of_length_le (by omega), List.nil_append]
  have slashes : (∀ l ∈ (target ++ slash :: rest).drop (initpathLen - 1), l = slash) ↔
      ∀ l ∈ rest.drop (initpathLen - 2 - target.length), l = slash := by
    rw [cut]
    simp only [initpathLen] at *
    cases left : 64 - 1 - target.length with
    | zero => simp [show 64 - 2 - target.length = 0 by omega]
    | succ n => rw [List.drop_succ_cons, show 64 - 2 - target.length = n by omega]
  rw [← slashes, ← components_append]
  have whole : (target ++ slash :: rest).take (initpathLen - 1) ++
      (target ++ slash :: rest).drop (initpathLen - 1) = target ++ slash :: rest :=
    List.take_append_drop _ _
  constructor
  · intro same l listed
    have letters := congrArg List.flatten same
    rw [components_letters, components_letters, ← whole, List.filter_append, whole] at letters
    have none := List.append_right_eq_self.mp letters.symm
    simpa using List.filter_eq_nil_iff.mp none l listed
  · intro all
    have same := components_append_slashes ((target ++ slash :: rest).take (initpathLen - 1)) _ all
    rw [whole] at same
    exact same.symm

theorem combined_head (target rest : Text) :
    (combinedPath target rest).head? = some slash ↔
      target.head? = some slash ∨ target = [] ∧ rest ≠ [] := by
  unfold combinedPath
  split
  case isTrue none => simp [none]
  case isFalse more =>
    cases target with
    | nil => simp [initpathLen, more]
    | cons letter target => simp [initpathLen]

theorem turn_link (meets : k.Meets s target rest) : k.turn s = substitute s target rest := by
  obtain ⟨nonempty, rfl, next, found, link, rfl⟩ := meets
  simp only [Walk.turn, if_neg nonempty, found, if_pos link]

/-- A link is followed exactly if it fits. -/
theorem substituted_iff (meets : k.Meets s target rest) :
    Substituted s target rest (k.turn s) ↔ Fits s target rest := by
  rw [turn_link meets]
  unfold substitute Fits
  split
  case isTrue long => simp [Substituted, long]
  rename_i short
  have names := combined_names target rest (Nat.lt_of_not_le short)
  have heads := combined_head target rest
  split
  case isTrue absolute =>
    have nonempty : target ≠ [] := by
      rintro rfl
      contradiction
    simp only [Substituted, absolute, heads, names, short, true_or, true_and, false_or, ne_eq,
      not_true, and_false]
    exact ⟨fun all => ⟨.inl nonempty, all⟩, And.right⟩
  rename_i relative
  unfold enter
  split
  case isTrue deep =>
    simp only [Substituted, true_iff]
    exact .inr (.inl ⟨by omega, relative⟩)
  rename_i shallow
  have notDeep : ¬ 8 ≤ s.depth := by omega
  simp only [Substituted, components_drop_slashes, names, heads, relative, short, notDeep,
    false_or, ne_eq, not_false_eq_true, true_and, false_and]
  refine and_congr_left' ?_
  by_cases moved : target = [] ∧ rest ≠ []
  · rw [if_pos moved]
    simp [moved, eq_comm]
  · rw [if_neg moved]
    simp only [true_iff]
    tauto

/-! ## Whole lookups -/

/-- The number of turns that may be left. -/
def Place.left (s : Place) : Nat := (8 - s.depth) * initpathLen + s.path.length

theorem rest_shorter (nonempty : path ≠ []) (plain : path.head? ≠ some slash) :
    (splitComponent path).2.length < path.length := by
  obtain ⟨letter, path, rfl⟩ := List.exists_cons_of_ne_nil nonempty
  have other : letter ≠ slash := fun same => plain (congrArg some same)
  have first : (letter :: path).dropWhile (· ≠ slash) = path.dropWhile (· ≠ slash) := by
    rw [List.dropWhile_cons, if_pos (decide_eq_true other)]
  rw [splitComponent, first]
  have once := (List.dropWhile_suffix (l := path.dropWhile (· ≠ slash)) (· = slash)).length_le
  have twice := (List.dropWhile_suffix (l := path) (· ≠ slash)).length_le
  exact Nat.lt_succ_of_le (once.trans twice)

theorem substitute_left {t : Place} (nonempty : s.path ≠ [])
    (followed : substitute s target rest = .ok t) : t.left < s.left ∧ t.path.head? ≠ some slash := by
  unfold substitute enter at followed
  split at followed
  case isTrue => contradiction
  rename_i short
  split at followed
  case isTrue => contradiction
  split at followed
  case isTrue => contradiction
  rename_i shallow
  obtain rfl := Except.ok.inj followed
  refine ⟨?_, drop_slashes_plain _⟩
  have positive := List.length_pos_of_ne_nil nonempty
  have dropped := (List.dropWhile_suffix (l := combinedPath target rest) (· = slash)).length_le
  have combined : (combinedPath target rest).length < initpathLen := by
    unfold combinedPath
    split
    case isTrue => omega
    have taken := List.length_take_le (initpathLen - 1) (target ++ slash :: rest)
    simp only [initpathLen] at *
    omega
  simp only [Place.left, initpathLen] at *
  omega

theorem cross_goal {mount : Text} {goal : Goal} (ended : (cross mount rest).goal = some goal) :
    goal = .elsewhere (components mount ++ components rest) := by
  unfold cross at ended
  split at ended
  case isTrue none =>
    rw [none, components_nil, List.append_nil]
    exact (Option.some.inj ended).symm
  split at ended
  case isTrue =>
    rw [← components_append]
    exact (Option.some.inj ended).symm
  case isFalse => contradiction

/-- One turn: how it ends is what the names lead to, and where it goes on the names lead to the
same, with fewer turns left. -/
theorem turn_resolves (plain : s.path.head? ≠ some slash)
    (fit : ∀ target rest, k.Meets s target rest → Fits s target rest) :
    (∀ found goal, k.turn s = .error found → found.goal = some goal →
      k.Resolves s.inum (components s.path) goal) ∧
    ∀ t, k.turn s = .ok t → t.left < s.left ∧ t.path.head? ≠ some slash ∧
      ∀ goal, k.Resolves t.inum (components t.path) goal → k.Resolves s.inum (components s.path) goal := by
  by_cases done : s.path = []
  · have ended : k.turn s = .error (.inode s.inum) := if_pos done
    rw [ended, done, components_nil]
    refine ⟨fun found goal isFound reached => ?_, fun t going => by contradiction⟩
    obtain rfl := Except.error.inj isFound
    cases reached
    exact .done _
  have shorter := rest_shorter done plain
  have last : (components (splitComponent s.path).2 = []) = ((splitComponent s.path).2 = []) :=
    propext (components_eq_nil (rest_plain _))
  rw [components_split done plain]
  cases found : k.next s.inum (splitComponent s.path).1 with
  | error code =>
    have ended : k.turn s = .error (.failed code) := by
      simp only [Walk.turn, if_neg done, found]
    rw [ended]
    refine ⟨fun found goal isFound reached => ?_, fun t going => by contradiction⟩
    obtain rfl := Except.error.inj isFound
    contradiction
  | ok next =>
    by_cases link : k.IsLink next ((splitComponent s.path).2 = [])
    · have meets : k.Meets s (k.volume.inodes next).target (splitComponent s.path).2 :=
        ⟨done, rfl, next, found, link, rfl⟩
      have exact := (substituted_iff meets).mpr (fit _ _ meets)
      refine ⟨fun found goal isFound reached => ?_, fun t going => ?_⟩
      · rw [isFound] at exact
        cases found with
        | inode => exact exact.elim
        | failed => contradiction
        | redirect path =>
          cases reached
          rw [exact.2.2]
          exact .leave found (last ▸ link) exact.1
      · rw [going] at exact
        rw [turn_link meets] at going
        obtain ⟨fewer, plainAfter⟩ := substitute_left done going
        refine ⟨fewer, plainAfter, fun goal reached => ?_⟩
        rw [exact.2.1, exact.2.2] at reached
        exact .link found (last ▸ link) exact.1 reached
    · cases mounted : k.mountedPath next with
      | some mount =>
        have ended : k.turn s = .error (cross mount.val (splitComponent s.path).2) := by
          simp only [Walk.turn, if_neg done, found, if_neg link, mounted]
        rw [ended]
        refine ⟨fun found goal isFound reached => ?_, fun t going => by contradiction⟩
        obtain rfl := Except.error.inj isFound
        rw [cross_goal reached]
        exact .cross found (last ▸ link) mounted
      | none =>
        have going : k.turn s = .ok ⟨next, (splitComponent s.path).2, s.depth⟩ := by
          simp only [Walk.turn, if_neg done, found, if_neg link, mounted]
        rw [going]
        refine ⟨fun found goal isFound => by contradiction, fun t isNext => ?_⟩
        obtain rfl := Except.ok.inj isNext
        refine ⟨Nat.add_lt_add_left shorter _, rest_plain _, fun goal reached => ?_⟩
        exact .pass found (last ▸ link) mounted reached

/-- A place that a lookup comes to. -/
def Walk.Visits (k : Walk) : Place → Place → Prop :=
  Relation.ReflTransGen fun s t => k.turn s = .ok t

/-- A run of turns in which all links fit ends with an error or with what the names lead to. -/
theorem run_resolves (turns : Nat) (s : Place) (enough : s.left < turns)
    (plain : s.path.head? ≠ some slash)
    (fit : ∀ t, k.Visits s t → ∀ target rest, k.Meets t target rest → Fits t target rest) :
    ∃ found, k.run turns (.ok s) = some found ∧
      ∀ goal, found.goal = some goal → k.Resolves s.inum (components s.path) goal := by
  induction turns generalizing s with
  | zero => omega
  | succ turns ih =>
    have step := turn_resolves plain (fit s .refl)
    rw [Walk.run]
    cases turned : k.turn s with
    | error found =>
      refine ⟨found, by simp only [Walk.run], fun goal reached => ?_⟩
      exact step.1 found goal turned reached
    | ok t =>
      obtain ⟨fewer, plainAfter, back⟩ := step.2 t turned
      obtain ⟨found, ended, resolves⟩ := ih t (by omega) plainAfter
        fun later visited => fit later (.head turned visited)
      exact ⟨found, ended, fun goal reached => back goal (resolves goal reached)⟩

/-- A link that a lookup meets is replaced by its whole target, or the lookup fails, exactly if
the link fits; and a lookup in which every link fits ends with an error or with what the path
leads to. -/
theorem symbolic_links_exact_iff (k : Walk) :
    (∀ s target rest, k.Meets s target rest →
      (Substituted s target rest (k.turn s) ↔ Fits s target rest)) ∧
    ∀ start path,
      (∀ s t, enter start path 0 = .ok s → k.Visits s t →
        ∀ target rest, k.Meets t target rest → Fits t target rest) →
      ∃ found, k.namei start path = some found ∧ ∀ goal, found.goal = some goal →
        k.Resolves (if path.head? = some slash then rootino else start) (components path) goal := by
  refine ⟨fun s target rest => substituted_iff, fun start path fit => ?_⟩
  have dropped := (List.dropWhile_suffix (l := path) (· = slash)).length_le
  have result := run_resolves (9 * initpathLen + path.length)
    ⟨if path.head? = some slash then rootino else start, path.dropWhile (· = slash), 0⟩
    (by simp only [Place.left, initpathLen]; omega) (drop_slashes_plain _) (fit _ · rfl)
  rwa [components_drop_slashes] at result

/-! ## A link that is cut off -/

def letterD : Letter := ⟨100, by decide⟩
def letterL : Letter := ⟨108, by decide⟩
def letterX : Letter := ⟨120, by decide⟩
def letterY : Letter := ⟨121, by decide⟩

/-- A target of 61 letters that leads to `d`: the name and 30 times `/.`. -/
def longTarget : Text := letterD :: (List.replicate 30 [slash, period]).flatten

/-- The root directory has the link `l` and the directory `d` with the files `x` and `xy`. -/
def linkedWalk : Walk where
  volume :=
    { ninodes := 6
      tries := 0
      inodes := fun
        | 1 => ⟨some .dir, 3, [⟨1, dot⟩, ⟨1, dotdot⟩, ⟨2, [letterL]⟩, ⟨3, [letterD]⟩], []⟩
        | 2 => ⟨some .symlink, 1, [], longTarget⟩
        | 3 => ⟨some .dir, 2, [⟨3, dot⟩, ⟨1, dotdot⟩, ⟨4, [letterX]⟩, ⟨5, [letterX, letterY]⟩], []⟩
        | 4 | 5 => ⟨some .file, 1, [], []⟩
        | _ => freeInode }
  searchable _ := true
  mountedPath _ := none
  follow := true

theorem symbolic_links_exact_iff_at_link :
    Substituted ⟨rootino, [letterL, slash, letterX], 0⟩ longTarget [letterX]
        (linkedWalk.turn ⟨rootino, [letterL, slash, letterX], 0⟩) ↔
      Fits ⟨rootino, [letterL, slash, letterX], 0⟩ longTarget [letterX] :=
  (symbolic_links_exact_iff linkedWalk).1 _ _ _
    ⟨by decide, by decide, 2, by decide +kernel, by decide, rfl⟩

/-- With the link `l`, the path `/l/xy` leads to the file `x`. -/
theorem link_cut_off :
    linkedWalk.Meets ⟨rootino, [letterL, slash, letterX, letterY], 0⟩ longTarget [letterX, letterY] ∧
    ¬ Substituted ⟨rootino, [letterL, slash, letterX, letterY], 0⟩ longTarget [letterX, letterY]
      (linkedWalk.turn ⟨rootino, [letterL, slash, letterX, letterY], 0⟩) ∧
    linkedWalk.namei rootino [slash, letterL, slash, letterX, letterY] = some (.inode 4) ∧
    linkedWalk.namei rootino (longTarget ++ [slash, letterX, letterY]) = some (.inode 5) := by
  have meets : linkedWalk.Meets ⟨rootino, [letterL, slash, letterX, letterY], 0⟩ longTarget
      [letterX, letterY] := ⟨by decide, by decide, 2, by decide +kernel, by decide, rfl⟩
  refine ⟨meets, ?_, by decide +kernel, by decide +kernel⟩
  rw [substituted_iff meets]
  unfold Fits
  decide +kernel

end JsEmulator.Disk
