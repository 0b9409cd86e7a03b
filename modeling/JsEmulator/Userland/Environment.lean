import JsEmulator.Userland.Comparisons

/-!
# The environment

`environ` is an array of strings, as `exec` or the calls of the C library have left it. `getenv`
takes the first entry of a name, `putenv` replaces the last one, and `unsetenv` removes all.

What a program sees is a map from names to values. Each call is compared with the change of the map
that it stands for, in every state.
-/

namespace JsEmulator.Userland.Environment

open JsEmulator.Library.WordMemory (Byte)
open JsEmulator.Userland.Comparisons

variable {name : CString} {i : Nat}

/-! ## The calls -/

/-- The bytes of a string up to its terminator. -/
abbrev CString := { text : List Byte // 0 ∉ text }

/-- The character `=`. -/
def equals : Byte := 61

/-- `env_name_length`. -/
def envNameLength : List Byte → Nat
  | [] => 0
  | x :: xs => if x = equals then 0 else envNameLength xs + 1

/-- The test of all loops: the name of an entry is the string given, up to a length. -/
def named (name : List Byte) (length : Nat) (entry : CString) : Bool :=
  envNameLength entry.1 = length ∧ strncmp (cstring entry.1) (cstring name) length = 0

/-- The pointer `environ[i] + length + 1`. -/
structure Pointer where
  entry : CString
  offset : Nat
  deriving DecidableEq

/-- The string that a pointer leads to, if it is inside its entry. -/
def Pointer.text (p : Pointer) : Option (List Byte) :=
  if p.offset ≤ p.entry.1.length then some (p.entry.1.drop p.offset) else none

/-- The loop of `getenv`. -/
def getenvFrom (name : CString) : List CString → Option Pointer
  | [] => none
  | entry :: rest =>
    if named name.1 name.1.length entry then some ⟨entry, name.1.length + 1⟩
    else getenvFrom name rest

/-- The entries of the array; there are none while `environ` is null. -/
def entries (environ : Option (List CString)) : List CString := environ.getD []

def getenv (environ : Option (List CString)) (name : CString) : Option Pointer :=
  getenvFrom name (entries environ)

/-- The first loop of `putenv`: the last index at which the name stands, or the one given. -/
def replaceFrom (entry : CString) : List CString → Nat → Option Nat → Option Nat
  | [], _, replace => replace
  | old :: rest, i, replace =>
    replaceFrom entry rest (i + 1)
      (if named entry.1 (envNameLength entry.1) old then some i else replace)

/-- What a call returns and leaves: its result, the number it stores in `errno` if it does, and the
array. -/
structure Outcome where
  result : Int
  errno : Option Int := none
  environ : Option (List CString)

/-- `putenv`, with the answer of `malloc`. -/
def putenv (entry : CString) (available : Bool) (environ : Option (List CString)) : Outcome :=
  if available then
    match replaceFrom entry (entries environ) 0 none with
    | some i => { result := 0, environ := some ((entries environ).set i entry) }
    | none => { result := 0, environ := some (entries environ ++ [entry]) }
  else { result := -1, environ }

/-- `name=value`. -/
def joined (name value : CString) : CString :=
  ⟨name.1 ++ equals :: value.1, by
    have first := name.2
    have second := value.2
    simp only [List.mem_append, List.mem_cons, not_or]
    exact ⟨first, by decide, second⟩⟩

/-- `setenv`, with the answers of `malloc` for the entry and for the array. -/
def setenv (name value : CString) (overwrite : Int) (entryAvailable available : Bool)
    (environ : Option (List CString)) : Outcome :=
  if equals ∈ name.1 ∨ name.1 = [] then { result := -1, errno := some 22, environ }
  else if overwrite = 0 ∧ (getenv environ name).isSome then { result := 0, environ }
  else if entryAvailable then putenv (joined name value) available environ
  else { result := -1, environ }

/-- `unsetenv`, with the answer of `malloc`. -/
def unsetenv (name : CString) (available : Bool) (environ : Option (List CString)) : Outcome :=
  if available then
    { result := 0
      environ := some ((entries environ).filter fun entry => !named name.1 name.1.length entry) }
  else { result := -1, environ }

/-! ## Names -/

/-- The name of an entry. -/
def nameOf (entry : CString) : List Byte := entry.1.take (envNameLength entry.1)

theorem envNameLength_le (entry : List Byte) : envNameLength entry ≤ entry.length := by
  induction entry with
  | nil => exact Nat.le_refl 0
  | cons x xs ih =>
    rw [envNameLength, List.length_cons]
    split_ifs <;> omega

theorem envNameLength_joined {name : List Byte} (plain : equals ∉ name) (value : List Byte) :
    envNameLength (name ++ equals :: value) = name.length := by
  induction name with
  | nil => simp [envNameLength]
  | cons x xs ih =>
    rw [List.mem_cons, not_or] at plain
    rw [List.cons_append, envNameLength, if_neg (Ne.symm plain.1), ih plain.2, List.length_cons]

theorem nameOf_joined {value : CString} (plain : equals ∉ name.1) :
    nameOf (joined name value) = name.1 := by
  rw [nameOf, joined, envNameLength_joined plain, List.take_left]

theorem textFrom_of_getD {a : Nat → Byte} {xs : List Byte} (standing : ∀ k, a (i + k) = xs.getD k 0)
    (nonzero : 0 ∉ xs) : TextFrom a i xs := by
  induction xs generalizing i with
  | nil => exact standing 0
  | cons x xs ih =>
    rw [List.mem_cons, not_or] at nonzero
    refine ⟨standing 0, Ne.symm nonzero.1, ih (fun k => ?_) nonzero.2⟩
    have next := standing (k + 1)
    rw [Nat.add_comm k, ← Nat.add_assoc] at next
    rw [next, Nat.add_comm 1, List.getD_cons_succ]

theorem textFrom_cstring (text : CString) : TextFrom (cstring text.1) 0 text.1 :=
  textFrom_of_getD (fun k => by rw [Nat.zero_add]; rfl) text.2

theorem lexicographic_eq_zero {key : Byte → Int} (injective : Function.Injective key)
    (xs ys : List Byte) : lexicographic key xs ys = 0 ↔ xs = ys := by
  induction xs generalizing ys with
  | nil => cases ys <;> simp [lexicographic]
  | cons x xs ih =>
    cases ys with
    | nil => simp [lexicographic]
    | cons y ys =>
      rw [lexicographic, List.cons.injEq]
      split_ifs with same
      · rw [ih, injective same]
        simp
      have differ : x ≠ y := fun equal => same (congrArg key equal)
      rw [Int.sign_eq_zero_iff_zero]
      simp only [differ, false_and, iff_false]
      omega

/-- `strncmp` finds no difference within two strings that are long enough. -/
theorem strncmp_eq_zero {left right : CString} {n : Nat} (inLeft : n ≤ left.1.length)
    (inRight : n ≤ right.1.length) :
    strncmp (cstring left.1) (cstring right.1) n = 0 ↔ left.1.take n = right.1.take n := by
  rw [strncmp, ← Int.sign_eq_zero_iff_zero, Int.toNat_natCast,
    strncmp_sign n (textFrom_cstring left) (textFrom_cstring right),
    lexicographic_eq_zero (fun _ _ => BitVec.eq_of_toInt_eq), limited, limited,
    List.take_append_of_le_length inLeft, List.take_append_of_le_length inRight]

/-- A name is found where it is the name of the entry. -/
theorem named_iff {text : CString} {length : Nat} (inside : length ≤ text.1.length) (entry : CString) :
    named text.1 length entry = true ↔ nameOf entry = text.1.take length := by
  have shorter := envNameLength_le entry.1
  unfold named nameOf
  rw [decide_eq_true_iff]
  constructor
  · rintro ⟨rfl, same⟩
    exact (strncmp_eq_zero shorter inside).mp same
  · intro same
    have size := congrArg List.length same
    rw [List.length_take, List.length_take, Nat.min_eq_left shorter, Nat.min_eq_left inside] at size
    subst size
    exact ⟨rfl, (strncmp_eq_zero shorter inside).mpr same⟩

/-! ## The loops -/

theorem getenv_eq (environ : Option (List CString)) (name : CString) :
    getenv environ name = ((entries environ).find? fun entry => nameOf entry = name.1).map
      fun entry => ⟨entry, name.1.length + 1⟩ := by
  unfold getenv
  induction entries environ with
  | nil => rfl
  | cons entry rest ih =>
    have test := named_iff (Nat.le_refl name.1.length) entry
    rw [List.take_length] at test
    rw [getenvFrom, List.find?_cons, ih]
    by_cases same : nameOf entry = name.1
    · simp [test.mpr same, same]
    · simp [same, test]

/-- The last place at which a test holds. -/
def lastIndex (test : CString → Bool) : List CString → Option Nat
  | [] => none
  | entry :: rest =>
    match lastIndex test rest with
    | some i => some (i + 1)
    | none => if test entry then some 0 else none

theorem replaceFrom_eq (entry : CString) (olds : List CString) (i : Nat) (replace : Option Nat) :
    replaceFrom entry olds i replace =
      match lastIndex (fun old => nameOf old = nameOf entry) olds with
      | some k => some (i + k)
      | none => replace := by
  induction olds generalizing i replace with
  | nil => rfl
  | cons old rest ih =>
    have test : named entry.1 (envNameLength entry.1) old = decide (nameOf old = nameOf entry) := by
      rw [Bool.eq_iff_iff, named_iff (envNameLength_le entry.1), decide_eq_true_iff]
      rfl
    rw [replaceFrom, ih, lastIndex, test]
    cases lastIndex (fun old => decide (nameOf old = nameOf entry)) rest with
    | some k => simp only [Nat.add_comm k, Nat.add_assoc]
    | none =>
      by_cases same : nameOf old = nameOf entry <;> simp [same]

theorem lastIndex_none_iff (p : CString → Bool) (olds : List CString) :
    lastIndex p olds = none ↔ olds.filter p = [] := by
  induction olds with
  | nil => simp [lastIndex]
  | cons old rest ih =>
    rw [lastIndex, List.filter_cons]
    cases found : lastIndex p rest with
    | some k =>
      have some : rest.filter p ≠ [] := fun empty => by
        rw [← ih, found] at empty
        cases empty
      by_cases holds : p old <;> simp [holds, some]
    | none =>
      have none := ih.mp found
      by_cases holds : p old <;> simp [holds, none]

/-- Replacing the last entry of a name shows in a search for that name only if it is the only
one. -/
theorem find_set_last {p : CString → Bool} {olds : List CString} {entry : CString}
    (last : lastIndex p olds = some i) (holds : p entry = true) :
    (olds.set i entry).find? p = if (olds.filter p).length ≤ 1 then some entry else olds.find? p := by
  induction olds generalizing i with
  | nil => cases last
  | cons old rest ih =>
    rw [lastIndex] at last
    cases found : lastIndex p rest with
    | some k =>
      rw [found] at last
      cases last
      have more : rest.filter p ≠ [] := fun empty => by
        rw [← lastIndex_none_iff, found] at empty
        cases empty
      have size := List.length_pos_of_ne_nil more
      rw [List.set_cons_succ, List.find?_cons, List.filter_cons, List.find?_cons, ih found]
      by_cases first : p old
      · simp only [first, if_true, List.length_cons]
        rw [if_neg (by omega)]
      · simp only [first, Bool.false_eq_true, if_false]
    | none =>
      rw [found] at last
      have none := (lastIndex_none_iff p rest).mp found
      by_cases first : p old
      · simp only [first, if_true, Option.some.injEq] at last
        subst last
        simp [holds, first, none]
      · simp [first] at last

/-- Other searches do not see it. -/
theorem find_set_other {p q : CString → Bool} {olds : List CString} {entry : CString}
    (last : lastIndex p olds = some i) (apart : ∀ old, p old = true → q old = false)
    (fails : q entry = false) : (olds.set i entry).find? q = olds.find? q := by
  induction olds generalizing i with
  | nil => cases last
  | cons old rest ih =>
    rw [lastIndex] at last
    cases found : lastIndex p rest with
    | some k =>
      rw [found] at last
      cases last
      rw [List.set_cons_succ, List.find?_cons, List.find?_cons, ih found]
    | none =>
      rw [found] at last
      by_cases first : p old
      · simp only [first, if_true, Option.some.injEq] at last
        subst last
        rw [List.set_cons_zero, List.find?_cons, List.find?_cons, fails, apart old first]
      · simp [first] at last

/-! ## The map -/

/-- What a program sees: for every name whether there is a value, and which. -/
def view (environ : Option (List CString)) (name : CString) : Option (Option (List Byte)) :=
  (getenv environ name).map Pointer.text

/-- How many entries have a name. -/
def count (environ : Option (List CString)) (name : CString) : Nat :=
  ((entries environ).filter fun entry => nameOf entry = name.1).length

/-- A call that changes the environment, with the answers of `malloc`. The string given to `putenv`
is a name without `=`, that character and a value. -/
inductive Call where
  | setenv (name value : CString) (overwrite : Int) (entryAvailable available : Bool)
  | putenv (name value : CString) (plain : equals ∉ name.1) (available : Bool)
  | unsetenv (name : CString) (available : Bool)

def Call.outcome (environ : Option (List CString)) : Call → Outcome
  | .setenv name value overwrite entryAvailable available =>
    Environment.setenv name value overwrite entryAvailable available environ
  | .putenv name value _ available => Environment.putenv (joined name value) available environ
  | .unsetenv name available => Environment.unsetenv name available environ

/-- What a successful call does to a map. -/
def Call.meaning (map : CString → Option (Option (List Byte))) :
    Call → CString → Option (Option (List Byte))
  | .setenv name value overwrite _ _ =>
    if overwrite = 0 ∧ (map name).isSome then map
    else Function.update map name (some (some value.1))
  | .putenv name value _ _ => Function.update map name (some (some value.1))
  | .unsetenv name _ => Function.update map name none

/-- A call does to what the program sees what it means, if it succeeds, and nothing if not. -/
def Call.ActsOnMap (call : Call) (environ : Option (List CString)) : Prop :=
  view (call.outcome environ).environ =
    if (call.outcome environ).result = 0 then call.meaning (view environ) else view environ

/-- A value put under a name that has several entries is not found, unless it is there already. -/
def Settled (environ : Option (List CString)) (name value : CString) : Prop :=
  count environ name ≤ 1 ∨ view environ name = some (some value.1)

/-- The calls for which this matters. -/
def Call.Meets (environ : Option (List CString)) : Call → Prop
  | .setenv name value overwrite entryAvailable available =>
    equals ∉ name.1 → name.1 ≠ [] → overwrite ≠ 0 → entryAvailable = true → available = true →
      Settled environ name value
  | .putenv name value _ available => available = true → Settled environ name value
  | .unsetenv _ _ => True

theorem view_eq (environ : Option (List CString)) (name : CString) :
    view environ name = ((entries environ).find? fun entry => nameOf entry = name.1).map
      fun entry => Pointer.text ⟨entry, name.1.length + 1⟩ := by
  rw [view, getenv_eq, Option.map_map]
  rfl

theorem view_unset (environ : Option (List CString)) (name : CString) :
    view (some ((entries environ).filter fun entry => !named name.1 name.1.length entry)) =
      Function.update (view environ) name none := by
  have test : ∀ entry, named name.1 name.1.length entry = decide (nameOf entry = name.1) := by
    intro entry
    rw [Bool.eq_iff_iff, named_iff (Nat.le_refl _), List.take_length, decide_eq_true_iff]
  funext other
  rw [view_eq, entries, Option.getD_some, List.find?_filter, Function.update_apply]
  by_cases same : other = name
  · subst same
    rw [if_pos rfl, List.find?_eq_none.mpr, Option.map_none]
    intro entry _
    simp [test]
  · have differ : other.1 ≠ name.1 := fun equal => same (Subtype.ext equal)
    rw [if_neg same, view_eq]
    congr 2
    funext entry
    by_cases found : nameOf entry = other.1 <;> simp [test, found, differ]

theorem text_joined (name value : CString) :
    Pointer.text ⟨joined name value, name.1.length + 1⟩ = some value.1 := by
  have room : name.1.length + 1 ≤ (joined name value).1.length := by
    simp [joined]
  have rest : (joined name value).1.drop (name.1.length + 1) = value.1 := by
    rw [joined, ← List.drop_drop, List.drop_left]
    rfl
  rw [Pointer.text, if_pos room, rest]

/-- What `putenv` does to the map: the value is seen if the name had at most one entry. -/
theorem view_put (environ : Option (List CString)) (value : CString) (plain : equals ∉ name.1) :
    view (putenv (joined name value) true environ).environ =
      Function.update (view environ) name
        (if count environ name ≤ 1 then some (some value.1) else view environ name) := by
  have own : nameOf (joined name value) = name.1 := nameOf_joined plain
  funext other
  rw [Function.update_apply, putenv, if_pos rfl, replaceFrom_eq, own]
  cases found : lastIndex (fun old => decide (nameOf old = name.1)) (entries environ) with
  | none =>
    have empty := (lastIndex_none_iff _ _).mp found
    have absent : (entries environ).find? (fun entry => decide (nameOf entry = name.1)) = none := by
      rw [List.find?_eq_none]
      intro entry member holds
      exact List.filter_eq_nil_iff.mp empty entry member holds
    have few : count environ name ≤ 1 := by
      rw [count, empty]
      decide
    rw [view_eq, entries, Option.getD_some, List.find?_append]
    by_cases same : other = name
    · subst same
      rw [if_pos rfl, if_pos few, absent, Option.none_or, List.find?_singleton, own,
        if_pos (by simp), Option.map_some, text_joined]
    · have differ : name.1 ≠ other.1 := fun equal => same (Subtype.ext equal.symm)
      rw [if_neg same, view_eq, List.find?_singleton, own, if_neg (by simpa using differ),
        Option.or_none]
  | some i =>
    rw [view_eq, entries, Option.getD_some]
    by_cases same : other = name
    · subst same
      rw [if_pos rfl, Nat.zero_add, find_set_last found (by simp [own]), count, view_eq]
      split_ifs
      · rw [Option.map_some, text_joined]
      · rfl
    · have differ : name.1 ≠ other.1 := fun equal => same (Subtype.ext equal.symm)
      rw [if_neg same, view_eq, Nat.zero_add, find_set_other found]
      · intro old holds
        rw [decide_eq_true_iff] at holds
        rw [holds]
        exact decide_eq_false differ
      · rw [own]
        exact decide_eq_false differ

theorem update_put_iff (environ : Option (List CString)) (name value : CString) :
    Function.update (view environ) name
        (if count environ name ≤ 1 then some (some value.1) else view environ name) =
      Function.update (view environ) name (some (some value.1)) ↔ Settled environ name value := by
  unfold Settled
  constructor
  · intro same
    have there := congrFun same name
    rw [Function.update_self, Function.update_self] at there
    split_ifs at there with few
    · exact .inl few
    · exact .inr there
  · rintro (few | there)
    · rw [if_pos few]
    · rw [there, ite_self]

theorem putenv_result (entry : CString) (environ : Option (List CString)) :
    (putenv entry true environ).result = 0 := by
  rw [putenv, if_pos rfl]
  split <;> rfl

theorem settled_of_absent {environ : Option (List CString)} (value : CString)
    (absent : view environ name = none) : Settled environ name value := by
  rw [view_eq, Option.map_eq_none_iff, List.find?_eq_none] at absent
  have empty : (entries environ).filter (fun entry => nameOf entry = name.1) = [] :=
    List.filter_eq_nil_iff.mpr absent
  refine .inl ?_
  rw [count, empty]
  decide

/-- A call acts on the map exactly if it meets the condition. -/
theorem actsOnMap_iff (call : Call) (environ : Option (List CString)) :
    call.ActsOnMap environ ↔ call.Meets environ := by
  unfold Call.ActsOnMap
  cases call with
  | unsetenv name available =>
    refine iff_of_true ?_ trivial
    cases available with
    | false => rfl
    | true => exact view_unset environ name
  | putenv name value plain available =>
    show view (putenv (joined name value) available environ).environ =
      (if (putenv (joined name value) available environ).result = 0 then
        Function.update (view environ) name (some (some value.1)) else view environ) ↔
      (available = true → Settled environ name value)
    cases available with
    | false => exact iff_of_true rfl (fun true => by cases true)
    | true =>
      rw [if_pos (putenv_result _ _), view_put environ value plain, update_put_iff]
      exact ⟨fun settled _ => settled, fun meets => meets rfl⟩
  | setenv name value overwrite entryAvailable available =>
    show view (setenv name value overwrite entryAvailable available environ).environ =
      (if (setenv name value overwrite entryAvailable available environ).result = 0 then
        (if overwrite = 0 ∧ (view environ name).isSome then view environ
          else Function.update (view environ) name (some (some value.1))) else view environ) ↔
      (equals ∉ name.1 → name.1 ≠ [] → overwrite ≠ 0 → entryAvailable = true → available = true →
        Settled environ name value)
    have seen : (getenv environ name).isSome = (view environ name).isSome := by
      rw [view, Option.isSome_map]
    unfold setenv
    by_cases refused : equals ∈ name.1 ∨ name.1 = []
    · rw [if_pos refused]
      refine iff_of_true rfl fun plain given => ?_
      exact (refused.elim plain given).elim
    obtain ⟨plain, given⟩ := not_or.mp refused
    rw [if_neg refused, seen]
    by_cases kept : overwrite = 0 ∧ (view environ name).isSome
    · rw [if_pos kept, if_pos kept]
      exact iff_of_true rfl fun _ _ replacing => absurd kept.1 replacing
    rw [if_neg kept, if_neg kept]
    cases entryAvailable with
    | false => exact iff_of_true rfl fun _ _ _ true => by cases true
    | true =>
      cases available with
      | false => exact iff_of_true rfl fun _ _ _ _ true => by cases true
      | true =>
        rw [if_pos rfl, if_pos (putenv_result _ _), view_put environ value plain, update_put_iff]
        refine ⟨fun settled _ _ _ _ _ => settled, fun meets => ?_⟩
        by_cases replacing : overwrite = 0
        · refine settled_of_absent value ?_
          rw [not_and, Bool.not_eq_true, Option.isSome_eq_false_iff,
            Option.isNone_iff_eq_none] at kept
          exact kept replacing
        · exact meets plain given replacing rfl rfl

/-! ## Runs -/

/-- Every call of a run acts on the map. -/
def IsMap (environ : Option (List CString)) : List Call → Prop
  | [] => True
  | call :: calls => call.ActsOnMap environ ∧ IsMap (call.outcome environ).environ calls

/-- Every call of a run meets the condition where it is made. -/
def MeetsAll (environ : Option (List CString)) : List Call → Prop
  | [] => True
  | call :: calls => call.Meets environ ∧ MeetsAll (call.outcome environ).environ calls

/-- The environment is a map throughout a run exactly if no value is put under a name that has
several entries, but for the value that it has. -/
theorem environment_is_map_iff (environ : Option (List CString)) (calls : List Call) :
    IsMap environ calls ↔ MeetsAll environ calls := by
  induction calls generalizing environ with
  | nil => exact Iff.rfl
  | cons call calls ih =>
    exact and_congr (actsOnMap_iff call environ) (ih _)

/-- `A=1` and `A=2` as `exec` may hand them over. -/
def twice : Option (List CString) := some [⟨[65, 61, 49], by decide⟩, ⟨[65, 61, 50], by decide⟩]

/-- `setenv("A", "3", 1)` succeeds and replaces the second entry; `getenv("A")` returns the first. -/
theorem setenv_leaves_first_duplicate :
    let after := setenv ⟨[65], by decide⟩ ⟨[51], by decide⟩ 1 true true twice
    after.result = 0 ∧ (getenv after.environ ⟨[65], by decide⟩).map Pointer.text = some (some [49]) := by
  decide

end JsEmulator.Userland.Environment
