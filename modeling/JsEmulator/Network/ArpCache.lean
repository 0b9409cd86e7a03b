import JsEmulator.Network.Stack

/-!
# The ARP cache

`net_learn_arp` looks for an address, for a free slot and for a slot to give up in one pass over
the table. After any sequence of calls a slot in use holds what was learned last for its address,
and no other slot has the same address.
-/

namespace JsEmulator.Network

variable {s : Stack} {address i j : Nat} {mac : Buffer} {calls : List (Nat × Buffer)}

/-- A slot is in use for an address. -/
def ArpEntry.Holds (e : ArpEntry) (address : Nat) : Prop := e.used = true ∧ e.address = address

/-- The hardware address that the last call for an address has given. -/
def learnedLast (calls : List (Nat × Buffer)) (address : Nat) : Option Buffer :=
  (calls.reverse.find? fun call => call.1 == address).map Prod.snd

/-- A sequence of calls of `net_learn_arp`. -/
def learnAll (calls : List (Nat × Buffer)) (s : Stack) : Stack :=
  calls.foldl (fun s call => netLearnArp call.1 call.2 s) s

/-- What the cache holds after some calls. -/
structure Remembers (calls : List (Nat × Buffer)) (s : Stack) : Prop where
  single : ∀ i < 8, ∀ j < 8, (s.arp i).used = true → (s.arp j).Holds (s.arp i).address → i = j
  latest : ∀ i < 8, (s.arp i).used = true → ∃ mac, learnedLast calls (s.arp i).address = some mac ∧
    ∀ k < 6, (s.arp i).mac k = mac k

/-- The pass over the first slots ends with one that has the address, if there is one. -/
theorem slot_scan (s : Stack) (address n : Nat) :
    let found := (List.range n).foldl (fun slot i =>
      let slot := if (s.arp i).used ∧ (s.arp i).address = address then some i else slot
      if slot = none ∧ (s.arp i).used = false then some i else slot) none
    (∀ i ∈ found, i < n) ∧
      ((∃ i ∈ found, (s.arp i).Holds address) ∨ ∀ i < n, ¬ (s.arp i).Holds address) := by
  induction n with
  | zero => simp
  | succ n ih =>
    obtain ⟨inside, found⟩ := ih
    simp only [List.range_succ, List.foldl_append, List.foldl_cons, List.foldl_nil]
    generalize (List.range n).foldl _ none = slot at *
    by_cases here : (s.arp n).used = true ∧ (s.arp n).address = address
    · rw [if_pos here, if_neg (by simp)]
      exact ⟨by simp, .inl ⟨n, rfl, here⟩⟩
    rw [if_neg here]
    have rest : (∃ i ∈ slot, (s.arp i).Holds address) ∨ ∀ i < n + 1, ¬ (s.arp i).Holds address := by
      refine found.imp_right fun none i bound => ?_
      rcases Nat.lt_succ_iff_lt_or_eq.mp bound with before | rfl
      · exact none i before
      · exact here
    split_ifs with free
    · refine ⟨by simp, .inr (rest.resolve_left ?_)⟩
      rintro ⟨i, taken, -⟩
      rw [free.1] at taken
      cases taken
    · exact ⟨fun i taken => (inside i taken).trans (Nat.lt_succ_self n), rest⟩

/-- A call takes a slot, the one that holds the address if there is one. -/
theorem learn_spec (nonzero : address ≠ 0) (mac : Buffer) (s : Stack) :
    ∃ slot < 8, (netLearnArp address mac s).arp = Function.update s.arp slot
        ⟨true, address, copyBytes (s.arp slot).mac 0 6 mac⟩ ∧
      ((s.arp slot).Holds address ∨ ∀ i < 8, ¬ (s.arp i).Holds address) := by
  obtain ⟨inside, found⟩ := slot_scan s address 8
  rw [netLearnArp, if_neg nonzero]
  generalize (List.range 8).foldl _ none = slot at *
  refine ⟨slot.getD 0, ?_, rfl, ?_⟩
  · cases slot with
    | none => decide
    | some i => exact inside i rfl
  · rcases found with ⟨i, taken, holds⟩ | none
    · rw [Option.mem_def.mp taken]
      exact .inl holds
    · exact .inr none

theorem learnedLast_append (calls : List (Nat × Buffer)) (address other : Nat) (mac : Buffer) :
    learnedLast (calls ++ [(address, mac)]) other =
      if address = other then some mac else learnedLast calls other := by
  unfold learnedLast
  rw [List.reverse_append, List.reverse_singleton, List.singleton_append, List.find?_cons]
  by_cases same : address = other
  · simp [same]
  · simp [beq_eq_false_iff_ne.mpr same, same]

/-- One more call. -/
theorem learn_remembers (nonzero : address ≠ 0) (mac : Buffer) (remembers : Remembers calls s) :
    Remembers (calls ++ [(address, mac)]) (netLearnArp address mac s) := by
  obtain ⟨slot, bound, learned, chosen⟩ := learn_spec nonzero mac s
  have new : (netLearnArp address mac s).arp slot =
      ⟨true, address, copyBytes (s.arp slot).mac 0 6 mac⟩ := by rw [learned, Function.update_self]
  have old : ∀ i, i ≠ slot → (netLearnArp address mac s).arp i = s.arp i := fun i other => by
    rw [learned, Function.update_of_ne other]
  -- no other slot has the address that was learned
  have apart : ∀ i < 8, i ≠ slot → (s.arp i).used = true → (s.arp i).address ≠ address := by
    intro i inside other used same
    rcases chosen with holds | none
    · exact other (remembers.single i inside slot bound used (same ▸ holds))
    · exact none i inside ⟨used, same⟩
  refine ⟨fun i insideI j insideJ used holds => ?_, fun i inside used => ?_⟩
  · by_cases first : i = slot <;> by_cases second : j = slot
    · rw [first, second]
    · rw [first, new, old j second] at holds
      exact absurd holds.2 (apart j insideJ second holds.1)
    · rw [second, new, old i first] at holds
      exact absurd holds.2.symm (apart i insideI first (by rwa [old i first] at used))
    · rw [old i first] at used holds
      rw [old j second] at holds
      exact remembers.single i insideI j insideJ used holds
  · by_cases here : i = slot
    · rw [here, new]
      refine ⟨mac, by rw [learnedLast_append, if_pos rfl], fun k short => ?_⟩
      exact if_pos (by omega)
    · rw [old i here] at used ⊢
      rw [learnedLast_append, if_neg (apart i inside here used).symm]
      exact remembers.latest i inside used

/-- Any number of calls, from the table that `network_init` leaves. -/
theorem learnAll_remembers (empty : ∀ i < 8, (s.arp i).used = false)
    (nonzero : ∀ call ∈ calls, call.1 ≠ 0) : Remembers calls (learnAll calls s) := by
  induction calls using List.reverseRecOn with
  | nil =>
    refine ⟨fun i inside _ _ used => ?_, fun i inside used => ?_⟩ <;>
      simp [learnAll, empty i inside] at used
  | append_singleton earlier call ih =>
    rw [learnAll, List.foldl_append]
    exact learn_remembers (nonzero call (by simp)) call.2
      (ih fun other member => nonzero other (by simp [member]))

/-- What is looked up is in a slot that holds the address. -/
theorem lookup_some (found : netLookupArp address s = some mac) :
    ∃ i < 8, (s.arp i).Holds address ∧ mac = (s.arp i).mac := by
  obtain ⟨i, listed, rfl⟩ := Option.map_eq_some_iff.mp found
  have holds := List.find?_some listed
  simp only [Bool.and_eq_true, beq_iff_eq] at holds
  exact ⟨i, List.mem_range.mp (List.mem_of_find?_eq_some listed), holds, rfl⟩

/-- After every sequence of calls no two slots hold one address; what is looked up for an address is
what was learned last for it; and the address of the last call is found. -/
theorem arp_cache_latest {s : Stack} (empty : ∀ i < 8, (s.arp i).used = false)
    {calls : List (Nat × Buffer)} (nonzero : ∀ call ∈ calls, call.1 ≠ 0) :
    (∀ address, ∀ i < 8, ∀ j < 8, ((learnAll calls s).arp i).Holds address →
      ((learnAll calls s).arp j).Holds address → i = j) ∧
    (∀ address found, netLookupArp address (learnAll calls s) = some found →
      ∃ mac, learnedLast calls address = some mac ∧ ∀ k < 6, found k = mac k) ∧
    ∀ call, calls.getLast? = some call →
      ∃ found, netLookupArp call.1 (learnAll calls s) = some found ∧ ∀ k < 6, found k = call.2 k := by
  have remembers := learnAll_remembers empty nonzero
  have latest : ∀ address found, netLookupArp address (learnAll calls s) = some found →
      ∃ mac, learnedLast calls address = some mac ∧ ∀ k < 6, found k = mac k := by
    intro address found listed
    obtain ⟨i, inside, ⟨used, rfl⟩, rfl⟩ := lookup_some listed
    exact remembers.latest i inside used
  refine ⟨?_, latest, fun call last => ?_⟩
  · rintro address i insideI j insideJ ⟨used, rfl⟩ holds
    exact remembers.single i insideI j insideJ used holds
  · obtain ⟨earlier, rfl⟩ := List.getLast?_eq_some_iff.mp last
    have listed : netLookupArp call.1 (learnAll (earlier ++ [call]) s) ≠ none := by
      obtain ⟨slot, bound, learned, -⟩ := learn_spec (nonzero call (by simp)) call.2 (learnAll earlier s)
      have path : learnAll (earlier ++ [call]) s = netLearnArp call.1 call.2 (learnAll earlier s) := by
        rw [learnAll, List.foldl_append]
        rfl
      rw [path, netLookupArp, Ne, Option.map_eq_none_iff, List.find?_eq_none]
      intro none
      have here := none slot (List.mem_range.mpr bound)
      rw [learned, Function.update_self] at here
      simp at here
    obtain ⟨found, listed⟩ := Option.ne_none_iff_exists'.mp listed
    obtain ⟨mac, same, bytes⟩ := latest call.1 found listed
    rw [learnedLast_append, if_pos rfl] at same
    cases same
    exact ⟨found, listed, bytes⟩

/-- Nine addresses do not fit the table, but the last of them is found. -/
theorem arp_cache_latest_nine : ∃ found, netLookupArp 9 (learnAll
    ((List.range 9).map fun n => (n + 1, fun _ => BitVec.ofNat 8 n)) networkInit) = some found ∧
      ∀ k < 6, found k = 8 :=
  (arp_cache_latest (fun _ _ => rfl) (by simp)).2.2 (9, fun _ => 8) rfl

end JsEmulator.Network
