import Mathlib.Data.List.Perm.Basic
import Mathlib.Data.List.Nodup
import Mathlib.Data.List.Sublists

/-!
# A queue of requests that coalesce

Requests for items wait in a queue until they are taken, first come first served. A request for
an item that is waiting already is not queued again, and the request for an item can be
withdrawn.

The history of a queue gives every request that is queued a ticket with its time. Each ticket is
taken, withdrawn or still waiting, exactly one of these, and tickets are taken in the order of
their times.
-/

namespace JsEmulator.Library.RequestQueue

variable {α : Type} [DecidableEq α]

/-- What happens to a queue. -/
inductive Act (α : Type) where
  | request (a : α)
  | withdraw (a : α)
  | take
  | clear

/-- The items that wait after an act. -/
def next (queue : List α) : Act α → List α
  | .request a => if a ∈ queue then queue else queue ++ [a]
  | .withdraw a => queue.erase a
  | .take => queue.tail
  | .clear => []

/-- A request that was queued. -/
structure Ticket (α : Type) where
  time : Nat
  item : α

/-- The tickets given out so far, in the order of their times, and what has become of them. -/
structure History (α : Type) where
  now : Nat
  queued : List (Ticket α)
  waiting : List (Ticket α)
  taken : List (Ticket α)
  withdrawn : List (Ticket α)

variable {h : History α}

namespace History

def empty : History α := ⟨0, [], [], [], []⟩

/-- The history after an act. -/
def next (h : History α) : Act α → History α
  | .request a =>
    if a ∈ h.waiting.map Ticket.item then { h with now := h.now + 1 }
    else { h with
      now := h.now + 1
      queued := h.queued ++ [⟨h.now, a⟩]
      waiting := h.waiting ++ [⟨h.now, a⟩] }
  | .withdraw a =>
    { h with
      now := h.now + 1
      waiting := h.waiting.filter fun t => t.item ≠ a
      withdrawn := h.withdrawn ++ h.waiting.filter fun t => t.item = a }
  | .take =>
    match h.waiting with
    | [] => { h with now := h.now + 1 }
    | t :: rest => { h with now := h.now + 1, waiting := rest, taken := h.taken ++ [t] }
  | .clear => { h with now := h.now + 1, waiting := [], withdrawn := h.withdrawn ++ h.waiting }

def after (acts : List (Act α)) : History α := acts.foldl next empty

/-- Every ticket has one fate, and the order of the tickets is that of their requests. -/
structure Faithful (h : History α) : Prop where
  past : ∀ t ∈ h.queued, t.time < h.now
  ordered : h.queued.Pairwise fun t u => t.time < u.time
  kept : h.queued.Perm (h.withdrawn ++ (h.taken ++ h.waiting))
  served : (h.taken ++ h.waiting).Sublist h.queued
  single : (h.waiting.map Ticket.item).Nodup

omit [DecidableEq α] in
theorem faithful_empty : (empty : History α).Faithful where
  past := by simp [empty]
  ordered := List.Pairwise.nil
  kept := .refl _
  served := .refl _
  single := List.nodup_nil

omit [DecidableEq α] in
/-- Only the time goes on. -/
theorem Faithful.later (faithful : h.Faithful) : Faithful { h with now := h.now + 1 } :=
  ⟨fun t member => Nat.lt_succ_of_lt (faithful.past t member), faithful.ordered, faithful.kept,
    faithful.served, faithful.single⟩

theorem Faithful.next (faithful : h.Faithful) (act : Act α) : (h.next act).Faithful := by
  cases act with
  | request a =>
    unfold History.next
    dsimp only
    split_ifs with waits
    · exact faithful.later
    refine ⟨fun t member => ?_, ?_, ?_, ?_, ?_⟩
    · rcases List.mem_append.mp member with old | new
      · exact Nat.lt_succ_of_lt (faithful.past t old)
      · rw [List.mem_singleton.mp new]
        exact Nat.lt_succ_self _
    · refine List.pairwise_append.mpr ⟨faithful.ordered, List.pairwise_singleton _ _, ?_⟩
      intro t old u new
      rw [List.mem_singleton.mp new]
      exact faithful.past t old
    · have appended := faithful.kept.append_right [⟨h.now, a⟩]
      simpa only [List.append_assoc] using appended
    · have appended := faithful.served.append_right [⟨h.now, a⟩]
      simpa only [List.append_assoc] using appended
    · rw [List.map_append, List.map_singleton]
      refine List.nodup_append.mpr ⟨faithful.single, List.nodup_singleton _, ?_⟩
      intro x old y new same
      obtain rfl : y = a := List.mem_singleton.mp new
      exact waits (same ▸ old)
  | withdraw a =>
    refine ⟨faithful.later.past, faithful.ordered, ?_, ?_, ?_⟩
    · -- the waiting tickets are those that stay and those that are withdrawn
      have split : h.waiting.Perm ((h.waiting.filter fun t => t.item = a) ++
          h.waiting.filter fun t => t.item ≠ a) := by
        have parts := (List.filter_append_perm (fun t : Ticket α => decide (t.item = a)) h.waiting).symm
        simpa using parts
      refine faithful.kept.trans ?_
      change (h.withdrawn ++ (h.taken ++ h.waiting)).Perm
        ((h.withdrawn ++ h.waiting.filter fun t => t.item = a) ++
          (h.taken ++ h.waiting.filter fun t => t.item ≠ a))
      rw [List.append_assoc]
      refine List.Perm.append_left _ (((split.append_left h.taken)).trans ?_)
      rw [← List.append_assoc, ← List.append_assoc]
      exact List.Perm.append_right _ List.perm_append_comm
    · exact ((List.Sublist.refl _).append List.filter_sublist).trans faithful.served
    · exact faithful.single.sublist (List.filter_sublist.map _)
  | take =>
    unfold History.next
    rcases waits : h.waiting with - | ⟨t, rest⟩
    · dsimp only
      exact waits ▸ faithful.later
    have kept := faithful.kept
    have served := faithful.served
    have single := faithful.single
    rw [waits] at kept served single
    refine ⟨faithful.later.past, faithful.ordered, ?_, ?_, (List.nodup_cons.mp single).2⟩
    · simpa only [List.append_assoc, List.singleton_append] using kept
    · simpa only [List.append_assoc, List.singleton_append] using served
  | clear =>
    refine ⟨faithful.later.past, faithful.ordered, ?_, ?_, List.nodup_nil⟩
    · refine faithful.kept.trans ?_
      change (h.withdrawn ++ (h.taken ++ h.waiting)).Perm ((h.withdrawn ++ h.waiting) ++ (h.taken ++ []))
      rw [List.append_nil, List.append_assoc]
      exact List.Perm.append_left _ List.perm_append_comm
    · change (h.taken ++ []).Sublist h.queued
      rw [List.append_nil]
      exact (List.sublist_append_left _ _).trans faithful.served

/-- The history of a queue of items. -/
theorem waiting_next (single : (h.waiting.map Ticket.item).Nodup) (act : Act α) :
    (h.next act).waiting.map Ticket.item = RequestQueue.next (h.waiting.map Ticket.item) act := by
  cases act with
  | request a =>
    unfold History.next RequestQueue.next
    dsimp only
    split_ifs
    · rfl
    · rw [List.map_append, List.map_singleton]
  | withdraw a =>
    change (h.waiting.filter fun t => t.item ≠ a).map Ticket.item = (h.waiting.map Ticket.item).erase a
    rw [single.erase_eq_filter, List.filter_map]
    refine congrArg _ (List.filter_congr fun t _ => ?_)
    by_cases same : t.item = a <;> simp [same]
  | take =>
    unfold History.next RequestQueue.next
    rcases waits : h.waiting with - | ⟨t, rest⟩
    · simp
    · rfl
  | clear => rfl

theorem after_append (acts : List (Act α)) (act : Act α) :
    after (acts ++ [act]) = (after acts).next act := by
  rw [after, List.foldl_append]
  rfl

/-- Whatever happens to a queue, each request that is queued has one fate. -/
theorem faithful_after (acts : List (Act α)) : (after acts).Faithful := by
  induction acts using List.reverseRecOn with
  | nil => exact faithful_empty
  | append_singleton acts act ih =>
    rw [after_append]
    exact ih.next act

/-- The tickets that wait are those for the items in the queue. -/
theorem waiting_after (acts : List (Act α)) :
    (after acts).waiting.map Ticket.item = acts.foldl RequestQueue.next [] := by
  induction acts using List.reverseRecOn with
  | nil => rfl
  | append_singleton acts act ih =>
    rw [after_append, waiting_next (faithful_after acts).single, ih, List.foldl_append]
    rfl

end History

end JsEmulator.Library.RequestQueue
