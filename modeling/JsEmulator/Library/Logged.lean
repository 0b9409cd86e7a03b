import Mathlib.Data.List.Basic

/-!
# Computations with a state, exceptions and a log

A computation changes a state, may stop with an exception, and leaves a log of what it did.
An exception keeps the state and the log it was thrown in, as in an imperative language.

An invariant speaks about the log so far and the state. A computation keeps it when it
leads from every such pair to another, whether it stops with an exception or not, and what
is built from computations that keep it keeps it too.
-/

namespace JsEmulator.Library

variable {ε σ ι α β : Type}

/-- What a computation ends with. -/
structure Outcome (ε σ ι α : Type) where
  result : Except ε α
  state : σ
  log : List ι

/-- A computation, as a function of the state it starts in. -/
def Logged (ε σ ι α : Type) := σ → Outcome ε σ ι α

variable {f : α → Logged ε σ ι β} {m : Logged ε σ ι α} {s : σ}

namespace Logged

instance : Monad (Logged ε σ ι) where
  pure a := fun s => ⟨.ok a, s, []⟩
  bind m f := fun s =>
    match (m s).result with
    | .ok a => ⟨(f a (m s).state).result, (f a (m s).state).state,
        (m s).log ++ (f a (m s).state).log⟩
    | .error e => ⟨.error e, (m s).state, (m s).log⟩

/-- A computation that stops with an exception. -/
def raise (e : ε) : Logged ε σ ι α := fun s => ⟨.error e, s, []⟩

/-- A computation that reads and replaces the state. -/
def update (f : σ → α × σ) : Logged ε σ ι α := fun s => ⟨.ok (f s).1, (f s).2, []⟩

/-- A computation that is caught: what it returned or threw is its result. -/
def attempt (m : Logged ε σ ι α) : Logged ε σ ι (Except ε α) := fun s =>
  ⟨.ok (m s).result, (m s).state, (m s).log⟩

theorem pure_apply (a : α) (s : σ) : (pure a : Logged ε σ ι α) s = ⟨.ok a, s, []⟩ := rfl

theorem bind_ok {a : α} (returned : (m s).result = .ok a) :
    (m >>= f) s = ⟨(f a (m s).state).result, (f a (m s).state).state,
      (m s).log ++ (f a (m s).state).log⟩ := by
  simp only [bind, returned]

theorem bind_error {e : ε} (thrown : (m s).result = .error e) :
    (m >>= f) s = ⟨.error e, (m s).state, (m s).log⟩ := by
  simp only [bind, thrown]

/-- A sequence throws what its first part throws, or what comes after it does. -/
theorem bind_thrown {e : ε} (thrown : ((m >>= f) s).result = .error e) :
    (m s).result = .error e ∨ ∃ a, (m s).result = .ok a ∧ (f a (m s).state).result = .error e := by
  rcases returned : (m s).result with e' | a
  · rw [bind_error returned] at thrown
    cases thrown
    exact .inl rfl
  · rw [bind_ok returned] at thrown
    exact .inr ⟨a, rfl, thrown⟩

/-- A result that is changed afterwards. -/
theorem bind_pure_apply (g : α → β) :
    (m >>= fun a => pure (g a)) s = ⟨(m s).result.map g, (m s).state, (m s).log⟩ := by
  rcases returned : (m s).result with e | a
  · rw [bind_error returned]
    rfl
  · rw [bind_ok returned, pure_apply, List.append_nil]
    rfl

/-- What the first computation logs is in the log of the sequence. -/
theorem mem_bind_log {item : ι} (member : item ∈ (m s).log) : item ∈ ((m >>= f) s).log := by
  rcases returned : (m s).result with e | a
  · rwa [bind_error returned]
  · rw [bind_ok returned]
    exact List.mem_append_left _ member

/-- Two sequences agree if their first parts do and what follows them does. -/
theorem bind_congr_at {m' : Logged ε σ ι α} {f' : α → Logged ε σ ι β} (first : m s = m' s)
    (next : ∀ a, (m s).result = .ok a → f a (m s).state = f' a (m s).state) :
    (m >>= f) s = (m' >>= f') s := by
  rcases returned : (m s).result with e | a
  · rw [bind_error returned, bind_error (first ▸ returned), first]
  · rw [bind_ok returned, bind_ok (first ▸ returned), next a returned, first]

/-! ## Invariants -/

/-- A computation keeps an invariant of the log so far and the state. -/
def Keeps (inv : List ι → σ → Prop) (m : Logged ε σ ι α) : Prop :=
  ∀ past s, inv past s → inv (past ++ (m s).log) (m s).state

variable {inv : List ι → σ → Prop}

theorem keeps_pure (a : α) : Keeps inv (pure a : Logged ε σ ι α) := by
  intro past s holds
  simpa only [pure_apply, List.append_nil] using holds

theorem keeps_raise (e : ε) : Keeps inv (raise e : Logged ε σ ι α) := by
  intro past s holds
  simpa only [raise, List.append_nil] using holds

theorem keeps_update {f : σ → α × σ} (kept : ∀ past s, inv past s → inv past (f s).2) :
    Keeps inv (update f : Logged ε σ ι α) := by
  intro past s holds
  simpa only [update, List.append_nil] using kept past s holds

theorem keeps_attempt (kept : Keeps inv m) : Keeps inv (attempt m) := kept

/-- One run of a first computation, followed by one that keeps the invariant. -/
theorem kept_bind {past : List ι} (first : inv (past ++ (m s).log) (m s).state)
    (next : ∀ a, Keeps inv (f a)) :
    inv (past ++ ((m >>= f) s).log) ((m >>= f) s).state := by
  rcases returned : (m s).result with e | a
  · rw [bind_error returned]
    exact first
  · rw [bind_ok returned]
    simpa only [List.append_assoc] using next a _ _ first

theorem keeps_bind (first : Keeps inv m) (next : ∀ a, Keeps inv (f a)) : Keeps inv (m >>= f) :=
  fun past s holds => kept_bind (first past s holds) next

/-- What follows a look at the state runs in that state. -/
theorem keeps_read {look : σ → α}
    (next : ∀ past s, inv past s → inv (past ++ (f (look s) s).log) (f (look s) s).state) :
    Keeps inv (update (fun s => (look s, s)) >>= f) :=
  fun past s holds => next past s holds

end Logged

end JsEmulator.Library
