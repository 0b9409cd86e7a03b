import JsEmulator.Custom32.Crashes
import JsEmulator.Library.RequestQueue

/-!
# Interrupt requests

The processor keeps the pending interrupts twice: as the bits of `pendingIrqMask` and, in the
order of their requests, in `pendingIrqOrder`. What happens to them in an execution is a list of
events: a device, the host or the timer requests an interrupt, `STMR` withdraws that of the timer,
the host resets the processor, and at an instruction boundary with the interrupt flag set the
first of them is taken and delivered.

The mask and the order agree after every event, and every request that does not coalesce with a
pending one is taken once, in the order of the requests, unless it is withdrawn. What is taken
reaches the handler of the guest or the host; only if the trap frame cannot be pushed, or the IDT
is outside of the memory, it is lost, and `run` reports a double fault instead.
-/

namespace JsEmulator.Custom32

open JsEmulator.Library JsEmulator.Library.Logged JsEmulator.Library.RequestQueue

variable {D α β : Type} (bus : PortBus D)

/-! ## The mask and the order -/

/-- `pendingIrqMask` and `pendingIrqOrder`. -/
structure IrqQueue where
  mask : Word
  order : List Nat

variable {line : Nat} {q : IrqQueue}

namespace IrqQueue

/-- `1 << line`. -/
def bit (line : Nat) : Word := 1#32 <<< (line % 32)

/-- `raiseIrq`. -/
def raiseIrq (q : IrqQueue) (line : Nat) : IrqQueue :=
  if q.mask &&& bit line ≠ 0 then q
  else ⟨q.mask ||| bit line, q.order ++ [line]⟩

/-- `takePendingIrq`, where the mask is not zero. -/
def takePendingIrq (q : IrqQueue) : Option (Nat × IrqQueue) :=
  match q.order with
  | [] => none
  | line :: rest => some (line, ⟨q.mask &&& ~~~bit line, rest⟩)

/-- `cancelPendingIrq`. -/
def cancelPendingIrq (q : IrqQueue) (line : Nat) : IrqQueue :=
  if q.mask &&& bit line = 0 then q
  else ⟨q.mask &&& ~~~bit line, q.order.erase line⟩

/-- The order has exactly the lines of the mask, each once. -/
structure Agrees (q : IrqQueue) : Prop where
  lines : ∀ line ∈ q.order, line < 32
  once : q.order.Nodup
  mask : ∀ line < 32, q.mask.getLsbD line = true ↔ line ∈ q.order

theorem getLsbD_bit {i : Nat} (low : line < 32) (bound : i < 32) :
    (bit line).getLsbD i = decide (i = line) := by
  unfold bit
  rw [Nat.mod_eq_of_lt low, BitVec.getLsbD_shiftLeft, BitVec.getLsbD_one]
  by_cases same : i = line
  · subst same
    simp [bound]
  by_cases below : i < line
  · simp [below, same]
  · have positive : i - line ≠ 0 := by omega
    simp [positive, same]

/-- The test of a bit of the mask. -/
theorem and_bit_eq_zero (low : line < 32) (mask : Word) :
    mask &&& bit line = 0 ↔ mask.getLsbD line = false := by
  constructor
  · intro zero
    have tested : (mask &&& bit line).getLsbD line = false := by
      rw [zero]
      simp
    rwa [BitVec.getLsbD_and, getLsbD_bit low low, decide_eq_true rfl, Bool.and_true] at tested
  · intro clear
    refine BitVec.eq_of_getLsbD_eq fun i bound => ?_
    rw [BitVec.getLsbD_and, getLsbD_bit low bound]
    by_cases same : i = line
    · rw [same, clear]
      simp
    · simp [same]

/-- The test of the mask in `raiseIrq` and `cancelPendingIrq` is that of the order. -/
theorem Agrees.pending (agrees : q.Agrees) (low : line < 32) :
    q.mask &&& bit line ≠ 0 ↔ line ∈ q.order := by
  rw [ne_eq, and_bit_eq_zero low, Bool.not_eq_false]
  exact agrees.mask line low

theorem agrees_empty : (⟨0, []⟩ : IrqQueue).Agrees :=
  ⟨by simp, List.nodup_nil, by simp⟩

theorem Agrees.raiseIrq (agrees : q.Agrees) (low : line < 32) :
    (q.raiseIrq line).Agrees ∧ (q.raiseIrq line).order = next q.order (.request line) := by
  unfold IrqQueue.raiseIrq next
  dsimp only
  by_cases waits : line ∈ q.order
  · rw [if_pos ((agrees.pending low).mpr waits), if_pos waits]
    exact ⟨agrees, rfl⟩
  rw [if_neg fun set => waits ((agrees.pending low).mp set), if_neg waits]
  refine ⟨⟨fun other member => ?_, ?_, fun other bound => ?_⟩, rfl⟩
  · rcases List.mem_append.mp member with old | new
    · exact agrees.lines other old
    · exact List.mem_singleton.mp new ▸ low
  · exact List.nodup_append.mpr ⟨agrees.once, List.nodup_singleton _, fun x old y new same =>
      waits (List.mem_singleton.mp new ▸ same ▸ old)⟩
  · rw [BitVec.getLsbD_or, getLsbD_bit low bound, Bool.or_eq_true, agrees.mask other bound]
    simp

/-- The bit of a line is cleared and the line leaves the order. -/
theorem Agrees.drop (agrees : q.Agrees) (low : line < 32) :
    (⟨q.mask &&& ~~~bit line, q.order.erase line⟩ : IrqQueue).Agrees := by
  refine ⟨fun other member => agrees.lines other (List.mem_of_mem_erase member),
    agrees.once.erase line, fun other bound => ?_⟩
  rw [BitVec.getLsbD_and, BitVec.getLsbD_not, getLsbD_bit low bound, agrees.once.mem_erase_iff,
    Bool.and_eq_true, agrees.mask other bound]
  simp [bound, and_comm]

theorem Agrees.cancelPendingIrq (agrees : q.Agrees) (low : line < 32) :
    (q.cancelPendingIrq line).Agrees ∧
      (q.cancelPendingIrq line).order = next q.order (.withdraw line) := by
  unfold IrqQueue.cancelPendingIrq next
  dsimp only
  by_cases waits : line ∈ q.order
  · rw [if_neg ((agrees.pending low).mpr waits)]
    exact ⟨agrees.drop low, rfl⟩
  have clear : q.mask &&& bit line = 0 := by
    by_contra set
    exact waits ((agrees.pending low).mp set)
  rw [if_pos clear, List.erase_of_not_mem waits]
  exact ⟨agrees, rfl⟩

theorem Agrees.takePendingIrq {q' : IrqQueue} (agrees : q.Agrees)
    (taken : q.takePendingIrq = some (line, q')) :
    q'.Agrees ∧ q.order = line :: q'.order := by
  unfold IrqQueue.takePendingIrq at taken
  rcases listed : q.order with - | ⟨first, rest⟩
  · rw [listed] at taken
    cases taken
  rw [listed] at taken
  cases taken
  have dropped := agrees.drop (agrees.lines line (by rw [listed]; exact List.mem_cons_self))
  rw [listed, List.erase_cons_head] at dropped
  exact ⟨dropped, rfl⟩

end IrqQueue

/-! ## What leaves the interrupt lines alone -/

/-- A computation that leaves the interrupt lines alone. -/
def Unlined (m : CpuM D α) : Prop := ∀ s, (m s).state.lines = s.lines

theorem unlined_bind {m : CpuM D α} {f : α → CpuM D β} (first : Unlined m)
    (next : ∀ a, Unlined (f a)) : Unlined (m >>= f) := by
  intro s
  rcases returned : (m s).result with trap | a
  · rw [bind_error returned]
    exact first s
  · rw [bind_ok returned]
    exact (next a _).trans (first s)

theorem unlined_pure (x : α) : Unlined (pure x : CpuM D α) := fun _ => rfl

theorem unlined_raise (trap : Trap) : Unlined (raise trap : CpuM D α) := fun _ => rfl

theorem unlined_core (f : Core D → α × Core D) : Unlined (onCore f) := fun _ => rfl

theorem unlined_look (f : Cpu D → α) : Unlined (Logged.update fun s => (f s, s)) := fun _ => rfl

theorem unlined_xlateN (v : Int) (n : Nat) (write : Bool) :
    Unlined (xlateN v n write : CpuM D Int) := by
  intro s
  obtain ⟨-, pfla, tlb, state⟩ := xlateN_spec v n write s
  rw [state]

theorem unlined_load (n : Nat) (v : Int) : Unlined (load n v : CpuM D (List (Option Byte))) := by
  refine unlined_bind (unlined_xlateN v n false) fun p s => ?_
  unfold readSpan
  split_ifs <;> rfl

theorem unlined_store (v : Int) (items : List Byte) : Unlined (store v items : CpuM D Unit) := by
  refine unlined_bind (unlined_xlateN v _ true) fun p s => ?_
  unfold writeSpan
  split_ifs <;> rfl

theorem sequences_unlined : Sequences (fun {_} m => Unlined (m : CpuM D _)) :=
  ⟨unlined_pure, unlined_bind, unlined_raise⟩

theorem codeReads_unlined : CodeReads (fun {_} m => Unlined (m : CpuM D _)) where
  toSequences := sequences_unlined
  rdN := sequences_unlined.rdN unlined_load
  look := unlined_look
  advance n := unlined_core _
  xlateN v := unlined_xlateN v 1 false
  cacheCode pc p s := by
    unfold cacheCode Logged.update
    dsimp only
    split_ifs <;> rfl
  readCode base n s := rfl

theorem quiet_unlined : Quiet (fun {_} m => Unlined (m : CpuM D _)) where
  toDecodes := codeReads_unlined.decodes
  rdN := codeReads_unlined.rdN
  core := unlined_core
  wrN := sequences_unlined.wrN unlined_store
  pfla _ := rfl
  errorCode _ := rfl

theorem unlined_exec (m : Mnemonic) (a b : Word) (quiet : m.signals = false) :
    Unlined (exec bus m a b) := by
  cases m with
  | iret => exact unlined_bind quiet_unlined.popFrame fun _ _ => rfl
  | lptbr | pgon | pgoff => exact fun _ => rfl
  | _ => exact quiet_unlined.exec _ a b rfl quiet

theorem unlined_deliver (vector : Nat) (returnPc : Int) (errorCode : Word) (software : Bool) :
    Unlined (deliver vector returnPc errorCode software : CpuM D Delivery) := by
  have pushes : ∀ words, Unlined (pushAll words : CpuM D Unit) := by
    intro words
    induction words with
    | nil => exact unlined_pure ()
    | cons x rest ih => exact unlined_bind (quiet_unlined.push x) fun _ => ih
  intro s
  rcases deliver_cases vector returnPc errorCode software s with
    ⟨delivery, ended⟩ | ⟨handler, pushed, t, log, pushing, ended⟩
  · rw [ended]
  · have kept := pushes (trapFrame s returnPc) (entered s errorCode)
    rw [← pushFrame, pushing] at kept
    rw [ended]
    cases pushed <;> exact kept

theorem unlined_trapTo (vector : Nat) (returnPc : Int) (errorCode : Word) (otherwise : RunResult) :
    Unlined (trapTo vector returnPc errorCode otherwise : CpuM D (Option RunResult)) := by
  refine unlined_bind (unlined_deliver _ _ _ _) fun delivery => ?_
  cases delivery <;> exact unlined_pure _

theorem unlined_settle (old : Cpu D) (ended : Except Trap (Option Stop)) :
    Unlined (settle old ended) := by
  rcases ended with (e | kind | - | - | -) | (- | num | -)
  · exact unlined_bind (unlined_bind (fun _ => rfl) fun _ _ => rfl) fun _ => unlined_trapTo _ _ _ _
  · exact unlined_trapTo _ _ _ _
  · exact unlined_raise _
  · exact unlined_raise _
  · exact unlined_raise _
  · exact unlined_pure _
  · refine unlined_bind (unlined_core _) fun pc => unlined_bind (unlined_deliver _ _ _ _)
      fun delivery => ?_
    cases delivery with
    | denied => exact unlined_trapTo _ _ _ _
    | _ => exact unlined_pure _
  · exact unlined_pure _

/-! ## Events -/

/-- What happens to the pending interrupts: one is requested, that of the timer is cancelled, one is
delivered at an instruction boundary, all are dropped. -/
inductive IrqEvent (D : Type) where
  | request (line : Nat)
  | cancel
  | deliver (line : Nat) (boundary : Cpu D)
  | reset

def IrqEvent.act : IrqEvent D → Act Nat
  | .request line => .request line
  | .cancel => .withdraw 0
  | .deliver _ _ => .take
  | .reset => .clear

/-- The lines that are delivered. -/
def IrqEvent.delivered : IrqEvent D → Option Nat
  | .deliver line _ => some line
  | _ => none

/-- The order of the pending interrupts after some events. -/
def orderAfter (order : List Nat) (events : List (IrqEvent D)) : List Nat :=
  (events.map IrqEvent.act).foldl next order

/-- The events of an instruction. -/
def execEvents (c : Core D) (m : Mnemonic) (a b : Word) : List (IrqEvent D) :=
  match m with
  | .stmr => if c.reg a = 0 then [.cancel] else []
  | .portIn =>
    match bus.read c.dev (c.reg b) with
    | some (_, _, raised, _) => raised.map .request
    | none => []
  | .portOut =>
    match bus.write c.dev (c.reg a) (c.reg b) with
    | some (_, raised, _) => raised.map .request
    | none => []
  | _ => []

def instructionEvents (s : Cpu D) : List (IrqEvent D) :=
  match (decode s).result with
  | .ok (m, a, b) => execEvents bus s.core m a b
  | .error _ => []

/-- The events of a round of the loop of `run`. -/
def cycleEvents (s : Cpu D) : List (IrqEvent D) :=
  (if 0 < s.lines.timerInterval ∧ s.lines.timerCount - 1 ≤ 0 then [.request 0] else []) ++
    match (ticked s).lines.pending, hasFlag s.core.flags interruptFlag with
    | line :: _, true => [.deliver line (ticked s)]
    | _, _ => instructionEvents bus (ticked s)

def runEvents : Nat → Cpu D → List (IrqEvent D)
  | 0, _ => []
  | n + 1, s =>
    if s.lines.poweredOff then []
    else cycleEvents bus s ++
      match (cycle bus s).result with
      | .ok none => runEvents n (cycle bus s).state
      | _ => []

def HostAct.events (act : HostAct) (s : Cpu D) : List (IrqEvent D) :=
  match act with
  | .run maxCycles => runEvents bus maxCycles s
  | .raiseIrq line => [.request line]
  | .resetTransientState => [.reset]
  | .loadState .. | .powerOff | .write _ => []

/-- The events of an execution. -/
def executeEvents : List HostAct → Cpu D → List (IrqEvent D)
  | [], _ => []
  | act :: rest, s => act.events bus s ++ executeEvents rest (act.perform bus s).state

/-! ## The events of a round -/

theorem orderAfter_append (order : List Nat) (past later : List (IrqEvent D)) :
    orderAfter order (past ++ later) = orderAfter (orderAfter order past) later := by
  rw [orderAfter, List.map_append, List.foldl_append]
  rfl

theorem raiseIrq_pending (l : Lines) (line : Nat) :
    (l.raiseIrq line).pending = next l.pending (.request line) := by
  unfold Lines.raiseIrq next
  dsimp only
  split_ifs <;> rfl

/-- What a device signals. -/
theorem signalled_pending (raised : List Nat) (off : Bool) (s : Cpu D) :
    (signalled raised off s).state.lines.pending =
      orderAfter s.lines.pending (raised.map fun line => (.request line : IrqEvent D)) := by
  change (raised.foldl Lines.raiseIrq s.lines).pending = _
  generalize s.lines = l
  induction raised generalizing l with
  | nil => rfl
  | cons line rest ih =>
    rw [List.foldl_cons, ih, raiseIrq_pending]
    rfl

theorem exec_order (m : Mnemonic) (a b : Word) (s : Cpu D) :
    (exec bus m a b s).state.lines.pending =
      orderAfter s.lines.pending (execEvents bus s.core m a b) := by
  by_cases signals : m.signals = true
  · cases m with
    | portIn =>
      change ((readPort bus (s.core.reg b) >>= into a) s).state.lines.pending = _
      rcases answer : bus.read s.core.dev (s.core.reg b) with - | ⟨x, dev, raised, off⟩
      · have ended : readPort bus (s.core.reg b) s = ⟨.error .portError, s, []⟩ := by
          simp [readPort, onCore, Logged.update, bind, answer, raise]
        rw [bind_error (e := .portError) (by rw [ended]), ended, execEvents, answer]
        rfl
      · have ended : (readPort bus (s.core.reg b) s).result = .ok x ∧
            (readPort bus (s.core.reg b) s).state.lines =
              (signalled raised off s).state.lines := by
          simp [readPort, onCore, Logged.update, bind, answer, signalled, onLines, pure]
        rw [bind_ok ended.1]
        change (readPort bus (s.core.reg b) s).state.lines.pending = _
        rw [ended.2, signalled_pending, execEvents, answer]
    | portOut =>
      change (writePort bus (s.core.reg a) (s.core.reg b) s).state.lines.pending = _
      rcases answer : bus.write s.core.dev (s.core.reg a) (s.core.reg b) with - | ⟨dev, raised, off⟩
      · have ended : writePort bus (s.core.reg a) (s.core.reg b) s = ⟨.error .portError, s, []⟩ := by
          simp [writePort, onCore, Logged.update, bind, answer, raise]
        rw [ended, execEvents, answer]
        rfl
      · have ended : (writePort bus (s.core.reg a) (s.core.reg b) s).state.lines =
            (signalled raised off s).state.lines := by
          simp [writePort, onCore, Logged.update, bind, answer, signalled, onLines]
        rw [ended, signalled_pending, execEvents, answer]
    | stmr =>
      change (if s.core.reg a = 0 then Lines.cancelPendingIrq _ 0 else _ : Lines).pending = _
      unfold execEvents
      split_ifs <;> rfl
    | _ => cases signals
  · rw [unlined_exec bus m a b (by simpa using signals) s]
    cases m with
    | portIn | portOut | stmr => exact absurd rfl signals
    | _ => rfl

theorem step_order (s : Cpu D) :
    (step bus s).state.lines.pending =
      orderAfter s.lines.pending (instructionEvents bus s) := by
  obtain ⟨-, -, -, pc, moved⟩ := step_checked bus s
  rw [moved]
  change (checkedStep bus s).state.lines.pending = _
  unfold instructionEvents
  rw [(decode_checked s).1]
  rcases returned : (decodeWith fetch8 fetch32 s).result with trap | ⟨m, a, b⟩
  · rw [checkedStep, bind_error returned, quiet_unlined.decodeWith]
    rfl
  have core := (leads_decodeWith.1 s).1
  have events : execEvents bus (decodeWith fetch8 fetch32 s).state.core m a b =
      execEvents bus s.core m a b := by
    rw [core]
    cases m <;> rfl
  have executed := exec_order bus m a b (decodeWith fetch8 fetch32 s).state
  rw [events, quiet_unlined.decodeWith] at executed
  rw [checkedStep, bind_ok returned, complete, bind_pure_apply, executed]

theorem ticked_order (s : Cpu D) :
    (ticked s).lines.pending = orderAfter s.lines.pending
      (if 0 < s.lines.timerInterval ∧ s.lines.timerCount - 1 ≤ 0 then [(.request 0 : IrqEvent D)]
        else []) := by
  change s.lines.tick.pending = _
  unfold Lines.tick
  by_cases runs : 0 < s.lines.timerInterval
  · by_cases expires : s.lines.timerCount - 1 ≤ 0
    · rw [if_pos runs, if_pos expires, if_pos ⟨runs, expires⟩]
      exact raiseIrq_pending _ 0
    · rw [if_pos runs, if_neg expires, if_neg fun both => expires both.2]
      rfl
  · rw [if_neg runs, if_neg fun both => runs both.1]
    rfl

/-- What a delivery is: at the boundary the interrupt flag is set, the line is the first of the
order, and the round enters the handler of the guest, returns the interrupt to the host, or
reports a double fault. -/
def IrqEvent.Occurs (order : List Nat) : IrqEvent D → Prop
  | .deliver line boundary =>
    hasFlag boundary.core.flags interruptFlag = true ∧ ∃ rest s,
      order = line :: rest ∧ boundary.lines.pending = order ∧ boundary = ticked s ∧
      (cycle bus s).result =
        match (Custom32.deliver (32 + line) boundary.core.pc 0 false
          { boundary with lines := { boundary.lines with pending := rest } }).result with
        | .ok .guest => .ok none
        | .ok .double => .ok (some doubleFault)
        | .ok .host | .ok .denied => .ok (some (.irq line))
        | .error trap => .error trap
  | _ => True

/-- Every event is one that can occur. -/
def Traced : List Nat → List (IrqEvent D) → Prop
  | _, [] => True
  | order, event :: later => event.Occurs bus order ∧ Traced (next order event.act) later

theorem traced_append (order : List Nat) (past later : List (IrqEvent D)) :
    Traced bus order (past ++ later) ↔
      Traced bus order past ∧ Traced bus (orderAfter order past) later := by
  induction past generalizing order with
  | nil => simp [Traced, orderAfter]
  | cons event past ih =>
    rw [List.cons_append, Traced, Traced, ih, and_assoc]
    rfl

/-- Events without a delivery can occur. -/
theorem traced_quiet {order : List Nat} {events : List (IrqEvent D)}
    (quiet : ∀ event ∈ events, event.delivered = none) : Traced bus order events := by
  induction events generalizing order with
  | nil => trivial
  | cons event events ih =>
    refine ⟨?_, ih fun other member => quiet other (List.mem_cons_of_mem _ member)⟩
    have undelivered := quiet event List.mem_cons_self
    cases event with
    | deliver line boundary => cases undelivered
    | _ => trivial

theorem execEvents_quiet (c : Core D) (m : Mnemonic) (a b : Word) :
    ∀ event ∈ execEvents bus c m a b, event.delivered = none := by
  intro event member
  unfold execEvents at member
  split at member
  · split_ifs at member
    · rw [List.mem_singleton.mp member]
      rfl
    · cases member
  case h_2 | h_3 =>
    split at member
    · obtain ⟨line, -, rfl⟩ := List.mem_map.mp member
      rfl
    · cases member
  · cases member

/-- What a round returns when it delivers an interrupt. -/
theorem trapTo_result (vector : Nat) (returnPc : Int) (errorCode : Word) (otherwise : RunResult)
    (s : Cpu D) : (trapTo vector returnPc errorCode otherwise s).result =
      match (deliver vector returnPc errorCode false s).result with
      | .ok .guest => .ok none
      | .ok .double => .ok (some doubleFault)
      | .ok .host | .ok .denied => .ok (some otherwise)
      | .error trap => .error trap := by
  rcases returned : (deliver vector returnPc errorCode false s).result with trap | delivery
  · rw [trapTo, bind_error returned]
  · rw [trapTo, bind_ok returned]
    cases delivery <;> rfl

/-- The events of a round, and the order they leave. -/
theorem cycle_traced (s : Cpu D) :
    Traced bus s.lines.pending (cycleEvents bus s) ∧
      (cycle bus s).state.lines.pending = orderAfter s.lines.pending (cycleEvents bus s) := by
  have stepped : (instruction bus (ticked s)).state.lines.pending =
      orderAfter (ticked s).lines.pending (instructionEvents bus (ticked s)) := by
    rw [← step_order]
    exact congrArg Lines.pending (unlined_settle (ticked s) (step bus (ticked s)).result _)
  have instructed : Traced bus (ticked s).lines.pending (instructionEvents bus (ticked s)) := by
    refine traced_quiet bus fun event member => ?_
    unfold instructionEvents at member
    split at member
    · exact execEvents_quiet bus _ _ _ _ event member
    · cases member
  have timer : Traced bus s.lines.pending
      (if 0 < s.lines.timerInterval ∧ s.lines.timerCount - 1 ≤ 0 then [(.request 0 : IrqEvent D)]
        else []) := by
    split_ifs <;> simp [Traced, IrqEvent.Occurs]
  unfold cycleEvents
  rw [traced_append, orderAfter_append, ← ticked_order, cycle_path]
  refine ⟨⟨timer, ?_⟩, ?_⟩
  · rcases waits : (ticked s).lines.pending with - | ⟨line, rest⟩
    · rw [waits] at instructed
      exact instructed
    rcases enabled : hasFlag s.core.flags interruptFlag with - | -
    · rw [waits] at instructed
      exact instructed
    · refine ⟨⟨enabled, rest, s, rfl, waits, rfl, ?_⟩, trivial⟩
      rw [cycle_path, waits, enabled]
      exact trapTo_result (32 + line) s.core.pc 0 (.irq line) _
  · rcases waits : (ticked s).lines.pending with - | ⟨line, rest⟩
    · rw [waits] at stepped
      exact stepped
    rcases hasFlag s.core.flags interruptFlag with - | -
    · rw [waits] at stepped
      exact stepped
    · exact congrArg Lines.pending (unlined_trapTo (32 + line) s.core.pc 0 (.irq line) _)

theorem run_traced (n : Nat) (s : Cpu D) :
    Traced bus s.lines.pending (runEvents bus n s) ∧
      (run bus n s).state.lines.pending = orderAfter s.lines.pending (runEvents bus n s) := by
  induction n generalizing s with
  | zero => exact ⟨trivial, rfl⟩
  | succ n ih =>
    rw [runEvents, run_path]
    split_ifs with off
    · exact ⟨trivial, rfl⟩
    obtain ⟨traced, order⟩ := cycle_traced bus s
    rw [traced_append, orderAfter_append, ← order]
    rcases returned : (cycle bus s).result with trap | ended | result
    · rw [bind_error returned]
      exact ⟨⟨traced, trivial⟩, rfl⟩
    · rw [bind_ok returned]
      obtain ⟨later, final⟩ := ih (cycle bus s).state
      exact ⟨⟨traced, later⟩, final⟩
    · rw [bind_ok returned]
      exact ⟨⟨traced, trivial⟩, rfl⟩

theorem perform_traced (act : HostAct) (s : Cpu D) :
    Traced bus s.lines.pending (act.events bus s) ∧
      (act.perform bus s).state.lines.pending = orderAfter s.lines.pending (act.events bus s) := by
  cases act with
  | run maxCycles =>
    obtain ⟨traced, order⟩ := run_traced bus maxCycles s
    rw [HostAct.perform, bind_pure_apply]
    exact ⟨traced, order⟩
  | raiseIrq line => exact ⟨⟨trivial, trivial⟩, raiseIrq_pending s.lines line⟩
  | resetTransientState => exact ⟨⟨trivial, trivial⟩, rfl⟩
  | _ => exact ⟨trivial, rfl⟩

theorem execute_traced (acts : List HostAct) (s : Cpu D) :
    Traced bus s.lines.pending (executeEvents bus acts s) ∧
      (execute bus acts s).state.lines.pending =
        orderAfter s.lines.pending (executeEvents bus acts s) := by
  induction acts generalizing s with
  | nil => exact ⟨trivial, rfl⟩
  | cons act rest ih =>
    obtain ⟨traced, order⟩ := perform_traced bus act s
    obtain ⟨later, final⟩ := ih (act.perform bus s).state
    rw [executeEvents, traced_append, orderAfter_append, ← order]
    exact ⟨⟨traced, later⟩, final⟩

/-! ## Requests are delivered -/

/-- The mask and the order after an event. -/
def IrqQueue.event (q : IrqQueue) : IrqEvent D → IrqQueue
  | .request line => q.raiseIrq line
  | .cancel => q.cancelPendingIrq 0
  | .deliver _ _ => (q.takePendingIrq.map Prod.snd).getD q
  | .reset => ⟨0, []⟩

/-- The mask and the order after some events. -/
def IrqQueue.after (events : List (IrqEvent D)) : IrqQueue := events.foldl IrqQueue.event ⟨0, []⟩

theorem after_append_singleton (events : List (IrqEvent D)) (event : IrqEvent D) :
    IrqQueue.after (events ++ [event]) = (IrqQueue.after events).event event := by
  rw [IrqQueue.after, List.foldl_append]
  rfl

/-- The mask and the order agree after every event, and the order is that of the machine. -/
theorem agrees_after {events : List (IrqEvent D)} (wired : ∀ line, .request line ∈ events → line < 32) :
    (IrqQueue.after events).Agrees ∧ (IrqQueue.after events).order = orderAfter [] events := by
  induction events using List.reverseRecOn with
  | nil => exact ⟨IrqQueue.agrees_empty, rfl⟩
  | append_singleton events event ih =>
    obtain ⟨agrees, order⟩ := ih fun line member => wired line (List.mem_append_left _ member)
    rw [after_append_singleton, orderAfter_append, ← order]
    cases event with
    | request line => exact agrees.raiseIrq (wired line (by simp))
    | cancel => exact agrees.cancelPendingIrq (by omega)
    | deliver line boundary =>
      change (((IrqQueue.after events).takePendingIrq.map Prod.snd).getD _).Agrees ∧
        (((IrqQueue.after events).takePendingIrq.map Prod.snd).getD _).order =
          (IrqQueue.after events).order.tail
      rcases taken : (IrqQueue.after events).takePendingIrq with - | ⟨first, q⟩
      · have vacant : (IrqQueue.after events).order = [] := by
          unfold IrqQueue.takePendingIrq at taken
          split at taken
          · assumption
          · cases taken
        exact ⟨agrees, by simp [vacant]⟩
      · obtain ⟨kept, listed⟩ := agrees.takePendingIrq taken
        exact ⟨kept, by simp [listed]⟩
    | reset => exact ⟨IrqQueue.agrees_empty, rfl⟩

/-- The tickets that are taken are those of the deliveries. -/
theorem taken_after {events : List (IrqEvent D)} (traced : Traced bus [] events) :
    (History.after (events.map IrqEvent.act)).taken.map Ticket.item =
      events.filterMap IrqEvent.delivered := by
  induction events using List.reverseRecOn with
  | nil => rfl
  | append_singleton events event ih =>
    obtain ⟨before, occurs, -⟩ := (traced_append bus [] events [event]).mp traced
    have waits := History.waiting_after (events.map IrqEvent.act)
    rw [List.map_append, List.map_singleton, History.after_append, List.filterMap_append,
      ← ih before]
    cases event with
    | request line =>
      change ((History.after (events.map IrqEvent.act)).next (.request line)).taken.map _ = _
      unfold History.next
      dsimp only
      split_ifs <;> simp [IrqEvent.delivered]
    | cancel | reset => simp [IrqEvent.act, History.next, IrqEvent.delivered]
    | deliver line boundary =>
      obtain ⟨-, rest, -, order, -⟩ := occurs
      rw [orderAfter] at order
      rw [order] at waits
      obtain ⟨ticket, others, listed, item, -⟩ := List.map_eq_cons_iff.mp waits
      change ((History.after (events.map IrqEvent.act)).next .take).taken.map _ = _
      unfold History.next
      rw [listed]
      simp [IrqEvent.delivered, item]

/-- In every execution that begins without pending interrupts, with requests for the lines of the
mask: after every event the order has exactly the lines of the mask, each once. A line is delivered
only at an instruction boundary with the interrupt flag set, and it is the first of the order then.
Every request that does not coalesce has one fate: it is delivered, it is withdrawn, or it is still
pending; and what is delivered is delivered in the order of the requests. -/
theorem requests_delivered (acts : List HostAct) (s : Cpu D) (idle : s.lines.pending = [])
    (wired : ∀ line, .request line ∈ executeEvents bus acts s → line < 32) :
    (∀ past later, executeEvents bus acts s = past ++ later → (IrqQueue.after past).Agrees) ∧
    (∀ past line boundary later,
      executeEvents bus acts s = past ++ .deliver line boundary :: later →
        (IrqEvent.deliver line boundary).Occurs bus (IrqQueue.after past).order) ∧
    (IrqQueue.after (executeEvents bus acts s)).order = (execute bus acts s).state.lines.pending ∧
    (History.after ((executeEvents bus acts s).map IrqEvent.act)).Faithful ∧
    (History.after ((executeEvents bus acts s).map IrqEvent.act)).taken.map Ticket.item =
      (executeEvents bus acts s).filterMap IrqEvent.delivered ∧
    (History.after ((executeEvents bus acts s).map IrqEvent.act)).waiting.map Ticket.item =
      (execute bus acts s).state.lines.pending := by
  obtain ⟨traced, order⟩ := execute_traced bus acts s
  rw [idle] at traced order
  have earlier : ∀ past later, executeEvents bus acts s = past ++ later →
      ∀ line, .request line ∈ past → line < 32 := fun past later split line member =>
    wired line (split ▸ List.mem_append_left _ member)
  refine ⟨fun past later split => (agrees_after (earlier past later split)).1,
    fun past line boundary later split => ?_, ?_, History.faithful_after _, taken_after bus traced, ?_⟩
  · rw [split] at traced
    rw [(agrees_after (earlier past _ split)).2]
    exact ((traced_append bus [] past _).mp traced).2.1
  · rw [(agrees_after wired).2, order]
  · rw [History.waiting_after, order]
    rfl

/-- A machine with the interrupt flag set. -/
def interruptible (idtr : Word) : Cpu Unit :=
  { smallCpu .kernel (smallMemory 4 fun _ => 0) 0 with
    core := ⟨fun _ => 0, 0, 0, interruptFlag, idtr, 0, ()⟩ }

/-- Three requests for two lines: one coalesces, and the first is delivered to the host. -/
theorem requests_delivered_first :
    (executeEvents emptyBus [.raiseIrq 1, .raiseIrq 0, .raiseIrq 1, .run 1] (interruptible 0)).filterMap
      IrqEvent.delivered = [1] ∧
    (IrqQueue.after (executeEvents emptyBus [.raiseIrq 1, .raiseIrq 0, .raiseIrq 1, .run 1]
      (interruptible 0))).order = [0] := by
  have events : executeEvents emptyBus [.raiseIrq 1, .raiseIrq 0, .raiseIrq 1, .run 1]
      (interruptible 0) = [.request 1, .request 0, .request 1, .deliver 1 (ticked
        (execute emptyBus [.raiseIrq 1, .raiseIrq 0, .raiseIrq 1] (interruptible 0)).state)] := rfl
  obtain ⟨-, -, order, -⟩ := requests_delivered emptyBus
    [.raiseIrq 1, .raiseIrq 0, .raiseIrq 1, .run 1] (interruptible 0) rfl (by
      intro line member
      rw [events] at member
      simp at member
      omega)
  refine ⟨by rw [events]; rfl, order.trans ?_⟩
  rfl

/-- The IDT is outside of the memory: the request is taken, and neither the guest nor the host
sees it. -/
theorem requests_lost :
    (execute emptyBus [.raiseIrq 1] (interruptible 0x10000)).state.lines.pending = [1] ∧
    (execute emptyBus [.raiseIrq 1, .run 1] (interruptible 0x10000)).state.lines.pending = [] ∧
    (run emptyBus 1 (execute emptyBus [.raiseIrq 1] (interruptible 0x10000)).state).result =
      .ok doubleFault ∧
    (execute emptyBus [.raiseIrq 1, .run 1] (interruptible 0x10000)).state.core.pc = 0 := by
  refine ⟨rfl, rfl, rfl, rfl⟩

end JsEmulator.Custom32
