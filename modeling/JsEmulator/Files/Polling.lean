import JsEmulator.Files.Calls
import JsEmulator.Files.Terminal

/-!
# Waking those who poll

What `file_poll` reports about the terminal, pipes and sockets, and the steps that change
it. Every process that sleeps in `sys_poll` sleeps on one channel, and `poll_wakeup` wakes
them all. A step that makes a watched descriptor ready has to call it.
-/

namespace JsEmulator.Files

open JsEmulator.Memory (Byte Word maxProc hasBits)
open JsEmulator.Process (RunState Chan)

variable {isTty : Vnode → Bool} {m : Machine} {s : Kernel}

/-- `struct udp_datagram`. -/
structure Datagram where
  data : List Byte
  sourceAddress : Word
  sourcePort : Word

/-- The tables with the terminal and the queues of the sockets. -/
structure Machine where
  kernel : Kernel
  tty : Tty
  queues : Nat → List Datagram

/-- `pipe_poll_op`. -/
def pipePollOp (p : Pipe) (pipeEnd : PipeEnd) (events : Word) : Word :=
  match pipeEnd with
  | .read =>
    bitIf (hasBits events pollin && (0 < p.count || p.nwrite == 0)) pollin |||
      bitIf (p.nwrite == 0) pollhup
  | .write =>
    if p.nread = 0 then pollerr else bitIf (hasBits events pollout && p.count < pipesz) pollout

/-- `socket_poll`. -/
def socketPoll (m : Machine) (n : Nat) (events : Word) : Word :=
  if nsocket ≤ n ∨ (m.kernel.sockets n).used = false then pollerr
  else bitIf (hasBits events pollin && m.queues n ≠ []) pollin ||| bitIf (hasBits events pollout) pollout

/-- `vnode_poll_op` of a file that is not the terminal. -/
def plainPoll (file : File) (events : Word) : Word :=
  bitIf (hasBits events pollin && file.readable) pollin |||
    bitIf (hasBits events pollout && file.writable) pollout

/-- `file_poll`. `isTty` is `vnode_is_tty`. -/
def filePoll (isTty : Vnode → Bool) (m : Machine) (file : File) (events : Word) : Word :=
  match file.type with
  | .none => pollerr
  | .file =>
    if isTty (m.kernel.openFiles file.object).vnode then m.tty.poll events else plainPoll file events
  | .pipe => pipePollOp (m.kernel.pipes file.object) file.pipeEnd events
  | .socket => socketPoll m file.object events

/-! ## Steps -/

/-- A step that may change what `file_poll` reports. A character comes with the processes
that a signal of the terminal interrupts, a datagram with the sockets whose addresses it
matches, and a call with what it learns from user memory. -/
inductive PollStep where
  | character (ch : Byte) (interrupted : Fin maxProc → Bool)
  | closeInput
  | pipeRead (caller : Fin maxProc) (file : File) (len : Nat)
  | pipeWrite (caller : Fin maxProc) (file : File) (buf : Nat → Byte) (len : Nat)
  | pipeClose (pp : Nat) (pipeEnd : PipeEnd)
  | arrival (accepts : Nat → Bool) (datagram : Datagram)
  | consume (caller : Fin maxProc) (n : Nat) (access copied : Bool)
  | socketClose (n : Nat)

/-- One effect of the terminal driver on the processes. -/
def applyTtyEffect (interrupted : Fin maxProc → Bool) (s : Kernel) : TtyEffect → Kernel
  | .pollWakeup => pollWakeup s
  | .signal _ =>
    { s with procs := fun i =>
        if interrupted i ∧ (s.procs i).state = .sleeping then { s.procs i with state := .runnable }
        else s.procs i }
  | .interbyte => s

/-- The driver is done, and its effects reach the processes. -/
def Machine.driven (m : Machine) (interrupted : Fin maxProc → Bool) (result : Tty × List TtyEffect) :
    Machine :=
  { m with tty := result.1, kernel := result.2.foldl (applyTtyEffect interrupted) m.kernel }

/-- The end of `net_receive_udp`: the first socket that matches gets the datagram, if its
queue of four has room. -/
def netReceiveUdp (m : Machine) (accepts : Nat → Bool) (datagram : Datagram) : Machine :=
  match (List.range nsocket).find? fun n => (m.kernel.sockets n).used && accepts n with
  | none => m
  | some n =>
    if 4 ≤ (m.queues n).length then m
    else
      { m with
        queues := Function.update m.queues n (m.queues n ++ [datagram])
        kernel := pollWakeup (wakeup m.kernel (.socket n)) }

/-- `socket_receive_datagram`, without its result. -/
def socketReceiveDatagram (m : Machine) (caller : Fin maxProc) (n : Nat) (access copied : Bool) :
    Machine :=
  if access = false then m
  else if m.queues n = [] then { m with kernel := sleep m.kernel caller (.socket n) }
  else if copied = false then m
  else
    { m with
      queues := Function.update m.queues n (m.queues n).tail
      kernel := pollWakeup m.kernel }

/-- The state after a step. -/
def Machine.step (m : Machine) : PollStep → Machine
  | .character ch interrupted => m.driven interrupted (m.tty.receive ch)
  | .closeInput => m.driven (fun _ => false) m.tty.closeInput
  | .pipeRead caller file len => { m with kernel := (pipeReadOp m.kernel caller file len).2 }
  | .pipeWrite caller file buf len => { m with kernel := (pipeWriteOp m.kernel caller file buf len).2 }
  | .pipeClose pp pipeEnd => { m with kernel := pipeCloseOp m.kernel pp pipeEnd }
  | .arrival accepts datagram => netReceiveUdp m accepts datagram
  | .consume caller n access copied => socketReceiveDatagram m caller n access copied
  | .socketClose n => { m with kernel := socketClose m.kernel n }

/-! ## Wake-ups -/

/-- A process sleeps in `sys_poll`. -/
def Polls (s : Kernel) (idx : Fin maxProc) : Prop :=
  idx.val < s.nproc ∧ (s.procs idx).state = .sleeping ∧ (s.procs idx).chan = .poll

/-- Everybody who polls can run. -/
def WakesAll (s t : Kernel) : Prop := ∀ idx, Polls s idx → (t.procs idx).state = .runnable

/-- Nothing that was not ready has become ready. -/
def NoReadier (isTty : Vnode → Bool) (m n : Machine) : Prop :=
  ∀ file events, filePoll isTty m file events = 0 → filePoll isTty n file events = 0

theorem wakes_all_wakeup {t : Kernel} (chan : Chan) (woken : WakesAll s t) :
    WakesAll s (wakeup t chan) := by
  intro idx polls
  have running := woken idx polls
  simp only [wakeup]
  split
  · rfl
  · exact running

/-- `poll_wakeup` after a change of other tables. -/
theorem poll_wakeup_wakes {t : Kernel} (procs : t.procs = s.procs) (nproc : t.nproc = s.nproc) :
    WakesAll s (pollWakeup t) := by
  rintro idx ⟨inTable, asleep, onPoll⟩
  simp only [pollWakeup, wakeup, procs, nproc]
  rw [if_pos ⟨inTable, asleep, onPoll⟩]

/-- Effects of the terminal driver with a wake-up among them. -/
theorem effects_wake (interrupted : Fin maxProc → Bool) (effects : List TtyEffect) (s : Kernel)
    (idx : Fin maxProc) (told : Polls s idx ∧ .pollWakeup ∈ effects ∨
      (s.procs idx).state = .runnable) :
    ((effects.foldl (applyTtyEffect interrupted) s).procs idx).state = .runnable := by
  induction effects generalizing s with
  | nil => simpa using told
  | cons effect rest ih =>
    refine ih _ ?_
    cases effect with
    | pollWakeup =>
      refine .inr ?_
      rcases told with ⟨polls, -⟩ | running
      · exact poll_wakeup_wakes rfl rfl idx polls
      · simp [applyTtyEffect, pollWakeup, wakeup, running]
    | signal number =>
      rcases told with ⟨polls, later⟩ | running
      · by_cases hit : interrupted idx = true
        · exact .inr (by simp [applyTtyEffect, hit, polls.2.1])
        · refine .inl ⟨?_, by simpa using later⟩
          simpa [Polls, applyTtyEffect, hit] using polls
      · exact .inr (by simp [applyTtyEffect, running])
    | interbyte =>
      exact told.imp (fun both => ⟨both.1, by simpa using both.2⟩) id

/-- The driver changes no table but that of the processes. -/
theorem effects_tables (interrupted : Fin maxProc → Bool) (effects : List TtyEffect) (s : Kernel) :
    let t := effects.foldl (applyTtyEffect interrupted) s
    t.openFiles = s.openFiles ∧ t.pipes = s.pipes ∧ t.sockets = s.sockets := by
  induction effects generalizing s with
  | nil => exact ⟨rfl, rfl, rfl⟩
  | cons effect rest ih =>
    obtain ⟨openFiles, pipes, sockets⟩ := ih (applyTtyEffect interrupted s effect)
    cases effect <;> exact ⟨openFiles, pipes, sockets⟩

theorem no_readier_of {n : Machine} (tty : ∀ events, m.tty.poll events = 0 → n.tty.poll events = 0)
    (openFiles : n.kernel.openFiles = m.kernel.openFiles) (pipes : n.kernel.pipes = m.kernel.pipes)
    (sockets : n.kernel.sockets = m.kernel.sockets) (queues : n.queues = m.queues) :
    NoReadier isTty m n := by
  intro file events unready
  unfold filePoll socketPoll at *
  rw [openFiles, pipes, sockets, queues]
  cases type : file.type with
  | file =>
    simp only [type] at unready ⊢
    by_cases terminal : isTty (m.kernel.openFiles file.object).vnode = true
    · rw [if_pos terminal] at unready ⊢
      exact tty events unready
    · rwa [if_neg terminal] at unready ⊢
  | none | pipe | socket => simpa only [type] using unready

theorem same_ready_poll {t u : Tty} (same : t.SameReady u) (events : Word) :
    u.poll events = t.poll events := by
  rw [Tty.poll, same.input, same.eofPending, same.closed, Tty.poll]

/-- The step of the terminal driver. -/
theorem driven_wakes (interrupted : Fin maxProc → Bool) {result : Tty × List TtyEffect}
    (told : .pollWakeup ∈ result.2 ∨ m.tty.SameReady result.1) :
    WakesAll m.kernel (m.driven interrupted result).kernel ∨ NoReadier isTty m (m.driven interrupted result) := by
  rcases told with woken | same
  · exact .inl fun idx polls => effects_wake interrupted result.2 m.kernel idx (.inl ⟨polls, woken⟩)
  obtain ⟨openFiles, pipes, sockets⟩ := effects_tables interrupted result.2 m.kernel
  exact .inr (no_readier_of (fun events unready => (same_ready_poll same events).trans unready)
    openFiles pipes sockets rfl)

/-- Only the processes change. -/
theorem no_readier_procs (openFiles : s.openFiles = m.kernel.openFiles)
    (pipes : s.pipes = m.kernel.pipes) (sockets : s.sockets = m.kernel.sockets) :
    NoReadier isTty m { m with kernel := s } :=
  no_readier_of (fun _ unready => unready) openFiles pipes sockets rfl

theorem pipe_read_wakes (caller : Fin maxProc) (file : File) (len : Nat) :
    WakesAll m.kernel (pipeReadOp m.kernel caller file len).2 ∨
      NoReadier isTty m { m with kernel := (pipeReadOp m.kernel caller file len).2 } := by
  unfold pipeReadOp
  simp only
  split
  · exact .inr (no_readier_procs rfl rfl rfl)
  split
  · exact .inl (wakes_all_wakeup _ (poll_wakeup_wakes rfl rfl))
  · split <;> exact .inr (no_readier_procs rfl rfl rfl)

theorem pipe_write_wakes (caller : Fin maxProc) (file : File) (buf : Nat → Byte) (len : Nat) :
    WakesAll m.kernel (pipeWriteOp m.kernel caller file buf len).2 ∨
      NoReadier isTty m { m with kernel := (pipeWriteOp m.kernel caller file buf len).2 } := by
  unfold pipeWriteOp
  simp only
  split
  · exact .inr (no_readier_procs rfl rfl rfl)
  split
  · exact .inr (no_readier_procs rfl rfl rfl)
  split
  · exact .inr (no_readier_procs rfl rfl rfl)
  · exact .inl (wakes_all_wakeup _ (poll_wakeup_wakes rfl rfl))

theorem wakeup_polls {chan : Chan} (other : chan ≠ .poll) {idx : Fin maxProc} (polls : Polls s idx) :
    Polls (wakeup s chan) idx := by
  obtain ⟨inTable, asleep, onPoll⟩ := polls
  have missed : ¬ (idx.val < s.nproc ∧ (s.procs idx).state = .sleeping ∧ (s.procs idx).chan = chan) :=
    fun hit => other (hit.2.2.symm.trans onPoll)
  simp only [Polls, wakeup, if_neg missed]
  exact ⟨inTable, asleep, onPoll⟩

/-- `wakeup` of an object and then of those who poll. -/
theorem wakeup_then_polls {t : Kernel} {chan : Chan} (other : chan ≠ .poll)
    (procs : t.procs = s.procs) (nproc : t.nproc = s.nproc) :
    WakesAll s (pollWakeup (wakeup t chan)) := by
  intro idx polls
  refine poll_wakeup_wakes rfl rfl idx (wakeup_polls other ?_)
  simpa only [Polls, procs, nproc] using polls

theorem pipe_close_wakes (s : Kernel) (pp : Nat) (pipeEnd : PipeEnd) :
    WakesAll s (pipeCloseOp s pp pipeEnd) := by
  have closing : WakesAll s (pipeClosing s pp pipeEnd) := wakeup_then_polls (by simp) rfl rfl
  unfold pipeCloseOp
  simp only
  split
  · exact closing
  · exact closing

/-- Every step but the end of input wakes those who poll, or makes nothing ready. -/
theorem step_wakes (e : PollStep)
    (other : ∀ ch interrupted, e = .character ch interrupted → ¬ m.tty.EndsInput (typed ch)) :
    WakesAll m.kernel (m.step e).kernel ∨ NoReadier isTty m (m.step e) := by
  cases e with
  | character ch interrupted => exact driven_wakes interrupted (receive_wakes (other ch interrupted rfl))
  | closeInput =>
    refine driven_wakes _ ?_
    unfold Tty.closeInput
    split
    · exact .inr ⟨rfl, rfl, rfl⟩
    · exact .inl (List.mem_append_right _ List.mem_cons_self)
  | pipeRead caller file len => exact pipe_read_wakes caller file len
  | pipeWrite caller file buf len => exact pipe_write_wakes caller file buf len
  | pipeClose pp pipeEnd => exact .inl (pipe_close_wakes m.kernel pp pipeEnd)
  | arrival accepts datagram =>
    simp only [Machine.step, netReceiveUdp]
    split
    · exact .inr fun _ _ unready => unready
    split
    · exact .inr fun _ _ unready => unready
    · exact .inl (wakeup_then_polls (by simp) rfl rfl)
  | consume caller n access copied =>
    simp only [Machine.step, socketReceiveDatagram]
    split
    · exact .inr fun _ _ unready => unready
    split
    · exact .inr (no_readier_procs rfl rfl rfl)
    split
    · exact .inr fun _ _ unready => unready
    · exact .inl (poll_wakeup_wakes rfl rfl)
  | socketClose n =>
    simp only [Machine.step, socketClose]
    split
    · exact .inr fun _ _ unready => unready
    · exact .inl (poll_wakeup_wakes rfl rfl)

/-- The mask that `sys_poll` gives to `file_poll`. -/
def pollMask (events : Word) : Word := events ||| pollerr ||| pollhup

/-- Whoever sleeps in `sys_poll` and has a watched descriptor become ready can run after the
step. -/
def Woken (isTty : Vnode → Bool) (watches : Fin maxProc → List (File × Word)) (m : Machine)
    (e : PollStep) : Prop :=
  ∀ idx, Polls m.kernel idx → ∀ w ∈ watches idx, filePoll isTty m w.1 (pollMask w.2) = 0 →
    filePoll isTty (m.step e) w.1 (pollMask w.2) ≠ 0 → ((m.step e).kernel.procs idx).state = .runnable

/-- The input of an idle terminal ends in an empty line, while somebody polls the terminal for
input. -/
def Missed (isTty : Vnode → Bool) (watches : Fin maxProc → List (File × Word)) (m : Machine) :
    PollStep → Prop
  | .character ch _ => m.tty.EndsInput (typed ch) ∧ m.tty.input = [] ∧ m.tty.eofPending = 0 ∧
    m.tty.closed = false ∧ ∃ idx, Polls m.kernel idx ∧ ∃ w ∈ watches idx, w.1.type = .file ∧
      isTty (m.kernel.openFiles w.1.object).vnode = true ∧ hasBits (pollMask w.2) pollin = true ∧
      hasBits (pollMask w.2) pollout = false
  | _ => False

/-- A terminal whose input ends. -/
theorem poll_ends_input (t : Tty) (events : Word) :
    (t.poll events = 0 ∧ ({ t with eofPending := t.eofPending + 1 } : Tty).poll events ≠ 0) ↔
      (t.input = [] ∧ t.eofPending = 0 ∧ t.closed = false ∧ hasBits events pollin = true ∧
        hasBits events pollout = false) := by
  unfold Tty.poll
  generalize hasBits events pollin = input
  generalize hasBits events pollout = output
  -- Four bits decide what is reported before and after.
  cases input <;> cases output <;> cases t.closed <;> by_cases empty : t.input = [] <;>
    by_cases none : t.eofPending = 0 <;> simp [bitIf, pollin, pollout, pollhup, empty, none]

/-- The input ends, and `file_poll` reports it. -/
theorem step_ends_input {ch : Byte} (interrupted : Fin maxProc → Bool)
    (ends : m.tty.EndsInput (typed ch)) : m.step (.character ch interrupted) =
      { m with tty := { m.tty with eofPending := m.tty.eofPending + 1 } } := by
  simp only [Machine.step, Tty.receive, receive_ends_input ends, Machine.driven, List.foldl_nil]

/-- No wake-up is lost, except where the input of the terminal ends in an empty line. -/
theorem poll_wakeups_iff (isTty : Vnode → Bool) (watches : Fin maxProc → List (File × Word))
    (m : Machine) (e : PollStep) : Woken isTty watches m e ↔ ¬ Missed isTty watches m e := by
  constructor
  · intro woken missed
    cases e with
    | character ch interrupted =>
      obtain ⟨ends, empty, none, opened, idx, polls, w, watched, type, terminal, wanted, unwanted⟩ := missed
      have flips := (poll_ends_input m.tty (pollMask w.2)).mpr ⟨empty, none, opened, wanted, unwanted⟩
      have running := woken idx polls w watched
      rw [step_ends_input interrupted ends] at running
      simp only [filePoll, type, if_pos terminal] at running
      have awake := running flips.1 flips.2
      rw [polls.2.1] at awake
      contradiction
    | closeInput | pipeRead | pipeWrite | pipeClose | arrival | consume | socketClose => exact missed
  · intro fine idx polls w watched unready ready
    by_cases ends : ∃ ch interrupted, e = .character ch interrupted ∧ m.tty.EndsInput (typed ch)
    · obtain ⟨ch, interrupted, rfl, ends⟩ := ends
      refine absurd ?_ fine
      rw [step_ends_input interrupted ends] at ready
      unfold filePoll at unready ready
      cases type : w.1.type with
      | none | pipe | socket =>
        simp only [type] at unready ready
        exact absurd unready ready
      | file =>
        simp only [type] at unready ready
        by_cases terminal : isTty (m.kernel.openFiles w.1.object).vnode = true
        · rw [if_pos terminal] at unready ready
          obtain ⟨empty, none, opened, wanted, unwanted⟩ :=
            (poll_ends_input m.tty (pollMask w.2)).mp ⟨unready, ready⟩
          exact ⟨ends, empty, none, opened, idx, polls, w, watched, type, terminal, wanted, unwanted⟩
        · rw [if_neg terminal] at unready ready
          exact absurd unready ready
    · rcases step_wakes e fun ch interrupted same ended => ends ⟨ch, interrupted, same, ended⟩ with
        woken | still
      · exact woken idx polls
      · exact absurd (still _ _ unready) ready

/-! ## A wake-up that is lost -/

/-- A terminal as `tty_init` leaves it. -/
def bootTty : Tty := ⟨⟨true, true, 3, 26, 127, 21, 4⟩, false, 0, [], []⟩

/-- A descriptor of the terminal. -/
def ttyDescriptor : File := { noFile with type := .file, readable := true }

/-- One process sleeps in `sys_poll`. -/
def pollingMachine : Machine where
  kernel :=
    { procs := fun _ => ⟨.sleeping, .poll, fun _ => ttyDescriptor, Memory.emptyVm⟩
      nproc := 1
      openFiles := fun _ => ⟨true, 1, 0, ⟨.dev, 1, .file⟩⟩
      pipes := fun _ => ⟨false, 0, 0, 0, 0, 0, 0, fun _ => 0, [], []⟩
      sockets := fun _ => ⟨false, 0, 0⟩
      pageCache := fun _ => ⟨false, 0⟩
      released := [] }
  tty := bootTty
  queues := fun _ => []

/-- The end-of-file character on an empty line is not noticed by a process that polls the
terminal for input. -/
theorem end_of_input_missed :
    ¬ Woken (fun node => node.fsType = .dev) (fun _ => [(ttyDescriptor, pollin)]) pollingMachine
      (.character 4 fun _ => false) := by
  intro woken
  exact absurd (woken ⟨0, by decide⟩ ⟨by decide, rfl, rfl⟩ (ttyDescriptor, pollin) List.mem_cons_self
    (by decide +kernel) (by decide +kernel)) (by decide +kernel)

end JsEmulator.Files
