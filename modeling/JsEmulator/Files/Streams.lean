import JsEmulator.Files.ExactCounts
import JsEmulator.Library.Ring

/-!
# Pipes are streams

The ring buffer of a pipe is a queue, and a pipe keeps what was written and what was taken
from it: what was written is what was taken, followed by the queue. Calls other than reads
and writes leave the queues alone. Whoever sleeps on a pipe is woken by every call after
which the pipe is readable, or writable, and before which it was not.
-/

namespace JsEmulator.Files

open JsEmulator.Library (ringContents)
open JsEmulator.Memory (Byte Word maxProc)
open JsEmulator.Process (RunState Chan)

variable {s t : Kernel} {caller : Fin maxProc} {n : Nat} {p : Pipe} {pipeEnd : PipeEnd}
variable {access : Bool} {fd len : Int} {i : Fin nfd} {io : IoAnswer}

/-! ## The queue of a pipe -/

/-- The bytes in a pipe. -/
def Pipe.contents (p : Pipe) : List Byte := ringContents pipesz p.data p.head p.count

/-- The indices are in range and no byte of the history is lost. -/
structure Pipe.Fifo (p : Pipe) : Prop where
  head : p.head < pipesz
  count : p.count ≤ pipesz
  history : p.written = p.taken ++ p.contents

theorem same_stream_fifo {q : Pipe} (same : p.SameStream q) (fifo : p.Fifo) : q.Fifo := by
  obtain ⟨count, head, data, written, taken⟩ := same
  refine ⟨head ▸ fifo.head, count ▸ fifo.count, ?_⟩
  rw [written, taken, fifo.history]
  simp only [Pipe.contents, count, head, data]

/-- The loop of `pipe_write_bytes` appends to the queue. -/
theorem push_bytes_contents (bytes : List Byte) (p : Pipe) (room : p.count + bytes.length ≤ pipesz) :
    (p.pushBytes bytes).contents = p.contents ++ bytes ∧ (p.pushBytes bytes).head = p.head ∧
      (p.pushBytes bytes).count = p.count + bytes.length ∧
      (p.pushBytes bytes).taken = p.taken := by
  induction bytes generalizing p with
  | nil => simp [Pipe.pushBytes]
  | cons b rest ih =>
    rw [List.length_cons] at room
    obtain ⟨contents, head, count, taken⟩ := ih (p.push b) (by
      simp only [Pipe.push]
      omega)
    have pushed : (p.push b).contents = p.contents ++ [b] :=
      Library.ring_push pipesz p.data p.head p.count b (by omega)
    refine ⟨?_, head, ?_, taken⟩
    · calc (p.pushBytes (b :: rest)).contents = (p.push b).contents ++ rest := contents
        _ = p.contents ++ b :: rest := by rw [pushed, List.append_assoc, List.singleton_append]
    · calc (p.pushBytes (b :: rest)).count = p.count + 1 + rest.length := count
        _ = p.count + (b :: rest).length := by rw [List.length_cons]; omega

/-- The loop of `pipe_read_bytes` takes the first bytes of the queue. -/
theorem pop_bytes_contents (n : Nat) (p : Pipe) (head : p.head < pipesz) (enough : n ≤ p.count) :
    p.contents = (Pipe.popBytes n p).1 ++ (Pipe.popBytes n p).2.contents ∧
      (Pipe.popBytes n p).2.head < pipesz ∧ (Pipe.popBytes n p).2.count + n = p.count ∧
      (Pipe.popBytes n p).2.written = p.written := by
  induction n generalizing p with
  | zero => simp [Pipe.popBytes, head]
  | succ n ih =>
    obtain ⟨contents, head', count, written⟩ := ih
      { p with head := (p.head + 1) % pipesz, count := p.count - 1 }
      (Nat.mod_lt _ (by decide)) (by simp only; omega)
    have popped : p.contents = p.data p.head ::
        ({ p with head := (p.head + 1) % pipesz, count := p.count - 1 } : Pipe).contents := by
      have first := Library.ring_pop pipesz p.data p.head (p.count - 1) head
      rwa [Nat.sub_add_cancel (by omega)] at first
    refine ⟨?_, head', ?_, written⟩
    · rw [popped, contents]
      rfl
    · simp only at count
      rw [Pipe.popBytes]
      dsimp only
      omega

/-- Bytes that fit are written. -/
theorem write_fifo (fifo : p.Fifo) {bytes : List Byte} (room : p.count + bytes.length ≤ pipesz) :
    ({ p.pushBytes bytes with written := p.written ++ bytes } : Pipe).Fifo := by
  obtain ⟨contents, head, count, taken⟩ := push_bytes_contents bytes p room
  refine ⟨head ▸ fifo.head, count ▸ room, ?_⟩
  change p.written ++ bytes = (p.pushBytes bytes).taken ++ (p.pushBytes bytes).contents
  rw [contents, taken, fifo.history, List.append_assoc]

/-- Bytes of the queue are read. -/
theorem read_fifo (fifo : p.Fifo) (enough : n ≤ p.count) :
    ({ (Pipe.popBytes n p).2 with taken := p.taken ++ (Pipe.popBytes n p).1 } : Pipe).Fifo := by
  obtain ⟨contents, head, count, written⟩ := pop_bytes_contents n p fifo.head enough
  refine ⟨head, by have := fifo.count; simp only; omega, ?_⟩
  change (Pipe.popBytes n p).2.written =
    p.taken ++ (Pipe.popBytes n p).1 ++ (Pipe.popBytes n p).2.contents
  rw [written, fifo.history, contents, List.append_assoc]

/-! ## What the calls do for the sleepers -/

/-- A pipe has not become readable or writable. -/
structure Pipe.NoReadier (p q : Pipe) : Prop where
  count : q.count = p.count
  nwrite : q.nwrite = 0 → p.nwrite = 0
  nread : q.nread = 0 → p.nread = 0

theorem no_readier_refl (p : Pipe) : p.NoReadier p := ⟨rfl, id, id⟩

/-- A change keeps the queues, and wakes whoever sleeps on a pipe that becomes ready. -/
structure Attends (s t : Kernel) : Prop where
  table : s.nproc ≤ t.nproc
  fifo : (∀ n, (s.pipes n).Fifo) → ∀ n, (t.pipes n).Fifo
  sleepers : ∀ idx n, idx.val < s.nproc → (s.procs idx).state = .sleeping →
    (s.procs idx).chan = .pipe n → (t.procs idx).state = .runnable ∨
      (t.procs idx).state = .sleeping ∧ (t.procs idx).chan = .pipe n ∧
        (s.pipes n).NoReadier (t.pipes n)

theorem attends_refl (s : Kernel) : Attends s s :=
  ⟨le_refl _, fun fifo => fifo, fun _ _ _ asleep onPipe => .inr ⟨asleep, onPipe, no_readier_refl _⟩⟩

/-- Processes that are runnable stay so. -/
theorem tame_attends (s t u : Kernel) (who : Fin maxProc) (before : Attends s t)
    (tame : Tame who t u) : Attends s u := by
  refine ⟨tame.nproc.symm ▸ before.table, ?_, ?_⟩
  · intro fifo n
    exact same_stream_fifo (tame.streams n) (before.fifo fifo n)
  · intro idx n inTable asleep onPipe
    rcases before.sleepers idx n inTable asleep onPipe with woken | ⟨still, onPipe', waits⟩
    · exact .inl (around_running tame.toAround woken)
    rcases tame.state idx with same | ⟨-, woken⟩
    · have still' := same.trans still
      have onPipe'' := (tame.chan idx).trans onPipe'
      have inTable' := Nat.lt_of_lt_of_le inTable before.table
      exact .inr ⟨still', onPipe'', (tame.streams n).count.trans waits.count,
        fun none' => waits.nwrite (tame.writers n idx inTable' still' onPipe'' none'),
        fun none' => waits.nread (tame.readers n idx inTable' still' onPipe'' none')⟩
    · exact .inl woken

/-- The slot of a process that does not sleep on a pipe changes. -/
theorem set_proc_attends (s t : Kernel) (who : Fin maxProc) (before : Attends s t)
    (awake : (s.procs who).state ≠ .sleeping) (f : Proc → Proc) : Attends s (t.setProc who f) := by
  refine ⟨before.table, before.fifo, ?_⟩
  intro idx n inTable asleep onPipe
  have other : idx ≠ who := by
    rintro rfl
    exact awake asleep
  rw [set_proc_elsewhere t who idx f other]
  exact before.sleepers idx n inTable asleep onPipe

/-- The queue of a pipe changes and everybody who sleeps on the pipe is woken. -/
theorem stream_attends {f : Pipe → Pipe} (fifo : (s.pipes n).Fifo → (f (s.pipes n)).Fifo) :
    Attends s (wakeup (pollWakeup (s.setPipe n f)) (.pipe n)) := by
  have here : (s.setPipe n f).pipes n = f (s.pipes n) := by simp [Kernel.setPipe]
  have elsewhere (m : Nat) (different : m ≠ n) : (s.setPipe n f).pipes m = s.pipes m := by
    simp [Kernel.setPipe, different]
  have around : Around ⟨0, by decide⟩ s (wakeup (pollWakeup (s.setPipe n f)) (.pipe n)) :=
    around_trans (around_trans (set_pipe_around s _ n f)
      (wakeup_tame _ _ .poll).toAround) (wakeup_tame _ _ (.pipe n)).toAround
  refine ⟨le_refl _, ?_, ?_⟩
  · intro all m
    change ((s.setPipe n f).pipes m).Fifo
    by_cases same : m = n
    · subst same
      rw [here]
      exact fifo (all m)
    · rw [elsewhere m same]
      exact all m
  · intro idx m inTable asleep onPipe
    rcases around.state idx with same | ⟨-, woken⟩
    · have still := same.trans asleep
      have onPipe' := (around.chan idx).trans onPipe
      have other : m ≠ n := by
        rintro rfl
        exact wakeup_asleep (pollWakeup (s.setPipe m f)) (.pipe m) idx inTable still onPipe'
      refine .inr ⟨still, onPipe', ?_⟩
      change (s.pipes m).NoReadier ((s.setPipe n f).pipes m)
      rw [elsewhere m other]
      exact no_readier_refl _
    · exact .inl woken

section

variable (running : (s.procs caller).state = .runnable)
include running

theorem sleep_attends (chan : Chan) : Attends s (sleep s caller chan) :=
  set_proc_attends s s caller (attends_refl s) (by rw [running]; decide) _

theorem give_attends (io : IoAnswer) : Attends s (io.give s caller).2 := by
  cases io with
  | returns value => exact attends_refl s
  | terminal => exact sleep_attends running .kbd
  | socket n => exact sleep_attends running (.socket n)

theorem transfers_attends (transfers : Transfers s caller t) : Attends s t := by
  cases transfers with
  | refuses => exact attends_refl s
  | gives io => exact give_attends running io
  | sleeps fd isPipe => exact sleep_attends running _
  | pops n len => exact stream_attends fun fifo => read_fifo fifo (min_le_right _ _)
  | pushes n buf len =>
    refine stream_attends fun fifo => write_fifo fifo ?_
    have bounded := fifo.count
    rw [List.length_map, List.length_range]
    omega

end

/-- `sys_pipe` touches only a pipe that nobody uses, and leaves it empty. -/
theorem sys_pipe_pipes (s : Kernel) (caller : Fin maxProc) (access : Bool) (n : Nat) :
    (sysPipe s caller access).2.pipes n = s.pipes n ∨
      (s.pipes n).used = false ∧ ((sysPipe s caller access).2.pipes n).Fifo := by
  have empty (p : Pipe) (fresh : p.count = 0 ∧ p.head = 0 ∧ p.written = [] ∧ p.taken = []) :
      p.Fifo := by
    obtain ⟨none', start, written, taken⟩ := fresh
    refine ⟨by rw [start]; decide, by rw [none']; decide, ?_⟩
    rw [written, taken, Pipe.contents, none']
    rfl
  unfold sysPipe
  split
  · exact .inl rfl
  split
  · exact .inl rfl
  rename_i n' s₁ allocated
  obtain ⟨m, found, same⟩ := Option.map_eq_some_iff.mp allocated
  obtain ⟨rfl, rfl⟩ := Prod.mk.inj same
  have unused : (s.pipes m).used = false := by simpa using List.find?_some found
  by_cases here : n = m
  · subst here
    refine .inr ⟨unused, ?_⟩
    split
    · exact empty _ (by simp [Kernel.setPipe])
    simp only
    split <;> exact empty _ (by simp [Kernel.setPipe, Kernel.setFile, Kernel.setProc, fileSetPipe])
  · refine .inl ?_
    split
    · simp [Kernel.setPipe, here]
    · simp only
      split <;> simp [Kernel.setPipe, Kernel.setFile, Kernel.setProc, fileSetPipe, here]

theorem sys_pipe_attends (settled : Settled s) (caller : Fin maxProc) (access : Bool) :
    Attends s (sysPipe s caller access).2 := by
  have around := sys_pipe_around s caller access
  have pipes := sys_pipe_pipes s caller access
  refine ⟨around.nproc.ge, ?_, ?_⟩
  · intro all n
    rcases pipes n with same | ⟨-, fifo⟩
    · rw [same]
      exact all n
    · exact fifo
  · intro idx n _ asleep onPipe
    rcases around.state idx with same | ⟨-, woken⟩
    · obtain ⟨fd, pipeEnd, held⟩ := settled.asleep idx n asleep onPipe
      have used : (s.pipes n).used = true := sound_held_live s settled.sound _ _ held
      rcases pipes n with unchanged | ⟨unused, -⟩
      · exact .inr ⟨same.trans asleep, (around.chan idx).trans onPipe,
          unchanged ▸ no_readier_refl _⟩
      · rw [used] at unused
        cases unused
    · exact .inl woken

theorem alloc_proc_attends (s t : Kernel) (idx : Fin maxProc)
    (allocated : allocProc s = some (idx, t)) : Attends s t := by
  unfold allocProc at allocated
  split at allocated
  · obtain ⟨-, rfl⟩ := Prod.mk.inj (Option.some.inj allocated)
    exact attends_refl s
  split at allocated
  · obtain ⟨-, rfl⟩ := Prod.mk.inj (Option.some.inj allocated)
    exact ⟨Nat.le_succ _, (attends_refl s).fifo, (attends_refl s).sleepers⟩
  · cases allocated

theorem do_fork_attends (settled : Settled s) (parent : Fin maxProc) (frames : Bool) :
    Attends s (doFork s parent frames).2 := by
  unfold doFork
  split
  · exact attends_refl s
  split
  · exact attends_refl s
  rename_i idx s₁ allocated
  obtain ⟨settled₁, procs, idle, inTable⟩ := alloc_proc_settled s s₁ settled idx allocated
  obtain ⟨tame, copied, -⟩ := forked_child_tame settled₁ parent (by rw [procs]; exact idle)
  have allocating : Attends s s₁ := alloc_proc_attends s s₁ idx allocated
  change Attends s (copyFds (forkedChild s₁ idx parent) idx parent)
  have started : Attends s (forkedChild s₁ idx parent) :=
    set_proc_attends s _ idx (tame_attends s s₁ _ idx allocating tame)
      (by rw [idle]; decide) _
  exact tame_attends s _ _ idx started copied

/-- Every call attends to the sleepers. -/
theorem step_attends (s t : Kernel) (settled : Settled s) (caller : Fin maxProc) (call : Call)
    (answer : Option Int) (ran : step s caller call = some (answer, t)) : Attends s t := by
  obtain ⟨running, stepped⟩ := step_stepped settled.sound ran
  cases stepped with
  | moved moved => exact tame_attends s s t caller (attends_refl s) moved.tame
  | read fd access len io => exact transfers_attends running (sys_read_transfers ..)
  | write fd access buf len io => exact transfers_attends running (sys_write_transfers ..)
  | pipe access => exact sys_pipe_attends settled caller access
  | fork frames => exact do_fork_attends settled caller frames
  | exit =>
    exact set_proc_attends s _ caller
      (tame_attends s s _ caller (attends_refl s) (clear_fds_tame s caller)) (by rw [running]; decide) _
  | reap ended =>
    exact set_proc_attends s _ _ (tame_attends s s _ _ (attends_refl s) (vm_release_tame s _))
      (by rw [ended]; decide) _

/-! ## Runs -/

/-- One move of a run: a call of a runnable process, or an interrupt. -/
inductive Next (s : Kernel) : Kernel → Prop where
  | call (t : Kernel) (caller : Fin maxProc) (call : Call) (answer : Option Int)
      (ran : step s caller call = some (answer, t)) : Next s t
  | terminal : Next s (wakeup s .kbd)
  | network (n : Nat) : Next s (wakeup s (.socket n))

theorem next_attends (settled : Settled s) (next : Next s t) : Attends s t := by
  cases next with
  | call _ caller call answer ran => exact step_attends s t settled caller call answer ran
  | terminal =>
    exact tame_attends s s _ ⟨0, by decide⟩ (attends_refl s) (wakeup_tame s _ .kbd)
  | network n =>
    exact tame_attends s s _ ⟨0, by decide⟩ (attends_refl s) (wakeup_tame s _ (.socket n))

theorem init_fd_tame (s : Kernel) (idx : Fin maxProc) (fd : Fin nfd) (writable : Bool) :
    Tame idx s (initFd s idx fd writable) := by
  unfold initFd
  split
  · exact tame_refl idx s
  · rename_i t made
    exact tame_trans idx s _ _ (file_set_node_tame made)
      (tame_trans idx t _ _ (set_file_tame t idx fd _) (set_status_flags_tame _ idx fd _))

theorem boot_attends (imageEnd : Int) : Attends emptyKernel (setupProcessBoot imageEnd) := by
  unfold setupProcessBoot
  split
  · exact attends_refl _
  rename_i idx s allocated
  have loaded := tame_attends _ s _ idx (alloc_proc_attends _ s idx allocated)
    (vm_init_tame s idx imageEnd)
  have started := set_proc_attends _ _ idx loaded (by simp [emptyKernel]) fun p =>
    { p with state := .runnable }
  exact tame_attends _ _ _ idx started (tame_trans idx _ _ _ (tame_trans idx _ _ _
    (init_fd_tame _ idx _ false) (init_fd_tame _ idx _ true)) (init_fd_tame _ idx _ true))

/-- The queues in every state of a run. -/
theorem run_fifo (run : Run s) : ∀ n, (s.pipes n).Fifo := by
  induction run with
  | boot memsz imageEnd _ =>
    refine (boot_attends imageEnd).fifo fun n => ?_
    exact ⟨Nat.zero_lt_succ _, Nat.zero_le _, rfl⟩
  | step s t caller call answer run ran fifo =>
    exact (step_attends s t (run_settled run) caller call answer ran).fifo fifo
  | terminal s run fifo => exact fifo
  | network s n run fifo => exact fifo

/-- What a reader of a pipe waits for: a byte, or that no process can write any more. -/
def ReadReady (s : Kernel) (n : Nat) : Prop :=
  0 < (s.pipes n).count ∨ descriptors s (.pipe n .write) = 0

/-- What a writer of a pipe waits for: space, or that no process can read any more. -/
def WriteReady (s : Kernel) (n : Nat) : Prop :=
  (s.pipes n).count < pipesz ∨ descriptors s (.pipe n .read) = 0

/-- A pipe in use is ready when its counts say so. -/
theorem read_ready_iff (sound : Sound s) (used : (s.pipes n).used = true) :
    ReadReady s n ↔ 0 < (s.pipes n).count ∨ (s.pipes n).nwrite = 0 := by
  rw [ReadReady, (sound_balanced sound).writers n used, Int.natCast_eq_zero]

theorem write_ready_iff (sound : Sound s) (used : (s.pipes n).used = true) :
    WriteReady s n ↔ (s.pipes n).count < pipesz ∨ (s.pipes n).nread = 0 := by
  rw [WriteReady, (sound_balanced sound).readers n used, Int.natCast_eq_zero]

/-- A sleeper whose pipe becomes ready is woken. -/
theorem ready_wakes (settled : Settled s) (settled' : Settled t) (next : Next s t)
    {idx : Fin maxProc} (asleep : (s.procs idx).state = .sleeping)
    (onPipe : (s.procs idx).chan = .pipe n)
    (ready : (¬ ReadReady s n ∧ ReadReady t n) ∨ (¬ WriteReady s n ∧ WriteReady t n)) :
    (t.procs idx).state = .runnable := by
  have inUse (u : Kernel) (settled : Settled u) (asleep : (u.procs idx).state = .sleeping)
      (onPipe : (u.procs idx).chan = .pipe n) : (u.pipes n).used = true := by
    obtain ⟨fd, pipeEnd, held⟩ := settled.asleep idx n asleep onPipe
    exact sound_held_live u settled.sound _ _ held
  rcases (next_attends settled next).sleepers idx n
    (settled_in_table s settled idx (by rw [asleep]; decide)) asleep onPipe with
    woken | ⟨still, onPipe', waits⟩
  · exact woken
  have used := inUse s settled asleep onPipe
  have used' := inUse t settled' still onPipe'
  rw [read_ready_iff settled.sound used, read_ready_iff settled'.sound used',
    write_ready_iff settled.sound used, write_ready_iff settled'.sound used',
    waits.count] at ready
  rcases ready with ⟨before, after⟩ | ⟨before, after⟩
  · exact absurd (after.imp id waits.nwrite) before
  · exact absurd (after.imp id waits.nread) before

theorem next_settled (settled : Settled s) (next : Next s t) : Settled t := by
  cases next with
  | call _ caller call answer ran => exact step_settled settled ran
  | terminal => exact wakeup_settled settled .kbd
  | network n => exact wakeup_settled settled (.socket n)

/-- The file of a descriptor that refers to a pipe. -/
theorem refers_pipe {file : File} (refers : file.refers = some (.pipe n pipeEnd)) :
    file.type = .pipe ∧ file.object = n ∧
      file.pipeEnd = pipeEnd := by
  unfold File.refers at refers
  split at refers <;> simp_all

/-- A read of at least one byte that returns 0. -/
theorem read_returns_zero (positive : 0 < len) (found : fdIndex fd = some i)
    (held : s.holds (.fd caller i) = some (.pipe n pipeEnd))
    (ran : step s caller (.read fd access len io) = some (some 0, t)) :
    (s.pipes n).count = 0 ∧ (s.pipes n).nwrite = 0 := by
  obtain ⟨isPipe, object, -⟩ := refers_pipe held
  unfold step at ran
  split at ran
  · cases ran
  simp only [Option.some.injEq, sysRead, if_neg (show ¬ len < 0 by omega), found] at ran
  split at ran
  · cases ran
  unfold fileRead at ran
  split at ran
  · cases ran
  rw [if_neg (by simp [isPipe])] at ran
  split at ran
  · cases ran
  unfold pipeReadOp at ran
  simp only [object] at ran
  split at ran
  · cases ran
  split at ran
  · rename_i some'
    have none' := (Prod.mk.inj ran).1
    simp only [pipeReadBytes, Option.some.injEq] at none'
    omega
  · split at ran
    · rename_i empty noWriter
      exact ⟨by omega, noWriter⟩
    · cases ran

/-- A write that returns `-EPIPE`. -/
theorem write_returns_epipe {buf : Nat → Byte} (found : fdIndex fd = some i)
    (held : s.holds (.fd caller i) = some (.pipe n pipeEnd))
    (ran : step s caller (.write fd access buf len io) = some (some (-epipe), t)) :
    (s.pipes n).nread = 0 := by
  obtain ⟨isPipe, object, -⟩ := refers_pipe held
  unfold step at ran
  split at ran
  · cases ran
  simp only [Option.some.injEq, sysWrite, found] at ran
  split at ran
  · cases ran
  split at ran
  · cases ran
  unfold fileWrite at ran
  split at ran
  · cases ran
  rw [if_neg (by simp [isPipe])] at ran
  split at ran
  · cases ran
  unfold pipeWriteOp at ran
  simp only [object] at ran
  split at ran
  · cases ran
  split at ran
  · assumption
  split at ran
  · cases ran
  · have code := (Prod.mk.inj ran).1
    simp only [pipeWriteBytes, Option.some.injEq, epipe] at code
    omega

/-- Pipes are lossless streams with at most 512 bytes in them. A read of at least one byte
returns 0 only at the end of the stream, a write fails with `EPIPE` only without readers,
and whoever sleeps on a pipe is woken by any move that makes it ready. -/
theorem pipes_are_streams (s : Kernel) (run : Run s) :
    (∀ n, (s.pipes n).taken <+: (s.pipes n).written ∧
      (s.pipes n).written.length ≤ (s.pipes n).taken.length + pipesz) ∧
    (∀ caller fd access len io t i n pipeEnd, 0 < len → fdIndex fd = some i →
      s.holds (.fd caller i) = some (.pipe n pipeEnd) →
      step s caller (.read fd access len io) = some (some 0, t) →
      (s.pipes n).taken = (s.pipes n).written ∧ descriptors s (.pipe n .write) = 0) ∧
    (∀ caller fd access buf len io t i n pipeEnd, fdIndex fd = some i →
      s.holds (.fd caller i) = some (.pipe n pipeEnd) →
      step s caller (.write fd access buf len io) = some (some (-epipe), t) →
      descriptors s (.pipe n .read) = 0) ∧
    ∀ t, Next s t → ∀ idx n, (s.procs idx).state = .sleeping → (s.procs idx).chan = .pipe n →
      (¬ ReadReady s n ∧ ReadReady t n) ∨ (¬ WriteReady s n ∧ WriteReady t n) →
      (t.procs idx).state = .runnable := by
  have settled := run_settled run
  have balanced := sound_balanced settled.sound
  have fifo := run_fifo run
  refine ⟨?_, ?_, ?_, ?_⟩
  · intro n
    have history := (fifo n).history
    refine ⟨⟨_, history.symm⟩, ?_⟩
    have outstanding := (fifo n).count
    rw [history, List.length_append, Pipe.contents, Library.ring_contents_length]
    omega
  · intro caller fd access len io t i n pipeEnd positive found held ran
    obtain ⟨empty, noWriter⟩ := read_returns_zero positive found held ran
    have used : (s.pipes n).used = true := sound_held_live s settled.sound _ _ held
    refine ⟨?_, by exact_mod_cast (balanced.writers n used).symm.trans noWriter⟩
    have history := (fifo n).history
    rw [Pipe.contents, empty] at history
    exact (history.trans (List.append_nil _)).symm
  · intro caller fd access buf len io t i n pipeEnd found held ran
    have noReader := write_returns_epipe found held ran
    have used : (s.pipes n).used = true := sound_held_live s settled.sound _ _ held
    exact_mod_cast (balanced.readers n used).symm.trans noReader
  · intro t next idx n asleep onPipe ready
    exact ready_wakes settled (next_settled settled next) next asleep onPipe ready

/-- Calls one after the other. -/
def runCalls (s : Kernel) (calls : List (Fin maxProc × Call)) : Option Kernel :=
  calls.foldlM (fun s c => (step s c.1 c.2).map Prod.snd) s

theorem run_calls_run (calls : List (Fin maxProc × Call)) (s : Kernel) (run : Run s)
    (ran : runCalls s calls = some t) : Run t := by
  induction calls generalizing s with
  | nil =>
    cases ran
    exact run
  | cons c rest ih =>
    rw [runCalls, List.foldlM_cons] at ran
    obtain ⟨next, stepped, remaining⟩ := Option.bind_eq_some_iff.mp ran
    obtain ⟨⟨answer, u⟩, called, rfl⟩ := Option.map_eq_some_iff.mp stepped
    exact ih u (.step s u c.1 c.2 answer run called) remaining

/-- A process opens a pipe and forks, and its child waits for input. -/
def childReads : List (Fin maxProc × Call) :=
  [(⟨0, by decide⟩, .pipe true), (⟨0, by decide⟩, .fork true),
    (⟨1, by decide⟩, .read 3 true 8 (.returns 0))]

/-- The parent writes one byte, which wakes the child. -/
theorem pipes_are_streams_child_woken :
    ∃ s t, Run s ∧ (s.procs ⟨1, by decide⟩).state = .sleeping ∧ Next s t ∧
      (t.procs ⟨1, by decide⟩).state = .runnable := by
  have slept : (runCalls (setupProcessBoot (Memory.userBase + 4096)) childReads).map
      (fun s => ((s.procs ⟨1, by decide⟩).state, (s.procs ⟨1, by decide⟩).chan, (s.pipes 0).count,
        descriptors s (.pipe 0 .write))) = some (.sleeping, .pipe 0, 0, 2) := by
    decide +kernel
  have wrote : ((runCalls (setupProcessBoot (Memory.userBase + 4096)) childReads).bind fun s =>
      (step s ⟨0, by decide⟩ (.write 4 true (fun _ => 7) 1 (.returns 0))).map
        fun result => (result.2.pipes 0).count) = some 1 := by
    decide +kernel
  obtain ⟨s, ran, facts⟩ := Option.map_eq_some_iff.mp slept
  simp only [Prod.mk.injEq] at facts
  obtain ⟨asleep, onPipe, empty, writers⟩ := facts
  rw [ran, Option.bind_some] at wrote
  obtain ⟨⟨answer, t⟩, stepped, one⟩ := Option.map_eq_some_iff.mp wrote
  have run := run_calls_run childReads _ (.boot 4096 _ (by decide +kernel)) ran
  have next : Next s t := .call t _ _ answer stepped
  refine ⟨s, t, run, asleep, next, ?_⟩
  refine (pipes_are_streams s run).2.2.2 t next _ 0 asleep onPipe (.inl ⟨?_, .inl (one ▸ Nat.zero_lt_one)⟩)
  rw [ReadReady, empty, writers]
  decide

/-- A read of no bytes returns 0 although a byte is waiting and both ends are open. -/
theorem empty_read_returns_zero :
    ∃ s t, Run s ∧ s.holds (.fd ⟨0, by decide⟩ ⟨3, by decide⟩) = some (.pipe 0 .read) ∧
      step s ⟨0, by decide⟩ (.read 3 true 0 (.returns 0)) = some (some 0, t) ∧
      (s.pipes 0).count = 1 ∧ descriptors s (.pipe 0 .write) = 1 := by
  have wrote : (runCalls (setupProcessBoot (Memory.userBase + 4096)) [(⟨0, by decide⟩, .pipe true),
        (⟨0, by decide⟩, .write 4 true (fun _ => 7) 1 (.returns 0))]).bind
      (fun s => (step s ⟨0, by decide⟩ (.read 3 true 0 (.returns 0))).map fun result =>
        (result.1, s.holds (.fd ⟨0, by decide⟩ ⟨3, by decide⟩), (s.pipes 0).count,
          descriptors s (.pipe 0 .write))) =
      some (some 0, some (.pipe 0 .read), 1, 1) := by
    decide +kernel
  obtain ⟨s, ran, rest⟩ := Option.bind_eq_some_iff.mp wrote
  obtain ⟨⟨answer, t⟩, stepped, facts⟩ := Option.map_eq_some_iff.mp rest
  simp only [Prod.mk.injEq] at facts
  obtain ⟨rfl, held, one, writers⟩ := facts
  exact ⟨s, t, run_calls_run _ _ (.boot 4096 _ (by decide +kernel)) ran, held, stepped, one,
    writers⟩

end JsEmulator.Files
