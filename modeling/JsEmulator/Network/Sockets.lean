import JsEmulator.Network.Stack

/-!
# Sockets and their ports

What every sequence of calls keeps: open sockets have different local ports, and the ring
of a socket holds the datagrams that have arrived and have not been returned, in order.
The search for an ephemeral port starts where the last one ended and never goes back, so
it finds a free port only if there is one above all those it has tried.
-/

namespace JsEmulator.Network

variable {s t : Stack} {i : Nat} {f : Socket → Socket}

/-- The queued datagrams, first come first. -/
def Socket.pending (socket : Socket) : List Datagram :=
  (List.range socket.queueCount).map (fun k => socket.queue ((socket.queueHead + k) % 4))

/-- A well-kept socket. -/
structure Socket.Sound (socket : Socket) : Prop where
  type : socket.used = true → socket.type = sockDgram
  address : socket.localAddress = 0 ∨ socket.localAddress = netGuestIp
  port : socket.localPort < 65536
  head : socket.queueHead < 4
  count : socket.queueCount ≤ 4
  history : socket.returned ++ socket.pending = socket.arrived

/-- A well-kept table: every socket is, and no two open ones share a port. -/
structure Stack.Sound (s : Stack) : Prop where
  sockets : ∀ i, (s.sockets i).Sound
  ports : ∀ i j, s.Open i → s.Open j → (s.sockets i).localPort = (s.sockets j).localPort →
    (s.sockets i).localPort ≠ 0 → i = j
  ephemeral : 49152 ≤ s.ephemeralPort

/-- A socket with nothing in it. -/
theorem empty_socket_sound (used : Bool) (refs : Nat) (type : Int)
    (dgram : used = true → type = sockDgram) :
    Socket.Sound { emptySocket with used := used, refs := refs, type := type } :=
  ⟨dgram, .inl rfl, Nat.zero_lt_succ _, Nat.zero_lt_succ _, Nat.zero_le _, rfl⟩

@[simp] theorem set_socket_same (s : Stack) (i : Nat) (f : Socket → Socket) :
    (s.setSocket i f).sockets i = f (s.sockets i) := by
  simp [Stack.setSocket]

theorem set_socket_other (s : Stack) (i j : Nat) (f : Socket → Socket) (different : j ≠ i) :
    (s.setSocket i f).sockets j = s.sockets j := by
  simp [Stack.setSocket, different]

/-- A change of one socket that keeps ports apart. -/
theorem set_socket_sound (sound : s.Sound) (own : (f (s.sockets i)).Sound)
    (apart : (f (s.sockets i)).used = true → (f (s.sockets i)).localPort ≠ 0 →
      ∀ j, j ≠ i → s.Open j → (s.sockets j).localPort ≠ (f (s.sockets i)).localPort) :
    (s.setSocket i f).Sound := by
  have others (j : Nat) (different : j ≠ i) (isOpen : (s.setSocket i f).Open j) : s.Open j := by
    refine ⟨isOpen.1, ?_⟩
    rw [← set_socket_other s i j f different]
    exact isOpen.2
  constructor
  case sockets =>
    intro j
    by_cases same : j = i
    · subst same
      rwa [set_socket_same]
    · rw [set_socket_other s i j f same]
      exact sound.sockets j
  case ports =>
    intro j k openJ openK equal bound
    by_cases first : j = i
    · subst first
      by_contra different
      have usedJ := openJ.2
      rw [set_socket_same] at equal bound usedJ
      rw [set_socket_other s j k f (Ne.symm different)] at equal
      exact apart usedJ bound k (Ne.symm different) (others k (Ne.symm different) openK) equal.symm
    · by_cases second : k = i
      · subst second
        have usedK := openK.2
        rw [set_socket_other s k j f first] at equal bound
        rw [set_socket_same] at equal usedK
        exact absurd equal (apart usedK (equal ▸ bound) j first (others j first openJ))
      · rw [set_socket_other s i j f first] at equal bound
        rw [set_socket_other s i k f second] at equal
        exact sound.ports j k (others j first openJ) (others k second openK) equal bound
  case ephemeral => exact sound.ephemeral

/-- The same when the port stays and the socket is not opened. -/
theorem set_socket_kept (sound : s.Sound) (inTable : i < nsocket) (own : (f (s.sockets i)).Sound)
    (port : (f (s.sockets i)).localPort = (s.sockets i).localPort)
    (used : (f (s.sockets i)).used = true → (s.sockets i).used = true) : (s.setSocket i f).Sound := by
  refine set_socket_sound sound own ?_
  intro isUsed bound j different openJ equal
  rw [port] at bound equal
  exact different (sound.ports j i openJ ⟨inTable, used isUsed⟩ equal (equal ▸ bound))

theorem port_unused_iff (s : Stack) (port : Nat) :
    s.portUsed port = false ↔ ∀ j, s.Open j → (s.sockets j).localPort ≠ port := by
  simp only [Stack.portUsed, List.any_eq_false, List.mem_range, Bool.and_eq_true, beq_iff_eq,
    not_and, Stack.Open, and_imp]

/-- The search takes the first unused port from the counter on, or finds none. -/
theorem allocate_loop_spec (i : Nat) (s : Stack) :
    (∃ port, s.ephemeralPort ≤ port ∧ port < 65535 ∧ s.portUsed port = false ∧
      allocateLoop i s = ((port : Int), { s with ephemeralPort := port + 1 }.setSocket i
        (fun socket => { socket with localPort := port }))) ∨
    ((∀ port, s.ephemeralPort ≤ port → port < 65535 → s.portUsed port = true) ∧
      ∃ last, s.ephemeralPort ≤ last ∧
        allocateLoop i s = (-eaddrinuse, { s with ephemeralPort := last })) := by
  fun_induction allocateLoop i s with
  | case1 s more candidate next used ih =>
    -- The candidate is used: the rest of the search starts behind it.
    rcases ih with ⟨port, above, below, unused, found⟩ | ⟨none, last, above, found⟩
    · have later : s.ephemeralPort ≤ port := Nat.le_of_succ_le above
      exact .inl ⟨port, later, below, unused, found⟩
    refine .inr ⟨?_, last, Nat.le_of_succ_le above, found⟩
    intro port from_ below
    rcases Nat.eq_or_lt_of_le from_ with here | behind
    · exact here ▸ used
    · exact none port behind below
  | case2 s more candidate next unused =>
    exact .inl ⟨s.ephemeralPort, le_rfl, more, Bool.eq_false_iff.mpr unused, rfl⟩
  | case3 s done =>
    exact .inr ⟨fun port above below => absurd (above.trans_lt below) done, _, le_rfl, rfl⟩

/-- Finding a port keeps the table. A port that is returned is the socket's own. -/
theorem socket_allocate_sound (sound : s.Sound) :
    (socketAllocatePort i s).2.Sound ∧ (0 ≤ (socketAllocatePort i s).1 →
      (socketAllocatePort i s).1 = (((socketAllocatePort i s).2.sockets i).localPort : Int) ∧
        ((socketAllocatePort i s).2.sockets i).localPort ≠ 0) := by
  unfold socketAllocatePort
  split
  case isTrue bound => exact ⟨sound, fun _ => ⟨rfl, bound⟩⟩
  rcases allocate_loop_spec i s with ⟨port, above, below, unused, found⟩ | ⟨-, last, above, found⟩
  · rw [found]
    have low := sound.ephemeral
    have moved : { s with ephemeralPort := port + 1 }.Sound :=
      ⟨sound.sockets, sound.ports, by simp only; omega⟩
    refine ⟨?_, fun _ => by simp; omega⟩
    refine set_socket_sound (i := i) (f := fun socket => { socket with localPort := port }) moved ?_ ?_
    · have own := sound.sockets i
      exact ⟨own.type, own.address, by simp only; omega, own.head, own.count, own.history⟩
    · intro _ _ j _ openJ
      exact (port_unused_iff s port).mp unused j openJ
  · rw [found]
    refine ⟨⟨sound.sockets, sound.ports, ?_⟩, fun nonnegative => ?_⟩
    · exact sound.ephemeral.trans above
    · simp [eaddrinuse] at nonnegative

/-- A queued datagram is the last to be returned. -/
theorem enqueue_pending (socket : Socket) (datagram : Datagram) (room : socket.queueCount < 4) :
    (socket.enqueue datagram).pending = socket.pending ++ [datagram] := by
  have earlier (k : Nat) (queued : k < socket.queueCount) :
      (socket.queueHead + k) % 4 ≠ (socket.queueHead + socket.queueCount) % 4 := by omega
  simp only [Socket.pending, Socket.enqueue, List.range_succ, List.map_append, List.map_cons,
    List.map_nil, Function.update_self]
  congr 1
  refine List.map_congr_left ?_
  intro k member
  rw [Function.update_of_ne (earlier k (List.mem_range.mp member))]

theorem enqueue_sound {socket : Socket} (sound : socket.Sound) (datagram : Datagram)
    (room : socket.queueCount < 4) : (socket.enqueue datagram).Sound := by
  refine ⟨sound.type, sound.address, sound.port, sound.head, room, ?_⟩
  rw [enqueue_pending socket datagram room, ← List.append_assoc]
  exact congrArg (· ++ [datagram]) sound.history

/-- The first queued datagram, and those that stay when it is returned. -/
theorem pending_cons (socket : Socket) (queued : socket.queueCount ≠ 0) (small : socket.queueHead < 4) :
    socket.pending = socket.queue socket.queueHead ::
      { socket with
        queueHead := (socket.queueHead + 1) % 4, queueCount := socket.queueCount - 1 }.pending := by
  obtain ⟨rest, counted⟩ := Nat.exists_eq_succ_of_ne_zero queued
  simp only [Socket.pending, counted, Nat.succ_eq_add_one, List.range_succ_eq_map, List.map_cons,
    List.map_map, Nat.add_zero, Nat.mod_eq_of_lt small, Nat.add_sub_cancel]
  congr 1
  refine List.map_congr_left ?_
  intro k _
  have place : (socket.queueHead + (k + 1)) % 4 = ((socket.queueHead + 1) % 4 + k) % 4 := by omega
  simp only [Function.comp_apply, place]

theorem receive_datagram_sound (sound : s.Sound) (isOpen : s.Open i) (length : Int)
    (writable copied : Bool) : (socketReceiveDatagram i length writable copied s).2.Sound := by
  unfold socketReceiveDatagram
  simp only
  split_ifs with negative refused none failed
  · exact sound
  · exact sound
  · exact sound
  · exact sound
  · have own := sound.sockets i
    dsimp only
    refine set_socket_kept sound isOpen.1 ?_ rfl id
    refine ⟨own.type, own.address, own.port, Nat.mod_lt _ (by decide), ?_, ?_⟩
    · exact (Nat.sub_le _ _).trans own.count
    · have split := pending_cons (s.sockets i) none own.head
      rw [← own.history, split]
      simp [Socket.pending]

@[simp] theorem net_learn_arp_sockets (address : Nat) (mac : Buffer) (s : Stack) :
    (netLearnArp address mac s).sockets = s.sockets ∧
      (netLearnArp address mac s).ephemeralPort = s.ephemeralPort := by
  unfold netLearnArp
  split <;> exact ⟨rfl, rfl⟩

theorem same_sockets_sound (sound : s.Sound) (sockets : t.sockets = s.sockets)
    (ephemeral : t.ephemeralPort = s.ephemeralPort) : t.Sound := by
  refine ⟨fun i => sockets ▸ sound.sockets i, ?_, ephemeral ▸ sound.ephemeral⟩
  unfold Stack.Open
  rw [sockets]
  exact sound.ports

theorem deliver_datagram_sound (sound : s.Sound) (port : Nat) (datagram : Datagram) :
    (deliverDatagram port datagram s).Sound := by
  unfold deliverDatagram
  split
  · exact sound
  case h_2 i found =>
    split
    · exact sound
    case isFalse room =>
      exact set_socket_kept sound (List.mem_range.mp (List.mem_of_find?_eq_some found))
        (enqueue_sound (sound.sockets i) datagram (not_le.mp room)) rfl id

theorem receive_frame_sound (sound : s.Sound) (frame : Buffer) (length : Nat) :
    (netReceiveFrame frame length s).Sound := by
  have learned (address : Nat) (mac : Buffer) : (netLearnArp address mac s).Sound :=
    same_sockets_sound sound (net_learn_arp_sockets _ _ _).1 (net_learn_arp_sockets _ _ _).2
  have transmitted {t : Stack} (kept : t.Sound) (frame : Buffer) (length : Nat) :
      (netTransmit frame length t).Sound := same_sockets_sound kept rfl rfl
  have arp : (netReplyArp frame length s).Sound := by
    unfold netReplyArp
    simp only
    split_ifs
    · exact sound
    · exact sound
    · exact learned _ _
    · exact transmitted (learned _ _) _ _
  have icmp {t : Stack} (kept : t.Sound) (ihl total : Nat) :
      (netReplyIcmp frame length ihl total t).Sound := by
    unfold netReplyIcmp
    split
    · exact kept
    · exact transmitted kept _ _
  have udp {t : Stack} (kept : t.Sound) (ihl total : Nat) :
      (netReceiveUdp frame length ihl total t).Sound := by
    unfold netReceiveUdp
    simp only
    split_ifs
    all_goals first | exact kept | exact deliver_datagram_sound kept _ _
  unfold netReceiveFrame
  simp only
  split_ifs
  · exact sound
  · exact arp
  · exact sound
  · exact icmp (learned _ _) _ _
  · exact udp (learned _ _) _ _
  · exact learned _ _

theorem send_destination_sound (sound : s.Sound) (length : Int) (bytes : Option Buffer)
    (address port : Nat) : (socketSendDestination i length bytes address port s).2.Sound := by
  obtain ⟨allocated, -⟩ := socket_allocate_sound (i := i) sound
  rcases allocation : socketAllocatePort i s with ⟨sourcePort, t⟩
  rw [allocation] at allocated
  unfold socketSendDestination
  split
  · exact sound
  split
  · exact sound
  split
  · exact sound
  split
  · exact sound
  simp only [allocation]
  split
  · exact allocated
  · split <;> exact same_sockets_sound allocated rfl rfl

/-- Every call keeps the table. -/
theorem call_sound (sound : s.Sound) (call : Call) (legal : call.Legal s) : (s.call call).Sound := by
  cases call with
  | frame frame length => exact receive_frame_sound sound frame length
  | create domain type protocol descriptor =>
    simp only [Stack.call, socketCreate]
    cases (List.range nsocket).find? (fun i => !(s.sockets i).used) with
    | none => split_ifs <;> exact sound
    | some i =>
      simp only
      split_ifs with family stream
      · exact sound
      · exact sound
      · exact sound
      · exact sound
      · dsimp only
        refine set_socket_sound sound (empty_socket_sound _ _ _ fun _ => not_not.mp stream) ?_
        intro _ bound
        exact absurd rfl bound
  | bind i length value =>
    simp only [Stack.call, socketBind]
    split
    · exact sound
    split_ifs with invalid foreign taken
    · exact sound
    · exact sound
    · exact sound
    · have own := sound.sockets i
      dsimp only
      refine set_socket_sound sound ?_ ?_
      · refine ⟨own.type, ?_, by simp only; omega, own.head, own.count, own.history⟩
        by_contra elsewhere
        exact foreign (not_or.mp elsewhere)
      · intro _ _ j different openJ equal
        refine taken (List.any_eq_true.mpr ⟨j, List.mem_range.mpr openJ.1, ?_⟩)
        simpa [different, openJ.2] using equal
  | connect i length value =>
    simp only [Stack.call, socketConnect]
    split
    · exact sound
    have own := sound.sockets i
    dsimp only
    exact set_socket_kept sound legal.1
      ⟨own.type, own.address, own.port, own.head, own.count, own.history⟩ rfl id
  | send i length bytes => exact send_destination_sound sound length bytes _ _
  | sendto i length bytes addressLength value =>
    simp only [Stack.call, socketSendto]
    split
    · exact sound
    · exact send_destination_sound sound length bytes _ _
  | receive i length writable copied => exact receive_datagram_sound sound legal length writable copied
  | close i =>
    simp only [Stack.call, socketClose]
    split
    · exact sound
    case isFalse isOpen =>
      simp only [not_or, not_le, Bool.not_eq_false] at isOpen
      have own := sound.sockets i
      exact set_socket_kept sound isOpen.1
        ⟨fun _ => own.type isOpen.2, own.address, own.port, own.head, own.count, own.history⟩ rfl
        (fun _ => isOpen.2)
  | retain i =>
    simp only [Stack.call, socketRetain]
    split
    · exact sound
    case isFalse isOpen =>
      simp only [not_or, not_le, Bool.not_eq_false] at isOpen
      have own := sound.sockets i
      exact set_socket_kept sound isOpen.1
        ⟨own.type, own.address, own.port, own.head, own.count, own.history⟩ rfl id

/-- Every reachable table is well kept. -/
theorem reachable_sound (reached : Reachable s) : s.Sound := by
  induction reached with
  | init =>
    refine ⟨fun _ => empty_socket_sound false 0 0 (by simp), ?_, le_rfl⟩
    intro i j openI
    have closed : (networkInit.sockets i).used = false := rfl
    simp [Stack.Open, closed] at openI
  | call s call before legal ih => exact call_sound ih call legal

/-- A port of the ephemeral range that no open socket uses. -/
def Stack.FreePort (s : Stack) (port : Nat) : Prop :=
  49152 ≤ port ∧ port < 65535 ∧ s.portUsed port = false

/-- In every reachable state, an unbound socket gets a port that no other open socket
uses, whenever one is free, exactly if one is free that the counter has not passed. -/
theorem ephemeral_port_found_iff (reached : Reachable s)
    (unbound : (s.sockets i).localPort = 0) :
    ((∃ port, s.FreePort port) → ∃ port : Nat, (socketAllocatePort i s).1 = port ∧
        ∀ j, j ≠ i → s.Open j → (s.sockets j).localPort ≠ port) ↔
      ((∃ port, s.FreePort port) → ∃ port, s.FreePort port ∧ s.ephemeralPort ≤ port) := by
  have low := (reachable_sound reached).ephemeral
  have allocated : socketAllocatePort i s = allocateLoop i s := by
    simp [socketAllocatePort, unbound]
  rw [allocated]
  refine imp_congr_right fun _ => ?_
  rcases allocate_loop_spec i s with ⟨port, above, below, unused, found⟩ | ⟨none, last, -, found⟩
  · rw [found]
    refine iff_of_true ⟨port, rfl, fun j _ openJ => ?_⟩ ⟨port, ⟨by omega, below, unused⟩, above⟩
    exact (port_unused_iff s port).mp unused j openJ
  rw [found]
  refine iff_of_false ?_ ?_
  · rintro ⟨port, negative, -⟩
    simp only [eaddrinuse] at negative
    omega
  · rintro ⟨port, ⟨-, below, unused⟩, above⟩
    simp [none port above below] at unused

/-- The first socket. -/
def oneSocket : Stack := networkInit.call (.create afInet sockDgram 0 3)

theorem ephemeral_port_found_iff_first :
    ((∃ port, oneSocket.FreePort port) → ∃ port : Nat, (socketAllocatePort 0 oneSocket).1 = port ∧
        ∀ j, j ≠ 0 → oneSocket.Open j → (oneSocket.sockets j).localPort ≠ port) ↔
      ((∃ port, oneSocket.FreePort port) →
        ∃ port, oneSocket.FreePort port ∧ oneSocket.ephemeralPort ≤ port) :=
  ephemeral_port_found_iff (.call _ _ .init trivial) rfl

/-- A datagram to a host whose address is not resolved. -/
def strayDatagram : Call :=
  .sendto 0 1 (some fun _ => 0) 12 (some ⟨afInet, 0x0700, 0x0202000a⟩)

/-- Open a socket, send the datagram, close the socket. -/
def oneDatagram (s : Stack) : Stack :=
  ((s.call (.create afInet sockDgram 0 3)).call strayDatagram).call (.close 0)

/-- No socket is open and no address is resolved. -/
structure Stack.Idle (s : Stack) : Prop where
  reached : Reachable s
  closed : ∀ i, (s.sockets i).used = false
  unresolved : ∀ i, (s.arp i).used = false

/-- The socket that a call opens when none is open. -/
theorem idle_create (idle : s.Idle) : s.call (.create afInet sockDgram 0 3) =
    s.setSocket 0 (fun _ => freshSocket sockDgram) := by
  simp [Stack.call, socketCreate, nsocket, List.range_succ_eq_map, idle.closed]

/-- It is the only open one, and unbound. -/
theorem idle_create_unused (idle : s.Idle) (port : Nat) (positive : 0 < port) :
    (s.call (.create afInet sockDgram 0 3)).portUsed port = false := by
  rw [port_unused_iff, idle_create idle]
  intro j openJ
  by_cases first : j = 0
  · rw [first, set_socket_same]
    exact positive.ne
  · have closed := openJ.2
    rw [set_socket_other _ _ _ _ first, idle.closed] at closed
    simp at closed

/-- Sending through the new socket binds it to the port of the counter. -/
theorem idle_send (idle : s.Idle) (more : s.ephemeralPort < 65535) :
    ∃ u, (s.call (.create afInet sockDgram 0 3)).call strayDatagram = netSendArpRequest 0x0a000202 u ∧
      ((u.sockets 0).used = true ∧ (u.sockets 0).refs = 1) ∧
      (∀ j, j ≠ 0 → u.sockets j = s.sockets j) ∧ u.arp = s.arp ∧
      u.ephemeralPort = s.ephemeralPort + 1 := by
  have low := (reachable_sound idle.reached).ephemeral
  have unused := idle_create_unused idle s.ephemeralPort (by omega)
  rw [idle_create idle] at unused ⊢
  generalize created : s.setSocket 0 (fun _ => freshSocket sockDgram) = t at unused
  generalize bound : ({ t with ephemeralPort := s.ephemeralPort + 1 } : Stack).setSocket 0
    (fun socket => { socket with localPort := s.ephemeralPort }) = u
  have allocated : socketAllocatePort 0 t = ((s.ephemeralPort : Int), u) := by
    have counter : t.ephemeralPort = s.ephemeralPort := by
      rw [← created]
      rfl
    have unbound : (t.sockets 0).localPort = 0 := by
      rw [← created, set_socket_same]
      rfl
    have free : { t with ephemeralPort := s.ephemeralPort + 1 }.portUsed s.ephemeralPort = false :=
      unused
    rw [socketAllocatePort, if_neg (by simp [unbound]), allocateLoop, counter, if_pos more]
    simp [free, bound]
  have others (j : Nat) (different : j ≠ 0) : u.sockets j = s.sockets j := by
    subst created bound
    simp [Stack.setSocket, different]
  have arp : u.arp = s.arp := by
    rw [← bound, ← created]
    rfl
  have unresolved (address : Nat) : netLookupArp address u = none := by
    rw [netLookupArp, Option.map_eq_none_iff, List.find?_eq_none]
    intro j _
    simp [arp, idle.unresolved]
  refine ⟨u, ?_, ?_, others, arp, ?_⟩
  · have nonnegative : ¬ (s.ephemeralPort : Int) < 0 := by omega
    simp only [Stack.call, strayDatagram, socketSendto, socketCopyAddress, socketSendDestination]
    simp [hostOrder16, hostOrder32, allocated, nonnegative, unresolved]
  · subst created bound
    simp [Stack.setSocket, freshSocket]
  · rw [← bound]
    rfl

/-- A socket that has come and gone leaves the counter one further. -/
theorem one_datagram_idle (idle : s.Idle) (more : s.ephemeralPort < 65535) :
    (oneDatagram s).Idle ∧ (oneDatagram s).ephemeralPort = s.ephemeralPort + 1 := by
  obtain ⟨u, sent, ⟨used, refs⟩, others, arp, counter⟩ := idle_send idle more
  have opened : (s.call (.create afInet sockDgram 0 3)).Open 0 := by
    refine ⟨by decide, ?_⟩
    rw [idle_create idle, set_socket_same]
    rfl
  have reached := ((idle.reached.call s (.create afInet sockDgram 0 3) trivial).call _ strayDatagram
    opened).call _ (.close 0) trivial
  have closed : oneDatagram s = (netSendArpRequest 0x0a000202 u).setSocket 0 (fun socket =>
      { socket with refs := socket.refs - 1, used := decide (socket.refs - 1 ≠ 0) }) := by
    rw [oneDatagram, sent, Stack.call, socketClose, if_neg]
    simp [nsocket, netSendArpRequest, netTransmit, used]
  have sockets (j : Nat) : ((oneDatagram s).sockets j).used = false := by
    rw [closed]
    by_cases first : j = 0
    · rw [first, set_socket_same]
      simp [netSendArpRequest, netTransmit, refs]
    · rw [set_socket_other _ _ _ _ first]
      exact (congrArg Socket.used (others j first)).trans (idle.closed j)
  refine ⟨⟨reached, sockets, fun j => ?_⟩, ?_⟩
  · rw [closed]
    exact (congrArg (fun table => (table j).used) arp).trans (idle.unresolved j)
  · rw [closed]
    exact counter

theorem idle_after (n : Nat) (small : n ≤ 16383) :
    (oneDatagram^[n] networkInit).Idle ∧ (oneDatagram^[n] networkInit).ephemeralPort = 49152 + n := by
  induction n with
  | zero => exact ⟨⟨.init, fun _ => rfl, fun _ => rfl⟩, rfl⟩
  | succ n ih =>
    obtain ⟨idle, counter⟩ := ih (by omega)
    rw [Function.iterate_succ_apply']
    obtain ⟨next, moved⟩ := one_datagram_idle idle (by omega)
    exact ⟨next, by omega⟩

/-- After 16383 sockets no further one gets a port, although none is used. -/
theorem ephemeral_ports_exhausted :
    ∃ s, Reachable s ∧ s.Open 0 ∧ (s.sockets 0).localPort = 0 ∧ (∃ port, s.FreePort port) ∧
      (socketAllocatePort 0 s).1 = -eaddrinuse := by
  obtain ⟨s, idle, counter⟩ : ∃ s : Stack, s.Idle ∧ s.ephemeralPort = 65535 :=
    ⟨_, idle_after 16383 le_rfl⟩
  have created := idle_create idle
  have unused := idle_create_unused idle 50000 (by decide)
  refine ⟨_, idle.reached.call _ (.create afInet sockDgram 0 3) trivial, ?_, ?_,
    ⟨50000, by decide, by decide, unused⟩, ?_⟩
  · refine ⟨by decide, ?_⟩
    rw [created, set_socket_same]
    rfl
  · rw [created, set_socket_same]
    rfl
  · have unbound : ((s.setSocket 0 (fun _ => freshSocket sockDgram)).sockets 0).localPort = 0 := by
      rw [set_socket_same]
      rfl
    have passed : ¬ (s.setSocket 0 (fun _ => freshSocket sockDgram)).ephemeralPort < 65535 := by
      show ¬ s.ephemeralPort < 65535
      omega
    rw [created, socketAllocatePort, if_neg (not_not.mpr unbound), allocateLoop, if_neg passed]

end JsEmulator.Network
