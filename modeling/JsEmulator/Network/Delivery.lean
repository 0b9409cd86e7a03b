import JsEmulator.Network.Sockets
import JsEmulator.Network.Transmit

/-!
# Delivery of datagrams

A datagram that a socket sends to the guest's own address passes every check of the
receiving side and ends up, unchanged, behind the last datagram of the one socket that is
bound to its port. What a socket returns is the first datagram of its queue.
-/

namespace JsEmulator.Network

variable {s t u : Stack} {i j : Nat} {frame rx tx destination payload : Buffer}
variable {length sourcePort port : Nat}

/-- The ports and the payload of a datagram frame. -/
structure HoldsPayload (frame payload : Buffer) (length sourcePort port : Nat) : Prop where
  source : netRead16 frame 34 = sourcePort
  destination : netRead16 frame 36 = port
  udpLength : netRead16 frame 38 = 8 + length
  checksum : netRead16 frame 40 = 0
  address : netRead32 frame 30 = netGuestIp
  bytes : ∀ k < length, frame (42 + k) = payload k

theorem udp_frame_payload (tx destination payload : Buffer) (short : length ≤ 512)
    (source : sourcePort < 65536) (small : port < 65536) :
    HoldsPayload (udpFrame tx destination payload length netGuestIp sourcePort port) payload length
      sourcePort port := by
  have below (i : Nat) (before : i < 42) :
      udpFrame tx destination payload length netGuestIp sourcePort port i =
        netWrite16 (netWrite16 (netWrite16 (netWrite16 (netWrite16
          (ipv4Header tx destination length netGuestIp) 24
          (netChecksum (ipv4Header tx destination length netGuestIp) 14 20)) 34 sourcePort)
          36 port) 38 (8 + length)) 40 0 i := by
    unfold udpFrame copyBytes
    rw [if_neg (by omega)]
  constructor
  case bytes =>
    intro k inside
    unfold udpFrame copyBytes
    rw [if_pos (by omega), Nat.add_sub_cancel_left]
  all_goals
    simp only [netRead32, netRead16, below, Nat.reduceAdd, Nat.reduceLT]
    simp [netWrite16, netWrite32, store, ipv4Header, netGuestIp]
    try omega

theorem holds_payload_congr (held : HoldsPayload frame payload length sourcePort port)
    (same : ∀ k < 42 + length, rx k = frame k) :
    HoldsPayload rx payload length sourcePort port := by
  have word (k : Nat) (inside : k + 1 < 42) : netRead16 rx k = netRead16 frame k := by
    rw [netRead16, netRead16, same k (by omega), same (k + 1) (by omega)]
  refine ⟨?_, ?_, ?_, ?_, ?_, ?_⟩
  · exact (word 34 (by decide)).trans held.source
  · exact (word 36 (by decide)).trans held.destination
  · exact (word 38 (by decide)).trans held.udpLength
  · exact (word 40 (by decide)).trans held.checksum
  · rw [netRead32, word 30 (by decide), word 32 (by decide)]
    exact held.address
  · intro k inside
    rw [same (42 + k) (by omega)]
    exact held.bytes k inside

/-- The datagram that a frame carries. -/
def carriedDatagram (payload : Buffer) (length sourcePort : Nat) : Datagram :=
  ⟨frameBytes payload length, netGuestIp, sourcePort⟩

/-- A datagram frame passes every check and reaches the sockets. -/
theorem receive_datagram_frame (s : Stack) (accepted : netAcceptsMac rx = true)
    (held : HoldsDatagram rx length) (carried : HoldsPayload rx payload length sourcePort port)
    (short : length ≤ 512) :
    netReceiveFrame rx (42 + length) s =
      deliverDatagram port (carriedDatagram payload length sourcePort)
        (netLearnArp netGuestIp (rx.dropped 6) s) := by
  have ihl : headerLength rx = 20 := by
    rw [headerLength, held.version]
    rfl
  have ipv4 : acceptsIpv4 rx (42 + length) = true := by
    have header : netChecksum rx 14 20 = 0 := summed_iff.mp held.header
    simp only [acceptsIpv4, ihl, held.version, carried.address, held.total, header, held.fragment,
      Bool.and_eq_true, decide_eq_true_eq, beq_iff_eq]
    refine ⟨⟨⟨⟨⟨⟨⟨?_, rfl⟩, trivial⟩, le_rfl⟩, ?_⟩, ?_⟩, trivial⟩, trivial⟩ <;> omega
  have bytes : frameBytes (rx.dropped 42) length = frameBytes payload length := by
    refine List.map_congr_left ?_
    intro k member
    exact carried.bytes k (List.mem_range.mp member)
  unfold netReceiveFrame
  rw [if_neg (by simp [accepted]; omega), if_neg (by rw [held.ethertype]; decide),
    if_neg (by simp [held.ethertype, ipv4])]
  simp only [ihl, held.total, held.protocol, held.address]
  rw [if_neg (by decide), if_pos (by decide), netReceiveUdp]
  simp only [Nat.reduceAdd, carried.source, carried.destination, carried.udpLength,
    carried.checksum, held.address]
  rw [if_neg (by omega), if_neg (by omega), if_neg (by simp), if_neg (by omega)]
  have cut : 8 + length - 8 = length := by omega
  rw [cut, bytes]
  rfl

/-- The peer that a socket is connected to is not the sender. -/
def Socket.PeerDiffers (socket : Socket) (sourcePort : Nat) : Prop :=
  socket.remoteAddress ≠ 0 ∧
    ¬ (socket.remoteAddress = netGuestIp ∧ socket.remotePort = sourcePort)

instance (socket : Socket) (sourcePort : Nat) : Decidable (socket.PeerDiffers sourcePort) :=
  inferInstanceAs (Decidable (_ ∧ _))

theorem accepts_iff (sound : s.Sound) (datagram : Datagram) (guest : datagram.sourceAddress = netGuestIp) :
    (s.sockets j).accepts port datagram.sourceAddress datagram.sourcePort = true ↔
      (s.sockets j).used = true ∧ (s.sockets j).localPort = port ∧
        ¬ (s.sockets j).PeerDiffers datagram.sourcePort := by
  have own := sound.sockets j
  simp only [Socket.accepts, Bool.and_eq_true, Bool.or_eq_true, beq_iff_eq, guest, Socket.PeerDiffers]
  constructor
  · rintro ⟨⟨⟨⟨used, -⟩, local_⟩, -⟩, peer⟩
    exact ⟨used, local_, fun differs => peer.elim differs.1 differs.2⟩
  · rintro ⟨used, local_, same⟩
    refine ⟨⟨⟨⟨used, own.type used⟩, local_⟩, own.address⟩, ?_⟩
    by_contra differs
    exact same (not_or.mp differs)

/-- The one socket of a port gets its datagrams, while it has room and no other peer. -/
theorem deliver_to_port (sound : s.Sound) (isOpen : s.Open j) (local_ : (s.sockets j).localPort = port)
    (bound : port ≠ 0) (datagram : Datagram) (guest : datagram.sourceAddress = netGuestIp) :
    (deliverDatagram port datagram s).sockets =
      if (s.sockets j).queueCount = 4 ∨ (s.sockets j).PeerDiffers datagram.sourcePort then s.sockets
      else Function.update s.sockets j ((s.sockets j).enqueue datagram) := by
  have only (k : Nat) (inTable : k < nsocket)
      (accepts : (s.sockets k).accepts port datagram.sourceAddress datagram.sourcePort = true) :
      k = j := by
    obtain ⟨used, same, -⟩ := (accepts_iff sound datagram guest).mp accepts
    exact sound.ports k j ⟨inTable, used⟩ isOpen (same.trans local_.symm) (same ▸ bound)
  have counted := (sound.sockets j).count
  unfold deliverDatagram
  by_cases differs : (s.sockets j).PeerDiffers datagram.sourcePort
  · have none : (List.range nsocket).find? (fun k =>
        (s.sockets k).accepts port datagram.sourceAddress datagram.sourcePort) = none := by
      rw [List.find?_eq_none]
      intro k member accepts
      have same := only k (List.mem_range.mp member) accepts
      subst same
      exact ((accepts_iff sound datagram guest).mp accepts).2.2 differs
    rw [none, if_pos (.inr differs)]
  · have own : (s.sockets j).accepts port datagram.sourceAddress datagram.sourcePort = true :=
      (accepts_iff sound datagram guest).mpr ⟨isOpen.2, local_, differs⟩
    have found : (List.range nsocket).find? (fun k =>
        (s.sockets k).accepts port datagram.sourceAddress datagram.sourcePort) = some j := by
      have exists_ := List.find?_isSome (p := fun k => (s.sockets k).accepts port
        datagram.sourceAddress datagram.sourcePort) |>.mpr ⟨j, List.mem_range.mpr isOpen.1, own⟩
      obtain ⟨k, chosen⟩ := Option.isSome_iff_exists.mp exists_
      have accepts := List.find?_some (p := fun k => (s.sockets k).accepts port
        datagram.sourceAddress datagram.sourcePort) chosen
      rw [chosen, only k (List.mem_range.mp (List.mem_of_find?_eq_some chosen)) accepts]
    rw [found]
    by_cases full : 4 ≤ (s.sockets j).queueCount
    · simp only [if_pos full]
      rw [if_pos (.inl (by omega))]
    · simp only [if_neg full]
      rw [if_neg (by simp only [differs, or_false]; omega)]
      rfl

/-- A successful send transmits one frame from the socket's own port. -/
theorem send_destination_frame (sound : s.Sound) (bound : port ≠ 0)
    (sent : socketSendDestination i length (some payload) netGuestIp port s = ((length : Int), t)) :
    length ≤ 512 ∧ (t.sockets i).localPort < 65536 ∧ ∃ tx destination,
      t.sent = frameBytes (udpFrame tx destination payload length netGuestIp (t.sockets i).localPort
        port) (42 + length) :: s.sent := by
  obtain ⟨allocated, own⟩ := socket_allocate_sound (i := i) sound
  have kept : (socketAllocatePort i s).2.sent = s.sent := by
    unfold socketAllocatePort
    split <;> simp
  rcases allocation : socketAllocatePort i s with ⟨source, u⟩
  rw [allocation] at allocated own kept
  unfold socketSendDestination at sent
  rw [if_neg (by omega)] at sent
  split at sent
  · simp only [emsgsize, Prod.mk.injEq] at sent
    omega
  rename_i short
  simp only at sent
  rw [if_neg (by simp [netGuestIp, bound])] at sent
  simp only [allocation] at sent
  split at sent
  case isTrue negative =>
    simp only [Prod.mk.injEq] at sent
    omega
  rename_i nonnegative
  obtain ⟨same, -⟩ := own (not_lt.mp nonnegative)
  split at sent
  · simp only [eagain, Prod.mk.injEq] at sent
    omega
  rename_i mac _
  obtain ⟨-, rfl⟩ := Prod.mk.inj sent
  refine ⟨by omega, (allocated.sockets i).port, u.txFrame, mac, ?_⟩
  have source' : source.toNat = (u.sockets i).localPort := by
    simp only at same
    omega
  simp only [netTransmit, Int.toNat_natCast, source']
  exact congrArg (List.cons _) kept

/-- An ARP reply that tells the guest its own address. -/
def ownAddress : Buffer := bufferOf
  [2, 0, 0, 0, 0, 2, 2, 0, 0, 0, 0, 2, 0x08, 0x06, 0, 1, 0x08, 0x00, 6, 4, 0, 2,
   2, 0, 0, 0, 0, 2, 10, 0, 2, 15, 2, 0, 0, 0, 0, 2, 10, 0, 2, 15]

/-- A socket bound to port 7 of a guest that knows its own address. -/
def boundSocket : Stack :=
  ((networkInit.call (.create afInet sockDgram 0 3)).call (.bind 0 12 (some ⟨afInet, 0x0700, 0⟩))).call
    (.frame ownAddress 42)

end JsEmulator.Network
