import JsEmulator.Network.Stack
import Mathlib.Tactic.IntervalCases

/-!
# Transmitted frames

What the stack transmits: ARP requests and replies, ICMP echo replies and UDP datagrams.
Every frame has the guest as its source and carries the checksums and lengths that its
headers promise, with one exception. An echo reply takes its Ethernet source from the
destination of the request, which is the broadcast address when the request was broadcast.
-/

namespace JsEmulator.Network

open JsEmulator.Library

variable {s : Stack} {frame other tx : Buffer} {start length ihl total : Nat}

/-- A transmitted frame as a buffer. -/
def bufferOf (frame : List Byte) : Buffer := fun i => frame.getD i 0

/-- The words of a stretch add up to the maximal word, as a stored checksum makes them. -/
def Summed (frame : Buffer) (start length : Nat) : Prop :=
  onesSum 65535 (bigEndianWords frame start length) = 65535

/-- What a frame on the wire must say. -/
structure WellFormed (bytes : List Byte) : Prop where
  source : ∀ i < 6, bufferOf bytes (6 + i) = guestMac i
  header : netRead16 (bufferOf bytes) 12 = 0x0800 →
    Summed (bufferOf bytes) 14 (headerLength (bufferOf bytes))
  total : netRead16 (bufferOf bytes) 12 = 0x0800 →
    14 + netRead16 (bufferOf bytes) 16 = bytes.length
  address : netRead16 (bufferOf bytes) 12 = 0x0800 → netRead32 (bufferOf bytes) 26 = netGuestIp
  echo : netRead16 (bufferOf bytes) 12 = 0x0800 → (bufferOf bytes 23).toNat = 1 →
    bufferOf bytes (14 + headerLength (bufferOf bytes)) = 0 →
      Summed (bufferOf bytes) (14 + headerLength (bufferOf bytes))
        (netRead16 (bufferOf bytes) 16 - headerLength (bufferOf bytes))

theorem buffer_of_frame (frame : Buffer) (length i : Nat) (inside : i < length) :
    bufferOf (frameBytes frame length) i = frame i := by
  simp [bufferOf, frameBytes, List.getD_eq_getElem?_getD, inside]

/-- The words of a stretch depend on its bytes only. -/
theorem words_congr (same : ∀ i, i < length → frame (start + i) = other (start + i)) :
    bigEndianWords frame start length = bigEndianWords other start length := by
  refine List.map_congr_left ?_
  intro k member
  have inside : 2 * k < length := by
    have counted := List.mem_range.mp member
    omega
  unfold checksumWord
  rw [same (2 * k) inside]
  split
  case isTrue more => rw [Nat.add_assoc, same (2 * k + 1) more]
  case isFalse => rfl

theorem summed_congr (same : ∀ i, i < length → frame (start + i) = other (start + i)) :
    Summed frame start length ↔ Summed other start length := by
  unfold Summed
  rw [words_congr same]

theorem summed_iff : Summed frame start length ↔ netChecksum frame start length = 0 :=
  (net_checksum_zero_iff frame start length).symm

/-- A checksum stored in a zeroed field sums the stretch up. -/
theorem stored_summed (field : Nat) (even : field % 2 = 0) (inside : field + 2 ≤ length)
    (high : frame (start + field) = 0) (low : frame (start + field + 1) = 0) :
    Summed (netWrite16 frame (start + field) (netChecksum frame start length)) start length := by
  have zeroed : netWrite16 frame (start + field) 0 = frame := by
    funext i
    by_cases first : i = start + field
    · simp [netWrite16, store, first, high]
    by_cases second : i = start + field + 1
    · simp [netWrite16, store, second, low]
    · exact net_write16_other _ _ _ _ first second
  obtain ⟨j, rfl⟩ : 2 ∣ field := Nat.dvd_of_mod_eq_zero even
  rw [summed_iff, net_checksum_eq]
  have value : netChecksum frame start length < 65536 := by
    rw [net_checksum_eq]
    omega
  rw [words_sum_write frame start length j _ inside value, zeroed, net_checksum_eq,
    carried_complement (by decide)]

/-- An ARP frame has the guest as its source and is no IPv4 frame. -/
theorem arp_frame_well_formed (tx destination target : Buffer) (operation address : Nat) :
    WellFormed (frameBytes (arpFrame tx operation destination target address) 42) := by
  have ethertype : netRead16 (bufferOf (frameBytes
      (arpFrame tx operation destination target address) 42)) 12 = 0x0806 := by
    rw [netRead16, buffer_of_frame _ _ _ (by decide), buffer_of_frame _ _ _ (by decide)]
    simp [arpFrame, copyBytes, netWrite16, netWrite32, store]
  refine ⟨?_, ?_, ?_, ?_, ?_⟩
  · intro i small
    rw [buffer_of_frame _ _ _ (by omega)]
    interval_cases i <;>
      simp [arpFrame, copyBytes, netWrite16, netWrite32, store]
  all_goals
    intro ipv4
    rw [ethertype] at ipv4
    simp at ipv4

/-- The headers of a datagram frame below the ports. -/
theorem udp_frame_header (tx destination payload : Buffer) (length address sourcePort port : Nat)
    (i : Nat) (small : i < 34) :
    udpFrame tx destination payload length address sourcePort port i =
      netWrite16 (ipv4Header tx destination length address) 24
        (netChecksum (ipv4Header tx destination length address) 14 20) i := by
  unfold udpFrame copyBytes
  rw [if_neg (by omega)]
  simp (disch := omega) only [net_write16_other]

/-- What a buffer says that holds a datagram from the guest. -/
structure HoldsDatagram (frame : Buffer) (length : Nat) : Prop where
  source : ∀ i < 6, frame (6 + i) = guestMac i
  ethertype : netRead16 frame 12 = 0x0800
  version : frame 14 = 0x45
  total : netRead16 frame 16 = 28 + length
  fragment : netRead16 frame 20 = 0
  protocol : frame 23 = 17
  header : Summed frame 14 20
  address : netRead32 frame 26 = netGuestIp

/-- It says so in its headers. -/
theorem holds_datagram_congr {length : Nat} (held : HoldsDatagram frame length)
    (same : ∀ i < 34, other i = frame i) : HoldsDatagram other length := by
  constructor
  case source =>
    intro i small
    rw [same _ (by omega)]
    exact held.source i small
  case header =>
    exact (summed_congr fun i small => same (14 + i) (by omega)).mpr held.header
  case version => exact (same 14 (by decide)).trans held.version
  case protocol => exact (same 23 (by decide)).trans held.protocol
  case ethertype =>
    rw [netRead16, same 12 (by decide), same 13 (by decide)]
    exact held.ethertype
  case total =>
    rw [netRead16, same 16 (by decide), same 17 (by decide)]
    exact held.total
  case fragment =>
    rw [netRead16, same 20 (by decide), same 21 (by decide)]
    exact held.fragment
  case address =>
    rw [netRead32, netRead16, netRead16, same 26 (by decide), same 27 (by decide),
      same 28 (by decide), same 29 (by decide)]
    exact held.address

theorem udp_frame_holds (tx destination payload : Buffer) (address sourcePort port : Nat)
    (short : length ≤ 512) :
    HoldsDatagram (udpFrame tx destination payload length address sourcePort port) length := by
  refine holds_datagram_congr ?_
    (udp_frame_header tx destination payload length address sourcePort port)
  have field (i : Nat) (low : i ≠ 24) (high : i ≠ 25) :
      netWrite16 (ipv4Header tx destination length address) 24
        (netChecksum (ipv4Header tx destination length address) 14 20) i =
      ipv4Header tx destination length address i := net_write16_other _ _ _ _ low high
  constructor
  case source =>
    intro i small
    rw [field _ (by omega) (by omega)]
    interval_cases i <;> simp [ipv4Header, copyBytes, netWrite16, netWrite32, store]
  case header =>
    refine stored_summed 10 rfl (by decide) ?_ ?_ <;>
      simp [ipv4Header, netWrite16, netWrite32, store]
  case total =>
    rw [netRead16, field 16 (by decide) (by decide), field 17 (by decide) (by decide)]
    simp [ipv4Header, netWrite16, netWrite32, store]
    omega
  all_goals
    simp only [netRead32, netRead16, field, Nat.reduceAdd, Nat.reduceEqDiff, ne_eq,
      not_false_eq_true]
    simp [ipv4Header, netWrite16, netWrite32, store, netGuestIp, ipprotoUdp]

/-- A datagram frame. -/
theorem udp_frame_well_formed (tx destination payload : Buffer) (address sourcePort port : Nat)
    (short : length ≤ 512) :
    WellFormed (frameBytes (udpFrame tx destination payload length address sourcePort port)
      (42 + length)) := by
  have held := holds_datagram_congr
    (udp_frame_holds tx destination payload address sourcePort port short)
    (fun i small => buffer_of_frame _ (42 + length) i (by omega))
  have ihl : headerLength (bufferOf (frameBytes
      (udpFrame tx destination payload length address sourcePort port) (42 + length))) = 20 := by
    rw [headerLength, held.version]
    rfl
  refine ⟨held.source, fun _ => ihl ▸ held.header, fun _ => ?_, fun _ => held.address, ?_⟩
  · rw [held.total]
    simp [frameBytes]
    omega
  · intro _ icmp
    rw [held.protocol] at icmp
    simp at icmp

/-- The header of an echo reply is summed before the message is touched. -/
theorem icmp_frame_header (tx frame : Buffer) (ihl total i : Nat) (small : i < 14 + ihl) :
    icmpFrame tx frame ihl total i =
      netWrite16 (icmpCopy tx frame total) 24 (netChecksum (icmpCopy tx frame total) 14 ihl) i := by
  unfold icmpFrame icmpMessage store
  simp (disch := omega) only [net_write16_other _ (14 + ihl + 2), Function.update_of_ne]

/-- The fields of the header that the reply takes over from the request. -/
theorem icmp_copy_field (tx frame : Buffer) (total i : Nat) (low : 12 ≤ i) (inside : i < 14 + total)
    (checksum : i ≠ 24 ∧ i ≠ 25) (addresses : i < 26 ∨ 34 ≤ i) :
    icmpCopy tx frame total i = frame i := by
  have place : 12 + (i - 12) = i := by omega
  unfold icmpCopy netWrite32 store
  simp (disch := omega) only [Function.update_of_ne, net_write16_other]
  rw [copyBytes, if_pos (by omega), Buffer.dropped, place]

/-- A message of three bytes has no room for its checksum, but only one such message is
summed up, and its reply is summed up by the byte that is left of the field. -/
theorem short_message_summed (reply : Buffer) (start : Nat) (request : frame start = 8)
    (summed : netChecksum frame start 3 = 0) (kept : reply (start + 1) = frame (start + 1))
    (type : reply start = 0) (field : reply (start + 2) = 0) :
    Summed (netWrite16 reply (start + 2) (netChecksum reply start 3)) start 3 := by
  have top : carried 65535 (bigEndianWords frame start 3).sum = 65535 := by
    rw [net_checksum_eq] at summed
    have bound := carried_le (m := 65535) (n := (bigEndianWords frame start 3).sum) (by decide)
    omega
  have low := (frame (start + 1)).isLt
  have next := (frame (start + 2)).isLt
  have words (f : Buffer) : (bigEndianWords f start 3).sum =
      (f start).toNat * 256 + (f (start + 1)).toNat + (f (start + 2)).toNat * 256 := by
    simp [bigEndianWords, checksumWord, List.range_succ]
  have second : (frame (start + 1)).toNat = 255 := by
    have eight : (8 : Byte).toNat = 8 := rfl
    rw [words, request, eight] at top
    have exact : 8 * 256 + (frame (start + 1)).toNat + (frame (start + 2)).toNat * 256 = 65535 := by
      have small : 8 * 256 + (frame (start + 1)).toNat + (frame (start + 2)).toNat * 256 < 131070 := by
        omega
      generalize 8 * 256 + (frame (start + 1)).toNat + (frame (start + 2)).toNat * 256 = n
        at small top ⊢
      unfold carried at top
      split at top <;> omega
    omega
  have value : netChecksum reply start 3 = 0xff00 := by
    rw [net_checksum_eq, words, type, field, kept, second]
    simp [carried]
  have unchanged (i : Nat) (before : i < start + 2) :
      netWrite16 reply (start + 2) 0xff00 i = reply i :=
    net_write16_other _ _ _ _ (by omega) (by omega)
  rw [summed_iff, net_checksum_eq, words, value, unchanged _ (by omega), unchanged _ (by omega),
    type, kept, second]
  simp [netWrite16, store, carried]

/-- The message of an echo reply is summed up. -/
theorem icmp_message_summed (tx : Buffer) (inside : ihl ≤ total) (request : frame (14 + ihl) = 8)
    (header : 20 ≤ ihl) (summed : netChecksum frame (14 + ihl) (total - ihl) = 0) :
    Summed (icmpFrame tx frame ihl total) (14 + ihl) (total - ihl) := by
  unfold icmpFrame
  simp only
  generalize copied : netWrite16 (icmpCopy tx frame total) 24
    (netChecksum (icmpCopy tx frame total) 14 ihl) = reply
  generalize message : icmpMessage reply ihl = zeroed
  have type : zeroed (14 + ihl) = 0 := by
    simp [← message, icmpMessage, store]
  have high : zeroed (14 + ihl + 2) = 0 := by
    simp [← message, icmpMessage, store]
  have low : zeroed (14 + ihl + 2 + 1) = 0 := by
    simp [← message, icmpMessage, store]
  by_cases long : 4 ≤ total - ihl
  · exact stored_summed 2 rfl (by omega) high low
  -- Shorter messages than three bytes are never summed up.
  have words (n : Nat) (short : n ≤ 2) : netChecksum frame (14 + ihl) n ≠ 0 := by
    have byte := (frame (14 + ihl + 1)).isLt
    rw [net_checksum_eq]
    interval_cases n <;>
      (simp [bigEndianWords, checksumWord, List.range_succ, request, carried]; try omega)
  have three : total - ihl = 3 := by
    by_contra other
    exact words (total - ihl) (by omega) summed
  rw [three] at summed ⊢
  refine short_message_summed zeroed (14 + ihl) request summed ?_ type high
  simp (disch := omega) only [← message, icmpMessage, store, Function.update_of_ne, ← copied,
    net_write16_other]
  exact icmp_copy_field tx frame total _ (by omega) (by omega) (by omega) (by omega)

/-- The checks of `net_receive_frame`, as facts. -/
theorem accepts_ipv4_facts (accepted : acceptsIpv4 frame length = true) :
    netRead32 frame 30 = netGuestIp ∧ 20 ≤ headerLength frame ∧
      headerLength frame ≤ netRead16 frame 16 ∧ 14 + netRead16 frame 16 ≤ length := by
  simp only [acceptsIpv4, Bool.and_eq_true, decide_eq_true_eq, beq_iff_eq] at accepted
  obtain ⟨⟨⟨⟨⟨⟨⟨-, -⟩, address⟩, header⟩, total⟩, inside⟩, -⟩, -⟩ := accepted
  exact ⟨address, header, total, inside⟩

/-- An echo reply is well formed when the request was addressed to the guest alone. -/
theorem icmp_frame_well_formed_iff (tx : Buffer) (ipv4 : netRead16 frame 12 = 0x0800)
    (accepted : acceptsIpv4 frame length = true) (request : frame (14 + headerLength frame) = 8)
    (summed : netChecksum frame (14 + headerLength frame)
      (netRead16 frame 16 - headerLength frame) = 0) :
    WellFormed (frameBytes (icmpFrame tx frame (headerLength frame) (netRead16 frame 16))
      (14 + netRead16 frame 16)) ↔ ∀ i < 6, frame i = guestMac i := by
  obtain ⟨guest, low, fits, -⟩ := accepts_ipv4_facts accepted
  generalize ihl : headerLength frame = n at *
  generalize whole : netRead16 frame 16 = total at *
  generalize sent : icmpFrame tx frame n total = reply
  have header (i : Nat) (small : i < 14 + n) : bufferOf (frameBytes reply (14 + total)) i =
      netWrite16 (icmpCopy tx frame total) 24 (netChecksum (icmpCopy tx frame total) 14 n) i := by
    rw [buffer_of_frame _ _ _ (by omega), ← sent]
    exact icmp_frame_header tx frame n total i small
  have field (i : Nat) (after : 12 ≤ i) (small : i < 24) :
      bufferOf (frameBytes reply (14 + total)) i = frame i := by
    rw [header i (by omega), net_write16_other _ _ _ _ (by omega) (by omega)]
    exact icmp_copy_field tx frame total i after (by omega) (by omega) (by omega)
  have ethertype : netRead16 (bufferOf (frameBytes reply (14 + total))) 12 = 0x0800 := by
    rw [netRead16, field 12 (by decide) (by decide), field 13 (by decide) (by decide)]
    exact ipv4
  have sameTotal : netRead16 (bufferOf (frameBytes reply (14 + total))) 16 = total := by
    rw [netRead16, field 16 (by decide) (by decide), field 17 (by decide) (by decide)]
    exact whole
  have sameLength : headerLength (bufferOf (frameBytes reply (14 + total))) = n := by
    rw [headerLength, field 14 (by decide) (by decide)]
    exact ihl
  have source (i : Nat) (small : i < 6) : bufferOf (frameBytes reply (14 + total)) (6 + i) = frame i := by
    rw [header (6 + i) (by omega), net_write16_other _ _ _ _ (by omega) (by omega)]
    interval_cases i <;> simp [icmpCopy, copyBytes, netWrite16, netWrite32, store]
  constructor
  · intro formed i small
    rw [← source i small]
    exact formed.source i small
  · intro unicast
    constructor
    case source =>
      intro i small
      rw [source i small]
      exact unicast i small
    case header =>
      intro _
      rw [sameLength]
      refine (summed_congr fun i small => header (14 + i) (by omega)).mpr ?_
      refine stored_summed 10 rfl (by omega) ?_ ?_ <;> simp [icmpCopy, store]
    case total =>
      intro _
      rw [sameTotal]
      simp [frameBytes]
    case address =>
      intro _
      simp only [netRead32, netRead16]
      rw [header 26 (by omega), header 27 (by omega), header (26 + 2) (by omega),
        header (26 + 2 + 1) (by omega)]
      simp [icmpCopy, netWrite16, netWrite32, store, guest, netGuestIp]
    case echo =>
      intro _ _ _
      rw [sameLength, sameTotal]
      refine (summed_congr fun i small => ?_).mpr (icmp_message_summed tx fits request low summed)
      rw [buffer_of_frame _ _ _ (by omega), sent]

@[simp] theorem net_learn_arp_sent (address : Nat) (mac : Buffer) (s : Stack) :
    (netLearnArp address mac s).sent = s.sent := by
  unfold netLearnArp
  split <;> rfl

@[simp] theorem net_receive_udp_sent (frame : Buffer) (length ihl total : Nat) (s : Stack) :
    (netReceiveUdp frame length ihl total s).sent = s.sent := by
  have delivered (port : Nat) (datagram : Datagram) : (deliverDatagram port datagram s).sent = s.sent := by
    unfold deliverDatagram
    split
    · rfl
    · split <;> rfl
  unfold netReceiveUdp
  simp only
  split_ifs
  all_goals first | rfl | exact delivered _ _

@[simp] theorem allocate_loop_sent (i : Nat) (s : Stack) : (allocateLoop i s).2.sent = s.sent := by
  fun_induction allocateLoop i s with
  | case1 s _ _ _ _ ih => exact ih
  | case2 => rfl
  | case3 => rfl

/-- An echo request that the stack answers. -/
structure EchoRequest (frame : Buffer) (length : Nat) : Prop where
  ethertype : netRead16 frame 12 = 0x0800
  accepted : acceptsIpv4 frame length = true
  icmp : (frame 23).toNat = 1
  request : frame (14 + headerLength frame) = 8
  summed : netChecksum frame (14 + headerLength frame)
    (netRead16 frame 16 - headerLength frame) = 0

/-- An echo request for the guest in a frame for everybody. -/
def Call.BroadcastEcho : Call → Prop
  | .frame frame length => (∀ i < 6, frame i = 255) ∧ EchoRequest frame length
  | _ => False

/-- What a step transmits is well formed, unless some condition holds. -/
def Transmits (s t : Stack) (exception : Prop) : Prop :=
  ∃ frames, t.sent = frames ++ s.sent ∧ ((∀ bytes ∈ frames, WellFormed bytes) ↔ ¬ exception)

theorem transmits_nothing {t : Stack} (same : t.sent = s.sent) : Transmits s t False :=
  ⟨[], same, by simp⟩

theorem transmits_one {t : Stack} {bytes : List Byte} (sent : t.sent = bytes :: s.sent)
    (formed : WellFormed bytes) : Transmits s t False :=
  ⟨[bytes], sent, by simp [formed]⟩

theorem reply_arp_transmits (frame : Buffer) (length : Nat) (s : Stack) :
    Transmits s (netReplyArp frame length s) False := by
  unfold netReplyArp
  simp only
  split_ifs
  · exact transmits_nothing rfl
  · exact transmits_nothing rfl
  · exact transmits_nothing (net_learn_arp_sent _ _ _)
  · exact transmits_one (by simp [netTransmit]; rfl) (arp_frame_well_formed _ _ _ _ _)

/-- A received frame is answered by at most one frame. -/
theorem receive_frame_transmits (frame : Buffer) (length : Nat) (s : Stack) :
    Transmits s (netReceiveFrame frame length s) (Call.BroadcastEcho (.frame frame length)) := by
  have otherwise (t : Stack) (quiet : Transmits s t False)
      (not : ¬ Call.BroadcastEcho (.frame frame length)) :
      Transmits s t (Call.BroadcastEcho (.frame frame length)) := by
    rwa [eq_false not]
  unfold netReceiveFrame
  split
  case isTrue refused =>
    refine otherwise s (transmits_nothing rfl) ?_
    rintro ⟨broadcast, request⟩
    have long := (accepts_ipv4_facts request.accepted).2
    have accepted : netAcceptsMac frame = true := by
      simp only [netAcceptsMac, Bool.or_eq_true, List.all_eq_true, beq_iff_eq]
      exact .inr fun i member => broadcast i (List.mem_range.mp member)
    rw [accepted] at refused
    simp only [Bool.true_eq_false, or_false] at refused
    omega
  rename_i taken
  split
  case isTrue arp =>
    refine otherwise _ (reply_arp_transmits frame length s) ?_
    rintro ⟨-, request⟩
    simp [request.ethertype] at arp
  case isFalse =>
    split
    case isTrue refused =>
      refine otherwise s (transmits_nothing rfl) ?_
      rintro ⟨-, request⟩
      simp [request.ethertype, request.accepted] at refused
    rename_i accepted
    simp only [ne_eq, not_or, not_not, Bool.not_eq_false] at accepted taken
    simp only
    split
    case isTrue icmp =>
      unfold netReplyIcmp
      split
      case isTrue refused =>
        refine otherwise _ (transmits_nothing (net_learn_arp_sent _ _ _)) ?_
        rintro ⟨-, request⟩
        have inside := (accepts_ipv4_facts accepted.2).2.2.2
        simp only [request.request, request.summed, ne_eq, not_true, or_self, or_false] at refused
        omega
      rename_i answered
      simp only [ne_eq, not_or, not_not] at answered
      have formed := icmp_frame_well_formed_iff
        (netLearnArp (netRead32 frame 26) (frame.dropped 6) s).txFrame accepted.1 accepted.2
        answered.2.1 answered.2.2
      refine ⟨[_], by simp [netTransmit]; rfl, ?_⟩
      simp only [List.mem_singleton, forall_eq, formed]
      constructor
      · rintro unicast ⟨broadcast, -⟩
        have first := unicast 0 (by decide)
        rw [broadcast 0 (by decide)] at first
        simp [guestMac] at first
      · intro alone i small
        have request : EchoRequest frame length :=
          ⟨accepted.1, accepted.2, icmp, answered.2.1, answered.2.2⟩
        have matched := taken.2
        simp only [netAcceptsMac, Bool.or_eq_true, List.all_eq_true, beq_iff_eq,
          List.mem_range] at matched
        rcases matched with guest | broadcast
        · exact guest i small
        · exact absurd ⟨broadcast, request⟩ alone
    case isFalse other =>
      refine otherwise _ (transmits_nothing ?_) (fun echo => other echo.2.icmp)
      split <;> simp

theorem send_destination_transmits (i : Nat) (length : Int) (bytes : Option Buffer)
    (address port : Nat) (s : Stack) :
    Transmits s (socketSendDestination i length bytes address port s).2 False := by
  have allocated : (socketAllocatePort i s).2.sent = s.sent := by
    unfold socketAllocatePort
    split <;> simp
  rcases allocation : socketAllocatePort i s with ⟨sourcePort, t⟩
  rw [allocation] at allocated
  unfold socketSendDestination
  split
  · exact transmits_nothing rfl
  split
  · exact transmits_nothing rfl
  split
  · exact transmits_nothing rfl
  split
  · exact transmits_nothing rfl
  simp only [allocation]
  split
  · exact transmits_nothing allocated
  split
  · exact transmits_one (congrArg (List.cons _) allocated) (arp_frame_well_formed _ _ _ _ _)
  · exact transmits_one (congrArg (List.cons _) allocated)
      (udp_frame_well_formed _ _ _ _ _ _ (by omega))

/-- Every frame that the stack transmits is well formed, but for the reply to an echo
request that was broadcast. -/
theorem transmitted_well_formed_iff (s : Stack) (call : Call) :
    ∃ frames, (s.call call).sent = frames ++ s.sent ∧
      ((∀ bytes ∈ frames, WellFormed bytes) ↔ ¬ call.BroadcastEcho) := by
  have copied (t : Stack) (same : t.sent = s.sent) : Transmits s t False := transmits_nothing same
  cases call with
  | frame frame length => exact receive_frame_transmits frame length s
  | send i length bytes => exact send_destination_transmits i length bytes _ _ s
  | sendto i length bytes addressLength value =>
    show Transmits s (socketSendto i length bytes addressLength value s).2 False
    unfold socketSendto
    split
    · exact transmits_nothing rfl
    · exact send_destination_transmits i length bytes _ _ s
  | create domain type protocol descriptor =>
    refine copied _ ?_
    simp only [Stack.call, socketCreate]
    repeat' split
    all_goals rfl
  | bind i length value =>
    refine copied _ ?_
    simp only [Stack.call, socketBind]
    split <;> [rfl; split_ifs <;> rfl]
  | connect i length value =>
    refine copied _ ?_
    simp only [Stack.call, socketConnect]
    split <;> rfl
  | receive i length writable copied =>
    refine transmits_nothing ?_
    simp only [Stack.call, socketReceiveDatagram]
    split_ifs <;> rfl
  | close i =>
    refine copied _ ?_
    simp only [Stack.call, socketClose]
    split <;> rfl
  | retain i =>
    refine copied _ ?_
    simp only [Stack.call, socketRetain]
    split <;> rfl

/-- A ping for the guest, sent to the Ethernet broadcast address. -/
def broadcastPing : Buffer := bufferOf
  [255, 255, 255, 255, 255, 255, 0x52, 0x54, 0, 0, 0, 1, 0x08, 0x00,
   0x45, 0, 0, 28, 0, 0, 0, 0, 64, 1, 0x62, 0xd1, 10, 0, 2, 2, 10, 0, 2, 15,
   8, 0, 0xf7, 0xff, 0, 0, 0, 0]

theorem broadcast_ping_reply_malformed :
    ∃ bytes ∈ (networkInit.call (.frame broadcastPing 42)).sent, ¬ WellFormed bytes := by
  have ihl : headerLength broadcastPing = 20 := by decide
  have total : netRead16 broadcastPing 16 = 28 := by decide
  have header : netChecksum broadcastPing 14 20 = 0 := by
    rw [net_checksum_eq]
    decide +kernel
  have message : netChecksum broadcastPing 34 8 = 0 := by
    rw [net_checksum_eq]
    decide +kernel
  have accepted : acceptsIpv4 broadcastPing 42 = true := by
    simp only [acceptsIpv4, ihl, header]
    decide
  have request : EchoRequest broadcastPing 42 := by
    refine ⟨by decide, accepted, by decide, ?_, ?_⟩
    · rw [ihl]
      decide
    · rw [ihl, total]
      exact message
  obtain ⟨frames, sent, formed⟩ := receive_frame_transmits broadcastPing 42 networkInit
  have broken : ¬ ∀ bytes ∈ frames, WellFormed bytes :=
    fun all => formed.mp all ⟨by decide, request⟩
  simp only [not_forall, exists_prop] at broken
  obtain ⟨bytes, member, malformed⟩ := broken
  refine ⟨bytes, ?_, malformed⟩
  show bytes ∈ (netReceiveFrame broadcastPing 42 networkInit).sent
  rw [sent]
  exact List.mem_append_left _ member

end JsEmulator.Network
