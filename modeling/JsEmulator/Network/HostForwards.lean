import Mathlib.Data.List.Nodup
import JsEmulator.Network.Stack

/-!
# Host forwarding

The bridge between the network card and the host. A datagram that arrives at a forwarded host port
is given to the guest as one of the gateway, with a source port that stands for its client; what
the guest sends to the gateway at that port goes back to the client. Everything else that the guest
sends leaves through a host socket for its flow.

Only one socket can be bound to a host port, so that a forward's socket is known by its port. The
bridge is not closed; the answer to an ARP request changes nothing in it.
-/

namespace JsEmulator.Network

def gatewayIp : Nat := 0x0a000202

def loopbackIp : Nat := 0x7f000001

structure HostForward where
  hostPort : Nat
  guestPort : Nat

/-- A client of a forwarded port. Its NAT port is its key in the table. -/
structure InboundClient where
  address : String
  port : Nat
  guestPort : Nat
  socket : Nat

/-- The sockets of the bridge. -/
inductive HostSocket where
  | forward (hostPort : Nat)
  | flow (guestPort peerIp peerPort : Nat)
deriving DecidableEq

/-- A datagram that leaves through a socket of the host. -/
structure Sent where
  socket : HostSocket
  payload : List Byte
  port : Nat
  address : String
deriving DecidableEq

/-- The tables of the bridge, in the order in which their keys were inserted. -/
structure NetBridge where
  inbound : List (Nat × InboundClient)
  nextNatPort : Nat
  outbound : List HostSocket

def ipToString (ip : Nat) : String :=
  ".".intercalate ([24, 16, 8, 0].map fun shift => toString (ip / 2 ^ shift % 256))

namespace NetBridge

/-- `inbound.get`. -/
def get (s : NetBridge) (natPort : Nat) : Option InboundClient :=
  (s.inbound.find? fun e => e.1 = natPort).map Prod.snd

/-- `inbound.set`: the value of a key that is there is replaced in its place. -/
def set (s : NetBridge) (natPort : Nat) (client : InboundClient) : NetBridge :=
  { s with inbound :=
      if s.inbound.any fun e => e.1 = natPort then
        s.inbound.map fun e => if e.1 = natPort then (natPort, client) else e
      else s.inbound ++ [(natPort, client)] }

def sendOutbound (s : NetBridge) (guestPort peerIp peerPort realIp : Nat) (payload : List Byte) :
    List Sent × NetBridge :=
  let flow := HostSocket.flow guestPort peerIp peerPort
  ([⟨flow, payload, peerPort, ipToString realIp⟩],
    if flow ∈ s.outbound then s else { s with outbound := s.outbound ++ [flow] })

end NetBridge

/-- A datagram of the guest. -/
structure GuestDatagram where
  sourcePort : Nat
  destPort : Nat
  destIp : Nat
  payload : List Byte
deriving DecidableEq

/-- The checks at the start of `handleIpv4`, and what is read from a frame that passes them. -/
def guestDatagram (frame : Buffer) (length : Nat) : Option GuestDatagram :=
  let ihl := headerLength frame
  let udp := 14 + ihl
  let udpLength := netRead16 frame (udp + 4)
  if length < 34 ∨ (frame 14).toNat / 16 ≠ 4 ∨ ihl < 20 ∨ length < 14 + ihl + 8 ∨
      (frame 23).toNat ≠ ipprotoUdp ∨ udpLength < 8 ∨ length < udp + udpLength then none
  else some ⟨netRead16 frame udp, netRead16 frame (udp + 2), netRead32 frame 30,
    frameBytes (frame.dropped (udp + 8)) (udpLength - 8)⟩

namespace NetBridge

def handleIpv4 (s : NetBridge) (frame : Buffer) (length : Nat) : List Sent × NetBridge :=
  match guestDatagram frame length with
  | none => ([], s)
  | some ⟨sourcePort, destPort, destIp, payload⟩ =>
    match if destIp = gatewayIp then s.get destPort else none with
    | some client => ([⟨.forward client.socket, payload, client.port, client.address⟩], s)
    | none =>
      let realIp := if destIp = gatewayIp then loopbackIp else destIp
      s.sendOutbound sourcePort destIp destPort realIp payload

def handleGuestFrame (s : NetBridge) (frame : Buffer) (length : Nat) : List Sent × NetBridge :=
  if length < 14 ∨ netRead16 frame 12 ≠ 0x0800 then ([], s) else s.handleIpv4 frame length

end NetBridge

/-- The entries that `natPortFor` looks for. -/
def InboundClient.matches (client : InboundClient) (forward : HostForward) (address : String)
    (port : Nat) : Bool :=
  client.address = address && client.port = port && client.guestPort = forward.guestPort

def NetBridge.natPortFor (s : NetBridge) (forward : HostForward) (address : String) (port : Nat) :
    Nat × NetBridge :=
  match s.inbound.find? fun e => e.2.matches forward address port with
  | some e => (e.1, s)
  | none =>
    let natPort := s.nextNatPort
    let next := if 60000 < natPort + 1 then 40000 else natPort + 1
    (natPort, { s with nextNatPort := next }.set natPort
      ⟨address, port, forward.guestPort, forward.hostPort⟩)

/-- A client, the forwarded port that it has sent to, and the NAT port it was given. -/
structure Assignment where
  address : String
  port : Nat
  hostPort : Nat
  natPort : Nat

/-- The runs of a bridge in which every datagram from the host meets a condition, with what has
been assigned. -/
inductive Runs (fine : NetBridge → HostForward → String → Nat → Prop) (hostfwd : List HostForward) :
    List Assignment → NetBridge → Prop
  | start : Runs fine hostfwd [] ⟨[], 40000, []⟩
  | arrives {assigned : List Assignment} {s : NetBridge} (earlier : Runs fine hostfwd assigned s)
      (forward : HostForward)
      (bound : hostfwd.find? (fun f => f.hostPort = forward.hostPort) = some forward)
      (address : String) (port : Nat) (meets : fine s forward address port) :
      Runs fine hostfwd
        (⟨address, port, forward.hostPort, (s.natPortFor forward address port).1⟩ :: assigned)
        (s.natPortFor forward address port).2
  | transmits {assigned : List Assignment} {s : NetBridge} (earlier : Runs fine hostfwd assigned s)
      (frame : Buffer) (length : Nat) :
      Runs fine hostfwd assigned (s.handleGuestFrame frame length).2

/-- An entry that is found for a client is of the same host port, and a client that has none gets a
port that is free. -/
def Separate (s : NetBridge) (forward : HostForward) (address : String) (port : Nat) : Prop :=
  (∀ e ∈ s.inbound, e.2.matches forward address port = true → e.2.socket = forward.hostPort) ∧
    ((∀ e ∈ s.inbound, e.2.matches forward address port = false) →
      ∀ e ∈ s.inbound, e.1 ≠ s.nextNatPort)

/-- What has been assigned is in the table, where no key is twice. -/
structure Tabled (assigned : List Assignment) (s : NetBridge) : Prop where
  keys : (s.inbound.map Prod.fst).Nodup
  listed : ∀ a ∈ assigned, ∃ guestPort,
    (a.natPort, ⟨a.address, a.port, guestPort, a.hostPort⟩) ∈ s.inbound

variable {s : NetBridge} {assigned : List Assignment} {forward : HostForward} {address : String}
  {port : Nat}

/-- A frame of the guest does not change the clients. -/
theorem handleGuestFrame_inbound (s : NetBridge) (frame : Buffer) (length : Nat) :
    (s.handleGuestFrame frame length).2.inbound = s.inbound := by
  unfold NetBridge.handleGuestFrame NetBridge.handleIpv4 NetBridge.sendOutbound
  split
  · rfl
  split
  · rfl
  split
  · rfl
  · dsimp only
    split <;> rfl

/-- A datagram from the host. -/
theorem natPortFor_tabled (tabled : Tabled assigned s) (separate : Separate s forward address port) :
    Tabled (⟨address, port, forward.hostPort, (s.natPortFor forward address port).1⟩ :: assigned)
      (s.natPortFor forward address port).2 := by
  obtain ⟨same, free⟩ := separate
  unfold NetBridge.natPortFor
  split
  case h_1 e found =>
    have matched : e.2.matches forward address port = true :=
      @List.find?_some _ (fun e : Nat × InboundClient => e.2.matches forward address port) _ _ found
    have member := List.mem_of_find?_eq_some found
    have socket := same e member matched
    refine ⟨tabled.keys, List.forall_mem_cons.mpr ⟨⟨e.2.guestPort, ?_⟩, tabled.listed⟩⟩
    simp only [InboundClient.matches, Bool.and_eq_true, decide_eq_true_eq] at matched
    obtain ⟨⟨rfl, rfl⟩, -⟩ := matched
    rwa [← socket]
  case h_2 missing =>
    have fresh : ∀ e ∈ s.inbound, e.1 ≠ s.nextNatPort :=
      free fun e member => by simpa using List.find?_eq_none.mp missing e member
    have absent : (s.inbound.any fun e => e.1 = s.nextNatPort) = false := by simpa using fresh
    dsimp only [NetBridge.set]
    rw [absent, if_neg (by simp)]
    refine ⟨?_, List.forall_mem_cons.mpr ⟨⟨forward.guestPort, by simp⟩, fun a member => ?_⟩⟩
    · rw [List.map_append, List.nodup_append]
      refine ⟨tabled.keys, List.nodup_singleton _, fun key old => ?_⟩
      obtain ⟨e, member, rfl⟩ := List.mem_map.mp old
      simpa using fresh e member
    · obtain ⟨guestPort, listed⟩ := tabled.listed a member
      exact ⟨guestPort, List.mem_append_left _ listed⟩

theorem Runs.tabled {hostfwd : List HostForward} (run : Runs Separate hostfwd assigned s) :
    Tabled assigned s := by
  induction run with
  | start => exact ⟨List.nodup_nil, fun a impossible => absurd impossible List.not_mem_nil⟩
  | arrives earlier forward bound address port separate ih => exact natPortFor_tabled ih separate
  | transmits earlier frame length ih =>
    obtain ⟨keys, listed⟩ := ih
    rw [← handleGuestFrame_inbound _ frame length] at keys listed
    exact ⟨keys, listed⟩

/-- An entry is found by its key. -/
theorem Tabled.get {natPort : Nat} {client : InboundClient} (tabled : Tabled assigned s)
    (listed : (natPort, client) ∈ s.inbound) : s.get natPort = some client := by
  unfold NetBridge.get
  cases found : s.inbound.find? fun e => e.1 = natPort with
  | none =>
    have other := List.find?_eq_none.mp found _ listed
    simp at other
  | some e =>
    have key : e.1 = natPort := by simpa using List.find?_some found
    have same : e = (natPort, client) :=
      List.inj_on_of_nodup_map tabled.keys (List.mem_of_find?_eq_some found) listed key
    rw [same]
    rfl

/-- No two clients are given one NAT port, where a client is an address, a port and the forwarded
port it sends to; and what the guest sends to the gateway at the NAT port of a client goes to the
client, through the socket of the forwarded port. Every datagram from the host must find only
entries of its own host port, and a new client a port that is free. -/
theorem clients_kept_apart {hostfwd : List HostForward} {assigned : List Assignment} {s : NetBridge}
    (run : Runs Separate hostfwd assigned s) :
    (∀ a ∈ assigned, ∀ b ∈ assigned, a.natPort = b.natPort →
      a.address = b.address ∧ a.port = b.port ∧ a.hostPort = b.hostPort) ∧
    ∀ a ∈ assigned, ∀ frame length source payload, netRead16 frame 12 = 0x0800 →
      guestDatagram frame length = some ⟨source, a.natPort, gatewayIp, payload⟩ →
      s.handleGuestFrame frame length =
        ([⟨.forward a.hostPort, payload, a.port, a.address⟩], s) := by
  have tabled := run.tabled
  refine ⟨fun a memberA b memberB same => ?_, fun a member frame length source payload ipv4 parsed => ?_⟩
  · obtain ⟨guestA, listedA⟩ := tabled.listed a memberA
    obtain ⟨guestB, listedB⟩ := tabled.listed b memberB
    have entries := tabled.get listedA
    rw [same, tabled.get listedB, Option.some.injEq, InboundClient.mk.injEq] at entries
    exact ⟨entries.1.symm, entries.2.1.symm, entries.2.2.2.symm⟩
  · obtain ⟨guestPort, listed⟩ := tabled.listed a member
    have long : ¬ length < 34 := by
      intro short
      simp [guestDatagram, short] at parsed
    rw [NetBridge.handleGuestFrame, if_neg (by omega), NetBridge.handleIpv4, parsed]
    dsimp only
    rw [if_pos rfl, tabled.get listed]

/-- An empty datagram of the guest to a port of the gateway. -/
def emptyReply (natPort : Nat) : Buffer := fun i =>
  [0, 0, 0, 0, 0, 0, 0, 0, 0, 0, 0, 0, 8, 0, 0x45, 0, 0, 28, 0, 0, 0, 0, 64, 17, 0, 0, 10, 0, 2, 15,
    10, 0, 2, 2, 0x23, 0x28, BitVec.ofNat 8 (natPort / 256), BitVec.ofNat 8 natPort, 0, 8, 0, 0].getD
    i 0

/-- The first client of a bridge is answered. -/
theorem clients_kept_apart_first :
    (NetBridge.natPortFor ⟨[], 40000, []⟩ ⟨5555, 9000⟩ "127.0.0.1" 1234).2.handleGuestFrame
        (emptyReply 40000) 42 =
      ([⟨.forward 5555, [], 1234, "127.0.0.1"⟩],
        (NetBridge.natPortFor ⟨[], 40000, []⟩ ⟨5555, 9000⟩ "127.0.0.1" 1234).2) := by
  have run : Runs Separate [⟨5555, 9000⟩] [⟨"127.0.0.1", 1234, 5555, 40000⟩]
      (NetBridge.natPortFor ⟨[], 40000, []⟩ ⟨5555, 9000⟩ "127.0.0.1" 1234).2 :=
    Runs.start.arrives ⟨5555, 9000⟩ rfl "127.0.0.1" 1234 ⟨by simp, by simp⟩
  exact (clients_kept_apart run).2 _ (List.mem_singleton_self _) (emptyReply 40000) 42 9000 []
    (by decide) (by decide)

/-- Two forwards to one port of the guest: a client that sends to both is given one NAT port, and
the answer leaves through the socket of the first. -/
theorem forwards_confused : ∃ s a b, Runs (fun _ _ _ _ => True) [⟨5555, 9000⟩, ⟨6666, 9000⟩] [b, a] s ∧
    a.hostPort ≠ b.hostPort ∧ a.natPort = b.natPort ∧
    (s.handleGuestFrame (emptyReply b.natPort) 42).1 =
      [⟨.forward a.hostPort, [], b.port, b.address⟩] :=
  ⟨_, ⟨"127.0.0.1", 1234, 5555, 40000⟩, ⟨"127.0.0.1", 1234, 6666, 40000⟩,
    (Runs.start.arrives ⟨5555, 9000⟩ rfl "127.0.0.1" 1234 trivial).arrives ⟨6666, 9000⟩ rfl
      "127.0.0.1" 1234 trivial, by decide, rfl, by decide⟩

end JsEmulator.Network
