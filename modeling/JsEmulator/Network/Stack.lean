import JsEmulator.Network.Checksums

/-!
# The guest's network stack

ARP, IPv4, ICMP and UDP as `network.c` has them, with the table of sockets. A received
frame is a buffer and a length; what user memory answers to a copy is an argument of the
call. `sent` lists the transmitted frames, latest first. `arrived` and `returned` of a
socket are history: the datagrams queued for it and those returned from it since it was
created.
-/

namespace JsEmulator.Network

open JsEmulator.Library

def eagain : Int := 11
def efault : Int := 14
def einval : Int := 22
def enfile : Int := 23
def emfile : Int := 24
def edestaddrreq : Int := 89
def emsgsize : Int := 90
def eprotonosupport : Int := 93
def eafnosupport : Int := 97
def eaddrinuse : Int := 98
def eaddrnotavail : Int := 99

/-- `CFG_NSOCKET`. -/
def nsocket : Nat := 8

def afInet : Int := 2
def sockDgram : Int := 2

/-- `net_guest_ip`. -/
def netGuestIp : Nat := 0x0a00020f

/-- The bytes that `net_guest_mac` writes. -/
def guestMac : Buffer := fun i => if i = 0 ∨ i = 5 then 2 else 0

/-- `struct udp_datagram`; its `length` is that of the payload. -/
structure Datagram where
  payload : List Byte
  sourceAddress : Nat
  sourcePort : Nat
deriving DecidableEq

structure Socket where
  used : Bool
  refs : Nat
  type : Int
  localPort : Nat
  localAddress : Nat
  remoteAddress : Nat
  remotePort : Nat
  queueHead : Nat
  queueCount : Nat
  queue : Nat → Datagram
  arrived : List Datagram
  returned : List Datagram

structure ArpEntry where
  used : Bool
  address : Nat
  mac : Buffer

structure Stack where
  sockets : Nat → Socket
  arp : Nat → ArpEntry
  txFrame : Buffer
  ephemeralPort : Nat
  sent : List (List Byte)

def Stack.setSocket (s : Stack) (i : Nat) (f : Socket → Socket) : Stack :=
  { s with sockets := Function.update s.sockets i (f (s.sockets i)) }

/-- The copy loop `while (i < count) { frame[start + i] = source[i]; ... }`. -/
def copyBytes (frame : Buffer) (start count : Nat) (source : Buffer) : Buffer := fun i =>
  if start ≤ i ∧ i < start + count then source (i - start) else frame i

/-- The buffer from a place on, `frame + start`. -/
def Buffer.dropped (frame : Buffer) (start : Nat) : Buffer := fun i => frame (start + i)

/-- `net_accepts_mac`. -/
def netAcceptsMac (mac : Buffer) : Bool :=
  (List.range 6).all (fun i => mac i == guestMac i) || (List.range 6).all (fun i => mac i == 255)

/-- The bytes of a frame as the device sees them. -/
def frameBytes (frame : Buffer) (length : Nat) : List Byte := (List.range length).map frame

/-- `net_transmit`. -/
def netTransmit (frame : Buffer) (length : Nat) (s : Stack) : Stack :=
  { s with txFrame := frame, sent := frameBytes frame length :: s.sent }

/-- `net_learn_arp`. The entry of the address is taken, else the first free one, else the
first. -/
def netLearnArp (address : Nat) (mac : Buffer) (s : Stack) : Stack :=
  if address = 0 then s
  else
    let found := (List.range 8).foldl (fun slot i =>
      let slot := if (s.arp i).used ∧ (s.arp i).address = address then some i else slot
      if slot = none ∧ (s.arp i).used = false then some i else slot) none
    let slot := found.getD 0
    { s with arp := Function.update s.arp slot ⟨true, address, copyBytes (s.arp slot).mac 0 6 mac⟩ }

/-- `net_lookup_arp`. -/
def netLookupArp (address : Nat) (s : Stack) : Option Buffer :=
  ((List.range 8).find? (fun i => (s.arp i).used && (s.arp i).address == address)).map
    (fun i => (s.arp i).mac)

/-- The ARP frame that requests and replies share. -/
def arpFrame (tx : Buffer) (operation : Nat) (destination target : Buffer) (address : Nat) :
    Buffer :=
  let frame := copyBytes tx 0 6 destination
  let frame := copyBytes frame 6 6 guestMac
  let frame := netWrite16 frame 12 0x0806
  let frame := netWrite16 frame 14 1
  let frame := netWrite16 frame 16 0x0800
  let frame := store frame 18 6
  let frame := store frame 19 4
  let frame := netWrite16 frame 20 operation
  let frame := copyBytes frame 22 6 guestMac
  let frame := netWrite32 frame 28 netGuestIp
  let frame := copyBytes frame 32 6 target
  netWrite32 frame 38 address

/-- `net_send_arp_request`. -/
def netSendArpRequest (address : Nat) (s : Stack) : Stack :=
  netTransmit (arpFrame s.txFrame 1 (fun _ => 255) (fun _ => 0) address) 42 s

/-- `net_reply_arp`. -/
def netReplyArp (frame : Buffer) (length : Nat) (s : Stack) : Stack :=
  if length < 42 ∨ netRead16 frame 14 ≠ 1 ∨ netRead16 frame 16 ≠ 0x0800 ∨ frame 18 ≠ 6 ∨
      frame 19 ≠ 4 then s
  else
    let operation := netRead16 frame 20
    if operation ≠ 1 ∧ operation ≠ 2 then s
    else
      let s := netLearnArp (netRead32 frame 28) (frame.dropped 22) s
      if operation ≠ 1 ∨ netRead32 frame 38 ≠ netGuestIp then s
      else netTransmit (arpFrame s.txFrame 2 (frame.dropped 22) (frame.dropped 22)
        (netRead32 frame 28)) 42 s

/-- The request as `net_reply_icmp` copies it, with its addresses exchanged and no header
checksum. -/
def icmpCopy (tx frame : Buffer) (total : Nat) : Buffer :=
  let reply := copyBytes tx 0 6 (frame.dropped 6)
  let reply := copyBytes reply 6 6 frame
  let reply := copyBytes reply 12 (14 + total - 12) (frame.dropped 12)
  let reply := netWrite32 reply 26 (netRead32 frame 30)
  let reply := netWrite32 reply 30 netGuestIp
  store (store reply 24 0) 25 0

/-- The message as it is summed: an echo reply with no checksum. -/
def icmpMessage (reply : Buffer) (ihl : Nat) : Buffer :=
  store (store (store reply (14 + ihl) 0) (14 + ihl + 2) 0) (14 + ihl + 3) 0

/-- The reply that `net_reply_icmp` builds. -/
def icmpFrame (tx frame : Buffer) (ihl total : Nat) : Buffer :=
  let reply := icmpCopy tx frame total
  let reply := netWrite16 reply 24 (netChecksum reply 14 ihl)
  let reply := icmpMessage reply ihl
  netWrite16 reply (14 + ihl + 2) (netChecksum reply (14 + ihl) (total - ihl))

/-- `net_reply_icmp`. -/
def netReplyIcmp (frame : Buffer) (length ihl total : Nat) (s : Stack) : Stack :=
  if length < 14 + total ∨ frame (14 + ihl) ≠ 8 ∨ netChecksum frame (14 + ihl) (total - ihl) ≠ 0
  then s
  else netTransmit (icmpFrame s.txFrame frame ihl total) (14 + total) s

/-- Whether a datagram from this source is for the socket. -/
def Socket.accepts (socket : Socket) (destinationPort sourceAddress sourcePort : Nat) : Bool :=
  socket.used && socket.type == sockDgram && socket.localPort == destinationPort &&
  (socket.localAddress == 0 || socket.localAddress == netGuestIp) &&
  (socket.remoteAddress == 0 ||
    (socket.remoteAddress == sourceAddress && socket.remotePort == sourcePort))

/-- Put a datagram behind the last one of the ring. -/
def Socket.enqueue (socket : Socket) (datagram : Datagram) : Socket :=
  { socket with
    queue := Function.update socket.queue ((socket.queueHead + socket.queueCount) % 4) datagram
    queueCount := socket.queueCount + 1
    arrived := socket.arrived ++ [datagram] }

/-- The end of `net_receive_udp`: the first socket that accepts the datagram gets it,
unless its queue is full. -/
def deliverDatagram (destinationPort : Nat) (datagram : Datagram) (s : Stack) : Stack :=
  match (List.range nsocket).find? (fun i =>
      (s.sockets i).accepts destinationPort datagram.sourceAddress datagram.sourcePort) with
  | none => s
  | some i =>
    if 4 ≤ (s.sockets i).queueCount then s else s.setSocket i (Socket.enqueue · datagram)

/-- `net_receive_udp`. -/
def netReceiveUdp (frame : Buffer) (length ihl total : Nat) (s : Stack) : Stack :=
  let udp := 14 + ihl
  if length < udp + 8 ∨ total < ihl + 8 then s
  else
    let udpLength := netRead16 frame (udp + 4)
    if udpLength < 8 ∨ total < ihl + udpLength then s
    else if netRead16 frame (udp + 6) ≠ 0 ∧ netUdpChecksum frame udp udpLength ≠ 0 then s
    else
      let payloadLength := udpLength - 8
      if 512 < payloadLength ∨ length < udp + 8 + payloadLength then s
      else deliverDatagram (netRead16 frame (udp + 2))
        ⟨frameBytes (frame.dropped (udp + 8)) payloadLength, netRead32 frame 26, netRead16 frame udp⟩ s

/-- The header length that a frame declares. -/
def headerLength (frame : Buffer) : Nat := (frame 14).toNat % 16 * 4

/-- The checks of `net_receive_frame` on an IPv4 header. -/
def acceptsIpv4 (frame : Buffer) (length : Nat) : Bool :=
  let total := netRead16 frame 16
  34 ≤ length && (frame 14).toNat / 16 == 4 && netRead32 frame 30 == netGuestIp &&
  20 ≤ headerLength frame && headerLength frame ≤ total && 14 + total ≤ length &&
  netChecksum frame 14 (headerLength frame) == 0 && netRead16 frame 20 % 0x4000 == 0

/-- `net_receive_frame`. -/
def netReceiveFrame (frame : Buffer) (length : Nat) (s : Stack) : Stack :=
  if length < 14 ∨ netAcceptsMac frame = false then s
  else if netRead16 frame 12 = 0x0806 then netReplyArp frame length s
  else if netRead16 frame 12 ≠ 0x0800 ∨ acceptsIpv4 frame length = false then s
  else
    let ihl := headerLength frame
    let total := netRead16 frame 16
    let s := netLearnArp (netRead32 frame 26) (frame.dropped 6) s
    if (frame 23).toNat = 1 then netReplyIcmp frame length ihl total s
    else if (frame 23).toNat = ipprotoUdp then netReceiveUdp frame length ihl total s
    else s

/-- Some open socket has this local port. -/
def Stack.portUsed (s : Stack) (port : Nat) : Bool :=
  (List.range nsocket).any (fun i => (s.sockets i).used && (s.sockets i).localPort == port)

/-- The search of `socket_allocate_port`, which never goes back. -/
def allocateLoop (i : Nat) (s : Stack) : Int × Stack :=
  if s.ephemeralPort < 65535 then
    let candidate := s.ephemeralPort
    let s' := { s with ephemeralPort := candidate + 1 }
    if s'.portUsed candidate then allocateLoop i s'
    else (candidate, s'.setSocket i (fun socket => { socket with localPort := candidate }))
  else (-eaddrinuse, s)
termination_by 65535 - s.ephemeralPort
decreasing_by
  show 65535 - (s.ephemeralPort + 1) < 65535 - s.ephemeralPort
  omega

/-- `socket_allocate_port`. -/
def socketAllocatePort (i : Nat) (s : Stack) : Int × Stack :=
  if (s.sockets i).localPort ≠ 0 then ((s.sockets i).localPort, s) else allocateLoop i s

/-- The Ethernet and IPv4 headers of a datagram, with no header checksum. -/
def ipv4Header (tx destination : Buffer) (length address : Nat) : Buffer :=
  let frame := copyBytes tx 0 6 destination
  let frame := copyBytes frame 6 6 guestMac
  let frame := netWrite16 frame 12 0x0800
  let frame := store frame 14 0x45
  let frame := store frame 15 0
  let frame := netWrite16 frame 16 (20 + 8 + length)
  let frame := netWrite16 frame 18 0
  let frame := netWrite16 frame 20 0
  let frame := store frame 22 64
  let frame := store frame 23 (BitVec.ofNat 8 ipprotoUdp)
  let frame := netWrite16 frame 24 0
  let frame := netWrite32 frame 26 netGuestIp
  netWrite32 frame 30 address

/-- The frame that `socket_send_destination` builds. -/
def udpFrame (tx destination payload : Buffer) (length address sourcePort port : Nat) : Buffer :=
  let frame := ipv4Header tx destination length address
  let frame := netWrite16 frame 24 (netChecksum frame 14 20)
  let frame := netWrite16 frame 34 sourcePort
  let frame := netWrite16 frame 36 port
  let frame := netWrite16 frame 38 (8 + length)
  let frame := netWrite16 frame 40 0
  copyBytes frame 42 length payload

/-- `socket_send_destination`. `bytes` is what the buffer of the caller holds, if it can
be read. -/
def socketSendDestination (i : Nat) (length : Int) (bytes : Option Buffer) (address port : Nat)
    (s : Stack) : Int × Stack :=
  if length < 0 then (-einval, s)
  else if 512 < length then (-emsgsize, s)
  else
    match bytes with
    | none => (-efault, s)
    | some payload =>
      if address = 0 ∨ port = 0 then (-edestaddrreq, s)
      else
        let (sourcePort, s) := socketAllocatePort i s
        if sourcePort < 0 then (sourcePort, s)
        else
          match netLookupArp address s with
          | none => (-eagain, netSendArpRequest address s)
          | some mac =>
            (length, netTransmit (udpFrame s.txFrame mac payload length.toNat address
              sourcePort.toNat port) (42 + length.toNat) s)

/-- A process sends what `sockaddr_in` holds in network byte order. -/
def hostOrder16 (value : Nat) : Nat := value % 256 * 256 + value / 256 % 256

def hostOrder32 (value : Nat) : Nat :=
  hostOrder16 value * 65536 + hostOrder16 (value / 65536)

/-- `struct guest_sockaddr_in`. -/
structure GuestSockaddrIn where
  family : Int
  port : Nat
  address : Nat

/-- `socket_copy_address`: the code of a failure, or the port and the address. -/
def socketCopyAddress (length : Int) (value : Option GuestSockaddrIn) : Except Int (Nat × Nat) :=
  if length < 12 then .error (-einval)
  else
    match value with
    | none => .error (-efault)
    | some value =>
      if value.family ≠ afInet then .error (-eafnosupport)
      else .ok (hostOrder16 value.port, hostOrder32 value.address)

def emptyDatagram : Datagram := ⟨[], 0, 0⟩

def emptySocket : Socket :=
  ⟨false, 0, 0, 0, 0, 0, 0, 0, 0, fun _ => emptyDatagram, [], []⟩

/-- A slot as `socket_create` fills it. -/
def freshSocket (type : Int) : Socket := { emptySocket with used := true, refs := 1, type := type }

/-- `socket_create`. `descriptor` is what `alloc_fd` returns. -/
def socketCreate (domain type protocol descriptor : Int) (s : Stack) : Int × Stack :=
  if domain ≠ afInet then (-eafnosupport, s)
  else if type ≠ sockDgram then (-eprotonosupport, s)
  else if protocol ≠ 0 ∧ protocol ≠ ipprotoUdp then (-eprotonosupport, s)
  else
    match (List.range nsocket).find? (fun i => !(s.sockets i).used) with
    | none => (-enfile, s)
    | some i =>
      if descriptor < 0 then (-emfile, s)
      else (descriptor, s.setSocket i (fun _ => freshSocket type))

/-- `socket_bind`, for the socket of a descriptor. -/
def socketBind (i : Nat) (length : Int) (value : Option GuestSockaddrIn) (s : Stack) : Int × Stack :=
  match socketCopyAddress length value with
  | .error code => (code, s)
  | .ok (port, address) =>
    if port = 0 ∨ 65535 < port then (-einval, s)
    else if address ≠ 0 ∧ address ≠ netGuestIp then (-eaddrnotavail, s)
    else if (List.range nsocket).any (fun j =>
        j != i && (s.sockets j).used && (s.sockets j).localPort == port) then (-eaddrinuse, s)
    else (0, s.setSocket i (fun socket =>
      { socket with localPort := port, localAddress := address }))

/-- `socket_connect`. -/
def socketConnect (i : Nat) (length : Int) (value : Option GuestSockaddrIn) (s : Stack) :
    Int × Stack :=
  match socketCopyAddress length value with
  | .error code => (code, s)
  | .ok (port, address) => (0, s.setSocket i (fun socket =>
      { socket with remoteAddress := address, remotePort := port }))

/-- `socket_send_object`. -/
def socketSend (i : Nat) (length : Int) (bytes : Option Buffer) (s : Stack) : Int × Stack :=
  socketSendDestination i length bytes (s.sockets i).remoteAddress (s.sockets i).remotePort s

/-- `socket_sendto`. -/
def socketSendto (i : Nat) (length : Int) (bytes : Option Buffer) (addressLength : Int)
    (value : Option GuestSockaddrIn) (s : Stack) : Int × Stack :=
  match socketCopyAddress addressLength value with
  | .error code => (code, s)
  | .ok (port, address) => socketSendDestination i length bytes address port s

/-- What `socket_receive_datagram` does: it fails, it sleeps until there is a datagram, or
it returns bytes of a datagram and its source. -/
inductive Received where
  | failed (code : Int)
  | blocked
  | bytes (bytes : List Byte) (sourceAddress sourcePort : Nat)

/-- `socket_receive_datagram`. `writable` is the answer of `user_access_ok`, `copied`
whether the copies to user memory succeed. -/
def socketReceiveDatagram (i : Nat) (length : Int) (writable copied : Bool) (s : Stack) :
    Received × Stack :=
  if length < 0 then (.failed (-einval), s)
  else if writable = false then (.failed (-efault), s)
  else
    let socket := s.sockets i
    if socket.queueCount = 0 then (.blocked, s)
    else
      let datagram := socket.queue socket.queueHead
      if copied = false then (.failed (-efault), s)
      else (.bytes (datagram.payload.take length.toNat) datagram.sourceAddress datagram.sourcePort,
        s.setSocket i (fun socket =>
          { socket with
            queueHead := (socket.queueHead + 1) % 4
            queueCount := socket.queueCount - 1
            returned := socket.returned ++ [datagram] }))

/-- `socket_close`. -/
def socketClose (i : Nat) (s : Stack) : Stack :=
  if nsocket ≤ i ∨ (s.sockets i).used = false then s
  else s.setSocket i (fun socket =>
    { socket with refs := socket.refs - 1, used := decide (socket.refs - 1 ≠ 0) })

/-- `socket_retain`. -/
def socketRetain (i : Nat) (s : Stack) : Stack :=
  if nsocket ≤ i ∨ (s.sockets i).used = false then s
  else s.setSocket i (fun socket => { socket with refs := socket.refs + 1 })

/-- One entry into the network stack: a received frame, or a call on a socket. -/
inductive Call where
  | frame (frame : Buffer) (length : Nat)
  | create (domain type protocol descriptor : Int)
  | bind (i : Nat) (length : Int) (value : Option GuestSockaddrIn)
  | connect (i : Nat) (length : Int) (value : Option GuestSockaddrIn)
  | send (i : Nat) (length : Int) (bytes : Option Buffer)
  | sendto (i : Nat) (length : Int) (bytes : Option Buffer) (addressLength : Int)
      (value : Option GuestSockaddrIn)
  | receive (i : Nat) (length : Int) (writable copied : Bool)
  | close (i : Nat)
  | retain (i : Nat)

def Stack.call (s : Stack) : Call → Stack
  | .frame frame length => netReceiveFrame frame length s
  | .create domain type protocol descriptor => (socketCreate domain type protocol descriptor s).2
  | .bind i length value => (socketBind i length value s).2
  | .connect i length value => (socketConnect i length value s).2
  | .send i length bytes => (socketSend i length bytes s).2
  | .sendto i length bytes addressLength value =>
      (socketSendto i length bytes addressLength value s).2
  | .receive i length writable copied => (socketReceiveDatagram i length writable copied s).2
  | .close i => socketClose i s
  | .retain i => socketRetain i s

/-- An open socket of the table. -/
def Stack.Open (s : Stack) (i : Nat) : Prop := i < nsocket ∧ (s.sockets i).used = true

/-- A call reaches a socket through a descriptor of it, which keeps it open. -/
def Call.Legal (s : Stack) : Call → Prop
  | .bind i _ _ | .connect i _ _ | .send i _ _ | .sendto i _ _ _ _ | .receive i _ _ _ => s.Open i
  | .frame _ _ | .create _ _ _ _ | .close _ | .retain _ => True

/-- `network_init`. -/
def networkInit : Stack :=
  ⟨fun _ => emptySocket, fun _ => ⟨false, 0, fun _ => 0⟩, fun _ => 0, 49152, []⟩

/-- The states that sequences of calls reach. -/
inductive Reachable : Stack → Prop where
  | init : Reachable networkInit
  | call (s : Stack) (call : Call) (before : Reachable s) (legal : call.Legal s) :
      Reachable (s.call call)

end JsEmulator.Network
