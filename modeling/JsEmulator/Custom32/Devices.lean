import JsEmulator.Custom32.Instructions

/-!
# The devices of the machine

The devices that `Machine` puts on the port bus: the console, the keyboard, the block disk, the
clock, the entropy source, the network card and the power switch. `PortBus` throws for a port
without a reader or a writer; the disk throws for a sector it does not have, for a word
beyond its end, and for two ports that it is registered on but does not know.
-/

namespace JsEmulator.Custom32

/-- `PORT`. -/
inductive Port where
  | consoleData | diskData | diskPos | diskSectors | kbdData | kbdStatus | rtcData | entropy
  | netStatus | netRxLen | netRxData | netTxLen | netTxData | power
deriving DecidableEq, Repr

/-- The port of a number. -/
def portOf : Nat → Option Port
  | 0x3f8 => some .consoleData | 0x1f0 => some .diskData | 0x1f2 => some .diskPos
  | 0x1f7 => some .diskSectors | 0x60 => some .kbdData | 0x64 => some .kbdStatus
  | 0x70 => some .rtcData | 0x710 => some .entropy | 0x300 => some .netStatus
  | 0x301 => some .netRxLen | 0x302 => some .netRxData | 0x303 => some .netTxLen
  | 0x304 => some .netTxData | 0x604 => some .power
  | _ => none

/-- `BlockDisk`. -/
structure BlockDisk where
  sectors : Nat
  data : Nat → Byte
  pos : Nat

/-- `NetworkCard`. -/
structure NetworkCard where
  receiveQueue : List (List Byte)
  receiveOffset : Nat
  transmitLength : Nat
  transmitBytes : List Byte
  transmitted : List (List Byte)

/-- The devices. The clock is read from a sequence of times. -/
structure Devices where
  output : List Byte
  keys : List Byte
  closed : Bool
  disk : BlockDisk
  clock : Nat → Word
  clockReads : Nat
  entropy : Word
  network : NetworkCard

/-- `checkWord`. -/
def BlockDisk.holdsWord (disk : BlockDisk) : Bool := disk.pos + 4 ≤ disk.sectors * 512

def BlockDisk.read32 (disk : BlockDisk) : Word :=
  joined ((List.range 4).map fun i => some (disk.data (disk.pos + i)))

def BlockDisk.write32 (disk : BlockDisk) (x : Word) : BlockDisk :=
  { disk with
    data := fun p =>
      if disk.pos ≤ p ∧ p < disk.pos + 4 then (x >>> (8 * (p - disk.pos))).setWidth 8
      else disk.data p
    pos := disk.pos + 4 }

/-- The next state of the xorshift generator. -/
def xorshift (x : Word) : Word :=
  let x := x ^^^ (x <<< 13)
  let x := x ^^^ (x >>> 17)
  x ^^^ (x <<< 5)

/-- A byte of the frame that is being received. -/
def NetworkCard.receive (net : NetworkCard) : Word × NetworkCard :=
  match net.receiveQueue with
  | [] => (0, net)
  | frame :: rest =>
    ((frame.getD net.receiveOffset 0).setWidth 32,
      if frame.length ≤ net.receiveOffset + 1 then { net with receiveQueue := rest, receiveOffset := 0 }
      else { net with receiveOffset := net.receiveOffset + 1 })

/-- The length of the frame to transmit. -/
def NetworkCard.begin (net : NetworkCard) (value : Word) : NetworkCard :=
  if value = 0 ∨ 1518 < value.toNat then { net with transmitLength := 0, transmitBytes := [] }
  else { net with transmitLength := value.toNat, transmitBytes := [] }

/-- A byte of the frame to transmit, which is sent with its last byte. -/
def NetworkCard.transmit (net : NetworkCard) (value : Word) : NetworkCard :=
  if net.transmitLength = 0 then net
  else
    let bytes := net.transmitBytes ++ [value.setWidth 8]
    if bytes.length = net.transmitLength then
      { net with transmitted := net.transmitted ++ [bytes], transmitLength := 0, transmitBytes := [] }
    else { net with transmitBytes := bytes }

/-- `read` of the device at a port, if it has one. -/
def Devices.read (d : Devices) : Port → Option (Word × Devices)
  | .consoleData | .power => none
  | .kbdStatus => some ((if d.keys = [] then 0 else 1) ||| (if d.closed then 2 else 0), d)
  | .kbdData =>
    match d.keys with
    | [] => some (0, d)
    | key :: rest => some (key.setWidth 32, { d with keys := rest })
  | .diskData =>
    if d.disk.holdsWord then
      some (d.disk.read32, { d with disk := { d.disk with pos := d.disk.pos + 4 } })
    else none
  | .diskSectors => some (BitVec.ofNat 32 d.disk.sectors, d)
  | .diskPos => none
  | .rtcData => some (d.clock d.clockReads, { d with clockReads := d.clockReads + 1 })
  | .entropy => some (xorshift d.entropy &&& 0xff, { d with entropy := xorshift d.entropy })
  | .netStatus => some (if d.network.receiveQueue = [] then 0 else 1, d)
  | .netRxLen => some (BitVec.ofNat 32 (d.network.receiveQueue.headD []).length, d)
  | .netRxData => some (d.network.receive.1, { d with network := d.network.receive.2 })
  | .netTxLen | .netTxData => some (0, d)

/-- `write` of the device at a port, if it has one, with whether the power is switched off. -/
def Devices.write (d : Devices) (value : Word) : Port → Option (Devices × Bool)
  | .consoleData => some ({ d with output := d.output ++ [value.setWidth 8] }, false)
  | .kbdData | .kbdStatus | .rtcData | .entropy => none
  | .diskPos =>
    if value.toNat < d.disk.sectors then
      some ({ d with disk := { d.disk with pos := value.toNat * 512 } }, false)
    else none
  | .diskData =>
    if d.disk.holdsWord then some ({ d with disk := d.disk.write32 value }, false) else none
  | .diskSectors => none
  | .netTxLen => some ({ d with network := d.network.begin value }, false)
  | .netTxData => some ({ d with network := d.network.transmit value }, false)
  | .netStatus | .netRxLen | .netRxData => some (d, false)
  | .power => some (d, value = 0x2000)

/-- The port bus of `Machine`. No device raises an interrupt by itself when it is accessed. -/
def machineBus : PortBus Devices where
  read d port := (portOf port.toNat).bind fun wired =>
    (d.read wired).map fun (x, d') => (x, d', [], false)
  write d port value := (portOf port.toNat).bind fun wired =>
    (d.write value wired).map fun (d', off) => (d', [], off)

/-- A port can be read: it has a reader, and the disk has a word at its position. -/
def Devices.Readable (d : Devices) (port : Word) : Prop :=
  match portOf port.toNat with
  | none | some .consoleData | some .power | some .diskPos => False
  | some .diskData => d.disk.pos + 4 ≤ d.disk.sectors * 512
  | some _ => True

/-- A value can be written to a port: it has a writer, and the disk has the sector, or a word at its
position. -/
def Devices.Writable (d : Devices) (port value : Word) : Prop :=
  match portOf port.toNat with
  | none | some .kbdData | some .kbdStatus | some .rtcData | some .entropy | some .diskSectors => False
  | some .diskPos => value.toNat < d.disk.sectors
  | some .diskData => d.disk.pos + 4 ≤ d.disk.sectors * 512
  | some _ => True

/-- Reading a port throws unless it is readable. -/
theorem machineBus_read_iff (d : Devices) (port : Word) :
    machineBus.read d port ≠ none ↔ d.Readable port := by
  change ((portOf port.toNat).bind _) ≠ none ↔ _
  unfold Devices.Readable
  rcases portOf port.toNat with - | wired
  · simp
  rw [Option.bind_some, ne_eq, Option.map_eq_none_iff]
  cases wired with
  | diskData =>
    by_cases word : d.disk.pos + 4 ≤ d.disk.sectors * 512 <;>
      simp [Devices.read, BlockDisk.holdsWord, word]
  | kbdData => cases keys : d.keys <;> simp [Devices.read, keys]
  | _ => simp [Devices.read]

/-- Writing to a port throws unless the value can be written to it. -/
theorem machineBus_write_iff (d : Devices) (port value : Word) :
    machineBus.write d port value ≠ none ↔ d.Writable port value := by
  change ((portOf port.toNat).bind _) ≠ none ↔ _
  unfold Devices.Writable
  rcases portOf port.toNat with - | wired
  · simp
  rw [Option.bind_some, ne_eq, Option.map_eq_none_iff]
  cases wired with
  | diskData =>
    by_cases word : d.disk.pos + 4 ≤ d.disk.sectors * 512 <;>
      simp [Devices.write, BlockDisk.holdsWord, word]
  | diskPos => by_cases sector : value.toNat < d.disk.sectors <;> simp [Devices.write, sector]
  | _ => simp [Devices.write]

end JsEmulator.Custom32
