import Mathlib.Data.UInt
import Mathlib.Data.Nat.Notation
import Mathlib.Logic.Function.Basic
import ArkoiOs.Emm

/-!
# The serial driver

`drivers/serial.c` up to the lookup of a port: the records of initialised ports are
a list in the early heap, with one lookup result cached in front of it.  The hardware
is arbitrary: what a port reads may depend on everything that was read and written
before.  Records are kept by their address; a null pointer is `none`.
-/

namespace ArkoiOs

/-! ## Ports of the machine -/

/-- What answers `inb` and `outb`. -/
structure IoDevice (σ : Type) where
  inb : UInt16 → StateM σ UInt8
  outb : UInt16 → UInt8 → StateM σ Unit

def serialRegData : UInt16 := 0
def serialRegIer : UInt16 := 1
def serialRegFcr : UInt16 := 2
def serialRegLcr : UInt16 := 3
def serialRegMcr : UInt16 := 4
def serialRegLsr : UInt16 := 5

def serialRegLsb : UInt16 := 0
def serialRegMsb : UInt16 := 1

def serialLcrDataMask : UInt8 := 0b11
def serialLcrStopMask : UInt8 := 0b100
def serialLcrParityMask : UInt8 := 0b1110000

def serialLsrDataReady : UInt8 := 0x01
def serialLsrThrEmpty : UInt8 := 0x20

def serialBaseClock : UInt32 := 115200
def serialTestByte : UInt8 := 0x2A

/-- `serial_data_bits_t`. -/
inductive SerialDataBits
  | five
  | six
  | seven
  | eight
  deriving DecidableEq, Repr

def SerialDataBits.value : SerialDataBits → UInt8
  | five => 0b00
  | six => 0b01
  | seven => 0b10
  | eight => 0b11

/-- `serial_parity_t`. -/
inductive SerialParity
  | none
  | odd
  | even
  | mark
  | space
  deriving DecidableEq, Repr

def SerialParity.value : SerialParity → UInt8
  | none => 0b000
  | odd => 0b001
  | even => 0b011
  | mark => 0b101
  | space => 0b111

/-- `serial_stop_bits_t`. -/
inductive SerialStopBits
  | one
  | two
  deriving DecidableEq, Repr

def SerialStopBits.value : SerialStopBits → UInt8
  | one => 0b0
  | two => 0b1

/-! ## The test of a port -/

section Device

variable {σ : Type} (io : IoDevice σ)

/-- `serial_received`. -/
def serialReceived (port : UInt16) : StateM σ Bool := do
  let status ← io.inb (port + serialRegLsr)
  pure (status &&& serialLsrDataReady != 0)

/-- `try_read_char`; `none` is false. -/
def tryReadChar (port : UInt16) : StateM σ (Option UInt8) := do
  if ← serialReceived io port then
    let character ← io.inb (port + serialRegData)
    pure (some character)
  else pure none

/-- `is_transmit_empty`. -/
def isTransmitEmpty (port : UInt16) : StateM σ Bool := do
  let status ← io.inb (port + serialRegLsr)
  pure (status &&& serialLsrThrEmpty != 0)

/-- `try_write_char`. -/
def tryWriteChar (port : UInt16) (character : UInt8) : StateM σ Bool := do
  if ← isTransmitEmpty io port then
    io.outb (port + serialRegData) character
    pure true
  else pure false

/-- `lcr_reg`. -/
def lineControl (dataBits : SerialDataBits) (parity : SerialParity) (stopBits : SerialStopBits) :
    UInt8 :=
  (dataBits.value <<< 0 &&& serialLcrDataMask) ||| (stopBits.value <<< 2 &&& serialLcrStopMask) |||
    (parity.value <<< 4 &&& serialLcrParityMask)

/-- The part of `serial_init_port` that sets the port up, for a baud rate that is not
zero, and leaves it in loop-back mode. -/
def configurePort (port : UInt16) (baudrate : UInt32) (dataBits : SerialDataBits)
    (parity : SerialParity) (stopBits : SerialStopBits) : StateM σ Unit := do
  let divisor := (serialBaseClock / baudrate).toUInt16
  io.outb (port + serialRegIer) 0x00
  io.outb (port + serialRegLcr) 0x80
  io.outb (port + serialRegLsb) (divisor &&& 0xFF).toUInt8
  io.outb (port + serialRegMsb) (divisor >>> 8 &&& 0xFF).toUInt8
  io.outb (port + serialRegLcr) 0x00
  io.outb (port + serialRegLcr) (lineControl dataBits parity stopBits)
  io.outb (port + serialRegFcr) 0xC7
  io.outb (port + serialRegMcr) 0x0B
  io.outb (port + serialRegMcr) 0x1E

/-- The part of `serial_init_port` that tests the chip, and what it writes to the
modem control register when it has. -/
def testPort (port : UInt16) : StateM σ Bool := do
  if ← tryWriteChar io port serialTestByte then
    let receivedChar ← tryReadChar io port
    if receivedChar = some serialTestByte then
      io.outb (port + serialRegMcr) 0x0F
      pure true
    else
      io.outb (port + serialRegMcr) 0x00
      pure false
  else
    io.outb (port + serialRegMcr) 0x00
    pure false

end Device

/-! ## Records -/

/-- `serial_port_t`. -/
structure SerialPort where
  port : UInt16
  baudrate : UInt32
  next : Option UInt32
  deriving DecidableEq, Repr

/-- `sizeof(serial_port_t)`. -/
def sizeofSerialPort : UInt32 := 12

/-- The variables of the driver, the records at each address, the early heap, and
the hardware. -/
structure Serial (σ : Type) where
  cachedLookupResult : Option UInt32
  serialPorts : Option UInt32
  records : UInt32 → SerialPort
  emm : Emm
  device : σ

/-- A `serial_port_t**`: `&g_serial_ports`, or the link in a record. -/
inductive SerialSlot
  | ports
  | next (config : UInt32)
  deriving DecidableEq, Repr

section Records

variable {σ : Type}

/-- `*slot`. -/
def Serial.target (s : Serial σ) : SerialSlot → Option UInt32
  | .ports => s.serialPorts
  | .next config => (s.records config).next

/-- `*config = record`. -/
def Serial.setConfig (s : Serial σ) (config : UInt32) (record : SerialPort) : Serial σ :=
  { s with records := Function.update s.records config record }

/-- `*slot = config`. -/
def Serial.setTarget (s : Serial σ) (config : Option UInt32) : SerialSlot → Serial σ
  | .ports => { s with serialPorts := config }
  | .next record => s.setConfig record { s.records record with next := config }

/-- Assignments to fields of `*config`. -/
def updateConfig (config : UInt32) (f : SerialPort → SerialPort) : KernelM (Serial σ) Unit :=
  modify fun s => s.setConfig config (f (s.records config))

/-- Use the hardware. -/
def onDevice {α : Type} (x : StateM σ α) : KernelM (Serial σ) α := fun s =>
  .ok (x.run s.device).1 { s with device := (x.run s.device).2 }

/-- Use the early heap. -/
def Serial.onEarlyHeap {α : Type} (x : KernelM Emm α) : KernelM (Serial σ) α :=
  Machine.zoom (fun s => some s.emm) (fun s emm => { s with emm := emm }) .nullDereference x

/-- An address as a `serial_port_t*`. -/
def SerialPort.orNull (address : UInt32) : Option UInt32 :=
  if address = 0 then none else some address

/-- The loop of `get_serial_slot`. -/
def getSerialSlotFrom (port : UInt16) : ℕ → SerialSlot → KernelM (Serial σ) SerialSlot
  | 0, _ => throw .hang
  | fuel + 1, slot => do
      let s ← get
      match s.target slot with
      | none => pure slot
      | some config =>
          if (s.records config).port = port then pure slot
          else getSerialSlotFrom port fuel (.next config)

/-- `get_serial_slot`; a list with one record per port has at most 2^16 of them. -/
def getSerialSlot (port : UInt16) : KernelM (Serial σ) SerialSlot :=
  getSerialSlotFrom port (2 ^ 16 + 1) .ports

/-- `upsert_serial_config`. -/
def upsertSerialConfig (port : UInt16) (baudrate : UInt32) :
    KernelM (Serial σ) (Option UInt32) := do
  let slot ← getSerialSlot port
  let s ← get
  match s.target slot with
  | some config =>
      updateConfig config fun record => { record with port := port, baudrate := baudrate }
      pure (some config)
  | none =>
      let address ← Serial.onEarlyHeap (emmAlloc sizeofSerialPort)
      match SerialPort.orNull address with
      | none => pure none
      | some config =>
          updateConfig config fun record => { record with next := none }
          modify fun s => s.setTarget (some config) slot
          updateConfig config fun record => { record with port := port, baudrate := baudrate }
          pure (some config)

/-- `*get_serial_slot(port)`, a search of the list. -/
def searchPort (port : UInt16) : KernelM (Serial σ) (Option UInt32) := do
  let slot ← getSerialSlot port
  let s ← get
  pure (s.target slot)

/-- `serial_get_port`. -/
def serialGetPort (port : UInt16) : KernelM (Serial σ) (Option UInt32) := do
  let s ← get
  match s.cachedLookupResult.filter fun cached => (s.records cached).port = port with
  | some cached => pure (some cached)
  | none =>
      let result ← searchPort port
      match result with
      | none => pure none
      | some config =>
          modify fun s => { s with cachedLookupResult := some config }
          pure (some config)

variable (io : IoDevice σ)

/-- `serial_init_port`.  A division by zero is exception 0, which nothing handles. -/
def serialInitPort (port : UInt16) (baudrate : UInt32) (dataBits : SerialDataBits)
    (parity : SerialParity) (stopBits : SerialStopBits) : KernelM (Serial σ) (Option UInt32) := do
  if baudrate = 0 then kpanic "Unhandled exception: %u (Division By Zero)\n" [0]
  else
    onDevice (configurePort io port baudrate dataBits parity stopBits)
    if ← onDevice (testPort io port) then
      match ← upsertSerialConfig port baudrate with
      | none =>
          onDevice (io.outb (port + serialRegMcr) 0x00)
          pure none
      | some config => pure (some config)
    else pure none

end Records

end ArkoiOs
