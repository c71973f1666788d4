import ArkoiOs.Serial.Model

/-!
# The chip behind a serial port

A 16550 as the driver sees it: registers, two queues of 16 bytes, and a line that brings
bytes and takes bytes at its own pace.  Time is counted in accesses to the chip; what the
line does before an access is arbitrary.  Bytes are kept after they have left the queues,
so that runs can be compared with what was on the line.
-/

namespace ArkoiOs

/-- What happens between two accesses to a chip: how many bytes the transmitter finishes,
which bytes come in, and what the chip shows where the driver does not look. -/
structure LineTick where
  shifts : ℕ
  arriving : List UInt8
  other : UInt8
  deriving DecidableEq, Repr

/-- The line at each access. -/
abbrev SerialLine := ℕ → LineTick

/-- A chip; `sent` has left the transmitter, `accepted` has entered the receiver, and
`lost` was overrun. -/
structure Uart where
  clock : ℕ
  interruptEnable : UInt8
  lineControl : UInt8
  modemControl : UInt8
  divisorLow : UInt8
  divisorHigh : UInt8
  fifos : Bool
  receiver : List UInt8
  transmitter : List UInt8
  sent : List UInt8
  accepted : List UInt8
  lost : List UInt8
  deriving DecidableEq, Repr

/-- The bytes each queue has room for. -/
def uartDepth : ℕ := 16

namespace Uart

/-- The divisor latch bit. -/
def latch (chip : Uart) : Bool := chip.lineControl &&& 0x80 != 0

/-- The loop-back bit. -/
def loopBack (chip : Uart) : Bool := chip.modemControl &&& 0x10 != 0

/-- A byte comes into the receiver.  A full queue drops it; without queues it replaces the
byte that is there. -/
def receive (chip : Uart) (byte : UInt8) : Uart :=
  if chip.fifos then
    if chip.receiver.length < uartDepth then
      { chip with receiver := chip.receiver ++ [byte], accepted := chip.accepted ++ [byte] }
    else { chip with lost := chip.lost ++ [byte] }
  else
    { chip with
      receiver := [byte]
      accepted := chip.accepted ++ [byte]
      lost := chip.lost ++ chip.receiver }

/-- The line goes on.  In loop-back mode the transmitter feeds the receiver and the line is
cut off. -/
def tick (line : SerialLine) (chip : Uart) : Uart :=
  let now := line chip.clock
  let shifted := chip.transmitter.take now.shifts
  let chip' := { chip with
    clock := chip.clock + 1
    transmitter := chip.transmitter.drop now.shifts }
  if chip.loopBack then shifted.foldl receive chip'
  else now.arriving.foldl receive { chip' with sent := chip.sent ++ shifted }

/-- The line status register. -/
def status (chip : Uart) (other : UInt8) : UInt8 :=
  (other &&& 0xDE) ||| (if chip.receiver.isEmpty then 0 else 0x01) |||
    (if chip.transmitter.isEmpty then 0x20 else 0)

/-- Read a register. -/
def readRegister (chip : Uart) (register : UInt16) (other : UInt8) : UInt8 × Uart :=
  if register = serialRegData then
    if chip.latch then (chip.divisorLow, chip)
    else (chip.receiver.headD 0, { chip with receiver := chip.receiver.tail })
  else if register = serialRegIer then
    (if chip.latch then chip.divisorHigh else chip.interruptEnable, chip)
  else if register = serialRegLcr then (chip.lineControl, chip)
  else if register = serialRegMcr then (chip.modemControl, chip)
  else if register = serialRegLsr then (chip.status other, chip)
  else (other, chip)

/-- A byte goes to the transmitter.  A full queue drops it; without queues it replaces the
byte that is there. -/
def transmit (chip : Uart) (byte : UInt8) : Uart :=
  { chip with
    transmitter := if chip.fifos then (chip.transmitter ++ [byte]).take uartDepth else [byte] }

/-- Write the queue control register; turning the queues on or off empties them. -/
def setFifos (chip : Uart) (byte : UInt8) : Uart :=
  let enabled := byte &&& 0x01 != 0
  { chip with
    fifos := enabled
    receiver := if byte &&& 0x02 != 0 ∨ enabled ≠ chip.fifos then [] else chip.receiver
    transmitter := if byte &&& 0x04 != 0 ∨ enabled ≠ chip.fifos then [] else chip.transmitter }

/-- Write a register. -/
def writeRegister (chip : Uart) (register : UInt16) (byte : UInt8) : Uart :=
  if register = serialRegData then
    if chip.latch then { chip with divisorLow := byte } else chip.transmit byte
  else if register = serialRegIer then
    if chip.latch then { chip with divisorHigh := byte } else { chip with interruptEnable := byte }
  else if register = serialRegFcr then chip.setFifos byte
  else if register = serialRegLcr then { chip with lineControl := byte }
  else if register = serialRegMcr then { chip with modemControl := byte }
  else chip

/-- `inb` from a register. -/
def inb (line : SerialLine) (chip : Uart) (register : UInt16) : UInt8 × Uart :=
  (chip.tick line).readRegister register (line chip.clock).other

/-- `outb` to a register. -/
def outb (line : SerialLine) (chip : Uart) (register : UInt16) (byte : UInt8) : Uart :=
  (chip.tick line).writeRegister register byte

end Uart

/-! ## Chips of a machine -/

/-- The chips, each with eight ports from its base on; where there is none, reads give ones. -/
abbrev UartBoard := UInt16 → Option Uart

/-- The base of a port and its register. -/
def uartBase (port : UInt16) : UInt16 := port - port % 8

def uartRegister (port : UInt16) : UInt16 := port % 8

/-- The ports of a machine with serial chips, each on its own line. -/
def uartIo (lines : UInt16 → SerialLine) : IoDevice UartBoard where
  inb port := fun board =>
    match board (uartBase port) with
    | none => (0xFF, board)
    | some chip =>
        let (byte, chip') := chip.inb (lines (uartBase port)) (uartRegister port)
        (byte, Function.update board (uartBase port) (some chip'))
  outb port byte := fun board =>
    match board (uartBase port) with
    | none => ((), board)
    | some chip =>
        let chip' := chip.outb (lines (uartBase port)) (uartRegister port) byte
        ((), Function.update board (uartBase port) (some chip'))

end ArkoiOs
