import ArkoiOs.Kstring
import ArkoiOs.Library.Retry
import ArkoiOs.Serial.Model

/-!
# Characters and strings over a serial port

The rest of `drivers/serial.c`, and `SERIAL_PRINT` of `drivers/serial.h`.  A character is
read and written by polling the chip, which may take any number of polls.
-/

namespace ArkoiOs

/-- The driver, and the memory of the strings. -/
structure SerialMachine (ι σ : Type) where
  driver : Serial σ
  memory : ByteMemory ι

section Machine

variable {ι σ α : Type}

/-- Use the driver. -/
def SerialMachine.onDriver (x : KernelM (Serial σ) α) : KernelM (SerialMachine ι σ) α :=
  Machine.zoom (fun s => some s.driver) (fun s driver => { s with driver := driver })
    .nullDereference x

/-- Use the memory. -/
def SerialMachine.onText (x : KernelM (ByteMemory ι) α) : KernelM (SerialMachine ι σ) α :=
  Machine.zoom (fun s => some s.memory) (fun s memory => { s with memory := memory })
    .nullDereference x

/-- `serial_port->port`. -/
def recordPort (config : UInt32) : KernelM (SerialMachine ι σ) UInt16 := do
  let s ← get
  pure (s.driver.records config).port

end Machine

open SerialMachine Retry

section Strings

variable {ι σ : Type} [DecidableEq ι] (io : IoDevice σ) (fuel : ℕ)

/-- `try_read_char`, with the character behind a pointer. -/
def tryReadCharInto (port : UInt16) (character : Pointer ι) :
    KernelM (SerialMachine ι σ) Bool := do
  match ← onDriver (onDevice (tryReadChar io port)) with
  | some byte =>
      onText (storeByte character byte)
      pure true
  | none => pure false

/-- `read_char`, for as many polls as there is fuel. -/
def readChar (port : UInt16) (character : Pointer ι) : KernelM (SerialMachine ι σ) Bool := do
  retry .hang (tryReadCharInto io port character) fuel
  pure true

/-- `write_char`, for as many polls as there is fuel. -/
def writeChar (port : UInt16) (character : UInt8) : KernelM (SerialMachine ι σ) Bool := do
  retry .hang (onDriver (onDevice (tryWriteChar io port character))) fuel
  pure true

/-- `serial_read_char`; a null pointer is `none`. -/
def serialReadChar (serialPort : Option UInt32) (character : Option (Pointer ι)) :
    KernelM (SerialMachine ι σ) Bool :=
  match serialPort, character with
  | some config, some character => do
      let port ← recordPort config
      readChar io fuel port character
  | _, _ => pure false

/-- `'\n'`. -/
def newlineChar : UInt8 := 0x0A

/-- The loop of `serial_read_string`. -/
def serialReadStringLoop (config : UInt32) (buffer : Pointer ι) (bufferSize : UInt32) :
    ℕ → UInt32 → KernelM (SerialMachine ι σ) Bool
  | 0, _ => throw .hang
  | rounds + 1, index => do
      if index < bufferSize - 1 then
        let port ← recordPort config
        if ← readChar io fuel port (buffer.advance index.toNat) then
          let byte ← onText (loadByte (buffer.advance index.toNat))
          if byte = newlineChar then
            onText (storeByte (buffer.advance (index + 1).toNat) 0)
            pure true
          else serialReadStringLoop config buffer bufferSize rounds (index + 1)
        else pure false
      else
        onText (storeByte (buffer.advance (bufferSize - 1).toNat) 0)
        pure true

/-- `serial_read_string`. -/
def serialReadString (serialPort : Option UInt32) (buffer : Option (Pointer ι))
    (bufferSize : UInt32) : KernelM (SerialMachine ι σ) Bool :=
  match serialPort, buffer with
  | some config, some buffer =>
      if bufferSize = 0 then pure false
      else serialReadStringLoop io fuel config buffer bufferSize fuel 0
  | _, _ => pure false

/-- `serial_write_char`. -/
def serialWriteChar (serialPort : Option UInt32) (character : UInt8) :
    KernelM (SerialMachine ι σ) Bool :=
  match serialPort with
  | none => pure false
  | some config => do
      let port ← recordPort config
      writeChar io fuel port character

/-- The loop of `serial_write_string`. -/
def serialWriteStringLoop (config : UInt32) (text : Pointer ι) (length : UInt32) :
    ℕ → UInt32 → KernelM (SerialMachine ι σ) Bool
  | 0, _ => throw .hang
  | rounds + 1, index => do
      if index < length then
        let port ← recordPort config
        let byte ← onText (loadByte (text.advance index.toNat))
        if ← writeChar io fuel port byte then
          serialWriteStringLoop config text length rounds (index + 1)
        else pure false
      else pure true

/-- `serial_write_string`. -/
def serialWriteString (serialPort : Option UInt32) (text : Option (Pointer ι)) :
    KernelM (SerialMachine ι σ) Bool :=
  match serialPort, text with
  | some config, some text => do
      let length ← onText (kstrlen fuel text)
      if length = 0 then pure true
      else serialWriteStringLoop io fuel config text length fuel 0
  | _, _ => pure false

/-- `SERIAL_PRINT`, with the text of the assertion that `KASSERT` puts into its message. -/
def serialPrint (port : UInt16) (text : Pointer ι) (expression : String) :
    KernelM (SerialMachine ι σ) Unit := do
  let serialPort ← onDriver (serialGetPort port)
  if ← serialWriteString io fuel serialPort (some text) then pure ()
  else kpanic ("Assertion failed: " ++ expression) []

end Strings

def serialPortCom1 : UInt16 := 0x3F8
def serialPortCom2 : UInt16 := 0x2F8

/-- `serial_init`. -/
def serialInit {σ : Type} (io : IoDevice σ) : KernelM (Serial σ) Unit := do
  let _ ← serialInitPort io serialPortCom1 115200 .eight .none .one
  let _ ← serialInitPort io serialPortCom2 115200 .eight .none .one
  pure ()

end ArkoiOs
