import ArkoiOs.Kcursor
import ArkoiOs.Kstring

/-!
# Formatted output

`lib/kstdio.c` up to `kvsnprintf`, function by function.  Arguments are words of 32
bits or strings; fetching an argument that is missing or of the other kind is out
of bounds.
-/

namespace ArkoiOs

/-- An argument of a `va_list`: a word, or a `char*` that may be null. -/
inductive VaArg (ι : Type)
  | word (value : UInt32)
  | string (value : Option (Pointer ι))
  deriving DecidableEq, Repr

section Model

variable {ι : Type}

/-- `va_arg` for an argument of 32 bits. -/
def vaWord : List (VaArg ι) → KernelM (CursorState ι) (UInt32 × List (VaArg ι))
  | .word value :: args => pure (value, args)
  | _ => throw .outOfBounds

/-- `va_arg` for a string. -/
def vaString : List (VaArg ι) → KernelM (CursorState ι) (Option (Pointer ι) × List (VaArg ι))
  | .string value :: args => pure (value, args)
  | _ => throw .outOfBounds

/-- The guard of the writers: nothing is written through a null pointer. -/
def withCursor (x : KernelM (CursorState ι) Bool) : KernelM (CursorState ι) Bool := do
  let state ← get
  if state.cursor.isNone then pure false else x

/-! ## Numbers -/

/-- `HEX_DIGITS_UPPER`. -/
def hexDigitsUpper : List Char :=
  ['0', '1', '2', '3', '4', '5', '6', '7', '8', '9', 'A', 'B', 'C', 'D', 'E', 'F']

/-- `HEX_DIGITS_LOWER`. -/
def hexDigitsLower : List Char :=
  ['0', '1', '2', '3', '4', '5', '6', '7', '8', '9', 'a', 'b', 'c', 'd', 'e', 'f']

/-- Rounds that loops over the digits of a word do not reach. -/
def digitRounds : ℕ := 32

/-- The first loop of `write_u32_dec`. -/
def divisorLoop : ℕ → UInt32 → UInt32 → KernelM (CursorState ι) UInt32
  | 0, _, _ => throw .hang
  | fuel + 1, temp, divisor =>
      if temp ≥ 10 then divisorLoop fuel (temp / 10) (divisor * 10) else pure divisor

/-- The loop of `hex_digit_count`. -/
def hexDigitCountLoop : ℕ → UInt32 → UInt32 → KernelM (CursorState ι) UInt32
  | 0, _, _ => throw .hang
  | fuel + 1, count, value =>
      if value >>> 4 ≠ 0 then hexDigitCountLoop fuel (count + 1) (value >>> 4)
      else pure (count + 1)

/-- `hex_digit_count`. -/
def hexDigitCount (value : UInt32) : KernelM (CursorState ι) UInt32 :=
  hexDigitCountLoop digitRounds 0 value

variable [DecidableEq ι]

/-- The second loop of `write_u32_dec`. -/
def decLoop : ℕ → UInt32 → UInt32 → KernelM (CursorState ι) Bool
  | 0, _, _ => throw .hang
  | fuel + 1, value, divisor =>
      if divisor ≠ 0 then do
        let digit := value / divisor
        let digitChar := ('0'.toNat.toUInt32 + digit).toUInt8
        if !(← kcursorWriteByte digitChar) then pure false
        else decLoop fuel (value % divisor) (divisor / 10)
      else pure true

/-- `write_u32_dec`. -/
def writeU32Dec (value : UInt32) : KernelM (CursorState ι) Bool :=
  withCursor do
    let divisor ← divisorLoop digitRounds value 1
    decLoop digitRounds value divisor

/-- `write_i32_dec`. -/
def writeI32Dec (value : Int32) : KernelM (CursorState ι) Bool :=
  withCursor do
    if value < 0 then
      if !(← kcursorWriteByte '-'.toUInt8) then pure false
      else writeU32Dec (0 - value.toUInt32)
    else writeU32Dec value.toUInt32

/-- The loop of `write_hex_nibbles`, with `shift` at four times one less than the
nibbles left. -/
def hexLoop (value : UInt32) (hexDigits : List Char) : ℕ → KernelM (CursorState ι) Bool
  | 0 => pure true
  | left + 1 => do
      let shift := left * 4
      let digit := (value >>> shift.toUInt32) &&& 0xF
      if !(← kcursorWriteByte (hexDigits[digit.toNat]?.getD '0').toUInt8) then pure false
      else hexLoop value hexDigits left

/-- `write_hex_nibbles`. -/
def writeHexNibbles (value : UInt32) (nibbles : UInt8) (uppercase alternateForm : Bool) :
    KernelM (CursorState ι) Bool :=
  withCursor do
    let digits := hexLoop value (if uppercase then hexDigitsUpper else hexDigitsLower) nibbles.toNat
    if alternateForm then
      if !(← kcursorWriteByte '0'.toUInt8) then pure false
      else if !(← kcursorWriteByte (if uppercase then 'X' else 'x').toUInt8) then pure false
      else digits
    else digits

/-- `write_u32_hex`. -/
def writeU32Hex (value : UInt32) (uppercase alternateForm : Bool) :
    KernelM (CursorState ι) Bool := do
  let count ← hexDigitCount value
  writeHexNibbles value count.toUInt8 uppercase alternateForm

/-- `write_pointer`. -/
def writePointer (value : UInt32) : KernelM (CursorState ι) Bool :=
  writeHexNibbles value 8 false true

/-! ## The format -/

section Format

variable (fuel : ℕ) (nullText format : Pointer ι)

/-- The branches for a specifier character; `nullText` is the literal for a null
string.  It returns the arguments left, or nothing where the loop breaks. -/
def writeSpecifier (current : UInt8) (alternateForm : Bool) (args : List (VaArg ι)) :
    KernelM (CursorState ι) (Option (List (VaArg ι))) := do
  if current = 'd'.toUInt8 ∨ current = 'i'.toUInt8 then
    let (value, args) ← vaWord args
    if !(← writeI32Dec value.toInt32) then pure none else pure (some args)
  else if current = 'u'.toUInt8 then
    let (value, args) ← vaWord args
    if !(← writeU32Dec value) then pure none else pure (some args)
  else if current = 'x'.toUInt8 ∨ current = 'X'.toUInt8 then
    let (value, args) ← vaWord args
    if !(← writeU32Hex value (current = 'X'.toUInt8) alternateForm) then pure none
    else pure (some args)
  else if current = 'p'.toUInt8 then
    let (value, args) ← vaWord args
    if !(← writePointer value) then pure none else pure (some args)
  else if current = 's'.toUInt8 then
    let (value, args) ← vaString args
    let value := value.getD nullText
    let length ← onBytes (kstrlen fuel value)
    if !(← kcursorWrite (some value) length) then pure none else pure (some args)
  else if current = 'c'.toUInt8 then
    let (value, args) ← vaWord args
    if !(← kcursorWriteByte value.toUInt8) then pure none else pure (some args)
  else if current = '%'.toUInt8 then
    if !(← kcursorWriteByte '%'.toUInt8) then pure none else pure (some args)
  else
    if !(← kcursorWriteByte '%'.toUInt8) then pure none
    else if !(← kcursorWriteByte current) then pure none
    else pure (some args)

/-- `format[index]`. -/
def formatAt (index : UInt32) : KernelM (CursorState ι) UInt8 :=
  onBytes (loadByte (format.advance index.toNat))

/-- One round of the loop of `kvsnprintf`; it returns the index and the arguments for
`index++`, or nothing where the loop breaks. -/
def formatRound (index : UInt32) (args : List (VaArg ι)) :
    KernelM (CursorState ι) (Option (UInt32 × List (VaArg ι))) := do
  let current ← formatAt format index
  if current ≠ '%'.toUInt8 then
    if !(← kcursorWriteByte current) then pure none else pure (some (index, args))
  else
    let index := index + 1
    let current ← formatAt format index
    if current = 0 then pure none
    else if current = '#'.toUInt8 then
      let index := index + 1
      let current ← formatAt format index
      if current = 0 then pure none
      else
        let args ← writeSpecifier fuel nullText current true args
        pure (args.map fun args => (index, args))
    else
      let args ← writeSpecifier fuel nullText current false args
      pure (args.map fun args => (index, args))

/-- The loop of `kvsnprintf`. -/
def formatLoop (formatLength : UInt32) :
    ℕ → UInt32 → List (VaArg ι) → KernelM (CursorState ι) Unit
  | 0, _, _ => throw .hang
  | rounds + 1, index, args =>
      if index < formatLength then do
        match ← formatRound fuel nullText format index args with
        | none => pure ()
        | some (index, args) => formatLoop formatLength rounds (index + 1) args
      else pure ()

end Format

/-- Run code with a local cursor, which starts with any value. -/
def withLocalCursor {α : Type} (cursor : Kcursor ι) (x : KernelM (CursorState ι) α) :
    KernelM (ByteMemory ι) α := fun memory =>
  match x ⟨memory, some cursor⟩ with
  | .ok a state => .ok a state.memory
  | .error e state => .error e state.memory

/-- `kvsnprintf`; `uninitialized` is what its cursor holds before `kcursor_init`. -/
def kvsnprintf (fuel : ℕ) (nullText : Pointer ι) (uninitialized : Kcursor ι)
    (buffer : Option (Pointer ι)) (size : UInt32) (format : Option (Pointer ι))
    (args : List (VaArg ι)) : KernelM (ByteMemory ι) UInt32 :=
  match buffer, format with
  | some buffer, some format =>
      if size = 0 then pure 0
      else withLocalCursor uninitialized do
        if !(← kcursorInit (some buffer) (size - 1)) then pure 0
        else
          let formatLength ← onBytes (kstrlen fuel format)
          formatLoop fuel nullText format formatLength fuel 0 args
          let state ← get
          let written := kcursorWritten state.cursor
          onBytes (storeByte (buffer.advance written.toNat) 0)
          pure (written + 1)
  | _, _ => pure 0

end Model

end ArkoiOs
