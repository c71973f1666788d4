import Mathlib.Logic.Function.Basic
import ArkoiOs.Kpanic

/-!
# The text screen

`drivers/vga.c`, function by function.  The frame buffer is read and written
cell by cell, and an index outside it is a fault.  `ports` is the record of the
bytes written to the ports of the controller, which the code does not keep.
-/

namespace ArkoiOs

/-- `VGA_WIDTH`. -/
abbrev vgaWidth : ℕ := 80

/-- `VGA_HEIGHT`. -/
abbrev vgaHeight : ℕ := 25

/-- `VGA_CRTC_INDEX_PORT`. -/
def vgaCrtcIndexPort : UInt16 := 0x3D4

/-- `VGA_CRTC_DATA_PORT`. -/
def vgaCrtcDataPort : UInt16 := 0x3D5

/-- `VGA_CRTC_CURSOR_LOW`. -/
def vgaCrtcCursorLow : UInt8 := 0x0F

/-- `VGA_CRTC_CURSOR_HIGH`. -/
def vgaCrtcCursorHigh : UInt8 := 0x0E

/-- `vga_color_t`. -/
inductive VgaColor
  | black | blue | green | cyan | red | magenta | brown | lightGrey
  | darkGrey | lightBlue | lightGreen | lightCyan | lightRed | lightMagenta | lightBrown | white
  deriving DecidableEq, Repr

/-- The value of the enumeration constant. -/
def VgaColor.value : VgaColor → UInt32
  | black => 0
  | blue => 1
  | green => 2
  | cyan => 3
  | red => 4
  | magenta => 5
  | brown => 6
  | lightGrey => 7
  | darkGrey => 8
  | lightBlue => 9
  | lightGreen => 10
  | lightCyan => 11
  | lightRed => 12
  | lightMagenta => 13
  | lightBrown => 14
  | white => 15

/-- The frame buffer behind `g_vga_memory`, the variables of the driver, and what
was written to ports. -/
structure Vga where
  memory : ℕ → UInt16
  row : UInt32
  column : UInt32
  currentColor : UInt8
  ports : List (UInt16 × UInt8)

/-- Read a cell of the frame buffer. -/
def readCell (index : UInt16) : KernelM Vga UInt16 := do
  let vga ← get
  if index.toNat < vgaWidth * vgaHeight then pure (vga.memory index.toNat)
  else throw .outOfBounds

/-- Write a cell of the frame buffer. -/
def writeCell (index entry : UInt16) : KernelM Vga Unit := do
  if index.toNat < vgaWidth * vgaHeight then
    modify fun vga => { vga with memory := Function.update vga.memory index.toNat entry }
  else throw .outOfBounds

/-- `outb`. -/
def outb (port : UInt16) (data : UInt8) : KernelM Vga Unit :=
  modify fun vga => { vga with ports := vga.ports ++ [(port, data)] }

/-- `for (uint16_t i = start; i < bound; i++)`. -/
def forWords (start : UInt16) (bound : ℕ) (body : UInt16 → KernelM Vga Unit) : KernelM Vga Unit :=
  Machine.forLoop .hang (fun i => i.toNat < bound) (· + 1) body (bound + 1) start

/-- `vga_entry`; a `char` is signed, so the conversion extends its sign. -/
def vgaEntry (character color : UInt8) : UInt16 :=
  character.toInt8.toInt16.toUInt16 ||| color.toUInt16 <<< 8

/-- `vga_set_cursor`. -/
def vgaSetCursor (row column : UInt16) : KernelM Vga Unit := do
  if row.toNat ≥ vgaHeight ∨ column.toNat ≥ vgaWidth then pure ()
  else do
    modify fun vga => { vga with column := column.toUInt32, row := row.toUInt32 }
    let vga ← get
    let position : UInt16 := (vga.row * vgaWidth.toUInt32 + vga.column).toUInt16
    outb vgaCrtcIndexPort vgaCrtcCursorLow
    outb vgaCrtcDataPort (position &&& 0xFF).toUInt8
    outb vgaCrtcIndexPort vgaCrtcCursorHigh
    outb vgaCrtcDataPort ((position >>> 8) &&& 0xFF).toUInt8

/-- `vga_scroll`. -/
def vgaScroll : KernelM Vga Unit := do
  forWords 1 vgaHeight fun y =>
    forWords 0 vgaWidth fun x => do
      let originalIndex : UInt16 := (y.toNat * vgaWidth + x.toNat).toUInt16
      let newIndex : UInt16 := ((y.toNat - 1) * vgaWidth + x.toNat).toUInt16
      let entry ← readCell originalIndex
      writeCell newIndex entry
  forWords 0 vgaWidth fun x => do
    let lastRowIndex : UInt16 := ((vgaHeight - 1) * vgaWidth + x.toNat).toUInt16
    let vga ← get
    writeCell lastRowIndex (vgaEntry 0x20 vga.currentColor)
  let vga ← get
  vgaSetCursor (vgaHeight - 1).toUInt16 vga.column.toUInt16

/-- `vga_clear`. -/
def vgaClear : KernelM Vga Unit := do
  forWords 0 (vgaWidth * vgaHeight) fun index => do
    let vga ← get
    writeCell index (vgaEntry 0x20 vga.currentColor)
  vgaSetCursor 0 0

/-- `vga_set_color`. -/
def vgaSetColor (foreground background : VgaColor) : KernelM Vga Unit :=
  modify fun vga =>
    { vga with currentColor := (foreground.value ||| background.value <<< 4).toUInt8 }

/-- `vga_init`. -/
def vgaInit : KernelM Vga Unit := do
  vgaSetColor .lightGrey .black
  vgaClear

/-- `++g_row`, and the scroll it may ask for. -/
def nextRow : KernelM Vga Unit := do
  modify fun vga => { vga with row := vga.row + 1 }
  let vga ← get
  if vga.row.toNat ≥ vgaHeight then vgaScroll

/-- `vga_write_char`. -/
def vgaWriteChar (character : UInt8) : KernelM Vga Unit := do
  if character = 0x0A then
    modify fun vga => { vga with column := 0 }
    nextRow
  else do
    let vga ← get
    let position : UInt16 := (vga.row * vgaWidth.toUInt32 + vga.column).toUInt16
    writeCell position (vgaEntry character vga.currentColor)
    modify fun vga => { vga with column := vga.column + 1 }
    let vga ← get
    if vga.column.toNat ≥ vgaWidth then
      modify fun vga => { vga with column := 0 }
      nextRow
    let vga ← get
    vgaSetCursor vga.row.toUInt16 vga.column.toUInt16

/-- `vga_write_string`, on the bytes at `data`; they run out only behind a
terminator that is missing. -/
def vgaWriteString : List UInt8 → KernelM Vga Unit
  | [] => throw .outOfBounds
  | character :: data =>
      if character = 0 then pure ()
      else do
        vgaWriteChar character
        vgaWriteString data

end ArkoiOs
