import ArkoiOs.Kbuffer

/-!
# The keyboard driver

`drivers/keyboard.c`, function by function.  The controller is the list of bytes
it holds: its status bit is set while the list is not empty, and reading the data
port takes the first byte.  `pushed` is a record of the events handed to
`cyclic_buffer_push`, which the code does not keep.
-/

namespace ArkoiOs

/-- `KEYBOARD_BUFFER_SIZE`. -/
def keyboardBufferSize : UInt32 := 256

/-- `EXTENDED_SCANCODE_PREFIX`. -/
def extendedScancodePrefix : UInt8 := 0xE0

/-- `RELEASED_SCANCODE_MASK`. -/
def releasedScancodeMask : UInt16 := 0x80

/-! ## Scan codes of the modifier keys -/

def scancodeLeftCtrl : UInt16 := 0x001D

def scancodeLeftShift : UInt16 := 0x002A

def scancodeRightShift : UInt16 := 0x0036

def scancodeLeftAlt : UInt16 := 0x0038

def scancodeCapsLock : UInt16 := 0x003A

def scancodeRightCtrl : UInt16 := 0xE01D

def scancodeRightAlt : UInt16 := 0xE038

/-! ## Events and the state of the driver -/

/-- `g_caps_locked`, `g_shift_held`, `g_ctrl_held` and `g_alt_held`. -/
structure Modifiers where
  capsLocked : Bool
  shiftHeld : Bool
  ctrlHeld : Bool
  altHeld : Bool
  deriving DecidableEq, Repr

/-- `keyboard_event_t`; the last four fields are together. -/
structure KeyboardEvent where
  keycode : UInt8
  scancode : UInt16
  isPressed : Bool
  modifiers : Modifiers
  deriving DecidableEq, Repr

/-- `sizeof(keyboard_event_t)` on i386. -/
def sizeofKeyboardEvent : UInt32 := 16

/-- The bytes of an event: the enumeration is a 32-bit word at offset 4, and the
padding is taken to be zero. -/
def KeyboardEvent.bytes (event : KeyboardEvent) : List UInt8 :=
  [event.keycode, 0, 0, 0,
    event.scancode.toUInt8, (event.scancode >>> 8).toUInt8, 0, 0,
    event.isPressed.toUInt8, event.modifiers.shiftHeld.toUInt8,
    event.modifiers.ctrlHeld.toUInt8, event.modifiers.altHeld.toUInt8,
    event.modifiers.capsLocked.toUInt8, 0, 0, 0]

/-- The variables of the driver, and the bytes in the controller. -/
structure Keyboard where
  port : List UInt8
  buffer : CyclicBuffer
  extendedPending : Bool
  modifiers : Modifiers
  pushed : List KeyboardEvent

/-- Run code of the ring buffer on `&g_keyboard_buffer`. -/
def onBuffer {α : Type} (x : KernelM (Option CyclicBuffer) α) : KernelM Keyboard α :=
  Machine.zoom (fun keyboard => some (some keyboard.buffer))
    (fun keyboard buffer => { keyboard with buffer := buffer.getD keyboard.buffer })
    .nullDereference x

theorem onBuffer_of_ok {α : Type} {x : KernelM (Option CyclicBuffer) α} {keyboard : Keyboard}
    {buffer : CyclicBuffer} {a : α} (run : x (some keyboard.buffer) = .ok a (some buffer)) :
    onBuffer x keyboard = .ok a { keyboard with buffer := buffer } := by
  simp only [onBuffer, Machine.zoom, run, Option.getD_some]

/-- `g_keyboard_events`, zeroed as every static object. -/
def keyboardEvents : ByteObject :=
  .ofBytes (List.replicate (keyboardBufferSize * sizeofKeyboardEvent).toNat 0)

/-- The driver before `keyboard_init`: every static variable is zero. -/
def Keyboard.boot : Keyboard where
  port := []
  buffer := ⟨fun _ => none, 0, 0, 0, 0⟩
  extendedPending := false
  modifiers := ⟨false, false, false, false⟩
  pushed := []

/-- `keyboard_init`, less the installation of the handler. -/
def keyboardInit : KernelM Keyboard Unit := do
  let _ ← onBuffer (cyclicBufferInit (some keyboardEvents) keyboardBufferSize sizeofKeyboardEvent)
  pure ()

/-! ## The interrupt handler -/

/-- `extended_scancode`: the key code with the prefix byte of an extended key. -/
def extendedScancode (keycode : UInt8) (extended : Bool) : UInt16 :=
  (if extended then extendedScancodePrefix.toUInt16 else 0) <<< 8 ||| keycode.toUInt16

/-- The branches of `handle_scancode` that change a variable. -/
def Modifiers.note (modifiers : Modifiers) (scancode : UInt16) (isReleased : Bool) : Modifiers :=
  if scancode = scancodeLeftShift ∨ scancode = scancodeRightShift then
    { modifiers with shiftHeld := !isReleased }
  else if scancode = scancodeLeftCtrl ∨ scancode = scancodeRightCtrl then
    { modifiers with ctrlHeld := !isReleased }
  else if scancode = scancodeLeftAlt ∨ scancode = scancodeRightAlt then
    { modifiers with altHeld := !isReleased }
  else if scancode = scancodeCapsLock ∧ !isReleased then
    { modifiers with capsLocked := !modifiers.capsLocked }
  else modifiers

/-- `handle_scancode`. -/
def handleScancode (rawScancode : UInt16) (extended : Bool) : KernelM Keyboard Unit := do
  let isReleased : Bool := (rawScancode &&& releasedScancodeMask) != 0
  let keycode : UInt8 := (rawScancode &&& ~~~releasedScancodeMask).toUInt8
  let scancode := extendedScancode keycode extended
  modify fun keyboard =>
    { keyboard with modifiers := keyboard.modifiers.note scancode isReleased }
  let keyboard ← get
  let event : KeyboardEvent := ⟨keycode, scancode, !isReleased, keyboard.modifiers⟩
  let _ ← onBuffer (cyclicBufferPush (some (.ofBytes event.bytes)))
  modify fun keyboard => { keyboard with pushed := keyboard.pushed ++ [event] }

/-- The loop of `keyboard_handler` over the bytes in the controller.  It returns
right after a prefix byte, even when more bytes are there. -/
def handlePort : List UInt8 → KernelM Keyboard Unit
  | [] => pure ()
  | scancode :: port => do
      modify fun keyboard => { keyboard with port := port }
      if scancode = extendedScancodePrefix then
        modify fun keyboard => { keyboard with extendedPending := true }
      else do
        let keyboard ← get
        let extended := keyboard.extendedPending
        modify fun keyboard => { keyboard with extendedPending := false }
        handleScancode scancode.toUInt16 extended
        handlePort port

/-- `keyboard_handler`. -/
def keyboardHandler : KernelM Keyboard Unit := do
  let keyboard ← get
  handlePort keyboard.port

/-! ## Reading events -/

/-- `keyboard_has_event`. -/
def keyboardHasEvent : KernelM Keyboard Bool := do
  let keyboard ← get
  pure (!cyclicBufferIsEmpty (some keyboard.buffer))

/-- `keyboard_get_event`; it also returns what `event` points to afterwards. -/
def keyboardGetEvent (event : ByteObject) : KernelM Keyboard (Bool × ByteObject) := do
  let hasEvent ← keyboardHasEvent
  if !hasEvent then pure (false, event)
  else do
    let (_, popped) ← onBuffer (cyclicBufferPop (some event))
    pure (true, popped.getD event)

end ArkoiOs
