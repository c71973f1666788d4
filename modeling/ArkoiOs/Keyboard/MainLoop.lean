import ArkoiOs.Keyboard.Ascii
import ArkoiOs.Vga.Model

/-!
# The loop of the kernel

The loop at the end of `kernel_main` takes events out of the ring buffer and
writes the characters of pressed keys to the screen, while interrupts put events
in.  An interrupt may come between any two statements of the loop and of the
functions it calls, and between any two bytes of the copy in `cyclic_buffer_pop`.
-/

namespace ArkoiOs

/-! ## The loop -/

/-- The next statement of the loop: the test for an event, the tests in
`keyboard_get_event` and in `cyclic_buffer_pop`, one byte of its copy, the move of
`tail`, the test for a pressed key, the conversion, and the output. -/
inductive MainPlace
  | hasEvent
  | getEvent
  | pop
  | copy (source done : ℕ)
  | advance
  | pressed
  | convert
  | write (ascii : UInt8)
  deriving DecidableEq, Repr

/-- The drivers, the local variable `event`, and a record of the characters
written, which the code does not keep. -/
structure Console where
  keyboard : Keyboard
  vga : Vga
  event : ByteObject
  place : MainPlace
  written : List UInt8

/-- Run code of the keyboard driver. -/
def onKeyboard {α : Type} (x : KernelM Keyboard α) : KernelM Console α :=
  Machine.zoom (fun console => some console.keyboard)
    (fun console keyboard => { console with keyboard := keyboard }) .nullDereference x

/-- Run code of the screen driver. -/
def onVga {α : Type} (x : KernelM Vga α) : KernelM Console α :=
  Machine.zoom (fun console => some console.vga)
    (fun console vga => { console with vga := vga }) .nullDereference x

/-- Go on with another statement. -/
def goTo (place : MainPlace) : KernelM Console Unit :=
  modify fun console => { console with place := place }

/-- `*dest = *src` in the copy of an event. -/
def copyEventByte (source done : ℕ) : KernelM Console Unit := do
  let console ← get
  let byte ← console.keyboard.buffer.buffer.byteAt (source + done)
  if (console.event done).isSome then
    modify fun console => { console with event := console.event.overwrite done [byte] }
  else throw .outOfBounds

/-- `vga_set_color` and `vga_write_char` in the loop. -/
def writeGreen (ascii : UInt8) : KernelM Vga Unit := do
  vgaSetColor .lightGreen .black
  vgaWriteChar ascii

/-- One statement of the loop. -/
def mainStatement : KernelM Console Unit := do
  let console ← get
  match console.place with
  | .hasEvent => do
      let hasEvent ← onKeyboard keyboardHasEvent
      goTo (if hasEvent then .getEvent else .hasEvent)
  | .getEvent => do
      -- the result of `keyboard_get_event` is not looked at
      let hasEvent ← onKeyboard keyboardHasEvent
      goTo (if hasEvent then .pop else .pressed)
  | .pop =>
      let buffer := console.keyboard.buffer
      if cyclicBufferIsEmpty (some buffer) then goTo .pressed
      else goTo (.copy (buffer.tail * buffer.elementSize).toNat 0)
  | .copy source done =>
      if done < console.keyboard.buffer.elementSize.toNat then do
        copyEventByte source done
        goTo (.copy source (done + 1))
      else goTo .advance
  | .advance => do
      onKeyboard (modify fun keyboard => { keyboard with buffer := keyboard.buffer.advanceTail })
      goTo .pressed
  | .pressed => do
      let isPressed ← console.event.boolAt 8
      goTo (if isPressed then .convert else .hasEvent)
  | .convert => do
      -- `ascii` has no value before the call
      let (result, ascii) ← keyboardScancodeToAscii console.event 0
      goTo (if result then .write ascii else .hasEvent)
  | .write ascii => do
      onVga (writeGreen ascii)
      modify fun console =>
        { console with place := .hasEvent, written := console.written ++ [ascii] }

/-- The body of the loop behind `keyboard_get_event`, as long as no interrupt comes. -/
def typeEvent (event : ByteObject) : KernelM Console Unit := do
  let isPressed ← event.boolAt 8
  if !isPressed then pure ()
  else do
    let (result, ascii) ← keyboardScancodeToAscii event 0
    if !result then pure ()
    else do
      onVga (writeGreen ascii)
      modify fun console => { console with written := console.written ++ [ascii] }

/-- The body of the loop, as long as no interrupt comes. -/
def mainTurn : KernelM Console Unit := do
  let hasEvent ← onKeyboard keyboardHasEvent
  if !hasEvent then pure ()
  else do
    let console ← get
    let (_, event) ← onKeyboard (keyboardGetEvent console.event)
    modify fun console => { console with event := event }
    typeEvent event

/-- The loop goes on by a statement, or an interrupt comes with bytes that have
arrived at the controller. -/
inductive ConsoleAction
  | statement
  | interrupt (bytes : List UInt8)

namespace ConsoleAction

/-- Do the action. -/
def perform : ConsoleAction → KernelM Console Unit
  | statement => mainStatement
  | interrupt bytes => onKeyboard do
      modify fun keyboard => { keyboard with port := keyboard.port ++ bytes }
      keyboardHandler

/-- The bytes that arrive. -/
def bytes : ConsoleAction → List UInt8
  | statement => []
  | interrupt bytes => bytes

end ConsoleAction

/-- Where the loop starts, after `keyboard_init`. -/
def Console.start (keyboard : Keyboard) (vga : Vga) (event : ByteObject) : Console :=
  ⟨keyboard, vga, event, .hasEvent, []⟩

/-- The ring buffer has room for the events of the bytes an interrupt reads. -/
def Console.RoomFor (console : Console) (bytes : List UInt8) : Prop :=
  console.keyboard.buffer.contents.length + (strokes console.keyboard.extendedPending
    (portRead (console.keyboard.port ++ bytes))).length ≤ Keyboard.bound

/-- Every interrupt of a run finds room for its events. -/
def InterruptsFindRoom : List ConsoleAction → Console → Prop
  | [], _ => True
  | .statement :: actions, console =>
      ∀ console', mainStatement console = .ok () console' → InterruptsFindRoom actions console'
  | .interrupt bytes :: actions, console =>
      console.RoomFor bytes ∧ ∀ console', (ConsoleAction.interrupt bytes).perform console =
        .ok () console' → InterruptsFindRoom actions console'

/-! ## What was typed -/

/-- What events type. -/
def textOf (events : List KeyboardEvent) : List UInt8 := events.flatMap KeyboardEvent.text

/-- What the bytes of a keyboard type. -/
def typedText (bytes : List UInt8) : List UInt8 :=
  textOf (driverEvents ⟨false, false, false, false⟩ (strokes false bytes))

end ArkoiOs
