import ArkoiOs.Keyboard.Handler
import ArkoiOs.Library.LittleEndian

/-!
# The characters of key events

`keyboard_scancode_to_ascii` of `drivers/keyboard.c` and the tables of its
header.  It is given an event as the bytes that the ring buffer handed out, and
reads the fields it needs; on the bytes of an event it finds the event's
character.
-/

namespace ArkoiOs

/-! ## The tables -/

/-- The constants of `keyboard_scancode_t` that the tables name. -/
inductive KeyboardScancode
  | esc | one | two | three | four | five | six | seven | eight | nine | zero
  | minus | equal | backspace | tab
  | q | w | e | r | t | y | u | i | o | p | lbracket | rbracket | enter
  | a | s | d | f | g | h | j | k | l | semicolon | apostrophe | grave
  | backslash | z | x | c | v | b | n | m | comma | dot | slash | space
  | kp7 | kp8 | kp9 | kp4 | kp5 | kp6 | kp1 | kp2 | kp3 | kp0 | kpDot
  deriving DecidableEq, Repr

/-- The value of the enumeration constant. -/
def KeyboardScancode.value : KeyboardScancode → UInt16
  | esc => 0x0001
  | one => 0x0002
  | two => 0x0003
  | three => 0x0004
  | four => 0x0005
  | five => 0x0006
  | six => 0x0007
  | seven => 0x0008
  | eight => 0x0009
  | nine => 0x000A
  | zero => 0x000B
  | minus => 0x000C
  | equal => 0x000D
  | backspace => 0x000E
  | tab => 0x000F
  | q => 0x0010
  | w => 0x0011
  | e => 0x0012
  | r => 0x0013
  | t => 0x0014
  | y => 0x0015
  | u => 0x0016
  | i => 0x0017
  | o => 0x0018
  | p => 0x0019
  | lbracket => 0x001A
  | rbracket => 0x001B
  | enter => 0x001C
  | a => 0x001E
  | s => 0x001F
  | d => 0x0020
  | f => 0x0021
  | g => 0x0022
  | h => 0x0023
  | j => 0x0024
  | k => 0x0025
  | l => 0x0026
  | semicolon => 0x0027
  | apostrophe => 0x0028
  | grave => 0x0029
  | backslash => 0x002B
  | z => 0x002C
  | x => 0x002D
  | c => 0x002E
  | v => 0x002F
  | b => 0x0030
  | n => 0x0031
  | m => 0x0032
  | comma => 0x0033
  | dot => 0x0034
  | slash => 0x0035
  | space => 0x0039
  | kp7 => 0x0047
  | kp8 => 0x0048
  | kp9 => 0x0049
  | kp4 => 0x004B
  | kp5 => 0x004C
  | kp6 => 0x004D
  | kp1 => 0x004F
  | kp2 => 0x0050
  | kp3 => 0x0051
  | kp0 => 0x0052
  | kpDot => 0x0053

/-- The initializer of `SCANCODE_TO_ASCII`; the apostrophe, the grave accent and
the backslash are given by their codes. -/
def scancodeToAscii : List (KeyboardScancode × Char) :=
  [(.esc, Char.ofNat 27),
    (.one, '1'), (.two, '2'), (.three, '3'), (.four, '4'), (.five, '5'), (.six, '6'),
    (.seven, '7'), (.eight, '8'), (.nine, '9'), (.zero, '0'),
    (.minus, '-'), (.equal, '='), (.backspace, Char.ofNat 8), (.tab, Char.ofNat 9),
    (.q, 'q'), (.w, 'w'), (.e, 'e'), (.r, 'r'), (.t, 't'), (.y, 'y'), (.u, 'u'), (.i, 'i'),
    (.o, 'o'), (.p, 'p'), (.lbracket, '['), (.rbracket, ']'), (.enter, Char.ofNat 10),
    (.a, 'a'), (.s, 's'), (.d, 'd'), (.f, 'f'), (.g, 'g'), (.h, 'h'), (.j, 'j'), (.k, 'k'),
    (.l, 'l'), (.semicolon, ';'), (.apostrophe, Char.ofNat 39), (.grave, Char.ofNat 96),
    (.backslash, Char.ofNat 92),
    (.z, 'z'), (.x, 'x'), (.c, 'c'), (.v, 'v'), (.b, 'b'), (.n, 'n'), (.m, 'm'),
    (.comma, ','), (.dot, '.'), (.slash, '/'), (.space, ' '),
    (.kp0, '0'), (.kp1, '1'), (.kp2, '2'), (.kp3, '3'), (.kp4, '4'), (.kp5, '5'), (.kp6, '6'),
    (.kp7, '7'), (.kp8, '8'), (.kp9, '9'), (.kpDot, '.')]

/-- The initializer of `SCANCODE_TO_ASCII_SHIFT`; the braces and the quotation
mark are given by their codes. -/
def scancodeToAsciiShift : List (KeyboardScancode × Char) :=
  [(.one, '!'), (.two, '@'), (.three, '#'), (.four, '$'), (.five, '%'), (.six, '^'),
    (.seven, '&'), (.eight, '*'), (.nine, '('), (.zero, ')'), (.minus, '_'), (.equal, '+'),
    (.q, 'Q'), (.w, 'W'), (.e, 'E'), (.r, 'R'), (.t, 'T'), (.y, 'Y'), (.u, 'U'), (.i, 'I'),
    (.o, 'O'), (.p, 'P'), (.lbracket, Char.ofNat 123), (.rbracket, Char.ofNat 125),
    (.a, 'A'), (.s, 'S'), (.d, 'D'), (.f, 'F'), (.g, 'G'), (.h, 'H'), (.j, 'J'), (.k, 'K'),
    (.l, 'L'), (.semicolon, ':'), (.apostrophe, Char.ofNat 34), (.grave, '~'),
    (.backslash, '|'),
    (.z, 'Z'), (.x, 'X'), (.c, 'C'), (.v, 'V'), (.b, 'B'), (.n, 'N'), (.m, 'M'),
    (.comma, '<'), (.dot, '>'), (.slash, '?')]

/-- An element of an array with designated initializers; the other ones are zero. -/
def designated (entries : List (KeyboardScancode × Char)) (index : ℕ) : UInt8 :=
  match entries.find? fun entry => entry.1.value.toNat = index with
  | some entry => entry.2.toUInt8
  | none => 0

/-! ## Reading an event -/

namespace ByteObject

/-- Read a byte. -/
def byteAt {σ : Type} (object : ByteObject) (offset : ℕ) : KernelM σ UInt8 :=
  match object offset with
  | none => throw .outOfBounds
  | some byte => pure byte

/-- Read a word of 32 bits. -/
def wordAt {σ : Type} (object : ByteObject) (offset : ℕ) : KernelM σ UInt32 := do
  let byte0 ← object.byteAt offset
  let byte1 ← object.byteAt (offset + 1)
  let byte2 ← object.byteAt (offset + 2)
  let byte3 ← object.byteAt (offset + 3)
  pure (.ofNat (LittleEndian.decode [byte0, byte1, byte2, byte3]))

/-- Read a `bool`. -/
def boolAt {σ : Type} (object : ByteObject) (offset : ℕ) : KernelM σ Bool := do
  let byte ← object.byteAt offset
  pure (byte != 0)

end ByteObject

/-- `event->shift_held || event->caps_locked`. -/
def shiftHeldOrCapsLocked {σ : Type} (event : ByteObject) : KernelM σ Bool := do
  let shiftHeld ← event.boolAt 9
  if shiftHeld then pure true else event.boolAt 12

/-- `keyboard_scancode_to_ascii`; it also returns what `ascii` points to
afterwards. -/
def keyboardScancodeToAscii {σ : Type} (event : ByteObject) (ascii : UInt8) :
    KernelM σ (Bool × UInt8) := do
  let scancode ← event.wordAt 4
  if scancode.toNat ≥ 128 then pure (false, ascii)
  else do
    let shifted ← shiftHeldOrCapsLocked event
    let ascii :=
      if shifted then designated scancodeToAsciiShift scancode.toNat
      else designated scancodeToAscii scancode.toNat
    pure (ascii != 0, ascii)

/-! ## The character of an event -/

namespace KeyboardEvent

variable {event : KeyboardEvent} {object : ByteObject}

/-- The character of a key event, if its key has one. -/
def ascii? (event : KeyboardEvent) : Option UInt8 :=
  let character :=
    if event.modifiers.shiftHeld || event.modifiers.capsLocked then
      designated scancodeToAsciiShift event.scancode.toNat
    else designated scancodeToAscii event.scancode.toNat
  if event.scancode.toNat < 128 ∧ character ≠ 0 then some character else none

/-- What an event types: pressing a key types its character. -/
def text (event : KeyboardEvent) : List UInt8 :=
  if event.isPressed then event.ascii?.toList else []

/-- The fields of an event are read back from its bytes. -/
theorem byteAt (holds : object.HoldsAt 0 event.bytes) {σ : Type} (offset : ℕ) {byte : UInt8}
    (field : event.bytes[offset]? = some byte) :
    (object.byteAt offset : KernelM σ UInt8) = pure byte := by
  have inside : offset < event.bytes.length := (List.getElem?_eq_some_iff.1 field).1
  have here := holds offset inside
  rw [Nat.zero_add, field] at here
  unfold ByteObject.byteAt
  rw [here]

theorem boolAt (holds : object.HoldsAt 0 event.bytes) {σ : Type} (offset : ℕ) (flag : Bool)
    (field : event.bytes[offset]? = some flag.toUInt8) :
    (object.boolAt offset : KernelM σ Bool) = pure flag := by
  have value : (flag.toUInt8 != 0) = flag := by cases flag <;> rfl
  unfold ByteObject.boolAt
  rw [byteAt holds offset field, pure_bind, value]

theorem wordAt (holds : object.HoldsAt 0 event.bytes) {σ : Type} :
    (object.wordAt 4 : KernelM σ UInt32) = pure event.scancode.toUInt32 := by
  have value : LittleEndian.decode [event.scancode.toUInt8, (event.scancode >>> 8).toUInt8, 0, 0] =
      event.scancode.toUInt32.toNat := by
    have width := event.scancode.toNat_lt
    have low : event.scancode.toUInt8.toNat = event.scancode.toNat % 256 :=
      UInt16.toNat_toUInt8 _
    have high : (event.scancode >>> 8).toUInt8.toNat = event.scancode.toNat / 256 % 256 := by
      rw [UInt16.toNat_toUInt8, UInt16.toNat_shiftRight]
      change event.scancode.toNat >>> 8 % 256 = _
      rw [Nat.shiftRight_eq_div_pow]
    simp only [LittleEndian.decode, low, high, UInt16.toNat_toUInt32, UInt8.toNat_zero]
    omega
  unfold ByteObject.wordAt
  rw [byteAt holds 4 rfl, byteAt holds (4 + 1) rfl, byteAt holds (4 + 2) rfl,
    byteAt holds (4 + 3) rfl]
  simp only [pure_bind, value, UInt32.ofNat_toNat]

/-- On the bytes of an event the function returns its character, if there is one. -/
theorem keyboardScancodeToAscii_eq (holds : object.HoldsAt 0 event.bytes) {σ : Type}
    (ascii : UInt8) :
    ∃ other, (keyboardScancodeToAscii object ascii : KernelM σ (Bool × UInt8)) =
      pure (event.ascii?.isSome, event.ascii?.getD other) := by
  have code : event.scancode.toUInt32.toNat = event.scancode.toNat := UInt16.toNat_toUInt32 _
  have shifted : (shiftHeldOrCapsLocked object : KernelM σ Bool) =
      pure (event.modifiers.shiftHeld || event.modifiers.capsLocked) := by
    unfold shiftHeldOrCapsLocked
    rw [boolAt holds 9 event.modifiers.shiftHeld rfl, pure_bind,
      boolAt holds 12 event.modifiers.capsLocked rfl]
    cases event.modifiers.shiftHeld <;> rfl
  have entry : ∀ character : UInt8, (pure (character != 0, character) : KernelM σ _) =
      pure ((if character ≠ 0 then some character else none).isSome,
        (if character ≠ 0 then some character else none).getD 0) := by
    intro character
    rcases eq_or_ne character 0 with rfl | some_
    · rfl
    · rw [if_pos some_, bne_iff_ne.2 some_]
      rfl
  unfold keyboardScancodeToAscii KeyboardEvent.ascii?
  rw [wordAt holds, pure_bind, code]
  rcases Nat.lt_or_ge event.scancode.toNat 128 with inside | beyond
  · refine ⟨0, ?_⟩
    rw [if_neg (Nat.not_le.2 inside), shifted, pure_bind, entry]
    simp only [inside, true_and]
  · refine ⟨ascii, ?_⟩
    rw [if_pos beyond, if_neg fun h => Nat.not_lt.2 beyond h.1]
    rfl

end KeyboardEvent

end ArkoiOs
