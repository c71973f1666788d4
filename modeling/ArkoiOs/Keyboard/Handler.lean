import ArkoiOs.Keyboard.Model

/-!
# What the interrupt handler does

The bytes of a keyboard form strokes: a prefix byte marks the next one as
extended, and the top bit of a byte tells a break code from a make code.  The
handler reads bytes up to a prefix byte or to the last one, and for each stroke
it notes the modifiers and pushes one event.
-/

namespace ArkoiOs

/-! ## Strokes -/

/-- A key, by its code and whether the code is extended. -/
structure Key where
  extended : Bool
  code : UInt8
  deriving DecidableEq, Repr

/-- A make or break code of a key. -/
structure Stroke where
  key : Key
  isBreak : Bool
  deriving DecidableEq, Repr

/-- The stroke a byte ends, after a prefix byte or not. -/
def strokeOf (extended : Bool) (byte : UInt8) : Stroke :=
  ⟨⟨extended, byte &&& 0x7F⟩, byte &&& 0x80 != 0⟩

/-- The strokes of a sequence of bytes. -/
def strokes : Bool → List UInt8 → List Stroke
  | _, [] => []
  | extended, byte :: bytes =>
      if byte = extendedScancodePrefix then strokes true bytes
      else strokeOf extended byte :: strokes false bytes

/-- Whether the bytes end with a prefix byte. -/
def pendingAfter : Bool → List UInt8 → Bool
  | extended, [] => extended
  | _, byte :: bytes => pendingAfter (byte = extendedScancodePrefix) bytes

theorem strokes_append (extended : Bool) (bytes more : List UInt8) :
    strokes extended (bytes ++ more) =
      strokes extended bytes ++ strokes (pendingAfter extended bytes) more := by
  induction bytes generalizing extended with
  | nil => rfl
  | cons byte bytes ih =>
      rw [List.cons_append, strokes, strokes, pendingAfter]
      split
      · rename_i is_prefix
        rw [ih, decide_eq_true is_prefix]
      · rename_i other
        rw [ih, decide_eq_false other]
        rfl

theorem pendingAfter_append (extended : Bool) (bytes more : List UInt8) :
    pendingAfter extended (bytes ++ more) = pendingAfter (pendingAfter extended bytes) more := by
  induction bytes generalizing extended with
  | nil => rfl
  | cons byte bytes ih => exact ih _

/-! ## Strokes as the driver sees them -/

/-- The scan code the driver computes for a key. -/
def Key.scancode (key : Key) : UInt16 := extendedScancode key.code key.extended

/-- The modifiers after a stroke. -/
def Modifiers.stroke (modifiers : Modifiers) (stroke : Stroke) : Modifiers :=
  modifiers.note stroke.key.scancode stroke.isBreak

/-- The event of a stroke, with the modifiers after it. -/
def Stroke.event (stroke : Stroke) (modifiers : Modifiers) : KeyboardEvent :=
  ⟨stroke.key.code, stroke.key.scancode, !stroke.isBreak, modifiers⟩

/-- The events the driver pushes for strokes. -/
def driverEvents : Modifiers → List Stroke → List KeyboardEvent
  | _, [] => []
  | modifiers, stroke :: rest =>
      stroke.event (modifiers.stroke stroke) :: driverEvents (modifiers.stroke stroke) rest

theorem length_driverEvents (modifiers : Modifiers) (all : List Stroke) :
    (driverEvents modifiers all).length = all.length := by
  induction all generalizing modifiers with
  | nil => rfl
  | cons stroke rest ih => rw [driverEvents, List.length_cons, ih, List.length_cons]

theorem driverEvents_append (modifiers : Modifiers) (first rest : List Stroke) :
    driverEvents modifiers (first ++ rest) =
      driverEvents modifiers first ++
        driverEvents (first.foldl Modifiers.stroke modifiers) rest := by
  induction first generalizing modifiers with
  | nil => rfl
  | cons stroke first ih => rw [List.cons_append, driverEvents, ih]; rfl

/-! ## The queue of the keyboard -/

namespace Keyboard

/-- The ring buffer of the driver is the queue. -/
structure Queue (keyboard : Keyboard) (q : List (List UInt8)) : Prop where
  represents : keyboard.buffer.Represents q
  capacity : keyboard.buffer.capacity = keyboardBufferSize
  elementSize : keyboard.buffer.elementSize = sizeofKeyboardEvent

/-- The events a full buffer holds. -/
abbrev bound : ℕ := 255

variable {keyboard : Keyboard} {q rest : List (List UInt8)} {front : List UInt8}

namespace Queue

theorem congr {keyboard' : Keyboard} (h : keyboard.Queue q)
    (same : keyboard'.buffer = keyboard.buffer) : keyboard'.Queue q := by
  rcases h with ⟨represents, capacity, elementSize⟩
  rw [← same] at represents capacity elementSize
  exact ⟨represents, capacity, elementSize⟩

theorem length_le (h : keyboard.Queue q) : q.length ≤ bound := by
  have short := h.represents.short
  rw [h.capacity] at short
  exact Nat.le_of_lt_succ short

theorem isEmpty_iff (h : keyboard.Queue q) :
    cyclicBufferIsEmpty (some keyboard.buffer) = true ↔ q = [] :=
  h.represents.isEmpty_iff

theorem isEmpty_cons (h : keyboard.Queue (front :: rest)) :
    cyclicBufferIsEmpty (some keyboard.buffer) = false := by
  rw [← Bool.not_eq_true, h.isEmpty_iff]
  exact List.cons_ne_nil front rest

/-- One push on the ring buffer of the driver changes the buffer only. -/
theorem push (h : keyboard.Queue q) (event : KeyboardEvent) :
    ∃ buffer, onBuffer (cyclicBufferPush (some (.ofBytes event.bytes))) keyboard =
        .ok true { keyboard with buffer := buffer } ∧
      Queue { keyboard with buffer := buffer } (BoundedQueue.push bound q event.bytes) := by
  have holds : (ByteObject.ofBytes event.bytes).HoldsAt 0 event.bytes := by
    intro i hi
    rw [Nat.zero_add]
    rfl
  obtain ⟨cb', run, capacity, elementSize, represents⟩ :=
    h.represents.push holds (by rw [h.elementSize]; rfl)
  rw [h.capacity] at represents
  exact ⟨cb', onBuffer_of_ok run, represents, capacity.trans h.capacity,
    elementSize.trans h.elementSize⟩

end Queue

end Keyboard

/-! ## One byte -/

section Byte

variable {keyboard : Keyboard} {q : List (List UInt8)}

/-- The masks of `handle_scancode` split a byte as a stroke does. -/
theorem stroke_masks (byte : UInt8) :
    ((byte.toUInt16 &&& releasedScancodeMask) != 0) = (byte &&& 0x80 != 0) ∧
      (byte.toUInt16 &&& ~~~releasedScancodeMask).toUInt8 = byte &&& 0x7F := by
  constructor
  · have mask : byte.toUInt16 &&& releasedScancodeMask = (byte &&& 0x80).toUInt16 :=
      (UInt8.toUInt16_and byte 0x80).symm
    rw [mask, Bool.eq_iff_iff, bne_iff_ne, bne_iff_ne, ne_eq, ne_eq]
    exact not_congr (UInt8.toUInt16_inj (b := 0))
  · rw [UInt16.toUInt8_and, UInt8.toUInt8_toUInt16]
    rfl

/-- `handle_scancode` notes the modifiers and pushes the event of the stroke. -/
theorem handleScancode_eq (h : keyboard.Queue q) (byte : UInt8) (extended : Bool) :
    ∃ keyboard', handleScancode byte.toUInt16 extended keyboard = .ok () keyboard' ∧
      keyboard'.Queue ((q ++ (driverEvents keyboard.modifiers
        [strokeOf extended byte]).map KeyboardEvent.bytes).rtake Keyboard.bound) ∧
      keyboard'.port = keyboard.port ∧
      keyboard'.extendedPending = keyboard.extendedPending ∧
      keyboard'.modifiers = keyboard.modifiers.stroke (strokeOf extended byte) ∧
      keyboard'.pushed =
        keyboard.pushed ++ driverEvents keyboard.modifiers [strokeOf extended byte] := by
  have noted : Keyboard.Queue { keyboard with
      modifiers := keyboard.modifiers.stroke (strokeOf extended byte) } q := h.congr rfl
  obtain ⟨buffer, push, queue⟩ := noted.push
    ((strokeOf extended byte).event (keyboard.modifiers.stroke (strokeOf extended byte)))
  have run : handleScancode byte.toUInt16 extended keyboard = .ok ()
      { keyboard with
        buffer := buffer
        modifiers := keyboard.modifiers.stroke (strokeOf extended byte)
        pushed :=
          keyboard.pushed ++ driverEvents keyboard.modifiers [strokeOf extended byte] } := by
    unfold handleScancode
    simp only [(stroke_masks byte).1, (stroke_masks byte).2]
    rw [Machine.bind_of_ok (Machine.modify_run _ _), Machine.bind_of_ok (Machine.get_run _)]
    exact (Machine.bind_of_ok push).trans rfl
  exact ⟨_, run, queue.congr rfl, rfl, rfl, rfl, rfl⟩

end Byte

/-! ## Handler calls -/

/-- The bytes one call of the handler reads: up to a prefix byte or to the last
one. -/
def portRead : List UInt8 → List UInt8
  | [] => []
  | byte :: port => if byte = extendedScancodePrefix then [byte] else byte :: portRead port

/-- Without a prefix byte the handler reads all there is. -/
theorem portRead_of_not_mem {port : List UInt8} (none : extendedScancodePrefix ∉ port) :
    portRead port = port := by
  induction port with
  | nil => rfl
  | cons byte port ih =>
      rw [List.mem_cons, not_or] at none
      rw [portRead, if_neg (Ne.symm none.1), ih none.2]

/-- What the handler does with the bytes it reads from the controller: it pushes
the events of their strokes. -/
structure Handled (keyboard keyboard' : Keyboard) (q : List (List UInt8)) (read : List UInt8) :
    Prop where
  port : keyboard.port = read ++ keyboard'.port
  pending : keyboard'.extendedPending = pendingAfter keyboard.extendedPending read
  modifiers : keyboard'.modifiers =
    (strokes keyboard.extendedPending read).foldl Modifiers.stroke keyboard.modifiers
  pushed : keyboard'.pushed = keyboard.pushed ++
    driverEvents keyboard.modifiers (strokes keyboard.extendedPending read)
  queue : keyboard'.Queue ((q ++ (driverEvents keyboard.modifiers
    (strokes keyboard.extendedPending read)).map KeyboardEvent.bytes).rtake Keyboard.bound)

namespace Handled

variable {a b c : Keyboard} {q : List (List UInt8)} {read more : List UInt8}

/-- Nothing was read. -/
theorem refl (h : a.Queue q) : Handled a a q [] where
  port := rfl
  pending := rfl
  modifiers := rfl
  pushed := (List.append_nil _).symm
  queue := by
    rw [strokes, driverEvents, List.map_nil, List.append_nil, BoundedQueue.rtake_of_le h.length_le]
    exact h

theorem trans (first : Handled a b q read)
    (rest : Handled b c ((q ++ (driverEvents a.modifiers
      (strokes a.extendedPending read)).map KeyboardEvent.bytes).rtake Keyboard.bound) more) :
    Handled a c q (read ++ more) where
  port := by rw [first.port, rest.port, List.append_assoc]
  pending := by rw [rest.pending, first.pending, pendingAfter_append]
  modifiers := by
    rw [rest.modifiers, first.modifiers, first.pending, strokes_append, List.foldl_append]
  pushed := by
    rw [rest.pushed, first.pushed, first.modifiers, first.pending, strokes_append,
      driverEvents_append, List.append_assoc]
  queue := by
    have queue := rest.queue
    rw [BoundedQueue.rtake_rtake_append, first.modifiers, first.pending, List.append_assoc,
      ← List.map_append, ← driverEvents_append, ← strokes_append] at queue
    exact queue

/-- Bytes that arrive later stay in the controller. -/
theorem arrive (h : Handled a b q read) (bytes : List UInt8) :
    Handled { a with port := a.port ++ bytes } { b with port := b.port ++ bytes } q read where
  port := by rw [h.port, List.append_assoc]
  pending := h.pending
  modifiers := h.modifiers
  pushed := h.pushed
  queue := h.queue.congr rfl

end Handled

/-- The loop of the handler over the bytes in the controller. -/
theorem handlePort_ok {keyboard : Keyboard} {q : List (List UInt8)} (h : keyboard.Queue q) :
    ∃ keyboard', handlePort keyboard.port keyboard = .ok () keyboard' ∧
      Handled keyboard keyboard' q (portRead keyboard.port) := by
  generalize port : keyboard.port = bytes
  induction bytes generalizing keyboard q with
  | nil => exact ⟨keyboard, rfl, .refl h⟩
  | cons byte bytes ih =>
      rw [handlePort, portRead, Machine.bind_of_ok (Machine.modify_run _ _)]
      split
      · rename_i is_prefix
        have none : strokes keyboard.extendedPending [byte] = [] := by
          rw [strokes, if_pos is_prefix]
          rfl
        refine ⟨_, Machine.modify_run _ _, port, ?_, ?_, ?_, ?_⟩
        · rw [pendingAfter, pendingAfter, decide_eq_true is_prefix]
        · rw [none]
          rfl
        · rw [none]
          exact (List.append_nil _).symm
        · rw [none, driverEvents, List.map_nil, List.append_nil,
            BoundedQueue.rtake_of_le h.length_le]
          exact h.congr rfl
      · rename_i other
        rw [Machine.bind_of_ok (Machine.get_run _), Machine.bind_of_ok (Machine.modify_run _ _)]
        have one : strokes keyboard.extendedPending [byte] =
            [strokeOf keyboard.extendedPending byte] := by
          rw [strokes, if_neg other]
          rfl
        have ready : Keyboard.Queue { keyboard with port := bytes, extendedPending := false } q :=
          h.congr rfl
        obtain ⟨k₁, run, queue, port₁, pending₁, modifiers₁, pushed₁⟩ :=
          handleScancode_eq ready byte keyboard.extendedPending
        have first : Handled keyboard k₁ q [byte] := by
          refine ⟨by rw [port, port₁]; rfl, ?_, ?_, ?_, ?_⟩
          · rw [pending₁, pendingAfter, pendingAfter, decide_eq_false other]
          · rw [modifiers₁, one]
            rfl
          · rw [pushed₁, one]
          · rw [one]
            exact queue
        have queue' := first.queue
        obtain ⟨keyboard', rest, handled⟩ := ih queue' port₁
        exact ⟨keyboard', (Machine.bind_of_ok run).trans rest, first.trans handled⟩

/-- `keyboard_handler` returns, and has handled the bytes it read. -/
theorem keyboardHandler_ok {keyboard : Keyboard} {q : List (List UInt8)} (h : keyboard.Queue q) :
    ∃ keyboard', keyboardHandler keyboard = .ok () keyboard' ∧
      Handled keyboard keyboard' q (portRead keyboard.port) :=
  handlePort_ok h

/-- After `keyboard_init` the queue is empty. -/
theorem keyboardInit_ok : ∃ keyboard, keyboardInit Keyboard.boot = .ok () keyboard ∧
    keyboard.Queue [] ∧ keyboard.port = [] ∧ keyboard.extendedPending = false ∧
    keyboard.modifiers = ⟨false, false, false, false⟩ ∧ keyboard.pushed = [] := by
  have init : onBuffer (cyclicBufferInit (some keyboardEvents) keyboardBufferSize
      sizeofKeyboardEvent) Keyboard.boot = .ok true { Keyboard.boot with
        buffer := ⟨keyboardEvents, 0, 0, keyboardBufferSize, sizeofKeyboardEvent⟩ } :=
    onBuffer_of_ok rfl
  refine ⟨_, (Machine.bind_of_ok init).trans rfl, ⟨CyclicBuffer.represents_nil (by decide)
    (by decide) (by decide) fun i => ?_, rfl, rfl⟩, rfl, rfl, rfl, rfl⟩
  have width : (keyboardBufferSize * sizeofKeyboardEvent).toNat =
      keyboardBufferSize.toNat * sizeofKeyboardEvent.toNat := by decide
  rw [keyboardEvents, ByteObject.ofBytes, List.getElem?_replicate, width]
  split
  · rename_i inside
    exact ⟨fun _ => inside, fun _ => rfl⟩
  · rename_i outside
    exact ⟨fun none => absurd none Bool.false_ne_true, fun inside => absurd inside outside⟩

end ArkoiOs
