import ArkoiOs.Keyboard.Batches
import ArkoiOs.Keyboard.GetEvent
import ArkoiOs.Keyboard.MainLoop
import ArkoiOs.Vga.Document

/-!
# The statements of the loop

What holds before each statement of the loop in `kernel_main`, as long as the ring
buffer has room: the events that were pushed are those the loop has taken and
those still queued, and the characters of the taken ones are on the screen, but
for the last one while the loop is at work on it.  Each statement keeps this, and
so does an interrupt.  Without interrupts the statements are the loop.
-/

namespace ArkoiOs

/-! ## Pushes leave the front where it is -/

section Push

variable {cb cb' : CyclicBuffer} {q : List (List UInt8)}

/-- With room a push leaves `tail`. -/
theorem CyclicBuffer.Represents.push_tail (h : cb.Represents q) {source : ByteObject}
    (room : q.length < cb.capacity.toNat - 1)
    (run : cyclicBufferPush (some source) (some cb) = .ok true (some cb')) :
    cb'.tail = cb.tail := by
  have notFull : cyclicBufferIsFull (some cb) = false := by
    rw [← Bool.not_eq_true, h.isFull_iff]
    exact room.ne
  unfold cyclicBufferPush at run
  rw [Machine.bind_of_ok (Machine.get_run _)] at run
  simp only [notFull, Bool.false_eq_true, if_false] at run
  obtain ⟨written, s, -, rest⟩ := Machine.bind_eq_ok.1 run
  cases rest
  rfl

theorem pushBytes_tail {events : List KeyboardEvent} (h : cb.Represents q)
    (elementSize : cb.elementSize = sizeofKeyboardEvent)
    (room : q.length + events.length ≤ cb.capacity.toNat - 1)
    (run : pushBytes events (some cb) = .ok () (some cb')) : cb'.tail = cb.tail := by
  induction events generalizing cb q with
  | nil =>
      cases run
      rfl
  | cons event events ih =>
      rw [List.length_cons] at room
      have holds : (ByteObject.ofBytes event.bytes).HoldsAt 0 event.bytes := by
        intro i hi
        rw [Nat.zero_add]
        rfl
      obtain ⟨cb₁, push, capacity, size, pushed⟩ := h.push holds (by rw [elementSize]; rfl)
      have one : (do
          let _ ← cyclicBufferPush (some (.ofBytes event.bytes))
          pure () : KernelM (Option CyclicBuffer) Unit) (some cb) = .ok () (some cb₁) :=
        (Machine.bind_of_ok push).trans rfl
      rw [BoundedQueue.push_of_lt (by omega)] at pushed
      have rest := ih pushed (size.trans elementSize)
        (by rw [capacity, List.length_append, List.length_singleton]; omega)
        ((Machine.bind_of_ok one).symm.trans run)
      exact rest.trans (h.push_tail (by omega) push)

end Push

/-! ## What holds at each statement -/

/-- The bytes the handler has read, as the driver shows it. -/
structure Keyboard.HasRead (keyboard : Keyboard) (read : List UInt8) : Prop where
  pending : keyboard.extendedPending = pendingAfter false read
  modifiers : keyboard.modifiers =
    (strokes false read).foldl Modifiers.stroke ⟨false, false, false, false⟩
  pushed : keyboard.pushed = driverEvents ⟨false, false, false, false⟩ (strokes false read)

namespace Console

variable {console console' : Console} {taken queued : List KeyboardEvent}

/-- What holds before a statement: `taken` are the events the loop has dropped from
the ring buffer, the last of which it may still have to write. -/
def Before (console : Console) (taken queued : List KeyboardEvent) : MainPlace → Prop
  | .hasEvent => console.written = textOf taken
  | .getEvent | .pop => queued ≠ [] ∧ console.written = textOf taken
  | .copy source done => ∃ event rest, queued = event :: rest ∧ done ≤ 16 ∧
      source = (console.keyboard.buffer.tail * console.keyboard.buffer.elementSize).toNat ∧
      console.event.HoldsAt 0 (event.bytes.take done) ∧ console.written = textOf taken
  | .advance => ∃ event rest, queued = event :: rest ∧
      console.event.HoldsAt 0 event.bytes ∧ console.written = textOf taken
  | .pressed => ∃ earlier event, taken = earlier ++ [event] ∧
      console.event.HoldsAt 0 event.bytes ∧ console.written = textOf earlier
  | .convert => ∃ earlier event, taken = earlier ++ [event] ∧ event.isPressed = true ∧
      console.event.HoldsAt 0 event.bytes ∧ console.written = textOf earlier
  | .write ascii => ∃ earlier event, taken = earlier ++ [event] ∧ event.text = [ascii] ∧
      console.written = textOf earlier

/-- No event is lost: those that were pushed are those taken and those queued. -/
structure Follows (console : Console) (d : Document) (taken queued : List KeyboardEvent) :
    Prop where
  pushed : console.keyboard.pushed = taken ++ queued
  queue : console.keyboard.Queue (queued.map KeyboardEvent.bytes)
  object : ∀ i < sizeofKeyboardEvent.toNat, (console.event i).isSome
  before : console.Before taken queued console.place
  shows : console.vga.Shows (console.written.foldl Document.write d)

/-- The statements of a turn that are left. -/
def left : MainPlace → ℕ
  | .hasEvent => 25
  | .getEvent => 24
  | .pop => 23
  | .copy _ done => 22 - done
  | .advance => 5
  | .pressed => 29
  | .convert => 28
  | .write _ => 27

theorem left_le (place : MainPlace) : left place ≤ 29 := by
  cases place <;> simp only [left] <;> omega

/-- A bound on the statements before the loop waits for events. -/
def work (console : Console) (queued : List KeyboardEvent) : ℕ :=
  30 * queued.length + left console.place

/-- What a statement keeps; it gets on with the work unless the loop waits. -/
structure GoesOn (console console' : Console) (d : Document)
    (taken queued taken' queued' : List KeyboardEvent) : Prop where
  follows : console'.Follows d taken' queued'
  same : taken' ++ queued' = taken ++ queued
  keyboard : ∃ buffer, console'.keyboard = { console.keyboard with buffer := buffer }
  less : (console.place = .hasEvent ∧ queued = [] ∧ console' = console) ∨
    console'.work queued' < console.work queued

/-- The next statement returns and keeps what the loop does. -/
def Continues (console : Console) (d : Document) (taken queued : List KeyboardEvent) : Prop :=
  ∃ console' taken' queued', mainStatement console = .ok () console' ∧
    GoesOn console console' d taken queued taken' queued'

variable {d : Document}

theorem onKeyboard_of_ok {α : Type} {x : KernelM Keyboard α} {keyboard' : Keyboard} {a : α}
    (run : x console.keyboard = .ok a keyboard') :
    onKeyboard x console = .ok a { console with keyboard := keyboard' } :=
  Machine.zoom_of_ok rfl run

theorem onKeyboard_hasEvent {q : List (List UInt8)} (h : console.keyboard.Queue q) :
    onKeyboard keyboardHasEvent console = .ok (!q.isEmpty) console := by
  have tested : keyboardHasEvent console.keyboard = .ok (!q.isEmpty) console.keyboard := by
    unfold keyboardHasEvent
    rw [Machine.bind_of_ok (Machine.get_run _)]
    have empty : cyclicBufferIsEmpty (some console.keyboard.buffer) = q.isEmpty := by
      rw [Bool.eq_iff_iff, h.isEmpty_iff, List.isEmpty_iff]
    rw [empty]
    rfl
  exact onKeyboard_of_ok tested

/-- Without events the loop waits. -/
theorem Follows.waits (h : console.Follows d taken []) (place : console.place = .hasEvent) :
    mainStatement console = .ok () console := by
  have same : { console with place := .hasEvent } = console := by
    rw [← place]
  unfold mainStatement
  rw [Machine.bind_of_ok (Machine.get_run _)]
  simp only [place]
  rw [Machine.bind_of_ok (onKeyboard_hasEvent h.queue)]
  exact congrArg (EStateM.Result.ok ()) same

/-- `keyboard_has_event` in the loop. -/
theorem Follows.hasEvent (h : console.Follows d taken queued) (place : console.place = .hasEvent) :
    console.Continues d taken queued := by
  cases queued with
  | nil => exact ⟨console, _, _, h.waits place, h, rfl, ⟨_, rfl⟩, Or.inl ⟨place, rfl, rfl⟩⟩
  | cons event rest =>
      have before := h.before
      rw [place] at before
      unfold Continues mainStatement
      rw [Machine.bind_of_ok (Machine.get_run _)]
      simp only [place]
      rw [Machine.bind_of_ok (onKeyboard_hasEvent h.queue)]
      refine ⟨_, _, _, rfl, ⟨h.pushed, h.queue, h.object, ?_, h.shows⟩, rfl, ⟨_, rfl⟩, Or.inr ?_⟩
      · exact ⟨List.cons_ne_nil event rest, before⟩
      · simp only [work, place]
        exact Nat.add_lt_add_left (Nat.lt_succ_self 24) _

/-- `keyboard_has_event` in `keyboard_get_event`. -/
theorem Follows.getEvent (h : console.Follows d taken queued) (place : console.place = .getEvent) :
    console.Continues d taken queued := by
  have before := h.before
  rw [place] at before
  obtain ⟨nonempty, written⟩ := before
  have some_ : (queued.map KeyboardEvent.bytes).isEmpty = false := by
    rw [List.isEmpty_map]
    exact List.isEmpty_eq_false_iff.2 nonempty
  unfold Continues mainStatement
  rw [Machine.bind_of_ok (Machine.get_run _)]
  simp only [place]
  rw [Machine.bind_of_ok (onKeyboard_hasEvent h.queue), some_]
  refine ⟨_, _, _, rfl, ⟨h.pushed, h.queue, h.object, ⟨nonempty, written⟩, h.shows⟩, rfl, ⟨_, rfl⟩,
    Or.inr ?_⟩
  simp only [work, place]
  exact Nat.add_lt_add_left (Nat.lt_succ_self 23) _

/-- `cyclic_buffer_is_empty` in `cyclic_buffer_pop`. -/
theorem Follows.pop (h : console.Follows d taken queued) (place : console.place = .pop) :
    console.Continues d taken queued := by
  have before := h.before
  rw [place] at before
  obtain ⟨nonempty, written⟩ := before
  obtain ⟨event, rest, rfl⟩ := List.exists_cons_of_ne_nil nonempty
  have some_ : cyclicBufferIsEmpty (some console.keyboard.buffer) = false := h.queue.isEmpty_cons
  unfold Continues mainStatement
  rw [Machine.bind_of_ok (Machine.get_run _)]
  simp only [place, some_, Bool.false_eq_true, if_false]
  refine ⟨_, _, _, rfl, ⟨h.pushed, h.queue, h.object, ⟨event, rest, rfl, Nat.zero_le _, rfl,
    fun i hi => absurd hi (Nat.not_lt_zero i), written⟩, h.shows⟩, rfl, ⟨_, rfl⟩, Or.inr ?_⟩
  simp only [work, place]
  exact Nat.add_lt_add_left (Nat.lt_succ_self 22) _

/-- The front of the queue stands at the offset of `tail`. -/
theorem front_holdsAt {keyboard : Keyboard} {front : List UInt8} {rest : List (List UInt8)}
    (h : keyboard.Queue (front :: rest)) :
    keyboard.buffer.buffer.HoldsAt
      (keyboard.buffer.tail * keyboard.buffer.elementSize).toNat front := by
  have slot := h.represents.slots 0 (Nat.succ_pos _)
  rw [Nat.add_zero, Nat.mod_eq_of_lt h.represents.tail_lt] at slot
  rw [h.represents.offset_toNat h.represents.tail_lt]
  exact slot

/-- One byte of the copy. -/
theorem copyEventByte_ok {source done : ℕ} {bytes : List UInt8}
    (holds : console.keyboard.buffer.buffer.HoldsAt source bytes) (inside : done < bytes.length)
    (room : (console.event done).isSome) :
    copyEventByte source done console =
      .ok () { console with event := console.event.overwrite done [bytes[done]] } := by
  have byte : (console.keyboard.buffer.buffer.byteAt (source + done) : KernelM Console UInt8) =
      pure bytes[done] := by
    unfold ByteObject.byteAt
    rw [holds done inside, List.getElem?_eq_getElem inside]
  unfold copyEventByte
  rw [Machine.bind_of_ok (Machine.get_run _), byte, pure_bind, if_pos room]
  rfl

/-- `kmemcpy` in `cyclic_buffer_pop`, byte by byte. -/
theorem Follows.copy (h : console.Follows d taken queued) {source done : ℕ}
    (place : console.place = .copy source done) :
    console.Continues d taken queued := by
  have before := h.before
  rw [place] at before
  obtain ⟨event, rest, rfl, le, source_eq, copied, written⟩ := before
  have size : console.keyboard.buffer.elementSize.toNat = 16 := by
    rw [h.queue.elementSize]
    rfl
  have length : event.bytes.length = 16 := rfl
  have front := front_holdsAt h.queue
  rw [← source_eq] at front
  unfold Continues mainStatement
  rw [Machine.bind_of_ok (Machine.get_run _)]
  simp only [place, size]
  rcases Nat.lt_or_ge done 16 with more | all
  · rw [if_pos more, Machine.bind_of_ok (copyEventByte_ok front (length ▸ more)
      (h.object done more))]
    refine ⟨_, _, _, rfl, ⟨h.pushed, h.queue, fun i hi => ?_, ⟨event, rest, rfl, more, source_eq,
      fun i hi => ?_, written⟩, h.shows⟩, rfl, ⟨_, rfl⟩, Or.inr ?_⟩
    · simp only [ByteObject.overwrite, List.length_singleton]
      split
      · rename_i here
        rw [Nat.le_antisymm (Nat.le_of_lt_succ here.2) here.1, Nat.sub_self]
        rfl
      · exact h.object i hi
    · rw [List.length_take, length] at hi
      simp only [ByteObject.overwrite, List.length_singleton, Nat.zero_add]
      rw [List.getElem?_take_of_lt (by omega)]
      split
      · rename_i here
        have same : i = done := by omega
        subst same
        rw [Nat.sub_self]
        exact (List.getElem?_eq_getElem _).symm
      · have earlier := copied i (by rw [List.length_take, length]; omega)
        rw [Nat.zero_add, List.getElem?_take_of_lt (by omega)] at earlier
        exact earlier
    · simp only [work, place, left]
      omega
  · rw [if_neg (Nat.not_lt.2 all)]
    rw [List.take_of_length_le (length.trans_le all)] at copied
    refine ⟨_, _, _, rfl, ⟨h.pushed, h.queue, h.object, ⟨event, rest, rfl, copied, written⟩, h.shows⟩,
      rfl, ⟨_, rfl⟩, Or.inr ?_⟩
    simp only [work, place, left]
    omega

/-- `cb->tail = (cb->tail + 1) % cb->capacity`: the event is taken. -/
theorem Follows.advance (h : console.Follows d taken queued) (place : console.place = .advance) :
    console.Continues d taken queued := by
  have before := h.before
  rw [place] at before
  obtain ⟨event, rest, rfl, copied, written⟩ := before
  unfold Continues mainStatement
  rw [Machine.bind_of_ok (Machine.get_run _)]
  simp only [place]
  have regroup : taken ++ [event] ++ rest = taken ++ event :: rest := by
    rw [List.append_assoc, List.singleton_append]
  refine ⟨_, taken ++ [event], rest, rfl, ⟨h.pushed.trans regroup.symm, h.queue.drop_front,
    h.object, ⟨taken, event, rfl, copied, written⟩, h.shows⟩, regroup, ⟨_, rfl⟩, Or.inr ?_⟩
  simp only [work, place, left, List.length_cons]
  omega

theorem textOf_concat (earlier : List KeyboardEvent) (event : KeyboardEvent) :
    textOf (earlier ++ [event]) = textOf earlier ++ event.text := by
  rw [textOf, List.flatMap_append, List.flatMap_singleton]
  rfl

/-- `event.is_pressed`. -/
theorem Follows.pressed (h : console.Follows d taken queued) (place : console.place = .pressed) :
    console.Continues d taken queued := by
  have before := h.before
  rw [place] at before
  obtain ⟨earlier, event, rfl, copied, written⟩ := before
  unfold Continues mainStatement
  rw [Machine.bind_of_ok (Machine.get_run _)]
  simp only [place]
  rw [KeyboardEvent.boolAt copied 8 event.isPressed rfl, pure_bind]
  cases down : event.isPressed with
  | true =>
      refine ⟨_, _, _, rfl, ⟨h.pushed, h.queue, h.object, ⟨earlier, event, rfl, down, copied, written⟩,
        h.shows⟩, rfl, ⟨_, rfl⟩, Or.inr ?_⟩
      simp only [work, place]
      exact Nat.add_lt_add_left (Nat.lt_succ_self 28) _
  | false =>
      have nothing : event.text = [] := by
        rw [KeyboardEvent.text, down]
        rfl
      refine ⟨_, _, _, rfl, ⟨h.pushed, h.queue, h.object, ?_, h.shows⟩, rfl, ⟨_, rfl⟩, Or.inr ?_⟩
      · change console.written = _
        rw [textOf_concat, nothing, List.append_nil, written]
      · simp only [work, place]
        exact Nat.add_lt_add_left (by change 25 < 29; omega) _

/-- `keyboard_scancode_to_ascii`. -/
theorem Follows.convert (h : console.Follows d taken queued) (place : console.place = .convert) :
    console.Continues d taken queued := by
  have before := h.before
  rw [place] at before
  obtain ⟨earlier, event, rfl, down, copied, written⟩ := before
  unfold Continues mainStatement
  rw [Machine.bind_of_ok (Machine.get_run _)]
  simp only [place]
  obtain ⟨other, converted⟩ :=
    KeyboardEvent.keyboardScancodeToAscii_eq copied (σ := Console) 0
  rw [converted, pure_bind]
  have typed : event.text = event.ascii?.toList := by
    rw [KeyboardEvent.text, down, if_pos rfl]
  cases character : event.ascii? with
  | some ascii =>
      rw [character] at typed
      refine ⟨_, _, _, rfl, ⟨h.pushed, h.queue, h.object, ⟨earlier, event, rfl, typed, written⟩,
        h.shows⟩, rfl, ⟨_, rfl⟩, Or.inr ?_⟩
      simp only [work, place]
      exact Nat.add_lt_add_left (Nat.lt_succ_self 27) _
  | none =>
      rw [character] at typed
      refine ⟨_, _, _, rfl, ⟨h.pushed, h.queue, h.object, ?_, h.shows⟩, rfl, ⟨_, rfl⟩, Or.inr ?_⟩
      · change console.written = _
        rw [textOf_concat, typed, written]
        exact (List.append_nil _).symm
      · simp only [work, place]
        exact Nat.add_lt_add_left (by change 25 < 28; omega) _

/-- The character is written to the document. -/
theorem writeGreen_ok {vga : Vga} {d : Document} (shows : vga.Shows d) (ascii : UInt8) :
    ∃ vga', writeGreen ascii vga = .ok () vga' ∧ vga'.Shows (d.write ascii) := by
  have colored : Vga.Shows
      { vga with currentColor := (VgaColor.lightGreen.value |||
        VgaColor.black.value <<< 4).toUInt8 } d :=
    ⟨shows.cells, shows.row, shows.column, shows.row_lt, shows.column_lt⟩
  obtain ⟨vga', run, written⟩ := colored.writeChar ascii
  exact ⟨vga', run, written⟩

/-- `vga_write_char`. -/
theorem Follows.write (h : console.Follows d taken queued) {ascii : UInt8}
    (place : console.place = .write ascii) :
    console.Continues d taken queued := by
  have before := h.before
  rw [place] at before
  obtain ⟨earlier, event, rfl, typed, written⟩ := before
  obtain ⟨vga', run, shows⟩ := writeGreen_ok h.shows ascii
  have output : onVga (writeGreen ascii) console = .ok () { console with vga := vga' } :=
    Machine.zoom_of_ok rfl run
  unfold Continues mainStatement
  rw [Machine.bind_of_ok (Machine.get_run _)]
  simp only [place]
  rw [Machine.bind_of_ok output]
  refine ⟨_, _, _, rfl, ⟨h.pushed, h.queue, h.object, ?_, ?_⟩, rfl, ⟨_, rfl⟩, Or.inr ?_⟩
  · change console.written ++ [ascii] = _
    rw [textOf_concat, typed, written]
  · change vga'.Shows ((console.written ++ [ascii]).foldl Document.write d)
    rw [List.foldl_concat]
    exact shows
  · simp only [work, place]
    exact Nat.add_lt_add_left (by change 25 < 27; omega) _

/-- So does every statement. -/
theorem Follows.statement (h : console.Follows d taken queued) :
    console.Continues d taken queued := by
  cases place : console.place with
  | hasEvent => exact h.hasEvent place
  | getEvent => exact h.getEvent place
  | pop => exact h.pop place
  | copy source done => exact h.copy place
  | advance => exact h.advance place
  | pressed => exact h.pressed place
  | convert => exact h.convert place
  | write ascii => exact h.write place

/-- An interrupt puts the events of the bytes it reads behind the others. -/
theorem Follows.interrupt (h : console.Follows d taken queued) {bytes : List UInt8}
    (room : console.RoomFor bytes) :
    ∃ console', (ConsoleAction.interrupt bytes).perform console = .ok () console' ∧
      console'.Follows d taken (queued ++ driverEvents console.keyboard.modifiers
        (strokes console.keyboard.extendedPending (portRead (console.keyboard.port ++ bytes)))) ∧
      Handled { console.keyboard with port := console.keyboard.port ++ bytes } console'.keyboard
        (queued.map KeyboardEvent.bytes) (portRead (console.keyboard.port ++ bytes)) := by
  have ready : Keyboard.Queue { console.keyboard with port := console.keyboard.port ++ bytes }
      (queued.map KeyboardEvent.bytes) := h.queue.congr rfl
  obtain ⟨keyboard', run, handled⟩ := keyboardHandler_ok ready
  have fits := room
  unfold Console.RoomFor at fits
  rw [h.queue.represents.contents_eq] at fits
  have short : ((queued ++ driverEvents console.keyboard.modifiers
      (strokes console.keyboard.extendedPending (portRead (console.keyboard.port ++ bytes)))).map
        KeyboardEvent.bytes).length ≤ Keyboard.bound := by
    rw [List.length_map, List.length_append, length_driverEvents]
    rwa [List.length_map] at fits
  have queue := handled.queue
  rw [← List.map_append, BoundedQueue.rtake_of_le short] at queue
  have tail : keyboard'.buffer.tail = console.keyboard.buffer.tail := by
    refine pushBytes_tail h.queue.represents h.queue.elementSize ?_
      (handlePort_buffer ready ((Machine.bind_of_ok (Machine.get_run _)).symm.trans run))
    rw [length_driverEvents, h.queue.capacity]
    exact fits
  have size : keyboard'.buffer.elementSize = console.keyboard.buffer.elementSize :=
    queue.elementSize.trans h.queue.elementSize.symm
  have whole : (do
      modify fun keyboard => { keyboard with port := keyboard.port ++ bytes }
      keyboardHandler : KernelM Keyboard Unit) console.keyboard = .ok () keyboard' :=
    (Machine.bind_of_ok (Machine.modify_run _ _)).trans run
  refine ⟨_, onKeyboard_of_ok whole, ⟨?_, queue, h.object, ?_, h.shows⟩, handled⟩
  · change keyboard'.pushed = _
    rw [handled.pushed, h.pushed, List.append_assoc]
  · have before := h.before
    change Before { console with keyboard := keyboard' } taken _ console.place
    cases place : console.place with
    | hasEvent =>
        rw [place] at before
        exact before
    | getEvent =>
        rw [place] at before
        exact ⟨List.append_ne_nil_of_left_ne_nil before.1 _, before.2⟩
    | pop =>
        rw [place] at before
        exact ⟨List.append_ne_nil_of_left_ne_nil before.1 _, before.2⟩
    | copy source done =>
        rw [place] at before
        obtain ⟨event, rest, rfl, le, source_eq, copied, written⟩ := before
        refine ⟨event, _, List.cons_append, le, ?_, copied, written⟩
        change source = (keyboard'.buffer.tail * keyboard'.buffer.elementSize).toNat
        rw [tail, size, source_eq]
    | advance =>
        rw [place] at before
        obtain ⟨event, rest, rfl, copied, written⟩ := before
        exact ⟨event, _, List.cons_append, copied, written⟩
    | pressed =>
        rw [place] at before
        exact before
    | convert =>
        rw [place] at before
        exact before
    | write ascii =>
        rw [place] at before
        exact before

/-! ## The statements are the loop -/

/-- Statements one after another. -/
theorem statements_add {m n : ℕ} {console₁ : Console}
    {r : EStateM.Result Fault Console Unit}
    (first : (List.replicate m ConsoleAction.statement).forM ConsoleAction.perform console =
      .ok () console₁)
    (rest : (List.replicate n ConsoleAction.statement).forM ConsoleAction.perform console₁ = r) :
    (List.replicate (m + n) ConsoleAction.statement).forM ConsoleAction.perform console = r := by
  have append : (List.replicate (m + n) ConsoleAction.statement).forM ConsoleAction.perform = (do
      (List.replicate m ConsoleAction.statement).forM ConsoleAction.perform
      (List.replicate n ConsoleAction.statement).forM ConsoleAction.perform) := by
    rw [List.replicate_add]
    exact List.forM_append
  rw [append, Machine.bind_of_ok first, rest]

theorem statement_cons {n : ℕ} {console₁ : Console} {r : EStateM.Result Fault Console Unit}
    (first : mainStatement console = .ok () console₁)
    (rest : (List.replicate n ConsoleAction.statement).forM ConsoleAction.perform console₁ = r) :
    (List.replicate (n + 1) ConsoleAction.statement).forM ConsoleAction.perform console = r :=
  (Machine.bind_of_ok first).trans rest

/-- One more byte of a copy from the start of an object. -/
theorem overwrite_take_succ (object : ByteObject) {bytes : List UInt8} {done : ℕ}
    (inside : done < bytes.length) :
    (object.overwrite 0 (bytes.take done)).overwrite done [bytes[done]] =
      object.overwrite 0 (bytes.take (done + 1)) := by
  funext i
  simp only [ByteObject.overwrite, List.length_take, List.length_singleton, Nat.zero_le, true_and,
    Nat.zero_add, Nat.sub_zero]
  rcases Nat.lt_trichotomy i done with before | rfl | behind
  · rw [if_neg (by omega), if_pos (by omega), if_pos (by omega), List.getElem?_take_of_lt before,
      List.getElem?_take_of_lt (by omega)]
  · rw [if_pos (by omega), if_pos (by omega), Nat.sub_self, List.getElem?_take_of_lt (by omega),
      List.getElem?_eq_getElem inside]
    rfl
  · rw [if_neg (by omega), if_neg (by omega), if_neg (by omega)]

/-- The copy of an element, as far as it has come. -/
theorem statements_copy {bytes : List UInt8} {source done : ℕ}
    (place : console.place = .copy source 0)
    (size : console.keyboard.buffer.elementSize.toNat = bytes.length)
    (holds : console.keyboard.buffer.buffer.HoldsAt source bytes)
    (room : ∀ i < bytes.length, (console.event i).isSome) (le : done ≤ bytes.length) :
    (List.replicate done ConsoleAction.statement).forM ConsoleAction.perform console = .ok ()
      { console with
        event := console.event.overwrite 0 (bytes.take done)
        place := .copy source done } := by
  induction done with
  | zero =>
      have same : console.event.overwrite 0 (bytes.take 0) = console.event :=
        funext fun i => if_neg (Nat.not_lt_zero i ∘ And.right)
      rw [same, ← place]
      rfl
  | succ done ih =>
      have more : done < bytes.length := le
      refine statements_add (ih more.le) ?_
      have here : (console.event.overwrite 0 (bytes.take done) done).isSome := by
        rw [ByteObject.overwrite, if_neg (by rw [List.length_take]; omega)]
        exact room done more
      have copied := @copyEventByte_ok
        { console with
          event := console.event.overwrite 0 (bytes.take done)
          place := .copy source done } _ _ _ holds more here
      refine statement_cons ?_ rfl
      unfold mainStatement
      rw [Machine.bind_of_ok (Machine.get_run _)]
      simp only [size]
      rw [if_pos more, Machine.bind_of_ok copied]
      simp only [overwrite_take_succ]
      rfl

/-- The statements up to the move of `tail` are `keyboard_get_event`. -/
theorem statements_getEvent {event : KeyboardEvent} {rest : List (List UInt8)}
    (queue : console.keyboard.Queue (event.bytes :: rest))
    (object : ∀ i < sizeofKeyboardEvent.toNat, (console.event i).isSome)
    (place : console.place = .getEvent) :
    (List.replicate 20 ConsoleAction.statement).forM ConsoleAction.perform console = .ok ()
      { console with
        keyboard := { console.keyboard with buffer := console.keyboard.buffer.advanceTail }
        event := console.event.overwrite 0 event.bytes
        place := .pressed } := by
  have size : console.keyboard.buffer.elementSize.toNat = event.bytes.length := by
    rw [queue.elementSize]
    rfl
  have tested := onKeyboard_hasEvent queue
  have some_ : cyclicBufferIsEmpty (some console.keyboard.buffer) = false := queue.isEmpty_cons
  have first : mainStatement console = .ok () { console with place := .pop } := by
    unfold mainStatement
    rw [Machine.bind_of_ok (Machine.get_run _)]
    simp only [place]
    rw [Machine.bind_of_ok tested]
    rfl
  have second : mainStatement { console with place := .pop } = .ok () { console with
      place := .copy (console.keyboard.buffer.tail *
        console.keyboard.buffer.elementSize).toNat 0 } := by
    unfold mainStatement
    rw [Machine.bind_of_ok (Machine.get_run _)]
    simp only [some_, Bool.false_eq_true, if_false]
    rfl
  have copied := @statements_copy
    { console with
      place := .copy (console.keyboard.buffer.tail *
        console.keyboard.buffer.elementSize).toNat 0 } _ _ _ rfl size (front_holdsAt queue)
    object le_rfl
  rw [List.take_length] at copied
  have last : ∀ source, mainStatement { console with
      event := console.event.overwrite 0 event.bytes
      place := .copy source event.bytes.length } = .ok () { console with
        event := console.event.overwrite 0 event.bytes
        place := .advance } := by
    intro source
    unfold mainStatement
    rw [Machine.bind_of_ok (Machine.get_run _)]
    simp only [size, Nat.lt_irrefl, if_false]
    rfl
  exact statement_cons first (statement_cons second (statements_add (m := 16) (n := 2) copied
    (statement_cons (last _) (statement_cons rfl rfl))))

/-- The statements behind `keyboard_get_event` are the rest of the loop. -/
theorem statements_typeEvent {event : KeyboardEvent} (holds : console.event.HoldsAt 0 event.bytes)
    (shows : console.vga.Shows d) (place : console.place = .pressed) :
    ∃ n, (List.replicate n ConsoleAction.statement).forM ConsoleAction.perform console =
      typeEvent console.event { console with place := .hasEvent } := by
  have tested : mainStatement console =
      .ok () { console with place := if event.isPressed then .convert else .hasEvent } := by
    unfold mainStatement
    rw [Machine.bind_of_ok (Machine.get_run _)]
    simp only [place]
    rw [KeyboardEvent.boolAt holds 8 event.isPressed rfl, pure_bind]
    rfl
  unfold typeEvent
  rw [KeyboardEvent.boolAt holds 8 event.isPressed rfl, pure_bind]
  cases down : event.isPressed with
  | false =>
      rw [down] at tested
      exact ⟨1, statement_cons tested rfl⟩
  | true =>
      rw [down] at tested
      obtain ⟨other, conversion⟩ :=
        KeyboardEvent.keyboardScancodeToAscii_eq holds (σ := Console) 0
      have converted : mainStatement { console with place := .convert } = .ok ()
          { console with
            place := if event.ascii?.isSome then .write (event.ascii?.getD other)
              else .hasEvent } := by
        unfold mainStatement
        rw [Machine.bind_of_ok (Machine.get_run _)]
        simp only
        rw [conversion, pure_bind]
        rfl
      simp only [Bool.not_true, Bool.false_eq_true, if_false]
      rw [conversion, pure_bind]
      cases character : event.ascii? with
      | none =>
          rw [character] at converted
          exact ⟨2, statement_cons tested (statement_cons converted rfl)⟩
      | some ascii =>
          rw [character] at converted
          obtain ⟨vga', run, -⟩ := writeGreen_ok shows ascii
          have output : ∀ place, onVga (writeGreen ascii) { console with place := place } =
              .ok () { console with place := place, vga := vga' } :=
            fun place => Machine.zoom_of_ok rfl run
          have written : mainStatement { console with place := .write ascii } = .ok ()
              { console with
                place := .hasEvent
                vga := vga'
                written := console.written ++ [ascii] } := by
            unfold mainStatement
            rw [Machine.bind_of_ok (Machine.get_run _)]
            simp only
            rw [Machine.bind_of_ok (output _)]
            rfl
          refine ⟨3, statement_cons tested (statement_cons converted
            (statement_cons written ?_))⟩
          simp only [Option.isSome_some, Option.getD_some, Bool.not_true, Bool.false_eq_true,
            if_false]
          rw [Machine.bind_of_ok (output _)]
          rfl

/-- Without interrupts the statements do what a turn of the loop does. -/
theorem Follows.turn (h : console.Follows d taken queued) (place : console.place = .hasEvent) :
    ∃ n, (List.replicate n ConsoleAction.statement).forM ConsoleAction.perform console =
      mainTurn console := by
  have tested := onKeyboard_hasEvent h.queue
  unfold mainTurn
  rw [Machine.bind_of_ok tested]
  cases queued with
  | nil => exact ⟨0, rfl⟩
  | cons event rest =>
      have first : mainStatement console = .ok () { console with place := .getEvent } := by
        unfold mainStatement
        rw [Machine.bind_of_ok (Machine.get_run _)]
        simp only [place]
        rw [Machine.bind_of_ok tested]
        rfl
      have got := @statements_getEvent { console with place := .getEvent } event _ h.queue h.object
        rfl
      have popped := onKeyboard_of_ok (h.queue.getEvent h.object)
      have holds : (console.event.overwrite 0 event.bytes).HoldsAt 0 event.bytes := by
        intro i hi
        rw [ByteObject.overwrite, if_pos (by omega), Nat.zero_add, Nat.sub_zero]
      obtain ⟨n, last⟩ := @statements_typeEvent
        { console with
          keyboard := { console.keyboard with buffer := console.keyboard.buffer.advanceTail }
          event := console.event.overwrite 0 event.bytes
          place := .pressed } _ event holds h.shows rfl
      refine ⟨20 + n + 1, (statement_cons first (statements_add got last)).trans ?_⟩
      simp only [List.map_cons, List.isEmpty_cons, Bool.not_false, Bool.not_true,
        Bool.false_eq_true, if_false]
      rw [Machine.bind_of_ok (Machine.get_run _), Machine.bind_of_ok popped,
        Machine.bind_of_ok (Machine.modify_run _ _), ← place]

end Console

end ArkoiOs
