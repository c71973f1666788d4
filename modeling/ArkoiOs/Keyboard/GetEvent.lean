import Mathlib.Logic.Relation
import ArkoiOs.Keyboard.Handler

/-!
# Reading an event between interrupts

`keyboard_get_event` tests for an event, tests again inside
`cyclic_buffer_pop`, copies the element at `tail` and moves `tail`.  Interrupts
may push between any two of these statements.  A push into a full buffer moves
`tail` as well, so an overflow between the copy and the move of `tail` makes the
read skip an event.
-/

namespace ArkoiOs

/-- The interrupt handler pushes the events, one after another. -/
def pushEvents (events : List KeyboardEvent) : KernelM Keyboard Unit :=
  events.forM fun event => do
    let _ ← onBuffer (cyclicBufferPush (some (.ofBytes event.bytes)))
    pure ()

/-- `keyboard_get_event`, statement by statement, with the events pushed between
each statement and the next. -/
def keyboardGetEventInterrupted (afterHasEvent afterIsEmpty afterCopy : List KeyboardEvent)
    (event : ByteObject) : KernelM Keyboard (Bool × ByteObject) := do
  let hasEvent ← keyboardHasEvent
  if !hasEvent then pure (false, event)
  else do
    pushEvents afterHasEvent
    let keyboard ← get
    -- the result of `cyclic_buffer_pop` is not looked at
    if cyclicBufferIsEmpty (some keyboard.buffer) then pure (true, event)
    else do
      pushEvents afterIsEmpty
      let keyboard ← get
      let event ← keyboard.buffer.copyTail event
      pushEvents afterCopy
      modify fun keyboard => { keyboard with buffer := keyboard.buffer.advanceTail }
      pure (true, event)

/-! ## Reachable states -/

/-- One interrupt, with bytes that arrived at the controller, or one read of an
event into an object of its size, itself interrupted. -/
inductive KeyboardStep : Keyboard → Keyboard → Prop
  | interrupt {keyboard keyboard' : Keyboard} {bytes : List UInt8} :
      keyboardHandler { keyboard with port := keyboard.port ++ bytes } = .ok () keyboard' →
      KeyboardStep keyboard keyboard'
  | getEvent {keyboard keyboard' : Keyboard}
      {afterHasEvent afterIsEmpty afterCopy : List KeyboardEvent} {event : ByteObject}
      {result : Bool × ByteObject} : (∀ i < sizeofKeyboardEvent.toNat, (event i).isSome) →
      keyboardGetEventInterrupted afterHasEvent afterIsEmpty afterCopy event keyboard =
        .ok result keyboard' →
      KeyboardStep keyboard keyboard'

/-- States a run leads to after `keyboard_init`. -/
def KeyboardReachable (keyboard : Keyboard) : Prop :=
  ∃ start, keyboardInit Keyboard.boot = .ok () start ∧
    Relation.ReflTransGen KeyboardStep start keyboard

/-! ## What the statements do -/

namespace Keyboard

variable {keyboard : Keyboard} {q rest : List (List UInt8)} {front : List UInt8}

namespace Queue

theorem pushEvents (h : keyboard.Queue q) (events : List KeyboardEvent) :
    ∃ keyboard', ArkoiOs.pushEvents events keyboard = .ok () keyboard' ∧
      keyboard'.Queue ((q ++ events.map KeyboardEvent.bytes).rtake bound) := by
  rw [← BoundedQueue.foldl_push h.length_le]
  induction events generalizing keyboard q with
  | nil => exact ⟨keyboard, rfl, h⟩
  | cons event events ih =>
      obtain ⟨buffer, first, pushed⟩ := h.push event
      obtain ⟨keyboard', others, h'⟩ := ih pushed
      rw [List.map_cons, List.foldl_cons]
      refine ⟨keyboard', ?_, h'⟩
      have step : (do
          let _ ← onBuffer (cyclicBufferPush (some (.ofBytes event.bytes)))
          pure () : KernelM Keyboard Unit) keyboard = .ok () { keyboard with buffer := buffer } :=
        (Machine.bind_of_ok first).trans rfl
      exact (Machine.bind_of_ok step).trans others

/-- Without its front the queue starts one slot later. -/
theorem drop_front (h : keyboard.Queue (front :: rest)) :
    Queue { keyboard with buffer := keyboard.buffer.advanceTail } rest :=
  ⟨h.represents.drop_front, h.capacity, h.elementSize⟩

variable {event : ByteObject}

theorem copyTail {σ : Type} (h : keyboard.Queue (front :: rest))
    (room : ∀ i < sizeofKeyboardEvent.toNat, (event i).isSome) :
    (keyboard.buffer.copyTail event : KernelM σ ByteObject) = pure (event.overwrite 0 front) :=
  h.represents.copyTail (by rw [h.elementSize]; exact room)

/-- `keyboard_get_event` alone returns the front of the queue. -/
theorem getEvent (h : keyboard.Queue (front :: rest))
    (room : ∀ i < sizeofKeyboardEvent.toNat, (event i).isSome) :
    keyboardGetEvent event keyboard = .ok (true, event.overwrite 0 front)
      { keyboard with buffer := keyboard.buffer.advanceTail } := by
  have popped : onBuffer (cyclicBufferPop (some event)) keyboard =
      .ok (true, some (event.overwrite 0 front))
        { keyboard with buffer := keyboard.buffer.advanceTail } :=
    onBuffer_of_ok (h.represents.pop_cons (by rw [h.elementSize]; exact room))
  have hasEvent : keyboardHasEvent keyboard = .ok true keyboard := by
    unfold keyboardHasEvent
    rw [Machine.bind_of_ok (Machine.get_run _), h.isEmpty_cons]
    rfl
  unfold keyboardGetEvent
  rw [Machine.bind_of_ok hasEvent]
  simp only [Bool.not_true, Bool.false_eq_true, if_false]
  rw [Machine.bind_of_ok popped]
  rfl

/-- An empty buffer has no event. -/
theorem getEvent_nil (h : keyboard.Queue []) (event : ByteObject) :
    keyboardGetEvent event keyboard = .ok (false, event) keyboard := by
  unfold keyboardGetEvent keyboardHasEvent
  rw [Machine.bind_run, Machine.bind_of_ok (Machine.get_run _), h.isEmpty_iff.2 rfl]
  rfl

theorem getEventInterrupted_nil (h : keyboard.Queue [])
    (afterHasEvent afterIsEmpty afterCopy : List KeyboardEvent) (event : ByteObject) :
    keyboardGetEventInterrupted afterHasEvent afterIsEmpty afterCopy event keyboard =
      .ok (false, event) keyboard := by
  unfold keyboardGetEventInterrupted keyboardHasEvent
  rw [Machine.bind_run, Machine.bind_of_ok (Machine.get_run _), h.isEmpty_iff.2 rfl]
  rfl

/-- Pushes leave a front. -/
theorem exists_front (nonempty : q ≠ []) (events : List KeyboardEvent) :
    ∃ front rest, (q ++ events.map KeyboardEvent.bytes).rtake bound = front :: rest :=
  List.exists_cons_of_ne_nil (BoundedQueue.rtake_append_ne_nil (Nat.succ_pos 254) nonempty _)

/-- The interrupted read copies the front there is after the pushes before the
copy, and drops the front there is after all of them. -/
theorem getEventInterrupted (h : keyboard.Queue q) (nonempty : q ≠ [])
    (room : ∀ i < sizeofKeyboardEvent.toNat, (event i).isSome)
    (afterHasEvent afterIsEmpty afterCopy : List KeyboardEvent) :
    ∃ front keyboard', ((q ++ (afterHasEvent ++ afterIsEmpty).map
          KeyboardEvent.bytes).rtake bound).head? = some front ∧
      keyboardGetEventInterrupted afterHasEvent afterIsEmpty afterCopy event keyboard =
        .ok (true, event.overwrite 0 front) keyboard' ∧
      keyboard'.Queue (((q ++ ((afterHasEvent ++ afterIsEmpty).map KeyboardEvent.bytes ++
        afterCopy.map KeyboardEvent.bytes)).rtake bound).drop 1) := by
  have hasEvent : keyboardHasEvent keyboard = .ok true keyboard := by
    unfold keyboardHasEvent
    rw [Machine.bind_of_ok (Machine.get_run _),
      Bool.not_eq_true _ |>.mp (mt h.isEmpty_iff.1 nonempty)]
    rfl
  obtain ⟨k₁, push₁, h₁⟩ := h.pushEvents afterHasEvent
  obtain ⟨front₁, rest₁, queue₁⟩ := exists_front nonempty afterHasEvent
  have notEmpty : cyclicBufferIsEmpty (some k₁.buffer) = false := by
    rw [queue₁] at h₁
    exact h₁.isEmpty_cons
  obtain ⟨k₂, push₂, h₂⟩ := h₁.pushEvents afterIsEmpty
  rw [BoundedQueue.rtake_rtake_append, List.append_assoc, ← List.map_append] at h₂
  obtain ⟨front, rest, queue₂⟩ := exists_front nonempty (afterHasEvent ++ afterIsEmpty)
  obtain ⟨k₃, push₃, h₃⟩ := h₂.pushEvents afterCopy
  rw [BoundedQueue.rtake_rtake_append, List.append_assoc] at h₃
  obtain ⟨front₃, rest₃, queue₃⟩ := exists_front nonempty
    (afterHasEvent ++ afterIsEmpty ++ afterCopy)
  rw [List.map_append] at queue₃
  rw [queue₂] at h₂
  rw [queue₃] at h₃
  refine ⟨front, { k₃ with buffer := k₃.buffer.advanceTail }, by rw [queue₂]; rfl, ?_, ?_⟩
  · unfold keyboardGetEventInterrupted
    rw [Machine.bind_of_ok hasEvent]
    simp only [Bool.not_true, Bool.false_eq_true, if_false]
    rw [Machine.bind_of_ok push₁, Machine.bind_of_ok (Machine.get_run _)]
    simp only [notEmpty, Bool.false_eq_true, if_false]
    rw [Machine.bind_of_ok push₂, Machine.bind_of_ok (Machine.get_run _), h₂.copyTail room]
    exact (Machine.bind_of_ok push₃).trans rfl
  · rw [queue₃]
    exact h₃.drop_front

/-- A read before the pushes `later` and after the pushes `earlier`. -/
theorem getEvent_between (h : keyboard.Queue q) (nonempty : q ≠ [])
    (room : ∀ i < sizeofKeyboardEvent.toNat, (event i).isSome)
    (earlier later : List KeyboardEvent) :
    ∃ front keyboard', ((q ++ earlier.map KeyboardEvent.bytes).rtake bound).head? = some front ∧
      (do
        ArkoiOs.pushEvents earlier
        let result ← keyboardGetEvent event
        ArkoiOs.pushEvents later
        pure result) keyboard = .ok (true, event.overwrite 0 front) keyboard' ∧
      keyboard'.Queue ((((q ++ earlier.map KeyboardEvent.bytes).rtake bound).drop 1 ++
        later.map KeyboardEvent.bytes).rtake bound) := by
  obtain ⟨k₁, push₁, h₁⟩ := h.pushEvents earlier
  obtain ⟨front, rest, queue₁⟩ := exists_front nonempty earlier
  rw [queue₁] at h₁
  obtain ⟨k₂, push₂, h₂⟩ := h₁.drop_front.pushEvents later
  refine ⟨front, k₂, by rw [queue₁]; rfl, ?_, by rw [queue₁]; exact h₂⟩
  rw [Machine.bind_of_ok push₁, Machine.bind_of_ok (h₁.getEvent room)]
  exact (Machine.bind_of_ok push₂).trans rfl

/-- What comes to the front has the size of an event. -/
theorem width_of_head (h : keyboard.Queue q) {events : List KeyboardEvent}
    (head : ((q ++ events.map KeyboardEvent.bytes).rtake bound).head? = some front) :
    front.length = sizeofKeyboardEvent.toNat := by
  obtain ⟨keyboard', -, h'⟩ := h.pushEvents events
  have width := h'.represents.widths front (List.mem_of_mem_head? head)
  rwa [h'.elementSize] at width

end Queue

end Keyboard

/-! ## Reachable states hold a queue -/

theorem KeyboardStep.queue {keyboard keyboard' : Keyboard} (step : KeyboardStep keyboard keyboard')
    (h : ∃ q, keyboard.Queue q) : ∃ q, keyboard'.Queue q := by
  rcases h with ⟨q, h⟩
  cases step with
  | @interrupt bytes run =>
      have ready : Keyboard.Queue { keyboard with port := keyboard.port ++ bytes } q := h.congr rfl
      obtain ⟨k, run', handled⟩ := keyboardHandler_ok ready
      cases run'.symm.trans run
      exact ⟨_, handled.queue⟩
  | getEvent room run =>
      rcases eq_or_ne q [] with rfl | nonempty
      · rw [h.getEventInterrupted_nil] at run
        cases run
        exact ⟨[], h⟩
      · obtain ⟨front, k, -, run', h'⟩ := h.getEventInterrupted nonempty room _ _ _
        cases run'.symm.trans run
        exact ⟨_, h'⟩

theorem KeyboardReachable.queue {keyboard : Keyboard} (h : KeyboardReachable keyboard) :
    ∃ q, keyboard.Queue q := by
  rcases h with ⟨start, init, run⟩
  obtain ⟨k, init', empty, -⟩ := keyboardInit_ok
  cases init'.symm.trans init
  exact run.invariant_of_step (P := fun k => ∃ q, Keyboard.Queue k q) ⟨[], empty⟩
    fun _ _ h step => step.queue h

/-! ## Atomicity -/

/-- The pushes that take place: none when there is no event to read, since then
the first test ends the call. -/
def pushesDuring (keyboard : Keyboard) (events : List KeyboardEvent) : List KeyboardEvent :=
  if keyboard.buffer.contents = [] then [] else events

/-- The interrupted read returns what the whole read returns between two of the
pushes, and leaves the same queue. -/
def GetEventAtomic (keyboard : Keyboard) (afterHasEvent afterIsEmpty afterCopy : List KeyboardEvent)
    (event : ByteObject) : Prop :=
  ∃ earlier later result keyboard₁ keyboard₂,
    pushesDuring keyboard (afterHasEvent ++ afterIsEmpty ++ afterCopy) = earlier ++ later ∧
    keyboardGetEventInterrupted afterHasEvent afterIsEmpty afterCopy event keyboard =
      .ok result keyboard₁ ∧
    (do
      pushEvents earlier
      let result ← keyboardGetEvent event
      pushEvents later
      pure result) keyboard = .ok result keyboard₂ ∧
    keyboard₁.buffer.contents = keyboard₂.buffer.contents

/-- The queue after pushes. -/
def queueAfter (keyboard : Keyboard) (events : List KeyboardEvent) : List (List UInt8) :=
  (keyboard.buffer.contents ++ events.map KeyboardEvent.bytes).rtake Keyboard.bound

/-- Atomicity for a queue: the sequential orders of the bytes are those of the
calls. -/
theorem Keyboard.Queue.atomic_iff {keyboard : Keyboard} {q : List (List UInt8)}
    (queue : keyboard.Queue q) (nonempty : q ≠ [])
    (afterHasEvent afterIsEmpty afterCopy : List KeyboardEvent) {event : ByteObject}
    (room : ∀ i < sizeofKeyboardEvent.toNat, (event i).isSome) :
    GetEventAtomic keyboard afterHasEvent afterIsEmpty afterCopy event ↔
      (queueAfter keyboard (afterHasEvent ++ afterIsEmpty)).length + afterCopy.length ≤
        Keyboard.bound ∨
      (queueAfter keyboard (afterHasEvent ++ afterIsEmpty ++ afterCopy)).head? =
        (queueAfter keyboard (afterHasEvent ++ afterIsEmpty)).head? := by
  unfold GetEventAtomic pushesDuring queueAfter
  rw [queue.represents.contents_eq, if_neg nonempty]
  obtain ⟨front, k₁, copied, run₁, queue₁⟩ :=
    queue.getEventInterrupted nonempty room afterHasEvent afterIsEmpty afterCopy
  have order : BoundedQueue.Sequential bound q ((afterHasEvent ++ afterIsEmpty).map
      KeyboardEvent.bytes ++ afterCopy.map KeyboardEvent.bytes) front _ ↔ _ :=
    BoundedQueue.sequential_iff queue.length_le copied
  rw [List.length_map, ← List.map_append] at order
  rw [← List.map_append] at queue₁
  rw [copied, ← order]
  constructor
  · rintro ⟨earlier, later, result, k₁', k₂, pushes, run, whole, same⟩
    cases run₁.symm.trans run
    obtain ⟨front', k₂', first, whole', queue₂⟩ :=
      queue.getEvent_between nonempty room earlier later
    injection whole'.symm.trans whole with value state
    subst state
    injection value with _ written
    -- the bytes that were read are those of one event
    have front_eq : front' = front :=
      ByteObject.overwrite_inj ((queue.width_of_head first).trans
        (queue.width_of_head copied).symm) written
    rw [queue₁.represents.contents_eq, queue₂.represents.contents_eq] at same
    rw [front_eq] at first
    exact ⟨earlier.map KeyboardEvent.bytes, later.map KeyboardEvent.bytes,
      by rw [pushes, List.map_append], first, same⟩
  · rintro ⟨earlierBytes, laterBytes, pushes, first, same⟩
    obtain ⟨earlier, later, split, rfl, rfl⟩ := List.map_eq_append_iff.1 pushes
    obtain ⟨front', k₂, first', whole, queue₂⟩ :=
      queue.getEvent_between nonempty room earlier later
    rw [first] at first'
    cases first'
    refine ⟨earlier, later, _, k₁, k₂, split, run₁, whole, ?_⟩
    rw [queue₁.represents.contents_eq, queue₂.represents.contents_eq, same]

/-- Reading an event is atomic if and only if there is none, or the pushes between
the copy and the move of `tail` fit into the buffer, or the event at the front
after them has the bytes of the one that was copied. -/
theorem KeyboardReachable.getEventAtomic_iff {keyboard : Keyboard}
    (h : KeyboardReachable keyboard)
    (afterHasEvent afterIsEmpty afterCopy : List KeyboardEvent) {event : ByteObject}
    (room : ∀ i < sizeofKeyboardEvent.toNat, (event i).isSome) :
    GetEventAtomic keyboard afterHasEvent afterIsEmpty afterCopy event ↔
      keyboard.buffer.contents = [] ∨
      (queueAfter keyboard (afterHasEvent ++ afterIsEmpty)).length + afterCopy.length ≤
        Keyboard.bound ∨
      (queueAfter keyboard (afterHasEvent ++ afterIsEmpty ++ afterCopy)).head? =
        (queueAfter keyboard (afterHasEvent ++ afterIsEmpty)).head? := by
  obtain ⟨q, queue⟩ := h.queue
  have contents := queue.represents.contents_eq
  rcases eq_or_ne q [] with rfl | nonempty
  · refine ⟨fun _ => Or.inl contents, fun _ => ⟨[], [], (false, event), keyboard, keyboard,
      if_pos contents, queue.getEventInterrupted_nil .., ?_, rfl⟩⟩
    exact (Machine.bind_of_ok (queue.getEvent_nil event)).trans rfl
  · rw [queue.atomic_iff nonempty afterHasEvent afterIsEmpty afterCopy room, contents,
      or_iff_right nonempty]

/-! ## A full buffer -/

/-- The bytes of one stroke and of `n` others. -/
def oneThen (n : ℕ) : List UInt8 := 0x1E :: List.replicate n 0x30

/-- Nothing is held. -/
def noModifiers : Modifiers := ⟨false, false, false, false⟩

/-- The oldest event of the full buffer. -/
def oldestEvent : KeyboardEvent := (strokeOf false 0x1E).event noModifiers

/-- Every other one. -/
def otherEvent : KeyboardEvent := (strokeOf false 0x30).event noModifiers

theorem strokes_replicate {byte : UInt8} (other : byte ≠ extendedScancodePrefix) (n : ℕ) :
    strokes false (List.replicate n byte) = List.replicate n (strokeOf false byte) := by
  induction n with
  | zero => rfl
  | succ n ih => rw [List.replicate_succ, strokes, if_neg other, ih, List.replicate_succ]

theorem driverEvents_replicate {modifiers : Modifiers} {stroke : Stroke}
    (same : modifiers.stroke stroke = modifiers) (n : ℕ) :
    driverEvents modifiers (List.replicate n stroke) =
      List.replicate n (stroke.event modifiers) := by
  induction n with
  | zero => rfl
  | succ n ih => rw [List.replicate_succ, driverEvents, same, ih, List.replicate_succ]

theorem driverEvents_oneThen (n : ℕ) :
    driverEvents noModifiers (strokes false (oneThen n)) =
      oldestEvent :: List.replicate n otherEvent := by
  rw [oneThen, strokes, if_neg (by decide), strokes_replicate (by decide), driverEvents]
  exact congrArg (List.cons oldestEvent) (driverEvents_replicate (by decide) n)

/-- The buffer can be full. -/
theorem fullBuffer_reachable : ∃ keyboard, KeyboardReachable keyboard ∧
    keyboard.Queue (oldestEvent.bytes :: List.replicate 254 otherEvent.bytes) := by
  obtain ⟨start, init, empty, port, pending, modifiers, -⟩ := keyboardInit_ok
  have ready : Keyboard.Queue { start with port := start.port ++ oneThen 254 } [] :=
    empty.congr rfl
  obtain ⟨keyboard, run, handled⟩ := keyboardHandler_ok ready
  refine ⟨keyboard, ⟨start, init, .single (.interrupt run)⟩, ?_⟩
  have no_prefix : extendedScancodePrefix ∉ oneThen 254 := by
    intro mem
    rcases List.mem_cons.1 mem with first | others
    · exact absurd first (by decide)
    · exact absurd (List.eq_of_mem_replicate others) (by decide)
  have all : portRead (start.port ++ oneThen 254) = oneThen 254 := by
    rw [port, List.nil_append, portRead_of_not_mem no_prefix]
  have queue := handled.queue
  simp only [pending, modifiers, all] at queue
  have events := driverEvents_oneThen 254
  unfold noModifiers at events
  rw [events, List.nil_append, List.map_cons, List.map_replicate, BoundedQueue.rtake_of_le] at queue
  · exact queue
  · rw [List.length_cons, List.length_replicate]

/-- The bytes of an event as an object. -/
def eventObject : ByteObject := .ofBytes (List.replicate sizeofKeyboardEvent.toNat 0)

theorem eventObject_room : ∀ i < sizeofKeyboardEvent.toNat, (eventObject i).isSome := by
  decide

/-- With the buffer full and one interrupt between the copy and the move of
`tail`, the read returns the oldest event and skips the one after it. -/
theorem fullBuffer_not_atomic : ∃ keyboard, KeyboardReachable keyboard ∧
    ¬GetEventAtomic keyboard [] [] [otherEvent] eventObject := by
  obtain ⟨keyboard, reachable, queue⟩ := fullBuffer_reachable
  refine ⟨keyboard, reachable, fun atomic => ?_⟩
  have full : (oldestEvent.bytes :: List.replicate 254 otherEvent.bytes).length =
      Keyboard.bound := by
    rw [List.length_cons, List.length_replicate]
  have before : queueAfter keyboard [] =
      oldestEvent.bytes :: List.replicate 254 otherEvent.bytes := by
    rw [queueAfter, queue.represents.contents_eq, List.map_nil, List.append_nil,
      BoundedQueue.rtake_of_le full.le]
  have after : queueAfter keyboard [otherEvent] =
      List.replicate 254 otherEvent.bytes ++ [otherEvent.bytes] := by
    rw [queueAfter, queue.represents.contents_eq]
    exact BoundedQueue.push_of_full full otherEvent.bytes
  rcases (queue.atomic_iff (List.cons_ne_nil _ _) [] [] [otherEvent] eventObject_room).1 atomic with
    room | unchanged
  · rw [List.append_nil, before, full] at room
    exact absurd room (by decide)
  · rw [List.append_nil, List.nil_append, after, before, List.replicate_succ] at unchanged
    have same : otherEvent.bytes = oldestEvent.bytes := Option.some.inj unchanged
    exact absurd same (by decide)

/-- The condition decides the read from the full buffer. -/
theorem fullBuffer_getEventAtomic_iff : ∃ keyboard, KeyboardReachable keyboard ∧
    keyboard.buffer.contents = oldestEvent.bytes :: List.replicate 254 otherEvent.bytes ∧
    (GetEventAtomic keyboard [] [] [otherEvent] eventObject ↔
      keyboard.buffer.contents = [] ∨
      (queueAfter keyboard []).length + 1 ≤ Keyboard.bound ∨
      (queueAfter keyboard [otherEvent]).head? = (queueAfter keyboard []).head?) := by
  obtain ⟨keyboard, reachable, queue⟩ := fullBuffer_reachable
  exact ⟨keyboard, reachable, queue.represents.contents_eq,
    reachable.getEventAtomic_iff [] [] [otherEvent] eventObject_room⟩

end ArkoiOs
