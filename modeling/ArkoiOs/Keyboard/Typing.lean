import ArkoiOs.Keyboard.Statements

/-!
# Typing on the screen

A run of the loop with interrupts anywhere in it.  What the loop has written is
always the start of what the bytes read from the keyboard type, and all of it once
the loop waits; without interrupts it soon does.
-/

namespace ArkoiOs

namespace Console

variable {console console' : Console} {taken queued : List KeyboardEvent} {d : Document}

/-! ## Runs -/

variable {read : List UInt8}

theorem HasRead.congr_buffer {keyboard : Keyboard} (h : keyboard.HasRead read)
    (buffer : CyclicBuffer) : Keyboard.HasRead { keyboard with buffer := buffer } read :=
  ⟨h.pending, h.modifiers, h.pushed⟩

/-- What the handler reads comes behind what it has read. -/
theorem HasRead.handled {keyboard keyboard' : Keyboard} {q : List (List UInt8)}
    {more : List UInt8} (h : keyboard.HasRead read) (handled : Handled keyboard keyboard' q more) :
    keyboard'.HasRead (read ++ more) where
  pending := by rw [handled.pending, h.pending, pendingAfter_append]
  modifiers := by
    rw [handled.modifiers, h.modifiers, h.pending, strokes_append, List.foldl_append]
  pushed := by
    rw [handled.pushed, h.pushed, h.modifiers, h.pending, strokes_append, driverEvents_append]

/-- A run keeps what the loop does, and no byte is lost. -/
theorem Follows.actions {actions : List ConsoleAction} (h : console.Follows d taken queued)
    (bytes : console.keyboard.HasRead read) (room : InterruptsFindRoom actions console) :
    ∃ console' taken' queued' more, actions.forM ConsoleAction.perform console = .ok () console' ∧
      console'.Follows d taken' queued' ∧ console'.keyboard.HasRead (read ++ more) ∧
      console.keyboard.port ++ actions.flatMap ConsoleAction.bytes =
        more ++ console'.keyboard.port := by
  induction actions generalizing console taken queued read with
  | nil =>
      refine ⟨console, taken, queued, [], rfl, h, ?_, List.append_nil _⟩
      rw [List.append_nil]
      exact bytes
  | cons action actions ih =>
      cases action with
      | statement =>
          obtain ⟨console₁, taken₁, queued₁, run, goes⟩ := h.statement
          obtain ⟨buffer, keyboard⟩ := goes.keyboard
          have bytes₁ : console₁.keyboard.HasRead read := by
            rw [keyboard]
            exact HasRead.congr_buffer bytes buffer
          have port : console₁.keyboard.port = console.keyboard.port := by rw [keyboard]
          obtain ⟨console', taken', queued', more, rest, h', bytes', arrived⟩ :=
            ih goes.follows bytes₁ (room console₁ run)
          refine ⟨console', taken', queued', more, ?_, h', bytes', ?_⟩
          · exact (Machine.bind_of_ok run).trans rest
          · rw [← arrived, port]
            rfl
      | interrupt arriving =>
          obtain ⟨console₁, run, h₁, handled⟩ := h.interrupt room.1
          have noted : Keyboard.HasRead
              { console.keyboard with port := console.keyboard.port ++ arriving } read :=
            ⟨bytes.pending, bytes.modifiers, bytes.pushed⟩
          have bytes₁ : console₁.keyboard.HasRead
              (read ++ portRead (console.keyboard.port ++ arriving)) :=
            HasRead.handled noted handled
          obtain ⟨console', taken', queued', more, rest, h', bytes', arrived⟩ :=
            ih h₁ bytes₁ (room.2 console₁ run)
          refine ⟨console', taken', queued',
            portRead (console.keyboard.port ++ arriving) ++ more, ?_, h', ?_, ?_⟩
          · exact (Machine.bind_of_ok run).trans rest
          · rw [← List.append_assoc]
            exact bytes'
          · have port : console.keyboard.port ++ arriving =
                portRead (console.keyboard.port ++ arriving) ++ console₁.keyboard.port :=
              handled.port
            calc
              _ = console.keyboard.port ++ arriving ++ actions.flatMap ConsoleAction.bytes :=
                (List.append_assoc _ _ _).symm
              _ = _ ++ (console₁.keyboard.port ++ actions.flatMap ConsoleAction.bytes) :=
                (congrArg (· ++ _) port).trans (List.append_assoc _ _ _)
              _ = _ := (congrArg (_ ++ ·) arrived).trans (List.append_assoc _ _ _).symm

/-- What was written is what the first of the taken events type. -/
theorem Before.written {place : MainPlace} (h : console.Before taken queued place) :
    ∃ earlier, earlier <+: taken ∧ console.written = textOf earlier := by
  cases place with
  | hasEvent => exact ⟨taken, List.prefix_refl _, h⟩
  | getEvent => exact ⟨taken, List.prefix_refl _, h.2⟩
  | pop => exact ⟨taken, List.prefix_refl _, h.2⟩
  | copy source done =>
      obtain ⟨event, rest, -, -, -, -, written⟩ := h
      exact ⟨taken, List.prefix_refl _, written⟩
  | advance =>
      obtain ⟨event, rest, -, -, written⟩ := h
      exact ⟨taken, List.prefix_refl _, written⟩
  | pressed =>
      obtain ⟨earlier, event, rfl, -, written⟩ := h
      exact ⟨earlier, List.prefix_append _ _, written⟩
  | convert =>
      obtain ⟨earlier, event, rfl, -, -, written⟩ := h
      exact ⟨earlier, List.prefix_append _ _, written⟩
  | write ascii =>
      obtain ⟨earlier, event, rfl, -, written⟩ := h
      exact ⟨earlier, List.prefix_append _ _, written⟩

theorem Follows.written_prefix (h : console.Follows d taken queued) :
    console.written <+: textOf console.keyboard.pushed := by
  obtain ⟨earlier, ⟨others, rfl⟩, written⟩ := h.before.written
  rw [written, h.pushed, List.append_assoc, textOf, textOf, List.flatMap_append]
  exact List.prefix_append _ _

/-- A loop that waits has written all of it. -/
theorem Follows.written_eq (h : console.Follows d taken []) (place : console.place = .hasEvent) :
    console.written = textOf console.keyboard.pushed := by
  have before := h.before
  rw [place] at before
  rw [h.pushed, List.append_nil]
  exact before

/-- A loop that waits goes on waiting. -/
theorem Follows.stays (h : console.Follows d taken []) (place : console.place = .hasEvent)
    (statements : ℕ) : (List.replicate statements ConsoleAction.statement).forM
      ConsoleAction.perform console = .ok () console := by
  induction statements with
  | zero => rfl
  | succ statements ih => exact (Machine.bind_of_ok (h.waits place)).trans ih

/-- Without interrupts the loop soon waits. -/
theorem Follows.drains (h : console.Follows d taken queued) {statements : ℕ}
    (enough : console.work queued ≤ statements) :
    ∃ console' taken', (List.replicate statements ConsoleAction.statement).forM
        ConsoleAction.perform console = .ok () console' ∧
      console'.Follows d taken' [] ∧ console'.place = .hasEvent ∧
      ∃ buffer, console'.keyboard = { console.keyboard with buffer := buffer } := by
  induction statements generalizing console taken queued with
  | zero =>
      have length : queued = [] :=
        List.eq_nil_of_length_eq_zero (by unfold work at enough; omega)
      subst length
      have before := h.before
      have nothing : left console.place = 0 := by unfold work at enough; omega
      cases place : console.place with
      | copy source done =>
          rw [place] at before
          obtain ⟨event, rest, empty, -⟩ := before
          cases empty
      | _ =>
          rw [place] at nothing
          cases nothing
  | succ statements ih =>
      obtain ⟨console₁, taken₁, queued₁, run, goes⟩ := h.statement
      rcases goes.less with ⟨place, rfl, -⟩ | less
      · exact ⟨console, taken, h.stays place _, h, place, _, rfl⟩
      · obtain ⟨console', taken', rest, h', place, buffer, keyboard⟩ :=
          ih goes.follows (by omega)
        obtain ⟨buffer₁, keyboard₁⟩ := goes.keyboard
        rw [keyboard₁] at keyboard
        exact ⟨console', taken', (Machine.bind_of_ok run).trans rest, h', place, buffer, keyboard⟩

theorem Follows.work_le (h : console.Follows d taken queued) : console.work queued ≤ 7679 := by
  have short := h.queue.length_le
  rw [List.length_map] at short
  have most := left_le console.place
  unfold work
  change queued.length ≤ 255 at short
  omega

/-- Where the loop starts. -/
theorem start_follows {keyboard : Keyboard} {vga : Vga} {event : ByteObject}
    (init : keyboardInit Keyboard.boot = .ok () keyboard) (shows : vga.Shows d)
    (object : ∀ i < sizeofKeyboardEvent.toNat, (event i).isSome) :
    (start keyboard vga event).Follows d [] [] ∧ keyboard.HasRead [] ∧ keyboard.port = [] := by
  obtain ⟨k, init', queue, port, pending, modifiers, pushed⟩ := keyboardInit_ok
  cases init'.symm.trans init
  exact ⟨⟨pushed, queue, object, rfl, shows⟩, ⟨pending, modifiers, pushed⟩, port⟩

end Console

section Typing

variable {keyboard : Keyboard} {vga : Vga} {event : ByteObject} {d : Document}
  {actions : List ConsoleAction}

/-- Wherever interrupts come, the loop has written the start of what the bytes read so far
type, behind what was on the screen; a loop that waits has written all of it.  This needs
room in the ring buffer, since a full one drops events. -/
theorem mainLoop_writes_typed (init : keyboardInit Keyboard.boot = .ok () keyboard)
    (shows : vga.Shows d) (object : ∀ i < sizeofKeyboardEvent.toNat, (event i).isSome)
    (room : InterruptsFindRoom actions (.start keyboard vga event)) :
    ∃ console read, actions.forM ConsoleAction.perform (.start keyboard vga event) =
        .ok () console ∧
      actions.flatMap ConsoleAction.bytes = read ++ console.keyboard.port ∧
      console.written <+: typedText read ∧
      console.vga.Shows (console.written.foldl Document.write d) ∧
      (console.place = .hasEvent → console.keyboard.buffer.contents = [] →
        console.written = typedText read) := by
  obtain ⟨start, none, port⟩ := Console.start_follows init shows object
  obtain ⟨console, taken, queued, read, run, h, bytes, arrived⟩ := start.actions none room
  rw [List.nil_append] at bytes
  have written := h.written_prefix
  rw [bytes.pushed] at written
  refine ⟨console, read, run, ?_, written, h.shows, fun place empty => ?_⟩
  · rw [← arrived]
    exact (congrArg (· ++ _) port).symm
  · rw [h.queue.represents.contents_eq, List.map_eq_nil_iff] at empty
    subst empty
    rw [h.written_eq place, bytes.pushed]
    rfl

/-- Statements need no room. -/
theorem InterruptsFindRoom.statements (n : ℕ) (console : Console) :
    InterruptsFindRoom (List.replicate n .statement) console := by
  induction n generalizing console with
  | zero => trivial
  | succ n ih => exact fun console' _ => ih console'

/-- One interrupt that brings the make code of the key A, and then statements. -/
theorem keyA_room {keyboard : Keyboard} (queue : keyboard.Queue []) (port : keyboard.port = [])
    (vga : Vga) (event : ByteObject) (statements : ℕ) :
    InterruptsFindRoom (.interrupt [0x1E] :: List.replicate statements .statement)
      (.start keyboard vga event) := by
  refine ⟨?_, fun console _ => .statements statements console⟩
  unfold Console.RoomFor Console.start
  simp only
  rw [queue.represents.contents_eq, port]
  exact Nat.le_of_lt_succ (Nat.succ_lt_succ (Nat.succ_pos 254))

theorem keyA_writes_typed : ∃ keyboard vga d console read,
    keyboardInit Keyboard.boot = .ok () keyboard ∧
      (ConsoleAction.interrupt [0x1E] :: List.replicate 7679 .statement).forM
        ConsoleAction.perform (.start keyboard vga eventObject) = .ok () console ∧
      (ConsoleAction.interrupt [0x1E] :: List.replicate 7679 .statement).flatMap
        ConsoleAction.bytes = read ++ console.keyboard.port ∧
      console.written <+: typedText read ∧
      console.vga.Shows (console.written.foldl Document.write d) ∧
      (console.place = .hasEvent → console.keyboard.buffer.contents = [] →
        console.written = typedText read) := by
  obtain ⟨keyboard, init, queue, port, -⟩ := keyboardInit_ok
  obtain ⟨vga, -, shows⟩ := Vga.clear_shows ⟨fun _ => 0, 0, 0, 0, []⟩
  obtain ⟨console, read, run⟩ :=
    mainLoop_writes_typed init shows eventObject_room (keyA_room queue port vga eventObject 7679)
  exact ⟨keyboard, vga, _, console, read, init, run⟩

/-- Once interrupts stop, the loop writes all that was typed, as long as there was room for
it, and waits with an empty buffer; 7679 statements are enough. -/
theorem mainLoop_drains (init : keyboardInit Keyboard.boot = .ok () keyboard)
    (shows : vga.Shows d) (object : ∀ i < sizeofKeyboardEvent.toNat, (event i).isSome)
    (room : InterruptsFindRoom actions (.start keyboard vga event)) {statements : ℕ}
    (enough : 7679 ≤ statements) :
    ∃ console read, (actions ++ List.replicate statements ConsoleAction.statement).forM
        ConsoleAction.perform (.start keyboard vga event) = .ok () console ∧
      actions.flatMap ConsoleAction.bytes = read ++ console.keyboard.port ∧
      console.written = typedText read ∧
      console.vga.Shows (console.written.foldl Document.write d) ∧
      console.place = .hasEvent ∧ console.keyboard.buffer.contents = [] ∧
      ∀ more, (List.replicate more ConsoleAction.statement).forM ConsoleAction.perform console =
        .ok () console := by
  obtain ⟨start, none, port⟩ := Console.start_follows init shows object
  obtain ⟨console₁, taken₁, queued₁, read, run, h₁, bytes, arrived⟩ := start.actions none room
  rw [List.nil_append] at bytes
  obtain ⟨console, taken, rest, h, place, buffer, keyboard_⟩ := h₁.drains (h₁.work_le.trans enough)
  have append : (actions ++ List.replicate statements ConsoleAction.statement).forM
      ConsoleAction.perform = (do
        actions.forM ConsoleAction.perform
        (List.replicate statements ConsoleAction.statement).forM ConsoleAction.perform) :=
    List.forM_append
  refine ⟨console, read, ?_, ?_, ?_, h.shows, place, ?_, h.stays place⟩
  · rw [append, Machine.bind_of_ok run]
    exact rest
  · rw [keyboard_, ← arrived]
    exact (congrArg (· ++ _) port).symm
  · rw [h.written_eq place, keyboard_, bytes.pushed]
    rfl
  · rw [h.queue.represents.contents_eq]
    rfl

theorem keyA_drains : ∃ keyboard vga console read,
    keyboardInit Keyboard.boot = .ok () keyboard ∧
      ([ConsoleAction.interrupt [0x1E]] ++ List.replicate 7679 ConsoleAction.statement).forM
        ConsoleAction.perform (.start keyboard vga eventObject) = .ok () console ∧
      [0x1E] = read ++ console.keyboard.port ∧ console.written = typedText read ∧
      console.place = .hasEvent ∧ console.keyboard.buffer.contents = [] := by
  obtain ⟨keyboard, init, queue, port, -⟩ := keyboardInit_ok
  obtain ⟨vga, -, shows⟩ := Vga.clear_shows ⟨fun _ => 0, 0, 0, 0, []⟩
  obtain ⟨console, read, run, bytes, written, -, place, empty, -⟩ :=
    mainLoop_drains init shows eventObject_room (keyA_room queue port vga eventObject 0) le_rfl
  exact ⟨keyboard, vga, console, read, init, run, bytes, written, place, empty⟩

end Typing

end ArkoiOs
