import ArkoiOs.Serial.Polling
import ArkoiOs.Serial.Strings

/-!
# Characters and strings over a chip

The driver waits for the chip as often as it has to.  However slow the line is, a string
is handed to the transmitter byte by byte, and a read returns the first line of what has
come in.
-/

namespace ArkoiOs

open Filter Retry

variable {ι : Type} {lines : UInt16 → SerialLine} {s : SerialMachine ι UartBoard}
  {config : UInt32} {port : UInt16} {chip : Uart}

/-- Again and again the transmitter finishes a byte. -/
def SerialLine.Drains (line : SerialLine) : Prop := ∃ᶠ tick in atTop, 0 < (line tick).shifts

/-- Again and again a byte comes in. -/
def SerialLine.Feeds (line : SerialLine) : Prop := ∃ᶠ tick in atTop, (line tick).arriving ≠ []

namespace SerialMachine

/-- The record is that of a port with a chip. -/
structure Connected (s : SerialMachine ι UartBoard) (config : UInt32) (port : UInt16)
    (chip : Uart) : Prop where
  record : (s.driver.records config).port = port
  aligned : port % 8 = 0
  chip : s.driver.device port = some chip

/-- Only the chip of a port is different. -/
def setChip (s : SerialMachine ι UartBoard) (port : UInt16) (chip : Uart) :
    SerialMachine ι UartBoard :=
  { s with driver := { s.driver with
      device := Function.update s.driver.device port (some chip) } }

theorem setChip_setChip (s : SerialMachine ι UartBoard) (port : UInt16) (chip chip' : Uart) :
    (s.setChip port chip).setChip port chip' = s.setChip port chip' := by
  unfold setChip
  simp only [Function.update_idem]

/-- Only the chip of a port and the memory are different. -/
def after (s : SerialMachine ι UartBoard) (port : UInt16) (chip : Uart) (memory : ByteMemory ι) :
    SerialMachine ι UartBoard :=
  { s.setChip port chip with memory := memory }

theorem after_after (s : SerialMachine ι UartBoard) (port : UInt16) (chip chip' : Uart)
    (memory memory' : ByteMemory ι) :
    (s.after port chip memory).after port chip' memory' = s.after port chip' memory' := by
  have same := congrArg SerialMachine.driver (s.setChip_setChip port chip chip')
  exact congrArg (SerialMachine.mk · memory') same

/-- What the chip of the port counts. -/
def count (f : Uart → ℕ) (port : UInt16) (s : SerialMachine ι UartBoard) : ℕ :=
  (s.driver.device port).elim 0 f

theorem count_setChip (f : Uart → ℕ) (s : SerialMachine ι UartBoard) (port : UInt16)
    (chip : Uart) : count f port (s.setChip port chip) = f chip := by
  unfold count setChip
  simp only [Function.update_self]
  rfl

theorem Connected.setChip (h : s.Connected config port chip) (chip' : Uart) :
    (s.setChip port chip').Connected config port chip' :=
  ⟨h.record, h.aligned, Function.update_self _ _ _⟩

theorem Connected.after (h : s.Connected config port chip) (chip' : Uart)
    (memory : ByteMemory ι) : (s.after port chip' memory).Connected config port chip' :=
  ⟨h.record, h.aligned, Function.update_self _ _ _⟩

theorem Connected.setChip_self (h : s.Connected config port chip) : s.setChip port chip = s := by
  have same : Function.update s.driver.device port (some chip) = s.driver.device := by
    rw [← h.chip, Function.update_eq_self]
  unfold SerialMachine.setChip
  rw [same]

theorem Connected.after_self (h : s.Connected config port chip) (memory : ByteMemory ι) :
    s.after port chip memory = { s with memory := memory } := by
  rw [SerialMachine.after, h.setChip_self]

theorem Connected.recordPort_run (h : s.Connected config port chip) :
    recordPort config s = .ok port s :=
  congrArg (EStateM.Result.ok · s) h.record

/-- An access to a chip through the driver. -/
theorem onDriver_onDevice {α : Type} {x : StateM UartBoard α} {a : α} {chip' : Uart}
    (run : x.run s.driver.device =
      (a, Function.update s.driver.device port (some chip'))) :
    onDriver (onDevice x) s = .ok a (s.setChip port chip') := by
  change EStateM.Result.ok (x.run s.driver.device).1 { s with driver := { s.driver with
    device := (x.run s.driver.device).2 } } = _
  rw [run]
  rfl

theorem onText_load {p : Pointer ι} {byte : UInt8} (there : s.memory.byte p = some byte) :
    onText (loadByte p) s = .ok byte s :=
  Machine.zoom_of_ok rfl (loadByte_of_some there)

theorem onText_store [DecidableEq ι] {p : Pointer ι} (there : (s.memory.byte p).isSome)
    (byte : UInt8) :
    onText (storeByte p byte) s = .ok () { s with memory := s.memory.overwrite p [byte] } :=
  Machine.zoom_of_ok rfl (storeByte_of_room there byte)

end SerialMachine

open SerialMachine

/-! ## Writing -/

section Writing

/-- Until the transmitter is empty each attempt takes a tick. -/
theorem tryWriteChar_waits (connected : s.Connected config port chip) (byte : UInt8) :
    Waits (onDriver (onDevice (tryWriteChar (uartIo lines) port byte)))
      (fun t => ∃ c, t = s.setChip port c ∧ Uart.Moves (lines port) [] [] chip c)
      (fun t => ∃ c, t = s.setChip port c ∧ Uart.Moves (lines port) [byte] [] chip c)
      (fun tick => 0 < (lines port tick).shifts) (count Uart.clock port)
      (count (fun c => c.transmitter.length) port) := by
  rintro _ ⟨c, rfl, moved⟩
  have here := (connected.setChip c).chip
  have run := @tryWriteChar_run lines _ port c connected.aligned here byte
  have service := moved.service
  have ticked := service.tick_moves (lines port)
  cases idle : (c.tick (lines port)).transmitter.isEmpty with
  | true =>
      have empty := List.isEmpty_iff.1 idle
      rw [idle] at run
      refine Or.inl ⟨_, onDriver_onDevice run, _, setChip_setChip s port c _, ?_⟩
      exact moved.trans (ticked.trans (ticked.service.outb_moves _ empty byte))
  | false =>
      rw [idle] at run
      have shorter := congrArg List.length (service.transmitter_tick (lines port))
      have some : (c.tick (lines port)).transmitter ≠ [] := fun empty => by
        rw [empty] at idle
        cases idle
      have positive := List.length_pos_of_ne_nil some
      rw [List.length_drop] at shorter
      refine Or.inr ⟨_, onDriver_onDevice run, ⟨_, setChip_setChip s port c _, ?_⟩, ?_, ?_, ?_⟩
      · exact moved.trans ticked
      · rw [count_setChip, count_setChip]
        exact service.clock_tick _
      · rw [count_setChip, count_setChip, shorter]
        exact Nat.sub_le _ _
      · rw [count_setChip, count_setChip, count_setChip, shorter]
        omega

/-- `write_char` hands the character to the transmitter. -/
theorem writeChar_settles (connected : s.Connected config port chip) (service : chip.InService)
    (drains : (lines port).Drains) (byte : UInt8) :
    ∃ chip', Settles (fun fuel => writeChar (uartIo lines) fuel port byte) s
        (.ok true (s.setChip port chip')) ∧
      Uart.Moves (lines port) [byte] [] chip chip' := by
  obtain ⟨_, settles, chip', rfl, moved⟩ := (tryWriteChar_waits connected byte).settles drains
    ⟨chip, connected.setChip_self.symm, .refl service⟩
  exact ⟨chip', settles.bind (.of_eq fun _ => rfl), moved⟩

/-- The loop of `serial_write_string` writes the rest of the text. -/
theorem serialWriteStringLoop_settles {text : Pointer ι} {length index : UInt32}
    {string : List UInt8} (connected : s.Connected config port chip) (service : chip.InService)
    (drains : (lines port).Drains)
    (holds : s.memory.Holds (text.advance index.toNat) string)
    (rest : index.toNat + string.length = length.toNat) :
    ∃ chip', (∀ᶠ fuel in atTop, ∀ rounds > string.length,
        serialWriteStringLoop (uartIo lines) fuel config text length rounds index s =
          .ok true (s.setChip port chip')) ∧
      Uart.Moves (lines port) string [] chip chip' := by
  induction string generalizing s chip index with
  | nil =>
      have done : ¬index < length := by
        rw [UInt32.lt_iff_toNat_lt, ← rest, List.length_nil]
        exact Nat.lt_irrefl _
      refine ⟨chip, .of_forall fun fuel rounds more => ?_, .refl service⟩
      obtain ⟨rounds, rfl⟩ := Nat.exists_eq_succ_of_ne_zero (Nat.ne_of_gt more)
      rw [serialWriteStringLoop, if_neg done, connected.setChip_self]
      rfl
  | cons byte string ih =>
      rw [List.length_cons] at rest
      have width := length.toNat_lt
      have inside : index < length := by
        rw [UInt32.lt_iff_toNat_lt]
        omega
      have counted : (index + 1).toNat = index.toNat + 1 := toNat_add_of_lt rfl rfl (by omega)
      obtain ⟨there, behind⟩ := ByteMemory.holds_cons.1 holds
      rw [Pointer.advance_advance, ← counted] at behind
      obtain ⟨chip₁, written, moved⟩ := writeChar_settles connected service drains byte
      obtain ⟨chip', looped, moved'⟩ :=
        ih (connected.setChip chip₁) moved.service behind (by rw [counted]; omega)
      refine ⟨chip', ?_, moved.trans moved'⟩
      filter_upwards [written, looped] with fuel write loop rounds more
      obtain ⟨rounds, rfl⟩ := Nat.exists_eq_succ_of_ne_zero (Nat.ne_of_gt (Nat.zero_lt_of_lt more))
      rw [serialWriteStringLoop, if_pos inside, Machine.bind_of_ok connected.recordPort_run,
        Machine.bind_of_ok (onText_load there), Machine.bind_of_ok write, if_pos rfl,
        loop rounds (Nat.lt_of_succ_lt_succ more), setChip_setChip]

/-- `serial_write_string` of a string in memory. -/
theorem serialWriteString_settles {text : Pointer ι} {string : List UInt8}
    (connected : s.Connected config port chip) (service : chip.InService)
    (drains : (lines port).Drains)
    (holds : s.memory.Holds text (string ++ [0])) (noZero : 0 ∉ string)
    (bound : string.length < 2 ^ 32) :
    ∃ chip', Settles (fun fuel => serialWriteString (uartIo lines) fuel (some config) (some text)) s
        (.ok true (s.setChip port chip')) ∧
      Uart.Moves (lines port) string [] chip chip' := by
  have length : (UInt32.ofNat string.length).toNat = string.length :=
    UInt32.toNat_ofNat_of_lt' bound
  have start : s.memory.Holds (text.advance (0 : UInt32).toNat) string :=
    (ByteMemory.holds_append.1 holds).1
  obtain ⟨chip', looped, moved⟩ := serialWriteStringLoop_settles connected service drains start
    ((Nat.zero_add _).trans length.symm)
  refine ⟨chip', ?_, moved⟩
  filter_upwards [looped, eventually_gt_atTop string.length] with fuel loop enough
  have counted : (onText (kstrlen fuel text) : KernelM (SerialMachine ι UartBoard) UInt32) s =
      .ok (UInt32.ofNat string.length) s :=
    Machine.zoom_of_ok rfl (kstrlen_eq holds noZero bound enough)
  rw [serialWriteString, Machine.bind_of_ok counted]
  by_cases empty : UInt32.ofNat string.length = 0
  · have looped := loop fuel enough
    obtain ⟨fuel, rfl⟩ := Nat.exists_eq_succ_of_ne_zero (Nat.ne_of_gt (Nat.zero_lt_of_lt enough))
    rw [empty, serialWriteStringLoop, if_neg (by decide)] at looped
    rw [if_pos empty]
    exact looped
  · rw [if_neg empty]
    exact loop fuel enough

end Writing

/-! ## Reading -/

/-- The first line of a stream with its newline, cut off behind so many bytes. -/
def firstLine : ℕ → List UInt8 → List UInt8
  | 0, _ => []
  | _ + 1, [] => []
  | limit + 1, byte :: bytes =>
      if byte = newlineChar then [byte] else byte :: firstLine limit bytes

/-- What is not longer than the first line, whatever comes behind. -/
def CompleteLine (limit : ℕ) (text : List UInt8) : Prop :=
  ∀ rest, firstLine limit (text ++ rest) = text

theorem completeLine_zero : CompleteLine 0 [] := fun _ => rfl

theorem completeLine_newline (limit : ℕ) : CompleteLine (limit + 1) [newlineChar] :=
  fun _ => if_pos rfl

theorem CompleteLine.cons {limit : ℕ} {byte : UInt8} {text : List UInt8}
    (complete : CompleteLine limit text) (other : byte ≠ newlineChar) :
    CompleteLine (limit + 1) (byte :: text) := by
  intro rest
  rw [List.cons_append, firstLine, if_neg other, complete rest]

theorem length_firstLine_le (limit : ℕ) (stream : List UInt8) :
    (firstLine limit stream).length ≤ limit := by
  induction limit generalizing stream with
  | zero => exact Nat.le_refl _
  | succ limit ih =>
      cases stream with
      | nil => exact Nat.zero_le _
      | cons byte stream =>
          rw [firstLine]
          split
          · exact Nat.succ_le_succ (Nat.zero_le _)
          · exact Nat.succ_le_succ (ih stream)

theorem CompleteLine.length_le {limit : ℕ} {text : List UInt8}
    (complete : CompleteLine limit text) : text.length ≤ limit := by
  have whole := complete []
  rw [List.append_nil] at whole
  rw [← whole]
  exact length_firstLine_le limit text

section Reading

variable [DecidableEq ι]

/-- Until the receiver has a byte each attempt takes a tick. -/
theorem tryReadCharInto_waits (connected : s.Connected config port chip) {character : Pointer ι}
    (room : (s.memory.byte character).isSome) :
    Waits (tryReadCharInto (uartIo lines) port character)
      (fun t => ∃ c, t = s.setChip port c ∧ Uart.Reads (lines port) [] chip c)
      (fun t => ∃ byte c, t = s.after port c (s.memory.overwrite character [byte]) ∧
        Uart.Reads (lines port) [byte] chip c)
      (fun tick => (lines port tick).arriving ≠ []) (count Uart.clock port) (fun _ => 0) := by
  rintro _ ⟨c, rfl, moved⟩
  have here := (connected.setChip c).chip
  have run := @tryReadChar_run lines _ port c connected.aligned here
  have service := moved.service
  cases nothing : (c.tick (lines port)).receiver.isEmpty with
  | true =>
      have empty := List.isEmpty_iff.1 nothing
      rw [nothing] at run
      refine Or.inr ⟨(s.setChip port c).setChip port (c.tick (lines port)), ?_,
        ⟨_, setChip_setChip s port c _, ?_⟩, ?_, Nat.le_refl _, fun comes => ?_⟩
      · exact Machine.bind_of_ok (onDriver_onDevice run)
      · exact moved.trans (service.poll_reads empty)
      · rw [count_setChip, count_setChip]
        exact service.clock_tick _
      · rw [count_setChip] at comes
        rw [service.receiver_tick, List.append_eq_nil_iff] at empty
        obtain ⟨before, now⟩ := empty
        rw [before, List.length_nil, Nat.sub_zero, List.take_eq_nil_iff] at now
        exact absurd (now.resolve_left (by decide)) comes
  | false =>
      have ready : (c.tick (lines port)).receiver ≠ [] := fun empty => by
        rw [empty] at nothing
        cases nothing
      rw [nothing] at run
      refine Or.inl ⟨_, ?_, _, _, rfl, moved.trans (service.take_reads ready)⟩
      refine (Machine.bind_of_ok (onDriver_onDevice run)).trans ?_
      rw [setChip_setChip]
      have there : ((s.setChip port
          ((c.tick (lines port)).inb (lines port) serialRegData).2).memory.byte character).isSome :=
        room
      exact Machine.bind_of_ok (onText_store there _)

/-- `read_char` stores the next character that has come in. -/
theorem readChar_settles (connected : s.Connected config port chip) (service : chip.InService)
    (feeds : (lines port).Feeds) {character : Pointer ι}
    (room : (s.memory.byte character).isSome) :
    ∃ byte chip', Settles (fun fuel => readChar (uartIo lines) fuel port character) s
        (.ok true (s.after port chip' (s.memory.overwrite character [byte]))) ∧
      Uart.Reads (lines port) [byte] chip chip' := by
  obtain ⟨_, settles, byte, chip', rfl, moved⟩ :=
    (tryReadCharInto_waits connected room).settles feeds
      ⟨chip, connected.setChip_self.symm, .refl service⟩
  exact ⟨byte, chip', settles.bind (.of_eq fun _ => rfl), moved⟩

/-- The loop of `serial_read_string` reads the rest of the line. -/
theorem serialReadStringLoop_settles {buffer : Pointer ι} {size index : UInt32} {limit : ℕ}
    (connected : s.Connected config port chip) (service : chip.InService)
    (feeds : (lines port).Feeds)
    (room : s.memory.Room (buffer.advance index.toNat) (limit + 1))
    (rest : index.toNat + limit + 1 = size.toNat) :
    ∃ text chip', (∀ᶠ fuel in atTop, ∀ rounds > limit,
        serialReadStringLoop (uartIo lines) fuel config buffer size rounds index s =
          .ok true (s.after port chip'
            (s.memory.overwrite (buffer.advance index.toNat) (text ++ [0])))) ∧
      Uart.Reads (lines port) text chip chip' ∧ CompleteLine limit text := by
  have last : (size - 1).toNat = index.toNat + limit := by
    rw [UInt32.toNat_sub_of_le _ _ (UInt32.le_iff_toNat_le.2 (by
      simp only [UInt32.reduceToNat]
      omega))]
    simp only [UInt32.reduceToNat]
    omega
  have width := size.toNat_lt
  obtain ⟨here, behind⟩ := ByteMemory.room_succ.1 room
  induction limit generalizing s chip index with
  | zero =>
      have done : ¬index < size - 1 := by
        rw [UInt32.lt_iff_toNat_lt, last]
        exact Nat.lt_irrefl _
      refine ⟨[], chip, .of_forall fun fuel rounds more => ?_, .refl service, completeLine_zero⟩
      obtain ⟨rounds, rfl⟩ := Nat.exists_eq_succ_of_ne_zero (Nat.ne_of_gt more)
      have there : (s.memory.byte (buffer.advance (size - 1).toNat)).isSome := by
        rw [last]
        exact here
      rw [serialReadStringLoop, if_neg done, Machine.bind_of_ok (onText_store there 0),
        connected.after_self, last]
      rfl
  | succ limit ih =>
      have inside : index < size - 1 := by
        rw [UInt32.lt_iff_toNat_lt, last]
        omega
      have counted : (index + 1).toNat = index.toNat + 1 := toNat_add_of_lt rfl rfl (by omega)
      obtain ⟨byte, chip₁, read, moved⟩ := readChar_settles connected service feeds here
      have first : (s.after port chip₁
          (s.memory.overwrite (buffer.advance index.toNat) [byte])).memory.byte
            (buffer.advance index.toNat) = some byte :=
        ByteMemory.holds_overwrite s.memory (buffer.advance index.toNat) [byte] 0 Nat.one_pos
      have room₁ : s.memory.Room (buffer.advance index.toNat) [byte].length :=
        ByteMemory.room_one.2 here
      by_cases newline : byte = newlineChar
      · refine ⟨[newlineChar], chip₁, ?_, newline ▸ moved, completeLine_newline limit⟩
        have next := (ByteMemory.room_succ.1 behind).1
        rw [Pointer.advance_advance, ← counted] at next
        filter_upwards [read] with fuel run rounds more
        obtain ⟨rounds, rfl⟩ := Nat.exists_eq_succ_of_ne_zero (Nat.ne_of_gt (Nat.zero_lt_of_lt more))
        have there : ((s.after port chip₁
            (s.memory.overwrite (buffer.advance index.toNat) [byte])).memory.byte
              (buffer.advance (index + 1).toNat)).isSome :=
          (ByteMemory.isSome_overwrite room₁ _).trans next
        rw [serialReadStringLoop, if_pos inside, Machine.bind_of_ok connected.recordPort_run,
          Machine.bind_of_ok run, if_pos rfl, Machine.bind_of_ok (onText_load first), if_pos newline,
          Machine.bind_of_ok (onText_store there 0), counted, ← Pointer.advance_advance, newline]
        exact congrArg (fun memory => EStateM.Result.ok true (s.after port chip₁ memory))
          (ByteMemory.overwrite_cons _ _ _ _)
      · have room' : (s.memory.overwrite (buffer.advance index.toNat) [byte]).Room
            (buffer.advance (index + 1).toNat) (limit + 1) := by
          rw [counted, ← Pointer.advance_advance]
          exact (ByteMemory.room_overwrite room₁).2 behind
        have rest' : (index + 1).toNat + limit + 1 = size.toNat := by omega
        have connected' := connected.after chip₁
          (s.memory.overwrite (buffer.advance index.toNat) [byte])
        obtain ⟨text, chip', looped, moved', complete⟩ := ih connected' moved.service room' rest'
          (by omega) (ByteMemory.room_succ.1 room').1 (ByteMemory.room_succ.1 room').2
        refine ⟨byte :: text, chip', ?_, moved.trans moved', complete.cons newline⟩
        filter_upwards [read, looped] with fuel run loop rounds more
        obtain ⟨rounds, rfl⟩ := Nat.exists_eq_succ_of_ne_zero (Nat.ne_of_gt (Nat.zero_lt_of_lt more))
        rw [serialReadStringLoop, if_pos inside, Machine.bind_of_ok connected.recordPort_run,
          Machine.bind_of_ok run, if_pos rfl, Machine.bind_of_ok (onText_load first), if_neg newline,
          loop rounds (Nat.lt_of_succ_lt_succ more), after_after, counted,
          ← Pointer.advance_advance]
        exact congrArg (fun memory => EStateM.Result.ok true (s.after port chip' memory))
          (ByteMemory.overwrite_cons _ _ _ _)

/-- `serial_read_string` into a buffer. -/
theorem serialReadString_settles {buffer : Pointer ι} {size : UInt32}
    (connected : s.Connected config port chip) (service : chip.InService)
    (feeds : (lines port).Feeds) (positive : size ≠ 0) (room : s.memory.Room buffer size.toNat) :
    ∃ text chip', Settles (fun fuel =>
        serialReadString (uartIo lines) fuel (some config) (some buffer) size) s
          (.ok true (s.after port chip' (s.memory.overwrite buffer (text ++ [0])))) ∧
      Uart.Reads (lines port) text chip chip' ∧ CompleteLine (size.toNat - 1) text := by
  have some : size.toNat - 1 + 1 = size.toNat :=
    Nat.sub_add_cancel (Nat.one_le_iff_ne_zero.2 fun zero => positive (UInt32.toNat_inj.1 zero))
  have start : s.memory.Room (buffer.advance (0 : UInt32).toNat) (size.toNat - 1 + 1) := by
    rw [some]
    exact room
  have whole : (0 : UInt32).toNat + (size.toNat - 1) + 1 = size.toNat := by
    rw [UInt32.toNat_zero, Nat.zero_add, some]
  obtain ⟨text, chip', looped, moved, complete⟩ :=
    serialReadStringLoop_settles connected service feeds start whole
  refine ⟨text, chip', ?_, moved, complete⟩
  filter_upwards [looped, eventually_gt_atTop (size.toNat - 1)] with fuel loop enough
  rw [serialReadString, if_neg positive]
  exact loop fuel enough

end Reading

end ArkoiOs
