import ArkoiOs.Serial.Uart

/-!
# Polling a chip

What the driver's accesses to a chip in service move.  Nothing of what is written is lost,
what is read has entered the receiver in the same order, and a byte of the line is only
lost to a full receiver.
-/

namespace ArkoiOs

namespace Uart

variable {line : SerialLine} {chip chip' chip'' : Uart} {written written' taken taken' : List UInt8}

/-- The queues are on, the divisor latch is closed, and the line is connected. -/
structure InService (chip : Uart) : Prop where
  fifos : chip.fifos = true
  latch : chip.latch = false
  connected : chip.loopBack = false

/-- All bytes that have been written to the chip. -/
def output (chip : Uart) : List UInt8 := chip.sent ++ chip.transmitter

end Uart

/-- What a line brings from one tick up to another. -/
def SerialLine.between (line : SerialLine) (start stop : ℕ) : List UInt8 :=
  (List.range' start (stop - start)).flatMap fun tick => (line tick).arriving

theorem SerialLine.between_trans (line : SerialLine) {start middle stop : ℕ}
    (before : start ≤ middle) (after : middle ≤ stop) :
    line.between start middle ++ line.between middle stop = line.between start stop := by
  obtain ⟨n, rfl⟩ := Nat.exists_eq_add_of_le before
  obtain ⟨m, rfl⟩ := Nat.exists_eq_add_of_le after
  rw [between, between, between, ← List.flatMap_append, Nat.add_sub_cancel_left,
    Nat.add_sub_cancel_left, Nat.add_assoc, Nat.add_sub_cancel_left, List.range'_append_1]

theorem SerialLine.between_self (line : SerialLine) (tick : ℕ) : line.between tick tick = [] := by
  rw [between, Nat.sub_self]
  rfl

theorem SerialLine.between_succ (line : SerialLine) (tick : ℕ) :
    line.between tick (tick + 1) = (line tick).arriving := by
  rw [between, Nat.add_sub_cancel_left]
  exact List.append_nil _

namespace Uart

variable {line : SerialLine} {chip chip' chip'' : Uart} {written written' taken taken' : List UInt8}

/-! ## What accesses move -/

/-- Between two states of a chip in service the driver has written and taken these bytes. -/
structure Moves (line : SerialLine) (written taken : List UInt8) (chip chip' : Uart) : Prop where
  service : chip'.InService
  later : chip.clock ≤ chip'.clock
  output : chip'.output = chip.output ++ written
  input : ∃ new dropped, chip'.accepted = chip.accepted ++ new ∧
    chip'.lost = chip.lost ++ dropped ∧ taken ++ chip'.receiver = chip.receiver ++ new ∧
    (dropped = [] → new = line.between chip.clock chip'.clock)

theorem Moves.refl (service : chip.InService) : Moves line [] [] chip chip where
  service := service
  later := Nat.le_refl _
  output := (List.append_nil _).symm
  input := ⟨[], [], (List.append_nil _).symm, (List.append_nil _).symm, (List.append_nil _).symm,
    fun _ => (line.between_self _).symm⟩

theorem Moves.trans (first : Moves line written taken chip chip')
    (second : Moves line written' taken' chip' chip'') :
    Moves line (written ++ written') (taken ++ taken') chip chip'' where
  service := second.service
  later := first.later.trans second.later
  output := by rw [second.output, first.output, List.append_assoc]
  input := by
    obtain ⟨new, dropped, accepted, lost, order, whole⟩ := first.input
    obtain ⟨new', dropped', accepted', lost', order', whole'⟩ := second.input
    refine ⟨new ++ new', dropped ++ dropped', ?_, ?_, ?_, fun none => ?_⟩
    · rw [accepted', accepted, List.append_assoc]
    · rw [lost', lost, List.append_assoc]
    · rw [List.append_assoc, order', ← List.append_assoc, order, List.append_assoc]
    · obtain ⟨none, none'⟩ := List.append_eq_nil_iff.1 none
      rw [whole none, whole' none', line.between_trans first.later second.later]

/-- A receiver with queues takes what it has room for. -/
theorem foldl_receive (bytes : List UInt8) (chip : Uart) (fifos : chip.fifos = true) :
    bytes.foldl receive chip =
      { chip with
        receiver := chip.receiver ++ bytes.take (uartDepth - chip.receiver.length)
        accepted := chip.accepted ++ bytes.take (uartDepth - chip.receiver.length)
        lost := chip.lost ++ bytes.drop (uartDepth - chip.receiver.length) } := by
  induction bytes generalizing chip with
  | nil => simp only [List.foldl_nil, List.take_nil, List.drop_nil, List.append_nil]
  | cons byte bytes ih =>
      rw [List.foldl_cons, receive, if_pos fifos]
      by_cases room : chip.receiver.length < uartDepth
      · obtain ⟨n, left⟩ := Nat.exists_eq_succ_of_ne_zero (Nat.sub_ne_zero_of_lt room)
        have next : uartDepth - (chip.receiver.length + 1) = n := by omega
        rw [if_pos room]
        refine (ih _ ?_).trans ?_
        · exact fifos
        simp only [List.length_append, List.length_singleton, next, left, List.take_succ_cons,
          List.drop_succ_cons, List.append_assoc, List.singleton_append]
      · have full : uartDepth - chip.receiver.length = 0 := Nat.sub_eq_zero_of_le (not_lt.1 room)
        rw [if_neg room]
        refine (ih _ ?_).trans ?_
        · exact fifos
        simp only [full, List.take_zero, List.append_nil, List.drop_zero, List.append_assoc,
          List.singleton_append]

/-- A tick of a chip in service. -/
theorem InService.tick_eq (service : chip.InService) :
    chip.tick line =
      { chip with
        clock := chip.clock + 1
        transmitter := chip.transmitter.drop (line chip.clock).shifts
        sent := chip.sent ++ chip.transmitter.take (line chip.clock).shifts
        receiver := chip.receiver ++
          (line chip.clock).arriving.take (uartDepth - chip.receiver.length)
        accepted := chip.accepted ++
          (line chip.clock).arriving.take (uartDepth - chip.receiver.length)
        lost := chip.lost ++
          (line chip.clock).arriving.drop (uartDepth - chip.receiver.length) } := by
  unfold tick
  simp only [service.connected, Bool.false_eq_true, if_false]
  exact foldl_receive _ _ service.fifos

theorem InService.of_control (service : chip.InService) (fifos : chip'.fifos = chip.fifos)
    (mode : chip'.lineControl = chip.lineControl) (modem : chip'.modemControl = chip.modemControl) :
    chip'.InService where
  fifos := fifos.trans service.fifos
  latch := by
    rw [Uart.latch, mode]
    exact service.latch
  connected := by
    rw [loopBack, modem]
    exact service.connected

/-- A tick moves nothing for the driver. -/
theorem InService.tick_moves (service : chip.InService) (line : SerialLine) :
    Moves line [] [] chip (chip.tick line) := by
  rw [service.tick_eq]
  refine ⟨service.of_control rfl rfl rfl, Nat.le_succ _, ?_, _, _, rfl, rfl, rfl, fun none => ?_⟩
  · rw [output, output, List.append_assoc, List.take_append_drop, List.append_nil]
  · rw [line.between_succ, List.take_of_length_le (List.drop_eq_nil_iff.1 none)]

theorem InService.tick (service : chip.InService) (line : SerialLine) :
    (chip.tick line).InService :=
  (service.tick_moves line).service

theorem InService.clock_tick (service : chip.InService) (line : SerialLine) :
    (chip.tick line).clock = chip.clock + 1 := by
  rw [service.tick_eq]

theorem InService.transmitter_tick (service : chip.InService) (line : SerialLine) :
    (chip.tick line).transmitter = chip.transmitter.drop (line chip.clock).shifts := by
  rw [service.tick_eq]

theorem InService.receiver_tick (service : chip.InService) (line : SerialLine) :
    (chip.tick line).receiver = chip.receiver ++
      (line chip.clock).arriving.take (uartDepth - chip.receiver.length) := by
  rw [service.tick_eq]

/-! ## Registers -/

theorem or_and_distrib (a b c : UInt8) : (a ||| b) &&& c = a &&& c ||| b &&& c := by
  apply UInt8.toBitVec_inj.1
  apply BitVec.eq_of_getLsbD_eq
  intro i _
  simp [Bool.and_or_distrib_right]

/-- The status bits the driver looks at. -/
theorem status_and (chip : Uart) (other bit : UInt8) (hidden : 0xDE &&& bit = 0) :
    chip.status other &&& bit =
      ((if chip.receiver.isEmpty then 0 else 0x01) |||
          (if chip.transmitter.isEmpty then 0x20 else 0)) &&&
        bit := by
  rw [status, or_and_distrib, or_and_distrib, or_and_distrib, UInt8.and_assoc, hidden,
    UInt8.and_zero, UInt8.zero_or]

theorem status_dataReady (chip : Uart) (other : UInt8) :
    (chip.status other &&& serialLsrDataReady != 0) = !chip.receiver.isEmpty := by
  rw [status_and chip other serialLsrDataReady (by decide)]
  cases chip.receiver.isEmpty <;> cases chip.transmitter.isEmpty <;> decide

theorem status_thrEmpty (chip : Uart) (other : UInt8) :
    (chip.status other &&& serialLsrThrEmpty != 0) = chip.transmitter.isEmpty := by
  rw [status_and chip other serialLsrThrEmpty (by decide)]
  cases chip.receiver.isEmpty <;> cases chip.transmitter.isEmpty <;> decide

/-- A write to an empty transmitter. -/
theorem InService.outb_moves (service : chip.InService) (line : SerialLine)
    (idle : chip.transmitter = []) (byte : UInt8) :
    Moves line [byte] [] chip (chip.outb line serialRegData byte) := by
  have now := service.tick line
  have empty : (chip.tick line).transmitter = [] := by
    rw [service.transmitter_tick, idle, List.drop_nil]
  have stored : chip.outb line serialRegData byte =
      { chip.tick line with transmitter := [byte] } := by
    rw [outb, writeRegister, if_pos rfl, now.latch, if_neg Bool.false_ne_true, transmit,
      if_pos now.fifos, empty]
    rfl
  have given : Moves line [byte] [] (chip.tick line)
      { chip.tick line with transmitter := [byte] } := by
    refine ⟨now.of_control rfl rfl rfl, Nat.le_refl _, ?_, [], [], ?_, ?_, ?_, fun _ => ?_⟩
    · rw [output, output, empty, List.append_nil]
    · exact (List.append_nil _).symm
    · exact (List.append_nil _).symm
    · exact (List.append_nil _).symm
    · exact (line.between_self _).symm
  rw [stored]
  exact (service.tick_moves line).trans given

/-- A read from a receiver that has a byte. -/
theorem InService.inb_moves (service : chip.InService) (line : SerialLine)
    (ready : chip.receiver ≠ []) :
    Moves line [] [(chip.inb line serialRegData).1] chip (chip.inb line serialRegData).2 := by
  have now := service.tick line
  obtain ⟨byte, rest, here⟩ : ∃ byte rest, (chip.tick line).receiver = byte :: rest := by
    obtain ⟨byte, rest, here⟩ := List.exists_cons_of_ne_nil ready
    refine ⟨byte, rest ++ (line chip.clock).arriving.take (uartDepth - chip.receiver.length), ?_⟩
    rw [service.receiver_tick, here]
    rfl
  have loaded : chip.inb line serialRegData = (byte, { chip.tick line with receiver := rest }) := by
    rw [inb, readRegister, if_pos rfl, now.latch, if_neg Bool.false_ne_true, here]
    rfl
  have taken : Moves line [] [byte] (chip.tick line) { chip.tick line with receiver := rest } := by
    refine ⟨now.of_control rfl rfl rfl, Nat.le_refl _, ?_, [], [], ?_, ?_, ?_, fun _ => ?_⟩
    · exact (List.append_nil _).symm
    · exact (List.append_nil _).symm
    · exact (List.append_nil _).symm
    · rw [List.append_nil]
      exact here.symm
    · exact (line.between_self _).symm
  rw [loaded]
  exact (service.tick_moves line).trans taken

/-! ## Lines that are not too fast -/

/-- In two accesses one after the other at most one byte comes in. -/
def Spaced (line : SerialLine) : Prop :=
  ∀ tick, (line tick).arriving.length + (line (tick + 1)).arriving.length ≤ 1

/-- A receiver with room for the bytes loses none. -/
theorem InService.lost_tick (service : chip.InService)
    (room : chip.receiver.length + (line chip.clock).arriving.length ≤ uartDepth) :
    (chip.tick line).lost = chip.lost := by
  have fits : (line chip.clock).arriving.length ≤ uartDepth - chip.receiver.length := by omega
  rw [service.tick_eq]
  change chip.lost ++ _ = _
  rw [List.drop_eq_nil_of_le fits, List.append_nil]

theorem InService.length_tick_le (service : chip.InService) (line : SerialLine) :
    (chip.tick line).receiver.length ≤
      chip.receiver.length + (line chip.clock).arriving.length := by
  rw [service.receiver_tick, List.length_append, List.length_take]
  omega

/-- The driver has taken these bytes and written none; from a line that is not too fast it
has lost none. -/
structure Reads (line : SerialLine) (taken : List UInt8) (chip chip' : Uart) : Prop
    extends Moves line [] taken chip chip' where
  keepsUp : Spaced line → chip.receiver.length < uartDepth →
    chip'.receiver.length < uartDepth ∧ chip'.lost = chip.lost

theorem Reads.refl (service : chip.InService) : Reads line [] chip chip where
  toMoves := .refl service
  keepsUp _ room := ⟨room, rfl⟩

theorem Reads.trans (first : Reads line taken chip chip')
    (second : Reads line taken' chip' chip'') : Reads line (taken ++ taken') chip chip'' where
  toMoves := first.toMoves.trans second.toMoves
  keepsUp spaced room := by
    obtain ⟨room', kept⟩ := first.keepsUp spaced room
    obtain ⟨room'', kept'⟩ := second.keepsUp spaced room'
    exact ⟨room'', kept'.trans kept⟩

/-- A poll that finds nothing. -/
theorem InService.poll_reads (service : chip.InService)
    (nothing : (chip.tick line).receiver = []) : Reads line [] chip (chip.tick line) where
  toMoves := service.tick_moves line
  keepsUp spaced room := by
    have slow := spaced chip.clock
    refine ⟨?_, service.lost_tick (by omega)⟩
    rw [nothing]
    exact Nat.succ_pos _

/-- A poll that finds a byte, and its read. -/
theorem InService.take_reads (service : chip.InService) (ready : (chip.tick line).receiver ≠ []) :
    Reads line [((chip.tick line).inb line serialRegData).1] chip
      ((chip.tick line).inb line serialRegData).2 where
  toMoves := (service.tick_moves line).trans ((service.tick line).inb_moves line ready)
  keepsUp spaced room := by
    have now := service.tick line
    have slow := spaced chip.clock
    have length := service.length_tick_le line
    have length' := now.length_tick_le line
    have positive := List.length_pos_of_ne_nil ready
    rw [service.clock_tick] at length'
    have popped : ((chip.tick line).inb line serialRegData).2 =
        { (chip.tick line).tick line with receiver := ((chip.tick line).tick line).receiver.tail } := by
      rw [inb, readRegister, if_pos rfl, (now.tick line).latch, if_neg Bool.false_ne_true]
    have kept : ((chip.tick line).tick line).lost = (chip.tick line).lost := by
      apply now.lost_tick
      rw [service.clock_tick]
      omega
    rw [popped]
    refine ⟨?_, kept.trans (service.lost_tick (by omega))⟩
    rw [List.length_tail]
    omega

end Uart

/-! ## Accesses through the ports -/

section Ports

variable {lines : UInt16 → SerialLine} {board : UartBoard} {port register : UInt16} {chip : Uart}

theorem uartBase_add (aligned : port % 8 = 0) (inside : register < 8) :
    uartBase (port + register) = port := by
  have base : port.toNat % 8 = 0 := congrArg UInt16.toNat aligned
  have offset : register.toNat < 8 := UInt16.lt_iff_toNat_lt.1 inside
  have width := port.toNat_lt
  have sum : (port + register).toNat = port.toNat + register.toNat := by
    rw [UInt16.toNat_add]
    omega
  have rest : ((port + register) % 8).toNat = register.toNat := by
    rw [UInt16.toNat_mod, sum]
    simp only [UInt16.reduceToNat]
    omega
  apply UInt16.toNat_inj.1
  rw [uartBase, UInt16.toNat_sub_of_le, rest, sum, Nat.add_sub_cancel]
  rw [UInt16.le_iff_toNat_le, rest, sum]
  exact Nat.le_add_left _ _

theorem uartRegister_add (aligned : port % 8 = 0) (inside : register < 8) :
    uartRegister (port + register) = register := by
  have base : port.toNat % 8 = 0 := congrArg UInt16.toNat aligned
  have offset : register.toNat < 8 := UInt16.lt_iff_toNat_lt.1 inside
  have width := port.toNat_lt
  apply UInt16.toNat_inj.1
  rw [uartRegister, UInt16.toNat_mod, UInt16.toNat_add]
  simp only [UInt16.reduceToNat]
  omega

theorem uartIo_inb (aligned : port % 8 = 0) (inside : register < 8)
    (there : board port = some chip) :
    (uartIo lines).inb (port + register) board =
      ((chip.inb (lines port) register).1,
        Function.update board port (some (chip.inb (lines port) register).2)) := by
  unfold uartIo
  simp only [uartBase_add aligned inside, uartRegister_add aligned inside, there]

theorem uartIo_outb (aligned : port % 8 = 0) (inside : register < 8)
    (there : board port = some chip) (byte : UInt8) :
    (uartIo lines).outb (port + register) byte board =
      ((), Function.update board port (some (chip.outb (lines port) register byte))) := by
  unfold uartIo
  simp only [uartBase_add aligned inside, uartRegister_add aligned inside, there]

/-- A board accessed before. -/
theorem uartIo_inb_update (aligned : port % 8 = 0) (inside : register < 8)
    (board : UartBoard) (chip : Uart) :
    (uartIo lines).inb (port + register) (Function.update board port (some chip)) =
      ((chip.inb (lines port) register).1,
        Function.update board port (some (chip.inb (lines port) register).2)) := by
  rw [uartIo_inb aligned inside (Function.update_self _ _ _), Function.update_idem]

theorem uartIo_outb_update (aligned : port % 8 = 0) (inside : register < 8)
    (board : UartBoard) (chip : Uart) (byte : UInt8) :
    (uartIo lines).outb (port + register) byte (Function.update board port (some chip)) =
      ((), Function.update board port (some (chip.outb (lines port) register byte))) := by
  rw [uartIo_outb aligned inside (Function.update_self _ _ _), Function.update_idem]

/-- A read of the line status shows the chip behind the tick. -/
theorem uartIo_status (aligned : port % 8 = 0) (there : board port = some chip) :
    (uartIo lines).inb (port + serialRegLsr) board =
      ((chip.tick (lines port)).status (lines port chip.clock).other,
        Function.update board port (some (chip.tick (lines port)))) :=
  uartIo_inb aligned (by decide) there

/-- A sequence of accesses goes on from what the first has read. -/
theorem accesses_bind {σ α β : Type} {x : StateM σ α} {f : α → StateM σ β} {device device' : σ}
    {a : α} (run : x device = (a, device')) : (x >>= f) device = f a device' := by
  change f (x device).1 (x device).2 = _
  rw [run]

/-- `try_write_char` writes if the transmitter is empty. -/
theorem tryWriteChar_run (aligned : port % 8 = 0) (there : board port = some chip)
    (byte : UInt8) :
    (tryWriteChar (uartIo lines) port byte).run board =
      if (chip.tick (lines port)).transmitter.isEmpty then
        (true, Function.update board port
          (some ((chip.tick (lines port)).outb (lines port) serialRegData byte)))
      else (false, Function.update board port (some (chip.tick (lines port)))) := by
  have polled : isTransmitEmpty (uartIo lines) port board =
      ((chip.tick (lines port)).transmitter.isEmpty,
        Function.update board port (some (chip.tick (lines port)))) := by
    rw [isTransmitEmpty, accesses_bind (uartIo_status aligned there), Uart.status_thrEmpty]
    rfl
  change tryWriteChar (uartIo lines) port byte board = _
  rw [tryWriteChar, accesses_bind polled]
  cases (chip.tick (lines port)).transmitter.isEmpty with
  | false => rfl
  | true => exact accesses_bind (uartIo_outb_update aligned (by decide) board _ byte)

/-- `try_read_char` reads if the receiver has a byte. -/
theorem tryReadChar_run (aligned : port % 8 = 0) (there : board port = some chip) :
    (tryReadChar (uartIo lines) port).run board =
      if (chip.tick (lines port)).receiver.isEmpty then
        (none, Function.update board port (some (chip.tick (lines port))))
      else
        (some ((chip.tick (lines port)).inb (lines port) serialRegData).1,
          Function.update board port
            (some ((chip.tick (lines port)).inb (lines port) serialRegData).2)) := by
  have polled : serialReceived (uartIo lines) port board =
      (!(chip.tick (lines port)).receiver.isEmpty,
        Function.update board port (some (chip.tick (lines port)))) := by
    rw [serialReceived, accesses_bind (uartIo_status aligned there), Uart.status_dataReady]
    rfl
  change tryReadChar (uartIo lines) port board = _
  rw [tryReadChar, accesses_bind polled]
  cases (chip.tick (lines port)).receiver.isEmpty with
  | true => rfl
  | false => exact accesses_bind (uartIo_inb_update aligned (by decide) board _)

end Ports

end ArkoiOs
