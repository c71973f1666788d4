import ArkoiOs.Serial.Lookup
import ArkoiOs.Serial.Polling

/-!
# The test of a chip

`serial_init_port` sets a chip up and has it send a byte to itself.  Whether the chip passes
depends on the line: the driver looks for the byte once, and a byte that comes in before the
loop is closed is in front of it.
-/

namespace ArkoiOs

namespace Uart

variable {line : SerialLine} {chip : Uart}

/-! ## Idle chips -/

/-- The chip without what has come in. -/
def sending (chip : Uart) : Uart := { chip with receiver := [], accepted := [], lost := [] }

theorem sending_receive (chip : Uart) (byte : UInt8) :
    (chip.receive byte).sending = chip.sending := by
  rw [receive]
  split_ifs <;> rfl

theorem sending_foldl_receive (bytes : List UInt8) (chip : Uart) :
    (bytes.foldl receive chip).sending = chip.sending := by
  induction bytes generalizing chip with
  | nil => rfl
  | cons byte bytes ih => exact (ih _).trans (sending_receive chip byte)

/-- A tick moves bytes from the transmitter to the line, or in loop-back mode nowhere. -/
theorem sending_tick (line : SerialLine) (chip : Uart) :
    (chip.tick line).sending =
      { chip.sending with
        clock := chip.clock + 1
        transmitter := chip.transmitter.drop (line chip.clock).shifts
        sent := if chip.loopBack then chip.sent
          else chip.sent ++ chip.transmitter.take (line chip.clock).shifts } := by
  unfold tick
  cases chip.loopBack with
  | false => exact sending_foldl_receive _ _
  | true => exact sending_foldl_receive _ _

theorem sending_writeRegister (chip : Uart) (register : UInt16) (byte : UInt8) :
    (chip.writeRegister register byte).sending =
      (chip.sending.writeRegister register byte).sending := by
  have same : chip.sending.latch = chip.latch := rfl
  unfold writeRegister
  rw [same]
  split_ifs <;> rfl

/-- A write to a chip that has nothing to send. -/
theorem sending_outb (idle : chip.transmitter = []) (line : SerialLine) (register : UInt16)
    (byte : UInt8) :
    (chip.outb line register byte).sending =
      ({ chip.sending with clock := chip.clock + 1 }.writeRegister register byte).sending := by
  have ticked : (chip.tick line).sending = { chip.sending with clock := chip.clock + 1 } := by
    rw [sending_tick, idle, List.drop_nil, List.take_nil, List.append_nil, ite_self, ← idle]
    rfl
  rw [outb, sending_writeRegister, ticked]

theorem sending_outb_of {known : Uart} (here : chip.sending = known)
    (idle : known.transmitter = []) (line : SerialLine) (register : UInt16) (byte : UInt8) :
    (chip.outb line register byte).sending =
      ({ known with clock := known.clock + 1 }.writeRegister register byte).sending := by
  subst here
  exact @sending_outb chip idle line register byte

theorem writeRegister_ier (closed : chip.latch = false) (byte : UInt8) :
    chip.writeRegister serialRegIer byte = { chip with interruptEnable := byte } :=
  if_neg (Bool.eq_false_iff.1 closed)

theorem writeRegister_lsb (opened : chip.latch = true) (byte : UInt8) :
    chip.writeRegister serialRegLsb byte = { chip with divisorLow := byte } := if_pos opened

theorem writeRegister_msb (opened : chip.latch = true) (byte : UInt8) :
    chip.writeRegister serialRegMsb byte = { chip with divisorHigh := byte } := if_pos opened

theorem writeRegister_data (closed : chip.latch = false) (byte : UInt8) :
    chip.writeRegister serialRegData byte = chip.transmit byte :=
  if_neg (Bool.eq_false_iff.1 closed)

/-- What comes into a receiver with queues. -/
theorem receiver_tick (fifos : chip.fifos = true) (line : SerialLine) :
    (chip.tick line).receiver = chip.receiver ++
      (if chip.loopBack then chip.transmitter.take (line chip.clock).shifts
        else (line chip.clock).arriving).take (uartDepth - chip.receiver.length) := by
  have received : ∀ (bytes : List UInt8) (chip' : Uart), chip'.fifos = true →
      (bytes.foldl receive chip').receiver =
        chip'.receiver ++ bytes.take (uartDepth - chip'.receiver.length) :=
    fun bytes chip' on => congrArg Uart.receiver (foldl_receive bytes chip' on)
  unfold tick
  cases chip.loopBack with
  | false => exact received _ { chip with
      clock := chip.clock + 1
      transmitter := chip.transmitter.drop (line chip.clock).shifts
      sent := chip.sent ++ chip.transmitter.take (line chip.clock).shifts } fifos
  | true => exact received _ { chip with
      clock := chip.clock + 1
      transmitter := chip.transmitter.drop (line chip.clock).shifts } fifos

/-- The same, by what is known of the chip. -/
theorem receiver_of_sending {known : Uart} (here : chip.sending = known)
    (fifos : known.fifos = true) (connected : known.loopBack = false) (line : SerialLine) :
    (chip.tick line).receiver = chip.receiver ++
      (line known.clock).arriving.take (uartDepth - chip.receiver.length) := by
  subst here
  have on : chip.fifos = true := fifos
  have open' : chip.loopBack = false := connected
  rw [receiver_tick on, open', if_neg Bool.false_ne_true]
  rfl

/-! ## Setting up -/

/-- A chip that has nothing to send, with the line connected. -/
structure Idle (chip : Uart) : Prop where
  transmitter : chip.transmitter = []
  latch : chip.latch = false
  connected : chip.loopBack = false

/-- The writes of `serial_init_port` that set up the pace and the format. -/
def formatted (line : SerialLine) (chip : Uart) (low high control : UInt8) : Uart :=
  (((((chip.outb line serialRegIer 0x00).outb line serialRegLcr 0x80).outb
    line serialRegLsb low).outb line serialRegMsb high).outb line serialRegLcr 0x00).outb
    line serialRegLcr control

/-- Those that empty the queues and close the loop. -/
def looped (line : SerialLine) (chip : Uart) : Uart :=
  ((chip.outb line serialRegFcr 0xC7).outb line serialRegMcr 0x0B).outb line serialRegMcr 0x1E

/-- What comes in between the two. -/
def early (line : SerialLine) (clock : ℕ) : List UInt8 :=
  ((line (clock + 1)).arriving ++ (line (clock + 2)).arriving).take uartDepth

theorem Idle.formatted_eq (idle : chip.Idle) (line : SerialLine) (low high control : UInt8) :
    (chip.formatted line low high control).sending =
      { chip.sending with
        clock := chip.clock + 6
        interruptEnable := 0
        lineControl := control
        divisorLow := low
        divisorHigh := high } := by
  have none := idle.transmitter
  have opened : ∀ chip : Uart, chip.lineControl = 0x80 → chip.latch = true := by
    intro chip control
    rw [Uart.latch, control]
    decide
  have closed : Uart.latch { chip.sending with clock := chip.clock + 1 } = false := idle.latch
  have first : (chip.outb line serialRegIer 0x00).sending =
      { chip.sending with clock := chip.clock + 1, interruptEnable := 0 } :=
    (sending_outb none line serialRegIer 0x00).trans
      (congrArg sending (writeRegister_ier closed 0x00))
  have second : ((chip.outb line serialRegIer 0x00).outb line serialRegLcr 0x80).sending =
      { chip.sending with clock := chip.clock + 2, interruptEnable := 0, lineControl := 0x80 } :=
    sending_outb_of first none line serialRegLcr 0x80
  have third := (sending_outb_of second none line serialRegLsb low).trans
    (congrArg sending (writeRegister_lsb (opened _ rfl) low))
  have fourth := (sending_outb_of third none line serialRegMsb high).trans
    (congrArg sending (writeRegister_msb (opened _ rfl) high))
  have fifth := sending_outb_of fourth none line serialRegLcr 0x00
  exact sending_outb_of fifth none line serialRegLcr control

/-- Behind the set-up the loop is closed, and what came in before is waiting. -/
theorem Idle.looped_eq (idle : chip.Idle) (line : SerialLine) :
    (chip.looped line).sending =
        { chip.sending with clock := chip.clock + 3, fifos := true, modemControl := 0x1E } ∧
      (chip.looped line).receiver = early line chip.clock := by
  have none := idle.transmitter
  have cleared : (chip.outb line serialRegFcr 0xC7).sending =
      { chip.sending with clock := chip.clock + 1, fifos := true } := by
    refine (sending_outb none line serialRegFcr 0xC7).trans ?_
    change Uart.sending { chip.sending with
      clock := chip.clock + 1, fifos := true, receiver := _, transmitter := [] } = _
    rw [← none]
    rfl
  have empty : (chip.outb line serialRegFcr 0xC7).receiver = [] := rfl
  have joined := sending_outb_of cleared none line serialRegMcr 0x0B
  have closed := sending_outb_of joined none line serialRegMcr 0x1E
  refine ⟨closed, ?_⟩
  have first : ((chip.outb line serialRegFcr 0xC7).tick line).receiver =
      (line (chip.clock + 1)).arriving.take uartDepth :=
    receiver_of_sending cleared rfl idle.connected line
  have open' : Uart.loopBack { chip.sending with
      clock := chip.clock + 2, fifos := true, modemControl := 0x0B } = false := by
    change ((0x0B : UInt8) &&& 0x10 != 0) = false
    decide
  have second : (((chip.outb line serialRegFcr 0xC7).outb line serialRegMcr 0x0B).tick
      line).receiver = (line (chip.clock + 1)).arriving.take uartDepth ++
        (line (chip.clock + 2)).arriving.take
          (uartDepth - ((line (chip.clock + 1)).arriving.take uartDepth).length) := by
    rw [← first]
    exact receiver_of_sending joined rfl open' line
  refine second.trans ?_
  rw [early, List.take_append, List.length_take]
  congr 2
  omega

/-! ## The loop -/

/-- A chip whose transmitter feeds its receiver, with these bytes in its queues; the rest of
it is known. -/
structure Loops (known : Uart) (clock : ℕ) (out waiting : List UInt8) (chip : Uart) : Prop where
  sending : chip.sending = { known with clock := clock, transmitter := out }
  receiver : chip.receiver = waiting

/-- The queues are on, the divisor latch is closed, and so is the loop. -/
structure LoopMode (known : Uart) : Prop where
  fifos : known.fifos = true
  latch : known.latch = false
  closed : known.loopBack = true

variable {known : Uart} {clock : ℕ} {out waiting : List UInt8}

theorem Loops.tick (mode : known.LoopMode) (h : Loops known clock out waiting chip)
    (line : SerialLine) :
    Loops known (clock + 1) (out.drop (line clock).shifts)
      (waiting ++ (out.take (line clock).shifts).take (uartDepth - waiting.length))
      (chip.tick line) := by
  have time : chip.clock = clock := congrArg Uart.clock h.sending
  have queue : chip.transmitter = out := congrArg Uart.transmitter h.sending
  have sent : chip.sent = known.sent := (congrArg Uart.sent h.sending : chip.sending.sent = _)
  have fifos : chip.fifos = true := (congrArg Uart.fifos h.sending).trans mode.fifos
  have closed : chip.loopBack = true := (congrArg Uart.loopBack h.sending).trans mode.closed
  refine ⟨?_, ?_⟩
  · rw [sending_tick, h.sending, closed, if_pos rfl, time, queue, sent]
  · rw [receiver_tick fifos, closed, if_pos rfl, time, queue, h.receiver]

theorem Loops.tick_empty (mode : known.LoopMode) (h : Loops known clock [] waiting chip)
    (line : SerialLine) : Loops known (clock + 1) [] waiting (chip.tick line) := by
  have ticked := h.tick mode line
  rw [List.take_nil, List.take_nil, List.append_nil, List.drop_nil] at ticked
  exact ticked

/-- The test byte is written to an empty transmitter. -/
theorem Loops.write (mode : known.LoopMode) (h : Loops known clock [] waiting chip)
    (line : SerialLine) (byte : UInt8) :
    Loops known (clock + 1) [byte] waiting (chip.outb line serialRegData byte) := by
  have ticked := h.tick_empty mode line
  have latch : (chip.tick line).latch = false :=
    (congrArg Uart.latch ticked.sending).trans mode.latch
  have fifos : (chip.tick line).fifos = true :=
    (congrArg Uart.fifos ticked.sending).trans mode.fifos
  have empty : (chip.tick line).transmitter = [] :=
    congrArg Uart.transmitter ticked.sending
  have stored : chip.outb line serialRegData byte =
      { chip.tick line with transmitter := [byte] } := by
    rw [outb, writeRegister_data latch, transmit, if_pos fifos, empty]
    rfl
  rw [stored]
  exact ⟨congrArg (fun u : Uart => { u with transmitter := [byte] }) ticked.sending,
    ticked.receiver⟩

/-- The byte that waits in front is read. -/
theorem Loops.read {byte : UInt8} (mode : known.LoopMode)
    (h : Loops known clock out (byte :: waiting) chip) (line : SerialLine) :
    (chip.inb line serialRegData).1 = byte ∧ ∃ rest,
      Loops known (clock + 1) (out.drop (line clock).shifts) rest
        (chip.inb line serialRegData).2 := by
  have ticked := h.tick mode line
  have latch : (chip.tick line).latch = false :=
    (congrArg Uart.latch ticked.sending).trans mode.latch
  have loaded : chip.inb line serialRegData =
      ((chip.tick line).receiver.headD 0,
        { chip.tick line with receiver := (chip.tick line).receiver.tail }) := by
    rw [inb, readRegister, if_pos rfl, latch, if_neg Bool.false_ne_true]
  rw [loaded]
  refine ⟨?_, _, ticked.sending, rfl⟩
  change (chip.tick line).receiver.headD 0 = byte
  rw [ticked.receiver]
  rfl

/-- A write to the modem control register opens the loop or keeps it closed. -/
theorem Loops.leave (mode : known.LoopMode) (h : Loops known clock out waiting chip)
    (line : SerialLine) (byte : UInt8) :
    (chip.outb line serialRegMcr byte).sending =
      { known with
        clock := clock + 1
        transmitter := out.drop (line clock).shifts
        modemControl := byte } :=
  congrArg (fun u : Uart => { u with modemControl := byte }) (h.tick mode line).sending

theorem Loops.leave_sent (mode : known.LoopMode) (h : Loops known clock out waiting chip)
    (line : SerialLine) (byte : UInt8) : (chip.outb line serialRegMcr byte).sent = known.sent :=
  (congrArg Uart.sent (h.leave mode line byte) :
    (chip.outb line serialRegMcr byte).sending.sent = _)

end Uart

/-! ## The test -/

section Test

variable {lines : UInt16 → SerialLine} {board : UartBoard} {port : UInt16} {chip known : Uart}
  {clock : ℕ} {waiting : List UInt8}

/-- What the chip has received when the driver looks for the test byte. -/
def heard (line : SerialLine) (clock : ℕ) (waiting : List UInt8) : List UInt8 :=
  waiting ++ ([serialTestByte].take (line (clock + 2)).shifts).take (uartDepth - waiting.length)

/-- What is left of the test byte in the transmitter behind the test. -/
def unsent (line : SerialLine) (clock : ℕ) : List UInt8 :=
  (([serialTestByte].drop (line (clock + 2)).shifts).drop (line (clock + 3)).shifts).drop
    (line (clock + 4)).shifts

/-- The test of a chip in the loop. -/
theorem testPort_run (aligned : port % 8 = 0) (there : board port = some chip)
    (mode : known.LoopMode) (loops : Uart.Loops known clock [] waiting chip) :
    ∃ chip', (testPort (uartIo lines) port).run board =
        (decide ((heard (lines port) clock waiting).head? = some serialTestByte),
          Function.update board port (some chip')) ∧
      chip'.sent = known.sent ∧
      ((heard (lines port) clock waiting).head? = some serialTestByte →
        chip'.sending = { known with
          clock := clock + 5
          transmitter := unsent (lines port) clock
          modemControl := 0x0F }) := by
  have first := loops.tick_empty mode (lines port)
  have idle : (chip.tick (lines port)).transmitter = [] :=
    congrArg Uart.transmitter first.sending
  have second := first.write mode (lines port) serialTestByte
  set chip₁ := (chip.tick (lines port)).outb (lines port) serialRegData serialTestByte with wrote₁
  have wrote : tryWriteChar (uartIo lines) port serialTestByte board =
      (true, Function.update board port (some chip₁)) := by
    refine (tryWriteChar_run aligned there serialTestByte).trans ?_
    rw [idle, List.isEmpty_nil, if_pos rfl]
  have third := second.tick mode (lines port)
  set chip₂ := chip₁.tick (lines port) with ticked₂
  have waits : chip₂.receiver = heard (lines port) clock waiting := third.receiver
  have looked : tryReadChar (uartIo lines) port (Function.update board port (some chip₁)) =
      if chip₂.receiver.isEmpty then (none, Function.update board port (some chip₂))
      else (some (chip₂.inb (lines port) serialRegData).1,
        Function.update board port (some (chip₂.inb (lines port) serialRegData).2)) := by
    refine (tryReadChar_run aligned (Function.update_self _ _ _)).trans ?_
    rw [Function.update_idem, Function.update_idem]
  have leaves : ∀ (chip' : Uart) (byte : UInt8),
      (uartIo lines).outb (port + serialRegMcr) byte (Function.update board port (some chip')) =
        ((), Function.update board port
          (some (chip'.outb (lines port) serialRegMcr byte))) :=
    uartIo_outb_update aligned (by decide) board
  change ∃ chip', testPort (uartIo lines) port board = _ ∧ _
  -- what the driver finds decides how the modem control register is left
  cases found : heard (lines port) clock waiting with
  | nil =>
      rw [waits, found, List.isEmpty_nil, if_pos rfl] at looked
      refine ⟨chip₂.outb (lines port) serialRegMcr 0x00, ?_, ?_, nofun⟩
      · rw [testPort, accesses_bind wrote, if_pos rfl, accesses_bind looked, if_neg (by decide)]
        exact accesses_bind (leaves chip₂ 0x00)
      · exact third.leave_sent mode (lines port) 0x00
  | cons byte rest =>
      rw [waits, found, List.isEmpty_cons, if_neg Bool.false_ne_true] at looked
      have ready : Uart.Loops known (clock + 3)
          ([serialTestByte].drop (lines port (clock + 2)).shifts) (byte :: rest) chip₂ :=
        ⟨third.sending, waits.trans found⟩
      obtain ⟨same, rest', fourth⟩ := ready.read mode (lines port)
      set chip₃ := (chip₂.inb (lines port) serialRegData).2
      rw [same] at looked
      by_cases echo : byte = serialTestByte
      · refine ⟨chip₃.outb (lines port) serialRegMcr 0x0F, ?_, ?_, fun _ => ?_⟩
        · rw [testPort, accesses_bind wrote, if_pos rfl, accesses_bind looked,
            if_pos (congrArg some echo), List.head?_cons, decide_eq_true (congrArg some echo)]
          exact accesses_bind (leaves chip₃ 0x0F)
        · exact fourth.leave_sent mode (lines port) 0x0F
        · exact fourth.leave mode (lines port) 0x0F
      · have other : some byte ≠ some serialTestByte := fun eq => echo (Option.some.inj eq)
        refine ⟨chip₃.outb (lines port) serialRegMcr 0x00, ?_, ?_, fun eq => absurd eq other⟩
        · rw [testPort, accesses_bind wrote, if_pos rfl, accesses_bind looked, if_neg other,
            List.head?_cons, decide_eq_false other]
          exact accesses_bind (leaves chip₃ 0x00)
        · exact fourth.leave_sent mode (lines port) 0x00

/-- The set-up of a port that takes its writes one after the other. -/
theorem configurePort_of_writes {σ γ : Type} {io : IoDevice σ} {place : γ → σ}
    {write : γ → UInt16 → UInt8 → γ}
    (writes : ∀ (chip : γ) (register : UInt16) (byte : UInt8), register < 8 →
      io.outb (port + register) byte (place chip) = ((), place (write chip register byte)))
    (chip : γ) (baudrate : UInt32) (dataBits : SerialDataBits) (parity : SerialParity)
    (stopBits : SerialStopBits) :
    configurePort io port baudrate dataBits parity stopBits (place chip) =
      ((), place (([
        (serialRegIer, 0x00), (serialRegLcr, 0x80),
        (serialRegLsb, ((serialBaseClock / baudrate).toUInt16 &&& 0xFF).toUInt8),
        (serialRegMsb, ((serialBaseClock / baudrate).toUInt16 >>> 8 &&& 0xFF).toUInt8),
        (serialRegLcr, 0x00), (serialRegLcr, lineControl dataBits parity stopBits),
        (serialRegFcr, 0xC7), (serialRegMcr, 0x0B), (serialRegMcr, 0x1E)].foldl
          (fun chip access => write chip access.1 access.2) chip))) := by
  rw [configurePort, accesses_bind (writes _ serialRegIer _ (by decide)),
    accesses_bind (writes _ serialRegLcr _ (by decide)),
    accesses_bind (writes _ serialRegLsb _ (by decide)),
    accesses_bind (writes _ serialRegMsb _ (by decide)),
    accesses_bind (writes _ serialRegLcr _ (by decide)),
    accesses_bind (writes _ serialRegLcr _ (by decide)),
    accesses_bind (writes _ serialRegFcr _ (by decide)),
    accesses_bind (writes _ serialRegMcr _ (by decide))]
  exact writes _ serialRegMcr _ (by decide)

/-- A chip takes them. -/
theorem configurePort_run (aligned : port % 8 = 0) (there : board port = some chip)
    (baudrate : UInt32) (dataBits : SerialDataBits) (parity : SerialParity)
    (stopBits : SerialStopBits) :
    configurePort (uartIo lines) port baudrate dataBits parity stopBits board =
      ((), Function.update board port (some ((chip.formatted (lines port)
        ((serialBaseClock / baudrate).toUInt16 &&& 0xFF).toUInt8
        ((serialBaseClock / baudrate).toUInt16 >>> 8 &&& 0xFF).toUInt8
        (lineControl dataBits parity stopBits)).looped (lines port)))) := by
  have start : Function.update board port (some chip) = board := by
    rw [← there, Function.update_eq_self]
  have taken := configurePort_of_writes (fun chip' _ byte inside =>
    @uartIo_outb_update lines _ _ aligned inside board chip' byte) chip baudrate dataBits parity
      stopBits
  rw [start] at taken
  exact taken

/-- Where there is no chip the driver reads ones, and the test fails. -/
theorem loopBackTest_absent (aligned : port % 8 = 0) (absent : board port = none)
    (baudrate : UInt32) (dataBits : SerialDataBits) (parity : SerialParity)
    (stopBits : SerialStopBits) :
    (loopBackTest (uartIo lines) port baudrate dataBits parity stopBits).run board =
      (false, board) := by
  have writes : ∀ (register : UInt16) (byte : UInt8), register < 8 →
      (uartIo lines).outb (port + register) byte board = ((), board) := by
    intro register byte inside
    unfold uartIo
    simp only [uartBase_add aligned inside, absent]
  have reads : ∀ register : UInt16, register < 8 →
      (uartIo lines).inb (port + register) board = (0xFF, board) := by
    intro register inside
    unfold uartIo
    simp only [uartBase_add aligned inside, absent]
  have configured : configurePort (uartIo lines) port baudrate dataBits parity stopBits board =
      ((), board) :=
    @configurePort_of_writes port _ Unit (uartIo lines) (fun _ => board) (fun _ _ _ => ())
      (fun _ => writes) () baudrate dataBits parity stopBits
  have wrote : tryWriteChar (uartIo lines) port serialTestByte board = (true, board) := by
    have polled : isTransmitEmpty (uartIo lines) port board = (true, board) :=
      accesses_bind (reads serialRegLsr (by decide))
    rw [tryWriteChar, accesses_bind polled]
    exact accesses_bind (writes serialRegData _ (by decide))
  have looked : tryReadChar (uartIo lines) port board = (some 0xFF, board) := by
    have polled : serialReceived (uartIo lines) port board = (true, board) :=
      accesses_bind (reads serialRegLsr (by decide))
    rw [tryReadChar, accesses_bind polled]
    exact accesses_bind (reads serialRegData (by decide))
  change loopBackTest (uartIo lines) port baudrate dataBits parity stopBits board = _
  rw [loopBackTest, accesses_bind configured, testPort, accesses_bind wrote, if_pos rfl,
    accesses_bind looked, if_neg (by decide)]
  exact accesses_bind (writes serialRegMcr _ (by decide))

/-- Whether the driver hears its test byte first, from the line of an idle chip. -/
def echoes (line : SerialLine) (clock : ℕ) : Bool :=
  (heard line (clock + 9) (Uart.early line (clock + 6))).head? = some serialTestByte

/-- An idle chip passes exactly if its echo is in time and nothing is in front of it.  It has
sent nothing, and if it passes it is in service. -/
theorem loopBackTest_run (aligned : port % 8 = 0) (there : board port = some chip)
    (idle : chip.Idle) (baudrate : UInt32) (dataBits : SerialDataBits) (parity : SerialParity)
    (stopBits : SerialStopBits) :
    ∃ chip', (loopBackTest (uartIo lines) port baudrate dataBits parity stopBits).run board =
        (echoes (lines port) chip.clock, Function.update board port (some chip')) ∧
      chip'.sent = chip.sent ∧
      (echoes (lines port) chip.clock = true → chip'.InService ∧
        chip'.output = chip.sent ++ unsent (lines port) (chip.clock + 9)) := by
  have none := idle.transmitter
  set low := ((serialBaseClock / baudrate).toUInt16 &&& 0xFF).toUInt8
  set high := ((serialBaseClock / baudrate).toUInt16 >>> 8 &&& 0xFF).toUInt8
  set control := lineControl dataBits parity stopBits with format
  have closed : (control &&& 0x80 != 0) = false := by
    rw [format]
    cases dataBits <;> cases parity <;> cases stopBits <;> decide
  have formatted := idle.formatted_eq (lines port) low high control
  set chip₁ := chip.formatted (lines port) low high control
  have time : chip₁.clock = chip.clock + 6 := congrArg Uart.clock formatted
  have idle₁ : chip₁.Idle := by
    refine ⟨?_, ?_, ?_⟩
    · exact (congrArg Uart.transmitter formatted).trans none
    · exact (congrArg Uart.latch formatted).trans closed
    · exact (congrArg Uart.loopBack formatted).trans idle.connected
  obtain ⟨looped, waiting⟩ := idle₁.looped_eq (lines port)
  rw [time] at waiting
  rw [formatted, time] at looped
  have mode : Uart.LoopMode (chip₁.looped (lines port)).sending := by
    have loop : ((0x1E : UInt8) &&& 0x10 != 0) = true := by decide
    rw [looped]
    exact ⟨rfl, closed, loop⟩
  set chip₂ := chip₁.looped (lines port)
  have loops : Uart.Loops chip₂.sending (chip.clock + 9) []
      (Uart.early (lines port) (chip.clock + 6)) chip₂ := by
    have whole : ∀ u : Uart, u.clock = chip.clock + 9 → u.transmitter = [] →
        u = { u with clock := chip.clock + 9, transmitter := [] } := by
      intro u time empty
      rw [← time, ← empty]
    refine ⟨whole _ ?_ ?_, waiting⟩
    · exact congrArg Uart.clock looped
    · exact (congrArg Uart.transmitter looped).trans none
  have kept : chip₂.sending.sent = chip.sent := (congrArg Uart.sent looped).trans rfl
  have there₂ : Function.update board port (some chip₂) port = some chip₂ :=
    Function.update_self _ _ _
  obtain ⟨chip', tested, sent, passes⟩ := @testPort_run lines _ _ _ _ _ _ aligned there₂ mode loops
  rw [Function.update_idem] at tested
  refine ⟨chip', ?_, ?_, fun echo => ?_⟩
  · exact (accesses_bind (configurePort_run aligned there baudrate dataBits parity
      stopBits)).trans tested
  · exact sent.trans kept
  · have known := passes (of_decide_eq_true echo)
    have opened : ((0x0F : UInt8) &&& 0x10 != 0) = false := by decide
    rw [looped] at known
    refine ⟨⟨congrArg Uart.fifos known, (congrArg Uart.latch known).trans closed,
      (congrArg Uart.loopBack known).trans opened⟩, ?_⟩
    rw [Uart.output, sent.trans kept]
    exact congrArg (chip.sent ++ ·) (congrArg Uart.transmitter known)

end Test

end ArkoiOs
