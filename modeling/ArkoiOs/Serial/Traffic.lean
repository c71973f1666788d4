import ArkoiOs.Serial.Transfers

/-!
# Traffic over a port

Calls that write and read characters and strings, in any order and over a line of any pace.
All texts go out one behind the other, and what the reads return, one behind the other, is
what has come in.
-/

namespace ArkoiOs

open Filter Retry SerialMachine

variable {ι : Type}

/-! ## Calls -/

/-- A call that moves bytes over a port. -/
inductive SerialTransfer (ι : Type)
  | writeChar (character : UInt8)
  | writeString (text : Pointer ι)
  | readChar (character : Pointer ι)
  | readString (buffer : Pointer ι) (size : UInt32)
  deriving DecidableEq, Repr

namespace SerialTransfer

/-- Make the call. -/
def perform {σ : Type} [DecidableEq ι] (io : IoDevice σ) (fuel : ℕ) (config : UInt32) :
    SerialTransfer ι → KernelM (SerialMachine ι σ) Bool
  | writeChar character => serialWriteChar io fuel (some config) character
  | writeString text => serialWriteString io fuel (some config) (some text)
  | readChar character => serialReadChar io fuel (some config) (some character)
  | readString buffer size => serialReadString io fuel (some config) (some buffer) size

/-- The memory a call may write to. -/
def window : SerialTransfer ι → Option (Pointer ι × ℕ)
  | writeChar _ | writeString _ => none
  | readChar character => some (character, 1)
  | readString buffer size => some (buffer, size.toNat)

/-- Calls can be made: texts are terminated and apart from the windows, windows lie inside
their objects, and the line goes on as long as the driver waits for it.  The call writes
the text. -/
def Ready (line : SerialLine) (memory : ByteMemory ι) (windows : List (Pointer ι × ℕ)) :
    SerialTransfer ι → List UInt8 → Prop
  | writeChar character, text => text = [character] ∧ line.Drains
  | writeString pointer, text =>
      memory.Holds pointer (text ++ [0]) ∧ 0 ∉ text ∧ text.length < 2 ^ 32 ∧ line.Drains ∧
        ∀ w ∈ windows, pointer.Apart (text.length + 1) w.1 w.2
  | readChar character, text =>
      text = [] ∧ (memory.byte character).isSome ∧ line.Feeds ∧ (character, 1) ∈ windows
  | readString buffer size, text =>
      text = [] ∧ size ≠ 0 ∧ memory.Room buffer size.toNat ∧ line.Feeds ∧
        (buffer, size.toNat) ∈ windows

/-- What a call takes from the line: a read waits for its character, or for a line that
fills the buffer or ends with a newline. -/
def Takes : SerialTransfer ι → List UInt8 → Prop
  | writeChar _, text | writeString _, text => text = []
  | readChar _, text => text.length = 1
  | readString _ size, text => CompleteLine (size.toNat - 1) text

/-- What a read stores. -/
def store [DecidableEq ι] (memory : ByteMemory ι) : SerialTransfer ι × List UInt8 → ByteMemory ι
  | (writeChar _, _) | (writeString _, _) => memory
  | (readChar character, text) => memory.overwrite character text
  | (readString buffer _, text) => memory.overwrite buffer (text ++ [0])

end SerialTransfer

section Runs

variable [DecidableEq ι] {lines : UInt16 → SerialLine} {s : SerialMachine ι UartBoard}
  {config : UInt32} {port : UInt16} {chip : Uart} {windows : List (Pointer ι × ℕ)}
  {call : SerialTransfer ι} {text : List UInt8}

namespace SerialTransfer

/-- Bytes written inside a window leave every call ready. -/
theorem Ready.overwrite {line : SerialLine} {memory : ByteMemory ι}
    (ready : call.Ready line memory windows text) {p : Pointer ι} {bytes : List UInt8} {size : ℕ}
    (listed : (p, size) ∈ windows) (short : bytes.length ≤ size) (room : memory.Room p size) :
    call.Ready line (memory.overwrite p bytes) windows text := by
  have inside : memory.Room p bytes.length := fun i hi => room i (hi.trans_le short)
  cases call with
  | writeChar character => exact ready
  | writeString pointer =>
      obtain ⟨holds, noZero, bound, drains, apart⟩ := ready
      refine ⟨holds.overwrite ?_, noZero, bound, drains, apart⟩
      rw [List.length_append, List.length_singleton]
      exact (apart _ listed).part (i := 0) (j := 0) (Nat.zero_add _).le
        ((Nat.zero_add _).le.trans short)
  | readChar character =>
      obtain ⟨none, there, rest⟩ := ready
      exact ⟨none, (ByteMemory.isSome_overwrite inside _).trans there, rest⟩
  | readString buffer size =>
      obtain ⟨none, positive, there, rest⟩ := ready
      exact ⟨none, positive, (ByteMemory.room_overwrite inside).2 there, rest⟩

/-- A call that is ready writes its text, or takes a line and stores it. -/
theorem Ready.settles (ready : call.Ready (lines port) s.memory windows text)
    (connected : s.Connected config port chip) (service : chip.InService) :
    ∃ taken chip', Settles (fun fuel => call.perform (uartIo lines) fuel config) s
        (.ok true (s.after port chip' (store s.memory (call, taken)))) ∧
      Uart.Moves (lines port) text taken chip chip' ∧ call.Takes taken ∧
      ∀ (other : SerialTransfer ι) text', other.Ready (lines port) s.memory windows text' →
        other.Ready (lines port) (store s.memory (call, taken)) windows text' := by
  cases call with
  | writeChar character =>
      obtain ⟨rfl, drains⟩ := ready
      obtain ⟨chip', settles, moved⟩ := writeChar_settles connected service drains character
      refine ⟨[], chip', ?_, moved, rfl, fun _ _ => id⟩
      filter_upwards [settles] with fuel run
      exact (Machine.bind_of_ok connected.recordPort_run).trans run
  | writeString pointer =>
      obtain ⟨holds, noZero, bound, drains, apart⟩ := ready
      obtain ⟨chip', settles, moved⟩ :=
        serialWriteString_settles connected service drains holds noZero bound
      exact ⟨[], chip', settles, moved, rfl, fun _ _ => id⟩
  | readChar character =>
      obtain ⟨rfl, there, feeds, listed⟩ := ready
      obtain ⟨byte, chip', settles, moved⟩ := readChar_settles connected service feeds there
      refine ⟨[byte], chip', ?_, moved.toMoves, rfl, fun other text' ready' => ?_⟩
      · filter_upwards [settles] with fuel run
        exact (Machine.bind_of_ok connected.recordPort_run).trans run
      · exact ready'.overwrite listed (Nat.le_refl 1) (ByteMemory.room_one.2 there)
  | readString buffer size =>
      obtain ⟨rfl, positive, room, feeds, listed⟩ := ready
      obtain ⟨line, chip', settles, moved, complete⟩ :=
        serialReadString_settles connected service feeds positive room
      refine ⟨line, chip', settles, moved.toMoves, complete, fun other text' ready' => ?_⟩
      refine ready'.overwrite listed ?_ room
      have short := complete.length_le
      have some : 0 < size.toNat :=
        Nat.pos_of_ne_zero fun zero => positive (UInt32.toNat_inj.1 zero)
      rw [List.length_append, List.length_singleton]
      omega

end SerialTransfer

/-- Calls that are ready succeed one after the other. -/
theorem serialTransfers_settle {calls : List (SerialTransfer ι)} {texts : List (List UInt8)}
    (connected : s.Connected config port chip) (service : chip.InService)
    (ready : List.Forall₂ (SerialTransfer.Ready (lines port) s.memory windows) calls texts) :
    ∃ taken chip', Settles (fun fuel =>
        calls.mapM (SerialTransfer.perform (uartIo lines) fuel config)) s
          (.ok (calls.map fun _ => true)
            (s.after port chip' ((calls.zip taken).foldl SerialTransfer.store s.memory))) ∧
      List.Forall₂ SerialTransfer.Takes calls taken ∧
      Uart.Moves (lines port) texts.flatten taken.flatten chip chip' := by
  induction calls generalizing s chip texts with
  | nil =>
      cases ready
      refine ⟨[], chip, .of_eq fun fuel => ?_, .nil, .refl service⟩
      exact congrArg (EStateM.Result.ok []) (connected.after_self s.memory).symm
  | cons call calls ih =>
      cases ready with
      | @cons _ text _ texts first rest =>
          obtain ⟨bytes, chip₁, settles, moved, takes, kept⟩ := first.settles connected service
          obtain ⟨taken, chip', settles', takes', moved'⟩ :=
            ih (connected.after chip₁ (SerialTransfer.store s.memory (call, bytes))) moved.service
              (rest.imp kept)
          refine ⟨bytes :: taken, chip', ?_, .cons takes takes', moved.trans moved'⟩
          filter_upwards [settles, settles'] with fuel run run'
          rw [List.mapM_cons, Machine.bind_of_ok run, Machine.bind_of_ok run', after_after]
          rfl

/-- Calls over a port with a chip in service all succeed.  The transmitter is given their
texts in order, and the reads take what has come in, in order and nothing else. -/
theorem serialTransfers_conserve {calls : List (SerialTransfer ι)} {texts : List (List UInt8)}
    (connected : s.Connected config port chip) (service : chip.InService)
    (ready : List.Forall₂ (SerialTransfer.Ready (lines port) s.memory windows) calls texts) :
    ∃ taken chip', Settles (fun fuel =>
        calls.mapM (SerialTransfer.perform (uartIo lines) fuel config)) s
          (.ok (calls.map fun _ => true)
            (s.after port chip' ((calls.zip taken).foldl SerialTransfer.store s.memory))) ∧
      List.Forall₂ SerialTransfer.Takes calls taken ∧
      chip'.output = chip.output ++ texts.flatten ∧
      ∃ new, chip'.accepted = chip.accepted ++ new ∧
        taken.flatten ++ chip'.receiver = chip.receiver ++ new := by
  obtain ⟨taken, chip', settles, takes, moved⟩ := serialTransfers_settle connected service ready
  obtain ⟨new, -, accepted, -, order, -⟩ := moved.input
  exact ⟨taken, chip', settles, takes, moved.output, new, accepted, order⟩

/-- A line that finishes a byte at each access and brings a newline at every other one. -/
def steadyLine : SerialLine := fun tick => ⟨1, if tick % 2 = 0 then [newlineChar] else [], 0⟩

theorem steadyLine_drains : steadyLine.Drains :=
  (Eventually.of_forall fun _ => Nat.one_pos).frequently

theorem steadyLine_feeds : steadyLine.Feeds := by
  refine frequently_atTop.2 fun tick => ⟨2 * tick, by omega, ?_⟩
  have even : 2 * tick % 2 = 0 := Nat.mul_mod_right 2 tick
  rw [steadyLine, if_pos even]
  exact List.cons_ne_nil _ _

theorem steadyLine_spaced : Uart.Spaced steadyLine := by
  intro tick
  rcases Nat.mod_two_eq_zero_or_one tick with even | odd
  · have next : ¬(tick + 1) % 2 = 0 := by omega
    simp only [steadyLine, if_pos even, if_neg next, List.length_singleton, List.length_nil,
      Nat.le_refl]
  · have now : ¬tick % 2 = 0 := by omega
    have next : (tick + 1) % 2 = 0 := by omega
    simp only [steadyLine, if_neg now, if_pos next, List.length_singleton, List.length_nil,
      Nat.zero_add, Nat.le_refl]

/-- A chip with both queues empty. -/
def readyUart : Uart where
  clock := 0
  interruptEnable := 0x00
  lineControl := 0x03
  modemControl := 0x0F
  divisorLow := 1
  divisorHigh := 0
  fifos := true
  receiver := []
  transmitter := []
  sent := []
  accepted := []
  lost := []

theorem readyUart_inService : readyUart.InService := ⟨rfl, by decide, by decide⟩

/-- COM1 with its record, the string `"hi"` and a buffer of four bytes. -/
def greetingMachine : SerialMachine ℕ UartBoard where
  driver :=
    { cachedLookupResult := none
      serialPorts := some 0x200000
      records := fun _ => ⟨0x3F8, 115200, none⟩
      emm := ⟨0x20000C, 0x300000⟩
      device := fun port => if port = 0x3F8 then some readyUart else none }
  memory := fun object offset => ([[0x68, 0x69, 0], [0, 0, 0, 0]].getD object [])[offset]?

theorem greetingMachine_connected : greetingMachine.Connected 0x200000 0x3F8 readyUart :=
  ⟨rfl, by decide, rfl⟩

/-- The string goes out, a line and a character come in, and another character goes out. -/
theorem greeting_conserved :
    ∃ taken chip', Settles (fun fuel =>
        [SerialTransfer.writeString ⟨0, 0⟩, .readString ⟨1, 0⟩ 4, .readChar ⟨1, 0⟩,
          .writeChar 0x21].mapM (SerialTransfer.perform (uartIo fun _ => steadyLine) fuel 0x200000))
        greetingMachine (.ok [true, true, true, true]
          (greetingMachine.after 0x3F8 chip'
            (([SerialTransfer.writeString ⟨0, 0⟩, .readString ⟨1, 0⟩ 4, .readChar ⟨1, 0⟩,
              .writeChar 0x21].zip taken).foldl SerialTransfer.store greetingMachine.memory))) ∧
      List.Forall₂ SerialTransfer.Takes [SerialTransfer.writeString ⟨0, 0⟩,
        .readString ⟨1, 0⟩ 4, .readChar ⟨1, 0⟩, .writeChar 0x21] taken ∧
      chip'.output = [0x68, 0x69, 0x21] ∧
      ∃ new, chip'.accepted = new ∧ taken.flatten ++ chip'.receiver = new := by
  have ready : List.Forall₂ (SerialTransfer.Ready steadyLine greetingMachine.memory
      [(⟨1, 0⟩, 4), (⟨1, 0⟩, 1)]) [SerialTransfer.writeString ⟨0, 0⟩, .readString ⟨1, 0⟩ 4,
        .readChar ⟨1, 0⟩, .writeChar 0x21] [[0x68, 0x69], [], [], [0x21]] := by
    refine .cons ⟨by decide, by decide, by decide, steadyLine_drains, ?_⟩
      (.cons ⟨rfl, by decide, by decide, steadyLine_feeds, List.mem_cons_self⟩
        (.cons ⟨rfl, by decide, steadyLine_feeds, List.mem_cons_of_mem _ List.mem_cons_self⟩
          (.cons ⟨rfl, steadyLine_drains⟩ .nil)))
    simp only [List.forall_mem_cons]
    exact ⟨Or.inl (by decide), Or.inl (by decide), nofun⟩
  exact @serialTransfers_conserve ℕ _ (fun _ => steadyLine) greetingMachine 0x200000 0x3F8
    readyUart _ _ _ greetingMachine_connected readyUart_inService ready

/-- Over a line that is not too fast a read loses nothing: the buffer holds the first line
of what was waiting and what the line has brought, and the receiver the rest. -/
theorem serialReadString_keepsUp {buffer : Pointer ι} {size : UInt32}
    (connected : s.Connected config port chip) (service : chip.InService)
    (feeds : (lines port).Feeds) (spaced : Uart.Spaced (lines port))
    (behind : chip.receiver.length < uartDepth) (positive : size ≠ 0)
    (room : s.memory.Room buffer size.toNat) :
    ∃ stream chip', stream = chip.receiver ++ (lines port).between chip.clock chip'.clock ∧
      Settles (fun fuel =>
        serialReadString (uartIo lines) fuel (some config) (some buffer) size) s
          (.ok true (s.after port chip'
            (s.memory.overwrite buffer (firstLine (size.toNat - 1) stream ++ [0])))) ∧
      CompleteLine (size.toNat - 1) (firstLine (size.toNat - 1) stream) ∧
      chip'.receiver = stream.drop (firstLine (size.toNat - 1) stream).length ∧
      chip'.lost = chip.lost := by
  obtain ⟨text, chip', settles, reads, complete⟩ :=
    serialReadString_settles connected service feeds positive room
  obtain ⟨-, kept⟩ := reads.keepsUp spaced behind
  obtain ⟨new, dropped, -, lost, order, whole⟩ := reads.input
  have none : dropped = [] := List.append_cancel_left
    (lost.symm.trans (kept.trans (List.append_nil _).symm))
  rw [whole none] at order
  have line : firstLine (size.toNat - 1)
      (chip.receiver ++ (lines port).between chip.clock chip'.clock) = text := by
    rw [← order]
    exact complete _
  refine ⟨_, chip', rfl, ?_, ?_, ?_, kept⟩
  · rw [line]
    exact settles
  · rw [line]
    exact complete
  · rw [line, ← order, List.drop_left]

/-- A line for the buffer of four bytes. -/
theorem greeting_keepsUp :
    ∃ stream chip', stream = steadyLine.between 0 chip'.clock ∧
      Settles (fun fuel => serialReadString (uartIo fun _ => steadyLine) fuel (some 0x200000)
        (some ⟨1, 0⟩) 4) greetingMachine
          (.ok true (greetingMachine.after 0x3F8 chip'
            (greetingMachine.memory.overwrite ⟨1, 0⟩ (firstLine 3 stream ++ [0])))) ∧
      CompleteLine 3 (firstLine 3 stream) ∧
      chip'.receiver = stream.drop (firstLine 3 stream).length ∧ chip'.lost = [] :=
  @serialReadString_keepsUp ℕ _ (fun _ => steadyLine) greetingMachine 0x200000 0x3F8 readyUart
    ⟨1, 0⟩ 4 greetingMachine_connected readyUart_inService steadyLine_feeds steadyLine_spaced
    (by decide) (by decide) (by decide)

end Runs

end ArkoiOs
