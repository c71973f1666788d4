import ArkoiOs.Serial.SelfTest
import ArkoiOs.Serial.Transfers

/-!
# The first line over a port

`kernel_main` initialises the serial ports and later prints over COM1, asserting that it can.
A machine whose first chip passes its test puts the text on the line; on any other the
assertion fails.
-/

namespace ArkoiOs

open Filter Retry SerialMachine

/-- `serial_init()` and `SERIAL_PRINT(SERIAL_PORT_COM1, text)`; between them nothing uses the
serial ports. -/
def bootLog {ι σ : Type} (io : IoDevice σ) (fuel : ℕ) (text : Pointer ι)
    (expression : String) : KernelM (SerialMachine ι σ) Unit := do
  onDriver (serialInit io)
  serialPrint io fuel serialPortCom1 text expression

/-- The initialisation of a port by `serial_init`. -/
def initCall (port : UInt16) : SerialCall := .initPort port 115200 .eight .none .one

section Boards

variable {lines : UInt16 → SerialLine} {board : UartBoard} {port other : UInt16}

/-- The chip of a port, if there is one, hears its echo. -/
def HearsEcho (lines : UInt16 → SerialLine) (board : UartBoard) (port : UInt16) : Prop :=
  ∃ chip, board port = some chip ∧ echoes (lines port) chip.clock = true

/-- A port passes its test if its chip hears its echo. -/
theorem initCall_passes (aligned : port % 8 = 0)
    (idle : ∀ chip, board port = some chip → chip.Idle) :
    ((initCall port).test (uartIo lines) board).1 = some port ↔ HearsEcho lines board port := by
  unfold HearsEcho
  cases there : board port with
  | none =>
      have run := @loopBackTest_absent lines _ _ aligned there 115200 .eight .none .one
      have fails : ((initCall port).test (uartIo lines) board).1 = none :=
        if_neg (Bool.eq_false_iff.1 (congrArg Prod.fst run))
      rw [fails]
      simp only [reduceCtorEq, false_and, exists_false]
  | some chip =>
      obtain ⟨chip', run, -⟩ :=
        @loopBackTest_run lines _ _ _ aligned there (idle chip there) 115200 .eight .none .one
      have tested : ((initCall port).test (uartIo lines) board).1 =
          if echoes (lines port) chip.clock then some port else none :=
        congrArg (fun passes : Bool => if passes then some port else none)
          (congrArg Prod.fst run)
      rw [tested]
      simp only [Option.some.injEq, exists_eq_left', ite_eq_left_iff, reduceCtorEq, imp_false,
        Bool.not_eq_true, Bool.not_eq_false]

/-- The chip has sent nothing, and if it hears its echo it is in service. -/
theorem initCall_chip {chip : Uart} (aligned : port % 8 = 0) (there : board port = some chip)
    (idle : chip.Idle) :
    ∃ chip', ((initCall port).test (uartIo lines) board).2 port = some chip' ∧
      chip'.sent = chip.sent ∧
      (echoes (lines port) chip.clock = true → chip'.InService ∧
        chip'.output = chip.sent ++ unsent (lines port) (chip.clock + 9)) := by
  obtain ⟨chip', run, rest⟩ :=
    @loopBackTest_run lines _ _ _ aligned there idle 115200 .eight .none .one
  refine ⟨chip', ?_, rest⟩
  exact (congrFun (congrArg Prod.snd run) port).trans (Function.update_self _ _ _)

/-- The test of a port leaves the other chips alone. -/
theorem initCall_other (aligned : port % 8 = 0)
    (idle : ∀ chip, board port = some chip → chip.Idle) (apart : other ≠ port) :
    ((initCall port).test (uartIo lines) board).2 other = board other := by
  cases there : board port with
  | none =>
      have run := @loopBackTest_absent lines _ _ aligned there 115200 .eight .none .one
      exact congrFun (congrArg Prod.snd run) other
  | some chip =>
      obtain ⟨chip', run, -⟩ :=
        @loopBackTest_run lines _ _ _ aligned there (idle chip there) 115200 .eight .none .one
      exact (congrFun (congrArg Prod.snd run) other).trans (Function.update_of_ne apart _ _)

/-- `serial_init` makes records of the ports that answer. -/
theorem serialInit_run {driver : Serial UartBoard} (fresh : driver.serialPorts = none)
    (uncached : driver.cachedLookupResult = none) (heap : 0 < driver.emm.cursor)
    (room : driver.emm.cursor.toNat + 24 ≤ driver.emm.end_.toNat)
    (idle : ∀ port chip, driver.device port = some chip → chip.Idle) :
    ∃ driver' configs, serialInit (uartIo lines) driver = .ok () driver' ∧
      driver'.Lists configs ∧
      driver'.device serialPortCom1 =
        ((initCall serialPortCom1).test (uartIo lines) driver.device).2 serialPortCom1 ∧
      (driver'.find configs serialPortCom1 = none ↔
        ¬HearsEcho lines driver.device serialPortCom1) := by
  have empty : Serves [] driver [] := .start fresh uncached
  have enough : HasRoom (uartIo lines) [initCall serialPortCom1, initCall serialPortCom2] driver
      [] := by
    have few := (List.toFinset_card_le _).trans (length_passingPorts_le (uartIo lines)
      [initCall serialPortCom1, initCall serialPortCom2] driver.device)
    rw [List.length_cons, List.length_singleton] at few
    refine .start heap ?_
    omega
  obtain ⟨result, driver₁, configs₁, run, serves₁, room₁, device₁, passed₁⟩ :=
    empty.step enough (by decide)
  obtain ⟨result', driver₂, configs₂, run', serves₂, -, device₂, -⟩ :=
    serves₁.step room₁ (by decide)
  refine ⟨driver₂, configs₂, ?_, serves₂.toLists, ?_, ?_⟩
  · exact (Machine.bind_of_ok run).trans (Machine.bind_of_ok run')
  · rw [device₂, initCall_other (by decide) ?_ (by decide), device₁]
    intro chip there
    rw [device₁, initCall_other (by decide) (idle _) (by decide)] at there
    exact idle _ chip there
  · obtain ⟨found, _, -, search, missing, -⟩ := serves₂.agrees.lookup serialPortCom1
    have same : driver₂.find configs₂ serialPortCom1 = found := by
      have searched := (searchPort_eq serves₂.toLists serialPortCom1).symm.trans search
      injection searched
    have second : SerialCall.initialised serialPortCom1 (initCall serialPortCom2, result') =
        none :=
      SerialCall.initialised_of_ne fun _ _ => show serialPortCom2 ≠ serialPortCom1 by decide
    rw [same, missing, List.nil_append, List.singleton_append, List.forall_mem_cons,
      List.forall_mem_singleton, passed₁ serialPortCom1, and_iff_left second,
      ← initCall_passes (by decide) (idle _)]

end Boards

section Boot

variable {ι : Type} {lines : UInt16 → SerialLine} {s : SerialMachine ι UartBoard}
  {text : Pointer ι} {string : List UInt8}

/-- The driver is as the image of the kernel has it, with room for two records, and the chips
have nothing to send. -/
structure SerialMachine.AtBoot (s : SerialMachine ι UartBoard) : Prop where
  fresh : s.driver.serialPorts = none
  uncached : s.driver.cachedLookupResult = none
  heap : 0 < s.driver.emm.cursor
  room : s.driver.emm.cursor.toNat + 24 ≤ s.driver.emm.end_.toNat
  idle : ∀ port chip, s.driver.device port = some chip → chip.Idle

/-- Where COM1 answers, the text goes out behind what is left of the test.  Anywhere else the
kernel panics, and no chip of COM1 has sent anything. -/
theorem bootLog_prints_or_panics (boot : s.AtBoot) (holds : s.memory.Holds text (string ++ [0]))
    (noZero : 0 ∉ string) (bound : string.length < 2 ^ 32)
    (drains : (lines serialPortCom1).Drains) (expression : String) :
    (∀ chip, s.driver.device serialPortCom1 = some chip →
      echoes (lines serialPortCom1) chip.clock = true →
      ∃ s' chip', Settles (fun fuel => bootLog (uartIo lines) fuel text expression) s
          (.ok () s') ∧
        s'.memory = s.memory ∧ s'.driver.device serialPortCom1 = some chip' ∧
        chip'.InService ∧ chip'.output = chip.sent ++
          unsent (lines serialPortCom1) (chip.clock + 9) ++ string) ∧
    (¬HearsEcho lines s.driver.device serialPortCom1 →
      ∃ s', (∀ fuel, bootLog (uartIo lines) fuel text expression s =
          .error (.panic ("Assertion failed: " ++ expression) []) s') ∧
        ∀ chip, s.driver.device serialPortCom1 = some chip →
          ∃ chip', s'.driver.device serialPortCom1 = some chip' ∧ chip'.sent = chip.sent) := by
  obtain ⟨driver, configs, run, lists, device, missing⟩ := @serialInit_run lines s.driver
    boot.fresh boot.uncached boot.heap boot.room boot.idle
  have started : onDriver (serialInit (uartIo lines)) s = .ok () { s with driver := driver } :=
    Machine.zoom_of_ok rfl run
  have looked := serialGetPort_eq lists serialPortCom1
  refine ⟨fun chip there echo => ?_, fun silent => ?_⟩
  · obtain ⟨chip₁, there₁, sent, passes⟩ :=
      @initCall_chip lines _ _ _ (by decide) there (boot.idle _ chip there)
    obtain ⟨service, output⟩ := passes echo
    obtain ⟨config, found⟩ := Option.ne_none_iff_exists'.1 fun none =>
      missing.1 none ⟨chip, there, echo⟩
    rw [found] at looked
    let later : SerialMachine ι UartBoard := { s with driver := { driver with
      cachedLookupResult := (some config).or driver.cachedLookupResult } }
    have got : onDriver (serialGetPort serialPortCom1) { s with driver := driver } =
        .ok (some config) later := Machine.zoom_of_ok rfl looked
    have connected : later.Connected config serialPortCom1 chip₁ :=
      ⟨Serial.portOf_of_find found, by decide, device.trans there₁⟩
    obtain ⟨chip', written, moved⟩ :=
      serialWriteString_settles connected service drains holds noZero bound
    refine ⟨later.setChip serialPortCom1 chip', chip', ?_, rfl, (connected.setChip chip').chip,
      moved.service, ?_⟩
    · filter_upwards [written] with fuel wrote
      rw [bootLog, Machine.bind_of_ok started, serialPrint, Machine.bind_of_ok got,
        Machine.bind_of_ok wrote]
      rfl
    · rw [moved.output, output]
  · have nothing := missing.2 silent
    rw [nothing] at looked
    let later : SerialMachine ι UartBoard := { s with driver := { driver with
      cachedLookupResult := (none : Option UInt32).or driver.cachedLookupResult } }
    have got : onDriver (serialGetPort serialPortCom1) { s with driver := driver } =
        .ok none later := Machine.zoom_of_ok rfl looked
    refine ⟨later, fun fuel => ?_, fun chip there => ?_⟩
    · rw [bootLog, Machine.bind_of_ok started, serialPrint, Machine.bind_of_ok got]
      rfl
    · obtain ⟨chip₁, there₁, sent, -⟩ :=
        @initCall_chip lines _ _ _ (by decide) there (boot.idle _ chip there)
      exact ⟨chip₁, device.trans there₁, sent⟩

end Boot

/-- A line that finishes a byte at each access and brings none. -/
def quietLine : SerialLine := fun _ => ⟨1, [], 0⟩

/-- A chip behind its reset. -/
def resetUart : Uart where
  clock := 0
  interruptEnable := 0
  lineControl := 0
  modemControl := 0
  divisorLow := 0
  divisorHigh := 0
  fifos := false
  receiver := []
  transmitter := []
  sent := []
  accepted := []
  lost := []

/-- The machine at boot with these chips, and the string `"hi"`. -/
def bootMachine (board : UartBoard) : SerialMachine ℕ UartBoard where
  driver := .boot (fun _ => ⟨0, 0, none⟩) ⟨0x200000, 0x300000⟩ board
  memory := fun object offset => ([[0x68, 0x69, 0]].getD object [])[offset]?

theorem bootMachine_atBoot {board : UartBoard}
    (idle : ∀ port chip, board port = some chip → chip.Idle) : (bootMachine board).AtBoot where
  fresh := rfl
  uncached := rfl
  heap := (by decide : (0 : UInt32) < 0x200000)
  room := (by decide : (0x200000 : UInt32).toNat + 24 ≤ (0x300000 : UInt32).toNat)
  idle := idle

theorem resetUart_idle : resetUart.Idle := ⟨rfl, by decide, by decide⟩

/-- A chip at COM1 sends the string, and a machine without one panics. -/
theorem bootMachine_prints_or_panics :
    (∃ s' chip', Settles (fun fuel => bootLog (uartIo fun _ => quietLine) fuel ⟨0, 0⟩ "text")
        (bootMachine fun port => if port = 0x3F8 then some resetUart else none) (.ok () s') ∧
      s'.driver.device serialPortCom1 = some chip' ∧ chip'.output = [0x68, 0x69]) ∧
    ∃ s', ∀ fuel, bootLog (uartIo fun _ => quietLine) fuel ⟨0, 0⟩ "text"
        (bootMachine fun _ => none) =
      .error (.panic ("Assertion failed: " ++ "text") []) s' := by
  have drains : SerialLine.Drains quietLine :=
    (Eventually.of_forall fun _ => Nat.one_pos).frequently
  have holds : ∀ board, (bootMachine board).memory.Holds ⟨0, 0⟩ ([0x68, 0x69] ++ [0]) := by
    intro board
    change ByteMemory.Holds (fun object offset => ([[0x68, 0x69, 0]].getD object [])[offset]?) _ _
    decide
  have chips : ∀ port chip, (if port = (0x3F8 : UInt16) then some resetUart else none) =
      some chip → chip.Idle := by
    intro port chip there
    split at there
    · exact Option.some.inj there ▸ resetUart_idle
    · cases there
  have noChips : ∀ port chip, (fun _ => none : UartBoard) port = some chip → chip.Idle := by
    intro port chip there
    cases there
  have silent : ¬HearsEcho (fun _ => quietLine) (fun _ => none) serialPortCom1 := by
    rintro ⟨chip, there, -⟩
    cases there
  refine ⟨?_, ?_⟩
  · obtain ⟨s', chip', prints, -, there, -, output⟩ :=
      (@bootLog_prints_or_panics ℕ (fun _ => quietLine) _ _ _ (bootMachine_atBoot chips)
        (holds _) (by decide) (by decide) drains "text").1 resetUart rfl (by decide)
    exact ⟨s', chip', prints, there, output⟩
  · obtain ⟨s', panics, -⟩ :=
      (@bootLog_prints_or_panics ℕ (fun _ => quietLine) _ _ _ (bootMachine_atBoot noChips)
        (holds _) (by decide) (by decide) drains "text").2 silent
    exact ⟨s', panics⟩

end ArkoiOs
