import ArkoiOs.Idt.Context
import ArkoiOs.Idt.Pic

/-!
# Interrupts of devices

The processor, the kernel and the interrupt controllers together.  A device asks for
the processor on its line; when the chips offer the line and the processor takes
interrupts, the vector of the line is served and the chips see the bytes that the
kernel has written meanwhile.  A device that is not served at once takes its request
back, so that the chips keep none.  Between interrupts the kernel masks and unmasks lines.
-/

namespace ArkoiOs

/-! ## The model -/

/-- The processor with the kernel, and the chips. -/
structure Board (η ω : Type) where
  machine : X86 η ω
  pics : Pics

section Model

variable {η ω : Type} (invoke : η → IsrFrame → KernelM (Interrupts η ω) Unit)
  (callee : IsrFrame → Cpu → Cpu)

/-- Run code on the chips. -/
def onPics {α : Type} (x : KernelM Pics α) : KernelM (Board η ω) α :=
  Machine.zoom (fun s => some s.pics) (fun s pics => { s with pics := pics }) .nullDereference x

/-- Run code on the processor. -/
def onMachine (x : KernelM (X86 η ω) Unit) : KernelM (Board η ω) Unit :=
  Machine.zoom (fun s => some s.machine) (fun s machine => { s with machine := machine })
    .nullDereference x

/-- A device asks for the processor on a line, and takes the request back if it is not served
at once. -/
def Board.interrupt (line : ℕ) : KernelM (Board η ω) Unit := do
  let s ← get
  if s.machine.cpu.eflags &&& eflagsIf ≠ 0 ∧ s.pics.offers line then do
    onPics (modify fun pics => pics.accept line)
    onMachine (serveInterrupt invoke callee (s.pics.vectorOf line) none)
    modify fun s' => { s' with
      pics := s'.pics.writes (s'.machine.kernel.ports.drop s.machine.kernel.ports.length) }
  else pure ()

/-- What happens at the board. -/
inductive BoardEvent
  | interrupt (line : ℕ)
  | masks (call : PicCall)

namespace BoardEvent

/-- Line 2 of the first chip is the second chip. -/
def Valid : BoardEvent → Prop
  | interrupt line => line < 16 ∧ line ≠ 2
  | masks call => call.Valid

/-- Let it happen. -/
def run : BoardEvent → KernelM (Board η ω) Unit
  | interrupt line => Board.interrupt invoke callee line
  | masks call => onPics call.run

end BoardEvent

/-- The chips are set up as `idt_init` does, and then events happen. -/
def runBoard (events : List BoardEvent) : KernelM (Board η ω) Unit := do
  onPics (picRemap 0x20 0x28)
  events.forM (BoardEvent.run invoke callee)

end Model

/-- The lines that reach the kernel behind calls, in their order: those that are not masked, and
whose chip is not masked at line 2 of the first one. -/
def servedLines (calls : List PicCall) : List BoardEvent → List ℕ
  | [] => []
  | .masks call :: events => servedLines (calls ++ [call]) events
  | .interrupt line :: events =>
      if latestMask calls line || (decide (8 ≤ line) && latestMask calls 2) then
        servedLines calls events
      else line :: servedLines calls events

/-- The calls among events. -/
def callsOf : List BoardEvent → List PicCall
  | [] => []
  | .masks call :: events => call :: callsOf events
  | .interrupt _ :: events => callsOf events

/-- The ports of the chips. -/
def picPorts : List UInt16 := [pic1Command, pic1Data, pic2Command, pic2Data]

/-- Handlers return, and leave the chips alone. -/
def HandlersReturn {η ω : Type} (invoke : η → IsrFrame → KernelM (Interrupts η ω) Unit) : Prop :=
  ∀ handler frame s, ∃ s' log, invoke handler frame s = .ok () s' ∧
    s'.ports = s.ports ++ log ∧ ∀ entry ∈ log, entry.1 ∉ picPorts

/-! ## The chips along a run -/

section Chips

variable {pics : Pics} {calls : List PicCall} {line : ℕ}

/-- The chips are set up, with the masks that calls left and no line in service. -/
structure Pics.Idle (pics : Pics) (calls : List PicCall) : Prop where
  ready : pics.Ready
  offsets : pics.master.offset = 0x20 ∧ pics.slave.offset = 0x28
  master : pics.master.inService = 0
  slave : pics.slave.inService = 0
  masks : ∀ line < 16, pics.maskOf line = latestMask calls line

/-- `pic_remap` sets up chips in any state. -/
theorem picRemap_idle (pics : Pics) :
    ∃ pics', picRemap 0x20 0x28 pics = .ok () pics' ∧ pics'.Idle [] := by
  refine ⟨_, rfl, ⟨rfl, rfl⟩, ⟨rfl, rfl⟩, rfl, rfl, fun line _ => ?_⟩
  have unmasked : ∀ j, (0 : UInt8).toNat.testBit j = false := Nat.zero_testBit
  unfold Pics.maskOf
  split
  · exact unmasked _
  · exact unmasked _

/-- Calls between interrupts leave the chips idle. -/
theorem Pics.Idle.call (idle : pics.Idle calls) {call : PicCall} (valid : call.Valid) :
    ∃ pics', call.run pics = .ok () pics' ∧ pics'.Idle (calls ++ [call]) := by
  obtain ⟨pics', run, same, masks⟩ := PicCall.run_ok idle.ready valid
  refine ⟨pics', run, ?_⟩
  constructor
  case ready => exact ⟨same.master ▸ idle.ready.master, same.slave ▸ idle.ready.slave⟩
  case offsets => exact ⟨same.master ▸ idle.offsets.1, same.slave ▸ idle.offsets.2⟩
  case master => exact same.master ▸ idle.master
  case slave => exact same.slave ▸ idle.slave
  case masks =>
    intro line inside
    rw [masks line inside, latestMask_concat, idle.masks line inside]

/-- Idle chips offer every line that is not masked, at the second chip if the first one
lets it through. -/
theorem Pics.Idle.offers (idle : pics.Idle calls) (inside : line < 16) :
    pics.offers line = !(latestMask calls line || (decide (8 ≤ line) && latestMask calls 2)) := by
  unfold Pics.offers
  rw [idle.masks line inside, idle.masks 2 (by omega)]
  simp only [Pic.blocks_of_idle idle.master, Pic.blocks_of_idle idle.slave]
  by_cases own : line < 8
  · rw [if_pos own, decide_eq_false (Nat.not_le.2 own)]
    simp
  · rw [if_neg own, decide_eq_true (Nat.not_lt.1 own)]
    simp

/-- The lines are the vectors from 32 on. -/
theorem Pics.Idle.vectorOf (idle : pics.Idle calls) : pics.vectorOf line = 32 + line := by
  unfold Pics.vectorOf
  rw [idle.offsets.1, idle.offsets.2]
  split
  · rfl
  · change 40 + (line - 8) = 32 + line
    omega

theorem Pics.writes_append (pics : Pics) (front back : List (UInt16 × UInt8)) :
    pics.writes (front ++ back) = (pics.writes front).writes back :=
  List.foldl_append

/-- Bytes for other devices. -/
theorem Pics.writes_of_apart {log : List (UInt16 × UInt8)}
    (apart : ∀ entry ∈ log, entry.1 ∉ picPorts) (pics : Pics) : pics.writes log = pics := by
  induction log with
  | nil => rfl
  | cons entry log ih =>
      have first := apart entry List.mem_cons_self
      simp only [picPorts, List.mem_cons, List.not_mem_nil, or_false, not_or] at first
      obtain ⟨command1, data1, command2, data2⟩ := first
      have ignored : pics.write entry.1 entry.2 = pics := by
        unfold Pics.write
        rw [if_neg command1, if_neg data1, if_neg command2, if_neg data2]
      change (pics.write entry.1 entry.2).writes log = pics
      rw [ignored]
      exact ih fun e mem => apart e (List.mem_cons_of_mem _ mem)

/-- The bytes of `pic_send_eoi`. -/
def eoiBytes (line : ℕ) : List (UInt16 × UInt8) :=
  if 8 ≤ line then [(pic2Command, picEoi), (pic1Command, picEoi)] else [(pic1Command, picEoi)]

/-- The end of an interrupt takes the chips back to where the interrupt found them. -/
theorem Pics.Idle.eoi (idle : pics.Idle calls) (inside : line < 16) :
    (pics.accept line).writes (eoiBytes line) = pics := by
  unfold Pics.accept eoiBytes
  by_cases own : line < 8
  · rw [if_pos own, if_neg (Nat.not_le.2 own)]
    have master := Pic.eoi_accept idle.master own
    exact congrArg (fun pic => ({ pics with master := pic } : Pics)) master
  · rw [if_neg own, if_pos (Nat.not_lt.1 own)]
    have master : (pics.master.accept 2).writeCommand picEoi = pics.master :=
      Pic.eoi_accept idle.master (by omega)
    have slave : (pics.slave.accept (line - 8)).writeCommand picEoi = pics.slave :=
      Pic.eoi_accept idle.slave (by omega)
    exact congrArg₂ Pics.mk master slave

end Chips

/-! ## Events -/

section Events

variable {η ω : Type} {invoke : η → IsrFrame → KernelM (Interrupts η ω) Unit}
  {callee : IsrFrame → Cpu → Cpu} {calls : List PicCall} {line : ℕ}

theorem onPics_of_ok {x : KernelM Pics Unit} {s : Board η ω} {pics : Pics}
    (run : x s.pics = .ok () pics) : onPics x s = .ok () { s with pics := pics } :=
  Machine.zoom_of_ok rfl run

/-- An interrupt of a line is acknowledged behind handlers that return. -/
theorem irqHandler_returns (quiet : HandlersReturn invoke) (inside : line < 16)
    {frame : IsrFrame} (place : frame.intNo.toNat = 32 + line) (kernel : Interrupts η ω) :
    ∃ kernel' log, irqHandler invoke frame kernel = .ok () kernel' ∧
      kernel'.ports = kernel.ports ++ (log ++ eoiBytes line) ∧
      ∀ entry ∈ log, entry.1 ∉ picPorts := by
  rw [irqHandler_eq inside place]
  cases kernel.dispatched .irq line with
  | none => exact ⟨_, [], rfl, rfl, fun _ mem => (List.not_mem_nil mem).elim⟩
  | some handler =>
      obtain ⟨kernel', log, run, ports, apart⟩ := quiet handler frame kernel
      refine ⟨_, log, Machine.bind_of_ok run, ?_, apart⟩
      change kernel'.ports ++ eoiBytes line = _
      rw [ports, List.append_assoc]

/-- A line that the chips do not offer changes nothing. -/
theorem interrupt_of_masked {s : Board η ω} (masked : s.pics.offers line = false) :
    Board.interrupt invoke callee line s = .ok () s := by
  unfold Board.interrupt
  rw [Machine.bind_of_ok (Machine.get_run s), if_neg (by simp [masked])]
  rfl

/-- A line that the chips offer is handled, the interrupted code goes on, and the chips are
as they were. -/
theorem interrupt_of_offered (convention : KeepsFrame callee) (quiet : HandlersReturn invoke)
    {s : Board η ω} (idle : s.pics.Idle calls) (inside : line < 16)
    (enabled : s.machine.cpu.eflags &&& eflagsIf ≠ 0) (offered : s.pics.offers line = true) :
    ∃ cpu kernel, cpu.Resumes s.machine.cpu ∧
      irqHandler invoke (s.machine.cpu.interruptFrame (32 + line) none) s.machine.kernel =
        .ok () kernel ∧
      Board.interrupt invoke callee line s = .ok () ⟨⟨cpu, kernel⟩, s.pics⟩ := by
  have place : (s.machine.cpu.interruptFrame (32 + line) none).intNo.toNat = 32 + line :=
    UInt32.toNat_ofNat_of_lt' (by change 32 + line < 2 ^ 32; omega)
  have expected : (none : Option UInt32).isSome = decide (32 + line ∈ errorVectors) := by
    rw [decide_eq_false]
    · rfl
    · simp only [errorVectors, List.mem_cons, List.not_mem_nil, or_false]
      omega
  have table : tableOf (32 + line) = .irq := if_neg (by omega)
  obtain ⟨kernel, log, handled, ports, apart⟩ :=
    irqHandler_returns quiet inside place s.machine.kernel
  have handler : handlerOf invoke (tableOf (32 + line))
      (s.machine.cpu.interruptFrame (32 + line) none) s.machine.kernel = .ok () kernel := by
    rw [table]
    exact handled
  obtain ⟨cpu, served, resumed⟩ := serveInterrupt_returns convention (by omega) expected handler
  refine ⟨cpu, kernel, resumed, handled, ?_⟩
  have accepted : onPics (modify fun pics => pics.accept line) s =
      .ok () { s with pics := s.pics.accept line } := rfl
  have ran : onMachine (serveInterrupt invoke callee (s.pics.vectorOf line) none)
      { s with pics := s.pics.accept line } = .ok () ⟨⟨cpu, kernel⟩, s.pics.accept line⟩ := by
    rw [idle.vectorOf]
    exact Machine.zoom_of_ok rfl served
  have seen : (s.pics.accept line).writes (kernel.ports.drop s.machine.kernel.ports.length) =
      s.pics := by
    rw [ports, List.drop_left, Pics.writes_append, Pics.writes_of_apart apart, idle.eoi inside]
  unfold Board.interrupt
  rw [Machine.bind_of_ok (Machine.get_run s), if_pos ⟨enabled, offered⟩,
    Machine.bind_of_ok accepted, Machine.bind_of_ok ran]
  exact congrArg (fun pics => EStateM.Result.ok () (Board.mk ⟨cpu, kernel⟩ pics)) seen

/-- Where the kernel is behind events: `frames` were handled, one for each line that got
through, the interrupted code is where it was, and the chips are idle. -/
structure Board.Served (invoke : η → IsrFrame → KernelM (Interrupts η ω) Unit)
    (s s' : Board η ω) (lines : List ℕ) (calls : List PicCall) (frames : List IsrFrame) :
    Prop where
  numbers : frames.map (fun frame => frame.intNo.toNat) = lines.map (32 + ·)
  place : ∀ frame ∈ frames,
    frame.eip = s.machine.cpu.eip ∧ frame.eflags = s.machine.cpu.eflags
  handled : frames.forM (irqHandler invoke) s.machine.kernel = .ok () s'.machine.kernel
  registers : s'.machine.cpu.registers = s.machine.cpu.registers
  eip : s'.machine.cpu.eip = s.machine.cpu.eip
  eflags : s'.machine.cpu.eflags = s.machine.cpu.eflags
  idle : s'.pics.Idle calls

/-- Events from idle chips on. -/
theorem events_served (convention : KeepsFrame callee) (quiet : HandlersReturn invoke)
    {events : List BoardEvent} (valid : ∀ event ∈ events, event.Valid) {s : Board η ω}
    (idle : s.pics.Idle calls) (enabled : s.machine.cpu.eflags &&& eflagsIf ≠ 0) :
    ∃ frames s', events.forM (BoardEvent.run invoke callee) s = .ok () s' ∧
      s.Served invoke s' (servedLines calls events) (calls ++ callsOf events) frames := by
  induction events generalizing s calls with
  | nil =>
      refine ⟨[], s, rfl, rfl, fun _ mem => (List.not_mem_nil mem).elim, rfl, rfl, rfl, rfl, ?_⟩
      rw [callsOf, List.append_nil]
      exact idle
  | cons event events ih =>
      have first := valid event List.mem_cons_self
      have others : ∀ e ∈ events, e.Valid := fun e mem => valid e (List.mem_cons_of_mem _ mem)
      cases event with
      | masks call =>
          obtain ⟨pics, run, next⟩ := idle.call first
          have called : BoardEvent.run invoke callee (.masks call) s =
              .ok () { s with pics := pics } := onPics_of_ok run
          obtain ⟨frames, s', rest, served⟩ :=
            ih others (s := { s with pics := pics }) next enabled
          refine ⟨frames, s', (Machine.bind_of_ok called).trans rest, ?_⟩
          rw [List.append_assoc] at served
          exact ⟨served.numbers, served.place, served.handled, served.registers, served.eip,
            served.eflags, served.idle⟩
      | interrupt line =>
          have offers := idle.offers first.1
          unfold servedLines
          cases masked : latestMask calls line || (decide (8 ≤ line) && latestMask calls 2) with
          | true =>
              have ignored : BoardEvent.run invoke callee (.interrupt line) s = .ok () s :=
                interrupt_of_masked (by rw [offers, masked]; rfl)
              obtain ⟨frames, s', rest, served⟩ := ih others idle enabled
              exact ⟨frames, s', (Machine.bind_of_ok ignored).trans rest, served⟩
          | false =>
              obtain ⟨cpu, kernel, resumed, handled, run⟩ :=
                interrupt_of_offered convention quiet idle first.1 enabled
                  (by rw [offers, masked]; rfl)
              obtain ⟨frames, s', rest, served⟩ := ih others (s := ⟨⟨cpu, kernel⟩, s.pics⟩) idle
                (by rw [resumed.eflags]; exact enabled)
              refine ⟨s.machine.cpu.interruptFrame (32 + line) none :: frames, s',
                (Machine.bind_of_ok run).trans rest, ?_⟩
              have number :
                  (s.machine.cpu.interruptFrame (32 + line) none).intNo.toNat = 32 + line :=
                UInt32.toNat_ofNat_of_lt' (by
                  change 32 + line < 2 ^ 32
                  have := first.1
                  omega)
              constructor
              case numbers => exact congrArg₂ List.cons number served.numbers
              case place =>
                intro frame mem
                rcases List.mem_cons.1 mem with rfl | later
                · exact ⟨rfl, rfl⟩
                · obtain ⟨eip, eflags⟩ := served.place frame later
                  exact ⟨eip.trans resumed.eip, eflags.trans resumed.eflags⟩
              case handled => exact (Machine.bind_of_ok handled).trans served.handled
              case registers => exact served.registers.trans resumed.registers
              case eip => exact served.eip.trans resumed.eip
              case eflags => exact served.eflags.trans resumed.eflags
              case idle => exact served.idle

/-- Whatever state the chips were in, `pic_remap` and every sequence of interrupts and mask
calls runs to its end: each interrupt of a line whose latest call left it unmasked, at the
second chip with line 2 unmasked as well, runs `irq_handler` once, in their order and with
the number of the line, the interrupted code stays where it was, and no line is blocked
afterwards. -/
theorem runBoard_serves (convention : KeepsFrame callee) (quiet : HandlersReturn invoke)
    {events : List BoardEvent} (valid : ∀ event ∈ events, event.Valid) (s : Board η ω)
    (enabled : s.machine.cpu.eflags &&& eflagsIf ≠ 0) :
    ∃ frames s', runBoard invoke callee events s = .ok () s' ∧
      s.Served invoke s' (servedLines [] events) (callsOf events) frames := by
  obtain ⟨pics, run, idle⟩ := picRemap_idle s.pics
  have remapped : onPics (picRemap 0x20 0x28) s = .ok () { s with pics := pics } :=
    onPics_of_ok run
  obtain ⟨frames, s', rest, served⟩ :=
    @events_served _ _ invoke callee _ convention quiet events valid { s with pics := pics } idle
      enabled
  exact ⟨frames, s', (Machine.bind_of_ok remapped).trans rest, served.numbers, served.place,
    served.handled, served.registers, served.eip, served.eflags, served.idle⟩

/-- The keyboard and the timer interrupt, and the keyboard is masked in between. -/
theorem keyboardAndTimer_served : ∃ frames s',
    runBoard (fun (_ : Unit) _ => pure ()) clobberEax
        [.interrupt 1, .masks (.setMask 1), .interrupt 1, .interrupt 0]
        ⟨⟨kernelCpu, Interrupts.boot [] ()⟩, ⟨⟨.icw3, true, true, 0, 0, 0, 0xFF, 0xFF⟩,
          ⟨.mask, true, true, 0, 0, 0, 0xFF, 0xFF⟩⟩⟩ = .ok () s' ∧
      Board.Served (fun (_ : Unit) _ => pure ())
        ⟨⟨kernelCpu, Interrupts.boot [] ()⟩, ⟨⟨.icw3, true, true, 0, 0, 0, 0xFF, 0xFF⟩,
          ⟨.mask, true, true, 0, 0, 0, 0xFF, 0xFF⟩⟩⟩ s' [1, 0] [.setMask 1] frames :=
  runBoard_serves clobberEax_keepsFrame
    (fun _ _ s => ⟨s, [], rfl, (List.append_nil _).symm, fun _ mem => (List.not_mem_nil mem).elim⟩)
    (by
      simp only [List.mem_cons, List.not_mem_nil, or_false]
      rintro event (rfl | rfl | rfl | rfl)
      · exact ⟨by omega, by omega⟩
      · exact Nat.lt_of_lt_of_le Nat.one_lt_two (by omega)
      · exact ⟨by omega, by omega⟩
      · exact ⟨by omega, by omega⟩)
    _ (by decide)

end Events

end ArkoiOs
