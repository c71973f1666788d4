import ArkoiOs.Idt
import ArkoiOs.Library.WordStack

/-!
# The interrupt stubs

`arch/x86/idt/idt.s` on the part of an x86 processor that its instructions use.
An interrupt comes while the kernel runs, so the privilege stays and no stack
pointer is pushed.  The compiled handlers are given by what they return, `isrHandler`
and `irqHandler`, and by `callee`, which is what their calls leave in registers and
memory.  Arithmetic flags are left out: `iret` loads the flags of the interrupted
code.
-/

namespace ArkoiOs

/-! ## The processor -/

/-- The general registers. -/
inductive Register
  | eax | ecx | edx | ebx | esp | ebp | esi | edi
  deriving DecidableEq, Repr

/-- The segment registers. -/
inductive Segment
  | cs | ds | es | fs | gs | ss
  deriving DecidableEq, Repr

/-- Registers and memory. -/
structure Cpu where
  registers : Register → UInt32
  segments : Segment → UInt16
  eip : UInt32
  eflags : UInt32
  cr2 : UInt32
  memory : WordStack.Bytes

/-- The flag that lets interrupts in. -/
def eflagsIf : UInt32 := 0x200

namespace Cpu

/-- Write a register. -/
def setRegister (cpu : Cpu) (register : Register) (value : UInt32) : Cpu :=
  { cpu with registers := Function.update cpu.registers register value }

/-- Write a segment register. -/
def setSegment (cpu : Cpu) (segment : Segment) (value : UInt16) : Cpu :=
  { cpu with segments := Function.update cpu.segments segment value }

/-- Push a word. -/
def push (cpu : Cpu) (value : UInt32) : Cpu :=
  { cpu with
    registers := Function.update cpu.registers .esp (cpu.registers .esp - 4)
    memory := WordStack.store cpu.memory (cpu.registers .esp - 4) value }

/-- The word on top of the stack. -/
def top (cpu : Cpu) : UInt32 := WordStack.load cpu.memory (cpu.registers .esp)

/-- Drop words from the stack. -/
def drop (cpu : Cpu) (bytes : UInt32) : Cpu :=
  cpu.setRegister .esp (cpu.registers .esp + bytes)

/-- Pop a word into a register. -/
def popInto (cpu : Cpu) (register : Register) : Cpu :=
  (cpu.drop 4).setRegister register cpu.top

end Cpu

/-- The instructions of the stubs. -/
inductive Instruction
  | cli
  | sti
  | push (value : UInt32)
  | pushRegister (register : Register)
  | pop (register : Register)
  | pusha
  | popa
  | movFromSegment (register : Register) (segment : Segment)
  | movFromCr2 (register : Register)
  | movLow (register : Register) (value : UInt16)
  | movToSegment (segment : Segment) (register : Register)
  | addEsp (value : UInt32)
  | iret
  | call (handler : HandlerTable)
  deriving DecidableEq, Repr

/-- What an instruction does to the processor; a call is done elsewhere. -/
def Instruction.effect : Instruction → Cpu → Cpu
  | cli, cpu => { cpu with eflags := cpu.eflags &&& ~~~eflagsIf }
  | sti, cpu => { cpu with eflags := cpu.eflags ||| eflagsIf }
  | push value, cpu => cpu.push value
  | pushRegister register, cpu => cpu.push (cpu.registers register)
  | pop register, cpu => cpu.popInto register
  | pusha, cpu =>
      ((((((((cpu.push (cpu.registers .eax)).push (cpu.registers .ecx)).push
        (cpu.registers .edx)).push (cpu.registers .ebx)).push (cpu.registers .esp)).push
        (cpu.registers .ebp)).push (cpu.registers .esi)).push (cpu.registers .edi))
  | popa, cpu =>
      -- the stack pointer that was pushed is skipped
      ((((((((cpu.popInto .edi).popInto .esi).popInto .ebp).drop 4).popInto .ebx).popInto
        .edx).popInto .ecx).popInto .eax)
  | movFromSegment register segment, cpu =>
      cpu.setRegister register (cpu.segments segment).toUInt32
  | movFromCr2 register, cpu => cpu.setRegister register cpu.cr2
  | movLow register value, cpu =>
      cpu.setRegister register (cpu.registers register &&& 0xFFFF0000 ||| value.toUInt32)
  | movToSegment segment register, cpu =>
      cpu.setSegment segment (cpu.registers register).toUInt16
  | addEsp value, cpu => cpu.drop value
  | iret, cpu =>
      let cpu' := (cpu.drop 4).drop 4
      { cpu'.drop 4 with
        eip := cpu.top
        segments := Function.update cpu.segments .cs (cpu.drop 4).top.toUInt16
        eflags := cpu'.top }
  | call _, cpu => cpu

/-! ## The stubs -/

/-- `isr_common_stub` and `irq_common_stub`, which differ in what they call. -/
def commonStub (handler : HandlerTable) : List Instruction :=
  [.pusha,
    .movFromSegment .eax .ds, .pushRegister .eax,
    .movFromCr2 .eax, .pushRegister .eax,
    .movLow .eax 0x10,
    .movToSegment .ds .eax, .movToSegment .es .eax, .movToSegment .fs .eax, .movToSegment .gs .eax,
    .pushRegister .esp,
    .call handler,
    .addEsp 8,
    .pop .ebx,
    .movToSegment .ds .ebx, .movToSegment .es .ebx, .movToSegment .fs .ebx, .movToSegment .gs .ebx,
    .popa,
    .addEsp 8,
    .sti,
    .iret]

/-- `isr_common_stub`. -/
def isrCommonStub : List Instruction := commonStub .isr

/-- `irq_common_stub`. -/
def irqCommonStub : List Instruction := commonStub .irq

/-- The macro `isr_error_stub`. -/
def isrErrorStub (num : UInt32) : List Instruction := [.cli, .push num] ++ isrCommonStub

/-- The macro `isr_no_error_stub`. -/
def isrNoErrorStub (num : UInt32) : List Instruction := [.cli, .push 0, .push num] ++ isrCommonStub

/-- The macro `irq_stub`; the first argument is only part of a name. -/
def irqStub (_num intNo : UInt32) : List Instruction :=
  [.cli, .push 0, .push intNo] ++ irqCommonStub

/-- `g_isr_stub_table`. -/
def isrStubTable : List (List Instruction) :=
  [isrNoErrorStub 0, isrNoErrorStub 1, isrNoErrorStub 2, isrNoErrorStub 3, isrNoErrorStub 4,
    isrNoErrorStub 5, isrNoErrorStub 6, isrNoErrorStub 7, isrErrorStub 8, isrNoErrorStub 9,
    isrErrorStub 10, isrErrorStub 11, isrErrorStub 12, isrErrorStub 13, isrErrorStub 14,
    isrNoErrorStub 15, isrNoErrorStub 16, isrErrorStub 17, isrNoErrorStub 18, isrNoErrorStub 19,
    isrNoErrorStub 20, isrNoErrorStub 21, isrNoErrorStub 22, isrNoErrorStub 23, isrNoErrorStub 24,
    isrNoErrorStub 25, isrNoErrorStub 26, isrNoErrorStub 27, isrNoErrorStub 28, isrNoErrorStub 29,
    isrErrorStub 30, isrNoErrorStub 31]

/-- `g_irq_stub_table`. -/
def irqStubTable : List (List Instruction) :=
  [irqStub 0 32, irqStub 1 33, irqStub 2 34, irqStub 3 35, irqStub 4 36, irqStub 5 37,
    irqStub 6 38, irqStub 7 39, irqStub 8 40, irqStub 9 41, irqStub 10 42, irqStub 11 43,
    irqStub 12 44, irqStub 13 45, irqStub 14 46, irqStub 15 47]

/-- The vectors whose stubs expect an error code. -/
def errorVectors : List ℕ := [8, 10, 11, 12, 13, 14, 17, 30]

/-! ## Running a stub -/

/-- The `isr_frame_t` at an address. -/
def frameAt (memory : WordStack.Bytes) (a : UInt32) : IsrFrame where
  cr2 := WordStack.load memory a
  ds := WordStack.load memory (a + 4)
  edi := WordStack.load memory (a + 8)
  esi := WordStack.load memory (a + 12)
  ebp := WordStack.load memory (a + 16)
  esp := WordStack.load memory (a + 20)
  ebx := WordStack.load memory (a + 24)
  edx := WordStack.load memory (a + 28)
  ecx := WordStack.load memory (a + 32)
  eax := WordStack.load memory (a + 36)
  intNo := WordStack.load memory (a + 40)
  errCode := WordStack.load memory (a + 44)
  eip := WordStack.load memory (a + 48)
  cs := WordStack.load memory (a + 52)
  eflags := WordStack.load memory (a + 56)
  userEsp := WordStack.load memory (a + 60)
  ss := WordStack.load memory (a + 64)

/-- The processor and the kernel behind the handlers. -/
structure X86 (η ω : Type) where
  cpu : Cpu
  kernel : Interrupts η ω

/-- Run code on the kernel. -/
def onKernel {η ω : Type} (x : KernelM (Interrupts η ω) Unit) : KernelM (X86 η ω) Unit :=
  Machine.zoom (fun s => some s.kernel) (fun s kernel => { s with kernel := kernel })
    .nullDereference x

section Run

variable {η ω : Type} (invoke : η → IsrFrame → KernelM (Interrupts η ω) Unit)
  (callee : IsrFrame → Cpu → Cpu)

/-- `isr_handler` or `irq_handler`. -/
def handlerOf : HandlerTable → IsrFrame → KernelM (Interrupts η ω) Unit
  | .isr => isrHandler invoke
  | .irq => irqHandler invoke

/-- Call a handler with the frame that the word on top of the stack points to. -/
def callHandler (handler : HandlerTable) : KernelM (X86 η ω) Unit := do
  let s ← get
  let frame := frameAt s.cpu.memory s.cpu.top
  onKernel (handlerOf invoke handler frame)
  modify fun s => { s with cpu := callee frame s.cpu }

/-- Run an instruction. -/
def Instruction.exec : Instruction → KernelM (X86 η ω) Unit
  | .call handler => callHandler invoke callee handler
  | instruction => modify fun s => { s with cpu := instruction.effect s.cpu }

/-- Run instructions. -/
def runCode (code : List Instruction) : KernelM (X86 η ω) Unit :=
  code.forM (Instruction.exec invoke callee)

/-- The processor enters an interrupt through an interrupt gate of the kernel's code
segment: it pushes the flags, the place of the interrupted code and for some
exceptions an error code, and lets no other interrupt in. -/
def Cpu.enter (cpu : Cpu) (errorCode : Option UInt32) : Cpu :=
  let pushed := ((cpu.push cpu.eflags).push (cpu.segments .cs).toUInt32).push cpu.eip
  let pushed := match errorCode with
    | some code => pushed.push code
    | none => pushed
  { pushed.setSegment .cs 0x08 with eflags := cpu.eflags &&& ~~~eflagsIf }

/-- The stub of a vector. -/
def stubOf (vector : ℕ) : Option (List Instruction) :=
  if vector < 32 then isrStubTable[vector]? else irqStubTable[vector - 32]?

/-- The table whose handlers a vector is for. -/
def tableOf (vector : ℕ) : HandlerTable := if vector < 32 then .isr else .irq

/-- An interrupt, from its entry to the return; a vector without a stub has no gate. -/
def serveInterrupt (vector : ℕ) (errorCode : Option UInt32) : KernelM (X86 η ω) Unit := do
  modify fun s => { s with cpu := s.cpu.enter errorCode }
  match stubOf vector with
  | none => throw .outOfBounds
  | some code => runCode invoke callee code

end Run

end ArkoiOs
