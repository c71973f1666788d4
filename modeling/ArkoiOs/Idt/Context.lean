import ArkoiOs.Idt.Stubs

/-!
# What an interrupt leaves

A stub saves the context of the interrupted code on the stack, calls the handler
with the frame it has built, and restores the context.
-/

namespace ArkoiOs

/-! ## The stack -/

namespace Cpu

variable {cpu : Cpu} {ws : List UInt32} {register : Register} {segment : Segment} {v : UInt32}

/-- These words are on the stack, the top first. -/
def OnStack (cpu : Cpu) (ws : List UInt32) : Prop :=
  WordStack.Holds cpu.memory (cpu.registers .esp) ws

@[simp] theorem push_esp (cpu : Cpu) (v : UInt32) :
    (cpu.push v).registers .esp = cpu.registers .esp - 4 := rfl

theorem OnStack.push (h : cpu.OnStack ws) (short : ws.length < 2 ^ 30 - 1) (v : UInt32) :
    (cpu.push v).OnStack (v :: ws) := by
  unfold OnStack
  rw [push_esp]
  exact WordStack.Holds.push h short v

theorem OnStack.pushAll (h : cpu.OnStack ws) {vs : List UInt32}
    (short : ws.length + vs.length < 2 ^ 30) :
    (vs.foldl Cpu.push cpu).OnStack (vs.reverse ++ ws) := by
  induction vs generalizing cpu ws with
  | nil => exact h
  | cons v vs ih =>
      rw [List.length_cons] at short
      rw [List.foldl_cons, List.reverse_cons, List.append_assoc]
      exact ih (h.push (by omega) v) (by change ws.length + 1 + vs.length < _; omega)

theorem OnStack.setRegister (h : cpu.OnStack ws) (other : register ≠ .esp) (v : UInt32) :
    (cpu.setRegister register v).OnStack ws := by
  have same : (cpu.setRegister register v).registers .esp = cpu.registers .esp :=
    Function.update_of_ne other.symm ..
  unfold OnStack
  rw [same]
  exact h

end Cpu

/-! ## Saving and restoring -/

/-- The instructions of a common stub before the call. -/
def saveContext : List Instruction :=
  [.pusha,
    .movFromSegment .eax .ds, .pushRegister .eax,
    .movFromCr2 .eax, .pushRegister .eax,
    .movLow .eax 0x10,
    .movToSegment .ds .eax, .movToSegment .es .eax, .movToSegment .fs .eax, .movToSegment .gs .eax,
    .pushRegister .esp]

/-- The instructions of a common stub behind the call. -/
def restoreContext : List Instruction :=
  [.addEsp 8,
    .pop .ebx,
    .movToSegment .ds .ebx, .movToSegment .es .ebx, .movToSegment .fs .ebx, .movToSegment .gs .ebx,
    .popa,
    .addEsp 8,
    .sti,
    .iret]

theorem commonStub_eq (handler : HandlerTable) :
    commonStub handler = saveContext ++ .call handler :: restoreContext := rfl

/-- What instructions without a call do. -/
def effects (code : List Instruction) (cpu : Cpu) : Cpu :=
  code.foldl (fun cpu instruction => instruction.effect cpu) cpu

/-- The words a common stub pushes on those of the entry. -/
def Cpu.saved (cpu : Cpu) : List UInt32 :=
  [cpu.registers .esp - 40, cpu.cr2, (cpu.segments .ds).toUInt32, cpu.registers .edi,
    cpu.registers .esi, cpu.registers .ebp, cpu.registers .esp, cpu.registers .ebx,
    cpu.registers .edx, cpu.registers .ecx, cpu.registers .eax]

theorem saveContext_ok {cpu : Cpu} {ws : List UInt32} (h : cpu.OnStack ws)
    (short : ws.length ≤ 10) : (effects saveContext cpu).OnStack (cpu.saved ++ ws) ∧
      (effects saveContext cpu).registers .esp = cpu.registers .esp - 44 ∧
      (effects saveContext cpu).segments .ss = cpu.segments .ss := by
  have general : (Instruction.pusha.effect cpu).OnStack
      ([cpu.registers .edi, cpu.registers .esi, cpu.registers .ebp, cpu.registers .esp,
        cpu.registers .ebx, cpu.registers .edx, cpu.registers .ecx, cpu.registers .eax] ++ ws) :=
    @Cpu.OnStack.pushAll _ _ h [cpu.registers .eax, cpu.registers .ecx, cpu.registers .edx,
      cpu.registers .ebx, cpu.registers .esp, cpu.registers .ebp, cpu.registers .esi,
      cpu.registers .edi] (by simp only [List.length_cons, List.length_nil]; omega)
  have ne : Register.eax ≠ .esp := Register.noConfusion
  have segment := (general.setRegister ne (cpu.segments .ds).toUInt32).push
    (by simp only [List.length_append, List.length_cons, List.length_nil]; omega)
    (cpu.segments .ds).toUInt32
  have fault := (segment.setRegister ne cpu.cr2).push
    (by simp only [List.length_append, List.length_cons, List.length_nil]; omega) cpu.cr2
  have top : (effects (saveContext.take 10) cpu).registers .esp = cpu.registers .esp - 40 := by
    simp [effects, saveContext, Instruction.effect, Cpu.push, Cpu.setRegister, Cpu.setSegment,
      sub_sub]
  have last : effects saveContext cpu = (effects (saveContext.take 10) cpu).push
      ((effects (saveContext.take 10) cpu).registers .esp) := rfl
  rw [last, top]
  refine ⟨@Cpu.OnStack.push (effects (saveContext.take 10) cpu) _ fault
    (by simp only [List.length_append, List.length_cons, List.length_nil]; omega) _, ?_, rfl⟩
  rw [Cpu.push_esp, top, sub_sub]
  rfl

theorem restoreContext_eq (cpu : Cpu) : effects restoreContext cpu =
    { registers := fun
        | .eax => WordStack.load cpu.memory (cpu.registers .esp + 40)
        | .ecx => WordStack.load cpu.memory (cpu.registers .esp + 36)
        | .edx => WordStack.load cpu.memory (cpu.registers .esp + 32)
        | .ebx => WordStack.load cpu.memory (cpu.registers .esp + 28)
        | .esp => cpu.registers .esp + 64
        | .ebp => WordStack.load cpu.memory (cpu.registers .esp + 20)
        | .esi => WordStack.load cpu.memory (cpu.registers .esp + 16)
        | .edi => WordStack.load cpu.memory (cpu.registers .esp + 12)
      segments := fun
        | .cs => (WordStack.load cpu.memory (cpu.registers .esp + 56)).toUInt16
        | .ss => cpu.segments .ss
        | _ => (WordStack.load cpu.memory (cpu.registers .esp + 8)).toUInt16
      eip := WordStack.load cpu.memory (cpu.registers .esp + 52)
      eflags := WordStack.load cpu.memory (cpu.registers .esp + 60)
      cr2 := cpu.cr2
      memory := cpu.memory } := by
  simp only [effects, restoreContext, List.foldl_cons, List.foldl_nil, Instruction.effect,
    Cpu.drop, Cpu.popInto, Cpu.setRegister, Cpu.setSegment, Cpu.top, Cpu.mk.injEq]
  refine ⟨?_, ?_, ?_, ?_, trivial, trivial⟩
  · funext register
    cases register <;> simp [add_assoc]
  · funext segment
    cases segment <;> simp [add_assoc]
  · simp [add_assoc]
  · simp [add_assoc]

/-! ## The entry -/

/-- The instructions of a stub before the common one. -/
def prologue (vector : ℕ) : List Instruction :=
  if vector ∈ errorVectors then [.cli, .push (.ofNat vector)]
  else [.cli, .push 0, .push (.ofNat vector)]

/-- Every vector with a gate has its stub. -/
theorem stubOf_eq {vector : ℕ} (known : vector < 48) :
    stubOf vector = some (prologue vector ++ commonStub (tableOf vector)) := by
  revert vector
  decide +kernel

/-- The processor when the common stub begins. -/
def Cpu.entered (cpu : Cpu) (vector : ℕ) (errorCode : Option UInt32) : Cpu :=
  effects (prologue vector) (cpu.enter errorCode)

/-- The bytes that the processor and the stub push before the common stub begins. -/
def entryBytes (vector : ℕ) (errorCode : Option UInt32) : UInt32 :=
  (if errorCode.isSome then 16 else 12) + if vector ∈ errorVectors then 4 else 8

section Entry

variable (cpu : Cpu) (vector : ℕ) (errorCode : Option UInt32)

theorem entered_esp : (cpu.entered vector errorCode).registers .esp =
    cpu.registers .esp - entryBytes vector errorCode := by
  unfold Cpu.entered prologue entryBytes Cpu.enter
  cases errorCode <;> split <;>
    simp [effects, Instruction.effect, Cpu.push, Cpu.setSegment, sub_sub]

theorem entered_register {register : Register} (other : register ≠ .esp) :
    (cpu.entered vector errorCode).registers register = cpu.registers register := by
  unfold Cpu.entered prologue Cpu.enter
  cases errorCode <;> split <;>
    simp [effects, Instruction.effect, Cpu.push, Cpu.setSegment, other]

theorem entered_segment {segment : Segment} (other : segment ≠ .cs) :
    (cpu.entered vector errorCode).segments segment = cpu.segments segment := by
  unfold Cpu.entered prologue Cpu.enter
  cases errorCode <;> split <;>
    simp [effects, Instruction.effect, Cpu.push, Cpu.setSegment, other]

theorem entered_cr2 : (cpu.entered vector errorCode).cr2 = cpu.cr2 := by
  unfold Cpu.entered prologue Cpu.enter
  cases errorCode <;> split <;> rfl

variable {vector errorCode} in
/-- With the error code that the stub expects, the stack has the end of a frame. -/
theorem entered_onStack (expected : errorCode.isSome = decide (vector ∈ errorVectors)) :
    (cpu.entered vector errorCode).OnStack [.ofNat vector, errorCode.getD 0, cpu.eip,
      (cpu.segments .cs).toUInt32, cpu.eflags, WordStack.load cpu.memory (cpu.registers .esp),
      WordStack.load cpu.memory (cpu.registers .esp + 4)] := by
  have start : cpu.OnStack [WordStack.load cpu.memory (cpu.registers .esp),
      WordStack.load cpu.memory (cpu.registers .esp + 4)] := rfl
  have pushed := @Cpu.OnStack.pushAll _ _ start [cpu.eflags, (cpu.segments .cs).toUInt32,
    cpu.eip, errorCode.getD 0, .ofNat vector] (by change 2 + 5 < _; omega)
  unfold Cpu.entered prologue
  by_cases expects : vector ∈ errorVectors
  · rw [if_pos expects]
    rw [decide_eq_true expects] at expected
    obtain ⟨code, rfl⟩ := Option.isSome_iff_exists.1 expected
    exact pushed
  · rw [if_neg expects]
    rw [decide_eq_false expects, Option.isSome_eq_false_iff, Option.isNone_iff_eq_none] at expected
    subst expected
    exact pushed

end Entry

/-! ## Running -/

/-- What the calls of compiled code keep: the registers a callee saves, the segment
registers, and the frame its argument points to; the argument itself is not kept. -/
structure KeepsFrame (callee : IsrFrame → Cpu → Cpu) : Prop where
  registers : ∀ frame cpu, ∀ register ∈ [Register.ebx, .esp, .ebp, .esi, .edi],
    (callee frame cpu).registers register = cpu.registers register
  segments : ∀ frame cpu, (callee frame cpu).segments = cpu.segments
  frame : ∀ frame cpu i, 4 ≤ i → i < 64 →
    (callee frame cpu).memory (cpu.registers .esp + .ofNat i) =
      cpu.memory (cpu.registers .esp + .ofNat i)

/-- The frame of an interrupt: the registers of the interrupted code, with the stack
pointer at the words of the processor and the stub.  Its last two fields are what the
interrupted code has on its stack. -/
def Cpu.interruptFrame (cpu : Cpu) (vector : ℕ) (errorCode : Option UInt32) : IsrFrame where
  cr2 := cpu.cr2
  ds := (cpu.segments .ds).toUInt32
  edi := cpu.registers .edi
  esi := cpu.registers .esi
  ebp := cpu.registers .ebp
  esp := cpu.registers .esp - 20
  ebx := cpu.registers .ebx
  edx := cpu.registers .edx
  ecx := cpu.registers .ecx
  eax := cpu.registers .eax
  intNo := .ofNat vector
  errCode := errorCode.getD 0
  eip := cpu.eip
  cs := (cpu.segments .cs).toUInt32
  eflags := cpu.eflags
  userEsp := WordStack.load cpu.memory (cpu.registers .esp)
  ss := WordStack.load cpu.memory (cpu.registers .esp + 4)

section Run

variable {η ω : Type} {invoke : η → IsrFrame → KernelM (Interrupts η ω) Unit}
  {callee : IsrFrame → Cpu → Cpu}

theorem runCode_effects {code : List Instruction} (noCall : ∀ handler, .call handler ∉ code)
    (s : X86 η ω) :
    runCode invoke callee code s = .ok () { s with cpu := effects code s.cpu } := by
  induction code generalizing s with
  | nil => rfl
  | cons instruction code ih =>
      have one : Instruction.exec invoke callee instruction s =
          .ok () { s with cpu := instruction.effect s.cpu } := by
        cases instruction with
        | call handler => exact absurd List.mem_cons_self (noCall handler)
        | _ => rfl
      have rest := ih (fun handler mem => noCall handler (List.mem_cons_of_mem _ mem))
        { s with cpu := instruction.effect s.cpu }
      exact (Machine.bind_of_ok one).trans rest

/-- The processor when the handler is called. -/
def Cpu.calling (cpu : Cpu) (vector : ℕ) (errorCode : Option UInt32) : Cpu :=
  effects saveContext (cpu.entered vector errorCode)

/-- The frame the handler is called with. -/
def Cpu.calledWith (cpu : Cpu) (vector : ℕ) (errorCode : Option UInt32) : IsrFrame :=
  frameAt (cpu.calling vector errorCode).memory (cpu.calling vector errorCode).top

theorem runCode_append (first rest : List Instruction) :
    runCode invoke callee (first ++ rest) = (do
      runCode invoke callee first
      runCode invoke callee rest) :=
  List.forM_append

/-- A call of a handler that returns. -/
theorem callHandler_of_ok {handler : HandlerTable} {s : X86 η ω} {kernel : Interrupts η ω}
    (run : handlerOf invoke handler (frameAt s.cpu.memory s.cpu.top) s.kernel = .ok () kernel) :
    callHandler invoke callee handler s =
      .ok () ⟨callee (frameAt s.cpu.memory s.cpu.top) s.cpu, kernel⟩ := by
  have called : onKernel (handlerOf invoke handler (frameAt s.cpu.memory s.cpu.top)) s =
      .ok () { s with kernel := kernel } := Machine.zoom_of_ok rfl run
  unfold callHandler
  rw [Machine.bind_of_ok (Machine.get_run _), Machine.bind_of_ok called]
  rfl

/-- A call of a handler that does not. -/
theorem callHandler_of_error {handler : HandlerTable} {s : X86 η ω} {kernel : Interrupts η ω}
    {fault : Fault}
    (run : handlerOf invoke handler (frameAt s.cpu.memory s.cpu.top) s.kernel =
      .error fault kernel) :
    callHandler invoke callee handler s = .error fault { s with kernel := kernel } := by
  have called : onKernel (handlerOf invoke handler (frameAt s.cpu.memory s.cpu.top)) s =
      .error fault { s with kernel := kernel } := Machine.zoom_of_error rfl run
  unfold callHandler
  rw [Machine.bind_of_ok (Machine.get_run _), Machine.bind_of_error called]

/-- An interrupt runs the handler between saving and restoring the context. -/
theorem serveInterrupt_eq {vector : ℕ} (known : vector < 48) (errorCode : Option UInt32)
    (s : X86 η ω) : serveInterrupt invoke callee vector errorCode s =
      match handlerOf invoke (tableOf vector) (s.cpu.calledWith vector errorCode) s.kernel with
      | .ok () kernel => .ok () ⟨effects restoreContext (callee (s.cpu.calledWith vector errorCode)
          (s.cpu.calling vector errorCode)), kernel⟩
      | .error fault kernel => .error fault ⟨s.cpu.calling vector errorCode, kernel⟩ := by
  have entry : ∀ handler, .call handler ∉ prologue vector := by
    intro handler
    unfold prologue
    split <;> simp
  have save : ∀ handler, .call handler ∉ saveContext := by
    intro handler
    simp [saveContext]
  have restore : ∀ handler, .call handler ∉ restoreContext := by
    intro handler
    simp [restoreContext]
  have before : runCode invoke callee (prologue vector ++ saveContext)
      { s with cpu := s.cpu.enter errorCode } =
        .ok () { s with cpu := s.cpu.calling vector errorCode } := by
    rw [runCode_append, Machine.bind_of_ok (runCode_effects entry _), runCode_effects save]
    rfl
  unfold serveInterrupt
  rw [Machine.bind_of_ok (Machine.modify_run _ _), stubOf_eq known, commonStub_eq,
    ← List.append_assoc]
  simp only
  rw [runCode_append, Machine.bind_of_ok before]
  cases run : handlerOf invoke (tableOf vector) (s.cpu.calledWith vector errorCode) s.kernel with
  | ok result kernel =>
      have called := @callHandler_of_ok _ _ _ callee _
        { s with cpu := s.cpu.calling vector errorCode } _ run
      exact (Machine.bind_of_ok called).trans (runCode_effects restore _)
  | error fault kernel =>
      have called := @callHandler_of_error _ _ _ callee _
        { s with cpu := s.cpu.calling vector errorCode } _ _ run
      exact Machine.bind_of_error called

end Run

/-! ## The frame and the context -/

section Context

variable {η ω : Type} {invoke : η → IsrFrame → KernelM (Interrupts η ω) Unit}
  {callee : IsrFrame → Cpu → Cpu} {cpu cpu' : Cpu} {vector : ℕ} {errorCode : Option UInt32}

theorem calling_esp : (cpu.calling vector errorCode).registers .esp =
    cpu.registers .esp - entryBytes vector errorCode - 44 := by
  have general : ∀ c : Cpu, (effects saveContext c).registers .esp = c.registers .esp - 44 :=
    fun c => (@saveContext_ok c [] rfl (Nat.zero_le _)).2.1
  rw [Cpu.calling, general, entered_esp]

/-- Five words are pushed before the common stub exactly if the error code is there just
when the stub expects it. -/
theorem entryBytes_eq_iff : entryBytes vector errorCode = 20 ↔
    errorCode.isSome = decide (vector ∈ errorVectors) := by
  unfold entryBytes
  by_cases expects : vector ∈ errorVectors
  · rw [if_pos expects, decide_eq_true expects]
    cases errorCode <;> simp
  · rw [if_neg expects, decide_eq_false expects]
    cases errorCode <;> simp

/-- The words of the context, from the argument of the handler on. -/
theorem calling_onStack (cpu : Cpu)
    (expected : errorCode.isSome = decide (vector ∈ errorVectors)) :
    (cpu.calling vector errorCode).OnStack [(cpu.calling vector errorCode).registers .esp + 4,
      cpu.cr2, (cpu.segments .ds).toUInt32, cpu.registers .edi, cpu.registers .esi,
      cpu.registers .ebp, cpu.registers .esp - 20, cpu.registers .ebx, cpu.registers .edx,
      cpu.registers .ecx, cpu.registers .eax, .ofNat vector, errorCode.getD 0, cpu.eip,
      (cpu.segments .cs).toUInt32, cpu.eflags, WordStack.load cpu.memory (cpu.registers .esp),
      WordStack.load cpu.memory (cpu.registers .esp + 4)] := by
  have words := (saveContext_ok (entered_onStack cpu expected) (by
    simp only [List.length_cons, List.length_nil]
    omega)).1
  have argument : (cpu.entered vector errorCode).registers .esp - 40 =
      (cpu.calling vector errorCode).registers .esp + 4 := by
    rw [calling_esp, entered_esp]
    grind
  have esp : (cpu.entered vector errorCode).registers .esp = cpu.registers .esp - 20 := by
    rw [entered_esp, entryBytes_eq_iff.2 expected]
  have same := fun register => @entered_register cpu vector errorCode register
  rw [Cpu.saved, argument, esp, entered_cr2, entered_segment _ _ _ Segment.noConfusion,
    same .edi Register.noConfusion, same .esi Register.noConfusion, same .ebp Register.noConfusion,
    same .ebx Register.noConfusion, same .edx Register.noConfusion, same .ecx Register.noConfusion,
    same .eax Register.noConfusion] at words
  exact words

/-- A frame is the words at its address. -/
theorem frameAt_of_holds {memory : WordStack.Bytes} {a : UInt32} {frame : IsrFrame}
    (h : WordStack.Holds memory a [frame.cr2, frame.ds, frame.edi, frame.esi, frame.ebp, frame.esp,
      frame.ebx, frame.edx, frame.ecx, frame.eax, frame.intNo, frame.errCode, frame.eip, frame.cs,
      frame.eflags, frame.userEsp, frame.ss]) : frameAt memory a = frame := by
  simp only [WordStack.holds_cons, add_assoc, UInt32.reduceAdd] at h
  simp only [frameAt, h]

/-- The handler is called with the frame of the interrupt. -/
theorem calledWith_eq (expected : errorCode.isSome = decide (vector ∈ errorVectors)) :
    cpu.calledWith vector errorCode = cpu.interruptFrame vector errorCode := by
  obtain ⟨argument, frame⟩ := WordStack.holds_cons.1 (calling_onStack cpu expected)
  unfold Cpu.calledWith Cpu.top
  rw [argument]
  exact @frameAt_of_holds _ _ (cpu.interruptFrame vector errorCode) frame

/-- The interrupted code goes on as it was, but with the selector of `ds` in `es`, `fs` and
`gs`. -/
structure Cpu.Resumes (cpu' cpu : Cpu) : Prop where
  registers : cpu'.registers = cpu.registers
  eip : cpu'.eip = cpu.eip
  eflags : cpu'.eflags = cpu.eflags
  kept : ∀ segment ∈ [Segment.cs, .ds, .ss], cpu'.segments segment = cpu.segments segment
  data : ∀ segment ∈ [Segment.es, .fs, .gs], cpu'.segments segment = cpu.segments .ds

theorem resumes (cpu : Cpu) (convention : KeepsFrame callee)
    (expected : errorCode.isSome = decide (vector ∈ errorVectors)) (frame : IsrFrame) :
    (effects restoreContext (callee frame (cpu.calling vector errorCode))).Resumes cpu := by
  have esp : (callee frame (cpu.calling vector errorCode)).registers .esp =
      (cpu.calling vector errorCode).registers .esp :=
    convention.registers _ _ _ (by simp)
  obtain ⟨-, words⟩ := WordStack.holds_cons.1 (calling_onStack cpu expected)
  -- the handler leaves the words up to the flags
  have context : WordStack.Holds (callee frame (cpu.calling vector errorCode)).memory
      ((callee frame (cpu.calling vector errorCode)).registers .esp + 4)
      [cpu.cr2, (cpu.segments .ds).toUInt32, cpu.registers .edi, cpu.registers .esi,
        cpu.registers .ebp, cpu.registers .esp - 20, cpu.registers .ebx, cpu.registers .edx,
        cpu.registers .ecx, cpu.registers .eax, .ofNat vector, errorCode.getD 0, cpu.eip,
        (cpu.segments .cs).toUInt32, cpu.eflags] := by
    rw [esp]
    refine (words.take 15).congr fun i hi => ?_
    have shift : (cpu.calling vector errorCode).registers .esp + 4 + UInt32.ofNat i =
        (cpu.calling vector errorCode).registers .esp + UInt32.ofNat (4 + i) := by
      rw [UInt32.ofNat_add]
      exact add_assoc _ 4 _
    rw [shift]
    refine convention.frame _ _ _ (Nat.le_add_right 4 i) ?_
    change i < 4 * 15 at hi
    omega
  simp only [WordStack.holds_cons, add_assoc, UInt32.reduceAdd] at context
  obtain ⟨-, ds, edi, esi, ebp, -, ebx, edx, ecx, eax, -, -, eip, cs, eflags, -⟩ := context
  have stack : (callee frame (cpu.calling vector errorCode)).registers .esp + 64 =
      cpu.registers .esp := by
    rw [esp, calling_esp, entryBytes_eq_iff.2 expected]
    grind
  have ss : (callee frame (cpu.calling vector errorCode)).segments .ss = cpu.segments .ss := by
    have saved := (@saveContext_ok (cpu.entered vector errorCode) [] rfl (Nat.zero_le _)).2.2
    rw [convention.segments, Cpu.calling, saved, entered_segment _ _ _ Segment.noConfusion]
  rw [restoreContext_eq]
  refine ⟨?_, eip, eflags, ?_, ?_⟩
  · funext register
    cases register with
    | eax => exact eax
    | ecx => exact ecx
    | edx => exact edx
    | ebx => exact ebx
    | esp => exact stack
    | ebp => exact ebp
    | esi => exact esi
    | edi => exact edi
  · simp only [List.mem_cons, List.not_mem_nil, or_false]
    rintro segment (rfl | rfl | rfl)
    · simp only [cs, UInt16.toUInt16_toUInt32]
    · simp only [ds, UInt16.toUInt16_toUInt32]
    · exact ss
  · simp only [List.mem_cons, List.not_mem_nil, or_false]
    rintro segment (rfl | rfl | rfl)
    all_goals simp only [ds, UInt16.toUInt16_toUInt32]

/-- An interrupt whose handler returns resumes the interrupted code. -/
theorem serveInterrupt_returns (convention : KeepsFrame callee) (known : vector < 48)
    (expected : errorCode.isSome = decide (vector ∈ errorVectors)) {s : X86 η ω}
    {kernel : Interrupts η ω}
    (run : handlerOf invoke (tableOf vector) (s.cpu.interruptFrame vector errorCode) s.kernel =
      .ok () kernel) :
    ∃ cpu, serveInterrupt invoke callee vector errorCode s = .ok () ⟨cpu, kernel⟩ ∧
      cpu.Resumes s.cpu := by
  rw [serveInterrupt_eq known, calledWith_eq expected, run]
  exact ⟨_, rfl, resumes _ convention expected _⟩

/-- An interrupt with the error code its stub expects calls the handler once, with the frame
that records the interrupted code; where the handler returns, that code goes on. -/
theorem serveInterrupt_handles (convention : KeepsFrame callee) (known : vector < 48)
    (expected : errorCode.isSome = decide (vector ∈ errorVectors)) (s : X86 η ω) :
    (∀ kernel, handlerOf invoke (tableOf vector) (s.cpu.interruptFrame vector errorCode) s.kernel =
        .ok () kernel → ∃ cpu, serveInterrupt invoke callee vector errorCode s =
          .ok () ⟨cpu, kernel⟩ ∧ cpu.Resumes s.cpu) ∧
      ∀ fault kernel, handlerOf invoke (tableOf vector) (s.cpu.interruptFrame vector errorCode)
        s.kernel = .error fault kernel → ∃ cpu, serveInterrupt invoke callee vector errorCode s =
          .error fault ⟨cpu, kernel⟩ := by
  constructor
  · exact fun kernel run => serveInterrupt_returns convention known expected run
  · intro fault kernel run
    rw [serveInterrupt_eq known, calledWith_eq expected, run]
    exact ⟨_, rfl⟩

/-- An interrupt that returns resumes the interrupted code unchanged exactly if there was an
error code just when the stub expects one and `es`, `fs` and `gs` held the selector of
`ds`. -/
theorem serveInterrupt_unchanged_iff (convention : KeepsFrame callee) (known : vector < 48)
    {s s' : X86 η ω} (run : serveInterrupt invoke callee vector errorCode s = .ok () s') :
    (s'.cpu.registers = s.cpu.registers ∧ s'.cpu.segments = s.cpu.segments ∧
        s'.cpu.eip = s.cpu.eip ∧ s'.cpu.eflags = s.cpu.eflags) ↔
      errorCode.isSome = decide (vector ∈ errorVectors) ∧
        ∀ segment ∈ [Segment.es, .fs, .gs], s.cpu.segments segment = s.cpu.segments .ds := by
  rw [serveInterrupt_eq known] at run
  cases handled : handlerOf invoke (tableOf vector) (s.cpu.calledWith vector errorCode)
      s.kernel with
  | error fault kernel =>
      rw [handled] at run
      cases run
  | ok result kernel =>
      rw [handled] at run
      cases run
      constructor
      · rintro ⟨registers, segments, -, -⟩
        have expected : errorCode.isSome = decide (vector ∈ errorVectors) := by
          -- the stack pointer tells how many words were pushed
          have esp := congrFun registers .esp
          rw [restoreContext_eq] at esp
          simp only at esp
          rw [convention.registers _ _ _ (by simp), calling_esp] at esp
          rw [← entryBytes_eq_iff]
          grind
        have data := (resumes s.cpu convention expected (s.cpu.calledWith vector errorCode)).data
        refine ⟨expected, fun segment mem => ?_⟩
        rw [← congrFun segments segment]
        exact data segment mem
      · rintro ⟨expected, data⟩
        have resumed := resumes s.cpu convention expected (s.cpu.calledWith vector errorCode)
        refine ⟨resumed.registers, funext fun segment => ?_, resumed.eip, resumed.eflags⟩
        cases segment with
        | cs => exact resumed.kept .cs (by simp)
        | ds => exact resumed.kept .ds (by simp)
        | ss => exact resumed.kept .ss (by simp)
        | es => exact (resumed.data .es (by simp)).trans (data .es (by simp)).symm
        | fs => exact (resumed.data .fs (by simp)).trans (data .fs (by simp)).symm
        | gs => exact (resumed.data .gs (by simp)).trans (data .gs (by simp)).symm

/-! ## An example -/

/-- A handler whose code only changes `eax`. -/
def clobberEax (_frame : IsrFrame) (cpu : Cpu) : Cpu := cpu.setRegister .eax 0

theorem clobberEax_keepsFrame : KeepsFrame clobberEax where
  registers _ cpu register mem :=
    Function.update_of_ne (by rintro rfl; simp at mem) _ _
  segments _ _ := rfl
  frame _ _ _ _ _ := rfl

/-- A processor in kernel code. -/
def kernelCpu : Cpu where
  registers := fun _ => 0x1000
  segments := fun
    | .cs => 0x08
    | _ => 0x10
  eip := 0xC0100000
  eflags := 0x202
  cr2 := 0
  memory := fun _ => 0

/-- The keyboard interrupts while no handler is installed. -/
theorem keyboardInterrupt_handled : ∃ cpu,
    serveInterrupt (fun (_ : Unit) _ => pure ()) clobberEax 33 none
        ⟨kernelCpu, Interrupts.boot [] ()⟩ =
      .ok () ⟨cpu, { Interrupts.boot [] () with ports := [(pic1Command, picEoi)] }⟩ ∧
      cpu.Resumes kernelCpu :=
  (serveInterrupt_handles clobberEax_keepsFrame (by decide) (by decide) _).1 _ rfl

theorem keyboardInterrupt_unchanged_iff : ∃ s' : X86 Unit Unit,
    serveInterrupt (fun _ _ => pure ()) clobberEax 33 none ⟨kernelCpu, Interrupts.boot [] ()⟩ =
        .ok () s' ∧
      ((s'.cpu.registers = kernelCpu.registers ∧ s'.cpu.segments = kernelCpu.segments ∧
          s'.cpu.eip = kernelCpu.eip ∧ s'.cpu.eflags = kernelCpu.eflags) ↔
        Option.isSome (none : Option UInt32) = decide (33 ∈ errorVectors) ∧
          ∀ segment ∈ [Segment.es, .fs, .gs],
            kernelCpu.segments segment = kernelCpu.segments .ds) := by
  have served := @serveInterrupt_eq _ Unit (fun (_ : Unit) _ => pure ()) clobberEax 33
    (by decide) none ⟨kernelCpu, Interrupts.boot [] ()⟩
  rw [calledWith_eq (by decide)] at served
  exact ⟨_, served, serveInterrupt_unchanged_iff clobberEax_keepsFrame (by decide) served⟩

end Context

end ArkoiOs
