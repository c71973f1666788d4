import Mathlib.Data.UInt
import Mathlib.Data.Nat.Notation
import Mathlib.Logic.Function.Basic
import ArkoiOs.Kpanic

/-!
# Handler tables

The handler tables of `arch/x86/idt/idt.c`, one for exceptions and one for the
lines of the interrupt controllers, and the dispatch through them.  Installing
takes any byte for a number and does not check it, so an entry behind the end of
its table is an access out of bounds.  Handlers are arbitrary code, given by
`invoke`.
-/

namespace ArkoiOs

/-! ## The model -/

/-- `isr_frame_t`. -/
structure IsrFrame where
  cr2 : UInt32
  ds : UInt32
  edi : UInt32
  esi : UInt32
  ebp : UInt32
  esp : UInt32
  ebx : UInt32
  edx : UInt32
  ecx : UInt32
  eax : UInt32
  intNo : UInt32
  errCode : UInt32
  eip : UInt32
  cs : UInt32
  eflags : UInt32
  userEsp : UInt32
  ss : UInt32
  deriving DecidableEq, Repr

/-- `g_isr_handlers` or `g_irq_handlers`. -/
inductive HandlerTable
  | isr
  | irq
  deriving DecidableEq, Repr

/-- The entries of the table. -/
def HandlerTable.size : HandlerTable → ℕ
  | .isr => 32
  | .irq => 16

/-- The two tables, whose entries may be null; the bytes written to ports, which the
code does not keep; and what else handlers work on. -/
structure Interrupts (η ω : Type) where
  handlers : (table : HandlerTable) → Vector (Option η) table.size
  ports : List (UInt16 × UInt8)
  world : ω

section Model

variable {η ω : Type}

/-- `handlers[index] = handler`. -/
def storeHandler (table : HandlerTable) (index : ℕ) (handler : Option η) :
    KernelM (Interrupts η ω) Unit :=
  if h : index < table.size then
    modify fun s =>
      { s with
        handlers := Function.update s.handlers table ((s.handlers table).set index handler h) }
  else throw .outOfBounds

/-- `handlers[index]`. -/
def loadHandler (table : HandlerTable) (index : ℕ) : KernelM (Interrupts η ω) (Option η) := do
  let s ← get
  match (s.handlers table)[index]? with
  | none => throw .outOfBounds
  | some handler => pure handler

/-- `isr_install`. -/
def isrInstall (isr : UInt8) (handler : Option η) : KernelM (Interrupts η ω) Unit :=
  storeHandler .isr isr.toNat handler

/-- `isr_uninstall`. -/
def isrUninstall (isr : UInt8) : KernelM (Interrupts η ω) Unit :=
  storeHandler .isr isr.toNat none

/-- `irq_install`. -/
def irqInstall (irq : UInt8) (handler : Option η) : KernelM (Interrupts η ω) Unit :=
  storeHandler .irq irq.toNat handler

/-- `irq_uninstall`. -/
def irqUninstall (irq : UInt8) : KernelM (Interrupts η ω) Unit :=
  storeHandler .irq irq.toNat none

/-- `EXCEPTION_MESSAGES`. -/
def exceptionMessages : List String :=
  ["Division By Zero", "Debug", "Non Maskable Interrupt", "Breakpoint", "Into Detected Overflow",
    "Out of Bounds", "Invalid Opcode", "No Coprocessor", "Double fault",
    "Coprocessor Segment Overrun", "Bad TSS", "Segment not present", "Stack fault",
    "General protection fault", "Page fault", "Unknown Interrupt", "Coprocessor Fault",
    "Alignment Fault", "Machine Check"] ++ List.replicate 13 "Reserved"

/-- The panic for an exception without a handler; its message is put into the
format. -/
def unhandledException (exception : UInt32) (message : String) : KernelM (Interrupts η ω) Unit :=
  kpanic ("Unhandled exception: %u (" ++ message ++ ")\n") [exception]

def pic1Command : UInt16 := 0x20
def pic2Command : UInt16 := 0xA0
def picEoi : UInt8 := 0x20

/-- `outb`. -/
def Interrupts.outb (port : UInt16) (data : UInt8) : KernelM (Interrupts η ω) Unit :=
  modify fun s => { s with ports := s.ports ++ [(port, data)] }

/-- `pic_send_eoi`. -/
def picSendEoi (irq : UInt8) : KernelM (Interrupts η ω) Unit := do
  if irq ≥ 8 then Interrupts.outb pic2Command picEoi
  Interrupts.outb pic1Command picEoi

variable (invoke : η → IsrFrame → KernelM (Interrupts η ω) Unit)

/-- `isr_handler`. -/
def isrHandler (frame : IsrFrame) : KernelM (Interrupts η ω) Unit := do
  if frame.intNo ≥ 32 then kpanic "Invalid ISR with interrupt number %u" [frame.intNo]
  else
    match ← loadHandler .isr frame.intNo.toNat with
    | some handler => invoke handler frame
    | none =>
        match exceptionMessages[frame.intNo.toNat]? with
        | none => throw .outOfBounds
        | some message => unhandledException frame.intNo message

/-- `irq_handler`. -/
def irqHandler (frame : IsrFrame) : KernelM (Interrupts η ω) Unit := do
  let irq := frame.intNo - 32
  match ← loadHandler .irq irq.toNat with
  | some handler => invoke handler frame
  | none => pure ()
  picSendEoi irq.toUInt8

end Model

/-! ## Calls -/

/-- A call that changes a table. -/
inductive TableCall (η : Type)
  | isrInstall (isr : UInt8) (handler : Option η)
  | isrUninstall (isr : UInt8)
  | irqInstall (irq : UInt8) (handler : Option η)
  | irqUninstall (irq : UInt8)
  deriving DecidableEq, Repr

namespace TableCall

variable {η ω : Type}

/-- Make the call. -/
def run : TableCall η → KernelM (Interrupts η ω) Unit
  | isrInstall isr handler => ArkoiOs.isrInstall isr handler
  | isrUninstall isr => ArkoiOs.isrUninstall isr
  | irqInstall irq handler => ArkoiOs.irqInstall irq handler
  | irqUninstall irq => ArkoiOs.irqUninstall irq

/-- The table the call is about. -/
def table : TableCall η → HandlerTable
  | isrInstall _ _ | isrUninstall _ => .isr
  | irqInstall _ _ | irqUninstall _ => .irq

/-- The number the call is about. -/
def number : TableCall η → UInt8
  | isrInstall number _ | isrUninstall number | irqInstall number _ | irqUninstall number => number

/-- The handler the call leaves, if any. -/
def handler : TableCall η → Option η
  | isrInstall _ handler | irqInstall _ handler => handler
  | isrUninstall _ | irqUninstall _ => none

/-- The number is an index of the table. -/
def InRange (call : TableCall η) : Prop := call.number.toNat < call.table.size

instance (call : TableCall η) : Decidable call.InRange :=
  inferInstanceAs (Decidable (_ < _))

/-- Each call stores one entry. -/
theorem run_eq (call : TableCall η) :
    call.run (ω := ω) = storeHandler call.table call.number.toNat call.handler := by
  cases call <;> rfl

end TableCall

section Calls

variable {η ω : Type}

/-- Make the calls in their order. -/
def runTableCalls (calls : List (TableCall η)) : KernelM (Interrupts η ω) Unit :=
  calls.forM TableCall.run

/-- The tables at boot. -/
def Interrupts.boot (ports : List (UInt16 × UInt8)) (world : ω) : Interrupts η ω where
  handlers table := Vector.replicate table.size none
  ports := ports
  world := world

/-- What is dispatched for a number of a table. -/
def Interrupts.dispatched (s : Interrupts η ω) (table : HandlerTable) (number : ℕ) : Option η :=
  ((s.handlers table)[number]?).join

/-- The call is about the number of the table. -/
def TableCall.About (table : HandlerTable) (number : ℕ) (call : TableCall η) : Prop :=
  call.table = table ∧ call.number.toNat = number

instance (table : HandlerTable) (number : ℕ) (call : TableCall η) :
    Decidable (call.About table number) :=
  inferInstanceAs (Decidable (_ ∧ _))

/-- The handler of the latest call about a number, if there is one and it installed
one. -/
def latestHandler (calls : List (TableCall η)) (table : HandlerTable) (number : ℕ) : Option η :=
  (calls.reverse.find? fun call => call.About table number).bind TableCall.handler

/-- Acknowledge an interrupt, also at the second controller if it is its own. -/
def acknowledge (irq : ℕ) : KernelM (Interrupts η ω) Unit :=
  modify fun s =>
    { s with
      ports := s.ports ++
        if 8 ≤ irq then [(pic2Command, picEoi), (pic1Command, picEoi)]
        else [(pic1Command, picEoi)] }

/-- What the interface promises for a sequence of calls: no access is out of bounds,
each vector is dispatched to its latest handler, an exception without one panics, an
interrupt is acknowledged behind its handler, and a call changes nothing for other
numbers. -/
structure DispatchesLatest (invoke : η → IsrFrame → KernelM (Interrupts η ω) Unit)
    (start : Interrupts η ω) (calls : List (TableCall η)) : Prop where
  inBounds : ∃ s, runTableCalls calls start = .ok () s
  isr : ∀ s, runTableCalls calls start = .ok () s → ∀ frame : IsrFrame, frame.intNo.toNat < 32 →
    (∀ handler, latestHandler calls .isr frame.intNo.toNat = some handler →
      isrHandler invoke frame s = invoke handler frame s) ∧
    (latestHandler calls .isr frame.intNo.toNat = none → ∃ message,
      exceptionMessages[frame.intNo.toNat]? = some message ∧
        isrHandler invoke frame s = unhandledException frame.intNo message s)
  irq : ∀ s, runTableCalls calls start = .ok () s → ∀ frame : IsrFrame, ∀ number < 16,
    frame.intNo.toNat = 32 + number →
    irqHandler invoke frame s = (do
      (latestHandler calls .irq number).forM fun handler => invoke handler frame
      acknowledge number) s
  apart : ∀ front call, front ++ [call] <+: calls → ∀ s s' : Interrupts η ω,
    runTableCalls front start = .ok () s → call.run s = .ok () s' →
    ∀ table number, ¬ call.About table number →
      s'.dispatched table number = s.dispatched table number

/-! ## The tables along a run -/

section Run

variable {table : HandlerTable} {index number : ℕ} {handler : Option η} {s s' : Interrupts η ω}
  {call : TableCall η} {calls : List (TableCall η)}

theorem storeHandler_of_lt (inside : index < table.size) (handler : Option η)
    (s : Interrupts η ω) :
    storeHandler table index handler s = .ok () { s with
      handlers :=
        Function.update s.handlers table ((s.handlers table).set index handler inside) } := by
  unfold storeHandler
  rw [dif_pos inside, Machine.modify_run]

theorem storeHandler_of_ge (outside : ¬ index < table.size) (handler : Option η)
    (s : Interrupts η ω) : storeHandler table index handler s = .error .outOfBounds s := by
  unfold storeHandler
  rw [dif_neg outside]
  rfl

/-- A call that returns had its number in range. -/
theorem TableCall.inRange_of_ok (run : call.run s = .ok () s') : call.InRange := by
  by_contra outside
  rw [TableCall.run_eq, storeHandler_of_ge outside] at run
  cases run

/-- What is dispatched after a call. -/
theorem TableCall.dispatched (run : call.run s = .ok () s') (table : HandlerTable) (number : ℕ) :
    s'.dispatched table number =
      if call.About table number then call.handler else s.dispatched table number := by
  have inside : call.number.toNat < call.table.size := TableCall.inRange_of_ok run
  rw [TableCall.run_eq, storeHandler_of_lt inside] at run
  cases run
  unfold Interrupts.dispatched
  simp only
  by_cases same : call.table = table
  case neg =>
    rw [if_neg fun about => same about.1, Function.update_of_ne (Ne.symm same)]
  subst same
  rw [Function.update_self]
  by_cases here : call.number.toNat = number
  · subst here
    rw [if_pos ⟨rfl, rfl⟩, Vector.getElem?_set_self]
    rfl
  · rw [if_neg fun about => here about.2, Vector.getElem?_set_ne _ here]

theorem latestHandler_concat (calls : List (TableCall η)) (call : TableCall η)
    (table : HandlerTable) (number : ℕ) :
    latestHandler (calls ++ [call]) table number =
      if call.About table number then call.handler else latestHandler calls table number := by
  unfold latestHandler
  rw [List.reverse_append, List.reverse_singleton, List.singleton_append, List.find?_cons]
  by_cases about : call.About table number
  · simp only [decide_eq_true about, if_pos about]
    rfl
  · simp only [decide_eq_false about, if_neg about]

theorem runTableCalls_concat (calls : List (TableCall η)) (call : TableCall η)
    (s : Interrupts η ω) :
    runTableCalls (calls ++ [call]) s = (runTableCalls calls >>= fun _ => call.run) s := by
  change forM (calls ++ [call]) TableCall.run s = _
  rw [List.forM_append, List.forM_cons, List.forM_nil]
  simp only [bind_pure_unit]
  rfl

/-- Behind calls from boot each number is dispatched to its latest handler. -/
theorem runTableCalls_dispatched {ports : List (UInt16 × UInt8)} {world : ω}
    (run : runTableCalls calls (.boot ports world) = .ok () s) (table : HandlerTable) (number : ℕ) :
    s.dispatched table number = latestHandler calls table number := by
  induction calls using List.reverseRecOn generalizing s with
  | nil =>
      cases run
      unfold Interrupts.dispatched Interrupts.boot
      simp only [Vector.getElem?_replicate]
      split <;> rfl
  | append_singleton calls call ih =>
      rw [runTableCalls_concat] at run
      obtain ⟨_, s₁, before, last⟩ := Machine.bind_eq_ok.1 run
      rw [TableCall.dispatched last, latestHandler_concat, ih before]

/-- Calls with numbers in range return. -/
theorem runTableCalls_of_inRange (inRange : ∀ call ∈ calls, call.InRange) (s : Interrupts η ω) :
    ∃ s', runTableCalls calls s = .ok () s' := by
  induction calls generalizing s with
  | nil => exact ⟨s, rfl⟩
  | cons call calls ih =>
      have first := storeHandler_of_lt (inRange call List.mem_cons_self) call.handler s
      rw [← TableCall.run_eq] at first
      obtain ⟨s', rest⟩ := ih (fun c mem => inRange c (List.mem_cons_of_mem _ mem)) _
      exact ⟨s', (Machine.bind_of_ok first).trans rest⟩

theorem inRange_of_runTableCalls (run : runTableCalls calls s = .ok () s') :
    ∀ call ∈ calls, call.InRange := by
  induction calls generalizing s with
  | nil => exact fun _ mem => (List.not_mem_nil mem).elim
  | cons call calls ih =>
      obtain ⟨_, s₁, first, rest⟩ := Machine.bind_eq_ok.1 run
      intro c mem
      rcases List.mem_cons.1 mem with rfl | later
      · exact TableCall.inRange_of_ok first
      · exact ih rest c later

end Run

/-! ## Dispatch -/

section Dispatch

variable {invoke : η → IsrFrame → KernelM (Interrupts η ω) Unit} {s : Interrupts η ω}
  {frame : IsrFrame}

theorem loadHandler_eq {table : HandlerTable} {index : ℕ} (inside : index < table.size)
    (s : Interrupts η ω) : loadHandler table index s = .ok (s.dispatched table index) s := by
  unfold loadHandler Interrupts.dispatched
  rw [Machine.bind_of_ok (Machine.get_run s), Vector.getElem?_eq_getElem inside]
  rfl

theorem exists_exceptionMessage {exception : ℕ} (bound : exception < 32) :
    ∃ message, exceptionMessages[exception]? = some message :=
  ⟨_, List.getElem?_eq_getElem (bound.trans_eq (by decide))⟩

/-- An exception with a handler is handled. -/
theorem isrHandler_of_some (vector : frame.intNo.toNat < 32) {handler : η}
    (found : s.dispatched .isr frame.intNo.toNat = some handler) :
    isrHandler invoke frame s = invoke handler frame s := by
  have valid : ¬ frame.intNo ≥ 32 := by
    rw [ge_iff_le, UInt32.le_iff_toNat_le]
    exact Nat.not_le.2 vector
  unfold isrHandler
  rw [if_neg valid, Machine.bind_of_ok (loadHandler_eq vector s), found]

/-- An exception without one panics. -/
theorem isrHandler_of_none (vector : frame.intNo.toNat < 32)
    (missing : s.dispatched .isr frame.intNo.toNat = none) :
    ∃ message, exceptionMessages[frame.intNo.toNat]? = some message ∧
      isrHandler invoke frame s = unhandledException frame.intNo message s := by
  have valid : ¬ frame.intNo ≥ 32 := by
    rw [ge_iff_le, UInt32.le_iff_toNat_le]
    exact Nat.not_le.2 vector
  obtain ⟨message, listed⟩ := exists_exceptionMessage vector
  refine ⟨message, listed, ?_⟩
  unfold isrHandler
  rw [if_neg valid, Machine.bind_of_ok (loadHandler_eq vector s), missing]
  simp only [listed]

/-- `pic_send_eoi` acknowledges the interrupt. -/
theorem picSendEoi_eq {irq : UInt8} {number : ℕ} (same : irq.toNat = number) :
    (picSendEoi irq : KernelM (Interrupts η ω) Unit) = acknowledge number := by
  subst same
  have second : irq ≥ 8 ↔ 8 ≤ irq.toNat := UInt8.le_iff_toNat_le
  funext s
  unfold picSendEoi acknowledge
  by_cases own : irq ≥ 8
  · rw [if_pos own, if_pos (second.1 own), Interrupts.outb,
      Machine.bind_of_ok (Machine.modify_run _ _)]
    simp only [Interrupts.outb, Machine.modify_run, List.append_assoc, List.singleton_append]
  · rw [if_neg own, Interrupts.outb, if_neg (mt second.2 own)]

/-- An interrupt is handled and acknowledged. -/
theorem irqHandler_eq {number : ℕ} (vector : number < 16)
    (place : frame.intNo.toNat = 32 + number) (s : Interrupts η ω) :
    irqHandler invoke frame s = (do
      (s.dispatched .irq number).forM fun handler => invoke handler frame
      acknowledge number) s := by
  have irq : (frame.intNo - 32).toNat = number := by
    have vectors : (32 : UInt32) ≤ frame.intNo := by
      rw [UInt32.le_iff_toNat_le, place]
      exact Nat.le_add_right 32 number
    rw [UInt32.toNat_sub_of_le _ _ vectors, place]
    exact Nat.add_sub_cancel_left 32 number
  have byte : (frame.intNo - 32).toUInt8.toNat = number := by
    rw [UInt32.toNat_toUInt8, irq]
    exact Nat.mod_eq_of_lt (vector.trans (by decide))
  unfold irqHandler
  simp only [irq, picSendEoi_eq byte]
  rw [Machine.bind_of_ok (loadHandler_eq vector s)]
  cases s.dispatched .irq number <;> rfl

end Dispatch

/-- Calls are dispatched as promised if and only if every number is an index of its
table. -/
theorem dispatchesLatest_iff (invoke : η → IsrFrame → KernelM (Interrupts η ω) Unit)
    (ports : List (UInt16 × UInt8)) (world : ω) (calls : List (TableCall η)) :
    DispatchesLatest invoke (.boot ports world) calls ↔
      ∀ call ∈ calls, call.number.toNat < call.table.size := by
  constructor
  · intro promised
    obtain ⟨s, run⟩ := promised.inBounds
    exact inRange_of_runTableCalls run
  · intro inRange
    refine ⟨runTableCalls_of_inRange inRange _, ?_, ?_, ?_⟩
    · intro s run frame vector
      rw [← runTableCalls_dispatched run]
      exact ⟨fun handler found => isrHandler_of_some vector found, isrHandler_of_none vector⟩
    · intro s run frame number vector place
      rw [← runTableCalls_dispatched run]
      exact irqHandler_eq vector place s
    · intro front call _ s s' _ last table number other
      rw [TableCall.dispatched last, if_neg other]

/-- Installing a handler for vector 128, which is a vector, is an access behind the
table. -/
theorem vector128_outOfBounds :
    runTableCalls [TableCall.isrInstall 128 (some ())] (Interrupts.boot [] ()) =
        .error .outOfBounds (Interrupts.boot [] ()) ∧
      ¬ DispatchesLatest (fun _ _ => pure ()) (Interrupts.boot [] ())
        [TableCall.isrInstall 128 (some ())] := by
  have outside : runTableCalls [TableCall.isrInstall 128 (some ())] (Interrupts.boot [] ()) =
      .error .outOfBounds (Interrupts.boot [] ()) := by
    refine Machine.bind_of_error (Eq.trans (congrFun (TableCall.run_eq _) _) ?_)
    exact storeHandler_of_ge (show ¬ 128 < 32 by decide) _ _
  refine ⟨outside, fun promised => ?_⟩
  obtain ⟨_, run⟩ := promised.inBounds
  rw [outside] at run
  cases run

end Calls

end ArkoiOs
