import Mathlib.Tactic.IntervalCases
import ArkoiOs.Idt.Context
import ArkoiOs.Idt.Pic
import ArkoiOs.Idt.Descriptors
import ArkoiOs.Library.RecordTable

/-!
# Descriptor tables

`gdt_init` and `idt_init` as the boot code calls them one after the other.  They
write entries into memory and have the processor load where these are; from then on
the processor looks segments and interrupt gates up there.  Segment registers keep
what was read when they were loaded.  The linker decides where the tables and the
stubs are.
-/

namespace ArkoiOs

/-- Why the processor refuses to go on. -/
inductive ProtectionFault
  | segment (selector : ℕ)
  | gate (vector : ℕ)
  | outOfBounds
  deriving DecidableEq, Repr

/-- The processor, as far as descriptors are concerned, and the interrupt controllers. -/
structure TableCpu where
  memory : UInt32 → UInt8
  gdtr : TablePtr
  idtr : TablePtr
  selectors : Segment → UInt16
  segments : Segment → SegmentDescriptor
  interrupts : Bool
  pics : Pics

/-- Code until a fault. -/
abbrev TableM (α : Type) : Type := EStateM ProtectionFault TableCpu α

/-! ## The processor -/

namespace TablePtr

def ofBytes (bytes : List UInt8) : TablePtr where
  limit := .ofNat (LittleEndian.decode (bytes.take 2))
  base := .ofNat (LittleEndian.decode (bytes.drop 2))

/-- The operand of `lgdt` and `lidt` is what was stored. -/
theorem ofBytes_bytes (ptr : TablePtr) : ofBytes ptr.bytes = ptr := by
  have front : ptr.bytes.take 2 = LittleEndian.encode 2 ptr.limit.toNat := rfl
  have back : ptr.bytes.drop 2 = LittleEndian.encode 4 ptr.base.toNat := rfl
  unfold ofBytes
  rw [front, back, LittleEndian.decode_encode_of_lt ptr.limit.toNat_lt,
    LittleEndian.decode_encode_of_lt ptr.base.toNat_lt, UInt16.ofNat_toNat, UInt32.ofNat_toNat]

theorem length_bytes (ptr : TablePtr) : ptr.bytes.length = 6 := rfl

end TablePtr

theorem GdtEntry.length_bytes (entry : GdtEntry) : entry.bytes.length = 8 := rfl

theorem IdtEntry.length_bytes (entry : IdtEntry) : entry.bytes.length = 8 := rfl

namespace TableCpu

/-- The privilege of the running code. -/
def cpl (s : TableCpu) : ℕ := (s.selectors .cs).toNat % 4

/-- The descriptor of a selector; there is no local table. -/
def descriptorAt (s : TableCpu) (selector : ℕ) : Option SegmentDescriptor :=
  let offset := 8 * (selector / 8)
  if selector / 4 % 2 = 0 ∧ offset + 7 ≤ s.gdtr.limit.toNat then
    some (.ofBytes (RecordTable.read s.memory (s.gdtr.base + .ofNat offset) 8))
  else none

end TableCpu

/-- A segment register takes a segment; conforming code does not occur. -/
def Segment.accepts (segment : Segment) (cpl rpl : ℕ) (descriptor : SegmentDescriptor) : Bool :=
  descriptor.codeOrData &&
    match segment with
    | .cs => descriptor.code && rpl ≤ cpl && descriptor.privilege = cpl
    | .ss =>
        !descriptor.code && descriptor.readWrite && rpl = cpl && descriptor.privilege = cpl
    | _ =>
        (!descriptor.code || descriptor.readWrite) && max cpl rpl ≤ descriptor.privilege

/-- Load a segment register; the null selector does not occur. -/
def loadSegment (segment : Segment) (selector : UInt16) : TableM Unit := do
  let s ← get
  match s.descriptorAt selector.toNat with
  | none => throw (.segment selector.toNat)
  | some descriptor =>
      if segment.accepts s.cpl (selector.toNat % 4) descriptor ∧ descriptor.present then
        modify fun s => { s with
          selectors := Function.update s.selectors segment selector
          segments := Function.update s.segments segment descriptor }
      else throw (.segment selector.toNat)

/-- Where an interrupt enters the kernel. -/
structure GateTarget where
  selector : ℕ
  offset : ℕ
  linear : ℕ
  deriving DecidableEq, Repr

/-- The processor looks up the gate of a vector. -/
def TableCpu.deliver (s : TableCpu) (vector : ℕ) : Except ProtectionFault GateTarget :=
  if 8 * vector + 7 ≤ s.idtr.limit.toNat then
    let gate := Gate.ofBytes (RecordTable.read s.memory (s.idtr.base + .ofNat (8 * vector)) 8)
    if gate.present ∧ gate.interrupt32 then
      match s.descriptorAt gate.selector with
      | none => .error (.segment gate.selector)
      | some descriptor =>
          if descriptor.codeOrData ∧ descriptor.code ∧ descriptor.privilege ≤ s.cpl ∧
              descriptor.present ∧ gate.offset ≤ descriptor.lastOffset then
            .ok ⟨gate.selector, gate.offset, (descriptor.base + gate.offset) % 2 ^ 32⟩
          else .error (.segment gate.selector)
    else .error (.gate vector)
  else .error (.gate vector)

/-! ## The tables -/

/-- Where the linker puts the tables and the operands of `lgdt` and `lidt`. -/
structure TableLayout where
  gdtEntries : RecordTable.Window
  gdtPtr : RecordTable.Window
  idtEntries : RecordTable.Window
  idtPtr : RecordTable.Window
  gdtEntries_size : gdtEntries.size = 40
  gdtPtr_size : gdtPtr.size = 6
  idtEntries_size : idtEntries.size = 384
  idtPtr_size : idtPtr.size = 6
  apart : [gdtEntries, gdtPtr, idtEntries, idtPtr].Pairwise RecordTable.Window.Apart

/-- Write an object of a layout. -/
def storeObject (window : RecordTable.Window) (offset : ℕ) (bytes : List UInt8) : TableM Unit :=
  modify fun s =>
    { s with memory := RecordTable.place s.memory (window.base + .ofNat offset) bytes }

def gdtSegments : UInt16 := 5
def idtEntriesAmount : UInt16 := 48

def gdtGran4kb : UInt16 := (1 : UInt16) <<< 15
def gdtGran32bit : UInt16 := (1 : UInt16) <<< 14
def gdtAccessPresent : UInt16 := (1 : UInt16) <<< 7
def gdtAccessPrivilege (level : UInt16) : UInt16 := (level &&& 0x03) <<< 5
def gdtAccessCodeData : UInt16 := (1 : UInt16) <<< 4
def gdtAccessData : UInt16 := (0 : UInt16) <<< 3
def gdtAccessCode : UInt16 := (1 : UInt16) <<< 3
def gdtAccessRead : UInt16 := (1 : UInt16) <<< 1
def gdtAccessWrite : UInt16 := (1 : UInt16) <<< 1

/-- `GDT_CODE_RING0` and `GDT_CODE_RING3`. -/
def gdtCodeRing (level : UInt16) : UInt16 :=
  gdtAccessPresent ||| gdtAccessPrivilege level ||| gdtAccessCodeData ||| gdtAccessCode |||
    gdtAccessRead

/-- `GDT_DATA_RING0` and `GDT_DATA_RING3`. -/
def gdtDataRing (level : UInt16) : UInt16 :=
  gdtAccessPresent ||| gdtAccessPrivilege level ||| gdtAccessCodeData ||| gdtAccessData |||
    gdtAccessWrite

section Init

variable (layout : TableLayout) (address : List Instruction → UInt32)

/-- `gdt_load`. -/
def gdtLoad (ptr : UInt32) : TableM Unit := do
  modify fun s => { s with gdtr := .ofBytes (RecordTable.read s.memory ptr 6) }
  loadSegment .ds 0x10
  loadSegment .es 0x10
  loadSegment .fs 0x10
  loadSegment .gs 0x10
  loadSegment .ss 0x10
  loadSegment .cs 0x08

/-- `gdt_init`. -/
def gdtInit : TableM Unit := do
  storeObject layout.gdtPtr 0 (gdtCreatePtr gdtSegments layout.gdtEntries.base).bytes
  storeObject layout.gdtEntries (8 * 0) (gdtCreateEntry 0x00000000 0x00000 0).bytes
  storeObject layout.gdtEntries (8 * 1)
    (gdtCreateEntry 0x00000000 0xFFFFF (gdtCodeRing 0 ||| gdtGran4kb ||| gdtGran32bit)).bytes
  storeObject layout.gdtEntries (8 * 2)
    (gdtCreateEntry 0x00000000 0xFFFFF (gdtDataRing 0 ||| gdtGran4kb ||| gdtGran32bit)).bytes
  storeObject layout.gdtEntries (8 * 3)
    (gdtCreateEntry 0x00000000 0xFFFFF (gdtCodeRing 3 ||| gdtGran4kb ||| gdtGran32bit)).bytes
  storeObject layout.gdtEntries (8 * 4)
    (gdtCreateEntry 0x00000000 0xFFFFF (gdtDataRing 3 ||| gdtGran4kb ||| gdtGran32bit)).bytes
  gdtLoad layout.gdtPtr.base

/-- `idt_load`. -/
def idtLoad (ptr : UInt32) : TableM Unit := do
  modify fun s => { s with idtr := .ofBytes (RecordTable.read s.memory ptr 6) }
  modify fun s => { s with interrupts := true }

/-- `g_idt_entries[vector] = idt_create_entry(stub, 0x8E)`. -/
def setGate (vector : ℕ) (stub : Option (List Instruction)) : TableM Unit :=
  match stub with
  | none => throw .outOfBounds
  | some stub =>
      storeObject layout.idtEntries (8 * vector) (idtCreateEntry (address stub) 0x8E).bytes

/-- `pic_remap` on the chips. -/
def remapPics (offset1 offset2 : UInt8) : TableM Unit := do
  let s ← get
  match picRemap offset1 offset2 s.pics with
  | .ok _ pics => set { s with pics := pics }
  | .error _ _ => throw .outOfBounds

/-- `idt_init`. -/
def idtInit : TableM Unit := do
  storeObject layout.idtPtr 0 (idtCreatePtr idtEntriesAmount layout.idtEntries.base).bytes
  (List.range' 0 32).forM fun vector => setGate layout address vector isrStubTable[vector]?
  remapPics 0x20 0x28
  (List.range' 32 16).forM fun vector =>
    setGate layout address vector irqStubTable[vector - 32]?
  idtLoad layout.idtPtr.base

/-- What the boot code calls. -/
def initTables : TableM Unit := do
  gdtInit layout
  idtInit layout address

end Init

/-! ## Segments -/

section Segments

variable {layout : TableLayout} {s : TableCpu} {selector : ℕ} {segment : Segment}

/-- The entries of the segment table. -/
def segmentEntry : ℕ → GdtEntry
  | 1 => gdtCreateEntry 0x00000000 0xFFFFF (gdtCodeRing 0 ||| gdtGran4kb ||| gdtGran32bit)
  | 2 => gdtCreateEntry 0x00000000 0xFFFFF (gdtDataRing 0 ||| gdtGran4kb ||| gdtGran32bit)
  | 3 => gdtCreateEntry 0x00000000 0xFFFFF (gdtCodeRing 3 ||| gdtGran4kb ||| gdtGran32bit)
  | 4 => gdtCreateEntry 0x00000000 0xFFFFF (gdtDataRing 3 ||| gdtGran4kb ||| gdtGran32bit)
  | _ => gdtCreateEntry 0x00000000 0x00000 0

/-- The whole memory as a segment. -/
def flatSegment (access : ℕ) : SegmentDescriptor := ⟨0, 0xFFFFF, access, 0xC⟩

/-- The segments of the table. -/
def segmentTable : List SegmentDescriptor :=
  [⟨0, 0, 0, 0⟩, flatSegment 0x9A, flatSegment 0x92, flatSegment 0xFA, flatSegment 0xF2]

theorem segmentEntry_descriptor {i : ℕ} (inside : i < 5) :
    segmentTable[i]? = some (.ofBytes (segmentEntry i).bytes) := by
  have entry := segmentDescriptor_gdtCreateEntry 0x00000000 0xFFFFF
  interval_cases i
  · exact (congrArg some (segmentDescriptor_gdtCreateEntry 0x00000000 0x00000 0)).symm
  · exact (congrArg some (entry (gdtCodeRing 0 ||| gdtGran4kb ||| gdtGran32bit))).symm
  · exact (congrArg some (entry (gdtDataRing 0 ||| gdtGran4kb ||| gdtGran32bit))).symm
  · exact (congrArg some (entry (gdtCodeRing 3 ||| gdtGran4kb ||| gdtGran32bit))).symm
  · exact (congrArg some (entry (gdtDataRing 3 ||| gdtGran4kb ||| gdtGran32bit))).symm

/-- The processor finds the segment table in memory. -/
structure TableCpu.HasSegments (layout : TableLayout) (s : TableCpu) : Prop where
  gdtr : s.gdtr = ⟨39, layout.gdtEntries.base⟩
  filled : RecordTable.Filled s.memory layout.gdtEntries 8 (fun i => (segmentEntry i).bytes) 5

/-- Selectors name the entries of the table, whatever privilege they ask for. -/
theorem TableCpu.HasSegments.descriptorAt (table : s.HasSegments layout)
    (global : selector / 4 % 2 = 0) : s.descriptorAt selector = segmentTable[selector / 8]? := by
  unfold TableCpu.descriptorAt
  rw [table.gdtr]
  by_cases inside : selector / 8 < 5
  · have room : 8 * (selector / 8) + 7 ≤ (39 : UInt16).toNat := by change _ ≤ 39; omega
    simp only [if_pos (And.intro global room)]
    rw [table.filled _ inside, segmentEntry_descriptor inside]
  · have outside : ¬ 8 * (selector / 8) + 7 ≤ (39 : UInt16).toNat := by
      change ¬ _ ≤ 39
      omega
    simp only [if_neg fun both => outside (And.right both)]
    exact (List.getElem?_eq_none (Nat.not_lt.1 inside)).symm

/-- A segment register was loaded. -/
def TableCpu.loaded (s : TableCpu) (segment : Segment) (selector : UInt16)
    (descriptor : SegmentDescriptor) : TableCpu :=
  { s with
    selectors := Function.update s.selectors segment selector
    segments := Function.update s.segments segment descriptor }

theorem loadSegment_ok {value : UInt16} {descriptor : SegmentDescriptor}
    (found : s.descriptorAt value.toNat = some descriptor)
    (accepted : segment.accepts s.cpl (value.toNat % 4) descriptor = true)
    (present : descriptor.present = true) :
    loadSegment segment value s = .ok () (s.loaded segment value descriptor) := by
  unfold loadSegment
  rw [Machine.bind_of_ok (Machine.get_run s)]
  simp only [found, if_pos (And.intro accepted present)]
  rfl

/-- Kernel data is taken into each register but `cs`. -/
theorem loadKernelData (segment : Segment) (table : s.HasSegments layout) (kernel : s.cpl = 0) (data : segment ≠ .cs) :
    loadSegment segment 0x10 s = .ok () (s.loaded segment 0x10 (flatSegment 0x92)) ∧
      (s.loaded segment 0x10 (flatSegment 0x92)).HasSegments layout ∧
      (s.loaded segment 0x10 (flatSegment 0x92)).cpl = 0 := by
  refine ⟨loadSegment_ok (table.descriptorAt rfl) ?_ rfl, ⟨table.gdtr, table.filled⟩, ?_⟩
  · rw [kernel]
    cases segment with
    | cs => exact (data rfl).elim
    | _ => decide
  · unfold TableCpu.cpl TableCpu.loaded
    simp only [Function.update_of_ne data.symm]
    exact kernel

/-- Kernel code is taken into `cs`. -/
theorem loadKernelCode (table : s.HasSegments layout) (kernel : s.cpl = 0) :
    loadSegment .cs 0x08 s = .ok () (s.loaded .cs 0x08 (flatSegment 0x9A)) := by
  refine loadSegment_ok (table.descriptorAt rfl) ?_ rfl
  rw [kernel]
  decide

/-- All segment registers were loaded with the kernel's segments. -/
def TableCpu.inKernel (s : TableCpu) : TableCpu :=
  (((((s.loaded .ds 0x10 (flatSegment 0x92)).loaded .es 0x10 (flatSegment 0x92)).loaded .fs 0x10
    (flatSegment 0x92)).loaded .gs 0x10 (flatSegment 0x92)).loaded .ss 0x10
      (flatSegment 0x92)).loaded .cs 0x08 (flatSegment 0x9A)

theorem TableCpu.inKernel_data (s : TableCpu) (data : segment ≠ .cs) :
    s.inKernel.selectors segment = 0x10 ∧ s.inKernel.segments segment = flatSegment 0x92 := by
  cases segment with
  | cs => exact (data rfl).elim
  | _ => exact ⟨rfl, rfl⟩

/-- `gdt_load` of a pointer to the segment table. -/
theorem gdtLoad_ok {s : TableCpu} {ptr : UInt32} (kernel : s.cpl = 0)
    (operand : RecordTable.read s.memory ptr 6 = (TablePtr.mk 39 layout.gdtEntries.base).bytes)
    (filled : RecordTable.Filled s.memory layout.gdtEntries 8 (fun i => (segmentEntry i).bytes) 5) :
    gdtLoad ptr s =
      .ok () ({ s with gdtr := ⟨39, layout.gdtEntries.base⟩ } : TableCpu).inKernel := by
  have pointed : (modify fun s : TableCpu =>
      { s with gdtr := .ofBytes (RecordTable.read s.memory ptr 6) } : TableM Unit) s =
        .ok () { s with gdtr := ⟨39, layout.gdtEntries.base⟩ } := by
    rw [Machine.modify_run, operand, TablePtr.ofBytes_bytes]
  have start : ({ s with gdtr := ⟨39, layout.gdtEntries.base⟩ } : TableCpu).HasSegments layout :=
    ⟨rfl, filled⟩
  obtain ⟨ds, table₁, kernel₁⟩ := loadKernelData .ds start kernel Segment.noConfusion
  obtain ⟨es, table₂, kernel₂⟩ := loadKernelData .es table₁ kernel₁ Segment.noConfusion
  obtain ⟨fs, table₃, kernel₃⟩ := loadKernelData .fs table₂ kernel₂ Segment.noConfusion
  obtain ⟨gs, table₄, kernel₄⟩ := loadKernelData .gs table₃ kernel₃ Segment.noConfusion
  obtain ⟨ss, table₅, kernel₅⟩ := loadKernelData .ss table₄ kernel₄ Segment.noConfusion
  have cs := loadKernelCode table₅ kernel₅
  unfold gdtLoad
  rw [Machine.bind_of_ok pointed, Machine.bind_of_ok ds, Machine.bind_of_ok es,
    Machine.bind_of_ok fs, Machine.bind_of_ok gs, Machine.bind_of_ok ss]
  exact cs

/-- The memory behind `gdt_init`. -/
def TableLayout.segmentMemory (layout : TableLayout) (memory : UInt32 → UInt8) : UInt32 → UInt8 :=
  RecordTable.fill
    (RecordTable.place memory (layout.gdtPtr.base + .ofNat 0)
      (gdtCreatePtr gdtSegments layout.gdtEntries.base).bytes)
    layout.gdtEntries 8 (fun i => (segmentEntry i).bytes) 5

theorem segmentMemory_of_not_has (layout : TableLayout) (memory : UInt32 → UInt8) {b : UInt32}
    (table : ¬ layout.gdtEntries.Has b) (ptr : ¬ layout.gdtPtr.Has b) :
    layout.segmentMemory memory b = memory b := by
  refine (RecordTable.fill_of_not_has ?length layout.gdtEntries_size.ge table).trans ?_
  case length => exact fun i _ => rfl
  exact RecordTable.place_of_not_has layout.gdtPtr_size.ge ptr

/-- A pointer that was stored is read where no other object overlaps it. -/
theorem read_ptr {memory memory' : UInt32 → UInt8} {window : RecordTable.Window} {ptr : TablePtr}
    (same : ∀ b, window.Has b →
      memory' b = RecordTable.place memory (window.base + .ofNat 0) ptr.bytes b)
    (size : window.size = 6) : RecordTable.read memory' window.base 6 = ptr.bytes := by
  have start : window.base + UInt32.ofNat 0 = window.base := add_zero _
  rw [start] at same
  calc RecordTable.read memory' window.base 6
    _ = RecordTable.read (RecordTable.place memory window.base ptr.bytes) window.base 6 :=
        RecordTable.read_congr fun i bound => same _ (RecordTable.Window.has_add (by omega))
    _ = ptr.bytes := RecordTable.read_place memory window.base (by
        rw [TablePtr.length_bytes]
        omega)

/-- `gdt_init` fills the table and loads the kernel's segments. -/
theorem gdtInit_ok (layout : TableLayout) {s : TableCpu} (kernel : s.cpl = 0) :
    gdtInit layout s = .ok () (TableCpu.inKernel { s with
      memory := layout.segmentMemory s.memory
      gdtr := ⟨39, layout.gdtEntries.base⟩ }) ∧
      RecordTable.Filled (layout.segmentMemory s.memory) layout.gdtEntries 8
        (fun i => (segmentEntry i).bytes) 5 := by
  have room : 8 * 5 ≤ layout.gdtEntries.size := layout.gdtEntries_size.ge
  have filled : RecordTable.Filled (layout.segmentMemory s.memory) layout.gdtEntries 8
      (fun i => (segmentEntry i).bytes) 5 :=
    RecordTable.filled_fill _ (fun i _ => rfl) room
  have apart : layout.gdtEntries.Apart layout.gdtPtr :=
    (List.pairwise_cons.1 layout.apart).1 _ List.mem_cons_self
  have operand : RecordTable.read (layout.segmentMemory s.memory) layout.gdtPtr.base 6 =
      (TablePtr.mk 39 layout.gdtEntries.base).bytes :=
    read_ptr (fun b inside => RecordTable.fill_of_not_has (fun i _ => rfl) room
      (apart.not_has inside)) layout.gdtPtr_size
  have loaded := @gdtLoad_ok layout { s with memory := layout.segmentMemory s.memory }
    layout.gdtPtr.base kernel operand filled
  exact ⟨loaded, filled⟩

end Segments

/-! ## Gates -/

section Gates

variable {layout : TableLayout} {address : List Instruction → UInt32} {s : TableCpu}

/-- The stub of a vector below 48. -/
def knownStub (vector : ℕ) : List Instruction := prologue vector ++ commonStub (tableOf vector)

/-- The entries of the interrupt table. -/
def gateEntry (address : List Instruction → UInt32) (vector : ℕ) : IdtEntry :=
  idtCreateEntry (address (knownStub vector)) 0x8E

/-- A memory with the first `n` gates. -/
def TableLayout.gates (layout : TableLayout) (address : List Instruction → UInt32)
    (memory : UInt32 → UInt8) (n : ℕ) : UInt32 → UInt8 :=
  RecordTable.fill memory layout.idtEntries 8 (fun i => (gateEntry address i).bytes) n

/-- The loops of `idt_init` put gates behind those that are there. -/
theorem setGates_ok {table : ℕ → Option (List Instruction)} {start count : ℕ}
    (known : ∀ vector, start ≤ vector → vector < start + count →
      table vector = some (knownStub vector)) (memory : UInt32 → UInt8) (s : TableCpu) :
    (List.range' start count).forM (fun vector => setGate layout address vector (table vector))
        { s with memory := layout.gates address memory start } =
      .ok () { s with memory := layout.gates address memory (start + count) } := by
  induction count generalizing start with
  | zero => rfl
  | succ count ih =>
      have first := known start le_rfl (by omega)
      have rest := @ih (start + 1) fun vector lower upper => known vector (by omega) (by omega)
      have stored : setGate layout address start (table start)
          { s with memory := layout.gates address memory start } =
            .ok () { s with memory := layout.gates address memory (start + 1) } := by
        rw [first]
        rfl
      have counted : start + 1 + count = start + (count + 1) := by omega
      rw [counted] at rest
      rw [List.range'_succ]
      exact (Machine.bind_of_ok stored).trans rest

/-- The memory behind `idt_init`. -/
def TableLayout.gateMemory (layout : TableLayout) (address : List Instruction → UInt32)
    (memory : UInt32 → UInt8) : UInt32 → UInt8 :=
  layout.gates address (RecordTable.place memory (layout.idtPtr.base + .ofNat 0)
    (idtCreatePtr idtEntriesAmount layout.idtEntries.base).bytes) 48

theorem gateMemory_of_not_has (layout : TableLayout) (address : List Instruction → UInt32)
    (memory : UInt32 → UInt8) {b : UInt32} (table : ¬ layout.idtEntries.Has b)
    (ptr : ¬ layout.idtPtr.Has b) : layout.gateMemory address memory b = memory b := by
  refine (RecordTable.fill_of_not_has ?length layout.idtEntries_size.ge table).trans ?_
  case length => exact fun i _ => rfl
  exact RecordTable.place_of_not_has layout.idtPtr_size.ge ptr

theorem remapPics_ok {offset1 offset2 : UInt8} {pics : Pics}
    (remapped : picRemap offset1 offset2 s.pics = .ok () pics) :
    remapPics offset1 offset2 s = .ok () { s with pics := pics } := by
  unfold remapPics
  rw [Machine.bind_of_ok (Machine.get_run s)]
  simp only [remapped]
  rfl

/-- `idt_init` fills the table, sets up the chips and lets interrupts in. -/
theorem idtInit_ok (layout : TableLayout) (address : List Instruction → UInt32) (s : TableCpu)
    {pics : Pics} (remapped : picRemap 0x20 0x28 s.pics = .ok () pics) :
    idtInit layout address s = .ok () { s with
      memory := layout.gateMemory address s.memory
      idtr := ⟨383, layout.idtEntries.base⟩
      interrupts := true
      pics := pics } := by
  have room : 8 * 48 ≤ layout.idtEntries.size := layout.idtEntries_size.ge
  have apart : layout.idtEntries.Apart layout.idtPtr :=
    (List.pairwise_cons.1 (List.pairwise_cons.1 (List.pairwise_cons.1 layout.apart).2).2).1 _
      List.mem_cons_self
  have operand : RecordTable.read (layout.gateMemory address s.memory) layout.idtPtr.base 6 =
      (TablePtr.mk 383 layout.idtEntries.base).bytes :=
    read_ptr (fun b inside => RecordTable.fill_of_not_has (fun i _ => rfl) room
      (apart.not_has inside)) layout.idtPtr_size
  have isr : ∀ vector, 0 ≤ vector → vector < 0 + 32 →
      isrStubTable[vector]? = some (knownStub vector) := by
    intro vector _ bound
    have known := @stubOf_eq vector (by omega)
    rwa [stubOf, if_pos (by omega)] at known
  have irq : ∀ vector, 32 ≤ vector → vector < 32 + 16 →
      irqStubTable[vector - 32]? = some (knownStub vector) := by
    intro vector lower upper
    have known := @stubOf_eq vector (by omega)
    rwa [stubOf, if_neg (by omega)] at known
  have exceptions := @setGates_ok layout address _ 0 32 isr
    (RecordTable.place s.memory (layout.idtPtr.base + .ofNat 0)
      (idtCreatePtr idtEntriesAmount layout.idtEntries.base).bytes) s
  have lines := @setGates_ok layout address _ 32 16 irq
    (RecordTable.place s.memory (layout.idtPtr.base + .ofNat 0)
      (idtCreatePtr idtEntriesAmount layout.idtEntries.base).bytes) { s with pics := pics }
  have stored : storeObject layout.idtPtr 0
      (idtCreatePtr idtEntriesAmount layout.idtEntries.base).bytes s = .ok () { s with
        memory := RecordTable.place s.memory (layout.idtPtr.base + .ofNat 0)
          (idtCreatePtr idtEntriesAmount layout.idtEntries.base).bytes } := rfl
  have chips : ∀ memory, remapPics 0x20 0x28 { s with memory := memory } =
      .ok () { s with memory := memory, pics := pics } := fun _ => remapPics_ok remapped
  have loaded : (modify fun s : TableCpu =>
      { s with idtr := .ofBytes (RecordTable.read s.memory layout.idtPtr.base 6) } : TableM Unit)
        { s with memory := layout.gateMemory address s.memory, pics := pics } = .ok () { s with
          memory := layout.gateMemory address s.memory
          idtr := ⟨383, layout.idtEntries.base⟩
          pics := pics } := by
    rw [Machine.modify_run, operand, TablePtr.ofBytes_bytes]
  unfold idtInit
  refine (Machine.bind_of_ok stored).trans ?_
  refine (Machine.bind_of_ok exceptions).trans ?_
  refine (Machine.bind_of_ok (chips _)).trans ?_
  refine (Machine.bind_of_ok lines).trans ?_
  exact Machine.bind_of_ok loaded

/-- The processor behind `gdt_init` and `idt_init`. -/
structure TableCpu.Initialized (layout : TableLayout) (address : List Instruction → UInt32)
    (s s' : TableCpu) : Prop where
  code : s'.selectors .cs = 0x08 ∧ s'.segments .cs = flatSegment 0x9A
  data : ∀ segment, segment ≠ .cs →
    s'.selectors segment = 0x10 ∧ s'.segments segment = flatSegment 0x92
  selectors : ∀ selector, selector / 4 % 2 = 0 →
    s'.descriptorAt selector = segmentTable[selector / 8]?
  gates : ∀ vector, s'.deliver vector = match stubOf vector with
    | some stub => .ok ⟨0x08, (address stub).toNat, (address stub).toNat⟩
    | none => .error (.gate vector)
  interrupts : s'.interrupts = true
  elsewhere : ∀ b, (∀ window ∈ [layout.gdtEntries, layout.gdtPtr, layout.idtEntries,
    layout.idtPtr], ¬ window.Has b) → s'.memory b = s.memory b

/-- Vectors from 48 on have no stub. -/
theorem stubOf_of_ge {vector : ℕ} (outside : 48 ≤ vector) : stubOf vector = none := by
  unfold stubOf
  rw [if_neg (by omega)]
  exact List.getElem?_eq_none (by change 16 ≤ vector - 32; omega)

/-- The gates lead to the stubs. -/
theorem deliver_eq {s : TableCpu} (table : s.HasSegments layout)
    (idtr : s.idtr = ⟨383, layout.idtEntries.base⟩)
    (filled : RecordTable.Filled s.memory layout.idtEntries 8
      (fun i => (gateEntry address i).bytes) 48) (vector : ℕ) :
    s.deliver vector = match stubOf vector with
      | some stub => .ok ⟨0x08, (address stub).toNat, (address stub).toNat⟩
      | none => .error (.gate vector) := by
  unfold TableCpu.deliver
  rw [idtr]
  rcases Nat.lt_or_ge vector 48 with inside | outside
  · have room : 8 * vector + 7 ≤ (383 : UInt16).toNat := by change _ ≤ 383; omega
    have bound := (address (knownStub vector)).toNat_lt
    have code : s.descriptorAt 0x08 = some (flatSegment 0x9A) := table.descriptorAt rfl
    have stub : stubOf vector = some (knownStub vector) := stubOf_eq inside
    have gate : Gate.ofBytes (gateEntry address vector).bytes =
        ⟨(address (knownStub vector)).toNat, 0x08, 0, 0x8E⟩ :=
      gate_idtCreateEntry (address (knownStub vector)) 0x8E
    rw [if_pos room, filled vector inside, stub]
    simp only [gate]
    have enters : (flatSegment 0x9A).codeOrData = true ∧ (flatSegment 0x9A).code = true ∧
        (flatSegment 0x9A).privilege ≤ s.cpl ∧ (flatSegment 0x9A).present = true ∧
        (address (knownStub vector)).toNat ≤ (flatSegment 0x9A).lastOffset :=
      ⟨rfl, rfl, Nat.zero_le _, rfl, Nat.le_of_lt_succ bound⟩
    have linear : (0 + (address (knownStub vector)).toNat) % 2 ^ 32 =
        (address (knownStub vector)).toNat := by
      rw [Nat.zero_add, Nat.mod_eq_of_lt bound]
    have opens : (Gate.mk (address (knownStub vector)).toNat 0x08 0 0x8E).present = true ∧
        (Gate.mk (address (knownStub vector)).toNat 0x08 0 0x8E).interrupt32 = true := by
      exact ⟨(by decide : Nat.testBit 0x8E 7 = true), by simp [Gate.interrupt32]⟩
    rw [if_pos opens]
    simp only [code]
    rw [if_pos enters]
    exact congrArg (fun n => Except.ok (GateTarget.mk 0x08 _ n)) linear
  · have beyond : ¬ 8 * vector + 7 ≤ (383 : UInt16).toNat := by change ¬ _ ≤ 383; omega
    rw [if_neg beyond, stubOf_of_ge outside]

/-- From kernel code on any processor, `gdt_init` and `idt_init` return with the segment
registers on flat kernel segments, a gate to its stub for each vector that has one and for
no other, and every byte outside of their four objects as it was. -/
theorem initTables_initializes (layout : TableLayout) (address : List Instruction → UInt32)
    {s : TableCpu} (kernel : s.cpl = 0) :
    ∃ s', initTables layout address s = .ok () s' ∧ s.Initialized layout address s' := by
  obtain ⟨segments, filled⟩ := gdtInit_ok layout kernel
  obtain ⟨pics, remapped⟩ : ∃ pics, picRemap 0x20 0x28 s.pics = .ok () pics := ⟨_, rfl⟩
  have gates := idtInit_ok layout address (TableCpu.inKernel { s with
    memory := layout.segmentMemory s.memory
    gdtr := ⟨39, layout.gdtEntries.base⟩ }) remapped
  refine ⟨_, (Machine.bind_of_ok segments).trans gates, ?_⟩
  obtain ⟨fromGdtEntries, others⟩ := List.pairwise_cons.1 layout.apart
  have toIdtEntries : layout.idtEntries.Apart layout.gdtEntries :=
    (fromGdtEntries _ (by simp)).symm
  have toIdtPtr : layout.idtPtr.Apart layout.gdtEntries := (fromGdtEntries _ (by simp)).symm
  have table : TableCpu.HasSegments layout { TableCpu.inKernel { s with
      memory := layout.segmentMemory s.memory
      gdtr := ⟨39, layout.gdtEntries.base⟩ } with
        memory := layout.gateMemory address (layout.segmentMemory s.memory)
        idtr := ⟨383, layout.idtEntries.base⟩
        interrupts := true
        pics := pics } :=
    ⟨rfl, filled.congr layout.gdtEntries_size.ge fun b inside =>
      gateMemory_of_not_has layout address _ (toIdtEntries.not_has inside)
        (toIdtPtr.not_has inside)⟩
  have gateTable : RecordTable.Filled (layout.gateMemory address (layout.segmentMemory s.memory))
      layout.idtEntries 8 (fun i => (gateEntry address i).bytes) 48 :=
    RecordTable.filled_fill _ (fun i _ => rfl) layout.idtEntries_size.ge
  constructor
  case code => exact ⟨rfl, rfl⟩
  case data =>
    exact fun segment other => TableCpu.inKernel_data { s with
      memory := layout.segmentMemory s.memory
      gdtr := ⟨39, layout.gdtEntries.base⟩ } other
  case selectors => exact fun selector global => table.descriptorAt global
  case gates => exact fun vector => deliver_eq table rfl gateTable vector
  case interrupts => rfl
  case elsewhere =>
    intro b outside
    refine (gateMemory_of_not_has layout address _ (outside _ (by simp))
      (outside _ (by simp))).trans ?_
    exact segmentMemory_of_not_has layout _ (outside _ (by simp)) (outside _ (by simp))

/-- Tables at the start of a page. -/
def pageLayout : TableLayout where
  gdtEntries := ⟨0xC0200000, 40, by decide⟩
  gdtPtr := ⟨0xC0200030, 6, by decide⟩
  idtEntries := ⟨0xC0200040, 384, by decide⟩
  idtPtr := ⟨0xC02001C0, 6, by decide⟩
  gdtEntries_size := rfl
  gdtPtr_size := rfl
  idtEntries_size := rfl
  idtPtr_size := rfl
  apart := by
    unfold RecordTable.Window.Apart
    decide

/-- The processor as a boot loader leaves it, with its own table. -/
def loaderCpu : TableCpu where
  memory := fun _ => 0
  gdtr := ⟨0x1F, 0x7E00⟩
  idtr := ⟨0, 0⟩
  selectors := fun
    | .cs => 0x10
    | _ => 0x18
  segments := fun
    | .cs => flatSegment 0x9A
    | _ => flatSegment 0x92
  interrupts := false
  pics := ⟨⟨.mask, true, true, 0, 0, 0, 0xFF, 0⟩, ⟨.mask, true, true, 0, 0, 0, 0xFF, 0⟩⟩

theorem loaderCpu_initializes :
    ∃ s', initTables pageLayout (fun _ => 0xC0101000) loaderCpu = .ok () s' ∧
      loaderCpu.Initialized pageLayout (fun _ => 0xC0101000) s' :=
  initTables_initializes pageLayout (fun _ => 0xC0101000) (by decide)

end Gates

end ArkoiOs
