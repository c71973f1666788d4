import ArkoiOs.Kmemory
import ArkoiOs.Kpanic

/-!
# The virtual memory manager

`lib/memory/vmm.c`, function by function, over physical memory as frames of 1024
entries.  The kernel reaches a table through its virtual address: `access` says
which frame a kernel access to a virtual page hits.  With `mmuAccess` that is
the two-level walk of the current tables, and an access to a page that is not
mapped ends in a page fault.  The tables are read as they stand in memory, so
`flush_tlb_entry` has no counterpart; the walk leaves `accessed` and `dirty`,
which no code reads, as they are.
-/

namespace ArkoiOs

/-- `pte_t`, and `pde_t` with it, which has the fields the code uses at the same
bits; `address` is the frame number. -/
structure PageEntry where
  present : Bool
  rw : Bool
  user : Bool
  writeThrough : Bool
  cacheDisabled : Bool
  accessed : Bool
  dirty : Bool
  pat : Bool
  global : Bool
  avl : BitVec 3
  address : ℕ
  deriving DecidableEq, Repr

/-- An entry of zero bytes. -/
def PageEntry.zero : PageEntry :=
  ⟨false, false, false, false, false, false, false, false, false, 0, 0⟩

/-- What a page is mapped to: the frame and the bits of `vmm_flag_t`. -/
def PageEntry.mapping (entry : PageEntry) : PageEntry :=
  { entry with accessed := false, dirty := false, pat := false, avl := 0 }

/-! ## Physical memory -/

/-- The entries of each frame. -/
abbrev Memory : Type := ℕ → ℕ → PageEntry

namespace Memory

/-- Write one entry of a frame. -/
def write (memory : Memory) (frame index : ℕ) (entry : PageEntry) : Memory :=
  Function.update memory frame (Function.update (memory frame) index entry)

/-- Fill a frame with zero bytes. -/
def zeroFrame (memory : Memory) (frame : ℕ) : Memory :=
  Function.update memory frame fun _ => PageEntry.zero

end Memory

/-- `PAGE_ENTRIES`. -/
def pageEntries : ℕ := 1024

/-- `KERNEL_VIRTUAL_BASE`. -/
def kernelVirtualBase : UInt32 := 0xC0000000

/-- `virtual_to_physical`. -/
def virtualToPhysical (virtualAddress : UInt32) : UInt32 := virtualAddress - kernelVirtualBase

/-- `physical_to_virtual`; the sum wraps at 2^32. -/
def physicalToVirtual (physicalAddress : UInt32) : UInt32 := physicalAddress + kernelVirtualBase

/-- The frame number of an address. -/
def frameOf (address : UInt32) : ℕ := (address >>> 12).toNat

/-- `((uintptr_t)entry->address) << 12`. -/
def frameAddress (frame : ℕ) : UInt32 := UInt32.ofNat frame <<< 12

/-- `pde_index`. -/
def pdeIndex (virtualAddress : UInt32) : ℕ := ((virtualAddress >>> 22) &&& 0x3FF).toNat

/-- `pte_index`. -/
def pteIndex (virtualAddress : UInt32) : ℕ := ((virtualAddress >>> 12) &&& 0x3FF).toNat

/-- The frames the linker gives to `g_page_directories` and `g_identity_table`,
in the first 4 MiB. -/
structure BootLayout where
  directory : ℕ
  identity : ℕ
  directory_lt : directory < pageEntries
  identity_lt : identity < pageEntries
  ne : directory ≠ identity

/-! ## Flags -/

def vmmFlagPresent : UInt32 := (1 : UInt32) <<< 0
def vmmFlagRw : UInt32 := (1 : UInt32) <<< 1
def vmmFlagUser : UInt32 := (1 : UInt32) <<< 2
def vmmFlagWriteThrough : UInt32 := (1 : UInt32) <<< 3
def vmmFlagCacheDisabled : UInt32 := (1 : UInt32) <<< 4
def vmmFlagGlobal : UInt32 := (1 : UInt32) <<< 8

/-- `(flags & flag) != 0`. -/
def hasFlag (flags flag : UInt32) : Bool := flags &&& flag != 0

/-! ## Translation -/

/-- The entry of the page directory for an address. -/
def pdeAt (layout : BootLayout) (memory : Memory) (virtualAddress : UInt32) : PageEntry :=
  memory layout.directory (pdeIndex virtualAddress)

/-- The entry for an address in the table its directory entry points to. -/
def pteAt (layout : BootLayout) (memory : Memory) (virtualAddress : UInt32) : PageEntry :=
  memory (pdeAt layout memory virtualAddress).address (pteIndex virtualAddress)

/-- The two-level walk of the processor: what the table entry of a mapped page maps it to. -/
def walk (layout : BootLayout) (memory : Memory) (virtualAddress : UInt32) : Option PageEntry :=
  if (pdeAt layout memory virtualAddress).present then
    if (pteAt layout memory virtualAddress).present then
      some (pteAt layout memory virtualAddress).mapping
    else none
  else none

/-! ## Kernel code over page tables -/

/-- `pmm_alloc_pages(1)` and `pmm_free`, over an allocator state. -/
structure PageAllocator (σ : Type) where
  allocPage : KernelM σ UInt32
  free : UInt32 → KernelM σ Unit

/-- Physical memory and the state of the physical allocator. -/
structure Vmm (σ : Type) where
  memory : Memory
  allocator : σ

/-- What the code runs on: where its static tables are, which frame a kernel
access to a virtual page hits, and the physical allocator. -/
structure Paging (σ : Type) where
  layout : BootLayout
  access : Memory → UInt32 → Option ℕ
  allocator : PageAllocator σ

/-- A kernel access goes through the page tables. -/
def mmuAccess (layout : BootLayout) (memory : Memory) (virtualAddress : UInt32) : Option ℕ :=
  (walk layout memory virtualAddress).map PageEntry.address

/-- A kernel access hits the frame whose `physical_to_virtual` address it uses. -/
def directAccess (_memory : Memory) (virtualAddress : UInt32) : Option ℕ :=
  some (frameOf (virtualToPhysical virtualAddress))

/-- `&table[index]`, for a table at a page-aligned virtual address. -/
structure EntryPointer where
  table : UInt32
  index : ℕ
  deriving DecidableEq, Repr

namespace EntryPointer

/-- `pointer == NULL`: the first entry of a table at virtual address 0. -/
def IsNull (pointer : EntryPointer) : Prop := pointer.table = 0 ∧ pointer.index = 0

instance (pointer : EntryPointer) : Decidable pointer.IsNull :=
  inferInstanceAs (Decidable (_ ∧ _))

/-- A pointer that is returned; `none` is the null pointer. -/
def orNull (pointer : EntryPointer) : Option EntryPointer :=
  if pointer.IsNull then none else some pointer

end EntryPointer

section Accesses

variable {σ : Type}

/-- Find the frame an access hits; without one the access faults. -/
def resolve (access : Memory → UInt32 → Option ℕ) (virtualAddress : UInt32) :
    KernelM (Vmm σ) ℕ := do
  let vmm ← get
  match access vmm.memory virtualAddress with
  | none => throw (.pageFault virtualAddress)
  | some frame => pure frame

/-- `*pointer`. -/
def loadEntry (access : Memory → UInt32 → Option ℕ) (pointer : EntryPointer) :
    KernelM (Vmm σ) PageEntry := do
  let frame ← resolve access pointer.table
  let vmm ← get
  pure (vmm.memory frame pointer.index)

/-- Assignments to fields of `*pointer`, as one store. -/
def updateEntry (access : Memory → UInt32 → Option ℕ) (pointer : EntryPointer)
    (f : PageEntry → PageEntry) : KernelM (Vmm σ) Unit := do
  let frame ← resolve access pointer.table
  modify fun vmm =>
    { vmm with
      memory := vmm.memory.write frame pointer.index (f (vmm.memory frame pointer.index)) }

/-- `kmemset(page, 0, PAGE_SIZE)` at a page-aligned virtual address. -/
def zeroPage (access : Memory → UInt32 → Option ℕ) (virtualAddress : UInt32) :
    KernelM (Vmm σ) Unit := do
  let frame ← resolve access virtualAddress
  modify fun vmm => { vmm with memory := vmm.memory.zeroFrame frame }

/-- Run code of the physical allocator. -/
def onAllocator {α : Type} (x : KernelM σ α) : KernelM (Vmm σ) α :=
  Machine.zoom (fun vmm => some vmm.allocator)
    (fun vmm allocator => { vmm with allocator := allocator }) .nullDereference x

end Accesses

/-! ## `vmm_preinit` -/

/-- The loop of `vmm_preinit` over the entries of the identity table. -/
def identityMap (layout : BootLayout) (memory : Memory) : Memory :=
  (List.range pageEntries).foldl
    (fun memory index =>
      let entry := memory layout.identity index
      memory.write layout.identity index
        { entry with address := index, present := true, rw := true })
    memory

/-- The directory entry that points to the identity table. -/
def pointToIdentity (layout : BootLayout) (index : ℕ) (memory : Memory) : Memory :=
  let entry := memory layout.directory index
  memory.write layout.directory index
    { entry with address := layout.identity, present := true, rw := true }

/-- `vmm_preinit`, which runs on physical addresses. -/
def vmmPreinit (layout : BootLayout) (memory : Memory) : Memory :=
  let memory := memory.zeroFrame layout.directory
  let memory := memory.zeroFrame layout.identity
  let memory := identityMap layout memory
  let memory := pointToIdentity layout 0 memory
  pointToIdentity layout (kernelVirtualBase >>> 22).toNat memory

/-! ## Mapping and unmapping -/

section Calls

variable {σ : Type} (paging : Paging σ)

/-- `&g_page_directories[pde_index]`. -/
def directoryEntry (virtualAddress : UInt32) : EntryPointer :=
  ⟨physicalToVirtual (frameAddress paging.layout.directory), pdeIndex virtualAddress⟩

/-- The fields `get_or_create_pte` writes into a new directory entry. -/
def PageEntry.pointTo (entry : PageEntry) (physicalPage flags : UInt32) : PageEntry :=
  { entry with
    address := frameOf physicalPage
    present := true
    rw := hasFlag flags vmmFlagRw
    user := hasFlag flags vmmFlagUser
    writeThrough := hasFlag flags vmmFlagWriteThrough
    cacheDisabled := hasFlag flags vmmFlagCacheDisabled }

/-- The fields `vmm_map_page` writes into a table entry. -/
def PageEntry.mapTo (entry : PageEntry) (physicalAddress flags : UInt32) : PageEntry :=
  { entry with
    address := frameOf physicalAddress
    present := hasFlag flags vmmFlagPresent
    rw := hasFlag flags vmmFlagRw
    user := hasFlag flags vmmFlagUser
    writeThrough := hasFlag flags vmmFlagWriteThrough
    cacheDisabled := hasFlag flags vmmFlagCacheDisabled
    global := hasFlag flags vmmFlagGlobal }

/-- `get_or_create_pte`; `none` is the null pointer, which is also the address
of the first entry of a table at 1 GiB. -/
def getOrCreatePte (virtualAddress flags : UInt32) : KernelM (Vmm σ) (Option EntryPointer) := do
  let directory ← loadEntry paging.access (directoryEntry paging virtualAddress)
  if directory.present then
    pure (EntryPointer.orNull
      ⟨physicalToVirtual (frameAddress directory.address), pteIndex virtualAddress⟩)
  else do
    let physicalPage ← onAllocator paging.allocator.allocPage
    if physicalPage = 0 then pure none
    else do
      let ptVirtual := physicalToVirtual physicalPage
      zeroPage paging.access ptVirtual
      updateEntry paging.access (directoryEntry paging virtualAddress) fun entry =>
        entry.pointTo physicalPage flags
      pure (EntryPointer.orNull ⟨ptVirtual, pteIndex virtualAddress⟩)

/-- `vmm_map_page`. -/
def vmmMapPage (virtualAddress physicalAddress flags : UInt32) : KernelM (Vmm σ) Bool := do
  if virtualAddress % pageSize ≠ 0 ∨ physicalAddress % pageSize ≠ 0 then pure false
  else
    match ← getOrCreatePte paging virtualAddress flags with
    | none => pure false
    | some pointer => do
        let entry ← loadEntry paging.access pointer
        if entry.present then pure false
        else do
          updateEntry paging.access pointer fun entry => entry.mapTo physicalAddress flags
          pure true

/-- `vmm_unmap_page`. -/
def vmmUnmapPage (virtualAddress : UInt32) : KernelM (Vmm σ) Bool := do
  if virtualAddress % pageSize ≠ 0 then pure false
  else do
    let directory ← loadEntry paging.access (directoryEntry paging virtualAddress)
    if !directory.present then pure false
    else do
      let pointer : EntryPointer :=
        ⟨physicalToVirtual (frameAddress directory.address), pteIndex virtualAddress⟩
      let entry ← loadEntry paging.access pointer
      if !entry.present then pure false
      else do
        updateEntry paging.access pointer fun _ => PageEntry.zero
        pure true

/-- `vmm_page_fault_handler`, with `cr2` and the error code of its frame.  The
new page is zeroed through its new mapping. -/
def vmmPageFaultHandler (cr2 errCode : UInt32) : KernelM (Vmm σ) Unit := do
  if errCode &&& 0x1 = 0 then do
    let alignedAddress := kalignDown cr2 pageSize
    let physicalPage ← onAllocator paging.allocator.allocPage
    if physicalPage = 0 then kpanic "Out of memory in page fault handler!" []
    else do
      let mapped ← vmmMapPage paging alignedAddress physicalPage (vmmFlagRw ||| vmmFlagPresent)
      if !mapped then do
        onAllocator (paging.allocator.free physicalPage)
        kpanic "Failed to map page in page fault handler!" []
      else zeroPage (mmuAccess paging.layout) alignedAddress
  else kpanic "Unhandled page fault!" []

end Calls

end ArkoiOs
