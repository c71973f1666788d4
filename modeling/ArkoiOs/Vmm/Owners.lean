import ArkoiOs.Pmm.Requests
import ArkoiOs.Vmm.Mmu

/-!
# Who holds the frames

The memory manager over the physical allocator: `pmm_alloc_pages(1)` answers for
tables and for pages that fault.  `Owners` is what an observer of a run writes
down about the blocks that are handed out, and `OwnersInv` connects it with the
page tables and the pools: each table and each page that faulted has a live
block of one page for itself.
-/

namespace ArkoiOs

/-! ## Runs -/

/-- The physical allocator as the memory manager calls it. -/
def pmmPages : PageAllocator Pmm := ⟨pmmAllocPages 1, pmmFree⟩

/-- The memory manager over it, with kernel accesses translated by the tables. -/
def pmmPaging (layout : BootLayout) : Paging Pmm := ⟨layout, mmuAccess layout, pmmPages⟩

/-- The record of a run: the ledger of the physical allocator, the blocks that
callers allocated and have not freed, and the pages that faulted and are still
mapped, by number, with the block each of them got. -/
structure Owners where
  ledger : Ledger
  caller : Set UInt32
  demand : Set (ℕ × UInt32)

/-- Nothing is handed out. -/
def Owners.none : Owners := ⟨Ledger.empty, ∅, ∅⟩

/-- The next page of the allocator, with the state and the ledger after it. -/
def takePage (pmm : Pmm) (ledger : Ledger) : UInt32 × Pmm × Ledger :=
  match pmmAllocPages 1 pmm with
  | .ok page pmm' => (page, pmm', ledger.allocated pmm' page)
  | .error _ pmm' => (0, pmm', ledger)

/-- The ledger after a mapping, which takes a page where a table is missing. -/
def tableLedger (layout : BootLayout) (memory : Memory) (v : UInt32) (pmm : Pmm)
    (ledger : Ledger) : Ledger :=
  if (pdeAt layout memory v).present then ledger else (takePage pmm ledger).2.2

namespace Owners

/-- `vmm_map_page` was called. -/
def mapped (o : Owners) (layout : BootLayout) (s : Vmm Pmm) (v p : UInt32) : Owners :=
  if Aligned v p then { o with ledger := tableLedger layout s.memory v s.allocator o.ledger }
  else o

/-- `vmm_unmap_page` returned true. -/
def unmapped (o : Owners) (v : UInt32) : Owners :=
  { o with demand := {d | d ∈ o.demand ∧ d.1 ≠ v.toNat / 4096} }

/-- The fault handler returned. -/
def faulted (o : Owners) (layout : BootLayout) (s : Vmm Pmm) (cr2 : UInt32) : Owners :=
  let (page, pmm, ledger) := takePage s.allocator o.ledger
  { o with
    ledger := tableLedger layout s.memory (kalignDown cr2 pageSize) pmm ledger
    demand := insert (cr2.toNat / 4096, page) o.demand }

/-- A caller was served. -/
def allocated (o : Owners) (pmm' : Pmm) (address : UInt32) : Owners :=
  { o with ledger := o.ledger.allocated pmm' address, caller := insert address o.caller }

/-- A caller freed its block. -/
def freed (o : Owners) (pmm pmm' : Pmm) (address : UInt32) : Owners :=
  { o with ledger := o.ledger.freed pmm pmm' address, caller := o.caller \ {address} }

end Owners

/-- No access of a mapping of `v` to a table, or to the page it makes a table,
is sent to another frame. -/
def MapDirected (layout : BootLayout) (s : Vmm Pmm) (v : UInt32) : Prop :=
  TablesDirected layout s.memory (newTables layout pmmPages s v)

/-- The same for the mapping of the fault handler, which comes after its first
allocation. -/
def FaultDirected (layout : BootLayout) (s : Vmm Pmm) (cr2 : UInt32) : Prop :=
  ∀ page pmm', pmmAllocPages 1 s.allocator = .ok page pmm' →
    MapDirected layout ⟨s.memory, pmm'⟩ (kalignDown cr2 pageSize)

/-- One call that returns: a page fault outside the boot windows, a mapping
request, an allocation, or the free of a block a caller allocated itself. -/
inductive PagingStep (layout : BootLayout) : Vmm Pmm × Owners → Vmm Pmm × Owners → Prop
  | pageFault {s s' : Vmm Pmm} {o : Owners} {cr2 errCode : UInt32} : ¬ InWindow cr2 →
      FaultDirected layout s cr2 →
      vmmPageFaultHandler (pmmPaging layout) cr2 errCode s = .ok () s' →
      PagingStep layout (s, o) (s', o.faulted layout s cr2)
  | map {s s' : Vmm Pmm} {o : Owners} {v p flags : UInt32} {result : Bool} :
      MapDirected layout s v →
      vmmMapPage (pmmPaging layout) v p flags s = .ok result s' →
      PagingStep layout (s, o) (s', o.mapped layout s v p)
  | unmap {s s' : Vmm Pmm} {o : Owners} {v : UInt32} {result : Bool} :
      TablesDirected layout s.memory ∅ →
      vmmUnmapPage (pmmPaging layout) v s = .ok result s' →
      PagingStep layout (s, o) (s', if result then o.unmapped v else o)
  | alloc {s : Vmm Pmm} {o : Owners} {request : AllocRequest} {address : UInt32} {pmm' : Pmm} :
      request.Positive → request.run s.allocator = .ok address pmm' →
      PagingStep layout (s, o) ({ s with allocator := pmm' }, o.allocated pmm' address)
  | allocNothing {s : Vmm Pmm} {o : Owners} {request : AllocRequest} {address : UInt32}
      {pmm' : Pmm} : ¬ request.Positive → request.run s.allocator = .ok address pmm' →
      PagingStep layout (s, o) ({ s with allocator := pmm' }, o)
  | free {s : Vmm Pmm} {o : Owners} {address : UInt32} {pmm' : Pmm} : address ∈ o.caller →
      pmmFree address s.allocator = .ok () pmm' →
      PagingStep layout (s, o)
        ({ s with allocator := pmm' }, o.freed s.allocator pmm' address)
  | freeNull {s : Vmm Pmm} {o : Owners} {pmm' : Pmm} : pmmFree 0 s.allocator = .ok () pmm' →
      PagingStep layout (s, o) ({ s with allocator := pmm' }, o)

/-- Runs of such calls. -/
abbrev PagingRun (layout : BootLayout) : Vmm Pmm × Owners → Vmm Pmm × Owners → Prop :=
  Relation.ReflTransGen (PagingStep layout)

/-! ## The invariant -/

/-- The frames of the tables behind directory entries outside the windows. -/
def tableFrames (layout : BootLayout) (memory : Memory) : Set ℕ :=
  {frame | ∃ v, ¬ InWindow v ∧ (pdeAt layout memory v).present = true ∧
    (pdeAt layout memory v).address = frame}

/-- The page is mapped, present and writable, to the frame of the block. -/
def Backs (layout : BootLayout) (memory : Memory) (d : ℕ × UInt32) : Prop :=
  ∀ v : UInt32, v.toNat / 4096 = d.1 → ¬ InWindow v ∧ ∃ entry, walk layout memory v = some entry ∧
    entry.rw = true ∧ entry.address = frameOf d.2

/-- The managed frames that no table uses. -/
def dataFrames (layout : BootLayout) (s : Vmm Pmm) : Set ℕ :=
  s.allocator.managedFrames \ tableFrames layout s.memory

/-- A live block of one page that no caller may free. -/
structure Kept (s : Vmm Pmm) (o : Owners) (block : UInt32) : Prop where
  live : (block, 0) ∈ s.allocator.allocations o.ledger
  unowned : block ∉ o.caller

/-- A kept block that is neither a table nor behind a page that faulted. -/
structure Spare (layout : BootLayout) (s : Vmm Pmm) (o : Owners) (block : UInt32) : Prop where
  kept : Kept s o block
  noTable : frameOf block ∉ tableFrames layout s.memory
  noDemand : ∀ d ∈ o.demand, d.2 ≠ block

structure OwnersInv (layout : BootLayout) (s : Vmm Pmm) (o : Owners) : Prop where
  pmm : PmmInv s.allocator o.ledger
  skips : ∀ range ∈ s.allocator.ranges, range.1 ≠ 0
  static : layout.directory ∉ s.allocator.managedFrames ∧
    layout.identity ∉ s.allocator.managedFrames
  sound : TablesSound layout s.memory (dataFrames layout s)
  table : ∀ frame ∈ tableFrames layout s.memory, ∃ block, Kept s o block ∧ frameOf block = frame
  demand : ∀ d ∈ o.demand, Kept s o d.2 ∧ frameOf d.2 ∉ tableFrames layout s.memory ∧
    Backs layout s.memory d
  distinct : ∀ d ∈ o.demand, ∀ d' ∈ o.demand, d.2 = d'.2 → d = d'
  caller : ∀ a ∈ o.caller, a ∈ o.ledger.live

end ArkoiOs
