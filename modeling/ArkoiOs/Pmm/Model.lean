import Mathlib.Logic.Function.Basic
import ArkoiOs.Emm
import ArkoiOs.Kmemory
import ArkoiOs.Multiboot2

/-!
# The physical memory manager

`lib/memory/pmm.c`, function by function.  A region keeps its block pool and the
heads of its free lists; a block pointer is an index into the pool of its
region, and the free lists are threaded through the `next` fields of the pool
entries.  Orders are natural numbers (the code keeps them at most
`NUM_ORDERS`); addresses and sizes are 32-bit words and wrap.
-/

namespace ArkoiOs

/-- `MAX_ORDER`. -/
abbrev maxOrder : ℕ := 10

/-- `NUM_ORDERS`. -/
abbrev numOrders : ℕ := maxOrder + 1

theorem numOrders_eq : numOrders = maxOrder + 1 := rfl

/-- `BLOCK_COUNT(order)`. -/
def blockCount (order : ℕ) : ℕ := 2 ^ order

/-- `BLOCK_SIZE(order)`. -/
def blockSize (order : ℕ) : UInt32 := (1 <<< UInt32.ofNat order) * pageSize

/-- `pmm_block_t`. -/
structure PmmBlock where
  address : UInt32
  order : ℕ
  isFree : Bool
  next : Option ℕ
  deriving DecidableEq, Repr

/-- `pmm_region_t`, less its `next`: the regions are kept in a list. -/
structure PmmRegion where
  freeLists : ℕ → Option ℕ
  blockPool : ℕ → PmmBlock
  blockPoolSize : ℕ
  start : UInt32
  end_ : UInt32

/-- `g_regions`, and the early heap the metadata is taken from. -/
structure Pmm where
  regions : List PmmRegion
  emm : Emm

/-! ## Writing fields -/

namespace PmmRegion

/-- `region->free_lists[order] = head`. -/
def setHead (region : PmmRegion) (order : ℕ) (head : Option ℕ) : PmmRegion :=
  { region with freeLists := Function.update region.freeLists order head }

/-- Change one pool entry. -/
def setBlock (region : PmmRegion) (block : ℕ) (f : PmmBlock → PmmBlock) : PmmRegion :=
  { region with
    blockPool := Function.update region.blockPool block (f (region.blockPool block)) }

/-- `block->next = next`. -/
def setNext (region : PmmRegion) (block : ℕ) (next : Option ℕ) : PmmRegion :=
  region.setBlock block fun entry => { entry with next := next }

/-- `block->order = order`. -/
def setOrder (region : PmmRegion) (block order : ℕ) : PmmRegion :=
  region.setBlock block fun entry => { entry with order := order }

/-- `block->is_free = isFree`. -/
def setFree (region : PmmRegion) (block : ℕ) (isFree : Bool) : PmmRegion :=
  region.setBlock block fun entry => { entry with isFree := isFree }

/-- The address `region->start + index * PAGE_SIZE`. -/
def pageAddress (region : PmmRegion) (index : ℕ) : UInt32 :=
  region.start + UInt32.ofNat index * pageSize

end PmmRegion

/-- `pmm_block_t**`: the head of a free list or the link of a block. -/
inductive Slot
  | head (order : ℕ)
  | next (block : ℕ)
  deriving DecidableEq, Repr

/-- `*slot`. -/
def PmmRegion.deref (region : PmmRegion) : Slot → Option ℕ
  | .head order => region.freeLists order
  | .next block => (region.blockPool block).next

/-- `*slot = value`. -/
def PmmRegion.assign (region : PmmRegion) (value : Option ℕ) : Slot → PmmRegion
  | .head order => region.setHead order value
  | .next block => region.setNext block value

/-! ## Lookups -/

/-- The loop of `size_to_order`; it runs at most `NUM_ORDERS` times. -/
def sizeToOrderLoop (size : UInt32) : ℕ → ℕ → UInt32 → ℕ
  | 0, currentOrder, _ => currentOrder
  | fuel + 1, currentOrder, blockSize =>
      if blockSize < size ∧ currentOrder ≤ maxOrder then
        sizeToOrderLoop size fuel (currentOrder + 1) (blockSize <<< 1)
      else currentOrder

/-- `size_to_order`; `none` is the result `false`. -/
def sizeToOrder (size : UInt32) : Option ℕ :=
  let currentOrder := sizeToOrderLoop size numOrders 0 (blockSize 0)
  if currentOrder ≤ maxOrder then some currentOrder else none

/-- `find_region_by_address`, as a position in the list of regions. -/
def findRegionByAddress (regions : List PmmRegion) (address : UInt32) : Option ℕ :=
  regions.findIdx? fun region => address ≥ region.start && address < region.end_

/-- `find_block_by_address`; the region `none` is the null pointer. -/
def findBlockByAddress : Option PmmRegion → UInt32 → Option ℕ
  | none, _ => none
  | some region, address =>
      if address < region.start ∨ address ≥ region.end_ then none
      else if address &&& (pageSize - 1) ≠ 0 then none
      else
        let offset := address - region.start
        let blockIndex := (offset / pageSize).toNat
        if blockIndex ≥ region.blockPoolSize then none else some blockIndex

/-- The first order from `currentOrder` on with a non-empty free list, or
`NUM_ORDERS`; the loop of `find_region_for_order` and of `pmm_alloc_order`. -/
def firstNonEmpty (freeLists : ℕ → Option ℕ) : ℕ → ℕ → ℕ
  | 0, currentOrder => currentOrder
  | fuel + 1, currentOrder =>
      if (freeLists currentOrder).isSome then currentOrder
      else firstNonEmpty freeLists fuel (currentOrder + 1)

/-- `firstNonEmpty` from `order` up to `MAX_ORDER`. -/
def PmmRegion.availableOrder (region : PmmRegion) (order : ℕ) : ℕ :=
  firstNonEmpty region.freeLists (numOrders - order) order

/-- `find_region_for_order`, as a position in the list of regions. -/
def findRegionForOrder (regions : List PmmRegion) (order : ℕ) : Option ℕ :=
  regions.findIdx? fun region => region.availableOrder order ≤ maxOrder

/-- `get_buddy_block`. -/
def getBuddyBlock (region : PmmRegion) (block order : ℕ) : Option ℕ :=
  let regionRelative := (region.blockPool block).address - region.start
  let buddyRelative := regionRelative ^^^ blockSize order
  let buddyAddress := region.start + buddyRelative
  if buddyAddress < region.start ∨ buddyAddress ≥ region.end_ then none
  else findBlockByAddress region buddyAddress

/-! ## Free lists -/

/-- The walk of `remove_from_region_freelist`: the slot that holds `block`, or
the empty slot at the end of the list.  A walk that visits more slots than the
pool has entries goes round in circles and never ends. -/
def findSlot (region : PmmRegion) (block : ℕ) : ℕ → Slot → Option Slot
  | 0, _ => none
  | fuel + 1, slot =>
      match region.deref slot with
      | none => some slot
      | some current =>
          if current = block then some slot else findSlot region block fuel (.next current)

/-- `remove_from_region_freelist`. -/
def removeFromRegionFreelist (block order : ℕ) : KernelM PmmRegion Bool := do
  let region ← get
  match findSlot region block (region.blockPoolSize + 1) (.head order) with
  | none => throw .hang
  | some slot =>
      if region.deref slot = none then pure false
      else do
        set ((region.assign (region.blockPool block).next slot).setNext block none)
        pure true

/-- `add_to_region_freelist`. -/
def addToRegionFreelist (region : PmmRegion) (block order : ℕ) : PmmRegion :=
  (region.setNext block (region.freeLists order)).setHead order (some block)

/-! ## Adding regions -/

/-- The pool entry of page `index` before any block is built. -/
def PmmBlock.initial (start : UInt32) (index : ℕ) : PmmBlock where
  address := start + UInt32.ofNat index * pageSize
  order := 0
  isFree := true
  next := none

/-- The region `pmm_add_region` sets up before it builds the free lists. -/
def PmmRegion.initial (start end_ : UInt32) (blockPoolSize : ℕ) : PmmRegion where
  freeLists := fun _ => none
  blockPool := PmmBlock.initial start
  blockPoolSize := blockPoolSize
  start := start
  end_ := end_

/-- The inner loop of `pmm_add_region`: grow the order while the next size is
aligned at `offset` and fits; it runs at most `MAX_ORDER - biggestOrder` times. -/
def growOrder (offset blockPoolSize : ℕ) : ℕ → ℕ → ℕ
  | 0, biggestOrder => biggestOrder
  | fuel + 1, biggestOrder =>
      let nextBlockCount := blockCount (biggestOrder + 1)
      if offset % nextBlockCount ≠ 0 then biggestOrder
      else if offset + nextBlockCount > blockPoolSize then biggestOrder
      else growOrder offset blockPoolSize fuel (biggestOrder + 1)

/-- `biggest_order` at `offset`. -/
def biggestOrder (offset blockPoolSize : ℕ) : ℕ :=
  growOrder offset blockPoolSize maxOrder 0

/-- The outer loop of `pmm_add_region`: cut the pool into blocks from `offset`
on.  Each round moves `offset` by at least one page. -/
def buildFreeLists : ℕ → ℕ → KernelM PmmRegion Unit
  | 0, _ => throw .hang
  | fuel + 1, offset => do
      let region ← get
      if offset < region.blockPoolSize then
        let order := biggestOrder offset region.blockPoolSize
        match findBlockByAddress region (region.pageAddress offset) with
        | none => throw .nullDereference
        | some block => do
            modify fun region =>
              addToRegionFreelist ((region.setOrder block order).setFree block true) block order
            buildFreeLists fuel (offset + blockCount order)
      else pure ()

/-- `sizeof(pmm_region_t)` on i386. -/
def sizeofPmmRegion : UInt32 := 64

/-- `sizeof(pmm_block_t)` on i386. -/
def sizeofPmmBlock : UInt32 := 12

/-- `emm_alloc`, with the writes to its block that `pmm_add_region` makes without a check:
they go through the null pointer when the block is there, and outside the heap when
`emm_alloc` let the request wrap. -/
def emmAllocWritten (size : UInt32) : KernelM Emm UInt32 := do
  let address ← emmAlloc size
  let emm ← get
  if address = 0 then throw .nullDereference
  else if address.toNat + size.toNat > emm.end_.toNat then throw .outOfBounds
  else pure address

/-- Run code of the early heap inside the memory manager. -/
def onEmm {α : Type} (x : KernelM Emm α) : KernelM Pmm α :=
  Machine.zoom (fun pmm => some pmm.emm) (fun pmm emm => { pmm with emm := emm })
    .nullDereference x

/-- Put back the region at a position of the list. -/
def Pmm.setRegion (pmm : Pmm) (index : ℕ) (region : PmmRegion) : Pmm :=
  { pmm with regions := pmm.regions.set index region }

/-- Run code on the region at a position of the list. -/
def onRegion {α : Type} (index : ℕ) (x : KernelM PmmRegion α) : KernelM Pmm α :=
  Machine.zoom (fun pmm => pmm.regions[index]?) (fun pmm => pmm.setRegion index)
    .nullDereference x

/-- `pmm_add_region`.  Once the region and its pool are known to be in the early heap,
their addresses only serve as identities. -/
def pmmAddRegion (start size : UInt32) : KernelM Pmm Unit :=
  let originalStart := start
  let originalEnd := originalStart + size
  if originalStart ≥ originalEnd then
    kpanic "Memory region overflows address space (start=%p, size=%u)" [originalStart, size]
  else
    let alignedStart := kalignUp originalStart pageSize
    let alignedEnd := kalignDown originalEnd pageSize
    if alignedEnd ≤ alignedStart then pure ()
    else do
      let alignedSize := alignedEnd - alignedStart
      let _ ← onEmm (emmAllocWritten sizeofPmmRegion)
      let blockPoolSize := alignedSize / pageSize
      let _ ← onEmm (emmAllocWritten (blockPoolSize * sizeofPmmBlock))
      let region := PmmRegion.initial alignedStart alignedEnd blockPoolSize.toNat
      match buildFreeLists (region.blockPoolSize + 1) 0 region with
      | .error fault _ => throw fault
      | .ok _ region => modify fun pmm => { pmm with regions := pmm.regions ++ [region] }

/-- `pmm_init`; base and length are narrowed to 32 bits. -/
def pmmInit (bootInfo : BootInfo) : KernelM Pmm Unit :=
  bootInfo.ramRegions.forM fun region =>
    pmmAddRegion region.baseAddress.toUInt32 region.length.toUInt32

/-! ## Allocation -/

/-- The split loop of `pmm_alloc_order`, with `current_order = order + count`. -/
def splitBlock (target order : ℕ) : ℕ → KernelM PmmRegion Unit
  | 0 => pure ()
  | count + 1 => do
      let currentOrder := order + count
      let region ← get
      let buddyAddress := (region.blockPool target).address + blockSize currentOrder
      match findBlockByAddress region buddyAddress with
      | none => throw .nullDereference
      | some buddy => do
          modify fun region =>
            addToRegionFreelist
              (((((region.setOrder target currentOrder).setOrder buddy currentOrder).setFree
                buddy true).setNext buddy none))
              buddy currentOrder
          splitBlock target order count

/-- `pmm_alloc_order` after a region has been found. -/
def allocFromRegion (order : ℕ) : KernelM PmmRegion UInt32 := do
  let region ← get
  let currentOrder := region.availableOrder order
  if currentOrder > maxOrder then
    kpanic "No blocks available for order %u or higher" [UInt32.ofNat order]
  else
    match region.freeLists currentOrder with
    | none => kpanic "Failed to remove block from free list" []
    | some target => do
        let removed ← removeFromRegionFreelist target currentOrder
        if !removed then kpanic "Failed to remove block from free list" []
        else do
          modify fun region => region.setFree target false
          splitBlock target order (currentOrder - order)
          modify fun region => region.setNext target none
          let region ← get
          pure (region.blockPool target).address

/-- `pmm_alloc_order`. -/
def pmmAllocOrder (order : ℕ) : KernelM Pmm UInt32 := do
  if order > maxOrder then
    kpanic "Invalid target order %u for allocation" [UInt32.ofNat order]
  else
    let pmm ← get
    match findRegionForOrder pmm.regions order with
    | none => kpanic "No free blocks available for order %u" [UInt32.ofNat order]
    | some index => onRegion index (allocFromRegion order)

/-- `pmm_alloc_size`; the result 0 for size 0 is the null pointer. -/
def pmmAllocSize (size : UInt32) : KernelM Pmm UInt32 :=
  if size = 0 then pure 0
  else
    match sizeToOrder size with
    | none =>
        kpanic "Requested allocation size %u is too large to be handled by the buddy allocator"
          [size]
    | some order => pmmAllocOrder order

/-- `pmm_alloc_pages`. -/
def pmmAllocPages (numPages : UInt32) : KernelM Pmm UInt32 :=
  if numPages = 0 then pure 0
  else if numPages > 0xFFFFFFFF / pageSize then
    kpanic "Requested page count %u causes size overflow" [numPages]
  else pmmAllocSize (numPages * pageSize)

/-! ## Freeing -/

/-- The coalescing loop of `pmm_free`, with `fuel = MAX_ORDER - order`; it
returns the block and the order that the loop ends with. -/
def coalesce : ℕ → ℕ → ℕ → KernelM PmmRegion (ℕ × ℕ)
  | 0, block, order => pure (block, order)
  | fuel + 1, block, order => do
      let region ← get
      match getBuddyBlock region block order with
      | none => pure (block, order)
      | some buddy =>
          if !(region.blockPool buddy).isFree ∨ (region.blockPool buddy).order ≠ order then
            pure (block, order)
          else do
            let removed ← removeFromRegionFreelist buddy order
            if !removed then
              kpanic "Failed to remove buddy block from free list during coalescing" []
            else do
              let lower :=
                if (region.blockPool buddy).address < (region.blockPool block).address
                then buddy else block
              modify fun region =>
                (((region.setFree buddy false).setNext buddy none).setOrder lower
                  (order + 1)).setFree lower true
              coalesce fuel lower (order + 1)

/-- `pmm_free` after the region has been found. -/
def freeInRegion (startAddress : UInt32) : KernelM PmmRegion Unit := do
  let region ← get
  match findBlockByAddress region startAddress with
  | none =>
      kpanic "Attempted to free memory at address %p which does not belong to any block"
        [startAddress]
  | some block =>
      let order := (region.blockPool block).order
      if (region.blockPool block).isFree then
        kpanic "Double free detected for pointer %p" [startAddress]
      else if order > maxOrder then
        kpanic "Attempted to free pointer %p with invalid block order %u"
          [startAddress, UInt32.ofNat order]
      else if (startAddress - region.start) % blockSize order ≠ 0 then
        kpanic "Attempted to free non-block-aligned pointer %p" [startAddress]
      else do
        modify fun region => region.setFree block true
        let (block, order) ← coalesce (maxOrder - order) block order
        modify fun region => addToRegionFreelist region block order

/-- `pmm_free`. -/
def pmmFree (address : UInt32) : KernelM Pmm Unit :=
  if address = 0 then pure ()
  else if address &&& (pageSize - 1) ≠ 0 then
    kpanic "Attempted to free a pointer %p that is not properly aligned" [address]
  else do
    let pmm ← get
    match findRegionByAddress pmm.regions address with
    | none =>
        kpanic "Attempted to free memory at address %p which does not belong to any region"
          [address]
    | some index => onRegion index (freeInRegion address)

end ArkoiOs
