import ArkoiOs.Emm
import ArkoiOs.Kstring
import ArkoiOs.Library.LittleEndian

/-!
# The parser of the boot information

`arch/x86/boot/multiboot2.c` over one memory of bytes under 32-bit addresses,
which holds the information structure, the early heap and `boot_info_t`.
Pointer arithmetic wraps at 2^32.  Integers are little-endian and may stand at
any address; an access to an address without a byte is out of bounds.
-/

namespace ArkoiOs

/-- Memory and the early heap. -/
structure BootState where
  memory : ByteMemory Unit
  emm : Emm

/-! ## Memory accesses -/

/-- An address as a pointer. -/
def pointerTo (address : UInt32) : Pointer Unit := ⟨(), address.toNat⟩

/-- An address that may be null. -/
def nullable (address : UInt32) : Option (Pointer Unit) :=
  if address = 0 then none else some (pointerTo address)

/-- Run code on the memory. -/
def onMemory {α : Type} (x : KernelM (ByteMemory Unit) α) : KernelM BootState α :=
  Machine.zoom (fun state => some state.memory)
    (fun state memory => { state with memory := memory }) .nullDereference x

/-- Run code of the early heap. -/
def onEarlyHeap {α : Type} (x : KernelM Emm α) : KernelM BootState α :=
  Machine.zoom (fun state => some state.emm)
    (fun state emm => { state with emm := emm }) .nullDereference x

/-- The bytes of a `uint32_t` or a pointer. -/
def bytes32 (value : UInt32) : List UInt8 := LittleEndian.encode 4 value.toNat

/-- The bytes of a `uint64_t`. -/
def bytes64 (value : UInt64) : List UInt8 := LittleEndian.encode 8 value.toNat

/-- Read a `uint32_t` or a pointer. -/
def load32 (address : UInt32) : KernelM BootState UInt32 := do
  let bytes ← onMemory (loadBytes 4 (pointerTo address))
  pure (UInt32.ofNat (LittleEndian.decode bytes))

/-- Read a `uint64_t`. -/
def load64 (address : UInt32) : KernelM BootState UInt64 := do
  let bytes ← onMemory (loadBytes 8 (pointerTo address))
  pure (UInt64.ofNat (LittleEndian.decode bytes))

/-- Write a `uint32_t` or a pointer. -/
def store32 (address value : UInt32) : KernelM BootState Unit :=
  onMemory (storeBytes (bytes32 value) (pointerTo address))

/-- Write a `uint64_t`. -/
def store64 (address : UInt32) (value : UInt64) : KernelM BootState Unit :=
  onMemory (storeBytes (bytes64 value) (pointerTo address))

/-! ## Offsets of the structures -/

/-- `MULTIBOOT2_ALIGN_UP`. -/
def multiboot2AlignUp (x : UInt32) : UInt32 := (x + 7) &&& ~~~7

/-- `MULTIBOOT2_TAG_TYPE_END`. -/
def multiboot2TagTypeEnd : UInt32 := 0

/-- `MULTIBOOT2_TAG_TYPE_COMMAND_LINE`. -/
def multiboot2TagTypeCommandLine : UInt32 := 1

/-- `MULTIBOOT2_TAG_TYPE_BOOT_LOADER_NAME`. -/
def multiboot2TagTypeBootLoaderName : UInt32 := 2

/-- `MULTIBOOT2_TAG_TYPE_MODULE`. -/
def multiboot2TagTypeModule : UInt32 := 3

/-- `MULTIBOOT2_TAG_TYPE_MEMORY_MAP`. -/
def multiboot2TagTypeMemoryMap : UInt32 := 6

/-- `MULTIBOOT2_MEMORY_AVAILABLE`. -/
def multiboot2MemoryAvailable : UInt32 := 1

/-- `MULTIBOOT2_MEMORY_RESERVED`. -/
def multiboot2MemoryReserved : UInt32 := 2

/-- `sizeof(boot_memory_region_t)`; its `next` is at offset 16. -/
def sizeofBootMemoryRegion : UInt32 := 20

/-- `sizeof(boot_module_t)`; its `next` is at offset 12. -/
def sizeofBootModule : UInt32 := 16

/-- `sizeof(boot_info_t)`: five pointers. -/
def sizeofBootInfo : UInt32 := 20

/-! ## Lists -/

/-- The walk to the slot that ends a list, from `slot` on: `while (*slot != NULL)
slot = &(*slot)->next`. -/
def walkSlots (nextOffset : UInt32) : ℕ → UInt32 → KernelM BootState UInt32
  | 0, _ => throw .hang
  | fuel + 1, slot => do
      let node ← load32 slot
      if node ≠ 0 then walkSlots nextOffset fuel (node + nextOffset) else pure slot

/-- Walk to the end of the list and put the node there. -/
def appendNode (fuel : ℕ) (nextOffset slot node : UInt32) : KernelM BootState Unit := do
  let last ← walkSlots nextOffset fuel slot
  store32 last node

/-! ## Tags -/

/-- The slot an entry of the memory map goes to by its type. -/
def regionSlot (bootInfo type : UInt32) : Option UInt32 :=
  if type = multiboot2MemoryAvailable then some (bootInfo + 8)
  else if type = multiboot2MemoryReserved then some (bootInfo + 12)
  else none

/-- The body of the loop of `parse_memory_map`, up to the step to the next entry. -/
def parseEntry (fuel : ℕ) (current bootInfo : UInt32) : KernelM BootState Unit := do
  let base ← load64 current
  let length ← load64 (current + 8)
  let type ← load32 (current + 16)
  let region ← onEarlyHeap (emmAlloc sizeofBootMemoryRegion)
  store64 region base
  store64 (region + 8) length
  store32 (region + 16) 0
  match regionSlot bootInfo type with
  | none => pure ()
  | some slot => appendNode fuel 16 slot region

/-- The loop of `parse_memory_map`. -/
def parseMemoryMapLoop (fuel : ℕ) (tag bootInfo end_ : UInt32) :
    ℕ → UInt32 → KernelM BootState Unit
  | 0, _ => throw .hang
  | rounds + 1, current =>
      if current < end_ then do
        parseEntry fuel current bootInfo
        let entrySize ← load32 (tag + 8)
        parseMemoryMapLoop fuel tag bootInfo end_ rounds (current + entrySize)
      else pure ()

/-- `parse_memory_map`. -/
def parseMemoryMap (fuel : ℕ) (tag bootInfo : UInt32) : KernelM BootState Unit := do
  let current := tag + 16
  let size ← load32 (tag + 4)
  parseMemoryMapLoop fuel tag bootInfo (tag + size) fuel current

/-- Copy the string at `source` to the early heap, with the copy in the field:
what `parse_command_line`, `parse_name` and the end of `parse_module` do. -/
def copyString (fuel : ℕ) (field source : UInt32) : KernelM BootState Unit := do
  let length ← onMemory (kstrlen fuel (pointerTo source))
  let copy ← onEarlyHeap (emmAlloc (length + 1))
  store32 field copy
  let destination ← load32 field
  let _ ← onMemory (kmemcpy (nullable destination) (nullable source) length)
  let destination ← load32 field
  onMemory (storeByte (pointerTo (destination + length)) 0)

/-- `parse_command_line`. -/
def parseCommandLine (fuel : ℕ) (tag bootInfo : UInt32) : KernelM BootState Unit :=
  copyString fuel (bootInfo + 4) (tag + 8)

/-- `parse_module`. -/
def parseModule (fuel : ℕ) (tag bootInfo : UInt32) : KernelM BootState Unit := do
  let mod ← onEarlyHeap (emmAlloc sizeofBootModule)
  let modStart ← load32 (tag + 8)
  store32 mod modStart
  let modEnd ← load32 (tag + 12)
  store32 (mod + 4) modEnd
  store32 (mod + 12) 0
  appendNode fuel 12 (bootInfo + 16) mod
  copyString fuel (mod + 8) (tag + 16)

/-- `parse_name`. -/
def parseName (fuel : ℕ) (tag bootInfo : UInt32) : KernelM BootState Unit :=
  copyString fuel bootInfo (tag + 8)

/-- The `switch` over the type of a tag. -/
def parseTag (fuel : ℕ) (type tag bootInfo : UInt32) : KernelM BootState Unit :=
  if type = multiboot2TagTypeMemoryMap then parseMemoryMap fuel tag bootInfo
  else if type = multiboot2TagTypeCommandLine then parseCommandLine fuel tag bootInfo
  else if type = multiboot2TagTypeModule then parseModule fuel tag bootInfo
  else if type = multiboot2TagTypeBootLoaderName then parseName fuel tag bootInfo
  else pure ()

/-- The loop of `multiboot2_parse_boot_info`. -/
def parseTags (fuel : ℕ) (bootInfo end_ : UInt32) : ℕ → UInt32 → KernelM BootState Unit
  | 0, _ => throw .hang
  | rounds + 1, current =>
      if current < end_ then do
        let type ← load32 current
        if type = multiboot2TagTypeEnd then pure ()
        else do
          parseTag fuel type current bootInfo
          let size ← load32 (current + 4)
          parseTags fuel bootInfo end_ rounds (current + multiboot2AlignUp size)
      else pure ()

/-- `multiboot2_parse_boot_info`; each of its loops may go on for as many rounds
as there is fuel. -/
def multiboot2ParseBootInfo (fuel : ℕ) (mb2Info bootInfo : UInt32) : KernelM BootState Unit := do
  let _ ← onMemory (kmemset (nullable bootInfo) 0 sizeofBootInfo)
  let totalSize ← load32 mb2Info
  parseTags fuel bootInfo (mb2Info + totalSize) fuel (mb2Info + 8)

end ArkoiOs
