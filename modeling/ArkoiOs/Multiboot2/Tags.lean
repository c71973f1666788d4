import ArkoiOs.Multiboot2
import ArkoiOs.Multiboot2.Parser
import ArkoiOs.Library.LinkedArena

/-!
# Information structures and what they say

The tags of a Multiboot2 information structure with their bytes, how they are
laid out in memory, the boot information they stand for, and how boot
information stands in memory as the linked lists of the source.
-/

namespace ArkoiOs

/-! ## Tags -/

/-- An entry of a memory map; `rest` is what follows the type, the reserved word
and whatever a longer entry has. -/
structure MemoryMapEntry where
  baseAddress : UInt64
  length : UInt64
  type : UInt32
  rest : List UInt8

/-- A tag.  A string may be followed by more bytes behind its terminator. -/
inductive Tag
  | commandLine (string slack : List UInt8)
  | loaderName (string slack : List UInt8)
  | module (modStart modEnd : UInt32) (string slack : List UInt8)
  | memoryMap (entrySize entryVersion : UInt32) (entries : List MemoryMapEntry)
  | other (type : UInt32) (body : List UInt8)

def MemoryMapEntry.bytes (entry : MemoryMapEntry) : List UInt8 :=
  bytes64 entry.baseAddress ++ (bytes64 entry.length ++ (bytes32 entry.type ++ entry.rest))

namespace Tag

def type : Tag → UInt32
  | commandLine _ _ => multiboot2TagTypeCommandLine
  | loaderName _ _ => multiboot2TagTypeBootLoaderName
  | module _ _ _ _ => multiboot2TagTypeModule
  | memoryMap _ _ _ => multiboot2TagTypeMemoryMap
  | other type _ => type

/-- What follows the type and the size. -/
def body : Tag → List UInt8
  | commandLine string slack => string ++ [0] ++ slack
  | loaderName string slack => string ++ [0] ++ slack
  | module modStart modEnd string slack =>
      bytes32 modStart ++ (bytes32 modEnd ++ (string ++ [0] ++ slack))
  | memoryMap entrySize entryVersion entries =>
      bytes32 entrySize ++ (bytes32 entryVersion ++ entries.flatMap MemoryMapEntry.bytes)
  | other _ body => body

/-- `size`, which counts the type and itself. -/
def size (tag : Tag) : ℕ := 8 + tag.body.length

/-- The tag in memory. -/
def bytes (tag : Tag) : List UInt8 :=
  bytes32 tag.type ++ (LittleEndian.encode 4 tag.size ++ tag.body)

/-- The place a tag takes: its size rounded up to 8. -/
def padded (tag : Tag) : ℕ := (tag.size + 7) / 8 * 8

/-- Strings end at their terminator, the entries of a memory map have its entry
size, and the type of any other tag is none of those the parser knows. -/
def WellFormed : Tag → Prop
  | commandLine string _ => 0 ∉ string
  | loaderName string _ => 0 ∉ string
  | module _ _ string _ => 0 ∉ string
  | memoryMap entrySize _ entries => 24 ≤ entrySize.toNat ∧ entrySize.toNat % 8 = 0 ∧
      ∀ entry ∈ entries, entry.bytes.length = entrySize.toNat
  | other type _ => type ≠ multiboot2TagTypeEnd ∧ type ≠ multiboot2TagTypeCommandLine ∧
      type ≠ multiboot2TagTypeBootLoaderName ∧ type ≠ multiboot2TagTypeModule ∧
      type ≠ multiboot2TagTypeMemoryMap

instance : (tag : Tag) → Decidable tag.WellFormed
  | commandLine string _ => inferInstanceAs (Decidable (0 ∉ string))
  | loaderName string _ => inferInstanceAs (Decidable (0 ∉ string))
  | module _ _ string _ => inferInstanceAs (Decidable (0 ∉ string))
  | memoryMap entrySize _ entries => inferInstanceAs (Decidable (24 ≤ entrySize.toNat ∧
      entrySize.toNat % 8 = 0 ∧ ∀ entry ∈ entries, entry.bytes.length = entrySize.toNat))
  | other type _ => inferInstanceAs (Decidable (type ≠ multiboot2TagTypeEnd ∧
      type ≠ multiboot2TagTypeCommandLine ∧ type ≠ multiboot2TagTypeBootLoaderName ∧
      type ≠ multiboot2TagTypeModule ∧ type ≠ multiboot2TagTypeMemoryMap))

/-- The tag takes its room of the early heap: a region for each entry, a module
and its string, or a string. -/
def heapNeed : Tag → ℕ
  | commandLine string _ => string.length + 1
  | loaderName string _ => string.length + 1
  | module _ _ string _ => 16 + (string.length + 1)
  | memoryMap _ _ entries => 20 * entries.length
  | other _ _ => 0

end Tag

/-- What the tags take of the early heap. -/
def heapNeed (tags : List Tag) : ℕ := (tags.map Tag.heapNeed).sum

/-- The tags stand one behind the other from the position on, each within the
limit of the structure, until the limit or an END tag. -/
def LaidOut (memory : ByteMemory Unit) (limit : ℕ) : ℕ → List Tag → Prop
  | position, [] => limit ≤ position ∧ position < 2 ^ 32 ∨
      position + 8 ≤ limit ∧ memory.Holds ⟨(), position⟩ (bytes32 multiboot2TagTypeEnd)
  | position, tag :: tags => tag.WellFormed ∧ position + tag.size ≤ limit ∧
      memory.Holds ⟨(), position⟩ tag.bytes ∧ LaidOut memory limit (position + tag.padded) tags

instance decidableLaidOut (memory : ByteMemory Unit) (limit : ℕ) : (position : ℕ) →
    (tags : List Tag) → Decidable (LaidOut memory limit position tags)
  | position, [] => inferInstanceAs (Decidable (limit ≤ position ∧ position < 2 ^ 32 ∨
      position + 8 ≤ limit ∧ memory.Holds ⟨(), position⟩ (bytes32 multiboot2TagTypeEnd)))
  | position, tag :: tags =>
      have := decidableLaidOut memory limit (position + tag.padded) tags
      inferInstanceAs (Decidable (tag.WellFormed ∧ position + tag.size ≤ limit ∧
        memory.Holds ⟨(), position⟩ tag.bytes ∧
          LaidOut memory limit (position + tag.padded) tags))

/-! ## What the tags say -/

def MemoryMapEntry.region (entry : MemoryMapEntry) : BootMemoryRegion :=
  ⟨entry.baseAddress, entry.length⟩

/-- The entries of the given type, in order. -/
def Tag.regions (type : UInt32) : Tag → List BootMemoryRegion
  | memoryMap _ _ entries =>
      (entries.filter fun entry => entry.type = type).map MemoryMapEntry.region
  | _ => []

def Tag.module? : Tag → Option BootModule
  | module modStart modEnd string _ => some ⟨modStart, modEnd, string⟩
  | _ => none

def Tag.loaderName? : Tag → Option (List UInt8)
  | loaderName string _ => some string
  | _ => none

def Tag.commandLine? : Tag → Option (List UInt8)
  | commandLine string _ => some string
  | _ => none

/-- The boot information of the tags: all available and all reserved entries and
all modules in order, and the strings of the last tags that have them. -/
def decoded (tags : List Tag) : BootInfo where
  name := (tags.filterMap Tag.loaderName?).getLast?
  commandLine := (tags.filterMap Tag.commandLine?).getLast?
  ramRegions := tags.flatMap (Tag.regions multiboot2MemoryAvailable)
  reservedRegions := tags.flatMap (Tag.regions multiboot2MemoryReserved)
  modules := tags.filterMap Tag.module?

/-! ## Boot information in memory -/

/-- A string at an address; null when there is none. -/
def StringAt (memory : ByteMemory Unit) (address : ℕ) : Option (List UInt8) → Prop
  | none => address = 0
  | some string => address ≠ 0 ∧ 0 ∉ string ∧ memory.Holds ⟨(), address⟩ (string ++ [0])

/-- The fields of `boot_memory_region_t` in front of `next`. -/
def BootMemoryRegion.bytes (region : BootMemoryRegion) : List UInt8 :=
  bytes64 region.baseAddress ++ bytes64 region.length

/-- The fields of `boot_module_t` in front of `next`. -/
def moduleBytes (modStart modEnd : UInt32) (commandLine : ℕ) : List UInt8 :=
  bytes32 modStart ++ (bytes32 modEnd ++ Piece.link commandLine)

/-- The fields describe the module. -/
def ModuleAt (memory : ByteMemory Unit) (content : List UInt8) (mod : BootModule) : Prop :=
  ∃ commandLine < 2 ^ 32, content = moduleBytes mod.modStart mod.modEnd commandLine ∧
    StringAt memory commandLine (some mod.commandLine)

/-- `boot_info_t` at an address holds the boot information. -/
structure BootInfoAt (memory : ByteMemory Unit) (address : ℕ) (info : BootInfo) : Prop where
  name : ∃ p < 2 ^ 32, memory.Holds ⟨(), address⟩ (Piece.link p) ∧ StringAt memory p info.name
  commandLine : ∃ p < 2 ^ 32, memory.Holds ⟨(), address + 4⟩ (Piece.link p) ∧
    StringAt memory p info.commandLine
  ramRegions : ∃ p < 2 ^ 32, memory.Holds ⟨(), address + 8⟩ (Piece.link p) ∧
    memory.LinkedList () p (info.ramRegions.map BootMemoryRegion.bytes)
  reservedRegions : ∃ p < 2 ^ 32, memory.Holds ⟨(), address + 12⟩ (Piece.link p) ∧
    memory.LinkedList () p (info.reservedRegions.map BootMemoryRegion.bytes)
  modules : ∃ p < 2 ^ 32, memory.Holds ⟨(), address + 16⟩ (Piece.link p) ∧
    ∃ contents, memory.LinkedList () p contents ∧
      List.Forall₂ (ModuleAt memory) contents info.modules

end ArkoiOs
