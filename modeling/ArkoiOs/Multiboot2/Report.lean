import ArkoiOs.Kstdio.Kprintf
import ArkoiOs.Library.ListWalk
import ArkoiOs.Multiboot2.Accesses
import ArkoiOs.Multiboot2.Tags

/-!
# The report of the boot information

`multiboot2_print_boot_info` walks the lists of `boot_info_t` and prints what they hold, one
call of `kprintf` after the other.  The screen goes on with a report that only depends on the
boot information, wherever its nodes and strings stand in memory.
-/

namespace ArkoiOs

open Piece (link)

/-! ## The model -/

/-- The formats of `multiboot2_print_boot_info`. -/
inductive BootFormat
  | loader
  | commandLine
  | ram
  | ramRegion
  | reserved
  | reservedRegion
  | modules
  | module
  | moduleCommandLine
  deriving DecidableEq, Repr

namespace BootFormat

def text : BootFormat → List UInt8
  | loader => ascii "Booted using the \"%s\" boot loader\n".toList
  | commandLine => ascii "The command line is \"%s\"\n".toList
  | ram => ascii "RAM has a size of %u MB with %u regions\n".toList
  | ramRegion => ascii " - RAM Region: %p - %p (%u KB)\n".toList
  | reserved => ascii "There are %u KB of reserved memory in %u regions\n".toList
  | reservedRegion => ascii " - Reserved Region: %p - %p (%u KB)\n".toList
  | modules => ascii "There are %u modules loaded\n".toList
  | module => ascii " - Module: %p - %p (%u KB)\n".toList
  | moduleCommandLine => ascii "   Command line: %s\n".toList

/-- The kinds of its arguments. -/
def kinds : BootFormat → List Argument
  | loader | commandLine | moduleCommandLine => [.string none]
  | modules => [.word 0]
  | ram | reserved => [.word 0, .word 0]
  | ramRegion | reservedRegion | module => [.word 0, .word 0, .word 0]

theorem matching (format : BootFormat) {args : List Argument}
    (kinds : args.map Argument.blank = format.kinds) : (blocks format.text args).isSome := by
  rw [← blocks_blank, kinds]
  cases format <;> decide +kernel

theorem noZero (format : BootFormat) : 0 ∉ format.text := by
  cases format <;> decide +kernel

theorem length_text (format : BootFormat) : format.text.length < 2 ^ 32 := by
  cases format <;> decide +kernel

end BootFormat

/-- Read a `uint32_t` or a pointer. -/
def Terminal.load32 (address : UInt32) : KernelM (Terminal Unit) UInt32 := do
  let bytes ← Terminal.onMemory (loadBytes 4 (pointerTo address))
  pure (UInt32.ofNat (LittleEndian.decode bytes))

/-- Read a `uint64_t`. -/
def Terminal.load64 (address : UInt32) : KernelM (Terminal Unit) UInt64 := do
  let bytes ← Terminal.onMemory (loadBytes 8 (pointerTo address))
  pure (UInt64.ofNat (LittleEndian.decode bytes))

section Model

variable (fuel : ℕ)

/-- A loop over a list of regions, whose `next` is at offset 16. -/
def overRegions {α : Type} (visit : α → UInt32 → KernelM (Terminal Unit) α) (start : α)
    (regions : UInt32) : KernelM (Terminal Unit) α :=
  walkList Terminal.load32 .hang 16 visit fuel start regions

/-- A loop over a list of modules, whose `next` is at offset 12. -/
def overModules {α : Type} (visit : α → UInt32 → KernelM (Terminal Unit) α) (start : α)
    (modules : UInt32) : KernelM (Terminal Unit) α :=
  walkList Terminal.load32 .hang 12 visit fuel start modules

/-- `multiboot2_memory_map_size`. -/
def multiboot2MemoryMapSize (regions : UInt32) : KernelM (Terminal Unit) UInt64 :=
  overRegions fuel (fun totalSize current => do
    let length ← Terminal.load64 (current + 8)
    pure (totalSize + length)) 0 regions

/-- `multiboot2_memory_map_count`. -/
def multiboot2MemoryMapCount (regions : UInt32) : KernelM (Terminal Unit) UInt32 :=
  overRegions fuel (fun count _ => pure (count + 1)) 0 regions

/-- `multiboot2_module_count`. -/
def multiboot2ModuleCount (modules : UInt32) : KernelM (Terminal Unit) UInt32 :=
  overModules fuel (fun count _ => pure (count + 1)) 0 modules

variable (frame : PrintFrame Unit) (literals : BootFormat → Pointer Unit)

/-- One `kprintf`; `literals` are where the formats stand. -/
def printBoot (format : BootFormat) (args : List (VaArg Unit)) : KernelM (Terminal Unit) Unit := do
  let _ ← kprintf fuel frame (some (literals format)) args

/-- The body of the loops over the regions. -/
def printRegion (format : BootFormat) (current : UInt32) : KernelM (Terminal Unit) Unit := do
  let base ← Terminal.load64 current
  let length ← Terminal.load64 (current + 8)
  let startAddress := base.toUInt32
  let endAddress := (base + length).toUInt32
  let size := (length / 1024).toUInt32
  printBoot fuel frame literals format [.word startAddress, .word endAddress, .word size]

/-- The body of the loop over the modules. -/
def printModule (current : UInt32) : KernelM (Terminal Unit) Unit := do
  let startAddress ← Terminal.load32 current
  let endAddress ← Terminal.load32 (current + 4)
  let size := endAddress - startAddress
  printBoot fuel frame literals .module
    [.word startAddress, .word endAddress, .word (size / 1024)]
  let commandLine ← Terminal.load32 (current + 8)
  printBoot fuel frame literals .moduleCommandLine [.string (nullable commandLine)]

/-- `multiboot2_print_boot_info`. -/
def multiboot2PrintBootInfo (bootInfo : UInt32) : KernelM (Terminal Unit) Unit := do
  let name ← Terminal.load32 bootInfo
  printBoot fuel frame literals .loader [.string (nullable name)]
  let commandLine ← Terminal.load32 (bootInfo + 4)
  printBoot fuel frame literals .commandLine [.string (nullable commandLine)]
  let ramRegions ← Terminal.load32 (bootInfo + 8)
  let ramSize ← multiboot2MemoryMapSize fuel ramRegions
  let ramSizeMb := (ramSize / (1024 * 1024)).toUInt32
  let ramCount ← multiboot2MemoryMapCount fuel ramRegions
  printBoot fuel frame literals .ram [.word ramSizeMb, .word ramCount]
  let currentRam ← Terminal.load32 (bootInfo + 8)
  overRegions fuel (fun _ => printRegion fuel frame literals .ramRegion) () currentRam
  let reservedRegions ← Terminal.load32 (bootInfo + 12)
  let reservedSize ← multiboot2MemoryMapSize fuel reservedRegions
  let reservedSizeMb := (reservedSize / 1024).toUInt32
  let reservedCount ← multiboot2MemoryMapCount fuel reservedRegions
  printBoot fuel frame literals .reserved [.word reservedSizeMb, .word reservedCount]
  let currentReserved ← Terminal.load32 (bootInfo + 12)
  overRegions fuel (fun _ => printRegion fuel frame literals .reservedRegion) () currentReserved
  let modules ← Terminal.load32 (bootInfo + 16)
  let moduleCount ← multiboot2ModuleCount fuel modules
  printBoot fuel frame literals .modules [.word moduleCount]
  let currentModule ← Terminal.load32 (bootInfo + 16)
  overModules fuel (fun _ => printModule fuel frame literals) () currentModule

end Model

/-! ## The report -/

/-- A line of the report: a format and its arguments. -/
abbrev ReportLine : Type := BootFormat × List Argument

/-- What comes to the screen of a line. -/
def ReportLine.text (line : ReportLine) : List UInt8 := printed line.1.text line.2

/-- The line of a region; its bounds and its size are narrowed to 32 bits. -/
def BootMemoryRegion.line (format : BootFormat) (region : BootMemoryRegion) : ReportLine :=
  (format, [.word region.baseAddress.toUInt32,
    .word (region.baseAddress + region.length).toUInt32, .word (region.length / 1024).toUInt32])

def BootModule.lines (mod : BootModule) : List ReportLine :=
  [(.module, [.word mod.modStart, .word mod.modEnd, .word ((mod.modEnd - mod.modStart) / 1024)]),
    (.moduleCommandLine, [.string (some mod.commandLine)])]

/-- The bytes of all regions, in 64 bits. -/
def totalLength (regions : List BootMemoryRegion) : UInt64 :=
  regions.foldl (fun total region => total + region.length) 0

theorem totalLength_concat (regions : List BootMemoryRegion) (region : BootMemoryRegion) :
    totalLength (regions ++ [region]) = totalLength regions + region.length := by
  unfold totalLength
  rw [List.foldl_append]
  rfl

/-- The lines of a list of regions, whose total is given in units of bytes. -/
def regionLines (total each : BootFormat) (unit : UInt64) (regions : List BootMemoryRegion) :
    List ReportLine :=
  (total, [.word (totalLength regions / unit).toUInt32, .word (UInt32.ofNat regions.length)]) ::
    regions.map (BootMemoryRegion.line each)

/-- What is printed of boot information. -/
def BootInfo.report (info : BootInfo) : List ReportLine :=
  (.loader, [.string info.name]) :: (.commandLine, [.string info.commandLine]) ::
    (regionLines .ram .ramRegion (1024 * 1024) info.ramRegions ++
      (regionLines .reserved .reservedRegion 1024 info.reservedRegions ++
        (.modules, [.word (UInt32.ofNat info.modules.length)]) ::
          info.modules.flatMap BootModule.lines))

/-- The text of the report. -/
def BootInfo.reportText (info : BootInfo) : List UInt8 := info.report.flatMap ReportLine.text

/-- The lists end within the rounds there are, and the strings are shorter than 2^32. -/
structure BootInfo.Sized (info : BootInfo) (fuel : ℕ) : Prop where
  ramRegions : info.ramRegions.length < fuel
  reservedRegions : info.reservedRegions.length < fuel
  modules : info.modules.length < fuel
  name : ∀ string ∈ info.name, string.length < 2 ^ 32
  commandLine : ∀ string ∈ info.commandLine, string.length < 2 ^ 32
  commandLines : ∀ mod ∈ info.modules, mod.commandLine.length < 2 ^ 32

end ArkoiOs
