import Mathlib.Data.UInt

/-!
# Boot information

The lists that `multiboot2_parse_boot_info` leaves for the kernel.  The singly
linked lists of the source are Lean lists.
-/

namespace ArkoiOs

/-- `boot_memory_region_t`. -/
structure BootMemoryRegion where
  baseAddress : UInt64
  length : UInt64
  deriving DecidableEq, Repr

/-- `boot_module_t`. -/
structure BootModule where
  modStart : UInt32
  modEnd : UInt32
  commandLine : List UInt8
  deriving DecidableEq, Repr

/-- `boot_info_t`; the two strings are null until their tag is met. -/
structure BootInfo where
  name : Option (List UInt8)
  commandLine : Option (List UInt8)
  ramRegions : List BootMemoryRegion
  reservedRegions : List BootMemoryRegion
  modules : List BootModule
  deriving DecidableEq, Repr

end ArkoiOs
