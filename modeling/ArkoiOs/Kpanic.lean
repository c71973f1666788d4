import ArkoiOs.Library.Machine

/-!
# Panics and other ends of execution

`kpanic` prints its message and halts the machine.  The model also names the
ends that C leaves undefined or open: a dereferenced null pointer, a loop that
never ends, an access to an unmapped address while the kernel itself edits
page tables, and an access outside the object a pointer points into.
-/

namespace ArkoiOs

/-- Why an execution does not return. -/
inductive Fault
  | panic (format : String) (args : List UInt32)
  | nullDereference
  | hang
  | pageFault (address : UInt32)
  | outOfBounds
  deriving DecidableEq, Repr

/-- Kernel code over the state `σ`. -/
abbrev KernelM (σ α : Type) := EStateM Fault σ α

/-- `KPANIC`; the file, line and function it adds to the message are left out. -/
def kpanic {σ α : Type} (format : String) (args : List UInt32) : KernelM σ α :=
  throw (.panic format args)

end ArkoiOs
