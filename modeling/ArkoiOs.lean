import ArkoiOs.Pmm.InUse
import ArkoiOs.Pmm.InvalidFree
import ArkoiOs.Vmm.Refinement
import ArkoiOs.Vmm.Rights
import ArkoiOs.Vmm.TableAccess
import ArkoiOs.Vmm.Windows
import ArkoiOs.Pmm.Requests
import ArkoiOs.Pmm.Outcomes
import ArkoiOs.Library.BoundedQueue
import ArkoiOs.Kbuffer
import ArkoiOs.Keyboard.GetEvent
import ArkoiOs.Keyboard.Handler
import ArkoiOs.Keyboard.Modifiers
import ArkoiOs.Vga.Document
import ArkoiOs.Vmm.Owners
import ArkoiOs.Vmm.DemandPaging
import ArkoiOs.Vmm.FrameHolders
import ArkoiOs.Library.LittleEndian
import ArkoiOs.Kstring
import ArkoiOs.Library.LinkedArena
import ArkoiOs.Multiboot2.Parser
import ArkoiOs.Multiboot2.Tags
import ArkoiOs.Multiboot2.Accesses
import ArkoiOs.Multiboot2.Parsed
import ArkoiOs.Multiboot2.Handlers
import ArkoiOs.Multiboot2.TagLoop
import ArkoiOs.Multiboot2.Decode
import ArkoiOs.Emm.Allocations
import ArkoiOs.Keyboard.Batches
import ArkoiOs.Vga.HardwareCursor
import ArkoiOs.Vga.Colors
import ArkoiOs.Kcursor
import ArkoiOs.Kstdio.Model
import ArkoiOs.Kstdio.Render
import ArkoiOs.Library.Digits
import ArkoiOs.Kstdio.Numbers
import ArkoiOs.Kstdio.Formatting
import ArkoiOs.Kstdio.Kvsnprintf
import ArkoiOs.Multiboot2.AnyTags
import ArkoiOs.Library.FuelLoop
import ArkoiOs.Multiboot2.Termination
import ArkoiOs.Multiboot2.Confinement
import ArkoiOs.Pmm.AnyCalls
import ArkoiOs.Pmm.NeverNull
import ArkoiOs.Vmm.DirectoryAccess
import ArkoiOs.Vmm.FailedCalls
import ArkoiOs.Idt
import ArkoiOs.Pit
import ArkoiOs.Serial.Model
import ArkoiOs.Serial.Records
import ArkoiOs.Serial.Lookup
import ArkoiOs.Kcursor.Calls
import ArkoiOs.Kstdio.Canonical
import ArkoiOs.Keyboard.Ascii
import ArkoiOs.Keyboard.MainLoop
import ArkoiOs.Keyboard.Statements
import ArkoiOs.Keyboard.Typing
import ArkoiOs.Library.WordStack
import ArkoiOs.Library.RecordTable
import ArkoiOs.Idt.Stubs
import ArkoiOs.Idt.Context
import ArkoiOs.Idt.Pic
import ArkoiOs.Idt.Board
import ArkoiOs.Idt.Descriptors
import ArkoiOs.Idt.Tables
import ArkoiOs.Vmm.Tlb
import ArkoiOs.Vmm.FaultHandling
import ArkoiOs.Vmm.PageFaults
import ArkoiOs.Kstdio.Kprintf
import ArkoiOs.Kstdio.Panic
import ArkoiOs.Library.ListWalk
import ArkoiOs.Multiboot2.Report
import ArkoiOs.Multiboot2.Printing
import ArkoiOs.Multiboot2.KernelStart
import ArkoiOs.Library.Retry
import ArkoiOs.Serial.Polling
import ArkoiOs.Serial.Strings
import ArkoiOs.Serial.Traffic
import ArkoiOs.Serial.SelfTest
import ArkoiOs.Serial.BootLog
