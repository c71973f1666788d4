import ArkoiOs.Idt.Context
import ArkoiOs.Vmm.FaultHandling

/-!
# Accesses that fault

Kernel code on the processor loads and stores words, as `kernel_main` does to test the fault
handler.  An access to a page that is not mapped puts its address into `cr2` and raises
exception 14; the stub of the vector calls `isr_handler`, which finds the handler that
`vmm_init` installed, and behind the `iret` the access is made again.  Outside the boot windows
this makes memory of zeros that keeps what is stored.
-/

namespace ArkoiOs

/-! ## The model -/

def exceptionPageFault : UInt8 := 14

namespace PageEntry

/-- A word as the bit fields of a table entry, which is what the memory here has in its
place. -/
def ofWord (word : UInt32) : PageEntry where
  present := word.toNat.testBit 0
  rw := word.toNat.testBit 1
  user := word.toNat.testBit 2
  writeThrough := word.toNat.testBit 3
  cacheDisabled := word.toNat.testBit 4
  accessed := word.toNat.testBit 5
  dirty := word.toNat.testBit 6
  pat := word.toNat.testBit 7
  global := word.toNat.testBit 8
  avl := .ofNat 3 (word.toNat / 2 ^ 9)
  address := word.toNat / 2 ^ 12

/-- The word of an entry. -/
def toWord (entry : PageEntry) : UInt32 :=
  .ofNat (entry.present.toNat + entry.rw.toNat * 2 ^ 1 + entry.user.toNat * 2 ^ 2 +
    entry.writeThrough.toNat * 2 ^ 3 + entry.cacheDisabled.toNat * 2 ^ 4 +
    entry.accessed.toNat * 2 ^ 5 + entry.dirty.toNat * 2 ^ 6 + entry.pat.toNat * 2 ^ 7 +
    entry.global.toNat * 2 ^ 8 + entry.avl.toNat * 2 ^ 9 + entry.address * 2 ^ 12)

/-- The fields hold every bit of a word. -/
theorem toWord_ofWord (word : UInt32) : (ofWord word).toWord = word := by
  have bound := word.toNat_lt
  apply UInt32.toNat_inj.1
  simp only [toWord, ofWord, Nat.toNat_testBit, BitVec.toNat_ofNat, UInt32.toNat_ofNat']
  omega

end PageEntry

/-- The address of a word, which is in one page. -/
abbrev WordAddress : Type := {address : UInt32 // address.toNat % 4 = 0}

/-- An access of kernel code to a word in memory. -/
inductive WordAccess
  | load (word : WordAddress)
  | store (word : WordAddress) (value : UInt32)
  deriving DecidableEq, Repr

namespace WordAccess

/-- The address of the word. -/
def address : WordAccess → UInt32
  | load word | store word _ => word.1

/-- The error code of the fault of an access to a page that is not present. -/
def errorCode : WordAccess → UInt32
  | load _ => 0x0
  | store _ _ => 0x2

end WordAccess

/-- Where an address is in its frame. -/
def wordIndex (address : UInt32) : ℕ := address.toNat % 4096 / 4

section Model

variable {η ω : Type}

/-- Run code on what handlers work on. -/
def onWorld {α : Type} (x : KernelM ω α) : KernelM (Interrupts η ω) α :=
  Machine.zoom (fun s => some s.world) (fun s world => { s with world := world })
    .nullDereference x

/-- `vmm_init`, where `handler` is `vmm_page_fault_handler`. -/
def vmmInit (handler : η) : KernelM (Interrupts η ω) Unit :=
  isrInstall exceptionPageFault (some handler)

/-- Make an access to a frame; a load returns what it reads. -/
def WordAccess.perform (frame : ℕ) :
    WordAccess → KernelM (X86 η (Vmm (List UInt32))) (Option UInt32)
  | .load word => do
      let s ← get
      pure (some (s.kernel.world.memory frame (wordIndex word)).toWord)
  | .store word value => do
      modify fun s =>
        { s with
          kernel.world.memory := s.kernel.world.memory.write frame (wordIndex word)
            (.ofWord value) }
      pure none

variable (layout : BootLayout)
  (invoke : η → IsrFrame → KernelM (Interrupts η (Vmm (List UInt32))) Unit)
  (callee : IsrFrame → Cpu → Cpu)

/-- Make an access; the result tells whether it faulted.  A second fault of the same access
ends the run. -/
def WordAccess.run (access : WordAccess) :
    KernelM (X86 η (Vmm (List UInt32))) (Bool × Option UInt32) := do
  let s ← get
  match mmuAccess layout s.kernel.world.memory access.address with
  | some frame => do
      let read ← access.perform frame
      pure (false, read)
  | none => do
      modify fun s => { s with cpu.cr2 := access.address }
      serveInterrupt invoke callee exceptionPageFault.toNat (some access.errorCode)
      let s ← get
      match mmuAccess layout s.kernel.world.memory access.address with
      | some frame => do
          let read ← access.perform frame
          pure (true, read)
      | none => throw (.pageFault access.address)

/-- Install the handler and make accesses. -/
def runAccesses (handler : η) (accesses : List WordAccess) :
    KernelM (X86 η (Vmm (List UInt32))) (List (Bool × Option UInt32)) := do
  onKernel (vmmInit handler)
  accesses.mapM (WordAccess.run layout invoke callee)

end Model

/-! ## Flat memory -/

/-- The words of a memory without pages, by their numbers. -/
abbrev FlatMemory : Type := ℕ → UInt32

/-- What an access reads. -/
def WordAccess.reads (flat : FlatMemory) : WordAccess → Option UInt32
  | .load word => some (flat (word.1.toNat / 4))
  | .store _ _ => none

/-- What an access leaves. -/
def WordAccess.writes (flat : FlatMemory) : WordAccess → FlatMemory
  | .load _ => flat
  | .store word value => Function.update flat (word.1.toNat / 4) value

/-- No address in the page was accessed before. -/
def firstTouch (touched : List UInt32) (address : UInt32) : Bool :=
  touched.all fun u => !decide (SamePage address u)

theorem firstTouch_iff {touched : List UInt32} {address : UInt32} :
    firstTouch touched address = true ↔ ∀ u ∈ touched, ¬ SamePage address u := by
  unfold firstTouch
  simp

/-- What accesses read from a flat memory, and which of them are the first to their page:
`touched` are the addresses accessed before. -/
def flatAccesses : List UInt32 → FlatMemory → List WordAccess → List (Bool × Option UInt32)
  | _, _, [] => []
  | touched, flat, access :: accesses =>
      (firstTouch touched access.address, access.reads flat) ::
        flatAccesses (access.address :: touched) (access.writes flat) accesses

/-! ## One access -/

/-- Outside the windows the memory is a flat one: the pages of the addresses in `touched` are
mapped, each to a frame of its own with its words, and the words of the others are zero. -/
structure Paged (layout : BootLayout) (held : Set ℕ) (touched : List UInt32) (flat : FlatMemory)
    (s : Vmm (List UInt32)) : Prop where
  machine : MmuInv layout s
  backed : Backed layout held s
  mapped : ∀ u, ¬ InWindow u →
    (mmuAccess layout s.memory u = none ↔ ∀ v ∈ touched, ¬ SamePage u v)
  held : ∀ u frame, ¬ InWindow u → mmuAccess layout s.memory u = some frame → frame ∈ held
  apart : ∀ u v frame, ¬ InWindow u → ¬ InWindow v → mmuAccess layout s.memory u = some frame →
    mmuAccess layout s.memory v = some frame → SamePage u v
  zero : ∀ u, ¬ InWindow u → mmuAccess layout s.memory u = none → flat (u.toNat / 4) = 0
  contents : ∀ u frame, ¬ InWindow u → mmuAccess layout s.memory u = some frame →
    s.memory frame (wordIndex u) = .ofWord (flat (u.toNat / 4))

section Access

variable {layout : BootLayout} {held : Set ℕ} {touched : List UInt32} {flat : FlatMemory}
  {s : Vmm (List UInt32)} {memory memory' : Memory} {u v errCode : UInt32} {frame n : ℕ}

theorem mmuAccess_eq_none_iff : mmuAccess layout memory v = none ↔ walk layout memory v = none :=
  Option.map_eq_none_iff

theorem mmuAccess_samePage (same : SamePage u v) :
    mmuAccess layout memory u = mmuAccess layout memory v := by
  unfold mmuAccess
  rw [walk_samePage same]

/-- A word is given by its page and its place there. -/
theorem word_eq_iff (u v : UInt32) :
    u.toNat / 4 = v.toNat / 4 ↔ SamePage u v ∧ wordIndex u = wordIndex v := by
  unfold SamePage wordIndex
  omega

/-- What `vmm_preinit` leaves outside the windows. -/
theorem Paged.preinit (memory : Memory) {answers : List UInt32}
    (usable : UsableAnswers layout answers)
    (low : ∀ page ∈ answers, frameOf page < pageEntries) :
    Paged layout ∅ [] (fun _ => 0) (Vmm.preinit layout memory answers) := by
  have absent : ∀ u, ¬ InWindow u → mmuAccess layout (vmmPreinit layout memory) u = none := by
    intro u outside
    rw [mmuAccess_eq_none_iff, Refines.preinit layout memory u,
      PageMap.boot_of_not_window outside]
    rfl
  have inv := MapInv.preinit usable memory
  refine ⟨⟨.preinit layout memory, fun page mem => ?_⟩, ⟨?_, usable, fun page mem => ?_⟩,
    fun u outside => iff_of_true (absent u outside) nofun, fun u frame outside here => ?_,
    fun u v frame outside _ here _ => ?_, fun _ _ _ => rfl, fun u frame outside here => ?_⟩
  · have page' := usable.usable page mem
    exact ⟨page'.1, fun _ => ⟨low page mem, page'.2⟩⟩
  · rw [Set.union_empty]
    exact inv.tables
  · rintro (null | kept)
    · have below := low page mem
      rw [null] at below
      revert below
      decide
    · exact kept
  all_goals cases (absent u outside).symm.trans here

/-- Touching a page that is mapped. -/
theorem Paged.touch (paged : Paged layout held touched flat s)
    (mapped : mmuAccess layout s.memory v = some frame) :
    Paged layout held (v :: touched) flat s := by
  refine { paged with mapped := fun u outside => ?_ }
  rw [paged.mapped u outside, List.forall_mem_cons]
  constructor
  · intro untouched
    refine ⟨fun same => ?_, untouched⟩
    have absent := (paged.mapped u outside).2 untouched
    rw [mmuAccess_samePage same, mapped] at absent
    cases absent
  · exact fun both => both.2

/-- A served fault. -/
theorem Paged.fault (paged : Paged layout held touched flat s) (outside : ¬ InWindow v)
    (absent : mmuAccess layout s.memory v = none) (notPresent : errCode &&& 0x1 = 0)
    (supply : Supplies (n + 2) s.allocator) :
    ∃ s' frame, vmmPageFaultHandler (mmuPaging layout) v errCode s = .ok () s' ∧
      Paged layout (insert frame held) (v :: touched) flat s' ∧ Supplies n s'.allocator ∧
      mmuAccess layout s'.memory v = some frame := by
  obtain ⟨s', page, run, machine, backed, supply', fresh, effect⟩ :=
    paged.backed.serves paged.machine outside notPresent supply (mmuAccess_eq_none_iff.1 absent)
  have here : ∀ u, SamePage u v → mmuAccess layout s'.memory u = some (frameOf page) := by
    intro u same
    rw [mmuAccess, effect.walk u, if_pos (Or.inl same)]
    rfl
  have there : ∀ u, ¬ InWindow u → ¬ SamePage u v →
      mmuAccess layout s'.memory u = mmuAccess layout s.memory u := by
    intro u outside' other
    have apart : ¬ (SamePage u v ∨ Twins u v) :=
      not_or.2 ⟨other, fun twins => outside' twins.1⟩
    rw [mmuAccess, effect.walk u, if_neg apart]
    rfl
  have before : ∀ u frame, ¬ InWindow u → ¬ SamePage u v →
      mmuAccess layout s'.memory u = some frame → frame ∈ held ∧
        mmuAccess layout s.memory u = some frame := by
    intro u frame outside' other mapped
    rw [there u outside' other] at mapped
    exact ⟨paged.held u frame outside' mapped, mapped⟩
  refine ⟨s', frameOf page, run, ⟨machine, backed, fun u outside' => ?_,
    fun u frame outside' mapped => ?_, fun u w frame outside' outside'' mapped mapped' => ?_,
    fun u outside' unmapped => ?_, fun u frame outside' mapped => ?_⟩, supply',
    here v (SamePage.refl v)⟩
  · rw [List.forall_mem_cons]
    by_cases same : SamePage u v
    · rw [here u same]
      exact iff_of_false (Option.some_ne_none _) fun both => both.1 same
    · rw [there u outside' same, paged.mapped u outside']
      exact (and_iff_right same).symm
  · by_cases same : SamePage u v
    · rw [here u same] at mapped
      exact Or.inl (Option.some.inj mapped).symm
    · exact Or.inr (before u frame outside' same mapped).1
  · -- the new frame was not held
    by_cases same : SamePage u v <;> by_cases same' : SamePage w v
    · exact Eq.trans same (Eq.symm same')
    · rw [here u same] at mapped
      cases mapped
      exact (fresh (before w _ outside'' same' mapped').1).elim
    · rw [here w same'] at mapped'
      cases mapped'
      exact (fresh (before u _ outside' same mapped).1).elim
    · exact paged.apart u w frame outside' outside'' (before u _ outside' same mapped).2
        (before w _ outside'' same' mapped').2
  · by_cases same : SamePage u v
    · rw [here u same] at unmapped
      cases unmapped
    · rw [there u outside' same] at unmapped
      exact paged.zero u outside' unmapped
  · by_cases same : SamePage u v
    · have unmapped : mmuAccess layout s.memory u = none := (mmuAccess_samePage same).trans absent
      rw [here u same] at mapped
      cases mapped
      rw [effect.zero, paged.zero u outside' unmapped]
      rfl
    · obtain ⟨kept, mapped'⟩ := before u frame outside' same mapped
      rw [effect.kept frame kept]
      exact paged.contents u frame outside' mapped'

/-- A write to a reserved frame changes no walk. -/
theorem TablesSound.walk_write_reserved {reserved : Set ℕ}
    (sound : TablesSound layout memory reserved) (mem : frame ∈ reserved) (index : ℕ)
    (entry : PageEntry) (u : UInt32) :
    walk layout (memory.write frame index entry) u = walk layout memory u := by
  have other : layout.directory ≠ frame := fun same => sound.static.1 (same ▸ mem)
  have pde : pdeAt layout (memory.write frame index entry) u = pdeAt layout memory u :=
    Memory.write_of_ne_frame _ _ _ _ other _
  apply walk_congr pde
  intro present
  have table : (pdeAt layout memory u).address ≠ frame :=
    fun same => (sound.table_frame present).2.2 (same ▸ mem)
  unfold pteAt
  rw [pde, Memory.write_of_ne_frame _ _ _ _ table]

/-- Storing a word to a page that is mapped. -/
theorem Paged.store (paged : Paged layout held touched flat s) (outside : ¬ InWindow v)
    (mapped : mmuAccess layout s.memory v = some frame) (value : UInt32) :
    Paged layout held touched (Function.update flat (v.toNat / 4) value)
      { s with memory := s.memory.write frame (wordIndex v) (.ofWord value) } := by
  have reserved : frame ∈ answerFrames s.allocator ∪ ({nullFrame} ∪ held) :=
    Or.inr (Or.inr (paged.held v frame outside mapped))
  have sound := paged.backed.tables
  have directory : layout.directory ≠ frame := fun same => sound.static.1 (same ▸ reserved)
  have identity : layout.identity ≠ frame := fun same => sound.static.2 (same ▸ reserved)
  have walked : ∀ u, mmuAccess layout (s.memory.write frame (wordIndex v) (.ofWord value)) u =
      mmuAccess layout s.memory u := by
    intro u
    unfold mmuAccess
    rw [sound.walk_write_reserved reserved]
  refine ⟨⟨paged.machine.intact.of_same ?_ ?_, paged.machine.answers⟩,
    ⟨sound.congr ?_, paged.backed.answers, paged.backed.fresh⟩, ?_, ?_, ?_,
    fun u outside' unmapped => ?_, fun u frame' outside' mapped' => ?_⟩
  · exact fun i => Memory.write_of_ne_frame _ _ _ _ directory i
  · exact fun i => Memory.write_of_ne_frame _ _ _ _ identity i
  · exact fun i => Memory.write_of_ne_frame _ _ _ _ directory i
  · simp only [walked]
    exact paged.mapped
  · simp only [walked]
    exact paged.held
  · simp only [walked]
    exact paged.apart
  · simp only [walked] at unmapped
    have other : u.toNat / 4 ≠ v.toNat / 4 := by
      intro same
      rw [mmuAccess_samePage ((word_eq_iff u v).1 same).1, mapped] at unmapped
      cases unmapped
    rw [Function.update_of_ne other]
    exact paged.zero u outside' unmapped
  · simp only [walked] at mapped'
    refine (Memory.write_apply _ _ _ _ _ _).trans ?_
    rw [Function.update_apply]
    have place : frame' = frame ∧ wordIndex u = wordIndex v ↔ u.toNat / 4 = v.toNat / 4 := by
      rw [word_eq_iff]
      refine and_congr_left fun _ => ⟨fun same => ?_, fun same => ?_⟩
      · rw [same] at mapped'
        exact paged.apart u v frame outside' outside mapped' mapped
      · rw [mmuAccess_samePage same, mapped] at mapped'
        exact (Option.some.inj mapped').symm
    by_cases word : u.toNat / 4 = v.toNat / 4
    · rw [if_pos (place.2 word), if_pos word]
    · rw [if_neg (mt place.1 word), if_neg word]
      exact paged.contents u frame' outside' mapped'

end Access

/-! ## Runs -/

section Run

variable {η : Type} {layout : BootLayout} {held : Set ℕ} {touched : List UInt32}
  {flat : FlatMemory} {invoke : η → IsrFrame → KernelM (Interrupts η (Vmm (List UInt32))) Unit}
  {callee : IsrFrame → Cpu → Cpu} {handler : η} {cpu : Cpu} {s : X86 η (Vmm (List UInt32))}
  {access : WordAccess} {frame n : ℕ}

/-- The installed handler is `vmm_page_fault_handler`. -/
def ServesPageFaults (layout : BootLayout)
    (invoke : η → IsrFrame → KernelM (Interrupts η (Vmm (List UInt32))) Unit) (handler : η) :
    Prop :=
  ∀ frame, invoke handler frame =
    onWorld (vmmPageFaultHandler (mmuPaging layout) frame.cr2 frame.errCode)

/-- Between accesses: the registers and the flags of the code are those of `cpu`, the handler
is installed, and the memory is as `Paged` says, with `n` pages left. -/
structure Accessing (layout : BootLayout) (handler : η) (cpu : Cpu) (touched : List UInt32)
    (flat : FlatMemory) (n : ℕ) (s : X86 η (Vmm (List UInt32))) : Prop where
  registers : s.cpu.registers = cpu.registers
  eip : s.cpu.eip = cpu.eip
  eflags : s.cpu.eflags = cpu.eflags
  installed : s.kernel.dispatched .isr 14 = some handler
  paged : ∃ held, Paged layout held touched flat s.kernel.world
  supply : Supplies n s.kernel.world.allocator

/-- `vmm_init` installs the handler. -/
theorem vmmInit_installs {ω : Type} (handler : η) (kernel : Interrupts η ω) :
    ∃ kernel', vmmInit handler kernel = .ok () kernel' ∧ kernel'.world = kernel.world ∧
      kernel'.dispatched .isr 14 = some handler := by
  have inside : 14 < HandlerTable.isr.size := by decide
  have run := storeHandler_of_lt inside (some handler) kernel
  let call : TableCall η := .isrInstall 14 (some handler)
  have called := TableCall.dispatched (show call.run kernel = .ok () _ from run) .isr 14
  exact ⟨_, run, rfl, called.trans (if_pos ⟨rfl, rfl⟩)⟩

/-- An access to a page that is mapped. -/
theorem Accessing.perform (accessing : Accessing layout handler cpu touched flat n s)
    (outside : ¬ InWindow access.address)
    (mapped : mmuAccess layout s.kernel.world.memory access.address = some frame) :
    ∃ s', access.perform frame s = .ok (access.reads flat) s' ∧
      Accessing layout handler cpu touched (access.writes flat) n s' := by
  obtain ⟨held, paged⟩ := accessing.paged
  cases access with
  | load word =>
      have read : s.kernel.world.memory frame (wordIndex word) =
          .ofWord (flat (word.1.toNat / 4)) := paged.contents _ _ outside mapped
      refine ⟨s, (Machine.bind_of_ok (Machine.get_run s)).trans ?_, accessing⟩
      rw [read, PageEntry.toWord_ofWord]
      rfl
  | store word value =>
      exact ⟨_, rfl, accessing.registers, accessing.eip, accessing.eflags, accessing.installed,
        ⟨held, paged.store outside mapped value⟩, accessing.supply⟩

/-- An access to a page that is not mapped: the fault is served, and the code goes on. -/
theorem Accessing.fault (accessing : Accessing layout handler cpu touched flat (n + 2) s)
    (serves : ServesPageFaults layout invoke handler) (convention : KeepsFrame callee)
    (outside : ¬ InWindow access.address)
    (absent : mmuAccess layout s.kernel.world.memory access.address = none) :
    ∃ s' frame, serveInterrupt invoke callee exceptionPageFault.toNat (some access.errorCode)
        { s with cpu.cr2 := access.address } = .ok () s' ∧
      Accessing layout handler cpu (access.address :: touched) flat n s' ∧
      mmuAccess layout s'.kernel.world.memory access.address = some frame := by
  obtain ⟨held, paged⟩ := accessing.paged
  have notPresent : access.errorCode &&& 0x1 = 0 := by
    cases access with
    | load _ => exact UInt32.zero_and
    | store _ _ => exact (by decide : (0x2 : UInt32) &&& 0x1 = 0)
  obtain ⟨world, frame, served, paged', supply, mapped⟩ :=
    paged.fault outside absent notPresent accessing.supply
  have handled : handlerOf invoke (tableOf exceptionPageFault.toNat)
      (({ s.cpu with cr2 := access.address } : Cpu).interruptFrame exceptionPageFault.toNat
        (some access.errorCode)) s.kernel = .ok () { s.kernel with world := world } := by
    have vector : (UInt32.ofNat 14).toNat < 32 := by decide
    refine (isrHandler_of_some vector accessing.installed).trans ?_
    rw [serves]
    exact Machine.zoom_of_ok rfl served
  obtain ⟨cpu', run, resumes⟩ := serveInterrupt_returns convention (by decide) rfl
    (s := { s with cpu.cr2 := access.address }) handled
  exact ⟨_, frame, run, ⟨resumes.registers.trans accessing.registers,
    resumes.eip.trans accessing.eip, resumes.eflags.trans accessing.eflags, accessing.installed,
    ⟨_, paged'⟩, supply⟩, mapped⟩

/-- An access reads as from the flat memory and leaves it there; it faults if it is the first
one to its page. -/
theorem Accessing.step (accessing : Accessing layout handler cpu touched flat (n + 2) s)
    (serves : ServesPageFaults layout invoke handler) (convention : KeepsFrame callee)
    (outside : ¬ InWindow access.address) :
    ∃ s', access.run layout invoke callee s =
        .ok (firstTouch touched access.address, access.reads flat) s' ∧
      Accessing layout handler cpu (access.address :: touched) (access.writes flat) n s' := by
  obtain ⟨held, paged⟩ := accessing.paged
  unfold WordAccess.run
  rw [Machine.bind_of_ok (Machine.get_run s)]
  cases mapped : mmuAccess layout s.kernel.world.memory access.address with
  | some frame =>
      have touched' : firstTouch touched access.address = false := by
        rw [Bool.eq_false_iff, Ne, firstTouch_iff, ← paged.mapped _ outside, mapped]
        nofun
      have enough := accessing.supply
      have again : Accessing layout handler cpu (access.address :: touched) flat n s :=
        { accessing with paged := ⟨held, paged.touch mapped⟩, supply := enough.pred.pred }
      obtain ⟨s', run, accessing'⟩ := again.perform outside mapped
      refine ⟨s', ?_, accessing'⟩
      rw [touched']
      exact (Machine.bind_of_ok run).trans rfl
  | none =>
      obtain ⟨s₁, frame, run₁, accessing₁, mapped₁⟩ :=
        accessing.fault serves convention outside mapped
      obtain ⟨s', run, accessing'⟩ := accessing₁.perform outside mapped₁
      refine ⟨s', ?_, accessing'⟩
      rw [firstTouch_iff.2 ((paged.mapped _ outside).1 mapped)]
      refine (Machine.bind_of_ok (Machine.modify_run _ s)).trans ?_
      refine (Machine.bind_of_ok run₁).trans ?_
      rw [Machine.bind_of_ok (Machine.get_run s₁), mapped₁]
      exact (Machine.bind_of_ok run).trans rfl

/-- Accesses one after the other. -/
theorem Accessing.run (serves : ServesPageFaults layout invoke handler)
    (convention : KeepsFrame callee) :
    ∀ {accesses : List WordAccess} {touched : List UInt32} {flat : FlatMemory}
      {s : X86 η (Vmm (List UInt32))}, (∀ access ∈ accesses, ¬ InWindow access.address) →
      Accessing layout handler cpu touched flat (2 * accesses.length) s →
      ∃ s' touched' flat', accesses.mapM (WordAccess.run layout invoke callee) s =
          .ok (flatAccesses touched flat accesses) s' ∧
        Accessing layout handler cpu touched' flat' 0 s'
  | [], touched, flat, s, _, accessing => ⟨s, touched, flat, rfl, accessing⟩
  | access :: accesses, touched, flat, s, outside, accessing => by
      obtain ⟨here, later⟩ := List.forall_mem_cons.1 outside
      obtain ⟨s₁, run, accessing₁⟩ := accessing.step serves convention here
      obtain ⟨s', touched', flat', runs, accessing'⟩ :=
        Accessing.run serves convention later accessing₁
      refine ⟨s', touched', flat', ?_, accessing'⟩
      rw [List.mapM_cons, Machine.bind_of_ok run, Machine.bind_of_ok runs]
      rfl

/-- From `vmm_preinit` on, with the handler installed and pages of the first 4 MiB to answer
with, loads and stores outside the boot windows read what a flat memory of zeros would give,
each page faults at its first access and at no other, and the code goes on with its registers
and flags. -/
theorem runAccesses_flat (serves : ServesPageFaults layout invoke handler)
    (convention : KeepsFrame callee) (memory : Memory) {answers : List UInt32}
    (usable : UsableAnswers layout answers)
    (low : ∀ page ∈ answers, frameOf page < pageEntries) (accesses : List WordAccess)
    (outside : ∀ access ∈ accesses, ¬ InWindow access.address)
    (supply : Supplies (2 * accesses.length) answers)
    (start : s.kernel.world = .preinit layout memory answers) :
    ∃ s', runAccesses layout invoke callee handler accesses s =
        .ok (flatAccesses [] (fun _ => 0) accesses) s' ∧
      s'.cpu.registers = s.cpu.registers ∧ s'.cpu.eip = s.cpu.eip ∧
      s'.cpu.eflags = s.cpu.eflags := by
  obtain ⟨kernel, init, world, installed⟩ := vmmInit_installs handler s.kernel
  have called : onKernel (vmmInit handler) s = .ok () { s with kernel := kernel } :=
    Machine.zoom_of_ok rfl init
  have state : kernel.world = .preinit layout memory answers := world.trans start
  have accessing : Accessing layout handler s.cpu [] (fun _ => 0) (2 * accesses.length)
      { s with kernel := kernel } := by
    refine ⟨rfl, rfl, rfl, installed, ⟨∅, ?_⟩, ?_⟩
    · exact state ▸ Paged.preinit memory usable low
    · exact state ▸ supply
  obtain ⟨s', touched, flat, run, accessing'⟩ :=
    Accessing.run serves convention outside accessing
  refine ⟨s', ?_, accessing'.registers, accessing'.eip, accessing'.eflags⟩
  unfold runAccesses
  rw [Machine.bind_of_ok called]
  exact run

end Run

/-- One handler, for page faults. -/
def onlyPageFaults (layout : BootLayout) (_ : Unit) (frame : IsrFrame) :
    KernelM (Interrupts Unit (Vmm (List UInt32))) Unit :=
  onWorld (vmmPageFaultHandler (mmuPaging layout) frame.cr2 frame.errCode)

def faultPages : List UInt32 := [0x200000, 0x201000, 0x202000, 0x203000]

/-- Kernel code after `vmm_preinit`. -/
def preinitStart : X86 Unit (Vmm (List UInt32)) :=
  ⟨kernelCpu, .boot [] (.preinit sampleLayout zeroMemory faultPages)⟩

/-- `kernel_main` stores 100 to a page that is not mapped and loads it again. -/
def faultTest : List WordAccess :=
  [.store ⟨0x800000, by decide⟩ 100, .load ⟨0x800000, by decide⟩]

theorem faultTest_flat : ∃ s',
    runAccesses sampleLayout (onlyPageFaults sampleLayout) clobberEax () faultTest preinitStart =
      .ok [(true, none), (false, some 100)] s' ∧
      s'.cpu.registers = kernelCpu.registers ∧ s'.cpu.eip = kernelCpu.eip ∧
      s'.cpu.eflags = kernelCpu.eflags := by
  have flat : flatAccesses [] (fun _ => 0) faultTest = [(true, none), (false, some 100)] := by
    decide +kernel
  have serves : ServesPageFaults sampleLayout (onlyPageFaults sampleLayout) () := fun _ => rfl
  have pages : ∀ page ∈ faultPages, (page.toNat % 4096 = 0 ∧
      frameOf page ≠ sampleLayout.directory ∧ frameOf page ≠ sampleLayout.identity) ∧
      frameOf page < pageEntries ∧ page ≠ 0 := by
    simp only [faultPages, List.forall_mem_cons]
    exact ⟨by decide, by decide, by decide, by decide, nofun⟩
  have outside : ∀ access ∈ faultTest, ¬ InWindow access.address :=
    List.forall_mem_cons.2 ⟨by decide, List.forall_mem_singleton.2 (by decide)⟩
  have supply : Supplies (2 * faultTest.length) faultPages :=
    ⟨le_rfl, fun page mem => (pages page mem).2.2⟩
  have run := runAccesses_flat serves clobberEax_keepsFrame zeroMemory
    ⟨by decide, fun page mem => (pages page mem).1⟩ (fun page mem => (pages page mem).2.1)
    faultTest outside supply (s := preinitStart) rfl
  rw [flat] at run
  exact run

end ArkoiOs
