import ArkoiOs.Vmm.Run

/-!
# The machine itself

Kernel accesses go through the page tables that the code edits.  A call that
returns did not fault, so as long as no access to a table is sent to another
frame it did what it does with direct accesses.  `exactPaging` is the machine for
calls of which every access hits its frame: any other access faults there, so a
call that returns is the same call of the machine and with direct accesses.
-/

namespace ArkoiOs

/-- Code over page tables with kernel accesses translated by the tables. -/
def mmuPaging (layout : BootLayout) : Paging (List UInt32) :=
  ⟨layout, mmuAccess layout, scripted⟩

/-- Code over page tables with direct accesses. -/
def directPaging (layout : BootLayout) : Paging (List UInt32) :=
  ⟨layout, directAccess, scripted⟩

/-- An access through `physical_to_virtual` hits the frame or faults. -/
def HitsOrFaults (layout : BootLayout) (memory : Memory) (frame : ℕ) : Prop :=
  ∀ hit ∈ mmuAccess layout memory (physicalToVirtual (frameAddress frame)), hit = frame

/-- The direct access hits the frame, and the access by the tables does or
faults. -/
structure LeadsTo (layout : BootLayout) (memory : Memory) (virtualAddress : UInt32) (frame : ℕ) :
    Prop where
  direct : directAccess memory virtualAddress = some frame
  mmu : ∀ hit ∈ mmuAccess layout memory virtualAddress, hit = frame

section Accesses

variable {σ : Type} {layout : BootLayout} {memory memory' : Memory} {s : Vmm σ} {frame : ℕ}
  {virtualAddress : UInt32} {pointer : EntryPointer}

theorem HitsOrFaults.leadsTo (h : HitsOrFaults layout memory frame) (bound : frame < 2 ^ 20) :
    LeadsTo layout memory (physicalToVirtual (frameAddress frame)) frame :=
  ⟨directAccess_physicalToVirtual memory bound, h⟩

namespace LeadsTo

/-- Where an access leads only depends on the walk. -/
theorem congr (h : LeadsTo layout memory virtualAddress frame)
    (walked : walk layout memory' virtualAddress = walk layout memory virtualAddress) :
    LeadsTo layout memory' virtualAddress frame := by
  refine ⟨h.direct, fun hit mem => h.mmu hit ?_⟩
  unfold mmuAccess at mem
  rw [walked] at mem
  exact mem

theorem cases (h : LeadsTo layout memory virtualAddress frame) :
    mmuAccess layout memory virtualAddress = none ∨
      mmuAccess layout memory virtualAddress = some frame := by
  cases reached : mmuAccess layout memory virtualAddress with
  | none => exact Or.inl rfl
  | some hit => exact Or.inr (congrArg some (h.mmu hit reached))

theorem loadEntry (h : LeadsTo layout s.memory pointer.table frame) :
    Machine.ReturnsAs (fun entry s' => s' = s ∧ entry = s.memory frame pointer.index)
      (loadEntry (mmuAccess layout) pointer s) (loadEntry directAccess pointer s) := by
  rcases h.cases with fault | reached
  · exact .of_error (loadEntry_of_fault fault)
  · exact .of_ok (loadEntry_of_access reached) (loadEntry_of_access h.direct) ⟨rfl, rfl⟩

theorem updateEntry (h : LeadsTo layout s.memory pointer.table frame)
    (f : PageEntry → PageEntry) :
    Machine.ReturnsAs (fun _ s' => s' = ⟨s.memory.write frame pointer.index
        (f (s.memory frame pointer.index)), s.allocator⟩)
      (updateEntry (mmuAccess layout) pointer f s) (updateEntry directAccess pointer f s) := by
  rcases h.cases with fault | reached
  · exact .of_error (updateEntry_of_fault fault f)
  · exact .of_ok (updateEntry_of_access reached f) (updateEntry_of_access h.direct f) rfl

theorem zeroPage (h : LeadsTo layout s.memory virtualAddress frame) :
    Machine.ReturnsAs (fun _ s' => s' = ⟨s.memory.zeroFrame frame, s.allocator⟩)
      (zeroPage (mmuAccess layout) virtualAddress s) (zeroPage directAccess virtualAddress s) := by
  rcases h.cases with fault | reached
  · exact .of_error (zeroPage_of_fault fault)
  · exact .of_ok (zeroPage_of_access reached) (zeroPage_of_access h.direct) rfl

end LeadsTo

end Accesses

/-! ## Calls -/

/-- The pages a call about `v` makes a table: the next one, where the table is
missing. -/
def newTables {σ : Type} (layout : BootLayout) (allocator : PageAllocator σ) (s : Vmm σ)
    (v : UInt32) : Set UInt32 :=
  {page | (pdeAt layout s.memory v).present = false ∧
    ∃ after, allocator.allocPage s.allocator = .ok page after}

/-- No access to the directory, to a table or to one of the pages is sent to
another frame. -/
structure TablesDirected (layout : BootLayout) (memory : Memory) (pages : Set UInt32) : Prop where
  directory : HitsOrFaults layout memory layout.directory
  table : ∀ v, (pdeAt layout memory v).present = true →
    HitsOrFaults layout memory (pdeAt layout memory v).address
  page : ∀ page ∈ pages, HitsOrFaults layout memory (frameOf page)

section Calls

variable {σ : Type} {layout : BootLayout} {allocator : PageAllocator σ} {s : Vmm σ}
  {reserved : Set ℕ} {pages : Set UInt32} {v p flags : UInt32}

namespace TablesDirected

theorem leadsToDirectory (directed : TablesDirected layout s.memory pages)
    (allocator : PageAllocator σ) (v : UInt32) : LeadsTo layout s.memory
      (directoryEntry ⟨layout, mmuAccess layout, allocator⟩ v).table layout.directory :=
  directed.directory.leadsTo (layout.directory_lt.trans (by decide))

theorem leadsToTable (directed : TablesDirected layout s.memory pages)
    (sound : TablesSound layout s.memory reserved)
    (present : (pdeAt layout s.memory v).present = true) :
    LeadsTo layout s.memory (tableEntry layout s.memory v).table
      (pdeAt layout s.memory v).address :=
  (directed.table v present).leadsTo (sound.table_frame present).1

theorem leadsToPage (directed : TablesDirected layout s.memory pages) {page : UInt32}
    (mem : page ∈ pages) (aligned : page.toNat % 4096 = 0) :
    LeadsTo layout s.memory (physicalToVirtual page) (frameOf page) := by
  have leads := (directed.page page mem).leadsTo (frameOf_lt page)
  rw [frameAddress_frameOf aligned] at leads
  exact leads

/-- `get_or_create_pte`, and where its pointer leads. -/
theorem getOrCreatePte (directed : TablesDirected layout s.memory (newTables layout allocator s v))
    (sound : TablesSound layout s.memory reserved)
    (usable : ∀ page ∈ newTables layout allocator s v,
      page.toNat % 4096 = 0 ∧ frameOf page ∈ reserved) (flags : UInt32) :
    Machine.ReturnsAs (fun result s' => ∀ pointer, result = some pointer →
        ∃ frame, LeadsTo layout s'.memory pointer.table frame)
      (getOrCreatePte ⟨layout, mmuAccess layout, allocator⟩ v flags s)
      (getOrCreatePte ⟨layout, directAccess, allocator⟩ v flags s) := by
  unfold ArkoiOs.getOrCreatePte
  apply Machine.ReturnsAs.bind (directed.leadsToDirectory allocator v).loadEntry
  intro entry s₁ ⟨same, read⟩
  rw [same]
  have read' : entry = pdeAt layout s.memory v := read
  rw [read']
  cases pde : (pdeAt layout s.memory v).present with
  | true =>
      refine .of_ok rfl rfl fun pointer same => ?_
      rw [← EntryPointer.eq_of_orNull same]
      exact ⟨_, directed.leadsToTable sound pde⟩
  | false =>
      simp only [Bool.false_eq_true, if_false]
      cases answer : allocator.allocPage s.allocator with
      | error fault after =>
          exact .of_error (Machine.bind_of_error (onAllocator_of_error answer))
      | ok page after =>
          have mem : page ∈ newTables layout allocator s v := ⟨pde, after, answer⟩
          obtain ⟨aligned, taken⟩ := usable page mem
          have leads := directed.leadsToPage mem aligned
          rw [Machine.bind_of_ok (onAllocator_of_ok answer),
            Machine.bind_of_ok (onAllocator_of_ok answer)]
          by_cases null : page = 0
          · rw [if_pos null, if_pos null]
            exact .of_ok rfl rfl nofun
          rw [if_neg null, if_neg null]
          -- the walk is the same after the table is zeroed, and after it is created
          apply Machine.ReturnsAs.bind (LeadsTo.zeroPage (s := ⟨s.memory, after⟩) leads)
          intro _ s₂ zeroed
          rw [zeroed]
          have directory := (directed.leadsToDirectory allocator v).congr
            (sound.walk_zeroFrame taken _)
          apply Machine.ReturnsAs.bind (LeadsTo.updateEntry
            (s := ⟨s.memory.zeroFrame (frameOf page), after⟩) directory _)
          intro _ s₃ written
          rw [written]
          have table : (s.memory.zeroFrame (frameOf page)).write layout.directory (pdeIndex v)
              ((s.memory.zeroFrame (frameOf page) layout.directory (pdeIndex v)).pointTo page
                flags) = createTable layout s.memory v page flags := by
            rw [sound.zeroFrame_directory taken]
            rfl
          have created := leads.congr (sound.walk_createTable flags taken pde _)
          rw [← table] at created
          refine .of_ok rfl rfl fun pointer same => ?_
          rw [← EntryPointer.eq_of_orNull same]
          exact ⟨frameOf page, created⟩

/-- `vmm_map_page`. -/
theorem mapPage (directed : TablesDirected layout s.memory (newTables layout allocator s v))
    (sound : TablesSound layout s.memory reserved)
    (usable : ∀ page ∈ newTables layout allocator s v,
      page.toNat % 4096 = 0 ∧ frameOf page ∈ reserved) (p flags : UInt32) :
    Machine.ReturnsAs (fun _ _ => True)
      (vmmMapPage ⟨layout, mmuAccess layout, allocator⟩ v p flags s)
      (vmmMapPage ⟨layout, directAccess, allocator⟩ v p flags s) := by
  unfold vmmMapPage
  by_cases refused : v % pageSize ≠ 0 ∨ p % pageSize ≠ 0
  · rw [if_pos refused, if_pos refused]
    exact .same _
  rw [if_neg refused, if_neg refused]
  apply Machine.ReturnsAs.bind (directed.getOrCreatePte sound usable flags)
  intro result s₁ leads
  cases result with
  | none => exact .same _
  | some pointer =>
      obtain ⟨frame, leads⟩ := leads pointer rfl
      apply Machine.ReturnsAs.bind leads.loadEntry
      intro entry s₂ ⟨same, _⟩
      rw [same]
      cases entry.present with
      | true => exact .same _
      | false =>
          apply Machine.ReturnsAs.bind (leads.updateEntry _)
          intro _ s₃ _
          exact .same _

/-- `vmm_unmap_page`. -/
theorem unmapPage (directed : TablesDirected layout s.memory pages)
    (sound : TablesSound layout s.memory reserved) (v : UInt32) :
    Machine.ReturnsAs (fun _ _ => True)
      (vmmUnmapPage ⟨layout, mmuAccess layout, allocator⟩ v s)
      (vmmUnmapPage ⟨layout, directAccess, allocator⟩ v s) := by
  unfold vmmUnmapPage
  by_cases refused : v % pageSize ≠ 0
  · rw [if_pos refused, if_pos refused]
    exact .same _
  rw [if_neg refused, if_neg refused]
  apply Machine.ReturnsAs.bind (directed.leadsToDirectory allocator v).loadEntry
  intro directory s₁ ⟨same, read⟩
  rw [same]
  have read' : directory = pdeAt layout s.memory v := read
  rw [read']
  cases pde : (pdeAt layout s.memory v).present with
  | false => exact .same _
  | true =>
      apply Machine.ReturnsAs.bind (directed.leadsToTable sound pde).loadEntry
      intro entry s₂ ⟨same', _⟩
      rw [same']
      cases entry.present with
      | false => exact .same _
      | true =>
          apply Machine.ReturnsAs.bind ((directed.leadsToTable sound pde).updateEntry _)
          intro _ s₃ _
          exact .same _

end TablesDirected

/-- `vmm_page_fault_handler`, whose mapping of the page it took agrees. -/
theorem pageFault_returnsAs (cr2 errCode : UInt32)
    (mapping : ∀ page after, allocator.allocPage s.allocator = .ok page after → page ≠ 0 →
      Machine.ReturnsAs (fun _ _ => True)
        (vmmMapPage ⟨layout, mmuAccess layout, allocator⟩ (kalignDown cr2 pageSize) page
          (vmmFlagRw ||| vmmFlagPresent) ⟨s.memory, after⟩)
        (vmmMapPage ⟨layout, directAccess, allocator⟩ (kalignDown cr2 pageSize) page
          (vmmFlagRw ||| vmmFlagPresent) ⟨s.memory, after⟩)) :
    Machine.ReturnsAs (fun _ _ => True)
      (vmmPageFaultHandler ⟨layout, mmuAccess layout, allocator⟩ cr2 errCode s)
      (vmmPageFaultHandler ⟨layout, directAccess, allocator⟩ cr2 errCode s) := by
  unfold vmmPageFaultHandler
  by_cases notPresent : errCode &&& 0x1 = 0
  case neg =>
    rw [if_neg notPresent, if_neg notPresent]
    exact .same _
  rw [if_pos notPresent, if_pos notPresent]
  cases answer : allocator.allocPage s.allocator with
  | error fault after => exact .of_error (Machine.bind_of_error (onAllocator_of_error answer))
  | ok page after =>
      rw [Machine.bind_of_ok (onAllocator_of_ok answer),
        Machine.bind_of_ok (onAllocator_of_ok answer)]
      by_cases null : page = 0
      · rw [if_pos null, if_pos null]
        exact .same _
      rw [if_neg null, if_neg null]
      apply Machine.ReturnsAs.bind (mapping page after answer null)
      intro mapped s₁ _
      exact .same _

end Calls

/-- The scripted answers are among the pages that are reached. -/
theorem mem_of_newTables {layout : BootLayout} {s : Vmm (List UInt32)} {v page : UInt32}
    (h : page ∈ newTables layout scripted s v) : page ∈ s.allocator := by
  rcases s with ⟨memory, answers⟩
  obtain ⟨-, after, answer⟩ := h
  cases answers with
  | nil => cases answer
  | cons first rest =>
      cases answer
      exact List.mem_cons_self

/-! ## Calls whose accesses all hit -/

/-- The accesses of the machine that hit the frame whose `physical_to_virtual` address
they use; one that is sent to another frame faults here as well. -/
def exactAccess (layout : BootLayout) (memory : Memory) (virtualAddress : UInt32) : Option ℕ :=
  if mmuAccess layout memory virtualAddress = directAccess memory virtualAddress then
    directAccess memory virtualAddress
  else none

/-- The machine, for calls of which every access to a table hits its frame. -/
def exactPaging (layout : BootLayout) : Paging (List UInt32) :=
  ⟨layout, exactAccess layout, scripted⟩

/-- A kernel access to a page that is not mapped. -/
def IsPageFault (fault : Fault) : Prop := ∃ address, fault = .pageFault address

/-- From the state the code meets no page fault. -/
def NoPageFault {σ α : Type} (x : KernelM σ α) (s : σ) : Prop :=
  ∀ fault s', x s = .error fault s' → ¬ IsPageFault fault

section NoPageFault

variable {σ α β : Type} {x y : KernelM σ α} {f : α → KernelM σ β} {s s' : σ} {a : α}

theorem NoPageFault.first (h : NoPageFault (x >>= f) s) : NoPageFault x s :=
  fun fault s' failed => h fault s' (Machine.bind_of_error failed)

theorem NoPageFault.rest (h : NoPageFault (x >>= f) s) (run : x s = .ok a s') :
    NoPageFault (f a) s' :=
  fun fault s'' failed => h fault s'' ((Machine.bind_of_ok run).trans failed)

/-- Code that would stop at a page fault only, and meets none. -/
theorem NoPageFault.eq (h : NoPageFault x s) (stops : Machine.StopsOr IsPageFault x y) :
    x s = y s := by
  rcases stops s with ⟨fault, s', kind, failed⟩ | same
  · exact (h fault s' failed kind).elim
  · exact same

end NoPageFault

/-- Where `access` finds a frame it is the one that `access'` finds. -/
def Narrows (access access' : Memory → UInt32 → Option ℕ) : Prop :=
  ∀ memory v, access memory v = none ∨ access memory v = access' memory v

theorem exactAccess_narrows_direct (layout : BootLayout) :
    Narrows (exactAccess layout) directAccess := by
  intro memory v
  unfold exactAccess
  split
  · exact Or.inr rfl
  · exact Or.inl rfl

theorem exactAccess_narrows_mmu (layout : BootLayout) :
    Narrows (exactAccess layout) (mmuAccess layout) := by
  intro memory v
  unfold exactAccess
  split
  · rename_i hits
    exact Or.inr hits.symm
  · exact Or.inl rfl

namespace Narrows

variable {σ : Type} {layout : BootLayout} {access access' : Memory → UInt32 → Option ℕ}

theorem resolve (narrow : Narrows access access') (v : UInt32) :
    Machine.StopsOr IsPageFault (resolve (σ := σ) access v) (ArkoiOs.resolve access' v) := by
  intro s
  rcases narrow s.memory v with fault | same
  · exact Or.inl ⟨_, s, ⟨v, rfl⟩, resolve_of_fault fault⟩
  · refine Or.inr ?_
    unfold ArkoiOs.resolve
    rw [Machine.bind_of_ok (Machine.get_run s), Machine.bind_of_ok (Machine.get_run s)]
    simp only [same]

theorem loadEntry (narrow : Narrows access access') (pointer : EntryPointer) :
    Machine.StopsOr IsPageFault (loadEntry (σ := σ) access pointer)
      (ArkoiOs.loadEntry access' pointer) :=
  (narrow.resolve pointer.table).bind fun _ => .same _

theorem updateEntry (narrow : Narrows access access') (pointer : EntryPointer)
    (f : PageEntry → PageEntry) :
    Machine.StopsOr IsPageFault (updateEntry (σ := σ) access pointer f)
      (ArkoiOs.updateEntry access' pointer f) :=
  (narrow.resolve pointer.table).bind fun _ => .same _

theorem zeroPage (narrow : Narrows access access') (v : UInt32) :
    Machine.StopsOr IsPageFault (zeroPage (σ := σ) access v) (ArkoiOs.zeroPage access' v) :=
  (narrow.resolve v).bind fun _ => .same _

variable (allocator : PageAllocator σ)

theorem getOrCreatePte (narrow : Narrows access access') (v flags : UInt32) :
    Machine.StopsOr IsPageFault (getOrCreatePte ⟨layout, access, allocator⟩ v flags)
      (ArkoiOs.getOrCreatePte ⟨layout, access', allocator⟩ v flags) := by
  unfold ArkoiOs.getOrCreatePte
  refine (narrow.loadEntry _).bind fun directory => .ite (.same _) ?_
  refine (Machine.StopsOr.same _).bind fun page => .ite (.same _) ?_
  refine (narrow.zeroPage _).bind fun _ => ?_
  exact (narrow.updateEntry _ _).bind fun _ => .same _

/-- `vmm_map_page`. -/
theorem mapPage (narrow : Narrows access access') (v p flags : UInt32) :
    Machine.StopsOr IsPageFault (vmmMapPage ⟨layout, access, allocator⟩ v p flags)
      (vmmMapPage ⟨layout, access', allocator⟩ v p flags) := by
  unfold vmmMapPage
  refine .ite (.same _) ((narrow.getOrCreatePte allocator v flags).bind fun result => ?_)
  cases result with
  | none => exact .same _
  | some pointer =>
      refine (narrow.loadEntry pointer).bind fun entry => .ite (.same _) ?_
      exact (narrow.updateEntry pointer _).bind fun _ => .same _

/-- `vmm_unmap_page`. -/
theorem unmapPage (narrow : Narrows access access') (v : UInt32) :
    Machine.StopsOr IsPageFault (vmmUnmapPage ⟨layout, access, allocator⟩ v)
      (vmmUnmapPage ⟨layout, access', allocator⟩ v) := by
  unfold vmmUnmapPage
  refine .ite (.same _) ((narrow.loadEntry _).bind fun directory => .ite (.same _) ?_)
  refine (narrow.loadEntry _).bind fun entry => .ite (.same _) ?_
  exact (narrow.updateEntry _ _).bind fun _ => .same _

/-- `vmm_page_fault_handler`, which clears the page through its mapping either way. -/
theorem pageFault (narrow : Narrows access access') (cr2 errCode : UInt32) :
    Machine.StopsOr IsPageFault (vmmPageFaultHandler ⟨layout, access, allocator⟩ cr2 errCode)
      (vmmPageFaultHandler ⟨layout, access', allocator⟩ cr2 errCode) := by
  unfold vmmPageFaultHandler
  refine .ite ((Machine.StopsOr.same _).bind fun page => .ite (.same _) ?_) (.same _)
  exact (narrow.mapPage allocator _ _ _).bind fun mapped => .same _

/-- A request. -/
theorem request (narrow : Narrows access access') (r : MapRequest) :
    Machine.StopsOr IsPageFault (r.run ⟨layout, access, allocator⟩)
      (r.run ⟨layout, access', allocator⟩) := by
  cases r with
  | map v p flags => exact narrow.mapPage allocator v p flags
  | unmap v => exact narrow.unmapPage allocator v

/-- Every call. -/
theorem call (narrow : Narrows access access') (call : VmmCall) :
    Machine.StopsOr IsPageFault (call.run ⟨layout, access, allocator⟩)
      (call.run ⟨layout, access', allocator⟩) := by
  cases call with
  | request r => exact narrow.request allocator r
  | pageFault cr2 errCode =>
      exact (narrow.pageFault allocator cr2 errCode).bind fun _ => .same _

/-- A step with fewer accesses is a step. -/
theorem step (narrow : Narrows access access') {allowed : UInt32 → Prop} {s s' : Vmm σ}
    (step : VmmStep ⟨layout, access, allocator⟩ allowed s s') :
    VmmStep ⟨layout, access', allocator⟩ allowed s s' := by
  rcases step with ⟨call, permitted, result, run⟩
  exact ⟨call, permitted, result, (narrow.call allocator call).of_ok run⟩

theorem run (narrow : Narrows access access') {allowed : UInt32 → Prop} {s s' : Vmm σ}
    (run : VmmRun ⟨layout, access, allocator⟩ allowed s s') :
    VmmRun ⟨layout, access', allocator⟩ allowed s s' :=
  Relation.ReflTransGen.mono (fun _ _ => narrow.step allocator) _ _ run

end Narrows

/-- Runs of the machine in which every access to a table hits its frame. -/
abbrev ExactRun (layout : BootLayout) : Vmm (List UInt32) → Vmm (List UInt32) → Prop :=
  VmmRun (exactPaging layout) fun _ => True

section Exact

variable {layout : BootLayout} {s s' : Vmm (List UInt32)}

/-- Such a run is a run of the machine. -/
theorem ExactRun.machine (run : ExactRun layout s s') :
    VmmRun (mmuPaging layout) (fun _ => True) s s' :=
  (exactAccess_narrows_mmu layout).run scripted run

/-- The invariant holds along every such run from `vmm_preinit`. -/
theorem ExactRun.inv {memory : Memory} {answers : List UInt32}
    (usable : UsableAnswers layout answers)
    (run : ExactRun layout (Vmm.preinit layout memory answers) s) : VmmInv layout s :=
  VmmInv.run directAccess_reaching usable ((exactAccess_narrows_direct layout).run scripted run)

end Exact

end ArkoiOs
