import ArkoiOs.Vmm.Mmu

/-!
# Editing page tables through the kernel window

The code writes to a page table at its `physical_to_virtual` address, which the
kernel window maps for the frames of the first 4 MiB only.  Here kernel accesses
go through the tables themselves, and the allocator may answer with any pages of
a set: the tables are reached in every run exactly when that set has no page
from 4 MiB on and none of the static tables.
-/

namespace ArkoiOs

/-- A frame that the kernel window maps and that holds no static table. -/
def Editable (layout : BootLayout) (frame : ℕ) : Prop :=
  frame < pageEntries ∧ frame ≠ layout.directory ∧ frame ≠ layout.identity

instance (layout : BootLayout) (frame : ℕ) : Decidable (Editable layout frame) := by
  unfold Editable; infer_instance

/-- The windows translate as `vmm_preinit` set them up, and every other table
is in an editable frame. -/
structure WindowsIntact (layout : BootLayout) (memory : Memory) : Prop where
  window : ∀ i, WindowIndex i → (memory layout.directory i).present = true ∧
    (memory layout.directory i).address = layout.identity
  identity : ∀ i < pageEntries, (memory layout.identity i).present = true ∧
    (memory layout.identity i).address = i
  tables : ∀ i, ¬ WindowIndex i → (memory layout.directory i).present = true →
    Editable layout (memory layout.directory i).address

namespace WindowsIntact

variable {layout : BootLayout} {memory : Memory} {frame : ℕ} {v : UInt32}

theorem preinit (layout : BootLayout) (memory : Memory) :
    WindowsIntact layout (vmmPreinit layout memory) := by
  refine ⟨fun i inside => ?_, fun i bound => ?_, fun i outside present => ?_⟩
  · rw [vmmPreinit_directory, if_pos inside]
    exact ⟨rfl, rfl⟩
  · rw [vmmPreinit_identity layout memory bound]
    exact ⟨rfl, rfl⟩
  · rw [vmmPreinit_directory, if_neg outside] at present
    cases present

/-- The kernel window reaches every frame of the first 4 MiB. -/
theorem reached (intact : WindowsIntact layout memory) (bound : frame < pageEntries) :
    mmuAccess layout memory (physicalToVirtual (frameAddress frame)) = some frame := by
  obtain ⟨directory, index⟩ := indices_physicalToVirtual bound
  have pde := intact.window 768 (Or.inr rfl)
  have pte := intact.identity frame bound
  have walked : walk layout memory (physicalToVirtual (frameAddress frame)) =
      some (memory layout.identity frame).mapping := by
    rw [walk_eq_some_iff, pteAt, pdeAt, directory, index, pde.2]
    exact ⟨pde.1, pte.1, rfl⟩
  rw [mmuAccess, walked, Option.map_some, PageEntry.mapping_address, pte.2]

/-- The table of a page outside the windows is in an editable frame. -/
theorem table (intact : WindowsIntact layout memory) (outside : ¬ InWindow v)
    (present : (pdeAt layout memory v).present = true) :
    Editable layout (pdeAt layout memory v).address :=
  intact.tables _ outside present

/-- Only the static tables matter. -/
theorem of_same (intact : WindowsIntact layout memory) {memory' : Memory}
    (directory : ∀ i, memory' layout.directory i = memory layout.directory i)
    (identity : ∀ i, memory' layout.identity i = memory layout.identity i) :
    WindowsIntact layout memory' := by
  refine ⟨fun i inside => ?_, fun i bound => ?_, fun i outside present => ?_⟩
  · rw [directory]
    exact intact.window i inside
  · rw [identity]
    exact intact.identity i bound
  · rw [directory] at present ⊢
    exact intact.tables i outside present

/-- Zeroing an editable frame touches none of the static tables. -/
theorem zeroFrame (intact : WindowsIntact layout memory) (editable : Editable layout frame) :
    WindowsIntact layout (memory.zeroFrame frame) := by
  have directory : ∀ i, memory.zeroFrame frame layout.directory i = memory layout.directory i := by
    intro i
    rw [Memory.zeroFrame_apply, if_neg editable.2.1.symm]
  have identity : ∀ i, memory.zeroFrame frame layout.identity i = memory layout.identity i := by
    intro i
    rw [Memory.zeroFrame_apply, if_neg editable.2.2.symm]
  exact intact.of_same directory identity

/-- Neither does writing an entry of one. -/
theorem write (intact : WindowsIntact layout memory) (editable : Editable layout frame)
    (index : ℕ) (entry : PageEntry) : WindowsIntact layout (memory.write frame index entry) := by
  have directory := fun i => memory.write_of_ne_frame frame index entry editable.2.1.symm i
  have identity := fun i => memory.write_of_ne_frame frame index entry editable.2.2.symm i
  exact intact.of_same directory identity

/-- A directory entry outside the windows may point to an editable frame. -/
theorem writeDirectory (intact : WindowsIntact layout memory) {index : ℕ}
    (outside : ¬ WindowIndex index) {entry : PageEntry} (editable : Editable layout entry.address) :
    WindowsIntact layout (memory.write layout.directory index entry) := by
  have identity := fun i =>
    memory.write_of_ne_frame layout.directory index entry layout.ne.symm i
  have directory : ∀ i, memory.write layout.directory index entry layout.directory i =
      if i = index then entry else memory layout.directory i := by
    intro i
    rw [Memory.write_apply]
    simp only [true_and]
  refine ⟨fun i inside => ?_, fun i bound => ?_, fun i outside' present => ?_⟩
  · have ne : i ≠ index := fun same => outside (same ▸ inside)
    rw [directory, if_neg ne]
    exact intact.window i inside
  · rw [identity]
    exact intact.identity i bound
  · rw [directory] at present ⊢
    by_cases here : i = index
    · rw [if_pos here]
      exact editable
    · rw [if_neg here] at present ⊢
      exact intact.tables i outside' present

end WindowsIntact

/-! ## Calls through the kernel window -/

/-- The windows are intact, and the answers to come are null or editable. -/
structure MmuInv (layout : BootLayout) (s : Vmm (List UInt32)) : Prop where
  intact : WindowsIntact layout s.memory
  answers : ∀ page ∈ s.allocator, page.toNat % 4096 = 0 ∧
    (page ≠ 0 → Editable layout (frameOf page))

theorem WindowsIntact.hitsOrFaults {layout : BootLayout} {memory : Memory} {frame : ℕ}
    (intact : WindowsIntact layout memory) (bound : frame < pageEntries) :
    HitsOrFaults layout memory frame := by
  intro hit mem
  rw [intact.reached bound] at mem
  exact (Option.some.inj mem).symm

/-- No access to a table is sent to another frame. -/
theorem MmuInv.directed {layout : BootLayout} {s : Vmm (List UInt32)} (inv : MmuInv layout s)
    (v : UInt32) : TablesDirected layout s.memory (newTables layout scripted s v) where
  directory := inv.intact.hitsOrFaults layout.directory_lt
  table u present := by
    apply inv.intact.hitsOrFaults
    by_cases inside : InWindow u
    · have identity : (pdeAt layout s.memory u).address = layout.identity :=
        (inv.intact.window _ inside).2
      rw [identity]
      exact layout.identity_lt
    · exact (inv.intact.table inside present).1
  page page mem := by
    apply inv.intact.hitsOrFaults
    by_cases null : page = 0
    · rw [null]
      decide
    · exact ((inv.answers page (mem_of_newTables mem)).2 null).1

/-- A fault other than a nested page fault. -/
def NotPageFault : Fault → Prop
  | .pageFault _ => False
  | _ => True

section Calls

variable {layout : BootLayout} {s : Vmm (List UInt32)} {v p flags : UInt32}

/-- The pointer `get_or_create_pte` returns leads into the table of the page,
which is in an editable frame. -/
structure PointsIntoTable (layout : BootLayout) (memory : Memory) (v : UInt32)
    (pointer : EntryPointer) : Prop where
  present : (pdeAt layout memory v).present = true
  editable : Editable layout (pdeAt layout memory v).address
  table : pointer.table = physicalToVirtual (frameAddress (pdeAt layout memory v).address)
  index : pointer.index = pteIndex v

theorem PointsIntoTable.reached {memory : Memory} {pointer : EntryPointer}
    (points : PointsIntoTable layout memory v pointer) (intact : WindowsIntact layout memory) :
    mmuAccess layout memory pointer.table = some (pdeAt layout memory v).address := by
  rw [points.table]
  exact intact.reached points.editable.1

/-- The pointer into a table that was just created. -/
theorem PointsIntoTable.newTable {memory : Memory} {entry : PageEntry} {page : UInt32}
    (aligned : page.toNat % 4096 = 0) (editable : Editable layout (frameOf page))
    (created : pdeAt layout memory v = entry.pointTo page flags) :
    PointsIntoTable layout memory v ⟨physicalToVirtual page, pteIndex v⟩ := by
  have address : (pdeAt layout memory v).address = frameOf page := by
    rw [created]
    rfl
  have present : (pdeAt layout memory v).present = true := by
    rw [created]
    rfl
  refine ⟨present, ?_, ?_, rfl⟩
  · rw [address]
    exact editable
  · rw [address, frameAddress_frameOf aligned]

theorem MmuInv.directory_reached (inv : MmuInv layout s) (v : UInt32) :
    mmuAccess layout s.memory (directoryEntry (mmuPaging layout) v).table =
      some layout.directory :=
  inv.intact.reached layout.directory_lt

theorem MmuInv.loadDirectory (inv : MmuInv layout s) (v : UInt32) :
    loadEntry (mmuAccess layout) (directoryEntry (mmuPaging layout) v) s =
      .ok (pdeAt layout s.memory v) s :=
  loadEntry_of_access (inv.directory_reached v)

/-- The memory in which a new table was zeroed and its directory entry written. -/
theorem MmuInv.newTable (inv : MmuInv layout s) (outside : ¬ InWindow v) {page : UInt32}
    (editable : Editable layout (frameOf page)) (flags : UInt32) :
    let entry :=
      (s.memory.zeroFrame (frameOf page) layout.directory (pdeIndex v)).pointTo page flags
    let memory := (s.memory.zeroFrame (frameOf page)).write layout.directory (pdeIndex v) entry
    WindowsIntact layout memory ∧ pdeAt layout memory v = entry := by
  intro entry memory
  constructor
  · exact (inv.intact.zeroFrame editable).writeDirectory outside editable
  · exact Memory.write_self _ _ _ _

/-- `get_or_create_pte` outside the windows. -/
theorem MmuInv.getOrCreatePte (inv : MmuInv layout s) (outside : ¬ InWindow v) :
    Machine.Ends (fun result s' => MmuInv layout s' ∧
        ∀ pointer, result = some pointer → PointsIntoTable layout s'.memory v pointer)
      NotPageFault (getOrCreatePte (mmuPaging layout) v flags s) := by
  unfold ArkoiOs.getOrCreatePte
  change Machine.Ends _ _ ((loadEntry (mmuAccess layout) _ >>= _) s)
  rw [Machine.bind_of_ok (inv.loadDirectory v)]
  cases pde : (pdeAt layout s.memory v).present with
  | true =>
      refine ⟨inv, fun pointer same => ?_⟩
      rw [← EntryPointer.eq_of_orNull same]
      exact ⟨pde, inv.intact.table outside pde, rfl, rfl⟩
  | false =>
      rcases s with ⟨memory, answers⟩
      simp only [Bool.false_eq_true, if_false]
      cases answers with
      | nil =>
          rw [Machine.bind_of_error (onAllocator_of_error scripted_nil)]
          trivial
      | cons page rest =>
          obtain ⟨aligned, usable⟩ := inv.answers page List.mem_cons_self
          have later : ∀ page ∈ rest, page.toNat % 4096 = 0 ∧
              (page ≠ 0 → Editable layout (frameOf page)) :=
            fun page' mem => inv.answers page' (List.mem_cons_of_mem _ mem)
          rw [Machine.bind_of_ok (onAllocator_of_ok (scripted_cons page rest))]
          by_cases null : page = 0
          · rw [if_pos null]
            exact ⟨⟨inv.intact, later⟩, nofun⟩
          rw [if_neg null]
          -- zero the new table, then point the directory entry to it
          have editable := usable null
          have table := inv.intact.reached editable.1
          rw [frameAddress_frameOf aligned] at table
          have zeroed := inv.intact.zeroFrame editable
          have directory : mmuAccess layout (memory.zeroFrame (frameOf page))
              (directoryEntry (mmuPaging layout) v).table = some layout.directory :=
            zeroed.reached layout.directory_lt
          obtain ⟨created, entry⟩ := inv.newTable outside editable flags
          change Machine.Ends _ _ ((zeroPage (mmuAccess layout) _ >>= _) _)
          rw [Machine.bind_of_ok (zeroPage_of_access (s := ⟨memory, rest⟩) table)]
          change Machine.Ends _ _ ((updateEntry (mmuAccess layout) _ _ >>= _) _)
          rw [Machine.bind_of_ok (updateEntry_of_access
            (s := ⟨memory.zeroFrame (frameOf page), rest⟩) directory _)]
          refine ⟨⟨created, later⟩, fun pointer same => ?_⟩
          rw [← EntryPointer.eq_of_orNull same]
          exact .newTable aligned editable entry

/-- Writing the table entry of a page keeps the invariant and sets its walk. -/
theorem MmuInv.writeEntry (inv : MmuInv layout s) {pointer : EntryPointer}
    (points : PointsIntoTable layout s.memory v pointer) (entry : PageEntry) :
    let memory := s.memory.write (pdeAt layout s.memory v).address pointer.index entry
    MmuInv layout { s with memory := memory } ∧
      walk layout memory v = if entry.present then some entry.mapping else none := by
  intro memory
  have pde : pdeAt layout memory v = pdeAt layout s.memory v :=
    Memory.write_of_ne_frame _ _ _ _ points.editable.2.1.symm _
  have pte : pteAt layout memory v = entry := by
    rw [pteAt, pde, ← points.index]
    exact Memory.write_self _ _ _ _
  refine ⟨⟨inv.intact.write points.editable _ _, inv.answers⟩, ?_⟩
  rw [walk, pde, points.present, pte, if_pos rfl]

/-- `vmm_map_page` outside the windows; with true it returns a mapped page. -/
theorem MmuInv.mapPage (inv : MmuInv layout s) (outside : ¬ InWindow v) :
    Machine.Ends (fun result s' => MmuInv layout s' ∧ (result = true → walk layout s'.memory v =
        if hasFlag flags vmmFlagPresent then some (PageEntry.zero.mapTo p flags) else none))
      NotPageFault (vmmMapPage (mmuPaging layout) v p flags s) := by
  unfold vmmMapPage
  by_cases refused : v % pageSize ≠ 0 ∨ p % pageSize ≠ 0
  · rw [if_pos refused]
    exact ⟨inv, nofun⟩
  rw [if_neg refused]
  apply Machine.Ends.bind (inv.getOrCreatePte outside)
  intro result s₁ ⟨inv₁, points⟩
  cases result with
  | none => exact ⟨inv₁, nofun⟩
  | some pointer =>
      have into := points pointer rfl
      have reached := into.reached inv₁.intact
      obtain ⟨inv₂, walked⟩ := inv₁.writeEntry into
        ((s₁.memory (pdeAt layout s₁.memory v).address pointer.index).mapTo p flags)
      change Machine.Ends _ _ ((loadEntry (mmuAccess layout) pointer >>= _) s₁)
      rw [Machine.bind_of_ok (loadEntry_of_access reached)]
      cases (s₁.memory (pdeAt layout s₁.memory v).address pointer.index).present with
      | true => exact ⟨inv₁, nofun⟩
      | false =>
          change Machine.Ends _ _ ((updateEntry (mmuAccess layout) pointer _ >>= _) s₁)
          rw [Machine.bind_of_ok (updateEntry_of_access reached _)]
          exact ⟨inv₂, fun _ => walked⟩

/-- `vmm_unmap_page` outside the windows. -/
theorem MmuInv.unmapPage (inv : MmuInv layout s) (outside : ¬ InWindow v) :
    Machine.Ends (fun _ s' => MmuInv layout s') NotPageFault
      (vmmUnmapPage (mmuPaging layout) v s) := by
  unfold vmmUnmapPage
  by_cases refused : v % pageSize ≠ 0
  · rw [if_pos refused]
    exact inv
  rw [if_neg refused]
  change Machine.Ends _ _ ((loadEntry (mmuAccess layout) _ >>= _) s)
  rw [Machine.bind_of_ok (inv.loadDirectory v)]
  cases pde : (pdeAt layout s.memory v).present with
  | false => exact inv
  | true =>
      have into : PointsIntoTable layout s.memory v (tableEntry layout s.memory v) :=
        ⟨pde, inv.intact.table outside pde, rfl, rfl⟩
      have reached := into.reached inv.intact
      simp only [Bool.not_true, Bool.false_eq_true, if_false]
      change Machine.Ends _ _
        ((loadEntry (mmuAccess layout) (tableEntry layout s.memory v) >>= _) s)
      rw [Machine.bind_of_ok (loadEntry_of_access reached)]
      cases (s.memory (pdeAt layout s.memory v).address
        (tableEntry layout s.memory v).index).present with
      | false => exact inv
      | true =>
          change Machine.Ends _ _
            ((updateEntry (mmuAccess layout) (tableEntry layout s.memory v) _ >>= _) s)
          rw [Machine.bind_of_ok (updateEntry_of_access reached _)]
          exact (inv.writeEntry into PageEntry.zero).1

/-- The page of an address outside the windows. -/
theorem kalignDown_outside {address : UInt32} (outside : ¬ InWindow address) :
    ¬ InWindow (kalignDown address pageSize) := by
  have page : pdeIndex (kalignDown address pageSize) = pdeIndex address := by
    rw [pdeIndex_eq, pdeIndex_eq, kalignDown_toNat]
    omega
  unfold InWindow
  rw [page]
  exact outside

/-- `vmm_page_fault_handler` outside the windows. -/
theorem MmuInv.pageFault {cr2 errCode : UInt32} (inv : MmuInv layout s)
    (outside : ¬ InWindow cr2) :
    Machine.Ends (fun _ s' => MmuInv layout s') NotPageFault
      (vmmPageFaultHandler (mmuPaging layout) cr2 errCode s) := by
  unfold vmmPageFaultHandler
  by_cases notPresent : errCode &&& 0x1 = 0
  case neg =>
    rw [if_neg notPresent]
    trivial
  rw [if_pos notPresent]
  rcases s with ⟨memory, answers⟩
  cases answers with
  | nil =>
      rw [Machine.bind_of_error (onAllocator_of_error scripted_nil)]
      trivial
  | cons page rest =>
      have usable := (inv.answers page List.mem_cons_self).2
      have later : MmuInv layout ⟨memory, rest⟩ :=
        ⟨inv.intact, fun page' mem => inv.answers page' (List.mem_cons_of_mem _ mem)⟩
      rw [Machine.bind_of_ok (onAllocator_of_ok (scripted_cons page rest))]
      by_cases null : page = 0
      · rw [if_pos null]
        trivial
      rw [if_neg null]
      apply Machine.Ends.bind (later.mapPage (kalignDown_outside outside))
      intro mapped s₁ ⟨inv₁, walked⟩
      cases mapped with
      | false => trivial
      | true =>
          have reached : mmuAccess layout s₁.memory (kalignDown cr2 pageSize) =
              some (frameOf page) := by
            rw [mmuAccess, walked rfl]
            rfl
          change Machine.Ends _ _ (zeroPage (mmuAccess layout) _ s₁)
          rw [zeroPage_of_access reached]
          exact ⟨inv₁.intact.zeroFrame (usable null), inv₁.answers⟩

/-- Every call outside the windows. -/
theorem MmuInv.call (inv : MmuInv layout s) {call : VmmCall} (outside : ¬ InWindow call.address) :
    Machine.Ends (fun _ s' => MmuInv layout s') NotPageFault
      (call.run (mmuPaging layout) s) := by
  cases call with
  | request r =>
      cases r with
      | map v p flags => exact (inv.mapPage outside).mono fun _ _ post => post.1
      | unmap v => exact inv.unmapPage outside
  | pageFault cr2 errCode => exact (inv.pageFault outside).bind fun _ _ post => post

end Calls

/-! ## Every run -/

/-- The tables are edited through mappings that reach them: the tables in use,
the pages the allocator is still going to answer with, and what
`get_or_create_pte` returns with any of these answers; no call faults. -/
structure TablesReached (layout : BootLayout) (s : Vmm (List UInt32)) : Prop where
  inUse : ∀ v, ¬ InWindow v → (pdeAt layout s.memory v).present = true →
    mmuAccess layout s.memory (physicalToVirtual (frameAddress (pdeAt layout s.memory v).address)) =
      some (pdeAt layout s.memory v).address
  next : ∀ page ∈ s.allocator, page ≠ 0 →
    mmuAccess layout s.memory (physicalToVirtual page) = some (frameOf page)
  pointed : ∀ v flags answers pointer s', ¬ InWindow v → answers <:+ s.allocator →
    getOrCreatePte (mmuPaging layout) v flags ⟨s.memory, answers⟩ = .ok (some pointer) s' →
    mmuAccess layout s'.memory pointer.table = some (pdeAt layout s'.memory v).address ∧
      pointer.index = pteIndex v
  noFault : ∀ call : VmmCall, ¬ InWindow call.address → ∀ address s',
    call.run (mmuPaging layout) s ≠ .error (.pageFault address) s'

/-- With answers from `pages`, the tables are reached in every run outside the
windows. -/
def RunsReachTables (layout : BootLayout) (pages : Set UInt32) : Prop :=
  ∀ memory answers s, (∀ page ∈ answers, page ∈ pages) →
    VmmRun (mmuPaging layout) (fun v => ¬ InWindow v) (Vmm.preinit layout memory answers) s →
    TablesReached layout s

section Runs

variable {layout : BootLayout} {s s' : Vmm (List UInt32)}

theorem MmuInv.step (inv : MmuInv layout s)
    (step : VmmStep (mmuPaging layout) (fun v => ¬ InWindow v) s s') : MmuInv layout s' := by
  rcases step with ⟨call, outside, result, run⟩
  exact (inv.call outside).of_ok run

/-- While the invariant holds the tables are reached. -/
theorem MmuInv.tablesReached (inv : MmuInv layout s) : TablesReached layout s where
  inUse v outside present := inv.intact.reached (inv.intact.table outside present).1
  next page mem nonzero := by
    obtain ⟨aligned, usable⟩ := inv.answers page mem
    have reached := inv.intact.reached (usable nonzero).1
    rw [frameAddress_frameOf aligned] at reached
    exact reached
  pointed v flags answers pointer s' outside left run := by
    have inv' : MmuInv layout ⟨s.memory, answers⟩ :=
      ⟨inv.intact, fun page mem => inv.answers page (left.subset mem)⟩
    obtain ⟨inv'', points⟩ := (inv'.getOrCreatePte outside).of_ok run
    have into := points pointer rfl
    exact ⟨into.reached inv''.intact, into.index⟩
  noFault call outside address s' run := (inv.call outside).of_error run

/-- A page that the kernel window does not map is not reached right after
`vmm_preinit`. -/
theorem preinit_reached (memory : Memory) {frame : ℕ}
    (reached : mmuAccess layout (vmmPreinit layout memory)
      (physicalToVirtual (frameAddress frame)) = some frame) : frame < pageEntries := by
  obtain ⟨entry, walked, address⟩ := Option.map_eq_some_iff.1 reached
  obtain ⟨pde, -, pte⟩ := walk_eq_some_iff.1 walked
  by_cases inside : WindowIndex (pdeIndex (physicalToVirtual (frameAddress frame)))
  case neg =>
    rw [pdeAt, vmmPreinit_directory, if_neg inside] at pde
    cases pde
  -- inside a window the identity table maps to one of its own indices
  have index : pteIndex (physicalToVirtual (frameAddress frame)) < pageEntries := by
    rw [pteIndex_eq]
    exact Nat.mod_lt _ (by omega)
  have identity : pteAt layout (vmmPreinit layout memory)
      (physicalToVirtual (frameAddress frame)) =
        windowEntry (pteIndex (physicalToVirtual (frameAddress frame))) := by
    rw [pteAt, pdeAt, vmmPreinit_directory, if_pos inside]
    exact vmmPreinit_identity layout memory index
  have place : frame = pteIndex (physicalToVirtual (frameAddress frame)) := by
    rw [identity, mapping_windowEntry] at pte
    exact address.symm.trans (congrArg PageEntry.address pte).symm
  rw [place]
  exact index

/-- Zeroing a static table takes the directory out of the kernel window. -/
theorem WindowsIntact.directory_lost {memory : Memory} (intact : WindowsIntact layout memory)
    {frame : ℕ} (static : frame = layout.directory ∨ frame = layout.identity) :
    mmuAccess layout (memory.zeroFrame frame)
      (physicalToVirtual (frameAddress layout.directory)) = none := by
  obtain ⟨directory, index⟩ := indices_physicalToVirtual layout.directory_lt
  have unmapped : walk layout (memory.zeroFrame frame)
      (physicalToVirtual (frameAddress layout.directory)) = none := by
    rw [walk_eq_none_iff, pteAt, pdeAt, directory]
    intro present
    rcases static with rfl | rfl
    · rw [Memory.zeroFrame_apply, if_pos rfl] at present
      cases present
    · rw [Memory.zeroFrame_apply memory _ layout.directory, if_neg layout.ne,
        (intact.window 768 (Or.inr rfl)).2, Memory.zeroFrame_apply, if_pos rfl]
      rfl
  rw [mmuAccess, unmapped]
  rfl

/-- Zeroing a new table that takes the directory out of the kernel window ends in
a nested page fault. -/
theorem getOrCreatePte_of_lost {memory : Memory} {v page : UInt32} {frame : ℕ} (flags : UInt32)
    (rest : List UInt32) (intact : WindowsIntact layout memory)
    (absent : (pdeAt layout memory v).present = false) (nonzero : page ≠ 0)
    (table : mmuAccess layout memory (physicalToVirtual page) = some frame)
    (lost : mmuAccess layout (memory.zeroFrame frame)
      (directoryEntry (mmuPaging layout) v).table = none) :
    getOrCreatePte (mmuPaging layout) v flags ⟨memory, page :: rest⟩ =
      .error (.pageFault (directoryEntry (mmuPaging layout) v).table)
        ⟨memory.zeroFrame frame, rest⟩ := by
  have directory : mmuAccess layout memory (directoryEntry (mmuPaging layout) v).table =
      some layout.directory := intact.reached layout.directory_lt
  have load : loadEntry (mmuAccess layout) (directoryEntry (mmuPaging layout) v)
      (⟨memory, page :: rest⟩ : Vmm (List UInt32)) = .ok (pdeAt layout memory v) _ :=
    loadEntry_of_access directory
  unfold getOrCreatePte
  change (loadEntry (mmuAccess layout) _ >>= _) _ = _
  rw [Machine.bind_of_ok load]
  simp only [absent, Bool.false_eq_true, if_false]
  rw [Machine.bind_of_ok (onAllocator_of_ok (scripted_cons page rest)), if_neg nonzero]
  change (zeroPage (mmuAccess layout) _ >>= _) _ = _
  rw [Machine.bind_of_ok (zeroPage_of_access (s := ⟨memory, rest⟩) table)]
  change (updateEntry (mmuAccess layout) _ _ >>= _) _ = _
  rw [Machine.bind_of_error (updateEntry_of_fault
    (s := ⟨memory.zeroFrame frame, rest⟩) lost _)]

/-- A first table in a frame of the static tables ends in a nested page fault. -/
theorem preinit_static_faults (memory : Memory) {page : UInt32} (nonzero : page ≠ 0)
    (aligned : page.toNat % 4096 = 0)
    (static : frameOf page = layout.directory ∨ frameOf page = layout.identity) :
    ∃ address s', vmmMapPage (mmuPaging layout) 0x400000 0 0
      (Vmm.preinit layout memory [page]) = .error (.pageFault address) s' := by
  have intact := WindowsIntact.preinit layout memory
  have bound : frameOf page < pageEntries := by
    rcases static with same | same
    · exact same ▸ layout.directory_lt
    · exact same ▸ layout.identity_lt
  have table := intact.reached bound
  rw [frameAddress_frameOf aligned] at table
  have index : pdeIndex 0x400000 = 1 := by decide
  have absent : (pdeAt layout (vmmPreinit layout memory) 0x400000).present = false := by
    rw [pdeAt, index, vmmPreinit_directory, if_neg (by decide)]
    rfl
  have lost : mmuAccess layout ((vmmPreinit layout memory).zeroFrame (frameOf page))
      (directoryEntry (mmuPaging layout) 0x400000).table = none := intact.directory_lost static
  have fault := getOrCreatePte_of_lost 0 [] intact absent nonzero table lost
  exact ⟨_, _, vmmMapPage_of_error ⟨by decide, by decide⟩ fault⟩

/-- The tables are reached in every run outside the windows if and only if no
page the allocator may answer with, other than page 0, lies outside the first
4 MiB or in one of the static tables. -/
theorem runsReachTables_iff (layout : BootLayout) {pages : Set UInt32}
    (aligned : ∀ page ∈ pages, page.toNat % 4096 = 0) :
    RunsReachTables layout pages ↔
      ∀ page ∈ pages, page ≠ 0 → Editable layout (frameOf page) := by
  constructor
  · intro reach page mem nonzero
    have answers : ∀ page' ∈ [page], page' ∈ pages := by
      intro page' mem'
      rw [List.mem_singleton.1 mem']
      exact mem
    have reached := reach zeroMemory [page] _ answers .refl
    have self := reached.next page List.mem_cons_self nonzero
    rw [← frameAddress_frameOf (aligned page mem)] at self
    have apart : ¬ (frameOf page = layout.directory ∨ frameOf page = layout.identity) := by
      intro static
      obtain ⟨address, s', fault⟩ :=
        preinit_static_faults zeroMemory nonzero (aligned page mem) static
      exact reached.noFault (.request (.map 0x400000 0 0)) (by decide) address s' fault
    have back : frameOf (frameAddress (frameOf page)) = frameOf page := by
      rw [frameAddress_frameOf (aligned page mem)]
    rw [back] at self
    exact ⟨preinit_reached zeroMemory self, not_or.1 apart⟩
  · intro editable memory answers s allowed run
    have start : MmuInv layout (Vmm.preinit layout memory answers) :=
      ⟨.preinit layout memory, fun page mem =>
        ⟨aligned page (allowed page mem), editable page (allowed page mem)⟩⟩
    have inv := run.invariant_of_step start fun _ _ inv step => inv.step step
    exact inv.tablesReached

end Runs

theorem sample_runsReachTables : RunsReachTables sampleLayout {0x200000} := by
  apply (runsReachTables_iff sampleLayout _).2
  · intro page mem _
    rw [mem]
    exact ⟨by decide, by decide, by decide⟩
  · intro page mem
    rw [mem]
    decide

/-- With a page at 8 MiB as its first table, mapping 4 MiB ends in a nested page
fault.  The address of a page at 1 GiB wraps to 0, which is mapped to frame 0. -/
theorem highTable_not_reached :
    Machine.fault? (vmmMapPage (mmuPaging sampleLayout) 0x400000 0x5000 vmmFlagPresent
        (Vmm.preinit sampleLayout zeroMemory [0x800000])) = some (.pageFault 0xC0800000) ∧
      mmuAccess sampleLayout (vmmPreinit sampleLayout zeroMemory) (physicalToVirtual 0x40000000) =
        some 0 ∧
      ¬ RunsReachTables sampleLayout {0x800000} ∧ ¬ RunsReachTables sampleLayout {0x40000000} := by
  have fault : Machine.fault? (vmmMapPage (mmuPaging sampleLayout) 0x400000 0x5000 vmmFlagPresent
      (Vmm.preinit sampleLayout zeroMemory [0x800000])) = some (.pageFault 0xC0800000) := by
    decide +kernel
  have wrapped : mmuAccess sampleLayout (vmmPreinit sampleLayout zeroMemory)
      (physicalToVirtual 0x40000000) = some 0 := by decide +kernel
  refine ⟨fault, wrapped, fun reach => ?_, fun reach => ?_⟩
  · have reached := reach zeroMemory [0x800000] _ (fun _ mem => List.mem_singleton.1 mem) .refl
    exact reached.noFault (.request (.map 0x400000 0x5000 vmmFlagPresent)) (by decide) _ _
      (Machine.eq_error_of_fault fault)
  · have reached := reach zeroMemory [0x40000000] _ (fun _ mem => List.mem_singleton.1 mem) .refl
    have self := reached.next 0x40000000 List.mem_cons_self (by decide)
    have clash := wrapped.symm.trans self
    revert clash
    decide

end ArkoiOs
