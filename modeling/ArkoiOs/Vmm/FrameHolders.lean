import ArkoiOs.Vmm.DemandPaging
import ArkoiOs.Vmm.TableAccess

/-!
# A frame has one holder

What a frame can be used for, read off the page tables and the ledger: a static
table, another table, a page that faulted, or another live allocation.  From
`OwnersInv` it follows that no frame is used for two things.
-/

namespace ArkoiOs

/-! ## Holders of frames -/

/-- What a frame can be used for. -/
inductive FrameHolder
  | directory
  | identity
  | table (index : ℕ)
  | page (number : ℕ)
  | allocation (address : UInt32) (order : ℕ)

/-- The frame behind a page that faulted and is still mapped. -/
def pageFrames (layout : BootLayout) (s : Vmm Pmm) (o : Owners) (number : ℕ) : Set ℕ :=
  {frame | (∃ block, (number, block) ∈ o.demand) ∧
    ∃ v : UInt32, v.toNat / 4096 = number ∧ mmuAccess layout s.memory v = some frame}

/-- The frames of a holder: the two static tables, the table behind a directory
entry outside the windows, the frame of a page that faulted, or a live
allocation other than the pages behind those. -/
def FrameHolder.frames (layout : BootLayout) (s : Vmm Pmm) (o : Owners) : FrameHolder → Set ℕ
  | directory => {layout.directory}
  | identity => {layout.identity}
  | table index => {frame | ∃ v, ¬ InWindow v ∧ pdeIndex v = index ∧
      (pdeAt layout s.memory v).present = true ∧ (pdeAt layout s.memory v).address = frame}
  | page number => pageFrames layout s o number
  | allocation address order => {frame | (address, order) ∈ s.allocator.allocations o.ledger ∧
      ¬ (order = 0 ∧ (frameOf address ∈ tableFrames layout s.memory ∨
        ∃ number, frameOf address ∈ pageFrames layout s o number)) ∧
      frameOf address ≤ frame ∧ frame < frameOf address + 2 ^ order}

namespace OwnersInv

variable {layout : BootLayout} {s : Vmm Pmm} {o : Owners} {frame index number : ℕ}
  {holder : FrameHolder}

/-- The frame of a page that faulted is the frame of its block. -/
theorem exists_block_of_page (inv : OwnersInv layout s o)
    (mem : frame ∈ pageFrames layout s o number) :
    ∃ block, (number, block) ∈ o.demand ∧ frameOf block = frame := by
  rcases mem with ⟨⟨block, claimed⟩, v, here, hit⟩
  obtain ⟨-, entry, found, -, address⟩ := (inv.demand _ claimed).2.2 v here
  rw [mmuAccess, found] at hit
  injection hit with same
  exact ⟨block, claimed, address.symm.trans same⟩

/-- A table or a page that faulted has a live block of one page, which no caller
holds. -/
theorem exists_block (inv : OwnersInv layout s o)
    (mem : frame ∈ tableFrames layout s.memory ∨ ∃ number, frame ∈ pageFrames layout s o number) :
    ∃ block, Kept s o block ∧ frameOf block = frame := by
  rcases mem with mem | ⟨number, mem⟩
  · exact inv.table frame mem
  · obtain ⟨block, claimed, same⟩ := inv.exists_block_of_page mem
    exact ⟨block, (inv.demand _ claimed).1, same⟩

theorem frame_unique (inv : OwnersInv layout s o) {a b : UInt32 × ℕ}
    (ha : a ∈ s.allocator.allocations o.ledger) (hb : b ∈ s.allocator.allocations o.ledger)
    (insideA : frameOf a.1 ≤ frame ∧ frame < frameOf a.1 + 2 ^ a.2)
    (insideB : frameOf b.1 ≤ frame ∧ frame < frameOf b.1 + 2 ^ b.2) : a = b := by
  by_contra ne
  have alignedA := (inv.pmm.frameOf_managed ha).1
  have alignedB := (inv.pmm.frameOf_managed hb).1
  rw [frameOf_eq] at insideA insideB
  rcases inv.pmm.allocations_apart ha hb ne with apart | apart <;> omega

/-- Tables, pages that faulted and allocations are in managed frames. -/
theorem managed_of_holder (inv : OwnersInv layout s o) (mem : frame ∈ holder.frames layout s o) :
    holder = .directory ∨ holder = .identity ∨ frame ∈ s.allocator.managedFrames := by
  have ofBlock : (frame ∈ tableFrames layout s.memory ∨
      ∃ number, frame ∈ pageFrames layout s o number) → frame ∈ s.allocator.managedFrames := by
    intro used
    obtain ⟨block, kept, same⟩ := inv.exists_block used
    exact same ▸ (inv.pmm.frameOf_managed kept.live).2
  cases holder with
  | directory => exact Or.inl rfl
  | identity => exact Or.inr (Or.inl rfl)
  | table index =>
      obtain ⟨v, outside, -, present, address⟩ := mem
      exact Or.inr (Or.inr (ofBlock (Or.inl ⟨v, outside, present, address⟩)))
  | page number => exact Or.inr (Or.inr (ofBlock (Or.inr ⟨number, mem⟩)))
  | allocation address order =>
      obtain ⟨live, -, lower, upper⟩ := mem
      obtain ⟨region, hr, first, last, aligned⟩ := inv.pmm.allocation_within live
      rw [frameOf_eq] at lower upper
      simp only at first last aligned
      exact Or.inr (Or.inr ⟨region, hr, by omega, by omega⟩)

theorem holder_of_table (inv : OwnersInv layout s o)
    (mem : frame ∈ (FrameHolder.table index).frames layout s o)
    (mem' : frame ∈ holder.frames layout s o) : holder = .table index := by
  obtain ⟨v, outside, rfl, present, address⟩ := mem
  have table : frame ∈ tableFrames layout s.memory := ⟨v, outside, present, address⟩
  obtain ⟨-, directory, identity, -⟩ := inv.sound.table _ outside present
  cases holder with
  | directory => exact (directory (address.trans mem')).elim
  | identity => exact (identity (address.trans mem')).elim
  | table index' =>
      obtain ⟨u, outside', rfl, present', address'⟩ := mem'
      rw [inv.sound.apart _ _ outside' outside present' present (address'.trans address.symm)]
  | page number =>
      obtain ⟨block, claimed, rfl⟩ := inv.exists_block_of_page mem'
      exact ((inv.demand _ claimed).2.1 table).elim
  | allocation base order =>
      obtain ⟨live, other, within⟩ := mem'
      obtain ⟨block, kept, rfl⟩ := inv.exists_block (Or.inl table)
      have same := inv.frame_unique live kept.live within ⟨le_rfl, Nat.lt_succ_self _⟩
      injection same with same order
      subst same
      exact (other ⟨order, Or.inl table⟩).elim

theorem holder_of_page (inv : OwnersInv layout s o)
    (mem : frame ∈ (FrameHolder.page number).frames layout s o)
    (mem' : frame ∈ holder.frames layout s o) : holder = .page number := by
  obtain ⟨block, claimed, rfl⟩ := inv.exists_block_of_page mem
  have managed := (inv.pmm.frameOf_managed (inv.demand _ claimed).1.live).2
  cases holder with
  | directory => exact (inv.static.1 (Set.mem_singleton_iff.1 mem' ▸ managed)).elim
  | identity => exact (inv.static.2 (Set.mem_singleton_iff.1 mem' ▸ managed)).elim
  | table index => exact (inv.holder_of_table mem' mem).symm
  | page number' =>
      obtain ⟨block', claimed', same⟩ := inv.exists_block_of_page mem'
      have eq := inv.pmm.live_ext (inv.demand _ claimed').1.live.1
        (inv.demand _ claimed).1.live.1 same
      have pages := inv.distinct _ claimed' _ claimed eq
      injection pages with pages
      rw [pages]
  | allocation base order =>
      obtain ⟨live, other, within⟩ := mem'
      have same := inv.frame_unique live (inv.demand _ claimed).1.live within
        ⟨le_rfl, Nat.lt_succ_self _⟩
      injection same with same order
      exact (other ⟨order, Or.inr ⟨number, same ▸ mem⟩⟩).elim

/-- A frame has one holder. -/
theorem holder_unique (inv : OwnersInv layout s o) {holder' : FrameHolder}
    (mem : frame ∈ holder.frames layout s o) (mem' : frame ∈ holder'.frames layout s o) :
    holder' = holder := by
  cases holder with
  | directory =>
      have same : frame = layout.directory := mem
      subst same
      rcases inv.managed_of_holder mem' with rfl | rfl | managed
      · rfl
      · exact (layout.ne mem').elim
      · exact (inv.static.1 managed).elim
  | identity =>
      have same : frame = layout.identity := mem
      subst same
      rcases inv.managed_of_holder mem' with rfl | rfl | managed
      · exact (layout.ne mem'.symm).elim
      · rfl
      · exact (inv.static.2 managed).elim
  | table index => exact inv.holder_of_table mem mem'
  | page number => exact inv.holder_of_page mem mem'
  | allocation base order =>
      cases holder' with
      | directory =>
          rcases inv.managed_of_holder mem with same | same | managed
          · cases same
          · cases same
          · exact (inv.static.1 (Set.mem_singleton_iff.1 mem' ▸ managed)).elim
      | identity =>
          rcases inv.managed_of_holder mem with same | same | managed
          · cases same
          · cases same
          · exact (inv.static.2 (Set.mem_singleton_iff.1 mem' ▸ managed)).elim
      | table index => exact (inv.holder_of_table mem' mem).symm
      | page number => exact (inv.holder_of_page mem' mem).symm
      | allocation base' order' =>
          have same := inv.frame_unique mem.1 mem'.1 mem.2.2 mem'.2.2
          injection same with same orders
          rw [same, orders]

/-- A frame of a block that a caller holds is no table and is behind no page that
faulted. -/
theorem unused_of_caller (inv : OwnersInv layout s o) {block : UInt32 × ℕ}
    (live : block ∈ s.allocator.allocations o.ledger) (owned : block.1 ∈ o.caller)
    (within : frameOf block.1 ≤ frame ∧ frame < frameOf block.1 + 2 ^ block.2) :
    ¬ (frame ∈ tableFrames layout s.memory ∨
      ∃ number, frame ∈ pageFrames layout s o number) := by
  intro used
  obtain ⟨page, kept, rfl⟩ := inv.exists_block used
  have same := inv.frame_unique live kept.live within ⟨le_rfl, Nat.lt_succ_self _⟩
  subst same
  exact kept.unowned owned

end OwnersInv

/-- No two holders share a frame, each table and each page that faulted is a
live allocation of one page, those pages are mapped, and no block that a caller
holds has a frame that is a table or behind such a page. -/
structure FramesApart (layout : BootLayout) (s : Vmm Pmm) (o : Owners) : Prop where
  disjoint : ∀ holder holder' : FrameHolder, holder ≠ holder' →
    holder.frames layout s o ∩ holder'.frames layout s o = ∅
  live : ∀ frame, frame ∈ tableFrames layout s.memory ∨
      (∃ number, frame ∈ pageFrames layout s o number) →
    ∃ block, (block, 0) ∈ s.allocator.allocations o.ledger ∧ frameOf block = frame
  backed : ∀ d ∈ o.demand, Backs layout s.memory d
  caller : ∀ block ∈ s.allocator.allocations o.ledger, block.1 ∈ o.caller →
    ∀ frame, frameOf block.1 ≤ frame → frame < frameOf block.1 + 2 ^ block.2 →
      frame ∉ tableFrames layout s.memory ∧ ∀ number, frame ∉ pageFrames layout s o number

theorem OwnersInv.framesApart {layout : BootLayout} {s : Vmm Pmm} {o : Owners}
    (inv : OwnersInv layout s o) : FramesApart layout s o where
  disjoint holder holder' ne := by
    apply Set.eq_empty_of_forall_notMem
    intro frame both
    exact ne (inv.holder_unique both.2 both.1)
  live _ mem := by
    obtain ⟨block, kept, same⟩ := inv.exists_block mem
    exact ⟨block, kept.live, same⟩
  backed d mem := (inv.demand d mem).2.2
  caller block live owned frame lower upper := by
    have unused := inv.unused_of_caller live owned ⟨lower, upper⟩
    exact ⟨fun mem => unused (Or.inl mem), fun number mem => unused (Or.inr ⟨number, mem⟩)⟩

/-- In every state of a run no two holders share a frame, and a page fault that
is served then leaves its page mapped, present and writable, to a frame of zero
bytes. -/
theorem demandPaging_shares_no_frame {layout : BootLayout} {bootInfo : BootInfo} {emm : Emm}
    {pmm : Pmm} (memory : Memory) (init : pmmInit bootInfo (Pmm.boot emm) = .ok () pmm)
    (disjoint : pmm.Disjoint) (skips : pmm.SkipsPageZero)
    (static : layout.directory ∉ pmm.managedFrames ∧ layout.identity ∉ pmm.managedFrames)
    {s : Vmm Pmm} {o : Owners}
    (run : PagingRun layout (⟨vmmPreinit layout memory, pmm⟩, Owners.none) (s, o)) :
    FramesApart layout s o ∧
      ∀ cr2 errCode s', ¬ InWindow cr2 → FaultDirected layout s cr2 →
        vmmPageFaultHandler (pmmPaging layout) cr2 errCode s = .ok () s' →
        MapsZeroPage layout s'.memory cr2 := by
  have inv : OwnersInv layout s o :=
    run.invariant_of_step (P := fun x => OwnersInv layout x.1 x.2)
      (.init memory init disjoint skips static) fun _ _ inv step => inv.step step
  exact ⟨inv.framesApart, fun cr2 errCode s' outside directed served =>
    (inv.serve outside directed served).2⟩

/-- A machine with four pages of RAM below 4 MiB. -/
def lowRam : BootInfo := .ofRam [⟨0x200000, 0x4000⟩]

def lowRamBooted : Pmm := Machine.final (pmmInit lowRam (Pmm.boot kernelHeap))

theorem lowRam_pmmInit : pmmInit lowRam (Pmm.boot kernelHeap) = .ok () lowRamBooted :=
  Machine.eq_ok_of_value (by decide +kernel)

theorem lowRam_ranges : lowRamBooted.ranges = [(0x200000, 0x204000)] := by
  decide +kernel

theorem lowRam_skipsPageZero : lowRamBooted.SkipsPageZero := by
  intro region mem
  have listed : (region.start, region.end_) ∈ lowRamBooted.ranges := List.mem_map_of_mem mem
  rw [lowRam_ranges, List.mem_singleton] at listed
  injection listed with start
  rw [start]
  decide

/-- The managed frames are those from 0x200 to 0x203. -/
theorem lowRam_managed {frame : ℕ} (mem : frame ∈ lowRamBooted.managedFrames) :
    0x200 ≤ frame ∧ frame < 0x204 := by
  obtain ⟨region, hr, lower, upper⟩ := mem
  have listed : (region.start, region.end_) ∈ lowRamBooted.ranges := List.mem_map_of_mem hr
  rw [lowRam_ranges, List.mem_singleton] at listed
  injection listed with start end_
  rw [start] at lower
  rw [end_] at upper
  change 0x200000 ≤ _ at lower
  change _ ≤ 0x204000 at upper
  omega

theorem lowRam_inv : OwnersInv sampleLayout ⟨vmmPreinit sampleLayout zeroMemory, lowRamBooted⟩
    Owners.none := by
  refine .init zeroMemory lowRam_pmmInit (by decide +kernel) lowRam_skipsPageZero ⟨?_, ?_⟩
  · exact fun mem => absurd (lowRam_managed mem).1 (by decide)
  · exact fun mem => absurd (lowRam_managed mem).1 (by decide)

/-- The kernel window reaches the tables and the pages. -/
theorem lowRam_faultDirected (cr2 : UInt32) :
    FaultDirected sampleLayout ⟨vmmPreinit sampleLayout zeroMemory, lowRamBooted⟩ cr2 := by
  intro page pmm' answer
  have intact := WindowsIntact.preinit sampleLayout zeroMemory
  obtain ⟨taken, -⟩ := lowRam_inv.take answer
  have ranges := (lowRam_inv.pmm.allocPage answer).ranges
  refine ⟨intact.hitsOrFaults sampleLayout.directory_lt, fun v present => ?_, fun table mem => ?_⟩
  · apply intact.hitsOrFaults
    by_cases inside : InWindow v
    · have identity := (intact.window _ inside).2
      unfold pdeAt
      rw [identity]
      exact sampleLayout.identity_lt
    · exact (intact.table inside present).1
  · obtain ⟨-, managed, -⟩ := taken.newTables_usable _ table mem
    have bound := (lowRam_managed (Pmm.managedFrames_of_ranges ranges ▸ managed)).2
    exact intact.hitsOrFaults (bound.trans (by decide))

/-- A page fault that takes two pages, for the page and for its table. -/
theorem lowRam_shares_no_frame : ∃ s',
    vmmPageFaultHandler (pmmPaging sampleLayout) 0x400123 0
        ⟨vmmPreinit sampleLayout zeroMemory, lowRamBooted⟩ = .ok () s' ∧
      FramesApart sampleLayout s' (Owners.none.faulted sampleLayout
        ⟨vmmPreinit sampleLayout zeroMemory, lowRamBooted⟩ 0x400123) ∧
      MapsZeroPage sampleLayout s'.memory 0x400123 := by
  have served : Machine.value? (vmmPageFaultHandler (pmmPaging sampleLayout) 0x400123 0
      ⟨vmmPreinit sampleLayout zeroMemory, lowRamBooted⟩) = some () := by
    decide +kernel
  have call := Machine.eq_ok_of_value served
  have outside : ¬ InWindow 0x400123 := by decide
  have directed := lowRam_faultDirected 0x400123
  have static : sampleLayout.directory ∉ lowRamBooted.managedFrames ∧
      sampleLayout.identity ∉ lowRamBooted.managedFrames := lowRam_inv.static
  refine ⟨_, call, ?_, ?_⟩
  · exact (demandPaging_shares_no_frame zeroMemory lowRam_pmmInit (by decide +kernel)
      lowRam_skipsPageZero static (.single (.pageFault outside directed call))).1
  · exact (demandPaging_shares_no_frame zeroMemory lowRam_pmmInit (by decide +kernel)
      lowRam_skipsPageZero static .refl).2 _ _ _ outside directed call

end ArkoiOs
