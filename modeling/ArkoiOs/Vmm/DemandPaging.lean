import ArkoiOs.Vmm.Owners

/-!
# What the calls do to the holders of frames

Each call keeps `OwnersInv`.  The fault handler and `vmm_map_page` are followed
through their parts: a page is taken, it becomes a table, an entry is written
and the page is zeroed.  `Spare` carries the page of a fault from the allocation
over the creation of a table to its mapping.
-/

namespace ArkoiOs

/-! ## Live blocks -/

namespace PmmInv

variable {pmm : Pmm} {ledger : Ledger} {address : UInt32}

/-- The frame of a live block is managed. -/
theorem frameOf_managed (inv : PmmInv pmm ledger) {order : ℕ}
    (mem : (address, order) ∈ pmm.allocations ledger) :
    address.toNat % 4096 = 0 ∧ frameOf address ∈ pmm.managedFrames := by
  obtain ⟨region, hr, lower, upper, aligned⟩ := inv.allocation_within mem
  have pos := Nat.two_pow_pos order
  simp only at lower upper aligned
  refine ⟨aligned, region, hr, ?_, ?_⟩ <;> rw [frameOf_eq] <;> omega

/-- Every live address starts an allocation. -/
theorem exists_order (inv : PmmInv pmm ledger) (live : address ∈ ledger.live) :
    ∃ order, (address, order) ∈ pmm.allocations ledger := by
  obtain ⟨region, mem, i, hi, rfl⟩ := inv.liveOwned address live
  exact ⟨_, live, region, mem, i, hi, rfl, rfl⟩

/-- Two live addresses in one frame are one address. -/
theorem live_ext (inv : PmmInv pmm ledger) {other : UInt32} (live : address ∈ ledger.live)
    (live' : other ∈ ledger.live) (same : frameOf address = frameOf other) : address = other := by
  obtain ⟨_, mem⟩ := inv.exists_order live
  obtain ⟨_, mem'⟩ := inv.exists_order live'
  rw [← frameAddress_frameOf (inv.frameOf_managed mem).1, same,
    frameAddress_frameOf (inv.frameOf_managed mem').1]

end PmmInv

/-- A returning `pmm_alloc_pages(1)` allocated a block of one page. -/
theorem PmmInv.allocPage {pmm pmm' : Pmm} {ledger : Ledger} {page : UInt32}
    (inv : PmmInv pmm ledger) (run : pmmAllocPages 1 pmm = .ok page pmm') :
    Allocated pmm pmm' ledger 0 page := by
  rw [pmmAllocPages_one] at run
  exact inv.allocOrder run

section Steps

variable {layout : BootLayout} {s s' : Vmm Pmm} {o : Owners} {memory : Memory} {pmm' : Pmm}
  {caller' : Set UInt32} {demand' : Set (ℕ × UInt32)} {v p flags address page block : UInt32}

/-! ## The allocator -/

/-- A fresh block in the hands of a caller, or of nobody, takes nothing away. -/
theorem Kept.allocated {order : ℕ} (kept : Kept s o block)
    (allocated : Allocated s.allocator pmm' o.ledger order address)
    (sub : caller' ⊆ insert address o.caller) :
    Kept { s with allocator := pmm' } ⟨o.ledger.allocated pmm' address, caller', demand'⟩
      block where
  live := by
    change (block, 0) ∈ pmm'.allocations (o.ledger.allocated pmm' address)
    rw [allocated.allocations]
    exact Or.inr kept.live
  unowned := by
    intro mem
    rcases sub mem with same | owned
    · exact allocated.fresh (same ▸ kept.live.1)
    · exact kept.unowned owned

namespace OwnersInv

/-- The allocator may change as long as kept blocks stay. -/
theorem withAllocator (inv : OwnersInv layout s o) {ledger : Ledger} (pmm : PmmInv pmm' ledger)
    (ranges : pmm'.ranges = s.allocator.ranges)
    (kept : ∀ {block}, Kept s o block →
      Kept { s with allocator := pmm' } ⟨ledger, caller', o.demand⟩ block)
    (caller : ∀ a ∈ caller', a ∈ ledger.live) :
    OwnersInv layout { s with allocator := pmm' } ⟨ledger, caller', o.demand⟩ := by
  have managed : pmm'.managedFrames = s.allocator.managedFrames :=
    Pmm.managedFrames_of_ranges ranges
  refine ⟨pmm, ?_, ?_, ?_, fun frame mem => ?_, fun d mem => ?_, inv.distinct, caller⟩
  · rw [ranges]
    exact inv.skips
  · rw [managed]
    exact inv.static
  · rw [dataFrames, managed]
    exact inv.sound
  · obtain ⟨block, held, frame⟩ := inv.table frame mem
    exact ⟨block, kept held, frame⟩
  · obtain ⟨held, apart⟩ := inv.demand d mem
    exact ⟨kept held, apart⟩

theorem allocated (inv : OwnersInv layout s o) {order : ℕ}
    (allocated : Allocated s.allocator pmm' o.ledger order address)
    (sub : caller' ⊆ insert address o.caller) :
    OwnersInv layout { s with allocator := pmm' }
      ⟨o.ledger.allocated pmm' address, caller', o.demand⟩ := by
  refine inv.withAllocator allocated.inv allocated.ranges
    (fun kept => kept.allocated allocated sub) fun a mem => ?_
  exact (sub mem).imp_right (inv.caller a)

/-- A caller frees a block of its own. -/
theorem freed (inv : OwnersInv layout s o) (owned : address ∈ o.caller)
    (run : pmmFree address s.allocator = .ok () pmm') :
    OwnersInv layout { s with allocator := pmm' } (o.freed s.allocator pmm' address) := by
  have live := inv.caller address owned
  obtain ⟨pmm'', run', freed⟩ := inv.pmm.freed live (inv.pmm.live_ne_zero inv.skips live)
  have same := run'.symm.trans run
  injection same with _ same
  subst same
  refine inv.withAllocator freed.inv freed.ranges (fun {block} kept => ?_)
    fun a mem => ⟨inv.caller a mem.1, mem.2⟩
  refine ⟨?_, fun mem => kept.unowned mem.1⟩
  change (block, 0) ∈ pmm''.allocations (o.ledger.freed s.allocator pmm'' address)
  rw [freed.allocations]
  exact ⟨kept.live, fun same : block = address => kept.unowned (same ▸ owned)⟩

end OwnersInv

/-! ## A page for the memory manager -/

/-- A spare block can become a table: it is aligned, not null, and its frame is
managed and in no table. -/
theorem Spare.usable (spare : Spare layout s o page) (inv : OwnersInv layout s o) :
    page ≠ 0 ∧ page.toNat % 4096 = 0 ∧ frameOf page ∈ dataFrames layout s := by
  obtain ⟨aligned, managed⟩ := inv.pmm.frameOf_managed spare.kept.live
  exact ⟨inv.pmm.live_ne_zero inv.skips spare.kept.live.1, aligned, managed, spare.noTable⟩

/-- The state after the memory manager took a page that it did not use yet. -/
theorem OwnersInv.take (inv : OwnersInv layout s o)
    (run : pmmAllocPages 1 s.allocator = .ok page pmm') :
    OwnersInv layout { s with allocator := pmm' }
        { o with ledger := o.ledger.allocated pmm' page } ∧
      Spare layout { s with allocator := pmm' }
        { o with ledger := o.ledger.allocated pmm' page } page ∧
      ∀ block, Spare layout s o block → block ≠ page ∧
        Spare layout { s with allocator := pmm' }
          { o with ledger := o.ledger.allocated pmm' page } block := by
  have allocated := inv.pmm.allocPage run
  have sub := Set.subset_insert page o.caller
  have inv' := inv.allocated allocated sub
  have ne : ∀ {block}, Kept s o block → block ≠ page :=
    fun kept same => allocated.fresh (same ▸ kept.live.1)
  have live : (page, 0) ∈ pmm'.allocations (o.ledger.allocated pmm' page) := by
    rw [allocated.allocations]
    exact Set.mem_insert _ _
  refine ⟨inv', ⟨⟨live, fun owned => allocated.fresh (inv.caller page owned)⟩, fun mem => ?_,
    fun d mem => ne (inv.demand d mem).1⟩, fun block spare => ⟨ne spare.kept,
    spare.kept.allocated allocated sub, spare.noTable, spare.noDemand⟩⟩
  -- the block behind a table was live before the call
  obtain ⟨block, kept, same⟩ := inv.table _ mem
  exact ne kept (inv'.pmm.live_ext (Or.inr kept.live.1) live.1 same)

/-! ## Memory -/

theorem tableFrames_congr {memory' : Memory}
    (same : ∀ u, pdeAt layout memory' u = pdeAt layout memory u) :
    tableFrames layout memory' = tableFrames layout memory := by
  unfold tableFrames
  simp only [same]

/-- Memory may change where the directory and the pages that faulted do not
notice. -/
theorem OwnersInv.rewritten (inv : OwnersInv layout s o)
    (sound : TablesSound layout memory (dataFrames layout s))
    (same : ∀ u, pdeAt layout memory u = pdeAt layout s.memory u) (sub : demand' ⊆ o.demand)
    (backs : ∀ d ∈ demand', Backs layout s.memory d → Backs layout memory d) :
    OwnersInv layout { s with memory := memory } { o with demand := demand' } := by
  have tables := tableFrames_congr same
  refine ⟨inv.pmm, inv.skips, inv.static, ?_, fun frame mem => ?_, fun d mem => ?_,
    fun d mem d' mem' => inv.distinct d (sub mem) d' (sub mem'), inv.caller⟩
  · rw [dataFrames, tables]
    exact sound
  · rw [tables] at mem
    obtain ⟨block, kept, frame⟩ := inv.table frame mem
    exact ⟨block, ⟨kept.live, kept.unowned⟩, frame⟩
  · obtain ⟨kept, apart, backed⟩ := inv.demand d (sub mem)
    rw [tables]
    exact ⟨⟨kept.live, kept.unowned⟩, apart, backs d mem backed⟩

theorem Spare.rewritten (spare : Spare layout s o block)
    (same : ∀ u, pdeAt layout memory u = pdeAt layout s.memory u) (sub : demand' ⊆ o.demand) :
    Spare layout { s with memory := memory } { o with demand := demand' } block where
  kept := ⟨spare.kept.live, spare.kept.unowned⟩
  noTable := by
    rw [tableFrames_congr same]
    exact spare.noTable
  noDemand d mem := spare.noDemand d (sub mem)

/-! ## Mapping -/

variable (flags) in
/-- The tables after one was created. -/
theorem OwnersInv.tableFrames_createTable (inv : OwnersInv layout s o)
    (taken : frameOf page ∈ dataFrames layout s)
    (absent : (pdeAt layout s.memory v).present = false) :
    tableFrames layout (createTable layout s.memory v page flags) =
      insert (frameOf page) (tableFrames layout s.memory) := by
  have outside : ¬ InWindow v := by
    intro inside
    have present : (pdeAt layout s.memory v).present = true := (inv.sound.window _ inside).1
    rw [absent] at present
    cases present
  apply Set.Subset.antisymm
  · intro frame ⟨u, outside', present, same⟩
    rw [pdeAt, inv.sound.createTable_directory flags taken] at present same
    by_cases here : pdeIndex u = pdeIndex v
    · rw [if_pos here] at same
      exact Or.inl same.symm
    · rw [if_neg here] at present same
      exact Or.inr ⟨u, outside', present, same⟩
  · rintro frame (rfl | ⟨u, outside', present, same⟩)
    · refine ⟨v, outside, ?_, ?_⟩ <;> rw [inv.sound.createTable_pdeAt flags taken] <;> rfl
    · have kept := inv.sound.createTable_pdeAt_of_present flags taken absent present
      refine ⟨u, outside', ?_, ?_⟩ <;> rw [kept]
      · exact present
      · exact same

variable (flags) in
/-- A spare block becomes a table. -/
theorem OwnersInv.tableCreated (inv : OwnersInv layout s o) (spare : Spare layout s o page)
    (absent : (pdeAt layout s.memory v).present = false) :
    OwnersInv layout { s with memory := createTable layout s.memory v page flags } o ∧
      ∀ block, block ≠ page → Spare layout s o block →
        Spare layout { s with memory := createTable layout s.memory v page flags } o
          block := by
  obtain ⟨-, -, taken⟩ := spare.usable inv
  have tables := inv.tableFrames_createTable flags taken absent
  have elsewhere : ∀ {block}, block ≠ page → Kept s o block →
      frameOf block ∉ tableFrames layout s.memory → frameOf block ∉ tableFrames layout
        (createTable layout s.memory v page flags) := by
    intro block ne kept noTable mem
    rw [tables] at mem
    rcases mem with same | mem
    · exact ne (inv.pmm.live_ext kept.live.1 spare.kept.live.1 same)
    · exact noTable mem
  refine ⟨⟨inv.pmm, inv.skips, inv.static, ?_, fun frame mem => ?_, fun d mem => ?_, inv.distinct,
    inv.caller⟩, fun block ne other => ⟨⟨other.kept.live, other.kept.unowned⟩,
    elsewhere ne other.kept other.noTable, other.noDemand⟩⟩
  · apply (inv.sound.create flags taken absent).mono
    intro frame ⟨managed, noTable⟩
    rw [tables] at noTable
    exact ⟨⟨managed, fun mem => noTable (Or.inr mem)⟩, fun same => noTable (Or.inl same)⟩
  · rw [tables] at mem
    rcases mem with rfl | mem
    · exact ⟨page, ⟨spare.kept.live, spare.kept.unowned⟩, rfl⟩
    · obtain ⟨block, kept, same⟩ := inv.table frame mem
      exact ⟨block, ⟨kept.live, kept.unowned⟩, same⟩
  · obtain ⟨kept, noTable, backs⟩ := inv.demand d mem
    refine ⟨⟨kept.live, kept.unowned⟩, elsewhere (spare.noDemand d mem) kept noTable,
      fun u page' => ?_⟩
    rw [inv.sound.walk_createTable flags taken absent]
    exact backs u page'

/-- Pages that are mapped outside the windows do not see another page mapped or
unmapped. -/
theorem Backs.unrelated {d : ℕ × UInt32} (backs : Backs layout s.memory d)
    (other : d.1 ≠ v.toNat / 4096) {entry : Option PageEntry}
    (walks : ∀ u, walk layout memory u =
      if SamePage u v ∨ Twins u v then entry else walk layout s.memory u) :
    Backs layout memory d := by
  intro u page
  obtain ⟨outside, found⟩ := backs u page
  refine ⟨outside, ?_⟩
  rw [walks, if_neg]
  · exact found
  · rintro (same | ⟨inside, -⟩)
    · exact other (page.symm.trans same)
    · exact outside inside

/-- A page that faulted and is mapped is not one that is not mapped. -/
theorem Backs.ne_of_unmapped {d : ℕ × UInt32} (backs : Backs layout s.memory d)
    (unmapped : walk layout s.memory v = none) : d.1 ≠ v.toNat / 4096 := by
  intro same
  obtain ⟨-, entry, found, -⟩ := backs v same.symm
  rw [unmapped] at found
  cases found

/-- The entry of an unmapped page is written to its table. -/
theorem OwnersInv.writeEntry (inv : OwnersInv layout s o) (entry : PageEntry)
    (unmapped : walk layout s.memory v = none)
    (present : (pdeAt layout s.memory v).present = true) :
    OwnersInv layout
        { s with memory := s.memory.write (pdeAt layout s.memory v).address (pteIndex v) entry } o ∧
      ∀ block, Spare layout s o block → Spare layout
        { s with memory := s.memory.write (pdeAt layout s.memory v).address (pteIndex v) entry } o
          block := by
  have same := fun u => inv.sound.write_directory present (pteIndex v) entry (pdeIndex u)
  refine ⟨inv.rewritten (inv.sound.write present _ _) same subset_rfl fun d _ backs => ?_,
    fun block spare => spare.rewritten same subset_rfl⟩
  exact backs.unrelated (backs.ne_of_unmapped unmapped) (inv.sound.walk_write present entry)

/-- `takePage` of an allocation that returned. -/
theorem takePage_of_ok {pmm : Pmm} {ledger : Ledger} (run : pmmAllocPages 1 pmm = .ok page pmm') :
    takePage pmm ledger = (page, pmm', ledger.allocated pmm' page) := by
  unfold takePage
  rw [run]

/-- `vmm_map_page` where the table is missing. -/
theorem OwnersInv.mapPage_of_absent (inv : OwnersInv layout s o) {result : Bool}
    (aligned : Aligned v p) (unmapped : walk layout s.memory v = none)
    (absent : (pdeAt layout s.memory v).present = false)
    (run : vmmMapPage ⟨layout, directAccess, pmmPages⟩ v p flags s = .ok result s') :
    ∃ page pmm', pmmAllocPages 1 s.allocator = .ok page pmm' ∧
      OwnersInv layout s' { o with ledger := o.ledger.allocated pmm' page } ∧
      (∀ block, Spare layout s o block →
        Spare layout s' { o with ledger := o.ledger.allocated pmm' page } block) ∧
      (result = true → walk layout s'.memory v =
        if hasFlag flags vmmFlagPresent then some (PageEntry.zero.mapTo p flags) else none) := by
  cases answer : pmmAllocPages 1 s.allocator with
  | error fault after =>
      rw [vmmMapPage_of_exhausted ⟨layout, directAccess, pmmPages⟩ directAccess_reaching
        aligned absent answer] at run
      cases run
  | ok page pmm' =>
      obtain ⟨taken, spare, spares⟩ := inv.take answer
      obtain ⟨nonzero, aligned', managed, noTable⟩ := spare.usable taken
      have managed' : frameOf page ∈ s.allocator.managedFrames :=
        Pmm.managedFrames_of_ranges (inv.pmm.allocPage answer).ranges ▸ managed
      have free : frameOf page ∈ dataFrames layout s := ⟨managed', noTable⟩
      rw [vmmMapPage_creates ⟨layout, directAccess, pmmPages⟩ flags directAccess_reaching
        inv.sound aligned absent ⟨answer, nonzero, aligned', free⟩] at run
      -- the page becomes a table, in which the page of `v` is not mapped yet
      obtain ⟨created, spares'⟩ := taken.tableCreated flags spare absent
      by_cases null : (⟨physicalToVirtual page, pteIndex v⟩ : EntryPointer).IsNull
      · rw [if_pos null] at run
        cases run
        refine ⟨page, pmm', rfl, created, fun block other => ?_, nofun⟩
        obtain ⟨ne, other'⟩ := spares block other
        exact spares' block ne other'
      rw [if_neg null] at run
      cases run
      have unmapped' : walk layout (createTable layout s.memory v page flags) v = none :=
        (inv.sound.walk_createTable flags free absent v).trans unmapped
      have pde := inv.sound.createTable_pdeAt (v := v) flags free
      have address := congrArg PageEntry.address pde
      have present := congrArg PageEntry.present pde
      obtain ⟨written, spares''⟩ :=
        created.writeEntry (PageEntry.zero.mapTo p flags) unmapped' present
      have walked := created.sound.walk_write present (PageEntry.zero.mapTo p flags) v
      rw [if_pos (Or.inl (SamePage.refl v))] at walked
      change (pdeAt layout (createTable layout s.memory v page flags) v).address =
        frameOf page at address
      simp only [address] at written spares'' walked
      refine ⟨page, pmm', rfl, written, fun block other => ?_, fun _ => walked⟩
      obtain ⟨ne, other'⟩ := spares block other
      exact spares'' block (spares' block ne other')

/-- `vmm_map_page`: the invariant and the spare blocks stay, and a mapping that
was made is found by the walk. -/
theorem OwnersInv.mapPage (inv : OwnersInv layout s o) {result : Bool}
    (run : vmmMapPage ⟨layout, directAccess, pmmPages⟩ v p flags s = .ok result s') :
    OwnersInv layout s' (o.mapped layout s v p) ∧
      (∀ block, Spare layout s o block → Spare layout s' (o.mapped layout s v p) block) ∧
      (result = true → walk layout s'.memory v =
        if hasFlag flags vmmFlagPresent then some (PageEntry.zero.mapTo p flags) else none) := by
  by_cases aligned : Aligned v p
  case neg =>
    rw [vmmMapPage_of_unaligned aligned] at run
    cases run
    rw [Owners.mapped, if_neg aligned]
    exact ⟨inv, fun _ spare => spare, nofun⟩
  rw [Owners.mapped, if_pos aligned, tableLedger]
  cases unmapped : walk layout s.memory v with
  | some entry =>
      have mapped : walk layout s.memory v ≠ none := unmapped ▸ Option.some_ne_none entry
      rw [vmmMapPage_of_mapped ⟨layout, directAccess, pmmPages⟩ flags directAccess_reaching
        inv.sound mapped] at run
      cases run
      rw [if_pos (walk_eq_some_iff.1 unmapped).1]
      exact ⟨inv, fun _ spare => spare, nofun⟩
  | none =>
      cases present : (pdeAt layout s.memory v).present with
      | true =>
          rw [vmmMapPage_writes ⟨layout, directAccess, pmmPages⟩ flags directAccess_reaching
            inv.sound aligned unmapped present] at run
          by_cases null : (tableEntry layout s.memory v).IsNull
          · rw [if_pos null] at run
            cases run
            exact ⟨inv, fun _ spare => spare, nofun⟩
          rw [if_neg null] at run
          cases run
          obtain ⟨inv', spares⟩ := inv.writeEntry ((pteAt layout s.memory v).mapTo p flags)
            unmapped present
          refine ⟨inv', spares, fun _ => ?_⟩
          exact (inv.sound.walk_write present _ v).trans (if_pos (Or.inl (SamePage.refl v)))
      | false =>
          obtain ⟨page, pmm', answer, inv', spares, walked⟩ :=
            inv.mapPage_of_absent aligned unmapped present run
          rw [if_neg Bool.false_ne_true, takePage_of_ok answer]
          exact ⟨inv', spares, walked⟩

/-- `vmm_unmap_page`: what faulted in there is given up. -/
theorem OwnersInv.unmapPage (inv : OwnersInv layout s o) {result : Bool}
    (run : vmmUnmapPage ⟨layout, directAccess, pmmPages⟩ v s = .ok result s') :
    OwnersInv layout s' (if result then o.unmapped v else o) := by
  by_cases refused : v.toNat % 4096 ≠ 0 ∨ walk layout s.memory v = none
  case pos =>
    rw [vmmUnmapPage_of_unmapped ⟨layout, directAccess, pmmPages⟩ directAccess_reaching inv.sound
      refused] at run
    cases run
    exact inv
  rw [not_or, not_not] at refused
  obtain ⟨⟨memory, allocator⟩, run', sound, same, effect⟩ := vmmUnmapPage_of_mapped
    ⟨layout, directAccess, pmmPages⟩ directAccess_reaching inv.sound refused.1 refused.2
  rw [run'] at run
  cases run
  change allocator = s.allocator at same
  subst same
  exact inv.rewritten sound effect.directory (fun _ mem => mem.1) fun d mem backs =>
    backs.unrelated mem.2 effect.walk

/-! ## Page faults -/

/-- The page of `v` is mapped, present and writable, to a frame of zero bytes. -/
def MapsZeroPage (layout : BootLayout) (memory : Memory) (v : UInt32) : Prop :=
  ∃ entry, walk layout memory v = some entry ∧ entry.present = true ∧ entry.rw = true ∧
    ∀ i, memory entry.address i = PageEntry.zero

theorem samePage_kalignDown (u : UInt32) : SamePage u (kalignDown u pageSize) := by
  unfold SamePage
  rw [kalignDown_toNat, Nat.mul_div_cancel _ (by norm_num)]

/-- A spare block is given to a page that was mapped to it. -/
theorem OwnersInv.claim (inv : OwnersInv layout s o) (spare : Spare layout s o page)
    (outside : ¬ InWindow v) {entry : PageEntry} (mapped : walk layout s.memory v = some entry)
    (rw_ : entry.rw = true) (address : entry.address = frameOf page) :
    OwnersInv layout s { o with demand := insert (v.toNat / 4096, page) o.demand } := by
  refine ⟨inv.pmm, inv.skips, inv.static, inv.sound, fun frame mem => ?_, fun d mem => ?_,
    fun d mem d' mem' same => ?_, inv.caller⟩
  · obtain ⟨block, kept, same⟩ := inv.table frame mem
    exact ⟨block, ⟨kept.live, kept.unowned⟩, same⟩
  · rcases mem with rfl | mem
    · refine ⟨⟨spare.kept.live, spare.kept.unowned⟩, spare.noTable, fun u here => ?_⟩
      have related : SamePage u v := here
      have index := ((samePage_iff u v).1 related).1
      refine ⟨fun inside => outside ?_, entry, (walk_samePage related).trans mapped, rw_, address⟩
      unfold InWindow at inside ⊢
      rw [← index]
      exact inside
    · obtain ⟨kept, apart⟩ := inv.demand d mem
      exact ⟨⟨kept.live, kept.unowned⟩, apart⟩
  · rcases mem with rfl | mem <;> rcases mem' with rfl | mem'
    · rfl
    · exact (spare.noDemand d' mem' same.symm).elim
    · exact (spare.noDemand d mem same).elim
    · exact inv.distinct d mem d' mem' same

/-- A page fault that is served. -/
theorem OwnersInv.pageFault (inv : OwnersInv layout s o) {cr2 errCode : UInt32}
    (outside : ¬ InWindow cr2)
    (run : vmmPageFaultHandler ⟨layout, directAccess, pmmPages⟩ cr2 errCode s = .ok () s') :
    OwnersInv layout s' (o.faulted layout s cr2) ∧ MapsZeroPage layout s'.memory cr2 := by
  obtain ⟨page, pmm', s₂, answer, -, map, cleared⟩ := vmmPageFaultHandler_ok run
  obtain ⟨taken, spare, -⟩ := inv.take answer
  obtain ⟨-, aligned, -⟩ := spare.usable taken
  obtain ⟨inv₂, spares, walked⟩ := taken.mapPage map
  have walked := walked rfl
  have spare₂ := spares page spare
  have free := (spare₂.usable inv₂).2.2
  have reached : mmuAccess layout s₂.memory (kalignDown cr2 pageSize) = some (frameOf page) := by
    rw [mmuAccess, walked]
    rfl
  rw [zeroPage_of_access reached] at cleared
  cases cleared
  have same := fun u => inv₂.sound.zeroFrame_directory free (pdeIndex u)
  have walks := inv₂.sound.walk_zeroFrame free
  have inv₃ := inv₂.rewritten (inv₂.sound.zeroFrame free) same subset_rfl
    fun d _ backs u here => by
      rw [walks]
      exact backs u here
  have spare₃ := spare₂.rewritten same subset_rfl
  have found : walk layout (s₂.memory.zeroFrame (frameOf page)) cr2 =
      some (PageEntry.zero.mapTo page faultFlags) :=
    ((walk_samePage (samePage_kalignDown cr2)).trans (walks _)).trans walked
  refine ⟨?_, _, found, rfl, rfl, fun i => ?_⟩
  · have claimed := inv₃.claim spare₃ outside found rfl rfl
    rw [Owners.mapped, if_pos ⟨kalignDown_aligned cr2, aligned⟩] at claimed
    unfold Owners.faulted
    rw [takePage_of_ok answer]
    exact claimed
  · change s₂.memory.zeroFrame (frameOf page) (frameOf page) i = _
    rw [Memory.zeroFrame_apply, if_pos rfl]

/-! ## Steps and runs -/

/-- A page that becomes a table is usable as one. -/
theorem OwnersInv.newTables_usable (inv : OwnersInv layout s o) (v page : UInt32)
    (mem : page ∈ newTables layout pmmPages s v) :
    page.toNat % 4096 = 0 ∧ frameOf page ∈ dataFrames layout s := by
  obtain ⟨-, pmm', answer⟩ := mem
  obtain ⟨taken, spare, -⟩ := inv.take answer
  obtain ⟨-, aligned, managed, noTable⟩ := spare.usable taken
  exact ⟨aligned, Pmm.managedFrames_of_ranges (inv.pmm.allocPage answer).ranges ▸ managed, noTable⟩

/-- What the handler does, accesses go through the tables. -/
theorem OwnersInv.serve (inv : OwnersInv layout s o) {cr2 errCode : UInt32}
    (outside : ¬ InWindow cr2) (directed : FaultDirected layout s cr2)
    (run : vmmPageFaultHandler (pmmPaging layout) cr2 errCode s = .ok () s') :
    OwnersInv layout s' (o.faulted layout s cr2) ∧ MapsZeroPage layout s'.memory cr2 := by
  refine inv.pageFault outside (pageFault_returnsAs cr2 errCode ?_ () s' run).1
  intro page after answer _
  obtain ⟨taken, -⟩ := inv.take answer
  exact (directed page after answer).mapPage taken.sound (taken.newTables_usable _) page _

/-- Every call that returns keeps the invariant. -/
theorem OwnersInv.step {before after : Vmm Pmm × Owners} (inv : OwnersInv layout before.1 before.2)
    (step : PagingStep layout before after) : OwnersInv layout after.1 after.2 := by
  cases step with
  | pageFault outside directed run => exact (inv.serve outside directed run).1
  | map directed run =>
      exact (inv.mapPage
        (directed.mapPage inv.sound (inv.newTables_usable _) _ _ _ _ run).1).1
  | unmap directed run => exact inv.unmapPage (directed.unmapPage inv.sound _ _ _ run).1
  | alloc positive run =>
      obtain ⟨order, allocated⟩ := AllocRequest.allocated positive run inv.pmm
      exact inv.allocated allocated subset_rfl
  | allocNothing nothing run =>
      obtain ⟨-, rfl⟩ := AllocRequest.nothing nothing run
      exact inv
  | free owned run => exact inv.freed owned run
  | freeNull run =>
      cases run
      exact inv

end Steps

/-- The state after `vmm_preinit` and `pmm_init`. -/
theorem OwnersInv.init {layout : BootLayout} {bootInfo : BootInfo} {emm : Emm} {pmm : Pmm}
    (memory : Memory) (run : pmmInit bootInfo (Pmm.boot emm) = .ok () pmm)
    (disjoint : pmm.Disjoint) (skips : pmm.SkipsPageZero)
    (static : layout.directory ∉ pmm.managedFrames ∧ layout.identity ∉ pmm.managedFrames) :
    OwnersInv layout ⟨vmmPreinit layout memory, pmm⟩ Owners.none := by
  have noTables : tableFrames layout (vmmPreinit layout memory) = ∅ := by
    refine Set.eq_empty_of_forall_notMem fun frame ⟨v, outside, present, _⟩ => ?_
    have absent : ¬ WindowIndex (pdeIndex v) := outside
    rw [pdeAt, vmmPreinit_directory, if_neg absent] at present
    cases present
  refine ⟨(pmmInit_reachable run disjoint).inv, fun range listed => ?_, static,
    vmmPreinit_tablesSound layout memory ⟨fun mem => static.1 mem.1, fun mem => static.2 mem.1⟩,
    fun frame mem => ?_, fun d mem => mem.elim, fun d mem => mem.elim, fun a mem => mem.elim⟩
  · obtain ⟨region, mem, rfl⟩ := List.mem_map.1 listed
    exact skips region mem
  · rw [noTables] at mem
    exact mem.elim

end ArkoiOs
