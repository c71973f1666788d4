import ArkoiOs.Pmm.BootMemory

/-!
# Memory in use at boot

`pmm_init` looks at the RAM entries only.  The kernel image, the boot modules
and the reserved regions are never taken out of the managed memory, so an
allocation avoids them exactly as far as the RAM entries do.
-/

namespace ArkoiOs

/-- Physical addresses from `start` up to `end_`. -/
structure PhysicalRange where
  start : ℕ
  end_ : ℕ
  deriving DecidableEq, Repr

/-- Some byte of the range lies between the two addresses. -/
def PhysicalRange.Meets (range : PhysicalRange) (lower upper : ℕ) : Prop :=
  ∃ byte, range.start ≤ byte ∧ byte < range.end_ ∧ lower ≤ byte ∧ byte < upper

/-- What must not be handed out: the kernel image, from `KERNEL_PHYSICAL_BASE`
to the end the linker gives it, the modules and the reserved regions. -/
def inUseRanges (image : PhysicalRange) (bootInfo : BootInfo) : List PhysicalRange :=
  image :: (bootInfo.modules.map fun mod => ⟨mod.modStart.toNat, mod.modEnd.toNat⟩) ++
    bootInfo.reservedRegions.map fun region =>
      ⟨region.baseAddress.toNat, region.baseAddress.toNat + region.length.toNat⟩

/-- Whatever is allocated and freed from `pmm` on, no live allocation meets a
range in use. -/
def AvoidsMemoryInUse (image : PhysicalRange) (bootInfo : BootInfo) (pmm : Pmm) : Prop :=
  ∀ pmm' ledger, AllocRun (pmm, Ledger.empty) (pmm', ledger) →
    ∀ allocation ∈ pmm'.allocations ledger, ∀ range ∈ inUseRanges image bootInfo,
      ¬ range.Meets allocation.1.toNat (allocation.1.toNat + 2 ^ allocation.2 * 4096)

/-! ## From the boot information to a reachable state -/

/-- Adding regions keeps reachable states reachable as long as they end up
disjoint. -/
theorem Reachable.forM_pmmAddRegion :
    ∀ {entries : List BootMemoryRegion} {pmm pmm' : Pmm} {ledger : Ledger},
      Reachable pmm ledger →
      (entries.forM fun region =>
        pmmAddRegion region.baseAddress.toUInt32 region.length.toUInt32) pmm = .ok () pmm' →
      pmm'.Disjoint → Reachable pmm' ledger
  | [], pmm, pmm', ledger, h, run, _ => by
      cases run
      exact h
  | entry :: entries, pmm, pmm', ledger, h, run, disjoint => by
      change (pmmAddRegion entry.baseAddress.toUInt32 entry.length.toUInt32 >>= fun _ =>
        entries.forM fun region =>
          pmmAddRegion region.baseAddress.toUInt32 region.length.toUInt32) pmm = _ at run
      obtain ⟨_, pmm₁, first, rest⟩ := Machine.bind_eq_ok.1 run
      obtain ⟨added, regions, -⟩ := forM_pmmAddRegion_ok rest
      have disjoint₁ : pmm₁.Disjoint := by
        unfold Pmm.Disjoint at disjoint
        rw [regions, List.pairwise_append] at disjoint
        exact disjoint.1
      exact (h.tail (.addRegion first disjoint₁)).forM_pmmAddRegion rest disjoint

theorem pmmInit_reachable {bootInfo : BootInfo} {emm : Emm} {pmm : Pmm}
    (run : pmmInit bootInfo (Pmm.boot emm) = .ok () pmm) (disjoint : pmm.Disjoint) :
    Reachable pmm Ledger.empty :=
  (Reachable.boot emm).forM_pmmAddRegion run disjoint

/-! ## Live allocations and managed pages -/

/-- Runs of equal managed ranges manage the same pages. -/
theorem Pmm.mem_managedFrames_of_ranges {pmm pmm' : Pmm} (ranges : pmm'.ranges = pmm.ranges)
    {page : ℕ} (h : page ∈ pmm.managedFrames) : page ∈ pmm'.managedFrames := by
  rcases h with ⟨region, mem, within⟩
  have listed : (region.start, region.end_) ∈ pmm'.ranges := by
    rw [ranges]
    exact List.mem_map_of_mem mem
  obtain ⟨region', mem', same⟩ := List.mem_map.1 listed
  injection same with start end_
  refine ⟨region', mem', ?_⟩
  unfold PmmRegion.frames
  rw [start, end_]
  exact within

/-- Pools over equal ranges manage the same frames. -/
theorem Pmm.managedFrames_of_ranges {pmm pmm' : Pmm} (ranges : pmm'.ranges = pmm.ranges) :
    pmm'.managedFrames = pmm.managedFrames :=
  Set.Subset.antisymm (fun _ mem => Pmm.mem_managedFrames_of_ranges ranges.symm mem)
    fun _ mem => Pmm.mem_managedFrames_of_ranges ranges mem

namespace PmmInv

variable {pmm : Pmm} {ledger : Ledger}

/-- A live allocation lies inside one region. -/
theorem allocation_within (inv : PmmInv pmm ledger) {allocation : UInt32 × ℕ}
    (mem : allocation ∈ pmm.allocations ledger) :
    ∃ region ∈ pmm.regions, region.start.toNat ≤ allocation.1.toNat ∧
      allocation.1.toNat + 2 ^ allocation.2 * 4096 ≤ region.end_.toNat ∧
      allocation.1.toNat % 4096 = 0 := by
  rcases allocation with ⟨address, order⟩
  rcases mem with ⟨live, region, hr, i, hi, rfl, rfl⟩
  obtain ⟨lists, sound⟩ := inv.sound region hr
  have inside := (sound.live_inside ⟨hi, live⟩).2
  have span := sound.geometry.span
  have aligned := sound.geometry.aligned
  refine ⟨region, hr, ?_⟩
  simp only [sound.geometry.pageAddress_toNat hi.le]
  omega

/-- While a managed page belongs to no live allocation, `pmm_alloc_order 0`
returns an address that is not live yet. -/
theorem allocOrder_zero (inv : PmmInv pmm ledger) {page : ℕ} (managed : page ∈ pmm.managedFrames)
    (unused : ∀ allocation ∈ pmm.allocations ledger,
      ¬ (allocation.1.toNat ≤ page * 4096 ∧
        page * 4096 < allocation.1.toNat + 2 ^ allocation.2 * 4096)) :
    ∃ address pmm', pmmAllocOrder 0 pmm = .ok address pmm' := by
  rcases managed with ⟨region, mem, within⟩
  have lower : region.start.toNat ≤ page * 4096 := within.1
  have upper : (page + 1) * 4096 ≤ region.end_.toNat := within.2
  obtain ⟨lists, sound⟩ := inv.sound region mem
  have aligned := sound.geometry.aligned
  have index : region.start.toNat + (page - region.start.toNat / 4096) * 4096 = page * 4096 := by
    omega
  generalize page - region.start.toNat / 4096 = i at index
  have span := sound.geometry.span
  have run : region.UnusedRun ledger ⟨i, 0⟩ := by
    refine ⟨one_dvd i, by simp only [pow_zero]; omega, fun j has c live has' => ?_⟩
    have hi : j = i := by
      have := has.1
      have := has.2
      simp only [pow_zero] at *
      omega
    subst hi
    have bound := live.1.1
    refine unused (region.pageAddress c.start, c.order) ⟨live.1.2, region, mem, c.start, bound,
      rfl, live.2⟩ ?_
    simp only [sound.geometry.pageAddress_toNat bound.le]
    have first := has'.1
    have last := has'.2
    omega
  exact inv.allocOrder_of_unusedRun (Nat.zero_le _) mem run

end PmmInv

/-- A page that no run puts into a live allocation would let single pages be
allocated for ever, always at a new address. -/
theorem Reachable.exists_run_with_page {pmm : Pmm} (h : Reachable pmm Ledger.empty) {page : ℕ}
    (managed : page ∈ pmm.managedFrames) :
    ∃ pmm' ledger, AllocRun (pmm, Ledger.empty) (pmm', ledger) ∧
      ∃ allocation ∈ pmm'.allocations ledger, allocation.1.toNat ≤ page * 4096 ∧
        page * 4096 < allocation.1.toNat + 2 ^ allocation.2 * 4096 := by
  by_contra never
  have forever : ∀ n, ∃ pmm' ledger, AllocRun (pmm, Ledger.empty) (pmm', ledger) ∧
      ∃ S : Finset ℕ, S.card = n ∧ ∀ x ∈ S, ∃ a ∈ ledger.live, a.toNat = x := by
    intro n
    induction n with
    | zero => exact ⟨pmm, _, .refl, ∅, rfl, fun x hx => absurd hx (Finset.notMem_empty x)⟩
    | succ n ih =>
        rcases ih with ⟨pmm₁, ledger₁, run, S, card, live⟩
        obtain ⟨reach, ranges⟩ := h.run run
        obtain ⟨address, pmm₂, call⟩ := reach.inv.allocOrder_zero
          (Pmm.mem_managedFrames_of_ranges ranges managed)
          fun allocation mem within => never ⟨pmm₁, ledger₁, run, allocation, mem, within⟩
        have fresh := (reach.inv.allocOrder call).fresh
        refine ⟨pmm₂, _, run.tail (.allocOrder call), insert address.toNat S, ?_, ?_⟩
        · rw [Finset.card_insert_of_notMem, card]
          intro mem
          obtain ⟨a, ha, same⟩ := live _ mem
          exact fresh (UInt32.toNat_inj.1 same ▸ ha)
        · intro x hx
          rcases Finset.mem_insert.1 hx with rfl | hx
          · exact ⟨address, Or.inl rfl, rfl⟩
          · obtain ⟨a, ha, same⟩ := live x hx
            exact ⟨a, Or.inr ha, same⟩
  obtain ⟨pmm', ledger, -, S, card, live⟩ := forever (2 ^ 32 + 1)
  have bound : S ⊆ Finset.range (2 ^ 32) := by
    intro x hx
    obtain ⟨a, -, same⟩ := live x hx
    exact Finset.mem_range.2 (same ▸ a.toNat_lt)
  have few := Finset.card_le_card bound
  rw [card, Finset.card_range] at few
  omega

/-- The managed pages are those of all RAM entries, narrowed to 32 bits, and nothing is
taken out of them.  So, with disjoint managed ranges, allocations avoid the memory in use
in every run if and only if no managed page meets a range in use. -/
theorem pmmInit_avoidsMemoryInUse_iff {bootInfo : BootInfo} {emm : Emm} {pmm : Pmm}
    (image : PhysicalRange) (run : pmmInit bootInfo (Pmm.boot emm) = .ok () pmm)
    (disjoint : pmm.Disjoint) :
    pmm.managedFrames = {page | ∃ entry ∈ bootInfo.ramRegions, page ∈ entry.narrowFrames} ∧
      (AvoidsMemoryInUse image bootInfo pmm ↔
        ∀ page ∈ pmm.managedFrames, ∀ range ∈ inUseRanges image bootInfo,
          ¬ range.Meets (page * 4096) ((page + 1) * 4096)) := by
  have reach := pmmInit_reachable run disjoint
  refine ⟨Set.ext (pmmInit_ok run).frames_iff, fun avoids page managed range mem meets => ?_,
    fun avoids pmm' ledger calls allocation live range mem meets => ?_⟩
  · obtain ⟨pmm', ledger, calls, allocation, live, lower, upper⟩ :=
      reach.exists_run_with_page managed
    obtain ⟨region, -, -, -, aligned⟩ := (reach.run calls).1.inv.allocation_within live
    rcases meets with ⟨byte, first, last, low, high⟩
    refine avoids pmm' ledger calls allocation live range mem ⟨byte, first, last, by omega, ?_⟩
    -- the allocation ends at a page boundary behind the page
    have pos := Nat.two_pow_pos allocation.2
    omega
  · obtain ⟨reach', ranges⟩ := reach.run calls
    obtain ⟨region, hr, lower, upper, aligned⟩ := reach'.inv.allocation_within live
    rcases meets with ⟨byte, first, last, low, high⟩
    have span := (reach'.inv.wellFormed.geometry hr).span
    have regionAligned := (reach'.inv.wellFormed.geometry hr).aligned
    have managed : byte / 4096 ∈ pmm'.managedFrames := ⟨region, hr, by omega, by omega⟩
    exact avoids _ (Pmm.mem_managedFrames_of_ranges ranges.symm managed) range mem
      ⟨byte, first, last, by omega, by omega⟩

/-- A machine whose only RAM entry holds the kernel image. -/
def imageInRam : BootInfo := .ofRam [⟨0x100000, 0x2000⟩]

def imageInRamBooted : Pmm := Machine.final (pmmInit imageInRam (Pmm.boot kernelHeap))

theorem imageInRam_pmmInit :
    pmmInit imageInRam (Pmm.boot kernelHeap) = .ok () imageInRamBooted :=
  Machine.eq_ok_of_value (by decide +kernel)

theorem imageInRam_avoidsMemoryInUse_iff :
    imageInRamBooted.managedFrames =
        {page | ∃ entry ∈ imageInRam.ramRegions, page ∈ entry.narrowFrames} ∧
      (AvoidsMemoryInUse ⟨0x100000, 0x101000⟩ imageInRam imageInRamBooted ↔
        ∀ page ∈ imageInRamBooted.managedFrames,
          ∀ range ∈ inUseRanges ⟨0x100000, 0x101000⟩ imageInRam,
            ¬ range.Meets (page * 4096) ((page + 1) * 4096)) :=
  pmmInit_avoidsMemoryInUse_iff _ imageInRam_pmmInit (by decide +kernel)

/-- The first page allocated there is the first page of the kernel image. -/
theorem kernelImage_handed_out :
    pmmInit imageInRam (Pmm.boot kernelHeap) = .ok () imageInRamBooted ∧
      Machine.value? (pmmAllocOrder 0 imageInRamBooted) = some 0x100000 ∧
      ¬ AvoidsMemoryInUse ⟨0x100000, 0x101000⟩ imageInRam imageInRamBooted := by
  have call : Machine.value? (pmmAllocOrder 0 imageInRamBooted) = some 0x100000 := by
    decide +kernel
  refine ⟨imageInRam_pmmInit, call, fun avoids => ?_⟩
  have reach := pmmInit_reachable imageInRam_pmmInit (by decide +kernel)
  have run := Machine.eq_ok_of_value call
  have allocated := reach.inv.allocOrder run
  refine avoids _ _ (.single (.allocOrder run)) (0x100000, 0) ?_ ⟨0x100000, 0x101000⟩
    List.mem_cons_self ⟨0x100000, le_rfl, by decide, le_rfl, by decide⟩
  rw [allocated.allocations]
  exact Set.mem_insert _ _

end ArkoiOs
