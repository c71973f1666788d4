import ArkoiOs.Pmm.TakenPages

/-!
# The null pointer as a result

`pmm_alloc_order` returns the null pointer for the block at physical address 0, and
`pmm_free` looks for a block in the first region that covers its address.  Requests
that are served therefore never return the null pointer, and what they return can be
given back, exactly when no region manages page 0 and no page is managed twice.
-/

namespace ArkoiOs

/-- Whatever is allocated and freed from `pmm` on, a request that is served
returns an address that is not null and can be freed again, so the null pointer
says that nothing was allocated. -/
def NeverNull (pmm : Pmm) : Prop :=
  ∀ pmm₁ ledger, AllocRun (pmm, Ledger.empty) (pmm₁, ledger) →
    ∀ (request : AllocRequest) address pmm₂, request.run pmm₁ = .ok address pmm₂ →
      (request.Positive → address ≠ 0 ∧
        ∃ pmm₃, pmmFree address pmm₂ = .ok () pmm₃ ∧ pmm₃.SameFreeLists pmm₁) ∧
      (address = 0 → pmm₂ = pmm₁)

/-- While requests never return the null pointer, it is never live. -/
theorem NeverNull.zero_not_live {pmm pmm' : Pmm} {ledger : Ledger} (never : NeverNull pmm)
    (run : AllocRun (pmm, Ledger.empty) (pmm', ledger)) : (0 : UInt32) ∉ ledger.live := by
  have fresh : ∀ {pmm₁ pmm₂ : Pmm} {ledger₁ : Ledger} {address : UInt32}
      (request : AllocRequest), request.Positive → request.run pmm₁ = .ok address pmm₂ →
      AllocRun (pmm, Ledger.empty) (pmm₁, ledger₁) → (0 : UInt32) ∉ ledger₁.live →
      (0 : UInt32) ∉ (ledger₁.allocated pmm₂ address).live := by
    intro pmm₁ pmm₂ ledger₁ address request positive served before dead live
    rcases live with same | live
    · exact ((never _ _ before request _ _ served).1 positive).1 same.symm
    · exact dead live
  generalize state : (pmm', ledger) = after at run
  have dead : (0 : UInt32) ∉ after.2.live := by
    clear state
    induction run with
    | refl => exact Set.notMem_empty _
    | tail before step ih =>
        cases step with
        | allocOrder served => exact fresh (.order _) trivial served before ih
        | allocSize positive served => exact fresh (.size _) positive served before ih
        | allocPages positive served => exact fresh (.pages _) positive served before ih
        | allocNothing served => exact ih
        | free live nonzero freed => exact fun still => ih still.1
        | freeNull freed => exact ih
  rw [← state] at dead
  exact dead

/-! ## Freeing where two regions overlap -/

/-- `pmm_free` works on the first region that covers the address. -/
theorem findRegionByAddress_le {regions : List PmmRegion} {address : UInt32} {first i : ℕ}
    {region : PmmRegion} (found : findRegionByAddress regions address = some first)
    (here : regions[i]? = some region) (inside : region.start ≤ address ∧ address < region.end_) :
    first ≤ i := by
  by_contra later
  obtain ⟨_, -, earlier⟩ := List.findIdx?_eq_some_iff_getElem.1 found
  obtain ⟨bound, rfl⟩ := List.getElem?_eq_some_iff.1 here
  refine earlier i (Nat.lt_of_not_le later) ?_
  rw [decide_eq_true inside.1, decide_eq_true inside.2]
  rfl

/-- The other regions stay as they are. -/
theorem pmmFree_elsewhere {address : UInt32} {pmm pmm' : Pmm} (nonzero : address ≠ 0)
    (run : pmmFree address pmm = .ok () pmm') :
    ∃ first, findRegionByAddress pmm.regions address = some first ∧
      ∀ j ≠ first, pmm'.regions[j]? = pmm.regions[j]? := by
  unfold pmmFree at run
  rw [if_neg nonzero] at run
  split at run
  · cases run
  rw [Machine.bind_of_ok (Machine.get_run pmm)] at run
  cases found : findRegionByAddress pmm.regions address with
  | none =>
      rw [found] at run
      cases run
  | some first =>
      rw [found] at run
      obtain ⟨region, there, -⟩ := findRegionByAddress_some found
      refine ⟨first, rfl, fun j ne => ?_⟩
      cases freed : freeInRegion address region with
      | ok _ region' =>
          cases (onRegion_of_ok there freed).symm.trans run
          exact List.getElem?_set_ne (Ne.symm ne)
      | error fault region' => cases (onRegion_of_error there freed).symm.trans run

/-- Overlapping regions own a common page. -/
theorem PmmRegion.exists_common_page {region region' : PmmRegion} (geometry : region.Geometry)
    (geometry' : region'.Geometry) (overlap : ¬ region.Apart region') :
    ∃ page < region'.blockPoolSize,
      region.start ≤ region'.pageAddress page ∧ region'.pageAddress page < region.end_ := by
  unfold PmmRegion.Apart at overlap
  rw [not_or, UInt32.not_le, UInt32.not_le] at overlap
  have first (other : PmmRegion) : other.pageAddress 0 = other.start := by
    simp [PmmRegion.pageAddress]
  rcases word_lt_or_le region'.start region.start with before | after
  · -- the later region begins first
    obtain ⟨page, bound, same⟩ := geometry'.exists_pageAddress (UInt32.le_of_lt before)
      overlap.2 geometry.aligned
    have inside := (geometry.start_le_pageAddress geometry.nonempty).2
    rw [first] at inside
    exact ⟨page, bound, same ▸ UInt32.le_refl _, same ▸ inside⟩
  · refine ⟨0, geometry'.nonempty, ?_⟩
    rw [first]
    exact ⟨after, overlap.1⟩

/-- Pages taken one by one are a run of allocations. -/
theorem PageRun.allocRun {pmm pmm' : Pmm} (pages : PageRun pmm pmm') :
    ∃ ledger, AllocRun (pmm, Ledger.empty) (pmm', ledger) := by
  induction pages with
  | refl => exact ⟨_, .refl⟩
  | tail before step ih =>
      obtain ⟨ledger, calls⟩ := ih
      obtain ⟨page, served⟩ := step
      exact ⟨_, calls.tail (.allocPages (by decide) served)⟩

/-- When two regions manage one page, the later one's copy is handed out at last, and
`pmm_free` looks for it in another region. -/
theorem NeverNull.disjoint {pmm : Pmm} (never : NeverNull pmm) (taken : pmm.PagesTaken ∅) :
    pmm.Disjoint := by
  refine List.pairwise_iff_getElem.2 fun i j hi hj less => ?_
  by_contra overlap
  have here : pmm.regions[i]? = some pmm.regions[i] := List.getElem?_eq_getElem hi
  have there : pmm.regions[j]? = some pmm.regions[j] := List.getElem?_eq_getElem hj
  obtain ⟨⟨_, _, sound⟩, -⟩ := taken i _ here
  obtain ⟨⟨_, _, sound'⟩, -⟩ := taken j _ there
  obtain ⟨page, bound, inside⟩ :=
    PmmRegion.exists_common_page sound.geometry sound'.geometry overlap
  obtain ⟨pmm₁, pmm₂, live, pages, extents, takes⟩ := taken.exists_page there bound
    (Finset.notMem_empty _) (Finset.empty_subset _)
  obtain ⟨ledger, calls⟩ := pages.allocRun
  obtain ⟨nonzero, pmm₃, freed, same⟩ :=
    (never pmm₁ ledger calls (.pages 1) _ pmm₂ takes.run).1 (UInt32.zero_ne_one.symm)
  -- the copy of the later region is freed in a region before it
  obtain ⟨first, found, elsewhere⟩ := pmmFree_elsewhere nonzero freed
  obtain ⟨region₁, at₁, extent₁⟩ := extents i _ here
  obtain ⟨region₂, at₂, extent₂⟩ := takes.extent i region₁ at₁
  have extent := extent₁.trans extent₂
  have earlier := findRegionByAddress_le found at₂ (by rwa [extent.start, extent.end_])
  -- so it is not on the lists of the later region again
  obtain ⟨other, before, -, order, listed⟩ := takes.source
  obtain ⟨bound₁, rfl⟩ := List.getElem?_eq_some_iff.1 before
  have length := same.length_eq
  have after : pmm₂.regions[j]? = some (pmm₃.regions.get ⟨j, length ▸ bound₁⟩) := by
    rw [← elsewhere j (by omega)]
    exact List.getElem?_eq_getElem (length ▸ bound₁)
  refine takes.taken.not_onFreeList after (Finset.mem_insert_self _ _) order ?_
  exact ((List.forall₂_iff_get.1 same).2 j (length ▸ bound₁) bound₁ order page).2 listed

/-- Requests never return the null pointer, and what they return can be given back, if
and only if page 0 is not managed and no page is managed twice: once every other page
is taken, page 0 or the second copy is what is left. -/
theorem pmmInit_neverNull_iff {bootInfo : BootInfo} {emm : Emm} {pmm : Pmm}
    (run : pmmInit bootInfo (Pmm.boot emm) = .ok () pmm) :
    NeverNull pmm ↔ pmm.SkipsPageZero ∧ pmm.Disjoint := by
  refine ⟨fun never => ?_, fun ⟨skips, disjoint⟩ pmm₁ ledger calls request address pmm₂ served =>
    ?_⟩
  · have disjoint := never.disjoint (pmmInit_pagesTaken run)
    have reach := pmmInit_reachable run disjoint
    refine ⟨fun region mem zero => ?_, disjoint⟩
    have geometry := reach.inv.wellFormed.geometry mem
    have managed : 0 ∈ pmm.managedFrames := by
      have span := geometry.span
      have nonempty := geometry.nonempty
      rw [zero] at span
      change 0 + _ = _ at span
      exact ⟨region, mem, by rw [zero]; exact Nat.zero_le _, by omega⟩
    obtain ⟨pmm', ledger, calls, allocation, live, lower, -⟩ := reach.exists_run_with_page managed
    refine never.zero_not_live calls ?_
    have address : allocation.1 = 0 := UInt32.toNat_inj.1 (Nat.le_zero.1 lower)
    rw [← address]
    exact live.1
  · have reach := pmmInit_reachable run disjoint
    obtain ⟨reach₁, ranges⟩ := reach.run calls
    have nonzero : request.Positive → address ≠ 0 ∧
        ∃ pmm₃, pmmFree address pmm₂ = .ok () pmm₃ ∧ pmm₃.SameFreeLists pmm₁ := by
      intro positive
      obtain ⟨order, allocated⟩ := AllocRequest.allocated positive served reach₁.inv
      have ne : address ≠ 0 := by
        refine allocated.inv.live_ne_zero (fun range listed => ?_) (Set.mem_insert _ _)
        rw [allocated.ranges, ranges] at listed
        obtain ⟨region, mem, rfl⟩ := List.mem_map.1 listed
        exact skips region mem
      exact ⟨ne, allocated.free_restores reach₁.inv ne⟩
    refine ⟨nonzero, fun zero => ?_⟩
    exact (AllocRequest.nothing (fun positive => (nonzero positive).1 zero) served).2

/-- A machine whose only RAM entry is the page at address 0. -/
def pageZeroRam : BootInfo := .ofRam [⟨0, 0x1000⟩]

def pageZeroBooted : Pmm := Machine.final (pmmInit pageZeroRam (Pmm.boot kernelHeap))

theorem pageZero_pmmInit :
    pmmInit pageZeroRam (Pmm.boot kernelHeap) = .ok () pageZeroBooted :=
  Machine.eq_ok_of_value (by decide +kernel)

theorem pageZero_neverNull_iff :
    NeverNull pageZeroBooted ↔ pageZeroBooted.SkipsPageZero ∧ pageZeroBooted.Disjoint :=
  pmmInit_neverNull_iff pageZero_pmmInit

/-- There `pmm_alloc_order` takes the page off its list and returns the null
pointer. -/
theorem pageZero_handed_out :
    pmmInit pageZeroRam (Pmm.boot kernelHeap) = .ok () pageZeroBooted ∧
      pageZeroBooted.Disjoint ∧
      Machine.value? (pmmAllocOrder 0 pageZeroBooted) = some 0 ∧ ¬ NeverNull pageZeroBooted := by
  have call : Machine.value? (pmmAllocOrder 0 pageZeroBooted) = some 0 := by decide +kernel
  refine ⟨pageZero_pmmInit, by decide +kernel, call, fun never => ?_⟩
  exact ((never _ _ .refl (.order 0) 0 _ (Machine.eq_ok_of_value call)).1 trivial).1 rfl

end ArkoiOs
