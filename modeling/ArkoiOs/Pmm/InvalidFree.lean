import ArkoiOs.Pmm.Calls

/-!
# Invalid frees

`pmm_free` tells a live allocation by the mark of its pool entry.  Coalescing
clears the mark of a free upper buddy it swallows, and nothing sets it again
until a split makes the page the start of a free block.  Until then a second
free of that page passes every check.
-/

namespace ArkoiOs

open Dyadic

/-- Unless the address is live, `pmm_free` panics before it changes anything. -/
def RejectsInvalidFree (pmm : Pmm) (ledger : Ledger) (address : UInt32) : Prop :=
  address ∉ ledger.live →
    ∃ format args, pmmFree address pmm = .error (.panic format args) pmm

/-- Putting back the region that is there changes nothing. -/
theorem Pmm.setRegion_self {pmm : Pmm} {index : ℕ} {region : PmmRegion}
    (here : pmm.regions[index]? = some region) : pmm.setRegion index region = pmm := by
  obtain ⟨bound, rfl⟩ := List.getElem?_eq_some_iff.1 here
  rw [Pmm.setRegion, List.set_getElem_self bound]

namespace PmmInv

variable {pmm : Pmm} {ledger : Ledger} {address : UInt32}

/-- An address that is neither live nor absorbed is refused. -/
theorem pmmFree_of_not_absorbed (inv : PmmInv pmm ledger) (nonzero : address ≠ 0)
    (dead : address ∉ ledger.live) (fresh : address ∉ ledger.absorbed) :
    ∃ format args, pmmFree address pmm = .error (.panic format args) pmm := by
  have wf := inv.wellFormed
  by_cases owned : ∃ region ∈ pmm.regions, region.Owns address
  · rcases owned with ⟨region, mem, i, bound, rfl⟩
    obtain ⟨lists, sound⟩ := inv.sound region mem
    obtain ⟨index, here, call⟩ := wf.pmmFree_eq mem bound nonzero
    have marked : (region.blockPool i).isFree = true := by
      rw [← Bool.not_eq_false, sound.marks i bound, not_or]
      exact ⟨fun h => dead h.2, fun h => fresh h.2⟩
    have refused := PmmRegion.freeInRegion_of_isFree sound.geometry bound marked
    have run := call.trans (onRegion_of_error here refused)
    rw [Pmm.setRegion_self here] at run
    exact ⟨_, _, run⟩
  · by_cases aligned : address.toNat % 4096 = 0
    · cases found : findRegionByAddress pmm.regions address with
      | none =>
          refine ⟨"Attempted to free memory at address %p which does not belong to any region",
            [address], ?_⟩
          unfold pmmFree
          rw [if_neg nonzero, if_neg (not_not.2 ((and_page_mask_eq_zero_iff _).2 aligned)),
            Machine.bind_of_ok (Machine.get_run pmm)]
          simp only [found]
          rfl
      | some index =>
          obtain ⟨region, here, lower, upper⟩ := findRegionByAddress_some found
          have mem := List.mem_of_getElem? here
          exact (owned ⟨region, mem,
            (wf.geometry mem).exists_pageAddress lower upper aligned⟩).elim
    · refine ⟨"Attempted to free a pointer %p that is not properly aligned", [address], ?_⟩
      unfold pmmFree
      rw [if_neg nonzero, if_pos (mt (and_page_mask_eq_zero_iff _).1 aligned)]
      rfl

/-- A live address is not absorbed. -/
theorem live_not_absorbed (inv : PmmInv pmm ledger) (live : address ∈ ledger.live) :
    address ∉ ledger.absorbed := by
  obtain ⟨region, mem, i, bound, rfl⟩ := inv.liveOwned address live
  obtain ⟨lists, sound⟩ := inv.sound region mem
  exact fun absorbed => sound.unabsorbed i ⟨bound, live⟩ ⟨bound, absorbed⟩

/-- An absorbed address passes the checks of `pmm_free`, which then marks its
entry: however the call ends, the state has changed. -/
theorem pmmFree_of_absorbed (inv : PmmInv pmm ledger) (nonzero : address ≠ 0)
    (absorbed : address ∈ ledger.absorbed) (fault : Fault) :
    pmmFree address pmm ≠ .error fault pmm := by
  have wf := inv.wellFormed
  obtain ⟨region, mem, i, bound, rfl⟩ := inv.absorbedOwned address absorbed
  obtain ⟨lists, sound⟩ := inv.sound region mem
  obtain ⟨index, here, call⟩ := wf.pmmFree_eq mem bound nonzero
  have clear : (region.blockPool i).isFree = false :=
    (sound.marks i bound).2 (Or.inr ⟨bound, absorbed⟩)
  have marked := PmmRegion.freeInRegion_of_not_isFree sound.geometry sound.record bound clear
  intro refused
  rw [call] at refused
  cases run : freeInRegion (region.pageAddress i) region with
  | ok _ region' =>
      rw [onRegion_of_ok here run] at refused
      cases refused
  | error fault' region' =>
      rw [onRegion_of_error here run] at refused
      injection refused with _ same
      have back : region' = region := by
        have there := congrArg (fun pmm : Pmm => pmm.regions[index]?) same
        simp only [Pmm.setRegion, here,
          List.getElem?_set_self (List.getElem?_eq_some_iff.1 here).1] at there
        injection there
      rw [run, Machine.final, back, clear] at marked
      cases marked

end PmmInv

/-! ## A block and its buddy, both freed -/

/-- The upper page was freed, then the lower one, which coalesced them. -/
def upperFreed : Pmm := Machine.final (pmmFree 0x2000 bothAllocated)

def bothFreed : Pmm := Machine.final (pmmFree 0x1000 upperFreed)

theorem bothFreed_reachable : ∃ ledger, Reachable bothFreed ledger ∧ ledger.live = ∅ := by
  have freeUpper : Machine.value? (pmmFree 0x2000 bothAllocated) = some () := by decide +kernel
  have freeLower : Machine.value? (pmmFree 0x1000 upperFreed) = some () := by decide +kernel
  have run := bothAllocated_reachable.free (Or.inl rfl) (by decide) freeUpper
  have lowerLive : (0x1000 : UInt32) ∈ (bothLive.freed bothAllocated upperFreed 0x2000).live :=
    ⟨Or.inr (Or.inl rfl), by decide⟩
  refine ⟨_, run.free lowerLive (by decide) freeLower, Set.eq_empty_of_forall_notMem fun a h => ?_⟩
  rcases h with ⟨⟨rfl | rfl | h, upper⟩, lower⟩
  · exact upper rfl
  · exact lower rfl
  · exact h

/-! ## Which invalid frees are rejected -/

/-- `pmm_free` rejects an invalid free of an address exactly when the address is
not the start of a free block that was swallowed as an upper buddy and not split
off again. -/
theorem Reachable.rejectsInvalidFree_iff {pmm : Pmm} {ledger : Ledger} {address : UInt32}
    (h : Reachable pmm ledger) (nonzero : address ≠ 0) :
    RejectsInvalidFree pmm ledger address ↔ address ∉ ledger.absorbed := by
  refine ⟨fun rejects absorbed => ?_, fun fresh dead =>
    h.inv.pmmFree_of_not_absorbed nonzero dead fresh⟩
  obtain ⟨format, args, refused⟩ :=
    rejects fun live => h.inv.live_not_absorbed live absorbed
  exact h.inv.pmmFree_of_absorbed nonzero absorbed _ refused

/-- The criterion at a state where everything has been freed. -/
theorem bothFreed_rejectsInvalidFree_iff : ∃ ledger, Reachable bothFreed ledger ∧
    (RejectsInvalidFree bothFreed ledger 0x2000 ↔ 0x2000 ∉ ledger.absorbed) := by
  rcases bothFreed_reachable with ⟨ledger, reach, -⟩
  exact ⟨ledger, reach, reach.rejectsInvalidFree_iff (by decide)⟩

/-- Nothing is live, and yet a second `pmm_free` of the upper page returns.  The
page is then on the list of order 0 and inside the free block of order 1, so the
next two allocations overlap. -/
theorem doubleFree_accepted : ∃ ledger, Reachable bothFreed ledger ∧ ledger.live = ∅ ∧
    ¬ RejectsInvalidFree bothFreed ledger 0x2000 ∧
    Machine.value? ((do
      pmmFree 0x2000
      let page ← pmmAllocOrder 0
      let pair ← pmmAllocOrder 1
      pure (page, pair)) bothFreed) = some (0x2000, 0x1000) := by
  rcases bothFreed_reachable with ⟨ledger, reach, dead⟩
  refine ⟨ledger, reach, dead, fun rejects => ?_, by decide +kernel⟩
  obtain ⟨format, args, refused⟩ := rejects (by rw [dead]; exact Set.notMem_empty _)
  have accepted : Machine.value? (pmmFree 0x2000 bothFreed) = some () := by decide +kernel
  rw [refused] at accepted
  cases accepted

end ArkoiOs
