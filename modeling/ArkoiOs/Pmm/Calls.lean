import ArkoiOs.Pmm.Run

/-!
# What the calls do to a run

One lemma for each call of the allocator: what a returning call did to the
invariant, the live allocations and the managed ranges.  `Reachable.inv` is the
induction over a run that every result about reachable states starts from.
-/

namespace ArkoiOs

open Dyadic

namespace PmmInv

variable {pmm pmm' : Pmm} {ledger : Ledger} {address : UInt32} {order : ℕ}

/-- Absorbed starts are not the starts of free blocks. -/
theorem absorbed_not_freeHead (inv : PmmInv pmm ledger) (mem : address ∈ ledger.absorbed) :
    ¬ pmm.FreeHead address := by
  intro ⟨region, hr, i, bound, same, order, on⟩
  obtain ⟨lists, sound⟩ := inv.sound region hr
  refine sound.free_not_absorbed ((sound.listed.onFreeList_iff order i).1 on) ⟨bound, ?_⟩
  rw [← same]
  exact mem

end PmmInv

/-! ## Allocation -/

/-- What a returning `pmm_alloc_order` did: it took `address` from the start of
a free block that was large enough. -/
structure Allocated (pmm pmm' : Pmm) (ledger : Ledger) (order : ℕ) (address : UInt32) : Prop where
  bounded : order ≤ maxOrder
  inv : PmmInv pmm' (ledger.allocated pmm' address)
  ranges : pmm'.ranges = pmm.ranges
  fresh : address ∉ ledger.live
  allocations : pmm'.allocations (ledger.allocated pmm' address) =
    insert (address, order) (pmm.allocations ledger)
  source : ∃ region ∈ pmm.regions, ∃ target k, order ≤ k ∧ region.OnFreeList k target ∧
    address = region.pageAddress target

/-- `find_region_for_order` finds a region with a sufficient free block. -/
theorem findRegionForOrder_some {regions : List PmmRegion} {order index : ℕ}
    (found : findRegionForOrder regions order = some index) :
    ∃ region, regions[index]? = some region ∧ region.availableOrder order ≤ maxOrder := by
  obtain ⟨bound, accepts, -⟩ := List.findIdx?_eq_some_iff_getElem.1 found
  exact ⟨regions[index], List.getElem?_eq_getElem bound, of_decide_eq_true accepts⟩

/-- It finds none only when no region has one. -/
theorem findRegionForOrder_none {regions : List PmmRegion} {order : ℕ}
    (missing : findRegionForOrder regions order = none) :
    ∀ region ∈ regions, ¬ region.availableOrder order ≤ maxOrder := by
  intro region mem
  exact of_decide_eq_false (List.findIdx?_eq_none_iff.1 missing region mem)

/-- Allocating in the region `find_region_for_order` found keeps the invariant. -/
theorem PmmInv.allocated {pmm : Pmm} {ledger : Ledger} {order index : ℕ} {region : PmmRegion}
    (inv : PmmInv pmm ledger) (bounded : order ≤ maxOrder)
    (here : pmm.regions[index]? = some region)
    (available : region.availableOrder order ≤ maxOrder) :
    ∃ address pmm', onRegion index (allocFromRegion order) pmm = .ok address pmm' ∧
      Allocated pmm pmm' ledger order address := by
  have mem := List.mem_of_getElem? here
  obtain ⟨lists, sound⟩ := inv.sound region mem
  obtain ⟨target, region', lists', run, extent, sound', recorded, others, k, large, head⟩ :=
    sound.allocFromRegion_ok bounded available
  have bound := sound.free_bound head
  have wf := inv.wellFormed
  have absorbed : region.pagesIn (ledger.allocated (pmm.setRegion index region')
      (region.pageAddress target)).absorbed =
        region.pagesIn ledger.absorbed \ {i | PmmRegion.Head lists' i} := by
    apply Set.ext
    intro i
    change (i < _ ∧ _ ∧ ¬ _) ↔ (i < _ ∧ _) ∧ ¬ PmmRegion.Head lists' i
    rw [and_assoc]
    refine and_congr_right fun hi => and_congr_right fun _ => not_congr ?_
    exact wf.freeHead_replaced here extent sound' hi
  refine ⟨region.pageAddress target, pmm.setRegion index region',
    onRegion_of_ok here run, bounded, ?_, Pmm.ranges_setRegion here extent, ?_, ?_,
    region, mem, target, k, large, (sound.listed.onFreeList_iff k target).2 head, rfl⟩
  · refine inv.setRegion here extent ⟨lists', ?_⟩ fun a outside => ⟨?_, ?_⟩
    · rw [absorbed]
      change PmmRegion.Sound region' lists' (region.pagesIn (insert _ ledger.live)) _ ∅
      rw [sound.geometry.pagesIn_insert bound]
      exact sound'
    · apply or_iff_right
      intro same
      exact outside ⟨target, bound, same⟩
    · apply and_iff_left_of_imp
      intro mem free
      exact inv.absorbed_not_freeHead mem ((wf.atPage_setRegion here extent outside _).1 free)
  · exact fun h => sound.free_not_live head ⟨bound, h⟩
  · refine Set.ext fun ⟨a, k⟩ => ?_
    simp only [Pmm.allocations, Set.mem_ofPred_eq, Set.mem_insert_iff, Prod.mk.injEq,
      Ledger.allocated]
    by_cases owns : region.Owns a
    · rcases owns with ⟨i, hi, rfl⟩
      rw [Pmm.RecordsOrder, wf.atPage_replaced here extent sound' hi, Pmm.RecordsOrder,
        wf.atPage_iff mem hi]
      by_cases same : i = target
      · subst same
        have fresh : region.pageAddress i ∉ ledger.live :=
          fun h => sound.free_not_live head ⟨bound, h⟩
        simp only [true_and, fresh, false_and, or_false, recorded, eq_comm]
      · have ne : region.pageAddress i ≠ region.pageAddress target :=
          fun eq => same (sound.geometry.pageAddress_inj hi bound eq)
        simp only [ne, false_or, false_and]
        apply and_congr_right
        intro h
        rw [others i ⟨hi, h⟩]
    · have ne : a ≠ region.pageAddress target := fun eq => owns ⟨target, bound, eq⟩
      simp only [ne, false_or, false_and, Pmm.RecordsOrder,
        wf.atPage_setRegion here extent owns]

/-- A returning `pmm_alloc_order` allocated. -/
theorem PmmInv.allocOrder {pmm pmm' : Pmm} {ledger : Ledger} {order : ℕ} {address : UInt32}
    (inv : PmmInv pmm ledger) (run : pmmAllocOrder order pmm = .ok address pmm') :
    Allocated pmm pmm' ledger order address := by
  unfold pmmAllocOrder at run
  by_cases large : order > maxOrder
  · simp only [if_pos large] at run
    cases run
  simp only [if_neg large] at run
  rw [Machine.bind_of_ok (Machine.get_run pmm)] at run
  cases found : findRegionForOrder pmm.regions order with
  | none =>
      simp only [found] at run
      cases run
  | some index =>
      simp only [found] at run
      obtain ⟨region, here, available⟩ := findRegionForOrder_some found
      obtain ⟨address', pmm₁, run', allocated⟩ :=
        inv.allocated (Nat.le_of_not_lt large) here available
      rw [run'] at run
      cases run
      exact allocated

/-- A returning `pmm_alloc_size` of a size above 0 allocated some order. -/
theorem pmmAllocSize_ok {size address : UInt32} {pmm pmm' : Pmm} (positive : size ≠ 0)
    (run : pmmAllocSize size pmm = .ok address pmm') :
    ∃ order, sizeToOrder size = some order ∧ pmmAllocOrder order pmm = .ok address pmm' := by
  unfold pmmAllocSize at run
  rw [if_neg positive] at run
  cases order : sizeToOrder size with
  | none =>
      simp only [order] at run
      cases run
  | some k =>
      simp only [order] at run
      exact ⟨k, rfl, run⟩

/-- A returning `pmm_alloc_pages` of some pages is a `pmm_alloc_size` of their
bytes, which do not wrap. -/
theorem pmmAllocPages_ok {numPages address : UInt32} {pmm pmm' : Pmm} (positive : numPages ≠ 0)
    (run : pmmAllocPages numPages pmm = .ok address pmm') :
    (numPages * pageSize).toNat = numPages.toNat * 4096 ∧ numPages * pageSize ≠ 0 ∧
      pmmAllocSize (numPages * pageSize) pmm = .ok address pmm' := by
  unfold pmmAllocPages at run
  rw [if_neg positive] at run
  by_cases large : numPages > 0xFFFFFFFF / pageSize
  · rw [if_pos large] at run
    cases run
  rw [if_neg large] at run
  have limit : (0xFFFFFFFF / pageSize : UInt32).toNat = 1048575 := by decide
  have small := UInt32.le_iff_toNat_le.1 (UInt32.not_lt.1 large)
  rw [limit] at small
  have bytes : (numPages * pageSize).toNat = numPages.toNat * 4096 := by
    rw [UInt32.toNat_mul, pageSize_toNat]
    exact Nat.mod_eq_of_lt (by omega)
  refine ⟨bytes, fun zero => positive (UInt32.toNat_inj.1 ?_), run⟩
  rw [zero] at bytes
  change 0 = numPages.toNat * 4096 at bytes
  change numPages.toNat = 0
  omega

/-- Requests for nothing return the null pointer and change nothing. -/
theorem pmmAllocNothing_ok {address : UInt32} {pmm pmm' : Pmm}
    (run : pmmAllocSize 0 pmm = .ok address pmm' ∨ pmmAllocPages 0 pmm = .ok address pmm') :
    address = 0 ∧ pmm' = pmm := by
  rcases run with run | run <;> cases run <;> exact ⟨rfl, rfl⟩

/-! ## Freeing -/

/-- `find_region_by_address` finds a region around the address. -/
theorem findRegionByAddress_some {regions : List PmmRegion} {address : UInt32} {index : ℕ}
    (found : findRegionByAddress regions address = some index) :
    ∃ region, regions[index]? = some region ∧ region.start ≤ address ∧ address < region.end_ := by
  obtain ⟨bound, accepts, -⟩ := List.findIdx?_eq_some_iff_getElem.1 found
  rw [Bool.and_eq_true, decide_eq_true_iff, decide_eq_true_iff] at accepts
  exact ⟨regions[index], List.getElem?_eq_getElem bound, accepts⟩

/-- It finds none only when the address is in no region. -/
theorem findRegionByAddress_none {regions : List PmmRegion} {address : UInt32}
    (missing : findRegionByAddress regions address = none) :
    ∀ region ∈ regions, ¬ (region.start ≤ address ∧ address < region.end_) := by
  intro region mem inside
  have rejects := List.findIdx?_eq_none_iff.1 missing region mem
  rw [decide_eq_true inside.1, decide_eq_true inside.2] at rejects
  cases rejects

/-- The page-address test of `pmm_free`. -/
theorem and_page_mask_eq_zero_iff (address : UInt32) :
    address &&& (pageSize - 1) = 0 ↔ address.toNat % 4096 = 0 := by
  rw [← UInt32.toNat_inj, and_page_mask]
  rfl

/-- The page address of a region is page-aligned. -/
theorem PmmRegion.Geometry.pageAddress_aligned {region : PmmRegion} (geometry : region.Geometry)
    {i : ℕ} (bound : i < region.blockPoolSize) : (region.pageAddress i).toNat % 4096 = 0 := by
  have aligned := geometry.aligned
  rw [geometry.pageAddress_toNat bound.le]
  omega

/-- At the address of a page, `pmm_free` works in the region of the page. -/
theorem Pmm.WellFormed.pmmFree_eq {pmm : Pmm} (wf : pmm.WellFormed) {region : PmmRegion}
    (mem : region ∈ pmm.regions) {i : ℕ} (bound : i < region.blockPoolSize)
    (nonzero : region.pageAddress i ≠ 0) :
    ∃ index, pmm.regions[index]? = some region ∧
      pmmFree (region.pageAddress i) pmm =
        onRegion index (freeInRegion (region.pageAddress i)) pmm := by
  have geometry := wf.geometry mem
  have aligned := geometry.pageAddress_aligned bound
  have inside := geometry.start_le_pageAddress bound
  cases found : findRegionByAddress pmm.regions (region.pageAddress i) with
  | none => exact (findRegionByAddress_none found region mem inside).elim
  | some index =>
      obtain ⟨other, here, lower, upper⟩ := findRegionByAddress_some found
      have mem' := List.mem_of_getElem? here
      obtain ⟨j, hj, same⟩ := (wf.geometry mem').exists_pageAddress lower upper aligned
      obtain rfl := wf.owner_unique mem mem' ⟨i, bound, rfl⟩ ⟨j, hj, same⟩
      refine ⟨index, here, ?_⟩
      unfold pmmFree
      rw [if_neg nonzero, if_neg (not_not.2 ((and_page_mask_eq_zero_iff _).2 aligned)),
        Machine.bind_of_ok (Machine.get_run pmm)]
      simp only [found]

/-- What a returning `pmm_free` of a live address did. -/
structure Freed (pmm pmm' : Pmm) (ledger : Ledger) (address : UInt32) : Prop where
  inv : PmmInv pmm' (ledger.freed pmm pmm' address)
  ranges : pmm'.ranges = pmm.ranges
  allocations : pmm'.allocations (ledger.freed pmm pmm' address) =
    pmm.allocations ledger \ {a | a.1 = address}

/-- `pmm_free` of a live address returns and keeps the invariant. -/
theorem PmmInv.freed {pmm : Pmm} {ledger : Ledger} {address : UInt32} (inv : PmmInv pmm ledger)
    (live : address ∈ ledger.live) (nonzero : address ≠ 0) :
    ∃ pmm', pmmFree address pmm = .ok () pmm' ∧ Freed pmm pmm' ledger address := by
  obtain ⟨region, mem, target, bound, rfl⟩ := inv.liveOwned address live
  obtain ⟨lists, sound⟩ := inv.sound region mem
  obtain ⟨region', lists', run, extent, sound', others⟩ :=
    sound.freeInRegion_ok (i := target) ⟨bound, live⟩
  have wf := inv.wellFormed
  obtain ⟨index, here, call⟩ := wf.pmmFree_eq mem bound nonzero
  have absorbed : region.pagesIn (ledger.freed pmm (pmm.setRegion index region')
      (region.pageAddress target)).absorbed = {i | i ∈ region.pagesIn ledger.absorbed ∨
        (target < i ∧ PmmRegion.Head lists i ∧ ¬ PmmRegion.Head lists' i)} := by
    apply Set.ext
    intro i
    have inLists : PmmRegion.Head lists i → i < region.blockPoolSize :=
      fun ⟨_, h⟩ => sound.free_bound h
    have above : ∀ hi : i < region.blockPoolSize,
        (region.pageAddress target < region.pageAddress i ↔ target < i) := by
      intro hi
      rw [UInt32.lt_iff_toNat_lt, sound.geometry.pageAddress_toNat bound.le,
        sound.geometry.pageAddress_toNat hi.le]
      omega
    have before := fun hi : i < region.blockPoolSize => wf.freeHead_iff mem sound.listed hi
    have after := fun hi : i < region.blockPoolSize => wf.freeHead_replaced here extent sound' hi
    refine ⟨fun ⟨hi, h⟩ => h.imp (fun h => ⟨hi, h⟩) fun ⟨higher, free, gone⟩ =>
      ⟨(above hi).1 higher, (before hi).1 free, mt (after hi).2 gone⟩, fun h => ?_⟩
    rcases h with ⟨hi, h⟩ | ⟨higher, free, gone⟩
    · exact ⟨hi, Or.inl h⟩
    · have hi := inLists free
      exact ⟨hi, Or.inr ⟨(above hi).2 higher, (before hi).2 free, mt (after hi).1 gone⟩⟩
  refine ⟨pmm.setRegion index region', call.trans (onRegion_of_ok here run), ?_,
    Pmm.ranges_setRegion here extent, ?_⟩
  · refine inv.setRegion here extent ⟨lists', ?_⟩ fun a outside => ⟨?_, ?_⟩
    · rw [absorbed]
      change PmmRegion.Sound region' lists' (region.pagesIn (ledger.live \ _)) _ ∅
      rw [sound.geometry.pagesIn_sdiff bound]
      exact sound'
    · apply and_iff_left
      intro same
      exact outside ⟨target, bound, same⟩
    · refine or_iff_left fun ⟨_, free, gone⟩ => ?_
      exact gone ((wf.atPage_setRegion here extent outside _).2 free)
  · refine Set.ext fun ⟨a, k⟩ => ?_
    simp only [Pmm.allocations, Set.mem_ofPred_eq, Set.mem_sdiff, Ledger.freed,
      Set.mem_singleton_iff]
    rw [and_assoc, and_assoc]
    apply and_congr_right
    intro h
    rw [and_comm]
    apply and_congr_left
    intro ne
    by_cases owns : region.Owns a
    · rcases owns with ⟨i, hi, rfl⟩
      rw [Pmm.RecordsOrder, wf.atPage_replaced here extent sound' hi, Pmm.RecordsOrder,
        wf.atPage_iff mem hi,
        others i ⟨⟨hi, h⟩, mt (sound.geometry.pageAddress_eq_iff hi bound).2 ne⟩]
    · exact wf.atPage_setRegion here extent owns _

/-! ## Adding a region -/

/-- Adding a region that is apart from the others keeps the invariant. -/
theorem PmmInv.addRegion {pmm pmm' : Pmm} {ledger : Ledger} {start size : UInt32}
    (inv : PmmInv pmm ledger) (run : pmmAddRegion start size pmm = .ok () pmm')
    (disjoint : pmm'.Disjoint) : PmmInv pmm' ledger := by
  obtain ⟨-, ⟨-, rfl⟩ | ⟨-, region, fresh, regions⟩⟩ := pmmAddRegion_ok run
  · exact inv
  rcases fresh.sound with ⟨lists, sound⟩
  have apart : ∀ other ∈ pmm.regions, other.Apart region := by
    unfold Pmm.Disjoint at disjoint
    rw [regions, List.pairwise_append] at disjoint
    exact fun other mem => disjoint.2.2 other mem region (List.mem_singleton_self region)
  have old : ∀ other ∈ pmm.regions, other ∈ pmm'.regions := by
    intro other mem
    rw [regions]
    exact List.mem_append_left _ mem
  have owned : ∀ a, (∃ region ∈ pmm.regions, region.Owns a) →
      ∃ region ∈ pmm'.regions, region.Owns a :=
    fun a ⟨other, mem, owns⟩ => ⟨other, old other mem, owns⟩
  have unused : ∀ S : Set UInt32, (∀ a ∈ S, ∃ region ∈ pmm.regions, region.Owns a) →
      region.pagesIn S = ∅ := by
    intro S within
    refine Set.eq_empty_of_forall_notMem fun i ⟨hi, h⟩ => ?_
    obtain ⟨other, mem, owns⟩ := within _ h
    exact (apart other mem).not_owns (inv.wellFormed.geometry mem) sound.geometry owns
      ⟨i, hi, rfl⟩
  refine ⟨disjoint, fun other mem => ?_, fun a ha => owned a (inv.liveOwned a ha),
    fun a ha => owned a (inv.absorbedOwned a ha)⟩
  rw [regions, List.mem_append, List.mem_singleton] at mem
  rcases mem with mem | rfl
  · exact inv.sound other mem
  · rw [unused _ inv.liveOwned, unused _ inv.absorbedOwned]
    exact ⟨lists, sound⟩

/-! ## Runs -/

/-- What one allocation step does to the live allocations: one more, one less,
or none changed. -/
inductive AllocEffect (before after : Pmm × Ledger) : Prop
  | allocated {order : ℕ} {address : UInt32} :
      Allocated before.1 after.1 before.2 order address →
      after.2 = before.2.allocated after.1 address → AllocEffect before after
  | freed {address : UInt32} : address ∈ before.2.live → Freed before.1 after.1 before.2 address →
      after.2 = before.2.freed before.1 after.1 address → AllocEffect before after
  | unchanged : after = before → AllocEffect before after

/-- Every step of a run from a state with the invariant has one of the three
effects. -/
theorem AllocStep.effect {before after : Pmm × Ledger} (step : AllocStep before after)
    (inv : PmmInv before.1 before.2) : AllocEffect before after := by
  cases step with
  | allocOrder run => exact .allocated (inv.allocOrder run) rfl
  | allocSize positive run =>
      obtain ⟨order, -, run⟩ := pmmAllocSize_ok positive run
      exact .allocated (inv.allocOrder run) rfl
  | allocPages positive run =>
      obtain ⟨-, positive, run⟩ := pmmAllocPages_ok positive run
      obtain ⟨order, -, run⟩ := pmmAllocSize_ok positive run
      exact .allocated (inv.allocOrder run) rfl
  | allocNothing run =>
      obtain ⟨-, rfl⟩ := pmmAllocNothing_ok run
      exact .unchanged rfl
  | free live nonzero run =>
      obtain ⟨pmm', run', freed⟩ := inv.freed live nonzero
      rw [run'] at run
      cases run
      exact .freed live freed rfl
  | freeNull run =>
      cases run
      exact .unchanged rfl

theorem AllocEffect.inv {before after : Pmm × Ledger} (effect : AllocEffect before after)
    (inv : PmmInv before.1 before.2) : PmmInv after.1 after.2 := by
  cases effect with
  | allocated allocated ledger => exact ledger ▸ allocated.inv
  | freed _ freed ledger => exact ledger ▸ freed.inv
  | unchanged same => exact same ▸ inv

theorem AllocEffect.ranges {before after : Pmm × Ledger} (effect : AllocEffect before after) :
    after.1.ranges = before.1.ranges := by
  cases effect with
  | allocated allocated _ => exact allocated.ranges
  | freed _ freed _ => exact freed.ranges
  | unchanged same => rw [same]

theorem PmmStep.inv {before after : Pmm × Ledger} (inv : PmmInv before.1 before.2)
    (step : PmmStep before after) : PmmInv after.1 after.2 := by
  cases step with
  | addRegion run disjoint => exact inv.addRegion run disjoint
  | call step => exact (step.effect inv).inv inv

/-- Nothing is managed at boot. -/
theorem PmmInv.boot (emm : Emm) : PmmInv (Pmm.boot emm) Ledger.empty where
  disjoint := .nil
  sound _ mem := (List.not_mem_nil mem).elim
  liveOwned _ mem := mem.elim
  absorbedOwned _ mem := mem.elim

/-- Reachable states satisfy the invariant. -/
theorem Reachable.inv {pmm : Pmm} {ledger : Ledger} (h : Reachable pmm ledger) :
    PmmInv pmm ledger := by
  rcases h with ⟨emm, run⟩
  exact run.invariant_of_step (P := fun s => PmmInv s.1 s.2) (.boot emm)
    fun s t inv step => PmmStep.inv inv step

namespace Reachable

variable {pmm : Pmm} {ledger : Ledger}

theorem boot (emm : Emm) : Reachable (Pmm.boot emm) Ledger.empty := ⟨emm, .refl⟩

theorem tail {pmm' : Pmm} {ledger' : Ledger} (h : Reachable pmm ledger)
    (step : PmmStep (pmm, ledger) (pmm', ledger')) : Reachable pmm' ledger' := by
  rcases h with ⟨emm, run⟩
  exact ⟨emm, run.tail step⟩

/-- A call that returns is a step to the state it ends in. -/
theorem addRegion (h : Reachable pmm ledger) {start size : UInt32}
    (returns : Machine.value? (pmmAddRegion start size pmm) = some ())
    (disjoint : (Machine.final (pmmAddRegion start size pmm)).Disjoint) :
    Reachable (Machine.final (pmmAddRegion start size pmm)) ledger :=
  h.tail (.addRegion (Machine.eq_ok_of_value returns) disjoint)

theorem allocOrder (h : Reachable pmm ledger) {order : ℕ} {address : UInt32}
    (returns : Machine.value? (pmmAllocOrder order pmm) = some address) :
    Reachable (Machine.final (pmmAllocOrder order pmm))
      (ledger.allocated (Machine.final (pmmAllocOrder order pmm)) address) :=
  h.tail (.call (.allocOrder (Machine.eq_ok_of_value returns)))

theorem free (h : Reachable pmm ledger) {address : UInt32} (live : address ∈ ledger.live)
    (nonzero : address ≠ 0) (returns : Machine.value? (pmmFree address pmm) = some ()) :
    Reachable (Machine.final (pmmFree address pmm))
      (ledger.freed pmm (Machine.final (pmmFree address pmm)) address) :=
  h.tail (.call (.free live nonzero (Machine.eq_ok_of_value returns)))

end Reachable

/-- Runs of allocations and frees lead from reachable states to reachable
states and keep the managed ranges. -/
theorem Reachable.run {pmm pmm' : Pmm} {ledger ledger' : Ledger} (h : Reachable pmm ledger)
    (run : AllocRun (pmm, ledger) (pmm', ledger')) :
    Reachable pmm' ledger' ∧ pmm'.ranges = pmm.ranges := by
  refine run.invariant_of_step (P := fun s => Reachable s.1 s.2 ∧ s.1.ranges = pmm.ranges)
    ⟨h, rfl⟩ fun s t ⟨reach, ranges⟩ step => ?_
  exact ⟨reach.tail (.call step), (step.effect reach.inv).ranges.trans ranges⟩

/-! ## A region of two pages -/

/-- A region of two pages at 4 KiB. -/
def twoPages : Pmm := Machine.final (pmmAddRegion 0x1000 0x2000 (Pmm.boot kernelHeap))

/-- The lower page was allocated, then the upper one. -/
def lowerAllocated : Pmm := Machine.final (pmmAllocOrder 0 twoPages)

def bothAllocated : Pmm := Machine.final (pmmAllocOrder 0 lowerAllocated)

/-- The ledgers after the two allocations. -/
def lowerLive : Ledger := Ledger.empty.allocated lowerAllocated 0x1000

def bothLive : Ledger := lowerLive.allocated bothAllocated 0x2000

theorem twoPages_step :
    PmmStep (Pmm.boot kernelHeap, Ledger.empty) (twoPages, Ledger.empty) :=
  .addRegion (Machine.eq_ok_of_value (by decide +kernel)) (by decide +kernel)

theorem lowerAllocated_step : PmmStep (twoPages, Ledger.empty) (lowerAllocated, lowerLive) :=
  .call (.allocOrder (Machine.eq_ok_of_value (by decide +kernel)))

theorem bothAllocated_step : PmmStep (lowerAllocated, lowerLive) (bothAllocated, bothLive) :=
  .call (.allocOrder (Machine.eq_ok_of_value (by decide +kernel)))

theorem bothAllocated_run : Relation.ReflTransGen PmmStep
    (Pmm.boot kernelHeap, Ledger.empty) (bothAllocated, bothLive) :=
  ((Relation.ReflTransGen.single twoPages_step).tail lowerAllocated_step).tail bothAllocated_step

theorem twoPages_reachable : Reachable twoPages Ledger.empty :=
  (Reachable.boot _).tail twoPages_step

theorem lowerAllocated_reachable : Reachable lowerAllocated lowerLive :=
  twoPages_reachable.tail lowerAllocated_step

theorem bothAllocated_reachable : Reachable bothAllocated bothLive := ⟨_, bothAllocated_run⟩

end ArkoiOs
