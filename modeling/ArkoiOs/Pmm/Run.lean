import Mathlib.Data.List.Pairwise
import ArkoiOs.Pmm.AddRegion

/-!
# Runs of the allocator

A `Ledger` is what an observer of a run can write down without looking into the
pools: the addresses handed out and not freed yet, and the starts of free blocks
that a `pmm_free` of a lower block swallowed and no allocation has split off
again.  `AllocStep` is one allocation or one free of a live address, `PmmStep`
also adds regions.  `PmmInv` connects a state with its ledger, region by region.
-/

namespace ArkoiOs

open Dyadic

/-! ## Ledgers and steps -/

/-- `index` is on the free list of `order`: following the links reaches it. -/
def PmmRegion.OnFreeList (region : PmmRegion) (order index : ℕ) : Prop :=
  ∃ xs, Chain region.links (region.freeLists order) xs ∧ index ∈ xs

/-- The address is the address of a page of some region, and `P` holds there. -/
def Pmm.AtPage (pmm : Pmm) (P : PmmRegion → ℕ → Prop) (address : UInt32) : Prop :=
  ∃ region ∈ pmm.regions, ∃ i < region.blockPoolSize, address = region.pageAddress i ∧ P region i

/-- A free block of some region starts at the address. -/
def Pmm.FreeHead (pmm : Pmm) (address : UInt32) : Prop :=
  pmm.AtPage (fun region i => ∃ order, region.OnFreeList order i) address

/-- The pool entry of the page at the address records the order. -/
def Pmm.RecordsOrder (pmm : Pmm) (address : UInt32) (order : ℕ) : Prop :=
  pmm.AtPage (fun region i => (region.blockPool i).order = order) address

/-- What a run remembers: the live addresses and the absorbed block starts. -/
structure Ledger where
  live : Set UInt32
  absorbed : Set UInt32

namespace Ledger

/-- Nothing allocated, nothing absorbed. -/
def empty : Ledger := ⟨∅, ∅⟩

/-- `address` was handed out and `pmm` is the state after the allocation. -/
def allocated (ledger : Ledger) (pmm : Pmm) (address : UInt32) : Ledger where
  live := insert address ledger.live
  absorbed := {a | a ∈ ledger.absorbed ∧ ¬ pmm.FreeHead a}

/-- `address` was freed between the states `pmm` and `pmm'`.  The free blocks
above it that are gone were swallowed as upper buddies. -/
def freed (ledger : Ledger) (pmm pmm' : Pmm) (address : UInt32) : Ledger where
  live := ledger.live \ {address}
  absorbed := {a | a ∈ ledger.absorbed ∨ (address < a ∧ pmm.FreeHead a ∧ ¬ pmm'.FreeHead a)}

end Ledger

/-- Two regions manage different addresses. -/
def PmmRegion.Apart (region region' : PmmRegion) : Prop :=
  region.end_ ≤ region'.start ∨ region'.end_ ≤ region.start

instance (region region' : PmmRegion) : Decidable (region.Apart region') := by
  unfold PmmRegion.Apart; infer_instance

/-- The managed ranges are pairwise disjoint. -/
def Pmm.Disjoint (pmm : Pmm) : Prop := pmm.regions.Pairwise PmmRegion.Apart

instance (pmm : Pmm) : Decidable pmm.Disjoint := by
  unfold Pmm.Disjoint; infer_instance

/-- No region manages physical page 0. -/
def Pmm.SkipsPageZero (pmm : Pmm) : Prop := ∀ region ∈ pmm.regions, region.start ≠ 0

/-- One allocation, or one free of a live address.  Requests for nothing and the
free of the null pointer change nothing. -/
inductive AllocStep : Pmm × Ledger → Pmm × Ledger → Prop
  | allocOrder {pmm pmm' : Pmm} {ledger : Ledger} {order : ℕ} {address : UInt32} :
      pmmAllocOrder order pmm = .ok address pmm' →
      AllocStep (pmm, ledger) (pmm', ledger.allocated pmm' address)
  | allocSize {pmm pmm' : Pmm} {ledger : Ledger} {size address : UInt32} :
      size ≠ 0 → pmmAllocSize size pmm = .ok address pmm' →
      AllocStep (pmm, ledger) (pmm', ledger.allocated pmm' address)
  | allocPages {pmm pmm' : Pmm} {ledger : Ledger} {numPages address : UInt32} :
      numPages ≠ 0 → pmmAllocPages numPages pmm = .ok address pmm' →
      AllocStep (pmm, ledger) (pmm', ledger.allocated pmm' address)
  | allocNothing {pmm pmm' : Pmm} {ledger : Ledger} {address : UInt32} :
      (pmmAllocSize 0 pmm = .ok address pmm' ∨ pmmAllocPages 0 pmm = .ok address pmm') →
      AllocStep (pmm, ledger) (pmm', ledger)
  | free {pmm pmm' : Pmm} {ledger : Ledger} {address : UInt32} :
      address ∈ ledger.live → address ≠ 0 → pmmFree address pmm = .ok () pmm' →
      AllocStep (pmm, ledger) (pmm', ledger.freed pmm pmm' address)
  | freeNull {pmm pmm' : Pmm} {ledger : Ledger} :
      pmmFree 0 pmm = .ok () pmm' → AllocStep (pmm, ledger) (pmm', ledger)

/-- One call: a region is added whose range is disjoint from the ranges managed
so far, or an allocation step. -/
inductive PmmStep : Pmm × Ledger → Pmm × Ledger → Prop
  | addRegion {pmm pmm' : Pmm} {ledger : Ledger} {start size : UInt32} :
      pmmAddRegion start size pmm = .ok () pmm' → pmm'.Disjoint →
      PmmStep (pmm, ledger) (pmm', ledger)
  | call {before after : Pmm × Ledger} : AllocStep before after → PmmStep before after

/-- Runs of allocations and frees. -/
abbrev AllocRun : Pmm × Ledger → Pmm × Ledger → Prop := Relation.ReflTransGen AllocStep

/-- The allocator at boot: no region, an untouched early heap. -/
def Pmm.boot (emm : Emm) : Pmm := ⟨[], emm⟩

/-- A page of early heap in the part of the address space the kernel is linked to. -/
def kernelHeap : Emm := ⟨0xC0100000, 0xC0101000⟩

/-- States a run of calls leads to, with their ledgers. -/
def Reachable (pmm : Pmm) (ledger : Ledger) : Prop :=
  ∃ emm, Relation.ReflTransGen PmmStep (Pmm.boot emm, Ledger.empty) (pmm, ledger)

/-! ## Running on one region -/

section OnRegion

variable {α : Type} {x : KernelM PmmRegion α} {pmm : Pmm} {index : ℕ}
  {region region' : PmmRegion}

theorem onRegion_of_ok {a : α} (here : pmm.regions[index]? = some region)
    (h : x region = .ok a region') : onRegion index x pmm = .ok a (pmm.setRegion index region') :=
  Machine.zoom_of_ok here h

theorem onRegion_of_error {fault : Fault} (here : pmm.regions[index]? = some region)
    (h : x region = .error fault region') :
    onRegion index x pmm = .error fault (pmm.setRegion index region') :=
  Machine.zoom_of_error here h

end OnRegion

/-! ## Pages of regions apart -/

namespace PmmRegion

/-- The pages of a region whose addresses are in a set. -/
def pagesIn (region : PmmRegion) (addresses : Set UInt32) : Set ℕ :=
  {i | i < region.blockPoolSize ∧ region.pageAddress i ∈ addresses}

/-- The address is the address of a page of the region. -/
def Owns (region : PmmRegion) (address : UInt32) : Prop :=
  ∃ i < region.blockPoolSize, address = region.pageAddress i

theorem Apart.symm {region region' : PmmRegion} (h : region.Apart region') :
    region'.Apart region := Or.symm h

instance : Std.Symm Apart := ⟨fun _ _ => Apart.symm⟩

/-- Regions apart own different pages. -/
theorem Apart.not_owns {region region' : PmmRegion} (apart : region.Apart region')
    (geometry : region.Geometry) (geometry' : region'.Geometry) {address : UInt32}
    (owns : region.Owns address) : ¬ region'.Owns address := by
  intro owns'
  rcases owns with ⟨i, hi, eq⟩
  rcases owns' with ⟨j, hj, eq'⟩
  have inside := geometry.start_le_pageAddress hi
  have inside' := geometry'.start_le_pageAddress hj
  rw [← eq] at inside
  rw [← eq'] at inside'
  simp only [UInt32.le_iff_toNat_le, UInt32.lt_iff_toNat_lt] at inside inside'
  rcases apart with h | h <;> rw [UInt32.le_iff_toNat_le] at h <;> omega

theorem SameExtent.owns {region region' : PmmRegion} (h : SameExtent region region')
    (address : UInt32) : region'.Owns address ↔ region.Owns address := by
  unfold Owns
  rw [h.size]
  exact exists_congr fun i => and_congr_right fun _ => by rw [h.pageAddress]

theorem SameExtent.pagesIn {region region' : PmmRegion} (h : SameExtent region region')
    (addresses : Set UInt32) : region'.pagesIn addresses = region.pagesIn addresses := by
  apply Set.ext
  intro i
  simp only [PmmRegion.pagesIn, Set.mem_ofPred_eq, h.size, h.pageAddress]

theorem SameExtent.apart {a b c : PmmRegion} (h : SameExtent a b) :
    Apart b c ↔ Apart a c := by
  unfold Apart
  rw [h.start, h.end_]

/-- Sets that agree on the region have the same pages in it. -/
theorem pagesIn_congr {region : PmmRegion} {S S' : Set UInt32}
    (same : ∀ address, region.Owns address → (address ∈ S ↔ address ∈ S')) :
    region.pagesIn S = region.pagesIn S' :=
  Set.ext fun i => and_congr_right fun hi => same _ ⟨i, hi, rfl⟩

/-- Pages have one address each. -/
theorem Geometry.pageAddress_eq_iff {region : PmmRegion} (geometry : region.Geometry) {i j : ℕ}
    (hi : i < region.blockPoolSize) (hj : j < region.blockPoolSize) :
    region.pageAddress i = region.pageAddress j ↔ i = j :=
  ⟨geometry.pageAddress_inj hi hj, fun same => by rw [same]⟩

theorem Geometry.pagesIn_insert {region : PmmRegion} (geometry : region.Geometry) {target : ℕ}
    (bound : target < region.blockPoolSize) (S : Set UInt32) :
    region.pagesIn (insert (region.pageAddress target) S) = insert target (region.pagesIn S) := by
  apply Set.Subset.antisymm
  · intro i ⟨hi, h⟩
    rcases h with same | h
    · exact Or.inl (geometry.pageAddress_inj hi bound same)
    · exact Or.inr ⟨hi, h⟩
  · intro i h
    rcases h with rfl | ⟨hi, h⟩
    · exact ⟨bound, Or.inl rfl⟩
    · exact ⟨hi, Or.inr h⟩

theorem Geometry.pagesIn_sdiff {region : PmmRegion} (geometry : region.Geometry) {target : ℕ}
    (bound : target < region.blockPoolSize) (S : Set UInt32) :
    region.pagesIn (S \ {region.pageAddress target}) = region.pagesIn S \ {target} := by
  apply Set.Subset.antisymm
  · intro i ⟨hi, h, ne⟩
    exact ⟨⟨hi, h⟩, mt (geometry.pageAddress_eq_iff hi bound).2 ne⟩
  · intro i ⟨⟨hi, h⟩, ne⟩
    exact ⟨hi, h, mt (geometry.pageAddress_eq_iff hi bound).1 ne⟩

/-- On a region with known lists, being on a free list is being in them. -/
theorem Lists.onFreeList_iff {region : PmmRegion} {lists : ℕ → List ℕ}
    (h : region.Lists lists) (order index : ℕ) :
    region.OnFreeList order index ↔ index ∈ lists order := by
  refine ⟨fun ⟨xs, chain, mem⟩ => ?_, fun mem => ⟨_, h.chain order, mem⟩⟩
  rwa [chain.unique (h.chain order)] at mem

end PmmRegion

/-! ## States with sound regions apart -/

/-- The regions are pairwise apart and each is sound for some live and absorbed
pages. -/
structure Pmm.WellFormed (pmm : Pmm) : Prop where
  disjoint : pmm.Disjoint
  sound : ∀ region ∈ pmm.regions, ∃ lists live absorbed, region.Sound lists live absorbed ∅

namespace Pmm.WellFormed

variable {pmm : Pmm} {index : ℕ} {region region' other : PmmRegion} {address : UInt32}

theorem geometry (wf : pmm.WellFormed) (mem : region ∈ pmm.regions) : region.Geometry := by
  obtain ⟨_, _, _, sound⟩ := wf.sound region mem
  exact sound.geometry

/-- An address belongs to one region only. -/
theorem owner_unique (wf : pmm.WellFormed) (mem : region ∈ pmm.regions)
    (mem' : other ∈ pmm.regions) (owns : region.Owns address) (owns' : other.Owns address) :
    region = other := by
  by_contra ne
  have apart := wf.disjoint.forall mem mem' ne
  exact apart.not_owns (wf.geometry mem) (wf.geometry mem') owns owns'

/-- The other positions of the list hold regions apart. -/
theorem apart_of_ne (wf : pmm.WellFormed) (here : pmm.regions[index]? = some region) {j : ℕ}
    (there : pmm.regions[j]? = some other) (ne : j ≠ index) : region.Apart other := by
  obtain ⟨hi, rfl⟩ := List.getElem?_eq_some_iff.1 here
  obtain ⟨hj, rfl⟩ := List.getElem?_eq_some_iff.1 there
  rcases Nat.lt_or_gt_of_ne ne with less | less
  · exact (List.pairwise_iff_getElem.1 wf.disjoint j index hj hi less).symm
  · exact List.pairwise_iff_getElem.1 wf.disjoint index j hi hj less

theorem atPage_iff (wf : pmm.WellFormed) (mem : region ∈ pmm.regions)
    {P : PmmRegion → ℕ → Prop} {i : ℕ} (bound : i < region.blockPoolSize) :
    pmm.AtPage P (region.pageAddress i) ↔ P region i := by
  refine ⟨fun ⟨other, mem', j, bound', same, holds⟩ => ?_, fun holds =>
    ⟨region, mem, i, bound, rfl, holds⟩⟩
  obtain rfl := wf.owner_unique mem mem' ⟨i, bound, rfl⟩ ⟨j, bound', same⟩
  obtain rfl := (wf.geometry mem).pageAddress_inj bound bound' same
  exact holds

/-- A free block starts at a page exactly when the page is on a list of its
region. -/
theorem freeHead_iff (wf : pmm.WellFormed) (mem : region ∈ pmm.regions) {lists : ℕ → List ℕ}
    (listed : region.Lists lists) {i : ℕ} (bound : i < region.blockPoolSize) :
    pmm.FreeHead (region.pageAddress i) ↔ PmmRegion.Head lists i :=
  (wf.atPage_iff mem bound).trans (exists_congr fun order => listed.onFreeList_iff order i)

/-! ### Replacing one region -/

/-- A position of the list after a region was replaced. -/
theorem getElem?_setRegion {j : ℕ} (here : pmm.regions[index]? = some region)
    (there : (pmm.setRegion index region').regions[j]? = some other) :
    (j = index ∧ other = region') ∨ (j ≠ index ∧ pmm.regions[j]? = some other) := by
  change (pmm.regions.set index region')[j]? = _ at there
  by_cases same : j = index
  · subst same
    rw [List.getElem?_set_self (List.getElem?_eq_some_iff.1 here).1] at there
    cases there
    exact Or.inl ⟨rfl, rfl⟩
  · rw [List.getElem?_set_ne (Ne.symm same)] at there
    exact Or.inr ⟨same, there⟩

/-- The members of the list after a region was replaced. -/
theorem mem_setRegion (wf : pmm.WellFormed) (here : pmm.regions[index]? = some region)
    (h : other ∈ (pmm.setRegion index region').regions) :
    other = region' ∨ (other ∈ pmm.regions ∧ region.Apart other) := by
  obtain ⟨j, there⟩ := List.mem_iff_getElem?.1 h
  rcases getElem?_setRegion here there with ⟨-, rfl⟩ | ⟨ne, old⟩
  · exact Or.inl rfl
  · exact Or.inr ⟨List.mem_of_getElem? old, wf.apart_of_ne here old ne⟩

theorem setRegion_mem (here : pmm.regions[index]? = some region) :
    region' ∈ (pmm.setRegion index region').regions :=
  List.mem_iff_getElem?.2 ⟨index,
    List.getElem?_set_self (List.getElem?_eq_some_iff.1 here).1⟩

/-- Regions other than the replaced one stay. -/
theorem mem_setRegion_of_ne (here : pmm.regions[index]? = some region)
    (mem : other ∈ pmm.regions) (ne : other ≠ region) :
    other ∈ (pmm.setRegion index region').regions := by
  obtain ⟨j, there⟩ := List.mem_iff_getElem?.1 mem
  refine List.mem_iff_getElem?.2 ⟨j, ?_⟩
  change (pmm.regions.set index region')[j]? = _
  rw [List.getElem?_set_ne, there]
  intro same
  subst same
  rw [here] at there
  cases there
  exact ne rfl

/-- A sound region of the same extent may take the place of a region. -/
theorem setRegion (wf : pmm.WellFormed) (here : pmm.regions[index]? = some region)
    (extent : PmmRegion.SameExtent region region')
    (sound : ∃ lists live absorbed, region'.Sound lists live absorbed ∅) :
    (pmm.setRegion index region').WellFormed := by
  refine ⟨?_, fun other mem => ?_⟩
  · have shape : ∀ (j : ℕ) (other : PmmRegion),
        (pmm.setRegion index region').regions[j]? = some other →
        ∃ old, pmm.regions[j]? = some old ∧ PmmRegion.SameExtent old other := by
      intro j other there
      rcases getElem?_setRegion here there with ⟨rfl, rfl⟩ | ⟨-, old⟩
      · exact ⟨region, here, extent⟩
      · exact ⟨other, old, .refl other⟩
    apply List.pairwise_iff_getElem.2
    intro i j hi hj less
    obtain ⟨a, ha, sameA⟩ := shape i _ (List.getElem?_eq_getElem hi)
    obtain ⟨b, hb, sameB⟩ := shape j _ (List.getElem?_eq_getElem hj)
    have apart := wf.apart_of_ne ha hb (Nat.ne_of_gt less)
    exact sameA.apart.2 (PmmRegion.Apart.symm (sameB.apart.2 apart.symm))
  · rcases wf.mem_setRegion here mem with rfl | ⟨mem, -⟩
    · exact sound
    · exact wf.sound other mem

/-- What holds at the pages of the other regions stays as it is. -/
theorem atPage_setRegion (wf : pmm.WellFormed) (here : pmm.regions[index]? = some region)
    (extent : PmmRegion.SameExtent region region') (outside : ¬ region.Owns address)
    (P : PmmRegion → ℕ → Prop) :
    (pmm.setRegion index region').AtPage P address ↔ pmm.AtPage P address := by
  refine ⟨fun ⟨other, mem, i, bound, same, holds⟩ => ?_,
    fun ⟨other, mem, i, bound, same, holds⟩ => ?_⟩
  · rcases wf.mem_setRegion here mem with rfl | ⟨old, -⟩
    · exact (outside ((extent.owns address).1 ⟨i, bound, same⟩)).elim
    · exact ⟨other, old, i, bound, same, holds⟩
  · refine ⟨other, mem_setRegion_of_ne here mem ?_, i, bound, same, holds⟩
    intro eq
    exact outside (eq ▸ ⟨i, bound, same⟩)

section Replaced

variable {lists : ℕ → List ℕ} {live absorbed : Set ℕ} {i : ℕ}

/-- What holds at the pages of the replaced region is what holds in the new one. -/
theorem atPage_replaced (wf : pmm.WellFormed) (here : pmm.regions[index]? = some region)
    (extent : PmmRegion.SameExtent region region') (sound : region'.Sound lists live absorbed ∅)
    (bound : i < region.blockPoolSize) {P : PmmRegion → ℕ → Prop} :
    (pmm.setRegion index region').AtPage P (region.pageAddress i) ↔ P region' i := by
  rw [← extent.pageAddress i]
  exact (wf.setRegion here extent ⟨_, _, _, sound⟩).atPage_iff (setRegion_mem here)
    (extent.size.symm ▸ bound)

theorem freeHead_replaced (wf : pmm.WellFormed) (here : pmm.regions[index]? = some region)
    (extent : PmmRegion.SameExtent region region') (sound : region'.Sound lists live absorbed ∅)
    (bound : i < region.blockPoolSize) :
    (pmm.setRegion index region').FreeHead (region.pageAddress i) ↔ PmmRegion.Head lists i :=
  (wf.atPage_replaced here extent sound bound).trans
    (exists_congr fun order => sound.listed.onFreeList_iff order i)

end Replaced

end Pmm.WellFormed

/-! ## The invariant of a run -/

/-- The regions are apart, every region is sound for its part of the ledger, and
the ledger only mentions pages of regions. -/
structure PmmInv (pmm : Pmm) (ledger : Ledger) : Prop where
  disjoint : pmm.Disjoint
  sound : ∀ region ∈ pmm.regions, ∃ lists, region.Sound lists (region.pagesIn ledger.live)
    (region.pagesIn ledger.absorbed) ∅
  liveOwned : ∀ a ∈ ledger.live, ∃ region ∈ pmm.regions, region.Owns a
  absorbedOwned : ∀ a ∈ ledger.absorbed, ∃ region ∈ pmm.regions, region.Owns a

/-- The live allocations: addresses with the orders their pool entries record. -/
def Pmm.allocations (pmm : Pmm) (ledger : Ledger) : Set (UInt32 × ℕ) :=
  {a | a.1 ∈ ledger.live ∧ pmm.RecordsOrder a.1 a.2}

/-- The managed ranges. -/
def Pmm.ranges (pmm : Pmm) : List (UInt32 × UInt32) :=
  pmm.regions.map fun region => (region.start, region.end_)

theorem Pmm.ranges_setRegion {pmm : Pmm} {index : ℕ} {region region' : PmmRegion}
    (here : pmm.regions[index]? = some region) (extent : PmmRegion.SameExtent region region') :
    (pmm.setRegion index region').ranges = pmm.ranges := by
  have entry : (pmm.ranges)[index]? = some (region.start, region.end_) := by
    rw [Pmm.ranges, List.getElem?_map, here]
    rfl
  obtain ⟨bound, value⟩ := List.getElem?_eq_some_iff.1 entry
  change (pmm.regions.set index region').map _ = _
  rw [List.map_set, extent.start, extent.end_, ← value]
  exact List.set_getElem_self bound

namespace PmmInv

variable {pmm : Pmm} {ledger ledger' : Ledger} {index : ℕ} {region region' : PmmRegion}

theorem wellFormed (inv : PmmInv pmm ledger) : pmm.WellFormed :=
  ⟨inv.disjoint, fun region mem => by
    obtain ⟨lists, sound⟩ := inv.sound region mem
    exact ⟨lists, _, _, sound⟩⟩

/-- A step inside one region: the region is sound for the new ledger, and the
ledger is the old one at the addresses of the other regions. -/
theorem setRegion (inv : PmmInv pmm ledger) (here : pmm.regions[index]? = some region)
    (extent : PmmRegion.SameExtent region region')
    (sound : ∃ lists, region'.Sound lists (region.pagesIn ledger'.live)
      (region.pagesIn ledger'.absorbed) ∅)
    (elsewhere : ∀ a, ¬ region.Owns a →
      (a ∈ ledger'.live ↔ a ∈ ledger.live) ∧ (a ∈ ledger'.absorbed ↔ a ∈ ledger.absorbed)) :
    PmmInv (pmm.setRegion index region') ledger' := by
  have wf := inv.wellFormed
  rcases sound with ⟨lists, sound⟩
  have owned : ∀ a, (∃ region ∈ pmm.regions, region.Owns a) →
      ∃ region ∈ (pmm.setRegion index region').regions, region.Owns a := by
    intro a ⟨other, mem, owns⟩
    by_cases same : other = region
    · subst same
      exact ⟨region', Pmm.WellFormed.setRegion_mem here, (extent.owns a).2 owns⟩
    · exact ⟨other, Pmm.WellFormed.mem_setRegion_of_ne here mem same, owns⟩
  have mem := List.mem_of_getElem? here
  refine ⟨(wf.setRegion here extent ⟨lists, _, _, sound⟩).disjoint, fun other h => ?_,
    fun a ha => owned a ?_, fun a ha => owned a ?_⟩
  · rcases wf.mem_setRegion here h with rfl | ⟨old, apart⟩
    · rw [extent.pagesIn, extent.pagesIn]
      exact ⟨lists, sound⟩
    · have outside := fun a (owns : other.Owns a) =>
        elsewhere a (apart.symm.not_owns (wf.geometry old) (wf.geometry mem) owns)
      rw [PmmRegion.pagesIn_congr fun a owns => (outside a owns).1,
        PmmRegion.pagesIn_congr fun a owns => (outside a owns).2]
      exact inv.sound other old
  · by_cases owns : region.Owns a
    · exact ⟨region, mem, owns⟩
    · exact inv.liveOwned a ((elsewhere a owns).1.1 ha)
  · by_cases owns : region.Owns a
    · exact ⟨region, mem, owns⟩
    · exact inv.absorbedOwned a ((elsewhere a owns).2.1 ha)

end PmmInv

end ArkoiOs
