import Mathlib.Data.Finset.Prod
import ArkoiOs.Pmm.AnyCalls

/-!
# Taking page after page

Over any RAM list, single pages can be allocated until a given page of a region
comes out: each allocation takes a page that was free in its region, and there
are only finitely many.  Regions may overlap, so what is taken is recorded by
position in the region list and not by address.
-/

namespace ArkoiOs

/-- Region by region, the heads and the links of the free lists are the same. -/
def Pmm.FreeListsKept (pmm pmm' : Pmm) : Prop :=
  List.Forall₂ (fun region region' : PmmRegion =>
    region'.freeLists = region.freeLists ∧ region'.links = region.links) pmm.regions pmm'.regions

theorem Pmm.FreeListsKept.refl (pmm : Pmm) : pmm.FreeListsKept pmm :=
  List.forall₂_same.2 fun _ _ => ⟨rfl, rfl⟩

/-- Each region is sound, and the pages of `live` at its position are taken, as
blocks of one page. -/
def Pmm.PagesTaken (pmm : Pmm) (live : Finset (ℕ × ℕ)) : Prop :=
  ∀ (i : ℕ) (region : PmmRegion), pmm.regions[i]? = some region →
    (∃ lists absorbed, region.Sound lists {page | (i, page) ∈ live} absorbed ∅) ∧
      ∀ page, (i, page) ∈ live → (region.blockPool page).order = 0

/-- Runs that allocate single pages. -/
abbrev PageRun : Pmm → Pmm → Prop :=
  Relation.ReflTransGen fun pmm pmm' => ∃ page, pmmAllocPages 1 pmm = .ok page pmm'

/-- Where only single pages are taken, and one page is not, a region has a free
block. -/
theorem PmmRegion.Sound.availableOrder_of_unused {region : PmmRegion} {lists : ℕ → List ℕ}
    {live absorbed : Set ℕ} (sound : region.Sound lists live absorbed ∅)
    (single : ∀ page ∈ live, (region.blockPool page).order = 0) {page : ℕ}
    (bound : page < region.blockPoolSize) (unused : page ∉ live) :
    region.availableOrder 0 ≤ maxOrder := by
  obtain ⟨b, tile, has⟩ := sound.tiling.cover page bound
  rw [region.availableOrder_le_iff (Nat.zero_le _)]
  rcases tile with free | busy | held
  · exact ⟨b.order, Nat.zero_le _, (sound.freeEntry _ _ free).1,
      (sound.head_iff _).2 (List.ne_nil_of_mem free)⟩
  · -- the block that covers the page would be that page alone
    have order : b.order = 0 := busy.2.symm.trans (single _ busy.1)
    rcases has with ⟨lower, upper⟩
    rw [order] at upper
    have start : b.start = page := by omega
    exact (unused (start ▸ busy.1)).elim
  · exact held.elim

namespace Pmm.PagesTaken

variable {pmm pmm' : Pmm} {live : Finset (ℕ × ℕ)} {i : ℕ} {region : PmmRegion}

/-- A taken page is on no free list. -/
theorem not_onFreeList (taken : pmm.PagesTaken live) (here : pmm.regions[i]? = some region)
    {page : ℕ} (mem : (i, page) ∈ live) (order : ℕ) : ¬ region.OnFreeList order page := by
  obtain ⟨⟨lists, absorbed, sound⟩, -⟩ := taken i region here
  rw [sound.listed.onFreeList_iff]
  exact fun listed => sound.free_not_live listed mem

/-- The regions of `pmm'` are those of `pmm`, each over the same pages. -/
def SameExtents (pmm pmm' : Pmm) : Prop :=
  ∀ (k : ℕ) (region : PmmRegion), pmm.regions[k]? = some region →
    ∃ region', pmm'.regions[k]? = some region' ∧ PmmRegion.SameExtent region region'

/-- The page one allocation takes. -/
structure Takes (pmm pmm' : Pmm) (live : Finset (ℕ × ℕ)) (j page : ℕ) (address : UInt32) :
    Prop where
  run : pmmAllocPages 1 pmm = .ok address pmm'
  fresh : (j, page) ∉ live
  bound : j < pmm.regions.length ∧ page < 2 ^ 20
  length : pmm'.regions.length = pmm.regions.length
  extent : SameExtents pmm pmm'
  taken : pmm'.PagesTaken (insert (j, page) live)
  source : ∃ region, pmm.regions[j]? = some region ∧ address = region.pageAddress page ∧
    ∃ order, region.OnFreeList order page

/-- While a page of some region is not taken, an allocation takes a page. -/
theorem allocPage (taken : pmm.PagesTaken live) (here : pmm.regions[i]? = some region) {q : ℕ}
    (inPool : q < region.blockPoolSize) (unused : (i, q) ∉ live) :
    ∃ j page address pmm', Takes pmm pmm' live j page address := by
  obtain ⟨⟨_, _, sound⟩, single⟩ := taken i region here
  have available := sound.availableOrder_of_unused single inPool unused
  have call : pmmAllocPages 1 pmm = _ :=
    (pmmAllocPages_one pmm).trans (pmmAllocOrder_eq (Nat.zero_le _) pmm)
  cases found : findRegionForOrder pmm.regions 0 with
  | none =>
      exact (findRegionForOrder_none found region (List.mem_of_getElem? here) available).elim
  | some j =>
      rw [found] at call
      obtain ⟨other, there, enough⟩ := findRegionForOrder_some found
      obtain ⟨⟨lists, absorbed, sound⟩, single⟩ := taken j other there
      obtain ⟨page, other', lists', run, extent, sound', order, orders, k, -, listed⟩ :=
        sound.allocFromRegion_ok (Nat.zero_le _) enough
      have span := sound.geometry.span_lt
      have inPool := sound.free_bound listed
      have position := (List.getElem?_eq_some_iff.1 there).1
      refine ⟨j, page, other.pageAddress page, pmm.setRegion j other',
        call.trans (onRegion_of_ok there run), sound.free_not_live listed,
        ⟨position, by omega⟩, List.length_set .., fun n region' at_ => ?_, fun n region' at_ => ?_,
        other, there, rfl, k, (sound.listed.onFreeList_iff _ _).2 listed⟩
      · change ∃ region'', (pmm.regions.set j other')[n]? = some region'' ∧ _
        by_cases same : n = j
        · subst same
          rw [there] at at_
          cases at_
          exact ⟨other', List.getElem?_set_self position, extent⟩
        · rw [List.getElem?_set_ne (Ne.symm same)]
          exact ⟨region', at_, .refl region'⟩
      · change (pmm.regions.set j other')[n]? = some region' at at_
        by_cases same : n = j
        · subst same
          rw [List.getElem?_set_self position] at at_
          cases at_
          have pages : {p | (n, p) ∈ insert (n, page) live} = insert page {p | (n, p) ∈ live} := by
            ext p
            simp
          refine ⟨⟨lists', _, pages ▸ sound'⟩, fun p mem => ?_⟩
          rcases Finset.mem_insert.1 mem with new | old
          · injection new with _ new
            rw [new]
            exact order
          · exact (orders p old).trans (single p old)
        · rw [List.getElem?_set_ne (Ne.symm same)] at at_
          obtain ⟨⟨lists, absorbed, sound⟩, single⟩ := taken n region' at_
          have pages : {p | (n, p) ∈ insert (j, page) live} = {p | (n, p) ∈ live} := by
            ext p
            simp [same]
          refine ⟨⟨lists, absorbed, pages ▸ sound⟩, fun p mem => ?_⟩
          rcases Finset.mem_insert.1 mem with new | old
          · injection new with position
            exact (same position).elim
          · exact single p old

/-- Single pages can be allocated until a given page that is not taken comes out. -/
theorem exists_page (taken : pmm.PagesTaken live) (here : pmm.regions[i]? = some region) {q : ℕ}
    (inPool : q < region.blockPoolSize) (unused : (i, q) ∉ live)
    (inside : live ⊆ Finset.range pmm.regions.length ×ˢ Finset.range (2 ^ 20)) :
    ∃ pmm₁ pmm₂ live₁, PageRun pmm pmm₁ ∧ SameExtents pmm pmm₁ ∧
      Takes pmm₁ pmm₂ live₁ i q (region.pageAddress q) := by
  -- by induction on the number of pages that are left
  generalize left : (Finset.range pmm.regions.length ×ˢ Finset.range (2 ^ 20)).card - live.card = n
  induction n generalizing pmm live region with
  | zero =>
      obtain ⟨j, page, address, pmm', takes⟩ := taken.allocPage here inPool unused
      have all := Finset.eq_of_subset_of_card_le inside (Nat.sub_eq_zero_iff_le.1 left)
      refine (takes.fresh ?_).elim
      rw [all, Finset.mem_product, Finset.mem_range, Finset.mem_range]
      exact takes.bound
  | succ n ih =>
      obtain ⟨j, page, address, pmm', takes⟩ := taken.allocPage here inPool unused
      by_cases last : (j, page) = (i, q)
      · cases last
        obtain ⟨other, there, value, -⟩ := takes.source
        rw [here] at there
        cases there
        exact ⟨pmm, pmm', live, .refl, fun k region' at_ => ⟨region', at_, .refl region'⟩,
          value ▸ takes⟩
      obtain ⟨region', here', extent⟩ := takes.extent i region here
      have inside' : insert (j, page) live ⊆
          Finset.range pmm'.regions.length ×ˢ Finset.range (2 ^ 20) := by
        rw [takes.length, Finset.insert_subset_iff, Finset.mem_product, Finset.mem_range,
          Finset.mem_range]
        exact ⟨takes.bound, inside⟩
      have unused' : (i, q) ∉ insert (j, page) live := by
        rw [Finset.mem_insert, not_or]
        exact ⟨Ne.symm last, unused⟩
      obtain ⟨pmm₁, pmm₂, live₁, run, extents, final⟩ := ih takes.taken here'
        (extent.size.symm ▸ inPool) unused' inside'
        (by rw [takes.length, Finset.card_insert_of_notMem takes.fresh]; omega)
      rw [extent.pageAddress] at final
      refine ⟨pmm₁, pmm₂, live₁, run.head ⟨address, takes.run⟩, fun k before at_ => ?_, final⟩
      obtain ⟨between, at', first⟩ := takes.extent k before at_
      obtain ⟨after, at'', rest⟩ := extents k between at'
      exact ⟨after, at'', first.trans rest⟩

end Pmm.PagesTaken

/-- The regions of a RAM list are sound, with nothing taken. -/
theorem Narrowed.sound {entries : List BootMemoryRegion} {regions : List PmmRegion}
    (narrowed : Narrowed entries regions) :
    ∀ region ∈ regions, ∃ lists, region.Sound lists ∅ ∅ ∅ := by
  intro region mem
  induction narrowed with
  | nil => exact (List.not_mem_nil mem).elim
  | skip _ _ _ ih => exact ih mem
  | add _ _ fresh _ ih =>
      rcases List.mem_cons.1 mem with rfl | later
      · exact fresh.sound
      · exact ih later

theorem pmmInit_pagesTaken {bootInfo : BootInfo} {emm : Emm} {pmm : Pmm}
    (run : pmmInit bootInfo (Pmm.boot emm) = .ok () pmm) : pmm.PagesTaken ∅ := by
  intro i region here
  obtain ⟨lists, sound⟩ := (pmmInit_ok run).sound region (List.mem_of_getElem? here)
  have none : {page | (i, page) ∈ (∅ : Finset (ℕ × ℕ))} = ∅ :=
    Set.eq_empty_of_forall_notMem fun _ => Finset.notMem_empty _
  exact ⟨⟨lists, ∅, none ▸ sound⟩, fun _ mem => (Finset.notMem_empty _ mem).elim⟩

end ArkoiOs
