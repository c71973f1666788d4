import ArkoiOs.Pmm.Calls

/-!
# What the allocator guarantees

In every reachable state the free blocks and the live allocations tile the
managed pages, and the free blocks are as large as they can be.  From that:
no page is handed out twice or lost, an aligned run of free pages is always
found, and the free lists depend on the live allocations only.
-/

namespace ArkoiOs

open Dyadic

namespace PmmRegion

/-- `b` is on the free list of its order. -/
def FreeBlock (region : PmmRegion) (b : Block) : Prop := region.OnFreeList b.order b.start

/-- `b` is a live allocation, with the order its pool entry records. -/
def LiveBlock (region : PmmRegion) (ledger : Ledger) (b : Block) : Prop :=
  b ∈ region.busyBlocks (region.pagesIn ledger.live)

/-- `b` is an aligned run of pages of the region, and none of its pages belongs
to a live allocation. -/
def UnusedRun (region : PmmRegion) (ledger : Ledger) (b : Block) : Prop :=
  b.Aligned ∧ b.start + 2 ^ b.order ≤ region.blockPoolSize ∧
    ∀ page, b.Has page → ∀ c, region.LiveBlock ledger c → ¬ c.Has page

/-- The free list of each order visits finitely many blocks, none twice, and
their entries say what they are. -/
def ListsWellFormed (region : PmmRegion) : Prop :=
  ∀ order, ∃ xs, Chain region.links (region.freeLists order) xs ∧ xs.Nodup ∧
    ∀ i ∈ xs, order ≤ maxOrder ∧ (region.blockPool i).order = order ∧
      (region.blockPool i).isFree = true ∧ 2 ^ order ∣ i ∧ i + 2 ^ order ≤ region.blockPoolSize

/-- Free blocks and live allocations are different aligned blocks inside the
region, and every page is in exactly one of them. -/
structure Partition (region : PmmRegion) (ledger : Ledger) : Prop where
  aligned : ∀ b, region.FreeBlock b ∨ region.LiveBlock ledger b →
    b.Aligned ∧ b.start + 2 ^ b.order ≤ region.blockPoolSize
  apart : ∀ b, ¬ (region.FreeBlock b ∧ region.LiveBlock ledger b)
  exactly : ∀ page < region.blockPoolSize,
    ∃! b, (region.FreeBlock b ∨ region.LiveBlock ledger b) ∧ b.Has page

namespace Sound

variable {region : PmmRegion} {lists : ℕ → List ℕ} {ledger : Ledger} {absorbed : Set ℕ}

theorem freeBlock_iff (sound : region.Sound lists (region.pagesIn ledger.live) absorbed ∅)
    (b : Block) : region.FreeBlock b ↔ b ∈ freeBlocks lists :=
  sound.listed.onFreeList_iff b.order b.start

theorem tile_iff (sound : region.Sound lists (region.pagesIn ledger.live) absorbed ∅)
    (b : Block) : region.FreeBlock b ∨ region.LiveBlock ledger b ↔
      b ∈ freeBlocks lists ∪ (region.busyBlocks (region.pagesIn ledger.live) ∪ ∅) := by
  rw [sound.freeBlock_iff, Set.union_empty]
  rfl

theorem listsWellFormed {live : Set ℕ} {held : Set Block}
    (sound : region.Sound lists live absorbed held) : region.ListsWellFormed := by
  intro order
  refine ⟨lists order, sound.listed.chain order, (sound.listed.chain order).nodup, fun i hi => ?_⟩
  obtain ⟨bounded, recorded, marked⟩ := sound.freeEntry i order hi
  exact ⟨bounded, recorded, marked, sound.free_inside hi⟩

theorem partition (sound : region.Sound lists (region.pagesIn ledger.live) absorbed ∅) :
    region.Partition ledger where
  aligned b hb :=
    have tile := (sound.tile_iff b).1 hb
    ⟨sound.tiling.aligned b tile, sound.tiling.inside b tile⟩
  apart b hb := sound.apart b ((sound.freeBlock_iff b).1 hb.1) (Or.inl hb.2)
  exactly page bound := by
    obtain ⟨b, hb, has⟩ := sound.tiling.cover page bound
    refine ⟨b, ⟨(sound.tile_iff b).2 hb, has⟩, fun c ⟨hc, has'⟩ => ?_⟩
    exact sound.tiling.unique c ((sound.tile_iff c).1 hc) b hb page has' has

/-- The pages from the start of a free block on are unused, up to its order. -/
theorem unusedRun_of_free (sound : region.Sound lists (region.pagesIn ledger.live) absorbed ∅)
    {i k order : ℕ} (mem : i ∈ lists k) (large : order ≤ k) :
    region.UnusedRun ledger ⟨i, order⟩ := by
  obtain ⟨aligned, inside⟩ := sound.free_inside mem
  have shorter := Nat.pow_le_pow_right (n := 2) (by norm_num) large
  refine ⟨(Nat.pow_dvd_pow 2 large).trans aligned, (Nat.add_le_add_left shorter i).trans inside,
    fun page has c hc has' => ?_⟩
  have whole : (⟨i, k⟩ : Block).Has page := ⟨has.1, has.2.trans_le (Nat.add_le_add_left shorter i)⟩
  have same := sound.tiling.unique ⟨i, k⟩ (Or.inl mem) c (Or.inr (Or.inl hc)) page whole has'
  have live := hc.1
  rw [← same] at live
  exact sound.free_not_live mem live

end Sound

end PmmRegion

/-- Two live allocations of one state do not share a byte: `2 ^ order` pages
from each address on are apart. -/
theorem PmmInv.allocations_apart {pmm : Pmm} {ledger : Ledger} (inv : PmmInv pmm ledger)
    {a b : UInt32 × ℕ} (ha : a ∈ pmm.allocations ledger) (hb : b ∈ pmm.allocations ledger)
    (ne : a ≠ b) :
    a.1.toNat + 2 ^ a.2 * 4096 ≤ b.1.toNat ∨ b.1.toNat + 2 ^ b.2 * 4096 ≤ a.1.toNat := by
  rcases a with ⟨address, j⟩
  rcases b with ⟨address', k⟩
  rcases ha with ⟨liveA, region, mem, i, hi, rfl, rfl⟩
  rcases hb with ⟨liveB, region', mem', i', hi', rfl, rfl⟩
  obtain ⟨lists, sound⟩ := inv.sound region mem
  obtain ⟨lists', sound'⟩ := inv.sound region' mem'
  have inside := (sound.live_inside ⟨hi, liveA⟩).2
  have inside' := (sound'.live_inside ⟨hi', liveB⟩).2
  have span := sound.geometry.span
  have span' := sound'.geometry.span
  simp only [sound.geometry.pageAddress_toNat hi.le, sound'.geometry.pageAddress_toNat hi'.le]
  by_cases same : region = region'
  · subst same
    -- two tiles of one region
    have tile : ∀ {j}, j ∈ region.pagesIn ledger.live → (⟨j, (region.blockPool j).order⟩ : Block) ∈
        PmmRegion.freeBlocks lists ∪ (region.busyBlocks (region.pagesIn ledger.live) ∪ ∅) :=
      fun h => PmmRegion.mem_tiles_of_live h _ _
    have start := sound.tiling.unique _ (tile ⟨hi, liveA⟩) _ (tile ⟨hi', liveB⟩)
    have pos := Nat.two_pow_pos (region.blockPool i).order
    have pos' := Nat.two_pow_pos (region.blockPool i').order
    by_contra touch
    have meet : (⟨i, (region.blockPool i).order⟩ : Block) = ⟨i', (region.blockPool i').order⟩ :=
      start (max i i') ⟨by simp only; omega, by simp only; omega⟩
        ⟨by simp only; omega, by simp only; omega⟩
    injection meet with eq
    subst eq
    exact ne rfl
  · have apart := inv.disjoint.forall mem mem' same
    rcases apart with h | h <;> rw [UInt32.le_iff_toNat_le] at h <;> omega

/-- A request for something returns with `address`. -/
def Pmm.Serves (pmm : Pmm) (address : UInt32) (pmm' : Pmm) : Prop :=
  (∃ order, pmmAllocOrder order pmm = .ok address pmm') ∨
    (∃ size ≠ 0, pmmAllocSize size pmm = .ok address pmm') ∨
    ∃ numPages ≠ 0, pmmAllocPages numPages pmm = .ok address pmm'

theorem PmmInv.serves_fresh {pmm pmm' : Pmm} {ledger : Ledger} {address : UInt32}
    (inv : PmmInv pmm ledger) (serves : pmm.Serves address pmm') : address ∉ ledger.live := by
  have sized : ∀ size ≠ 0, pmmAllocSize size pmm = .ok address pmm' → address ∉ ledger.live := by
    intro size positive run
    obtain ⟨order, -, run⟩ := pmmAllocSize_ok positive run
    exact (inv.allocOrder run).fresh
  rcases serves with ⟨order, run⟩ | ⟨size, positive, run⟩ | ⟨numPages, positive, run⟩
  · exact (inv.allocOrder run).fresh
  · exact sized size positive run
  · obtain ⟨-, positive, run⟩ := pmmAllocPages_ok positive run
    exact sized _ positive run

/-- In every reachable state the free lists are finite chains without
repetition whose entries carry the right order and mark, free blocks and live
allocations partition the pages of each region, no two live allocations share a
page, and what an allocation returns was not live. -/
theorem Reachable.pages_partitioned {pmm : Pmm} {ledger : Ledger} (h : Reachable pmm ledger) :
    pmm.Disjoint ∧
      (∀ region ∈ pmm.regions, region.ListsWellFormed ∧ region.Partition ledger) ∧
      (∀ address ∈ ledger.live, ∃! order, (address, order) ∈ pmm.allocations ledger) ∧
      (∀ a ∈ pmm.allocations ledger, ∀ b ∈ pmm.allocations ledger, a ≠ b →
        a.1.toNat + 2 ^ a.2 * 4096 ≤ b.1.toNat ∨ b.1.toNat + 2 ^ b.2 * 4096 ≤ a.1.toNat) ∧
      ∀ address pmm', pmm.Serves address pmm' → address ∉ ledger.live := by
  have inv := h.inv
  refine ⟨inv.disjoint, fun region mem => ?_, fun address live => ?_,
    fun a ha b hb ne => inv.allocations_apart ha hb ne,
    fun address pmm' serves => inv.serves_fresh serves⟩
  · obtain ⟨lists, sound⟩ := inv.sound region mem
    exact ⟨sound.listsWellFormed, sound.partition⟩
  · obtain ⟨region, mem, i, hi, rfl⟩ := inv.liveOwned address live
    have recorded := fun k => inv.wellFormed.atPage_iff mem hi
      (P := fun region i => (region.blockPool i).order = k)
    refine ⟨(region.blockPool i).order, ⟨live, (recorded _).2 rfl⟩, fun k ⟨_, hk⟩ => ?_⟩
    exact ((recorded k).1 hk).symm

/-- With the lower page live, the upper one is what is left. -/
theorem lowerAllocated_partition : lowerAllocated.Disjoint ∧
    (∀ region ∈ lowerAllocated.regions, region.ListsWellFormed ∧ region.Partition lowerLive) ∧
    ∃! order, (0x1000, order) ∈ lowerAllocated.allocations lowerLive :=
  have whole := lowerAllocated_reachable.pages_partitioned
  ⟨whole.1, whole.2.1, whole.2.2.1 0x1000 (Or.inl rfl)⟩

/-! ## Completeness of allocation -/

/-- A reachable region can serve an order exactly when it has an unused aligned
run of that size. -/
theorem PmmRegion.Sound.availableOrder_iff {region : PmmRegion} {lists : ℕ → List ℕ}
    {ledger : Ledger} {absorbed : Set ℕ}
    (sound : region.Sound lists (region.pagesIn ledger.live) absorbed ∅) {order : ℕ}
    (bounded : order ≤ maxOrder) :
    region.availableOrder order ≤ maxOrder ↔ ∃ start, region.UnusedRun ledger ⟨start, order⟩ := by
  rw [region.availableOrder_le_iff bounded]
  refine ⟨fun ⟨k, large, _, isSome⟩ => ?_, fun ⟨start, aligned, inside, unused⟩ => ?_⟩
  · obtain ⟨i, hi⟩ := List.exists_mem_of_ne_nil _ ((sound.head_iff k).1 isSome)
    exact ⟨i, sound.unusedRun_of_free hi large⟩
  · have free : FreeRun (region.busyBlocks (region.pagesIn ledger.live) ∪ ∅)
        region.blockPoolSize ⟨start, order⟩ := by
      refine ⟨inside, fun page has c hc => ?_⟩
      rw [Set.union_empty] at hc
      exact unused page has c hc
    obtain ⟨b, hb, large, -⟩ :=
      sound.tiling.exists_of_free_run sound.coalesced aligned bounded free
    refine ⟨b.order, large, (sound.freeEntry _ _ hb).1, (sound.head_iff _).2 ?_⟩
    exact List.ne_nil_of_mem hb

/-- Past the check of the order, `pmm_alloc_order` looks for a region. -/
theorem pmmAllocOrder_eq {order : ℕ} (bounded : order ≤ maxOrder) (pmm : Pmm) :
    pmmAllocOrder order pmm = match findRegionForOrder pmm.regions order with
      | none => kpanic "No free blocks available for order %u" [UInt32.ofNat order] pmm
      | some index => onRegion index (allocFromRegion order) pmm := by
  unfold pmmAllocOrder
  rw [if_neg (Nat.not_lt.2 bounded), Machine.bind_of_ok (Machine.get_run pmm)]
  cases findRegionForOrder pmm.regions order <;> rfl

namespace PmmInv

variable {pmm pmm' : Pmm} {ledger : Ledger} {order : ℕ} {address : UInt32}

/-- With an unused aligned run in some region the allocation returns. -/
theorem allocOrder_of_unusedRun (inv : PmmInv pmm ledger) (bounded : order ≤ maxOrder)
    {region : PmmRegion} (mem : region ∈ pmm.regions) {start : ℕ}
    (run : region.UnusedRun ledger ⟨start, order⟩) :
    ∃ address pmm', pmmAllocOrder order pmm = .ok address pmm' := by
  obtain ⟨lists, sound⟩ := inv.sound region mem
  have available := (sound.availableOrder_iff bounded).2 ⟨start, run⟩
  rw [pmmAllocOrder_eq bounded]
  cases found : findRegionForOrder pmm.regions order with
  | none => exact (findRegionForOrder_none found region mem available).elim
  | some index =>
      obtain ⟨other, here, enough⟩ := findRegionForOrder_some found
      obtain ⟨address, pmm', run, -⟩ := inv.allocated bounded here enough
      exact ⟨address, pmm', run⟩

/-- The block an allocation returns is an unused aligned run. -/
theorem unusedRun_of_allocOrder (inv : PmmInv pmm ledger)
    (run : pmmAllocOrder order pmm = .ok address pmm') :
    ∃ region ∈ pmm.regions, ∃ start, region.UnusedRun ledger ⟨start, order⟩ ∧
      address = region.pageAddress start := by
  obtain ⟨region, mem, target, k, large, on, same⟩ := (inv.allocOrder run).source
  obtain ⟨lists, sound⟩ := inv.sound region mem
  have head := (sound.listed.onFreeList_iff k target).1 on
  exact ⟨region, mem, target, sound.unusedRun_of_free head large, same⟩

/-- Within the orders there are, `pmm_alloc_order` returns or finds no block. -/
theorem allocOrder_ends (inv : PmmInv pmm ledger) (bounded : order ≤ maxOrder) :
    (∃ address pmm', pmmAllocOrder order pmm = .ok address pmm') ∨
      pmmAllocOrder order pmm =
        .error (.panic "No free blocks available for order %u" [UInt32.ofNat order]) pmm := by
  rw [pmmAllocOrder_eq bounded]
  cases found : findRegionForOrder pmm.regions order with
  | none => exact Or.inr rfl
  | some index =>
      obtain ⟨region, here, available⟩ := findRegionForOrder_some found
      obtain ⟨address, pmm', run, -⟩ := inv.allocated bounded here available
      exact Or.inl ⟨address, pmm', run⟩

/-- Without an unused aligned run the allocation panics and changes nothing. -/
theorem allocOrder_panic (inv : PmmInv pmm ledger) (bounded : order ≤ maxOrder)
    (none : ¬ ∃ region ∈ pmm.regions, ∃ start, region.UnusedRun ledger ⟨start, order⟩) :
    ∃ format args, pmmAllocOrder order pmm = .error (.panic format args) pmm := by
  rcases inv.allocOrder_ends bounded with ⟨address, pmm', run⟩ | refused
  · obtain ⟨region, mem, start, unused, -⟩ := inv.unusedRun_of_allocOrder run
    exact (none ⟨region, mem, start, unused⟩).elim
  · exact ⟨_, _, refused⟩

end PmmInv

/-- `pmm_alloc_order` returns exactly when some region has an unused aligned run
of the size asked for; the block it returns is one, and otherwise it panics and
changes nothing. -/
theorem Reachable.alloc_complete {pmm : Pmm} {ledger : Ledger} (h : Reachable pmm ledger)
    {order : ℕ} (bounded : order ≤ maxOrder) :
    ((∃ address pmm', pmmAllocOrder order pmm = .ok address pmm') ↔
        ∃ region ∈ pmm.regions, ∃ start, region.UnusedRun ledger ⟨start, order⟩) ∧
      (∀ address pmm', pmmAllocOrder order pmm = .ok address pmm' →
        ∃ region ∈ pmm.regions, ∃ start, region.UnusedRun ledger ⟨start, order⟩ ∧
          address = region.pageAddress start) ∧
      ((¬ ∃ region ∈ pmm.regions, ∃ start, region.UnusedRun ledger ⟨start, order⟩) →
        ∃ format args, pmmAllocOrder order pmm = .error (.panic format args) pmm) := by
  refine ⟨⟨fun ⟨address, pmm', run⟩ => ?_, fun ⟨region, mem, start, run⟩ =>
    h.inv.allocOrder_of_unusedRun bounded mem run⟩, fun address pmm' run =>
      h.inv.unusedRun_of_allocOrder run, h.inv.allocOrder_panic bounded⟩
  obtain ⟨region, mem, start, unused, -⟩ := h.inv.unusedRun_of_allocOrder run
  exact ⟨region, mem, start, unused⟩

theorem lowerAllocated_alloc_complete :
    (∃ address pmm', pmmAllocOrder 0 lowerAllocated = .ok address pmm') ↔
      ∃ region ∈ lowerAllocated.regions, ∃ start, region.UnusedRun lowerLive ⟨start, 0⟩ :=
  (lowerAllocated_reachable.alloc_complete (by decide)).1

/-! ## Coalescing is complete -/

/-- Region by region, the free lists hold the same blocks. -/
def Pmm.SameFreeLists (pmm pmm' : Pmm) : Prop :=
  List.Forall₂ (fun region region' : PmmRegion => ∀ order index,
    region.OnFreeList order index ↔ region'.OnFreeList order index) pmm.regions pmm'.regions

/-- Equal managed ranges are regions of equal extent, position by position. -/
theorem PmmInv.sameExtent {pmm pmm' : Pmm} {ledger ledger' : Ledger} {region region' : PmmRegion}
    {index : ℕ} (inv : PmmInv pmm ledger) (inv' : PmmInv pmm' ledger')
    (ranges : pmm.ranges = pmm'.ranges) (here : pmm.regions[index]? = some region)
    (there : pmm'.regions[index]? = some region') : PmmRegion.SameExtent region region' := by
  obtain ⟨lists, sound⟩ := inv.sound region (List.mem_of_getElem? here)
  obtain ⟨lists', sound'⟩ := inv'.sound region' (List.mem_of_getElem? there)
  have entry : pmm.ranges[index]? = some (region.start, region.end_) := by
    rw [Pmm.ranges, List.getElem?_map, here]
    rfl
  have entry' : pmm'.ranges[index]? = some (region'.start, region'.end_) := by
    rw [Pmm.ranges, List.getElem?_map, there]
    rfl
  rw [ranges, entry'] at entry
  injection entry with same
  injection same with start end_
  have span := sound.geometry.span
  have span' := sound'.geometry.span
  rw [start, end_] at span'
  exact ⟨by omega, start, end_⟩

/-- Regions of equal extent have the same live blocks when the states have the
same allocations. -/
theorem PmmInv.sameBusyBlocks {pmm pmm' : Pmm} {ledger ledger' : Ledger}
    {region region' : PmmRegion} (inv : PmmInv pmm ledger) (inv' : PmmInv pmm' ledger')
    (mem : region ∈ pmm.regions) (mem' : region' ∈ pmm'.regions)
    (extent : PmmRegion.SameExtent region region')
    (allocations : pmm.allocations ledger = pmm'.allocations ledger') :
    region'.busyBlocks (region'.pagesIn ledger'.live) =
      region.busyBlocks (region.pagesIn ledger.live) := by
  have entry : ∀ {i}, i < region.blockPoolSize → ∀ k,
      (region.pageAddress i ∈ ledger.live ∧ (region.blockPool i).order = k ↔
        region.pageAddress i ∈ ledger'.live ∧ (region'.blockPool i).order = k) := by
    intro i hi k
    have here := inv.wellFormed.atPage_iff mem hi
      (P := fun region i => (region.blockPool i).order = k)
    have there := inv'.wellFormed.atPage_iff mem' (extent.size.symm ▸ hi)
      (P := fun region i => (region.blockPool i).order = k)
    rw [extent.pageAddress] at there
    have pair := Set.ext_iff.1 allocations (region.pageAddress i, k)
    change (_ ∧ pmm.AtPage _ _) ↔ (_ ∧ pmm'.AtPage _ _) at pair
    rwa [here, there] at pair
  apply Set.ext
  intro b
  rw [extent.pagesIn]
  change ((_ < _ ∧ _) ∧ _) ↔ ((_ < _ ∧ _) ∧ _)
  rw [and_assoc, and_assoc]
  exact and_congr_right fun hi => (entry hi b.order).symm

/-- The free lists are a function of the managed ranges and the live
allocations: on each region both states tile the same pages with the same live
blocks, and the coalesced rest of a tiling is unique. -/
theorem PmmInv.sameFreeLists {pmm pmm' : Pmm} {ledger ledger' : Ledger} (inv : PmmInv pmm ledger)
    (inv' : PmmInv pmm' ledger') (ranges : pmm.ranges = pmm'.ranges)
    (allocations : pmm.allocations ledger = pmm'.allocations ledger') :
    pmm.SameFreeLists pmm' := by
  have lengths : pmm.regions.length = pmm'.regions.length := by
    have := congrArg List.length ranges
    rwa [Pmm.ranges, Pmm.ranges, List.length_map, List.length_map] at this
  refine List.forall₂_iff_get.2 ⟨lengths, fun index h h' => ?_⟩
  have mem : pmm.regions.get ⟨index, h⟩ ∈ pmm.regions := List.get_mem _ _
  have mem' : pmm'.regions.get ⟨index, h'⟩ ∈ pmm'.regions := List.get_mem _ _
  have extent := inv.sameExtent inv' ranges (List.getElem?_eq_getElem h)
    (List.getElem?_eq_getElem h')
  have busy := inv.sameBusyBlocks inv' mem mem' extent allocations
  obtain ⟨lists, sound⟩ := inv.sound _ mem
  obtain ⟨lists', sound'⟩ := inv'.sound _ mem'
  have same : PmmRegion.freeBlocks lists = PmmRegion.freeBlocks lists' := by
    have tiling' := sound'.tiling
    have apart' := sound'.apart
    have size : (pmm'.regions.get ⟨index, h'⟩).blockPoolSize =
        (pmm.regions.get ⟨index, h⟩).blockPoolSize := extent.size
    rw [busy, size] at tiling'
    rw [busy] at apart'
    exact sound.tiling.coalesced_unique tiling' sound.apart apart' sound.coalesced
      sound'.coalesced (fun b hb => (sound.freeEntry _ _ hb).1)
      fun b hb => (sound'.freeEntry _ _ hb).1
  intro order i
  rw [sound.listed.onFreeList_iff, sound'.listed.onFreeList_iff]
  exact Set.ext_iff.1 same ⟨i, order⟩

/-- Regions that skip page 0 never hand out the null pointer. -/
theorem PmmInv.live_ne_zero {pmm : Pmm} {ledger : Ledger} (inv : PmmInv pmm ledger)
    (skips : ∀ range ∈ pmm.ranges, range.1 ≠ 0) {address : UInt32}
    (live : address ∈ ledger.live) : address ≠ 0 := by
  obtain ⟨region, mem, i, hi, rfl⟩ := inv.liveOwned address live
  intro zero
  have start := skips _ (List.mem_map_of_mem mem)
  have lower := ((inv.wellFormed.geometry mem).start_le_pageAddress hi).1
  rw [zero, UInt32.le_iff_toNat_le] at lower
  exact start (UInt32.toNat_inj.1 (Nat.le_zero.1 lower))

/-- Freeing the block an allocation returned restores the lists from before. -/
theorem Allocated.free_restores {pmm pmm' : Pmm} {ledger : Ledger} {order : ℕ} {address : UInt32}
    (allocated : Allocated pmm pmm' ledger order address) (inv : PmmInv pmm ledger)
    (nonzero : address ≠ 0) :
    ∃ pmm'', pmmFree address pmm' = .ok () pmm'' ∧ pmm''.SameFreeLists pmm := by
  have live : address ∈ (ledger.allocated pmm' address).live := Set.mem_insert _ _
  obtain ⟨pmm'', call', freed⟩ := allocated.inv.freed live nonzero
  refine ⟨pmm'', call', freed.inv.sameFreeLists inv (freed.ranges.trans allocated.ranges) ?_⟩
  rw [freed.allocations, allocated.allocations]
  -- the block that came is the block that went
  apply Set.Subset.antisymm
  · intro a kept
    rcases kept with ⟨rfl | ha, ne⟩
    · exact (ne rfl).elim
    · exact ha
  · intro a ha
    exact ⟨Or.inr ha, fun eq => allocated.fresh (eq ▸ ha.1)⟩

/-- Coalescing is complete and does not depend on the history: runs from one
state that end with the same live allocations end with the same free lists,
freeing everything restores the lists a run with nothing live started from, and
freeing a block just allocated restores the lists from before. -/
theorem Reachable.coalescing_complete {pmm₀ : Pmm} {ledger₀ : Ledger}
    (h : Reachable pmm₀ ledger₀) (skips : pmm₀.SkipsPageZero) :
    (∀ pmm₁ ledger₁ pmm₂ ledger₂, AllocRun (pmm₀, ledger₀) (pmm₁, ledger₁) →
        AllocRun (pmm₀, ledger₀) (pmm₂, ledger₂) →
        pmm₁.allocations ledger₁ = pmm₂.allocations ledger₂ → pmm₁.SameFreeLists pmm₂) ∧
      (∀ pmm ledger, AllocRun (pmm₀, ledger₀) (pmm, ledger) → ledger₀.live = ∅ →
        ledger.live = ∅ → pmm.SameFreeLists pmm₀) ∧
      (∀ pmm ledger, AllocRun (pmm₀, ledger₀) (pmm, ledger) → ∀ order address pmm',
        pmmAllocOrder order pmm = .ok address pmm' →
          ∃ pmm'', pmmFree address pmm' = .ok () pmm'' ∧ pmm''.SameFreeLists pmm) := by
  have skipped : ∀ range ∈ pmm₀.ranges, range.1 ≠ 0 := by
    intro range mem
    obtain ⟨region, hr, rfl⟩ := List.mem_map.1 mem
    exact skips region hr
  refine ⟨fun pmm₁ ledger₁ pmm₂ ledger₂ run₁ run₂ same => ?_,
    fun pmm ledger run empty₀ empty => ?_, fun pmm ledger run order address pmm' call => ?_⟩
  · obtain ⟨reach₁, ranges₁⟩ := h.run run₁
    obtain ⟨reach₂, ranges₂⟩ := h.run run₂
    exact reach₁.inv.sameFreeLists reach₂.inv (ranges₁.trans ranges₂.symm) same
  · obtain ⟨reach, ranges⟩ := h.run run
    apply reach.inv.sameFreeLists h.inv ranges
    simp only [Pmm.allocations, empty, empty₀, Set.mem_empty_iff_false, false_and]
  · obtain ⟨reach, ranges⟩ := h.run run
    have allocated := reach.inv.allocOrder call
    have nonzero : address ≠ 0 := by
      refine allocated.inv.live_ne_zero ?_ (Set.mem_insert _ _)
      rw [allocated.ranges, ranges]
      exact skipped
    exact allocated.free_restores reach.inv nonzero

theorem twoPages_skipsPageZero : twoPages.SkipsPageZero := by
  have starts : twoPages.regions.map (·.start) = [0x1000] := by decide +kernel
  intro region mem zero
  have listed := List.mem_map_of_mem (f := PmmRegion.start) mem
  rw [starts, zero] at listed
  revert listed
  decide

/-- Freeing the first page of two restores the lists. -/
theorem twoPages_coalescing_complete : ∃ pmm,
    pmmFree 0x1000 (Machine.final (pmmAllocOrder 0 twoPages)) = .ok () pmm ∧
      pmm.SameFreeLists twoPages := by
  have call : Machine.value? (pmmAllocOrder 0 twoPages) = some 0x1000 := by decide +kernel
  exact (twoPages_reachable.coalescing_complete twoPages_skipsPageZero).2.2 twoPages
    Ledger.empty .refl 0 0x1000 _ (Machine.eq_ok_of_value call)

end ArkoiOs
