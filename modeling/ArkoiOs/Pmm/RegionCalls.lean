import ArkoiOs.Pmm.Steps

/-!
# Allocation and freeing inside one region

The loops of `pmm_alloc_order` and `pmm_free` as runs of the steps on a sound
region.  Each lemma says that the code returns, what it returns, and which
invariant the new region satisfies; callers need nothing else about the code.
-/

namespace ArkoiOs

open Dyadic

namespace PmmRegion

/-- A page on some free list: the start of a free block. -/
def Head (lists : ℕ → List ℕ) (i : ℕ) : Prop := ∃ k, i ∈ lists k

/-- The extent of the region and its page addresses are the same. -/
structure SameExtent (region region' : PmmRegion) : Prop where
  size : region'.blockPoolSize = region.blockPoolSize
  start : region'.start = region.start
  end_ : region'.end_ = region.end_

namespace SameExtent

theorem refl (region : PmmRegion) : SameExtent region region := ⟨rfl, rfl, rfl⟩

theorem trans {a b c : PmmRegion} (h : SameExtent a b) (h' : SameExtent b c) :
    SameExtent a c :=
  ⟨h'.size.trans h.size, h'.start.trans h.start, h'.end_.trans h.end_⟩

theorem pageAddress {region region' : PmmRegion} (h : SameExtent region region') (i : ℕ) :
    region'.pageAddress i = region.pageAddress i := by
  rw [PmmRegion.pageAddress, PmmRegion.pageAddress, h.start]

end SameExtent

theorem Relinked.sameExtent {region region' : PmmRegion} (h : Relinked region region') :
    SameExtent region region' := ⟨h.size, h.start, h.end_⟩

/-! ## The first non-empty free list -/

theorem firstNonEmpty_spec (freeLists : ℕ → Option ℕ) :
    ∀ fuel order, order ≤ firstNonEmpty freeLists fuel order ∧
      firstNonEmpty freeLists fuel order ≤ order + fuel ∧
      (firstNonEmpty freeLists fuel order < order + fuel →
        (freeLists (firstNonEmpty freeLists fuel order)).isSome) ∧
      ∀ k, order ≤ k → k < firstNonEmpty freeLists fuel order → freeLists k = none
  | 0, order => ⟨le_rfl, le_rfl, fun h => absurd h (lt_irrefl _), fun k h h' =>
      absurd (lt_of_le_of_lt h h') (lt_irrefl _)⟩
  | fuel + 1, order => by
      unfold firstNonEmpty
      by_cases h : (freeLists order).isSome
      · rw [if_pos h]
        exact ⟨le_rfl, Nat.le_add_right _ _, fun _ => h, fun k hk hk' =>
          absurd (lt_of_le_of_lt hk hk') (lt_irrefl _)⟩
      · rw [if_neg h]
        obtain ⟨lower, upper, found, empty⟩ := firstNonEmpty_spec freeLists fuel (order + 1)
        refine ⟨by omega, by omega, fun small => found (by omega), fun k hk hk' => ?_⟩
        rcases Nat.eq_or_lt_of_le hk with rfl | hk
        · exact Option.not_isSome_iff_eq_none.1 h
        · exact empty k hk hk'

/-- `find_region_for_order` accepts a region exactly when it has a free block of
a sufficient order. -/
theorem availableOrder_le_iff (region : PmmRegion) {order : ℕ} (bound : order ≤ maxOrder) :
    region.availableOrder order ≤ maxOrder ↔
      ∃ k, order ≤ k ∧ k ≤ maxOrder ∧ (region.freeLists k).isSome := by
  obtain ⟨lower, upper, found, empty⟩ :=
    firstNonEmpty_spec region.freeLists (numOrders - order) order
  unfold availableOrder
  have orders := numOrders_eq
  refine ⟨fun h => ⟨_, lower, h, found (by omega)⟩, fun ⟨k, hk, hk', isSome⟩ => ?_⟩
  by_contra large
  rw [empty k hk (by omega)] at isSome
  cases isSome

theorem availableOrder_spec (region : PmmRegion) {order : ℕ} (bound : order ≤ maxOrder)
    (h : region.availableOrder order ≤ maxOrder) :
    order ≤ region.availableOrder order ∧
      (region.freeLists (region.availableOrder order)).isSome := by
  obtain ⟨lower, -, found, -⟩ :=
    firstNonEmpty_spec region.freeLists (numOrders - order) order
  have orders := numOrders_eq
  unfold availableOrder at h
  exact ⟨lower, found (by omega)⟩

namespace Sound

variable {region : PmmRegion} {lists : ℕ → List ℕ} {live absorbed : Set ℕ}

theorem head_iff (sound : Sound region lists live absorbed ∅) (k : ℕ) :
    (region.freeLists k).isSome ↔ lists k ≠ [] := by
  rw [(sound.listed.chain k).head_eq]
  cases lists k <;> simp

/-! ## Allocation -/

/-- The split loop cuts a live block down to the requested order. -/
theorem splitBlock_ok {target order : ℕ} :
    ∀ {count : ℕ} {region : PmmRegion} {lists : ℕ → List ℕ} {absorbed : Set ℕ},
      Sound region lists live absorbed ∅ → target ∈ live →
      (region.blockPool target).order = order + count →
      ∃ region' lists', splitBlock target order count region = .ok () region' ∧
        SameExtent region region' ∧
        Sound region' lists' live (absorbed \ {i | Head lists' i}) ∅ ∧
        (region'.blockPool target).order = order ∧
        (∀ i, Head lists i → Head lists' i) ∧
        ∀ i ∈ live, i ≠ target → (region'.blockPool i).order = (region.blockPool i).order
  | 0, region, lists, absorbed, sound, _, recorded => by
      refine ⟨region, lists, rfl, .refl region, ?_, recorded, fun _ h => h, fun _ _ _ => rfl⟩
      have same : absorbed \ {i | Head lists i} = absorbed := by
        refine Set.ext fun i => ⟨And.left, fun ha => ⟨ha, fun ⟨k, hk⟩ => ?_⟩⟩
        exact sound.free_not_absorbed hk ha
      rw [same]
      exact sound
  | count + 1, region, lists, absorbed, sound, mem, recorded => by
      have inside := sound.live_inside mem
      have bounded := (sound.record target (sound.liveBound target mem)).1
      rw [recorded] at inside bounded
      have pos := Nat.two_pow_pos (order + count)
      have orders := numOrders_eq
      have double : 2 ^ (order + (count + 1)) = 2 ^ (order + count) + 2 ^ (order + count) := by
        rw [← Nat.add_assoc, Nat.pow_succ]; omega
      rw [double] at inside
      have found : findBlockByAddress region
          ((region.blockPool target).address + blockSize (order + count)) =
            some (target + 2 ^ (order + count)) := by
        rw [sound.geometry.address target (sound.liveBound target mem),
          sound.geometry.pageAddress_add (by omega) (by omega)]
        exact sound.geometry.findBlock_pageAddress (by omega)
      have round := sound.split mem (by rw [recorded, Nat.add_assoc])
      have extent : SameExtent region
          (splitWrites region target (target + 2 ^ (order + count)) (order + count)) :=
        ⟨rfl, rfl, rfl⟩
      obtain ⟨region', lists', run, extent', sound', order', heads, others⟩ :=
        splitBlock_ok round mem (by rw [splitWrites_order, if_pos (Or.inl rfl)])
      refine ⟨region', lists', ?_, extent.trans extent', ?_, order', ?_, ?_⟩
      · rw [splitBlock, Machine.bind_of_ok (Machine.get_run region)]
        simp only [found]
        rw [Machine.bind_of_ok (Machine.modify_run _ _)]
        exact run
      · have buddyHead : Head lists' (target + 2 ^ (order + count)) :=
          heads _ ⟨_, (Lists.mem_add_iff ..).2 (Or.inl ⟨rfl, rfl⟩)⟩
        have same : (absorbed \ {target + 2 ^ (order + count)}) \ {i | Head lists' i} =
            absorbed \ {i | Head lists' i} := by
          rw [Set.sdiff_sdiff, Set.singleton_union, Set.insert_eq_of_mem]
          exact buddyHead
        rw [← same]
        exact sound'
      · intro i ⟨k, hk⟩
        exact heads i ⟨k, (Lists.mem_add_iff ..).2 (Or.inr hk)⟩
      · intro i hi ne
        rw [others i hi ne, splitWrites_order, if_neg]
        intro eq
        rcases eq with eq | eq
        · exact ne eq
        · -- the upper half starts inside the live block of `target`
          have tile : (⟨target, order + (count + 1)⟩ : Block) ∈
              freeBlocks lists ∪ (region.busyBlocks live ∪ ∅) :=
            recorded ▸ mem_tiles_of_live mem _ _
          exact (sound.interior tile (i := i) ⟨by simp only; omega, by
            simp only [double]; omega⟩ ne).2.1 hi

/-- `pmm_alloc_order` in a region with a sufficient free block returns the start
of a free block of at least the order asked for. -/
theorem allocFromRegion_ok (sound : Sound region lists live absorbed ∅) {order : ℕ}
    (bound : order ≤ maxOrder) (available : region.availableOrder order ≤ maxOrder) :
    ∃ target region' lists', allocFromRegion order region =
        .ok (region.pageAddress target) region' ∧
      SameExtent region region' ∧
      Sound region' lists' (insert target live) (absorbed \ {i | Head lists' i}) ∅ ∧
      (region'.blockPool target).order = order ∧
      (∀ i ∈ live, (region'.blockPool i).order = (region.blockPool i).order) ∧
      ∃ k, order ≤ k ∧ target ∈ lists k := by
  obtain ⟨large, isSome⟩ := region.availableOrder_spec bound available
  generalize current : region.availableOrder order = k at large isSome available
  obtain ⟨target, head⟩ := Option.isSome_iff_exists.1 isSome
  have chain := sound.listed.chain k
  rw [head, Chain.some_iff] at chain
  rcases chain with ⟨rest, listEq, -⟩
  have mem : target ∈ lists k := by rw [listEq]; exact List.mem_cons_self
  obtain ⟨region₁, removed, relinked, taken⟩ := sound.take mem
  have recorded : ((region₁.setFree target false).blockPool target).order =
      order + (k - order) := by
    rw [setFree_order, relinked.order, (sound.freeEntry target k mem).2.1]
    omega
  obtain ⟨region₂, lists', split, extent, sound', order', -, others⟩ :=
    splitBlock_ok taken (Set.mem_insert target live) recorded
  have cleared := sound'.setNext_live (Set.mem_insert target live) none
  have extent₁ : SameExtent region (region₁.setFree target false) :=
    relinked.sameExtent.trans ⟨rfl, rfl, rfl⟩
  have extent₂ : SameExtent region (region₂.setNext target none) :=
    (extent₁.trans extent).trans ⟨rfl, rfl, rfl⟩
  have address : ((region₂.setNext target none).blockPool target).address =
      region.pageAddress target := by
    rw [cleared.geometry.address target (cleared.liveBound target (Set.mem_insert target live)),
      extent₂.pageAddress]
  refine ⟨target, region₂.setNext target none, lists', ?_, extent₂, cleared, ?_, ?_, k, large,
    mem⟩
  · unfold allocFromRegion
    rw [Machine.bind_of_ok (Machine.get_run region)]
    simp only [current, if_neg (Nat.not_lt.2 available), head]
    rw [Machine.bind_of_ok removed]
    simp only [Bool.not_true, Bool.false_eq_true, if_false]
    rw [Machine.bind_of_ok (Machine.modify_run _ _), Machine.bind_of_ok split,
      Machine.bind_of_ok (Machine.modify_run _ _), Machine.bind_of_ok (Machine.get_run _), address]
    rfl
  · rw [setNext_order]
    exact order'
  · intro i hi
    have ne : i ≠ target := fun eq => sound.free_not_live mem (eq ▸ hi)
    rw [setNext_order, others i (Set.mem_insert_of_mem target hi) ne, setFree_order,
      relinked.order]

/-! ## Freeing -/

/-- The entry of a buddy is the head of a free block of the same order exactly
when its mark is set and its order field agrees: the entry looked at is never a
stale one. -/
theorem buddy_entry_iff {b : Block} (sound : Sound region lists live absorbed {b})
    (below : b.buddy.start < region.blockPoolSize) :
    ((region.blockPool b.buddy.start).isFree = true ∧
      (region.blockPool b.buddy.start).order = b.order) ↔ b.buddy.start ∈ lists b.order := by
  refine ⟨fun ⟨isFree, order⟩ => ?_, fun mem => ?_⟩
  · obtain ⟨c, hc, start, -⟩ := sound.exists_buddy (Or.inr (Or.inr rfl)) below
    rcases hc with free | busy | same
    · have entry := sound.freeEntry c.start c.order free
      rw [start, order] at entry
      have mem : c.start ∈ lists c.order := free
      rwa [start, ← entry.2.1] at mem
    · have marked := sound.live_isFree busy.1
      rw [start, isFree] at marked
      cases marked
    · rw [same] at start
      exact absurd start.symm b.buddy_start_ne
  · have entry := sound.freeEntry _ _ mem
    exact ⟨entry.2.2, entry.2.1⟩

/-- What the coalescing loop does: it ends with the block `c` around the freed
page in hand, which cannot be merged further, and the heads it removes above the
freed page are absorbed. -/
structure CoalesceEffect (page : ℕ) (region : PmmRegion) (lists : ℕ → List ℕ)
    (live absorbed : Set ℕ) (region' : PmmRegion) (lists' : ℕ → List ℕ) (c : Block) : Prop where
  extent : SameExtent region region'
  sound : Sound region' lists' live
    {i | i ∈ absorbed ∨ (page < i ∧ Head lists i ∧ ¬ Head lists' i)} {c}
  bounded : c.order ≤ maxOrder
  alone : c.order < maxOrder → c.buddy ∉ freeBlocks lists'
  lower : c.start ≤ page
  heads : ∀ i, Head lists' i → Head lists i
  orders : ∀ i ∈ live, (region'.blockPool i).order = (region.blockPool i).order

section Coalesce

variable {page : ℕ} {b : Block}

/-- Where the loop stops at once, nothing is absorbed. -/
theorem coalesce_stop (sound : Sound region lists live absorbed {b}) (bounded : b.order ≤ maxOrder)
    (alone : b.order < maxOrder → b.buddy ∉ freeBlocks lists) (has : b.Has page) :
    CoalesceEffect page region lists live absorbed region lists b := by
  refine ⟨.refl region, ?_, bounded, alone, has.1, fun _ h => h, fun _ _ => rfl⟩
  have same : {i | i ∈ absorbed ∨ (page < i ∧ Head lists i ∧ ¬ Head lists i)} = absorbed := by
    simp only [and_not_self, and_false, or_false, Set.ofPred_mem_eq]
  rw [same]
  exact sound

/-- The heads after the buddy has left its list. -/
theorem head_erase_iff (sound : Sound region lists live absorbed {b})
    (mem : b.buddy.start ∈ lists b.order) (i : ℕ) :
    Head (Function.update lists b.order ((lists b.order).erase b.buddy.start)) i ↔
      Head lists i ∧ i ≠ b.buddy.start := by
  have erase := fun k => sound.listed.mem_erase_iff i k mem
  constructor
  · intro ⟨k, hk⟩
    exact ⟨⟨k, ((erase k).1 hk).1⟩, ((erase k).1 hk).2⟩
  · intro ⟨⟨k, hk⟩, ne⟩
    exact ⟨k, (erase k).2 ⟨hk, ne⟩⟩

/-- An upper buddy is one above the freed page. -/
theorem upper_buddy_iff (aligned : b.Aligned) (has : b.Has page) :
    page < b.buddy.start ↔ b.start < b.buddy.start := by
  have span : b.buddy.start = b.start + 2 ^ b.order ∨ b.start = b.buddy.start + 2 ^ b.order :=
    aligned.buddy_cases.imp And.right And.right
  unfold Block.Has at has
  omega

/-- A round that merges, followed by the rest of the loop. -/
theorem CoalesceEffect.after_merge {region₁ region' : PmmRegion} {lists' : ℕ → List ℕ} {c : Block}
    (sound : Sound region lists live absorbed {b}) (mem : b.buddy.start ∈ lists b.order)
    (has : b.Has page) (relinked : Relinked region region₁)
    (merged : Sound (mergeWrites region₁ b.buddy.start b.parent.start (b.order + 1))
      (Function.update lists b.order ((lists b.order).erase b.buddy.start))
      live {i | i ∈ absorbed ∨ (i = b.buddy.start ∧ b.start < i)} {b.parent})
    (rest : CoalesceEffect page
      (mergeWrites region₁ b.buddy.start b.parent.start (b.order + 1))
      (Function.update lists b.order ((lists b.order).erase b.buddy.start))
      live {i | i ∈ absorbed ∨ (i = b.buddy.start ∧ b.start < i)} region' lists' c) :
    CoalesceEffect page region lists live absorbed region' lists' c := by
  have erase := fun i => sound.head_erase_iff mem i
  have heads : ∀ i, Head lists' i → Head lists i ∧ i ≠ b.buddy.start :=
    fun i hi => (erase i).1 (rest.heads i hi)
  have above := upper_buddy_iff (sound.tiling.aligned b (Or.inr (Or.inr rfl))) has
  have extent : SameExtent region (mergeWrites region₁ b.buddy.start b.parent.start
      (b.order + 1)) := relinked.sameExtent.trans ⟨rfl, rfl, rfl⟩
  refine ⟨extent.trans rest.extent, ?_, rest.bounded, rest.alone, rest.lower,
    fun i hi => (heads i hi).1, fun i hi => ?_⟩
  · have same : {i | i ∈ absorbed ∨ (page < i ∧ Head lists i ∧ ¬ Head lists' i)} =
        {i | i ∈ {i | i ∈ absorbed ∨ (i = b.buddy.start ∧ b.start < i)} ∨
          (page < i ∧ Head (Function.update lists b.order
            ((lists b.order).erase b.buddy.start)) i ∧ ¬ Head lists' i)} := by
      apply Set.ext
      intro i
      simp only [Set.mem_ofPred_eq, or_assoc, erase]
      apply or_congr_right
      by_cases atBuddy : i = b.buddy.start
      · subst atBuddy
        have gone : ¬ Head lists' b.buddy.start := fun h => (heads _ h).2 rfl
        simp only [gone, not_false_eq_true, and_true, above, true_and, ne_eq,
          not_true_eq_false, and_false, or_false]
        exact ⟨And.left, fun h => ⟨h, ⟨_, mem⟩⟩⟩
      · simp only [atBuddy, false_and, false_or, ne_eq, not_false_eq_true, and_true]
    rw [same]
    exact rest.sound
  · have ne : i ≠ b.parent.start := by
      intro eq
      have marked := merged.live_isFree hi
      rw [mergeWrites_isFree, if_pos eq] at marked
      cases marked
    rw [rest.orders i hi, mergeWrites_order, if_neg ne, relinked.order]

end Coalesce

/-- The coalescing loop returns, with its effect. -/
theorem coalesce_ok {page : ℕ} :
    ∀ {fuel : ℕ} {region : PmmRegion} {lists : ℕ → List ℕ} {absorbed : Set ℕ} {b : Block},
      Sound region lists live absorbed {b} → b.order + fuel = maxOrder → b.Has page →
      ∃ c region' lists', coalesce fuel b.start b.order region =
          .ok (c.start, c.order) region' ∧
        CoalesceEffect page region lists live absorbed region' lists' c := by
  intro fuel
  induction fuel with
  | zero =>
      intro region lists absorbed b sound fuel_eq has
      exact ⟨b, region, lists, rfl, sound.coalesce_stop fuel_eq.le
        (fun small => absurd small (by omega)) has⟩
  | succ fuel ih =>
      intro region lists absorbed b sound fuel_eq has
      have tile : b ∈ freeBlocks lists ∪ (region.busyBlocks live ∪ {b}) := Or.inr (Or.inr rfl)
      have aligned := sound.tiling.aligned b tile
      have inside := sound.tiling.inside b tile
      have small : b.order < maxOrder := by omega
      have bound : b.start < region.blockPoolSize := by
        have pos := Nat.two_pow_pos b.order
        omega
      have lookup := sound.geometry.getBuddyBlock_eq small.le aligned inside
      by_cases below : b.buddy.start < region.blockPoolSize
      case neg =>
        -- the buddy lies behind the end of the region
        have missing : getBuddyBlock region b.start b.order = none :=
          lookup.trans (if_neg below)
        refine ⟨b, region, lists, ?_, sound.coalesce_stop small.le (fun _ mem => ?_) has⟩
        · rw [coalesce, Machine.bind_of_ok (Machine.get_run region)]
          simp only [missing]
          rfl
        · exact below (sound.free_bound mem)
      have found : getBuddyBlock region b.start b.order = some b.buddy.start :=
        lookup.trans (if_pos below)
      by_cases mem : b.buddy.start ∈ lists b.order
      · -- the buddy is free: merge and go on with the larger block
        have entry := (sound.buddy_entry_iff below).2 mem
        obtain ⟨region₁, removed, relinked, merged⟩ := sound.merge small mem
        have order : b.parent.order + fuel = maxOrder := by
          change b.order + 1 + fuel = _
          omega
        obtain ⟨c, region', lists', run, rest⟩ :=
          ih merged order ((aligned.parent_has page).2 (Or.inl has))
        refine ⟨c, region', lists', ?_, .after_merge sound mem has relinked merged rest⟩
        rw [coalesce, Machine.bind_of_ok (Machine.get_run region)]
        simp only [found, entry.1, entry.2, Bool.not_true, Bool.false_eq_true, ne_eq,
          not_true_eq_false, or_self, if_false]
        rw [Machine.bind_of_ok removed]
        simp only [Bool.not_true, Bool.false_eq_true, if_false]
        rw [Machine.bind_of_ok (Machine.modify_run _ _), sound.geometry.lower_eq bound below]
        exact run
      · -- the buddy is in use or split
        have entry := mt (sound.buddy_entry_iff below).1 mem
        refine ⟨b, region, lists, ?_, sound.coalesce_stop small.le (fun _ => mem) has⟩
        rw [coalesce, Machine.bind_of_ok (Machine.get_run region)]
        simp only [found]
        rw [if_pos]
        · rfl
        · cases isFree : (region.blockPool b.buddy.start).isFree with
          | false => exact Or.inl rfl
          | true => exact Or.inr fun order => entry ⟨isFree, order⟩

/-- `pmm_free` of a live allocation returns. -/
theorem freeInRegion_ok (sound : Sound region lists live absorbed ∅) {i : ℕ} (mem : i ∈ live) :
    ∃ region' lists', freeInRegion (region.pageAddress i) region = .ok () region' ∧
      SameExtent region region' ∧
      Sound region' lists' (live \ {i})
        {j | j ∈ absorbed ∨ (i < j ∧ Head lists j ∧ ¬ Head lists' j)} ∅ ∧
      ∀ j ∈ live \ {i}, (region'.blockPool j).order = (region.blockPool j).order := by
  have bound := sound.liveBound i mem
  have bounded := (sound.record i bound).1
  have aligned := (sound.live_inside mem).1
  obtain ⟨b, region₁, lists₁, run, effect⟩ :=
    coalesce_ok (sound.hold mem) (Nat.add_sub_cancel' bounded)
      (Block.has_start ⟨i, (region.blockPool i).order⟩)
  have settled := effect.sound.settle effect.bounded effect.alone
  have low : b.start ≤ i := effect.lower
  have extent₁ : SameExtent region (region.setFree i true) := ⟨rfl, rfl, rfl⟩
  refine ⟨addToRegionFreelist region₁ b.start b.order,
    Function.update lists₁ b.order (b.start :: lists₁ b.order), ?_,
    (extent₁.trans effect.extent).trans (Relinked.addToRegionFreelist ..).sameExtent, ?_, ?_⟩
  · unfold freeInRegion
    rw [Machine.bind_of_ok (Machine.get_run region)]
    simp only [sound.geometry.findBlock_pageAddress bound, sound.live_isFree mem,
      Bool.false_eq_true, if_false, if_neg (Nat.not_lt.2 bounded),
      (sound.geometry.offset_mod_blockSize bound bounded).2 aligned, ne_eq, not_true_eq_false]
    rw [Machine.bind_of_ok (Machine.modify_run _ _), Machine.bind_of_ok run]
    rfl
  · -- the block that was put back starts at or below the freed page
    have same : {j | j ∈ absorbed ∨ (i < j ∧ Head lists j ∧ ¬ Head
          (Function.update lists₁ b.order (b.start :: lists₁ b.order)) j)} =
        {j | j ∈ absorbed ∨ (i < j ∧ Head lists j ∧ ¬ Head lists₁ j)} := by
      refine Set.ext fun j => or_congr_right (and_congr_right fun above => ?_)
      refine and_congr_right fun _ => not_congr ⟨fun ⟨k, hk⟩ => ?_, fun ⟨k, hk⟩ =>
        ⟨k, (Lists.mem_add_iff ..).2 (Or.inr hk)⟩⟩
      rcases (Lists.mem_add_iff ..).1 hk with ⟨eq, -⟩ | hk
      · exact absurd above (by omega)
      · exact ⟨k, hk⟩
    rw [same]
    exact settled
  · intro j hj
    rw [addToRegionFreelist_order, effect.orders j hj, setFree_order]

end Sound

/-! ## Frees that must be refused -/

/-- `pmm_free` refuses a page whose mark is set, without touching anything. -/
theorem freeInRegion_of_isFree {region : PmmRegion} (geometry : region.Geometry) {i : ℕ}
    (bound : i < region.blockPoolSize) (isFree : (region.blockPool i).isFree = true) :
    freeInRegion (region.pageAddress i) region =
      .error (.panic "Double free detected for pointer %p" [region.pageAddress i]) region := by
  unfold freeInRegion
  rw [Machine.bind_of_ok (Machine.get_run region)]
  simp only [geometry.findBlock_pageAddress bound, isFree, if_true]
  rfl

/-- Every pool entry records a block that fits at its page. -/
def Recorded (region : PmmRegion) : Prop :=
  ∀ i < region.blockPoolSize, (region.blockPool i).order ≤ maxOrder ∧
    2 ^ (region.blockPool i).order ∣ i ∧
    i + 2 ^ (region.blockPool i).order ≤ region.blockPoolSize

/-- However `remove_from_region_freelist` ends, only heads and links differ. -/
theorem remove_relinked (region : PmmRegion) (block order : ℕ) :
    Relinked region (Machine.final (removeFromRegionFreelist block order region)) := by
  unfold removeFromRegionFreelist
  rw [Machine.bind_of_ok (Machine.get_run region)]
  cases walk : findSlot region block (region.blockPoolSize + 1) (.head order) with
  | none => exact .refl region
  | some slot =>
      by_cases empty : region.deref slot = none
      · simp only [empty, if_true]
        exact .refl region
      · simp only [empty, if_false]
        exact (Relinked.assign region _ _).trans (.setNext _ block none)

/-- The coalescing loop never clears the mark of a page inside the block it
holds: it only clears marks of buddies. -/
theorem coalesce_keeps_mark {i : ℕ} :
    ∀ {fuel : ℕ} {region : PmmRegion} {b : Block}, region.Geometry → region.Recorded →
      b.Aligned → b.start + 2 ^ b.order ≤ region.blockPoolSize → b.order + fuel = maxOrder →
      b.Has i → (region.blockPool i).isFree = true →
      ((Machine.final (coalesce fuel b.start b.order region)).blockPool i).isFree = true
  | 0, region, b, _, _, _, _, _, _, isFree => isFree
  | fuel + 1, region, b, geometry, recorded, aligned, inside, fuel_eq, has, isFree => by
      have small : b.order < maxOrder := by omega
      have lookup := geometry.getBuddyBlock_eq small.le aligned inside
      rw [coalesce, Machine.bind_of_ok (Machine.get_run region)]
      by_cases below : b.buddy.start < region.blockPoolSize
      · have found : getBuddyBlock region b.start b.order = some b.buddy.start :=
          lookup.trans (if_pos below)
        simp only [found]
        split
        · exact isFree
        rename_i entry
        rw [not_or] at entry
        have order : (region.blockPool b.buddy.start).order = b.order := not_not.1 entry.2
        have notBuddy : i ≠ b.buddy.start := by
          intro eq
          exact aligned.not_buddy_has has (eq ▸ b.buddy.has_start)
        have relinked := region.remove_relinked b.buddy.start b.order
        refine Machine.final_bind (P := fun r : PmmRegion => (r.blockPool i).isFree = true)
          ?_ fun removed region₁ run => ?_
        · rw [relinked.isFree]
          exact isFree
        have relinked₁ : Relinked region region₁ := by
          rw [run] at relinked
          exact relinked
        split
        · exact (relinked₁.isFree i).trans isFree
        rw [Machine.bind_of_ok (Machine.modify_run _ _)]
        -- the block in hand becomes the parent
        have bound : b.start < region.blockPoolSize := by
          have pos := Nat.two_pow_pos b.order
          omega
        rw [geometry.lower_eq bound below]
        change ((Machine.final (coalesce fuel b.parent.start b.parent.order (Sound.mergeWrites
          region₁ b.buddy.start b.parent.start (b.order + 1)))).blockPool i).isFree = true
        have parentInside : b.parent.start + 2 ^ b.parent.order ≤ region.blockPoolSize := by
          have buddyInside := (recorded _ below).2.2
          rw [order] at buddyInside
          have double : 2 ^ (b.order + 1) = 2 ^ b.order + 2 ^ b.order := by
            rw [Nat.pow_succ]; omega
          change min b.start b.buddy.start + 2 ^ (b.order + 1) ≤ _
          rcases aligned.buddy_cases with ⟨-, start⟩ | ⟨-, start⟩ <;> omega
        have size : (Sound.mergeWrites region₁ b.buddy.start b.parent.start
            (b.order + 1)).blockPoolSize = region.blockPoolSize := relinked₁.size
        refine coalesce_keeps_mark (b := b.parent)
          (Sound.mergeWrites_geometry (geometry.of_relinked relinked₁) _ _ _) ?_ aligned.parent
          (size ▸ parentInside) (by change b.order + 1 + fuel = _; omega)
          ((aligned.parent_has i).2 (Or.inl has)) ?_
        · intro j hj
          rw [size] at hj ⊢
          rw [Sound.mergeWrites_order]
          split
          · rename_i same
            rw [same]
            exact ⟨small, aligned.parent, parentInside⟩
          · rw [relinked₁.order]
            exact recorded j hj
        · rw [Sound.mergeWrites_isFree, if_neg notBuddy, relinked₁.isFree]
          split
          · rfl
          · exact isFree
      · have missing : getBuddyBlock region b.start b.order = none :=
          lookup.trans (if_neg below)
        simp only [missing]
        exact isFree

/-- `pmm_free` of a page whose mark is clear passes every check and sets the
mark, whether the page is a block head or not. -/
theorem freeInRegion_of_not_isFree {region : PmmRegion} (geometry : region.Geometry)
    (recorded : region.Recorded) {i : ℕ} (bound : i < region.blockPoolSize)
    (isFree : (region.blockPool i).isFree = false) :
    ((Machine.final (freeInRegion (region.pageAddress i) region)).blockPool i).isFree =
      true := by
  obtain ⟨bounded, aligned, inside⟩ := recorded i bound
  unfold freeInRegion
  rw [Machine.bind_of_ok (Machine.get_run region)]
  simp only [geometry.findBlock_pageAddress bound, isFree, Bool.false_eq_true, if_false,
    if_neg (Nat.not_lt.2 bounded), (geometry.offset_mod_blockSize bound bounded).2 aligned,
    ne_eq, not_true_eq_false]
  rw [Machine.bind_of_ok (Machine.modify_run _ _)]
  have marked : ((region.setFree i true).blockPool i).isFree = true := by
    rw [setFree_isFree, if_pos rfl]
  have kept := coalesce_keeps_mark (b := ⟨i, (region.blockPool i).order⟩)
    (geometry.setFree i true) (fun j hj => by
      rw [setFree_order]
      exact recorded j hj) aligned inside (Nat.add_sub_cancel' bounded)
    (Block.has_start _) marked
  refine Machine.final_bind (P := fun r : PmmRegion => (r.blockPool i).isFree = true)
    kept fun result region₁ run => ?_
  rw [run] at kept
  rw [Machine.modify_run]
  exact (addToRegionFreelist_isFree ..).trans kept

end PmmRegion

end ArkoiOs
