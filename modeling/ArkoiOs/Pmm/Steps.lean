import ArkoiOs.Pmm.Invariant

/-!
# Splitting, holding, merging and releasing blocks

The remaining steps on a sound region: one round of the split loop, taking a
live block in hand, one round of the coalescing loop, and putting the block in
hand on a free list.
-/

namespace ArkoiOs

open Dyadic

namespace PmmRegion

namespace Sound

variable {region : PmmRegion} {lists : ℕ → List ℕ} {live absorbed : Set ℕ}

/-! ## Splitting -/

/-- The writes of one round of the split loop. -/
def splitWrites (region : PmmRegion) (target buddy order : ℕ) : PmmRegion :=
  addToRegionFreelist
    ((((region.setOrder target order).setOrder buddy order).setFree buddy true).setNext buddy none)
    buddy order

@[simp] theorem splitWrites_order (region : PmmRegion) (target buddy order i : ℕ) :
    ((splitWrites region target buddy order).blockPool i).order =
      if i = target ∨ i = buddy then order else (region.blockPool i).order := by
  simp only [splitWrites, addToRegionFreelist_order, setNext_order, setFree_order, setOrder_order]
  by_cases atBuddy : i = buddy <;> by_cases atTarget : i = target <;> simp [atBuddy, atTarget]

@[simp] theorem splitWrites_isFree (region : PmmRegion) (target buddy order i : ℕ) :
    ((splitWrites region target buddy order).blockPool i).isFree =
      if i = buddy then true else (region.blockPool i).isFree := by
  simp only [splitWrites, addToRegionFreelist_isFree, setNext_isFree, setFree_isFree,
    setOrder_isFree]

@[simp] theorem splitWrites_size (region : PmmRegion) (target buddy order : ℕ) :
    (splitWrites region target buddy order).blockPoolSize = region.blockPoolSize := rfl

theorem splitWrites_geometry (geometry : region.Geometry) (target buddy order : ℕ) :
    (splitWrites region target buddy order).Geometry :=
  (((geometry.setOrder target order).setOrder buddy order).setFree buddy true).of_relinked
    ((Relinked.setNext _ buddy none).trans (.addToRegionFreelist _ buddy order))

/-- The tiles after a split: the live block is replaced by its two halves. -/
theorem split_tiles (sound : Sound region lists live absorbed ∅) {target order : ℕ}
    (mem : target ∈ live) (recorded : (region.blockPool target).order = order + 1)
    (notLive : target + 2 ^ order ∉ live) :
    Tiling (insert ⟨target + 2 ^ order, order⟩ (freeBlocks lists) ∪
      ((splitWrites region target (target + 2 ^ order) order).busyBlocks live ∪ ∅))
      region.blockPoolSize := by
  have whole : live = insert target (live \ {target}) := by
    rw [Set.insert_sdiff_singleton, Set.insert_eq_of_mem mem]
  have before : freeBlocks lists ∪ (region.busyBlocks live ∪ ∅) =
      (freeBlocks lists ∪ region.busyBlocks (live \ {target})) ∪ {⟨target, order + 1⟩} := by
    conv_lhs => rw [whole, busyBlocks_insert, recorded]
    rw [Set.union_empty, Set.union_assoc, Set.union_singleton]
  have others : (splitWrites region target (target + 2 ^ order) order).busyBlocks
      (live \ {target}) = region.busyBlocks (live \ {target}) := by
    apply busyBlocks_congr
    intro i hi
    have ne : i ≠ target + 2 ^ order := fun eq => notLive (eq ▸ hi.1)
    have ne' : i ≠ target := hi.2
    rw [splitWrites_order, if_neg (not_or.2 ⟨ne', ne⟩)]
  have after : (freeBlocks lists ∪ region.busyBlocks (live \ {target})) ∪
        {⟨target, order⟩, ⟨target + 2 ^ order, order⟩} =
      insert ⟨target + 2 ^ order, order⟩ (freeBlocks lists) ∪
        ((splitWrites region target (target + 2 ^ order) order).busyBlocks live ∪ ∅) := by
    conv_rhs => rw [whole, busyBlocks_insert, others, splitWrites_order, if_pos (Or.inl rfl)]
    apply Set.ext
    intro b
    simp only [Set.mem_union, Set.mem_insert_iff, Set.mem_singleton_iff, Set.mem_empty_iff_false]
    tauto
  have tiling := sound.tiling
  rw [before] at tiling
  rw [← after]
  apply tiling.split
  intro again
  rcases again with again | again
  · exact sound.free_not_live again mem
  · exact again.1.2 rfl

/-- One round of the split loop keeps the lower half live and frees the upper
half.  The upper half leaves the absorbed pages. -/
theorem split (sound : Sound region lists live absorbed ∅) {target order : ℕ}
    (mem : target ∈ live) (recorded : (region.blockPool target).order = order + 1) :
    Sound (splitWrites region target (target + 2 ^ order) order)
      (Function.update lists order ((target + 2 ^ order) :: lists order))
      live (absorbed \ {target + 2 ^ order}) ∅ := by
  have pos := Nat.two_pow_pos order
  have inside := sound.live_inside mem
  have bounded := (sound.record target (sound.liveBound target mem)).1
  rw [recorded] at inside bounded
  have half : (2 : ℕ) ^ order ∣ target :=
    (Nat.pow_dvd_pow 2 (Nat.le_succ order)).trans inside.1
  have buddy := Block.buddy_of_lower inside.1
  have double : 2 ^ (order + 1) = 2 ^ order + 2 ^ order := by
    rw [Nat.pow_succ]; omega
  rw [double] at inside
  -- the upper half starts inside the live block, so no block starts there
  have tile : _ ∈ freeBlocks lists ∪ (region.busyBlocks live ∪ ∅) :=
    mem_tiles_of_live mem _ _
  rw [recorded] at tile
  have interior := sound.interior (i := target + 2 ^ order) tile
    ⟨Nat.le_add_right _ _, by simp only [double]; omega⟩ (by simp only; omega)
  have fresh := interior.1
  have notLive := interior.2.1
  refine
    { geometry := splitWrites_geometry sound.geometry _ _ _
      listed := ?_
      freeEntry := ?_
      heldEntry := fun b hb => hb.elim
      heldFresh := fun b hb => hb.elim
      tiling := ?_
      coalesced := ?_
      record := ?_
      liveBound := sound.liveBound
      marks := ?_
      unabsorbed := fun i hi hab => sound.unabsorbed i hi hab.1 }
  · have marked : Lists (((region.setOrder target order).setOrder (target + 2 ^ order)
        order).setFree (target + 2 ^ order) true) lists :=
      sound.listed.congr rfl (by rw [links_setFree, links_setOrder, links_setOrder])
    exact (marked.setNext fresh none).add fresh order
  · intro i k hi
    rw [splitWrites_order, splitWrites_isFree]
    rcases (Lists.mem_add_iff lists _ order i k).1 hi with ⟨rfl, rfl⟩ | hi
    · exact ⟨by omega, if_pos (Or.inr rfl), if_pos rfl⟩
    · have ne : i ≠ target := fun eq => sound.free_not_live hi (eq ▸ mem)
      have ne' : i ≠ target + 2 ^ order := fun eq => fresh k (eq ▸ hi)
      rw [if_neg (not_or.2 ⟨ne, ne'⟩), if_neg ne']
      exact sound.freeEntry i k hi
  · rw [freeBlocks_add]
    exact sound.split_tiles mem recorded notLive
  · -- the buddy of the new free block is the live lower half
    rw [freeBlocks_add]
    apply sound.coalesced.insert
    intro lower
    rw [← buddy, Block.buddy_buddy] at lower
    exact sound.free_not_live lower mem
  · intro i hi
    rw [splitWrites_size] at hi ⊢
    rw [splitWrites_order]
    split
    · rename_i at_
      rcases at_ with rfl | rfl
      · exact ⟨by omega, half, by omega⟩
      · exact ⟨by omega, Nat.dvd_add half dvd_rfl, by omega⟩
    · exact sound.record i hi
  · intro i hi
    rw [splitWrites_isFree]
    split
    · rename_i same
      rw [same]
      simp [notLive]
    · rename_i ne
      rw [sound.marks i hi]
      simp [ne]

/-! ## Freeing -/

/-- `pmm_free` takes a live block in hand by setting its mark. -/
theorem hold (sound : Sound region lists live absorbed ∅) {i : ℕ} (mem : i ∈ live) :
    Sound (region.setFree i true) lists (live \ {i}) absorbed
      {⟨i, (region.blockPool i).order⟩} := by
  have whole : live = insert i (live \ {i}) := by
    rw [Set.insert_sdiff_singleton, Set.insert_eq_of_mem mem]
  refine
    { geometry := sound.geometry.setFree i true
      listed := sound.listed.congr rfl (links_setFree _ _ _)
      freeEntry := ?_
      heldEntry := ?_
      heldFresh := ?_
      tiling := ?_
      coalesced := sound.coalesced
      record := ?_
      liveBound := fun j hj => sound.liveBound j hj.1
      marks := ?_
      unabsorbed := fun j hj => sound.unabsorbed j hj.1 }
  · intro j k hj
    have ne : j ≠ i := fun eq => sound.free_not_live hj (eq ▸ mem)
    rw [setFree_order, setFree_isFree, if_neg ne]
    exact sound.freeEntry j k hj
  · intro b hb
    rw [hb, setFree_order, setFree_isFree, if_pos rfl]
    exact ⟨rfl, rfl⟩
  · intro b hb k hk
    rw [hb] at hk
    exact sound.free_not_live hk mem
  · have busy : (region.setFree i true).busyBlocks (live \ {i}) =
        region.busyBlocks (live \ {i}) :=
      busyBlocks_congr fun j _ => setFree_order ..
    have tiling := sound.tiling
    rw [whole, busyBlocks_insert, Set.union_empty, ← Set.union_singleton] at tiling
    rw [busy]
    exact tiling
  · intro j hj
    rw [setFree_order]
    exact sound.record j hj
  · intro j hj
    rw [setFree_isFree]
    by_cases same : j = i
    · rw [if_pos same, same]
      simp [sound.unabsorbed i mem]
    · rw [if_neg same, sound.marks j hj]
      simp [same]

/-- Putting the block in hand on the free list of its order ends `pmm_free`. -/
theorem settle {b : Block} (sound : Sound region lists live absorbed {b})
    (bounded : b.order ≤ maxOrder)
    (alone : b.order < maxOrder → b.buddy ∉ freeBlocks lists) :
    Sound (addToRegionFreelist region b.start b.order)
      (Function.update lists b.order (b.start :: lists b.order)) live absorbed ∅ := by
  have fresh := sound.heldFresh b rfl
  have entry := sound.heldEntry b rfl
  have relinked := Relinked.addToRegionFreelist region b.start b.order
  refine
    { geometry := sound.geometry.of_relinked relinked
      listed := sound.listed.add fresh b.order
      freeEntry := ?_
      heldEntry := fun c hc => hc.elim
      heldFresh := fun c hc => hc.elim
      tiling := ?_
      coalesced := ?_
      record := (sound.of_relinked_entries relinked).1
      liveBound := sound.liveBound
      marks := (sound.of_relinked_entries relinked).2
      unabsorbed := sound.unabsorbed }
  · intro i k hi
    rw [addToRegionFreelist_order, addToRegionFreelist_isFree]
    rcases (Lists.mem_add_iff lists _ b.order i k).1 hi with ⟨rfl, rfl⟩ | hi
    · exact ⟨bounded, entry⟩
    · exact sound.freeEntry i k hi
  · have busy : (addToRegionFreelist region b.start b.order).busyBlocks live =
        region.busyBlocks live :=
      busyBlocks_congr fun j _ => addToRegionFreelist_order ..
    have sets : freeBlocks lists ∪ (region.busyBlocks live ∪ {b}) =
        insert b (freeBlocks lists) ∪ (region.busyBlocks live ∪ ∅) := by
      apply Set.ext
      intro c
      simp only [Set.mem_union, Set.mem_insert_iff, Set.mem_singleton_iff,
        Set.mem_empty_iff_false]
      tauto
    rw [freeBlocks_add, busy, ← sets]
    exact sound.tiling
  · rw [freeBlocks_add]
    by_cases small : b.order < maxOrder
    · exact sound.coalesced.insert (alone small)
    · intro c hc below hbuddy
      rcases hc with same | hc <;> rcases hbuddy with same' | hbuddy
      · rw [same] at below
        exact small below
      · rw [same] at below
        exact small below
      · have order : c.buddy.order = b.order := by rw [same']
        change c.order = b.order at order
        rw [order] at below
        exact small below
      · exact sound.coalesced c hc below hbuddy

/-- The writes of one round of the coalescing loop after the buddy has left its
free list. -/
def mergeWrites (region : PmmRegion) (buddy lower order : ℕ) : PmmRegion :=
  (((region.setFree buddy false).setNext buddy none).setOrder lower order).setFree lower true

@[simp] theorem mergeWrites_order (region : PmmRegion) (buddy lower order i : ℕ) :
    ((mergeWrites region buddy lower order).blockPool i).order =
      if i = lower then order else (region.blockPool i).order := by
  simp only [mergeWrites, setFree_order, setOrder_order, setNext_order]

@[simp] theorem mergeWrites_isFree (region : PmmRegion) (buddy lower order i : ℕ) :
    ((mergeWrites region buddy lower order).blockPool i).isFree =
      if i = lower then true else if i = buddy then false
      else (region.blockPool i).isFree := by
  simp only [mergeWrites, setFree_isFree, setOrder_isFree, setNext_isFree]

theorem mergeWrites_geometry (geometry : region.Geometry) (buddy lower order : ℕ) :
    (mergeWrites region buddy lower order).Geometry :=
  (((geometry.setFree buddy false).of_relinked (.setNext _ buddy none)).setOrder lower
    order).setFree lower true

section Merge

variable {region' : PmmRegion} {b : Block}

/-- Entries other than those of the two buddies are not written. -/
theorem mergeWrites_kept (relinked : Relinked region region') {j : ℕ} (ne : j ≠ b.start)
    (ne' : j ≠ b.buddy.start) :
    let merged := mergeWrites region' b.buddy.start b.parent.start (b.order + 1)
    (merged.blockPool j).order = (region.blockPool j).order ∧
      (merged.blockPool j).isFree = (region.blockPool j).isFree := by
  intro merged
  have notParent : j ≠ b.parent.start := by
    rcases b.parent_start_cases with h | h <;> rw [h] <;> assumption
  constructor
  · rw [mergeWrites_order, if_neg notParent, relinked.order]
  · rw [mergeWrites_isFree, if_neg notParent, if_neg ne', relinked.isFree]

/-- No live page is the start of one of the two buddies. -/
theorem live_ne_merged (sound : Sound region lists live absorbed {b})
    (mem : b.buddy.start ∈ lists b.order) {j : ℕ} (hj : j ∈ live) :
    j ≠ b.start ∧ j ≠ b.buddy.start := by
  refine ⟨fun eq => ?_, fun eq => sound.free_not_live mem (eq ▸ hj)⟩
  have marked := sound.live_isFree hj
  rw [eq, (sound.heldEntry b rfl).2] at marked
  cases marked

/-- Once the buddy has left its list, neither buddy is on a list. -/
theorem listed_ne_merged (sound : Sound region lists live absorbed {b})
    (mem : b.buddy.start ∈ lists b.order) {j l : ℕ}
    (hj : j ∈ Function.update lists b.order ((lists b.order).erase b.buddy.start) l) :
    j ∈ lists l ∧ j ≠ b.start ∧ j ≠ b.buddy.start := by
  obtain ⟨listed, ne⟩ := (sound.listed.mem_erase_iff j l mem).1 hj
  exact ⟨listed, fun eq => sound.heldFresh b rfl l (eq ▸ listed), ne⟩

/-- The tiles after a merge: the two buddies are replaced by their parent. -/
theorem merge_tiles (sound : Sound region lists live absorbed {b})
    (mem : b.buddy.start ∈ lists b.order) (relinked : Relinked region region') :
    Tiling (freeBlocks (Function.update lists b.order ((lists b.order).erase b.buddy.start)) ∪
      ((mergeWrites region' b.buddy.start b.parent.start (b.order + 1)).busyBlocks live ∪
        {b.parent})) region.blockPoolSize := by
  have busy : (mergeWrites region' b.buddy.start b.parent.start (b.order + 1)).busyBlocks live =
      region.busyBlocks live := by
    apply busyBlocks_congr
    intro j hj
    obtain ⟨ne, ne'⟩ := sound.live_ne_merged mem hj
    exact (mergeWrites_kept relinked ne ne').1
  have buddyMem : b.buddy ∈ freeBlocks lists := mem
  have sets : freeBlocks lists ∪ (region.busyBlocks live ∪ {b}) =
      (freeBlocks lists \ {b.buddy} ∪ region.busyBlocks live) ∪ {b, b.buddy} := by
    apply Set.ext
    intro c
    simp only [Set.mem_union, Set.mem_insert_iff, Set.mem_singleton_iff, Set.mem_sdiff]
    by_cases same : c = b.buddy
    · simp [same, buddyMem]
    · simp [same]
      tauto
  have tiling := sound.tiling
  rw [sets] at tiling
  rw [sound.listed.freeBlocks_remove mem, busy, ← Set.union_assoc]
  apply tiling.merge
  · intro again
    rcases again with again | again
    · exact sound.heldFresh b rfl _ again.1
    · exact (sound.live_ne_merged mem again.1).1 rfl
  · intro again
    rcases again with again | again
    · exact again.2 rfl
    · exact (sound.live_ne_merged mem again.1).2 rfl

/-- The marks after a merge: the buddy joins the absorbed pages when it is the
upper half. -/
theorem merge_marks (sound : Sound region lists live absorbed {b})
    (mem : b.buddy.start ∈ lists b.order) (relinked : Relinked region region') {j : ℕ}
    (bound : j < region.blockPoolSize) :
    ((mergeWrites region' b.buddy.start b.parent.start (b.order + 1)).blockPool j).isFree =
        false ↔ j ∈ live ∨ j ∈ {i | i ∈ absorbed ∨ (i = b.buddy.start ∧ b.start < i)} := by
  have notParent := b.buddy_start_ne
  have base := sound.marks j bound
  rw [mergeWrites_isFree, Set.mem_ofPred_eq, relinked.isFree]
  by_cases atBuddy : j = b.buddy.start
  · subst atBuddy
    have notLive : b.buddy.start ∉ live := fun h => (sound.live_ne_merged mem h).2 rfl
    have notAbsorbed := sound.free_not_absorbed mem
    rcases b.parent_start_cases with h | h
    · -- the buddy is the upper half and is absorbed
      have upper : b.start < b.buddy.start :=
        lt_of_le_of_ne (min_eq_left_iff.1 h) notParent.symm
      rw [if_neg (by rw [h]; exact notParent), if_pos rfl]
      simp [upper]
    · have lowerHalf : ¬ b.start < b.buddy.start := not_lt.2 (min_eq_right_iff.1 h)
      rw [if_pos h.symm]
      simp [notLive, notAbsorbed, lowerHalf]
  · have keep : (j = b.buddy.start ∧ b.start < j) ↔ False := by simp [atBuddy]
    rw [if_neg atBuddy, keep, or_false, ← base]
    split
    · rename_i atParent
      have atStart : j = b.start := by
        rcases b.parent_start_cases with h | h
        · exact atParent.trans h
        · exact absurd (atParent.trans h) atBuddy
      rw [atStart, (sound.heldEntry b rfl).2]
    · rfl

/-- One round of the coalescing loop: the buddy of the block in hand leaves its
free list and the two become the block in hand.  Only an upper buddy joins the
absorbed pages. -/
theorem merge (sound : Sound region lists live absorbed {b}) (small : b.order < maxOrder)
    (mem : b.buddy.start ∈ lists b.order) :
    ∃ region', removeFromRegionFreelist b.buddy.start b.order region = .ok true region' ∧
      Relinked region region' ∧
      Sound (mergeWrites region' b.buddy.start b.parent.start (b.order + 1))
        (Function.update lists b.order ((lists b.order).erase b.buddy.start))
        live {i | i ∈ absorbed ∨ (i = b.buddy.start ∧ b.start < i)} {b.parent} := by
  obtain ⟨region', run, relinked, listed⟩ :=
    sound.listed.remove mem fun j hj => sound.free_bound hj
  refine ⟨region', run, relinked, ?_⟩
  have tiles := sound.merge_tiles mem relinked
  have size : (mergeWrites region' b.buddy.start b.parent.start (b.order + 1)).blockPoolSize =
      region.blockPoolSize := relinked.size
  refine
    { geometry := mergeWrites_geometry (sound.geometry.of_relinked relinked) _ _ _
      listed := ?_
      freeEntry := ?_
      heldEntry := ?_
      heldFresh := ?_
      tiling := size ▸ tiles
      coalesced := ?_
      record := ?_
      liveBound := fun j hj => size ▸ sound.liveBound j hj
      marks := fun j hj => sound.merge_marks mem relinked (size ▸ hj)
      unabsorbed := ?_ }
  · have marked : Lists (region'.setFree b.buddy.start false) _ :=
      listed.congr rfl (links_setFree _ _ _)
    have erased : ∀ l, b.buddy.start ∉
        Function.update lists b.order ((lists b.order).erase b.buddy.start) l :=
      fun l h => (sound.listed_ne_merged mem h).2.2 rfl
    refine (marked.setNext erased none).congr rfl ?_
    rw [mergeWrites, links_setFree, links_setOrder]
  · intro j l hj
    obtain ⟨listed, ne, ne'⟩ := sound.listed_ne_merged mem hj
    obtain ⟨order, mark⟩ := mergeWrites_kept relinked ne ne'
    rw [order, mark]
    exact sound.freeEntry j l listed
  · intro c hc
    rw [hc, mergeWrites_order, mergeWrites_isFree, if_pos rfl, if_pos rfl]
    exact ⟨rfl, rfl⟩
  · intro c hc l hl
    rw [hc] at hl
    obtain ⟨-, ne, ne'⟩ := sound.listed_ne_merged mem hl
    rcases b.parent_start_cases with h | h
    · exact ne h
    · exact ne' h
  · rw [sound.listed.freeBlocks_remove mem]
    exact sound.coalesced.mono Set.sdiff_subset
  · intro j hj
    rw [size] at hj ⊢
    rw [mergeWrites_order]
    split
    · rename_i same
      rw [same]
      exact ⟨small, tiles.aligned b.parent (Or.inr (Or.inr rfl)),
        tiles.inside b.parent (Or.inr (Or.inr rfl))⟩
    · rw [relinked.order]
      exact sound.record j hj
  · intro j hj hab
    rcases hab with hab | ⟨same, -⟩
    · exact sound.unabsorbed j hj hab
    · exact (sound.live_ne_merged mem hj).2 same

end Merge

end Sound

end PmmRegion

end ArkoiOs
