import ArkoiOs.Pmm.FreeList

/-!
# The region invariant and the steps that keep it

`Sound region lists live absorbed held` relates a region to what a run knows
about it: the contents of its free lists, the pages where a live allocation
starts, the pages that were absorbed as a free upper buddy and never split off
again, and the block that `pmm_free` is just coalescing (none between calls).

Only the entries of block heads describe blocks.  The entries of interior pages
keep whatever the last head at that page left there; `record` and `marks` say
how far they can still be trusted.
-/

namespace ArkoiOs

open Dyadic

namespace PmmRegion

/-- The blocks on the free lists. -/
def freeBlocks (lists : ℕ → List ℕ) : Set Block := {b | b.start ∈ lists b.order}

/-- The blocks that start at a live page, with the order their entry records. -/
def busyBlocks (region : PmmRegion) (live : Set ℕ) : Set Block :=
  {b | b.start ∈ live ∧ (region.blockPool b.start).order = b.order}

/-- The invariant of a region. -/
structure Sound (region : PmmRegion) (lists : ℕ → List ℕ) (live absorbed : Set ℕ)
    (held : Set Block) : Prop where
  geometry : region.Geometry
  listed : region.Lists lists
  freeEntry : ∀ i k, i ∈ lists k → k ≤ maxOrder ∧ (region.blockPool i).order = k ∧
    (region.blockPool i).isFree = true
  heldEntry : ∀ b ∈ held, (region.blockPool b.start).order = b.order ∧
    (region.blockPool b.start).isFree = true
  heldFresh : ∀ b ∈ held, ∀ k, b.start ∉ lists k
  tiling : Tiling (freeBlocks lists ∪ (region.busyBlocks live ∪ held)) region.blockPoolSize
  coalesced : Coalesced maxOrder (freeBlocks lists)
  record : ∀ i < region.blockPoolSize, (region.blockPool i).order ≤ maxOrder ∧
    2 ^ (region.blockPool i).order ∣ i ∧
    i + 2 ^ (region.blockPool i).order ≤ region.blockPoolSize
  liveBound : ∀ i ∈ live, i < region.blockPoolSize
  marks : ∀ i < region.blockPoolSize,
    (region.blockPool i).isFree = false ↔ i ∈ live ∨ i ∈ absorbed
  unabsorbed : ∀ i ∈ live, i ∉ absorbed

/-! ## Sets of blocks under updates -/

theorem freeBlocks_add (lists : ℕ → List ℕ) (i k : ℕ) :
    freeBlocks (Function.update lists k (i :: lists k)) = insert ⟨i, k⟩ (freeBlocks lists) := by
  apply Set.ext
  intro b
  rcases b with ⟨s, o⟩
  simp only [freeBlocks, Set.mem_ofPred_eq, Set.mem_insert_iff, Block.mk.injEq]
  by_cases same : o = k
  · subst same
    simp [Function.update_self]
  · simp [same]

theorem Lists.freeBlocks_remove {region : PmmRegion} {lists : ℕ → List ℕ}
    (h : region.Lists lists) {i k : ℕ} (mem : i ∈ lists k) :
    freeBlocks (Function.update lists k ((lists k).erase i)) =
      freeBlocks lists \ {⟨i, k⟩} := by
  apply Set.ext
  intro b
  rcases b with ⟨s, o⟩
  simp only [freeBlocks, Set.mem_ofPred_eq, Set.mem_sdiff, Set.mem_singleton_iff, Block.mk.injEq,
    h.mem_erase_iff s o mem]
  refine and_congr_right fun hs => not_congr ⟨fun same => ⟨same, ?_⟩, And.left⟩
  exact h.apart s o k hs (same ▸ mem)

/-- Busy blocks only depend on the orders recorded at the live pages. -/
theorem busyBlocks_congr {region region' : PmmRegion} {live : Set ℕ}
    (same : ∀ i ∈ live, (region'.blockPool i).order = (region.blockPool i).order) :
    region'.busyBlocks live = region.busyBlocks live := by
  apply Set.ext
  intro b
  apply and_congr_right
  intro hb
  rw [same b.start hb]

theorem busyBlocks_insert (region : PmmRegion) (live : Set ℕ) (i : ℕ) :
    region.busyBlocks (insert i live) =
      insert ⟨i, (region.blockPool i).order⟩ (region.busyBlocks live) := by
  apply Set.ext
  intro b
  rcases b with ⟨s, o⟩
  simp only [busyBlocks, Set.mem_ofPred_eq, Set.mem_insert_iff, Block.mk.injEq, or_and_right]
  refine or_congr_left (and_congr_right fun same => ?_)
  rw [same, eq_comm]

/-- The blocks of the free lists are tiles. -/
theorem mem_tiles_of_free {lists : ℕ → List ℕ} {i k : ℕ} (mem : i ∈ lists k) (S : Set Block) :
    (⟨i, k⟩ : Block) ∈ freeBlocks lists ∪ S :=
  Or.inl mem

/-- The live blocks are tiles. -/
theorem mem_tiles_of_live {region : PmmRegion} {live : Set ℕ} {i : ℕ} (mem : i ∈ live)
    (F S : Set Block) :
    (⟨i, (region.blockPool i).order⟩ : Block) ∈ F ∪ (region.busyBlocks live ∪ S) :=
  Or.inr (Or.inl ⟨mem, rfl⟩)

namespace Sound

variable {region region' : PmmRegion} {lists : ℕ → List ℕ} {live absorbed : Set ℕ}
  {held : Set Block}

/-! ## Consequences -/

theorem free_inside (sound : Sound region lists live absorbed held) {i k : ℕ}
    (mem : i ∈ lists k) : 2 ^ k ∣ i ∧ i + 2 ^ k ≤ region.blockPoolSize :=
  ⟨sound.tiling.aligned _ (mem_tiles_of_free mem _),
    sound.tiling.inside _ (mem_tiles_of_free mem _)⟩

theorem free_bound (sound : Sound region lists live absorbed held) {i k : ℕ}
    (mem : i ∈ lists k) : i < region.blockPoolSize := by
  have inside := (sound.free_inside mem).2
  have := Nat.two_pow_pos k
  omega

theorem live_inside (sound : Sound region lists live absorbed held) {i : ℕ} (mem : i ∈ live) :
    2 ^ (region.blockPool i).order ∣ i ∧
      i + 2 ^ (region.blockPool i).order ≤ region.blockPoolSize :=
  ⟨sound.tiling.aligned _ (mem_tiles_of_live mem _ _),
    sound.tiling.inside _ (mem_tiles_of_live mem _ _)⟩

theorem live_isFree (sound : Sound region lists live absorbed held) {i : ℕ} (mem : i ∈ live) :
    (region.blockPool i).isFree = false :=
  (sound.marks i (sound.liveBound i mem)).2 (Or.inl mem)

/-- A page on a free list is not the start of a live allocation. -/
theorem free_not_live (sound : Sound region lists live absorbed held) {i k : ℕ}
    (mem : i ∈ lists k) : i ∉ live := by
  intro hl
  have := (sound.freeEntry i k mem).2.2
  rw [sound.live_isFree hl] at this
  cases this

theorem free_not_absorbed (sound : Sound region lists live absorbed held) {i k : ℕ}
    (mem : i ∈ lists k) : i ∉ absorbed := by
  intro ha
  have marked := (sound.marks i (sound.free_bound mem)).2 (Or.inr ha)
  have := (sound.freeEntry i k mem).2.2
  rw [marked] at this
  cases this

/-- Free and busy blocks are different blocks. -/
theorem apart (sound : Sound region lists live absorbed ∅) :
    ∀ b ∈ freeBlocks lists, b ∉ region.busyBlocks live ∪ ∅ := by
  intro b hb hl
  rcases hl with hl | hl
  · exact sound.free_not_live hb hl.1
  · exact hl

/-- An interior page of a tile is the start of no tile. -/
theorem interior (sound : Sound region lists live absorbed held) {b : Block}
    (hb : b ∈ freeBlocks lists ∪ (region.busyBlocks live ∪ held)) {i : ℕ}
    (inside : b.Has i) (ne : i ≠ b.start) :
    (∀ k, i ∉ lists k) ∧ i ∉ live ∧ ∀ c ∈ held, c.start ≠ i := by
  have no : ∀ c ∈ freeBlocks lists ∪ (region.busyBlocks live ∪ held), c.start ≠ i := by
    intro c hc start
    have same := sound.tiling.unique b hb c hc i inside (start ▸ c.has_start)
    rw [same, start] at ne
    exact ne rfl
  exact ⟨fun k hk => no ⟨i, k⟩ (mem_tiles_of_free hk _) rfl,
    fun hl => no _ (mem_tiles_of_live hl _ _) rfl, fun c hc => no c (Or.inr (Or.inr hc))⟩

/-- Coalescing looks up the head of a block: the buddy of a tile is a tile of at
most the same order. -/
theorem exists_buddy (sound : Sound region lists live absorbed held) {b : Block}
    (hb : b ∈ freeBlocks lists ∪ (region.busyBlocks live ∪ held))
    (below : b.buddy.start < region.blockPoolSize) :
    ∃ c ∈ freeBlocks lists ∪ (region.busyBlocks live ∪ held),
      c.start = b.buddy.start ∧ c.order ≤ b.order :=
  sound.tiling.exists_buddy hb below

/-! ## Relinking -/

/-- What `record` and `marks` say survives relinking. -/
theorem of_relinked_entries (sound : Sound region lists live absorbed held)
    (relinked : Relinked region region') :
    (∀ i < region'.blockPoolSize, (region'.blockPool i).order ≤ maxOrder ∧
      2 ^ (region'.blockPool i).order ∣ i ∧
      i + 2 ^ (region'.blockPool i).order ≤ region'.blockPoolSize) ∧
    (∀ i < region'.blockPoolSize,
      (region'.blockPool i).isFree = false ↔ i ∈ live ∨ i ∈ absorbed) := by
  refine ⟨fun i hi => ?_, fun i hi => ?_⟩
  · rw [relinked.size] at hi ⊢
    rw [relinked.order]
    exact sound.record i hi
  · rw [relinked.size] at hi
    rw [relinked.isFree]
    exact sound.marks i hi

/-- The invariant does not see heads and links apart from the lists. -/
theorem of_relinked (sound : Sound region lists live absorbed held)
    (relinked : Relinked region region') (listed : region'.Lists lists) :
    Sound region' lists live absorbed held where
  geometry := sound.geometry.of_relinked relinked
  listed := listed
  freeEntry i k mem := by
    rw [relinked.order, relinked.isFree]
    exact sound.freeEntry i k mem
  heldEntry b hb := by
    rw [relinked.order, relinked.isFree]
    exact sound.heldEntry b hb
  heldFresh := sound.heldFresh
  tiling := by
    rw [busyBlocks_congr fun i _ => relinked.order i, relinked.size]
    exact sound.tiling
  coalesced := sound.coalesced
  record := (sound.of_relinked_entries relinked).1
  liveBound i hi := by
    rw [relinked.size]
    exact sound.liveBound i hi
  marks := (sound.of_relinked_entries relinked).2
  unabsorbed := sound.unabsorbed

/-- Clearing the link of a live block, as `pmm_alloc_order` does last. -/
theorem setNext_live (sound : Sound region lists live absorbed held) {i : ℕ} (mem : i ∈ live)
    (next : Option ℕ) : Sound (region.setNext i next) lists live absorbed held :=
  sound.of_relinked (.setNext region i next)
    (sound.listed.setNext (fun _ hk => sound.free_not_live hk mem) next)

/-! ## Allocation -/

/-- Taking a block off its free list and clearing its mark makes it live. -/
theorem take (sound : Sound region lists live absorbed ∅) {i k : ℕ} (mem : i ∈ lists k) :
    ∃ region', removeFromRegionFreelist i k region = .ok true region' ∧
      Relinked region region' ∧
      Sound (region'.setFree i false) (Function.update lists k ((lists k).erase i))
        (insert i live) absorbed ∅ := by
  obtain ⟨region', run, relinked, listed⟩ :=
    sound.listed.remove mem fun j hj => sound.free_bound hj
  refine ⟨region', run, relinked, ?_⟩
  have entry := sound.freeEntry i k mem
  have erase := fun j l => sound.listed.mem_erase_iff j l mem
  have order : ∀ j, ((region'.setFree i false).blockPool j).order =
      (region.blockPool j).order := by
    intro j
    rw [setFree_order, relinked.order]
  have mark : ∀ j, j ≠ i → ((region'.setFree i false).blockPool j).isFree =
      (region.blockPool j).isFree := by
    intro j ne
    rw [setFree_isFree, if_neg ne, relinked.isFree]
  have size : (region'.setFree i false).blockPoolSize = region.blockPoolSize := relinked.size
  refine
    { geometry := (sound.geometry.of_relinked relinked).setFree i false
      listed := listed.congr rfl (links_setFree _ _ _)
      freeEntry := ?_
      heldEntry := fun b hb => hb.elim
      heldFresh := fun b hb => hb.elim
      tiling := ?_
      coalesced := ?_
      record := ?_
      liveBound := ?_
      marks := ?_
      unabsorbed := ?_ }
  · intro j l hj
    obtain ⟨hj, ne⟩ := (erase j l).1 hj
    rw [order, mark j ne]
    exact sound.freeEntry j l hj
  · have sets : freeBlocks lists ∪ (region.busyBlocks live ∪ ∅) =
        freeBlocks (Function.update lists k ((lists k).erase i)) ∪
          ((region'.setFree i false).busyBlocks (insert i live) ∪ ∅) := by
      rw [busyBlocks_congr fun j _ => order j, busyBlocks_insert, entry.2.1,
        sound.listed.freeBlocks_remove mem, Set.union_empty, Set.union_empty,
        Set.union_insert, ← Set.insert_union, Set.insert_sdiff_singleton,
        Set.insert_eq_of_mem (show (⟨i, k⟩ : Block) ∈ freeBlocks lists from mem)]
    rw [← sets, size]
    exact sound.tiling
  · rw [sound.listed.freeBlocks_remove mem]
    exact sound.coalesced.mono Set.sdiff_subset
  · intro j hj
    rw [size] at hj ⊢
    rw [order]
    exact sound.record j hj
  · intro j hj
    rw [size]
    rcases hj with same | hj
    · rw [same]
      exact sound.free_bound mem
    · exact sound.liveBound j hj
  · intro j hj
    rw [size] at hj
    by_cases same : j = i
    · simp [same]
    · rw [mark j same, sound.marks j hj, Set.mem_insert_iff, or_iff_right same]
  · intro j hj
    rcases hj with same | hj
    · rw [same]
      exact sound.free_not_absorbed mem
    · exact sound.unabsorbed j hj

end Sound

end PmmRegion

end ArkoiOs
