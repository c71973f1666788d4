import ArkoiOs.Emm.Allocations
import ArkoiOs.Pmm.RegionCalls

/-!
# Adding a region

`pmm_add_region` cuts the pool greedily into the largest aligned blocks that
fit.  `Carved` is the invariant of that loop: the blocks built so far tile the
pages before `offset`, each with the order `biggestOrder` gives at its start.
At the end the region is sound and coalesced, with nothing live.
-/

namespace ArkoiOs

open Dyadic

/-- What the inner loop of `pmm_add_region` computes: the order is aligned at
`offset` and fits, and the next one is not or does not. -/
theorem growOrder_spec {offset size : ℕ} :
    ∀ {fuel order : ℕ}, order + fuel = maxOrder → 2 ^ order ∣ offset →
      offset + 2 ^ order ≤ size →
      growOrder offset size fuel order ≤ maxOrder ∧
        2 ^ growOrder offset size fuel order ∣ offset ∧
        offset + 2 ^ growOrder offset size fuel order ≤ size ∧
        (growOrder offset size fuel order < maxOrder →
          ¬ (2 ^ (growOrder offset size fuel order + 1) ∣ offset ∧
            offset + 2 ^ (growOrder offset size fuel order + 1) ≤ size))
  | 0, order, fuel_eq, aligned, fits =>
      ⟨fuel_eq.le, aligned, fits, fun small => by
        unfold growOrder at small
        omega⟩
  | fuel + 1, order, fuel_eq, aligned, fits => by
      by_cases grows : 2 ^ (order + 1) ∣ offset ∧ offset + 2 ^ (order + 1) ≤ size
      · have next : growOrder offset size (fuel + 1) order =
            growOrder offset size fuel (order + 1) := by
          have aligned' := Nat.dvd_iff_mod_eq_zero.1 grows.1
          simp [growOrder, blockCount, aligned', grows.2]
        rw [next]
        exact growOrder_spec (by omega) grows.1 grows.2
      · have stop : growOrder offset size (fuel + 1) order = order := by
          by_cases aligned' : offset % 2 ^ (order + 1) = 0
          · have full : size < offset + 2 ^ (order + 1) :=
              Nat.lt_of_not_le fun room => grows ⟨Nat.dvd_iff_mod_eq_zero.2 aligned', room⟩
            simp [growOrder, blockCount, full]
          · simp [growOrder, blockCount, aligned']
        rw [stop]
        exact ⟨by omega, aligned, fits, fun _ => grows⟩

theorem biggestOrder_spec {offset size : ℕ} (h : offset < size) :
    biggestOrder offset size ≤ maxOrder ∧ 2 ^ biggestOrder offset size ∣ offset ∧
      offset + 2 ^ biggestOrder offset size ≤ size ∧
      (biggestOrder offset size < maxOrder →
        ¬ (2 ^ (biggestOrder offset size + 1) ∣ offset ∧
          offset + 2 ^ (biggestOrder offset size + 1) ≤ size)) :=
  growOrder_spec (Nat.zero_add _) (one_dvd _) h

namespace PmmRegion

/-- The blocks before `offset` have been built. -/
structure Carved (region : PmmRegion) (lists : ℕ → List ℕ) (offset : ℕ) : Prop where
  geometry : region.Geometry
  listed : region.Lists lists
  within : offset ≤ region.blockPoolSize
  entry : ∀ i k, i ∈ lists k → i < offset ∧ k = biggestOrder i region.blockPoolSize ∧
    (region.blockPool i).order = k
  tiling : Tiling (freeBlocks lists) offset
  marks : ∀ i < region.blockPoolSize, (region.blockPool i).isFree = true
  recorded : region.Recorded

namespace Carved

variable {region : PmmRegion} {lists : ℕ → List ℕ} {offset : ℕ}

/-- The writes of one round of the loop. -/
def carveWrites (region : PmmRegion) (block order : ℕ) : PmmRegion :=
  addToRegionFreelist ((region.setOrder block order).setFree block true) block order

theorem carveWrites_order (region : PmmRegion) (block order i : ℕ) :
    ((carveWrites region block order).blockPool i).order =
      if i = block then order else (region.blockPool i).order := by
  simp only [carveWrites, addToRegionFreelist_order, setFree_order, setOrder_order]

theorem carveWrites_isFree (region : PmmRegion) (block order i : ℕ) :
    ((carveWrites region block order).blockPool i).isFree =
      if i = block then true else (region.blockPool i).isFree := by
  simp only [carveWrites, addToRegionFreelist_isFree, setFree_isFree, setOrder_isFree]

/-- One round: the block at `offset` is built and put on its list. -/
theorem step (carved : Carved region lists offset) (more : offset < region.blockPoolSize) :
    Carved (carveWrites region offset (biggestOrder offset region.blockPoolSize))
      (Function.update lists (biggestOrder offset region.blockPoolSize)
        (offset :: lists (biggestOrder offset region.blockPoolSize)))
      (offset + 2 ^ biggestOrder offset region.blockPoolSize) := by
  obtain ⟨bounded, aligned, fits, -⟩ := biggestOrder_spec more
  generalize order_eq : biggestOrder offset region.blockPoolSize = order at bounded aligned fits
  have fresh : ∀ k, offset ∉ lists k := fun k h => absurd (carved.entry offset k h).1 (lt_irrefl _)
  have marked : Lists ((region.setOrder offset order).setFree offset true) lists :=
    carved.listed.congr rfl (by rw [links_setFree, links_setOrder])
  refine
    { geometry := ((carved.geometry.setOrder offset order).setFree offset true).of_relinked
        (.addToRegionFreelist _ _ _)
      listed := marked.add fresh order
      within := fits
      entry := ?_
      tiling := ?_
      marks := ?_
      recorded := ?_ }
  · intro i k hi
    rw [carveWrites_order]
    change i < _ ∧ k = biggestOrder i region.blockPoolSize ∧ _
    rcases (Lists.mem_add_iff lists offset order i k).1 hi with ⟨rfl, rfl⟩ | hi
    · exact ⟨Nat.lt_add_of_pos_right (Nat.two_pow_pos _), order_eq.symm, if_pos rfl⟩
    · obtain ⟨before, order_i, entry⟩ := carved.entry i k hi
      rw [if_neg (Nat.ne_of_lt before)]
      exact ⟨Nat.lt_of_lt_of_le before (Nat.le_add_right _ _), order_i, entry⟩
  · rw [freeBlocks_add]
    exact carved.tiling.extend aligned
  · intro i hi
    rw [carveWrites_isFree, carved.marks i hi, ite_self]
  · intro i hi
    rw [carveWrites_order]
    split
    · rename_i same
      rw [same]
      exact ⟨bounded, aligned, fits⟩
    · exact carved.recorded i hi

/-- When the whole pool is cut up, the region is sound. -/
theorem sound (carved : Carved region lists region.blockPoolSize) :
    Sound region lists ∅ ∅ ∅ := by
  have busy : region.busyBlocks ∅ = ∅ := Set.ext fun b => ⟨fun h => h.1, fun h => h.elim⟩
  have spec : ∀ b ∈ freeBlocks lists, b.start < region.blockPoolSize ∧
      b.order = biggestOrder b.start region.blockPoolSize := by
    intro b hb
    obtain ⟨bound, order, -⟩ := carved.entry b.start b.order hb
    exact ⟨bound, order⟩
  -- the lower one of two free buddies could have grown
  have grown : ∀ b ∈ freeBlocks lists, b.order < maxOrder → 2 ^ (b.order + 1) ∣ b.start →
      ¬ b.start + 2 ^ (b.order + 1) ≤ region.blockPoolSize := by
    intro b hb small lower room
    obtain ⟨bound, order⟩ := spec b hb
    have maximal := (biggestOrder_spec bound).2.2.2
    rw [← order] at maximal
    exact maximal small ⟨lower, room⟩
  refine
    { geometry := carved.geometry
      listed := carved.listed
      freeEntry := ?_
      heldEntry := fun b hb => hb.elim
      heldFresh := fun b hb => hb.elim
      tiling := ?_
      coalesced := ?_
      record := carved.recorded
      liveBound := fun i hi => hi.elim
      marks := ?_
      unabsorbed := fun i hi => hi.elim }
  · intro i k hi
    obtain ⟨bound, order, entry⟩ := carved.entry i k hi
    exact ⟨order ▸ (biggestOrder_spec bound).1, entry, carved.marks i bound⟩
  · rw [busy, Set.union_empty, Set.union_empty]
    exact carved.tiling
  · intro b hb small hbuddy
    have double : 2 ^ (b.order + 1) = 2 ^ b.order + 2 ^ b.order := by
      rw [Nat.pow_succ]; omega
    have aligned := carved.tiling.aligned b hb
    have inside := carved.tiling.inside b hb
    have buddyInside := carved.tiling.inside b.buddy hbuddy
    change b.buddy.start + 2 ^ b.order ≤ _ at buddyInside
    rcases aligned.buddy_cases with ⟨lower, start⟩ | ⟨lower, start⟩
    · exact grown b hb small lower (by omega)
    · exact grown b.buddy hbuddy small lower (by change _ + 2 ^ (b.order + 1) ≤ _; omega)
  · intro i hi
    simp [carved.marks i hi]

end Carved

/-- The outer loop of `pmm_add_region` cuts up the whole pool. -/
theorem buildFreeLists_ok :
    ∀ {fuel offset : ℕ} {region : PmmRegion} {lists : ℕ → List ℕ},
      Carved region lists offset → region.blockPoolSize < offset + fuel →
      ∃ region' lists', buildFreeLists fuel offset region = .ok () region' ∧
        SameExtent region region' ∧ Sound region' lists' ∅ ∅ ∅
  | 0, offset, region, lists, carved, enough => by
      have within := carved.within
      omega
  | fuel + 1, offset, region, lists, carved, enough => by
      rw [buildFreeLists, Machine.bind_of_ok (Machine.get_run region)]
      by_cases more : offset < region.blockPoolSize
      · have pos := Nat.two_pow_pos (biggestOrder offset region.blockPoolSize)
        have enough' : (Carved.carveWrites region offset
            (biggestOrder offset region.blockPoolSize)).blockPoolSize <
              offset + 2 ^ biggestOrder offset region.blockPoolSize + fuel := by
          change region.blockPoolSize < _
          omega
        obtain ⟨region', lists', run, extent, sound⟩ :=
          buildFreeLists_ok (carved.step more) enough'
        have round : SameExtent region (Carved.carveWrites region offset
            (biggestOrder offset region.blockPoolSize)) := ⟨rfl, rfl, rfl⟩
        refine ⟨region', lists', ?_, round.trans extent, sound⟩
        simp only [if_pos more, carved.geometry.findBlock_pageAddress more]
        rw [Machine.bind_of_ok (Machine.modify_run _ _)]
        exact run
      · have done : offset = region.blockPoolSize :=
          le_antisymm carved.within (Nat.le_of_not_lt more)
        subst done
        refine ⟨region, lists, ?_, .refl region, carved.sound⟩
        simp only [if_neg more]
        rfl

/-- The region that `pmm_add_region` starts from has no blocks yet. -/
theorem carved_initial {start end_ : UInt32} {size : ℕ} (aligned : start.toNat % 4096 = 0)
    (span : start.toNat + size * 4096 = end_.toNat) (nonempty : 0 < size) :
    Carved (PmmRegion.initial start end_ size) (fun _ => []) 0 where
  geometry := ⟨aligned, span, nonempty, fun _ _ => rfl⟩
  listed := ⟨fun _ => .nil, fun _ _ _ h => (List.not_mem_nil h).elim⟩
  within := Nat.zero_le _
  entry _ _ h := (List.not_mem_nil h).elim
  tiling :=
    { aligned := fun _ h => (List.not_mem_nil h).elim
      inside := fun _ h => (List.not_mem_nil h).elim
      cover := fun _ h => absurd h (Nat.not_lt_zero _)
      unique := fun _ h => (List.not_mem_nil h).elim }
  marks _ _ := rfl
  recorded i hi := ⟨Nat.zero_le _, one_dvd i, hi⟩

end PmmRegion

/-- The first and last whole page boundary of the range `pmm_add_region` is
given. -/
def alignedStart (start : UInt32) : UInt32 := kalignUp start pageSize

/-- The last whole page boundary of the range. -/
def alignedEnd (start size : UInt32) : UInt32 := kalignDown (start + size) pageSize

/-- A region as `pmm_add_region` leaves it: it spans the whole pages of its
range, and nothing is live. -/
structure FreshRegion (region : PmmRegion) (start size : UInt32) : Prop where
  start_eq : region.start = alignedStart start
  end_eq : region.end_ = alignedEnd start size
  sound : ∃ lists, region.Sound lists ∅ ∅ ∅

/-- The pages of the region `pmm_add_region` sets up. -/
def alignedPages (start size : UInt32) : UInt32 :=
  (alignedEnd start size - alignedStart start) / pageSize

/-! ## Metadata in the early heap -/

/-- The early heap has room for a region and the pool of its pages. -/
def Emm.HoldsMetadata (emm : Emm) (pages : UInt32) : Prop :=
  emm.cursor.toNat + sizeofPmmRegion.toNat + (pages * sizeofPmmBlock).toNat ≤ emm.end_.toNat

instance (emm : Emm) (pages : UInt32) : Decidable (emm.HoldsMetadata pages) := by
  unfold Emm.HoldsMetadata; infer_instance

/-- `emm_alloc` grants the request, but with the null pointer or with bytes behind
the end of the heap. -/
def Emm.Misplaces (emm : Emm) (size : UInt32) : Prop :=
  emm.cursor + size ≤ emm.end_ ∧ (emm.cursor = 0 ∨ ¬ emm.Fits size)

/-- One of the two requests of `pmm_add_region` for a region and its pool is
misplaced. -/
def Emm.MisplacesMetadata (emm : Emm) (pages : UInt32) : Prop :=
  emm.Misplaces sizeofPmmRegion ∨ (emm.Fits sizeofPmmRegion ∧
    Emm.Misplaces ⟨emm.cursor + sizeofPmmRegion, emm.end_⟩ (pages * sizeofPmmBlock))

instance (emm : Emm) (size : UInt32) : Decidable (emm.Fits size) := by
  unfold Emm.Fits; infer_instance

instance (emm : Emm) (size : UInt32) : Decidable (emm.Misplaces size) := by
  unfold Emm.Misplaces; infer_instance

instance (emm : Emm) (pages : UInt32) : Decidable (emm.MisplacesMetadata pages) := by
  unfold Emm.MisplacesMetadata; infer_instance

section Written

variable {emm : Emm} {pmm : Pmm} {size : UInt32}

/-- A request is refused, misplaced, or served from the heap. -/
theorem Emm.request_cases (emm : Emm) (size : UInt32) :
    emm.end_ < emm.cursor + size ∨ emm.Misplaces size ∨ (emm.cursor ≠ 0 ∧ emm.Fits size) := by
  rcases word_lt_or_le emm.end_ (emm.cursor + size) with full | room
  · exact Or.inl full
  · by_cases placed : emm.cursor = 0 ∨ ¬ emm.Fits size
    · exact Or.inr (Or.inl ⟨room, placed⟩)
    · rw [not_or, not_not] at placed
      exact Or.inr (Or.inr placed)

/-- A request that fits is not misplaced unless the heap starts at address 0. -/
theorem Emm.not_misplaces (nonnull : emm.cursor ≠ 0) (fits : emm.Fits size) :
    ¬ emm.Misplaces size :=
  fun misplaced => misplaced.2.elim nonnull fun misfit => misfit fits

/-- A refused request is not misplaced and does not fit. -/
theorem Emm.refused_iff (full : emm.end_ < emm.cursor + size) :
    ¬ emm.Misplaces size ∧ ¬ emm.Fits size := by
  refine ⟨fun misplaced => absurd full (UInt32.not_lt.2 misplaced.1), fun fits => ?_⟩
  rw [UInt32.lt_iff_toNat_lt, toNat_cursor_add fits] at full
  exact absurd full (Nat.not_lt.2 fits)

theorem emmAllocWritten_of_fits (nonnull : emm.cursor ≠ 0) (fits : emm.Fits size) :
    emmAllocWritten size emm = .ok emm.cursor ⟨emm.cursor + size, emm.end_⟩ := by
  unfold emmAllocWritten
  rw [Machine.bind_of_ok (emmAlloc_of_fits fits), Machine.bind_of_ok (Machine.get_run _)]
  simp only [if_neg nonnull, if_neg (Nat.not_lt.2 fits)]
  rfl

theorem emmAllocWritten_exhausted (full : emm.end_ < emm.cursor + size) :
    emmAllocWritten size emm = .error (.panic
      "Early boot allocator exhausted while allocating %u bytes" [size]) emm :=
  Machine.bind_of_error (emmAlloc_exhausted full)

/-- A misplaced block faults when it is written. -/
theorem emmAllocWritten_misplaced (misplaced : emm.Misplaces size) :
    ∃ emm', emmAllocWritten size emm =
      .error (if emm.cursor = 0 then .nullDereference else .outOfBounds) emm' := by
  unfold emmAllocWritten
  rw [Machine.bind_of_ok (emmAlloc_of_room misplaced.1), Machine.bind_of_ok (Machine.get_run _)]
  by_cases null : emm.cursor = 0
  · simp only [if_pos null]
    exact ⟨_, rfl⟩
  · have behind := Nat.lt_of_not_le (misplaced.2.resolve_left null)
    simp only [if_neg null, if_pos behind]
    exact ⟨_, rfl⟩

/-- Memory of the early heap is taken without touching the regions. -/
theorem onEmm_of_fits (nonnull : pmm.emm.cursor ≠ 0) (fits : pmm.emm.Fits size) :
    onEmm (emmAllocWritten size) pmm =
      .ok pmm.emm.cursor { pmm with emm := ⟨pmm.emm.cursor + size, pmm.emm.end_⟩ } :=
  Machine.zoom_of_ok rfl (emmAllocWritten_of_fits nonnull fits)

theorem onEmm_exhausted (full : pmm.emm.end_ < pmm.emm.cursor + size) :
    onEmm (emmAllocWritten size) pmm = .error (.panic
      "Early boot allocator exhausted while allocating %u bytes" [size]) pmm :=
  Machine.zoom_of_error rfl (emmAllocWritten_exhausted full)

theorem onEmm_misplaced (misplaced : pmm.emm.Misplaces size) :
    ∃ pmm', onEmm (emmAllocWritten size) pmm =
      .error (if pmm.emm.cursor = 0 then .nullDereference else .outOfBounds) pmm' := by
  obtain ⟨emm', fault⟩ := emmAllocWritten_misplaced misplaced
  exact ⟨_, Machine.zoom_of_error rfl fault⟩

/-- Behind the region the cursor is not 0. -/
theorem Emm.cursor_ne_zero (nonnull : emm.cursor ≠ 0) (fits : emm.Fits size) :
    emm.cursor + size ≠ 0 := by
  intro null
  have sum := toNat_cursor_add fits
  rw [null] at sum
  refine nonnull (UInt32.toNat_inj.1 ?_)
  change emm.cursor.toNat = 0
  change 0 = _ at sum
  omega

/-- The pool fits behind the region when the metadata fits. -/
theorem Emm.holdsMetadata_iff (fits : emm.Fits sizeofPmmRegion) (pages : UInt32) :
    emm.HoldsMetadata pages ↔
      Emm.Fits ⟨emm.cursor + sizeofPmmRegion, emm.end_⟩ (pages * sizeofPmmBlock) := by
  unfold Emm.HoldsMetadata Emm.Fits
  rw [toNat_cursor_add fits]

theorem Emm.HoldsMetadata.fits {pages : UInt32} (holds : emm.HoldsMetadata pages) :
    emm.Fits sizeofPmmRegion :=
  le_trans (Nat.le_add_right _ _) holds

end Written

/-! ## The calls -/

/-- Before its pool is cut up, a range with a whole page is a region without
blocks. -/
theorem carved_aligned {start size : UInt32} (full : alignedStart start < alignedEnd start size) :
    PmmRegion.Carved (PmmRegion.initial (alignedStart start) (alignedEnd start size)
      (alignedPages start size).toNat) (fun _ => []) 0 := by
  -- the aligned bounds are page boundaries
  have lowPage : (alignedStart start).toNat % 4096 = 0 := by
    rw [alignedStart, kalignUp, and_not_page_mask]
    exact Nat.mul_mod_left _ _
  have highPage : (alignedEnd start size).toNat % 4096 = 0 := by
    rw [alignedEnd, kalignDown_toNat]
    exact Nat.mul_mod_left _ _
  have less := UInt32.lt_iff_toNat_lt.1 full
  have pages : (alignedPages start size).toNat =
      ((alignedEnd start size).toNat - (alignedStart start).toNat) / 4096 := by
    rw [alignedPages, UInt32.toNat_div,
      UInt32.toNat_sub_of_le _ _ (UInt32.le_iff_toNat_le.2 less.le), pageSize_toNat]
  exact PmmRegion.carved_initial lowPage (by rw [pages]; omega) (by rw [pages]; omega)

/-- Cutting up the pool of a range with a whole page gives a fresh region. -/
theorem buildFreeLists_fresh {start size : UInt32}
    (full : alignedStart start < alignedEnd start size) :
    ∃ region, buildFreeLists ((alignedPages start size).toNat + 1) 0
        (PmmRegion.initial (alignedStart start) (alignedEnd start size)
          (alignedPages start size).toNat) = .ok () region ∧
      FreshRegion region start size := by
  obtain ⟨region, lists, built, extent, sound⟩ :=
    PmmRegion.buildFreeLists_ok (carved_aligned full) (by
      rw [Nat.zero_add]
      exact Nat.lt_succ_self _)
  exact ⟨region, built, extent.start, extent.end_, lists, sound⟩

/-- With a whole page in the range, `pmm_add_region` takes the metadata and keeps
the region it builds. -/
theorem pmmAddRegion_of_full {start size : UInt32} {region : PmmRegion}
    (fits : start < start + size) (full : alignedStart start < alignedEnd start size)
    (built : buildFreeLists ((alignedPages start size).toNat + 1) 0
      (PmmRegion.initial (alignedStart start) (alignedEnd start size)
        (alignedPages start size).toNat) = .ok () region) (pmm : Pmm) :
    pmmAddRegion start size pmm = (do
      let _ ← onEmm (emmAllocWritten sizeofPmmRegion)
      let _ ← onEmm (emmAllocWritten (alignedPages start size * sizeofPmmBlock))
      modify fun pmm => { pmm with regions := pmm.regions ++ [region] } :
      KernelM Pmm Unit) pmm := by
  have lists : buildFreeLists ((PmmRegion.initial (kalignUp start pageSize)
        (kalignDown (start + size) pageSize)
        ((kalignDown (start + size) pageSize - kalignUp start pageSize) /
          pageSize).toNat).blockPoolSize + 1) 0
      (PmmRegion.initial (kalignUp start pageSize) (kalignDown (start + size) pageSize)
        ((kalignDown (start + size) pageSize - kalignUp start pageSize) / pageSize).toNat) =
        .ok () region := built
  have noOverflow : ¬ start ≥ start + size := UInt32.not_le.2 fits
  have some : ¬ kalignDown (start + size) pageSize ≤ kalignUp start pageSize :=
    UInt32.not_le.2 full
  unfold pmmAddRegion
  simp only [if_neg noOverflow, if_neg some, lists]
  rfl

/-- How `pmm_add_region` ends. -/
inductive AddRegionEnds (start size : UInt32) (pmm : Pmm) : Prop
  | overflow : start + size ≤ start →
      pmmAddRegion start size pmm = .error (.panic
        "Memory region overflows address space (start=%p, size=%u)" [start, size]) pmm →
      AddRegionEnds start size pmm
  | empty : start < start + size → alignedEnd start size ≤ alignedStart start →
      pmmAddRegion start size pmm = .ok () pmm → AddRegionEnds start size pmm
  | exhausted {bytes : UInt32} {pmm' : Pmm} : start < start + size →
      alignedStart start < alignedEnd start size →
      ¬ pmm.emm.HoldsMetadata (alignedPages start size) →
      ¬ pmm.emm.MisplacesMetadata (alignedPages start size) →
      pmmAddRegion start size pmm = .error (.panic
        "Early boot allocator exhausted while allocating %u bytes" [bytes]) pmm' →
      AddRegionEnds start size pmm
  | misplaced {fault : Fault} {pmm' : Pmm} : start < start + size →
      alignedStart start < alignedEnd start size →
      pmm.emm.MisplacesMetadata (alignedPages start size) →
      fault = (if pmm.emm.cursor = 0 then .nullDereference else .outOfBounds) →
      pmmAddRegion start size pmm = .error fault pmm' → AddRegionEnds start size pmm
  | added {region : PmmRegion} : start < start + size →
      alignedStart start < alignedEnd start size → pmm.emm.cursor ≠ 0 →
      pmm.emm.HoldsMetadata (alignedPages start size) →
      pmmAddRegion start size pmm = .ok () ⟨pmm.regions ++ [region],
        ⟨pmm.emm.cursor + sizeofPmmRegion + alignedPages start size * sizeofPmmBlock,
          pmm.emm.end_⟩⟩ →
      FreshRegion region start size → AddRegionEnds start size pmm

theorem pmmAddRegion_ends (start size : UInt32) (pmm : Pmm) : AddRegionEnds start size pmm := by
  rcases word_lt_or_le start (start + size) with fits | wraps
  case inr =>
    refine .overflow wraps ?_
    unfold pmmAddRegion
    simp only [if_pos wraps]
    rfl
  have noOverflow : ¬ start ≥ start + size := UInt32.not_le.2 fits
  rcases word_lt_or_le (alignedStart start) (alignedEnd start size) with full | empty
  case inr =>
    refine .empty fits empty ?_
    have empty' : kalignDown (start + size) pageSize ≤ kalignUp start pageSize := empty
    unfold pmmAddRegion
    simp only [if_neg noOverflow, if_pos empty']
    rfl
  obtain ⟨region, built, fresh⟩ := buildFreeLists_fresh full
  have run := pmmAddRegion_of_full fits full built pmm
  rcases pmm.emm.request_cases sizeofPmmRegion with short | astray | ⟨nonnull, first⟩
  · rw [Machine.bind_of_error (onEmm_exhausted short)] at run
    obtain ⟨placed, misfit⟩ := Emm.refused_iff short
    exact .exhausted fits full (fun holds => misfit holds.fits)
      (fun either => either.elim placed fun second => misfit second.1) run
  · obtain ⟨pmm', fault⟩ := onEmm_misplaced astray
    rw [Machine.bind_of_error fault] at run
    exact .misplaced fits full (Or.inl astray) rfl run
  have placed := Emm.not_misplaces nonnull first
  have alloc := onEmm_of_fits nonnull first
  have behind : pmm.emm.cursor + sizeofPmmRegion ≠ 0 := Emm.cursor_ne_zero nonnull first
  obtain ⟨pmm₁, regions₁, emm₁⟩ : ∃ pmm₁ : Pmm, pmm₁.regions = pmm.regions ∧
      pmm₁.emm = ⟨pmm.emm.cursor + sizeofPmmRegion, pmm.emm.end_⟩ :=
    ⟨⟨pmm.regions, ⟨pmm.emm.cursor + sizeofPmmRegion, pmm.emm.end_⟩⟩, rfl, rfl⟩
  have alloc₁ : onEmm (emmAllocWritten sizeofPmmRegion) pmm = .ok pmm.emm.cursor pmm₁ := by
    rw [alloc, ← emm₁, ← regions₁]
  rw [Machine.bind_of_ok alloc₁] at run
  rcases pmm₁.emm.request_cases (alignedPages start size * sizeofPmmBlock) with
    short | astray | ⟨nonnull', second⟩
  · rw [Machine.bind_of_error (onEmm_exhausted short)] at run
    obtain ⟨placed', misfit⟩ := Emm.refused_iff short
    rw [emm₁] at placed' misfit
    exact .exhausted fits full (fun holds => misfit ((Emm.holdsMetadata_iff first _).1 holds))
      (fun either => either.elim placed fun second => placed' second.2) run
  · obtain ⟨pmm', fault⟩ := onEmm_misplaced astray
    rw [Machine.bind_of_error fault, emm₁, if_neg behind] at run
    rw [emm₁] at astray
    exact .misplaced fits full (Or.inr ⟨first, astray⟩) (if_neg nonnull).symm run
  · rw [Machine.bind_of_ok (onEmm_of_fits nonnull' second), Machine.modify_run, emm₁,
      regions₁] at run
    rw [emm₁] at second
    exact .added fits full nonnull ((Emm.holdsMetadata_iff first _).2 second) run fresh

/-- What a returning `pmm_add_region` did: nothing when the range holds no whole
page, and otherwise it appended one fresh region. -/
theorem pmmAddRegion_ok {start size : UInt32} {pmm pmm' : Pmm}
    (run : pmmAddRegion start size pmm = .ok () pmm') :
    start < start + size ∧
      ((alignedEnd start size ≤ alignedStart start ∧ pmm' = pmm) ∨
        (alignedStart start < alignedEnd start size ∧
          ∃ region, FreshRegion region start size ∧
            pmm'.regions = pmm.regions ++ [region])) := by
  cases pmmAddRegion_ends start size pmm with
  | overflow _ ends => cases ends.symm.trans run
  | empty fits empty ends =>
      cases ends.symm.trans run
      exact ⟨fits, Or.inl ⟨empty, rfl⟩⟩
  | exhausted _ _ _ _ ends => cases ends.symm.trans run
  | misplaced _ _ _ _ ends => cases ends.symm.trans run
  | added fits full _ _ ends fresh =>
      cases ends.symm.trans run
      exact ⟨fits, Or.inr ⟨full, _, fresh, rfl⟩⟩

end ArkoiOs
