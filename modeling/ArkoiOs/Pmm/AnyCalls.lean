import ArkoiOs.Pmm.Requests

/-!
# Any calls to the allocator

RAM entries may overlap, and a caller may free an address it does not own; then
free lists go round in circles and one page is on several of them.  What every
call that returns still keeps is that heads and links lead to pool entries and
that entries carry the address of their page.  It follows that an allocation
returns the address of a managed page.
-/

namespace ArkoiOs

namespace PmmRegion

/-- Heads and links lead to pool entries, which carry the addresses of their
pages. -/
structure Pooled (region : PmmRegion) : Prop where
  geometry : region.Geometry
  head : ∀ order block, region.freeLists order = some block → block < region.blockPoolSize
  link : ∀ entry block, region.links entry = some block → block < region.blockPoolSize

/-- The region is pooled again, over the same pages. -/
structure PoolKept (region region' : PmmRegion) : Prop where
  extent : SameExtent region region'
  pooled : region'.Pooled

theorem PoolKept.trans {a b c : PmmRegion} (h : PoolKept a b) (h' : PoolKept b c) :
    PoolKept a c :=
  ⟨h.extent.trans h'.extent, h'.pooled⟩

/-- `find_block_by_address` returns an entry of the pool. -/
theorem findBlockByAddress_lt {region : PmmRegion} {address : UInt32} {block : ℕ}
    (found : findBlockByAddress region address = some block) : block < region.blockPoolSize := by
  rw [findBlockByAddress] at found
  split at found
  · cases found
  split at found
  · cases found
  simp only at found
  split at found
  · cases found
  · rename_i small
    cases found
    exact Nat.lt_of_not_le small

theorem getBuddyBlock_lt {region : PmmRegion} {block order buddy : ℕ}
    (found : getBuddyBlock region block order = some buddy) : buddy < region.blockPoolSize := by
  unfold getBuddyBlock at found
  simp only at found
  split at found
  · cases found
  · exact findBlockByAddress_lt found

namespace Pooled

variable {region : PmmRegion}

theorem refl (pooled : region.Pooled) : PoolKept region region := ⟨.refl region, pooled⟩

/-! ## Writes -/

/-- Writes to entries that keep address and link. -/
theorem setBlock (pooled : region.Pooled) (block : ℕ) {f : PmmBlock → PmmBlock}
    (address : ∀ entry, (f entry).address = entry.address)
    (next : ∀ entry, (f entry).next = entry.next) : PoolKept region (region.setBlock block f) := by
  refine ⟨⟨rfl, rfl, rfl⟩, pooled.geometry.setBlock block address, pooled.head, ?_⟩
  rw [links_setBlock region block next]
  exact pooled.link

theorem setOrder (pooled : region.Pooled) (block order : ℕ) :
    PoolKept region (region.setOrder block order) :=
  pooled.setBlock block (fun _ => rfl) fun _ => rfl

theorem setFree (pooled : region.Pooled) (block : ℕ) (isFree : Bool) :
    PoolKept region (region.setFree block isFree) :=
  pooled.setBlock block (fun _ => rfl) fun _ => rfl

theorem setNext (pooled : region.Pooled) (block : ℕ) {next : Option ℕ}
    (bound : ∀ i, next = some i → i < region.blockPoolSize) :
    PoolKept region (region.setNext block next) := by
  have relinked := Relinked.setNext region block next
  refine ⟨relinked.sameExtent, pooled.geometry.of_relinked relinked, pooled.head,
    fun entry i leads => ?_⟩
  rw [links_setNext, Function.update_apply] at leads
  split at leads
  · exact bound i leads
  · exact pooled.link entry i leads

theorem clearNext (pooled : region.Pooled) (block : ℕ) :
    PoolKept region (region.setNext block none) :=
  pooled.setNext block nofun

theorem setHead (pooled : region.Pooled) (order : ℕ) {head : Option ℕ}
    (bound : ∀ i, head = some i → i < region.blockPoolSize) :
    PoolKept region (region.setHead order head) := by
  have relinked := Relinked.setHead region order head
  refine ⟨relinked.sameExtent, pooled.geometry.of_relinked relinked, fun k i leads => ?_,
    pooled.link⟩
  rw [setHead_freeLists, Function.update_apply] at leads
  split at leads
  · exact bound i leads
  · exact pooled.head k i leads

theorem assign (pooled : region.Pooled) {value : Option ℕ}
    (bound : ∀ i, value = some i → i < region.blockPoolSize) (slot : Slot) :
    PoolKept region (region.assign value slot) := by
  cases slot with
  | head order => exact pooled.setHead order bound
  | next block => exact pooled.setNext block bound

/-! ## Code on a region -/

theorem addToRegionFreelist (pooled : region.Pooled) {block : ℕ}
    (bound : block < region.blockPoolSize) (order : ℕ) :
    PoolKept region (addToRegionFreelist region block order) := by
  have linked := pooled.setNext block (pooled.head order)
  refine linked.trans (linked.pooled.setHead order fun i same => ?_)
  cases same
  exact bound

theorem removeFromRegionFreelist (pooled : region.Pooled) (block order : ℕ) :
    Machine.Ends (fun _ region' => PoolKept region region') (fun _ => True)
      (removeFromRegionFreelist block order region) := by
  unfold ArkoiOs.removeFromRegionFreelist
  rw [Machine.bind_of_ok (Machine.get_run region)]
  cases findSlot region block (region.blockPoolSize + 1) (.head order) with
  | none => trivial
  | some slot =>
      by_cases empty : region.deref slot = none
      · simp only [if_pos empty]
        exact pooled.refl
      · simp only [if_neg empty]
        have assigned := pooled.assign (pooled.link block) slot
        exact assigned.trans (assigned.pooled.clearNext block)

/-- The outer loop of `pmm_add_region`. -/
theorem buildFreeLists :
    ∀ (fuel offset : ℕ) {region : PmmRegion}, region.Pooled →
      Machine.Ends (fun _ region' => PoolKept region region') (fun _ => True)
        (buildFreeLists fuel offset region)
  | 0, _, _, _ => trivial
  | fuel + 1, offset, region, pooled => by
      rw [ArkoiOs.buildFreeLists, Machine.bind_of_ok (Machine.get_run region)]
      split
      case isFalse => exact pooled.refl
      simp only
      cases found : findBlockByAddress region (region.pageAddress offset) with
      | none => trivial
      | some block =>
          simp only
          rw [Machine.bind_of_ok (Machine.modify_run _ _)]
          have ordered := pooled.setOrder block (biggestOrder offset region.blockPoolSize)
          have marked := ordered.trans (ordered.pooled.setFree block true)
          have bound : block < (((region.setOrder block
              (biggestOrder offset region.blockPoolSize)).setFree block true)).blockPoolSize :=
            findBlockByAddress_lt found
          have added := marked.trans (marked.pooled.addToRegionFreelist bound
            (biggestOrder offset region.blockPoolSize))
          exact (buildFreeLists fuel _ added.pooled).mono fun _ _ rest => added.trans rest

/-- The split loop of `pmm_alloc_order`. -/
theorem splitBlock (target order : ℕ) :
    ∀ (count : ℕ) {region : PmmRegion}, region.Pooled →
      Machine.Ends (fun _ region' => PoolKept region region') (fun _ => True)
        (splitBlock target order count region)
  | 0, _, pooled => pooled.refl
  | count + 1, region, pooled => by
      rw [ArkoiOs.splitBlock, Machine.bind_of_ok (Machine.get_run region)]
      cases found : findBlockByAddress region
          ((region.blockPool target).address + blockSize (order + count)) with
      | none => trivial
      | some buddy =>
          simp only
          rw [Machine.bind_of_ok (Machine.modify_run _ _)]
          have lower := pooled.setOrder target (order + count)
          have upper := lower.trans (lower.pooled.setOrder buddy (order + count))
          have marked := upper.trans (upper.pooled.setFree buddy true)
          have cleared := marked.trans (marked.pooled.clearNext buddy)
          have bound : buddy < ((((region.setOrder target (order + count)).setOrder buddy
              (order + count)).setFree buddy true).setNext buddy none).blockPoolSize :=
            findBlockByAddress_lt found
          have added := cleared.trans (cleared.pooled.addToRegionFreelist bound (order + count))
          exact (splitBlock target order count added.pooled).mono
            fun _ _ rest => added.trans rest

/-- `pmm_alloc_order` in a region returns the address of one of its pages. -/
theorem allocFromRegion (pooled : region.Pooled) (order : ℕ) :
    Machine.Ends (fun address region' => PoolKept region region' ∧ region.Owns address)
      (fun _ => True) (allocFromRegion order region) := by
  unfold ArkoiOs.allocFromRegion
  rw [Machine.bind_of_ok (Machine.get_run region)]
  split
  · trivial
  cases head : region.freeLists (region.availableOrder order) with
  | none => trivial
  | some target =>
      simp only
      have bound := pooled.head _ target head
      apply Machine.Ends.bind (pooled.removeFromRegionFreelist target _)
      intro removed region₁ unlinked
      cases removed with
      | false => trivial
      | true =>
          simp only [Bool.not_true, Bool.false_eq_true, if_false]
          rw [Machine.bind_of_ok (Machine.modify_run _ _)]
          have taken := unlinked.trans (unlinked.pooled.setFree target false)
          apply Machine.Ends.bind (splitBlock target order _ taken.pooled)
          intro _ region₂ split
          have cut := taken.trans split
          have cleared := cut.trans (cut.pooled.clearNext target)
          rw [Machine.bind_of_ok (Machine.modify_run _ _), Machine.bind_of_ok (Machine.get_run _)]
          refine ⟨cleared, target, bound, ?_⟩
          rw [cleared.pooled.geometry.address target (cleared.extent.size.symm ▸ bound),
            cleared.extent.pageAddress]

/-- The coalescing loop of `pmm_free`. -/
theorem coalesce :
    ∀ (fuel : ℕ) {region : PmmRegion} (block order : ℕ), region.Pooled →
      block < region.blockPoolSize →
      Machine.Ends (fun result region' => PoolKept region region' ∧
          result.1 < region.blockPoolSize)
        (fun _ => True) (coalesce fuel block order region)
  | 0, _, _, _, pooled, bound => ⟨pooled.refl, bound⟩
  | fuel + 1, region, block, order, pooled, bound => by
      rw [ArkoiOs.coalesce, Machine.bind_of_ok (Machine.get_run region)]
      cases found : getBuddyBlock region block order with
      | none => exact ⟨pooled.refl, bound⟩
      | some buddy =>
          simp only
          split
          · exact ⟨pooled.refl, bound⟩
          apply Machine.Ends.bind (pooled.removeFromRegionFreelist buddy order)
          intro removed region₁ unlinked
          cases removed with
          | false => trivial
          | true =>
              simp only [Bool.not_true, Bool.false_eq_true, if_false]
              rw [Machine.bind_of_ok (Machine.modify_run _ _)]
              generalize chosen : (if (region.blockPool buddy).address <
                (region.blockPool block).address then buddy else block) = lower
              have inPool : lower < region.blockPoolSize := by
                rw [← chosen]
                split
                · exact getBuddyBlock_lt found
                · exact bound
              have marked := unlinked.trans (unlinked.pooled.setFree buddy false)
              have cleared := marked.trans (marked.pooled.clearNext buddy)
              have ordered := cleared.trans (cleared.pooled.setOrder lower (order + 1))
              have merged := ordered.trans (ordered.pooled.setFree lower true)
              refine (coalesce fuel lower (order + 1) merged.pooled
                (merged.extent.size.symm ▸ inPool)).mono ?_
              rintro result region' ⟨rest, below⟩
              exact ⟨merged.trans rest, merged.extent.size ▸ below⟩

/-- `pmm_free` in a region, at any address. -/
theorem freeInRegion (pooled : region.Pooled) (address : UInt32) :
    Machine.Ends (fun _ region' => PoolKept region region') (fun _ => True)
      (freeInRegion address region) := by
  unfold ArkoiOs.freeInRegion
  rw [Machine.bind_of_ok (Machine.get_run region)]
  cases found : findBlockByAddress region address with
  | none => trivial
  | some block =>
      simp only
      split
      · trivial
      split
      · trivial
      split
      · trivial
      rw [Machine.bind_of_ok (Machine.modify_run _ _)]
      have held := pooled.setFree block true
      apply Machine.Ends.bind (coalesce _ block _ held.pooled (findBlockByAddress_lt found))
      rintro ⟨block', order'⟩ region₁ ⟨merged, bound⟩
      have kept := held.trans merged
      have bound' : block' < region₁.blockPoolSize := kept.extent.size.symm ▸ bound
      exact kept.trans (kept.pooled.addToRegionFreelist bound' order')

end Pooled

end PmmRegion

/-! ## Calls -/

/-- Every region is pooled. -/
def Pmm.Pooled (pmm : Pmm) : Prop := ∀ region ∈ pmm.regions, region.Pooled

/-- Every region is pooled again, over the same range. -/
structure Pmm.PoolsKept (pmm pmm' : Pmm) : Prop where
  ranges : pmm'.ranges = pmm.ranges
  pooled : pmm'.Pooled

/-- An address a region owns is the start of one of its pages. -/
theorem PmmRegion.Geometry.page_of_owns {region : PmmRegion} {address : UInt32}
    (geometry : region.Geometry) (owns : region.Owns address) :
    address.toNat % 4096 = 0 ∧ address.toNat / 4096 ∈ region.frames := by
  rcases owns with ⟨i, bound, rfl⟩
  have span := geometry.span
  have aligned := geometry.aligned
  have place := geometry.pageAddress_toNat bound.le
  exact ⟨by omega, by omega, by omega⟩

namespace Pmm.Pooled

variable {pmm : Pmm}

theorem refl (pooled : pmm.Pooled) : PoolsKept pmm pmm := ⟨rfl, pooled⟩

/-- What code does on each region it does on the region at a position. -/
theorem onRegion {α : Type} {x : KernelM PmmRegion α} {Q : PmmRegion → α → Prop}
    (pooled : pmm.Pooled) (index : ℕ)
    (each : ∀ region, region.Pooled → Machine.Ends
      (fun a region' => PmmRegion.PoolKept region region' ∧ Q region a) (fun _ => True)
      (x region)) :
    Machine.Ends (fun a pmm' => PoolsKept pmm pmm' ∧ ∃ region ∈ pmm.regions, Q region a)
      (fun _ => True) (onRegion index x pmm) := by
  cases here : pmm.regions[index]? with
  | none =>
      have missing : ArkoiOs.onRegion index x pmm = .error .nullDereference pmm :=
        Machine.zoom_of_missing here
      rw [missing]
      trivial
  | some region =>
      have mem := List.mem_of_getElem? here
      have ends : Machine.Ends _ _ (ArkoiOs.onRegion index x pmm) :=
        Machine.Ends.zoom here (each region (pooled region mem))
      refine ends.mono ?_
      rintro a pmm' ⟨region', rfl, kept, post⟩
      refine ⟨⟨Pmm.ranges_setRegion here kept.extent, fun other there => ?_⟩, region, mem, post⟩
      rcases List.mem_or_eq_of_mem_set there with old | rfl
      · exact pooled other old
      · exact kept.pooled

theorem allocOrder (pooled : pmm.Pooled) (order : ℕ) :
    Machine.Ends (fun address pmm' => PoolsKept pmm pmm' ∧
        ∃ region ∈ pmm.regions, region.Owns address)
      (fun _ => True) (pmmAllocOrder order pmm) := by
  rcases Nat.lt_or_ge maxOrder order with large | bounded
  · unfold pmmAllocOrder
    rw [if_pos large]
    trivial
  rw [pmmAllocOrder_eq bounded]
  cases findRegionForOrder pmm.regions order with
  | none => trivial
  | some index => exact pooled.onRegion index fun _ pooled => pooled.allocFromRegion order

theorem allocSize (pooled : pmm.Pooled) (size : UInt32) :
    Machine.Ends (fun address pmm' => PoolsKept pmm pmm' ∧
        (size ≠ 0 → ∃ region ∈ pmm.regions, region.Owns address))
      (fun _ => True) (pmmAllocSize size pmm) := by
  by_cases zero : size = 0
  · subst zero
    exact ⟨pooled.refl, fun positive => (positive rfl).elim⟩
  rw [pmmAllocSize_eq zero]
  cases sizeToOrder size with
  | none => trivial
  | some order =>
      exact (pooled.allocOrder order).mono fun _ _ ⟨kept, owned⟩ => ⟨kept, fun _ => owned⟩

/-- A request for something returns the address of a managed page. -/
theorem request (pooled : pmm.Pooled) (request : AllocRequest) :
    Machine.Ends (fun address pmm' => PoolsKept pmm pmm' ∧
        (request.Positive → ∃ region ∈ pmm.regions, region.Owns address))
      (fun _ => True) (request.run pmm) := by
  cases request with
  | order k => exact (pooled.allocOrder k).mono fun _ _ ⟨kept, owned⟩ => ⟨kept, fun _ => owned⟩
  | size s => exact pooled.allocSize s
  | pages n =>
      change Machine.Ends _ _ (pmmAllocPages n pmm)
      cases run : pmmAllocPages n pmm with
      | error fault pmm' => trivial
      | ok address pmm' =>
          by_cases zero : n = 0
          · subst zero
            cases run
            exact ⟨pooled.refl, fun positive => (positive rfl).elim⟩
          · obtain ⟨-, positive, sized⟩ := pmmAllocPages_ok zero run
            obtain ⟨kept, owned⟩ := (pooled.allocSize _).of_ok sized
            exact ⟨kept, fun _ => owned positive⟩

theorem request_managed (pooled : pmm.Pooled) {request : AllocRequest}
    (positive : request.Positive) {address : UInt32} {pmm' : Pmm}
    (run : request.run pmm = .ok address pmm') :
    address.toNat % 4096 = 0 ∧ address.toNat / 4096 ∈ pmm.managedFrames := by
  obtain ⟨-, owned⟩ := (pooled.request request).of_ok run
  obtain ⟨region, mem, owns⟩ := owned positive
  obtain ⟨aligned, inside⟩ := (pooled region mem).geometry.page_of_owns owns
  exact ⟨aligned, region, mem, inside⟩

/-- `pmm_free` of any address. -/
theorem free (pooled : pmm.Pooled) (address : UInt32) :
    Machine.Ends (fun _ pmm' => PoolsKept pmm pmm') (fun _ => True) (pmmFree address pmm) := by
  unfold pmmFree
  split
  · exact pooled.refl
  split
  · trivial
  rw [Machine.bind_of_ok (Machine.get_run pmm)]
  cases findRegionByAddress pmm.regions address with
  | none => trivial
  | some index =>
      refine (pooled.onRegion (Q := fun _ _ => True) index fun _ pooled => ?_).mono
        fun _ _ post => post.1
      exact (pooled.freeInRegion address).mono fun _ _ kept => ⟨kept, trivial⟩

/-- Adding a region, which may overlap others. -/
theorem addRegion (pooled : pmm.Pooled) {pmm' : Pmm} {start size : UInt32}
    (run : pmmAddRegion start size pmm = .ok () pmm') : pmm'.Pooled := by
  obtain ⟨fits, ⟨-, rfl⟩ | ⟨full, -⟩⟩ := pmmAddRegion_ok run
  · exact pooled
  have initial : (PmmRegion.initial (alignedStart start) (alignedEnd start size)
      (alignedPages start size).toNat).Pooled := ⟨(carved_aligned full).geometry, nofun, nofun⟩
  obtain ⟨region, built, -⟩ := buildFreeLists_fresh full
  have kept := (PmmRegion.Pooled.buildFreeLists _ 0 initial).of_ok built
  have metadata : ∀ {pmm : Pmm}, pmm.Pooled → ∀ bytes : UInt32,
      Machine.Ends (fun _ pmm' => pmm'.Pooled) (fun _ => True)
        (onEmm (emmAllocWritten bytes) pmm) := by
    intro pmm pooled bytes
    have ends : Machine.Ends _ _ (onEmm (emmAllocWritten bytes) pmm) :=
      Machine.Ends.zoom rfl (Machine.Ends.trivially _)
    refine ends.mono ?_
    rintro _ pmm' ⟨emm, rfl, -⟩
    exact pooled
  rw [pmmAddRegion_of_full fits full built] at run
  refine Machine.Ends.of_ok (Q := fun _ pmm' => pmm'.Pooled) ((metadata pooled _).bind
    fun _ pmm₁ pooled₁ => (metadata pooled₁ _).bind fun _ pmm₂ pooled₂ => ?_) run
  intro other mem
  rcases List.mem_append.1 mem with old | new
  · exact pooled₂ other old
  · rw [List.mem_singleton.1 new]
    exact kept.pooled

end Pmm.Pooled

end ArkoiOs
