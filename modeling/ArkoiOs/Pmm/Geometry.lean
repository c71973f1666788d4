import ArkoiOs.Library.Dyadic
import ArkoiOs.Pmm.Model

/-!
# Addresses, pages and buddies of a region

A region manages the pages between two page boundaries, and its pool has one
entry for each.  Under that geometry the 32-bit address arithmetic of the
lookups is arithmetic on page indices: `find_block_by_address` inverts
`pageAddress`, and `get_buddy_block` flips one bit of the index.
-/

namespace ArkoiOs

theorem blockSize_toNat {order : ℕ} (bound : order ≤ numOrders) :
    (blockSize order).toNat = 2 ^ order * 4096 := by
  have table : ∀ k < 12, (blockSize k).toNat = 2 ^ k * 4096 := by decide
  exact table order (Nat.lt_succ_of_le bound)

namespace PmmRegion

/-- The region spans `block_pool_size` whole pages and each pool entry carries
the address of its page. -/
structure Geometry (region : PmmRegion) : Prop where
  aligned : region.start.toNat % 4096 = 0
  span : region.start.toNat + region.blockPoolSize * 4096 = region.end_.toNat
  nonempty : 0 < region.blockPoolSize
  address : ∀ index < region.blockPoolSize,
    (region.blockPool index).address = region.pageAddress index

namespace Geometry

variable {region : PmmRegion}

theorem span_lt (geometry : region.Geometry) :
    region.start.toNat + region.blockPoolSize * 4096 < 2 ^ 32 := by
  rw [geometry.span]
  exact region.end_.toNat_lt

theorem pageAddress_toNat (geometry : region.Geometry) {index : ℕ}
    (bound : index ≤ region.blockPoolSize) :
    (region.pageAddress index).toNat = region.start.toNat + index * 4096 := by
  have span := geometry.span_lt
  rw [pageAddress, UInt32.toNat_add, UInt32.toNat_mul, UInt32.toNat_ofNat', pageSize_toNat]
  omega

theorem pageAddress_inj (geometry : region.Geometry) {i j : ℕ}
    (hi : i < region.blockPoolSize) (hj : j < region.blockPoolSize)
    (same : region.pageAddress i = region.pageAddress j) : i = j := by
  have := congrArg UInt32.toNat same
  rw [geometry.pageAddress_toNat hi.le, geometry.pageAddress_toNat hj.le] at this
  omega

/-- An address lies in the region when it is at or after the start and before
the end. -/
theorem start_le_pageAddress (geometry : region.Geometry) {index : ℕ}
    (bound : index < region.blockPoolSize) :
    region.start ≤ region.pageAddress index ∧ region.pageAddress index < region.end_ := by
  have span := geometry.span
  rw [UInt32.le_iff_toNat_le, UInt32.lt_iff_toNat_lt, geometry.pageAddress_toNat bound.le]
  omega

/-- `find_block_by_address` finds exactly the entry of the page an address is
the start of. -/
theorem findBlock_eq_some (geometry : region.Geometry) {address : UInt32} {index : ℕ} :
    findBlockByAddress region address = some index ↔
      index < region.blockPoolSize ∧ address = region.pageAddress index := by
  have span := geometry.span
  have aligned := geometry.aligned
  rw [findBlockByAddress]
  split
  · rename_i outside
    refine ⟨nofun, fun ⟨bound, same⟩ => ?_⟩
    have inside := geometry.start_le_pageAddress bound
    rw [← same] at inside
    rcases outside with before | after
    · exact absurd inside.1 (UInt32.not_le.2 before)
    · exact absurd inside.2 (UInt32.not_lt.2 after)
  rename_i inside
  rw [not_or, UInt32.not_lt, ge_iff_le, UInt32.not_le, UInt32.le_iff_toNat_le,
    UInt32.lt_iff_toNat_lt] at inside
  split
  · rename_i unaligned
    refine ⟨nofun, fun ⟨bound, same⟩ => ?_⟩
    refine (unaligned (UInt32.toNat_inj.1 ?_)).elim
    rw [and_page_mask, same, geometry.pageAddress_toNat bound.le]
    simp only [UInt32.reduceToNat]
    omega
  rename_i onPage
  rw [not_not] at onPage
  have remainder : address.toNat % 4096 = 0 := by
    rw [← and_page_mask, onPage]
    rfl
  have quotient : ((address - region.start) / pageSize).toNat =
      (address.toNat - region.start.toNat) / 4096 := by
    rw [UInt32.toNat_div, UInt32.toNat_sub_of_le _ _ (UInt32.le_iff_toNat_le.2 inside.1),
      pageSize_toNat]
  simp only [quotient]
  split
  · rename_i large
    refine ⟨nofun, fun _ => ?_⟩
    omega
  · rename_i small
    rw [Option.some.injEq]
    refine ⟨fun same => ?_, fun ⟨bound, same⟩ => ?_⟩
    · have bound : index < region.blockPoolSize := by omega
      refine ⟨bound, UInt32.toNat_inj.1 ?_⟩
      rw [geometry.pageAddress_toNat bound.le]
      omega
    · rw [same, geometry.pageAddress_toNat bound.le]
      omega

/-- `find_block_by_address` at the address of a page of the region. -/
theorem findBlock_pageAddress (geometry : region.Geometry) {index : ℕ}
    (bound : index < region.blockPoolSize) :
    findBlockByAddress region (region.pageAddress index) = some index :=
  geometry.findBlock_eq_some.2 ⟨bound, rfl⟩

/-- An address inside the region that is page-aligned is the address of a page. -/
theorem exists_pageAddress (geometry : region.Geometry) {address : UInt32}
    (lower : region.start ≤ address) (upper : address < region.end_)
    (onPage : address.toNat % 4096 = 0) :
    ∃ index < region.blockPoolSize, address = region.pageAddress index := by
  have span := geometry.span
  have aligned := geometry.aligned
  rw [UInt32.le_iff_toNat_le] at lower
  rw [UInt32.lt_iff_toNat_lt] at upper
  have bound : (address.toNat - region.start.toNat) / 4096 < region.blockPoolSize := by omega
  refine ⟨_, bound, UInt32.toNat_inj.1 ?_⟩
  rw [geometry.pageAddress_toNat bound.le]
  omega

/-- The address one block further is the address of the page one block further. -/
theorem pageAddress_add (geometry : region.Geometry) {index order : ℕ}
    (order_le : order ≤ numOrders) (bound : index + 2 ^ order ≤ region.blockPoolSize) :
    region.pageAddress index + blockSize order = region.pageAddress (index + 2 ^ order) := by
  have span := geometry.span_lt
  apply UInt32.toNat_inj.1
  rw [UInt32.toNat_add, blockSize_toNat order_le,
    geometry.pageAddress_toNat (le_trans (Nat.le_add_right _ _) bound),
    geometry.pageAddress_toNat bound]
  omega

/-- The byte offset of a page, flipped at the size of a block, is the byte
offset of the page whose index is flipped at the length of the block. -/
theorem xor_blockSize (index order : ℕ) :
    (index * 4096) ^^^ (2 ^ order * 4096) = (index ^^^ 2 ^ order) * 4096 := by
  have page : (4096 : ℕ) = 2 ^ 12 := by norm_num
  rw [page, ← Nat.shiftLeft_eq, ← Nat.shiftLeft_eq, ← Nat.shiftLeft_eq,
    Nat.shiftLeft_xor_distrib]

/-- `get_buddy_block` flips one bit of the page index, and finds nothing when
that leads behind the end of the region.  The block must lie inside the region:
then even the address of an upper buddy does not wrap. -/
theorem getBuddyBlock_eq (geometry : region.Geometry) {index order : ℕ}
    (order_le : order ≤ maxOrder) (aligned : 2 ^ order ∣ index)
    (bound : index + 2 ^ order ≤ region.blockPoolSize) :
    getBuddyBlock region index order =
      if index ^^^ 2 ^ order < region.blockPoolSize then some (index ^^^ 2 ^ order)
      else none := by
  have span := geometry.span_lt
  have spanEnd := geometry.span
  have pos := Nat.two_pow_pos order
  have inPool : index < region.blockPoolSize := by omega
  -- the buddy starts at most one block further
  have buddy_le : index ^^^ 2 ^ order ≤ region.blockPoolSize := by
    rcases Dyadic.Block.Aligned.buddy_cases (b := ⟨index, order⟩) aligned with
      ⟨-, start⟩ | ⟨-, start⟩ <;>
      simp only [Dyadic.Block.buddy] at start <;> omega
  have relative : ((region.blockPool index).address - region.start).toNat = index * 4096 := by
    rw [geometry.address index inPool, UInt32.toNat_sub_of_le _ _
      (geometry.start_le_pageAddress inPool).1, geometry.pageAddress_toNat inPool.le]
    omega
  have buddyAddress : region.start +
      (((region.blockPool index).address - region.start) ^^^ blockSize order) =
        region.pageAddress (index ^^^ 2 ^ order) := by
    apply UInt32.toNat_inj.1
    rw [UInt32.toNat_add, UInt32.toNat_xor, relative,
      blockSize_toNat (order_le.trans (Nat.le_succ _)), xor_blockSize,
      geometry.pageAddress_toNat buddy_le]
    omega
  unfold getBuddyBlock
  simp only [buddyAddress]
  by_cases inside : index ^^^ 2 ^ order < region.blockPoolSize
  · rw [if_pos inside]
    have bounds := geometry.start_le_pageAddress inside
    rw [if_neg (not_or.2 ⟨UInt32.not_lt.2 bounds.1, UInt32.not_le.2 bounds.2⟩),
      geometry.findBlock_pageAddress inside]
  · rw [if_neg inside]
    refine if_pos (Or.inr ?_)
    rw [ge_iff_le, UInt32.le_iff_toNat_le, geometry.pageAddress_toNat buddy_le]
    omega

/-- The lower of a block and its buddy, by address. -/
theorem lower_eq (geometry : region.Geometry) {b : Dyadic.Block}
    (bound : b.start < region.blockPoolSize) (below : b.buddy.start < region.blockPoolSize) :
    (if (region.blockPool b.buddy.start).address < (region.blockPool b.start).address
      then b.buddy.start else b.start) = b.parent.start := by
  have order : (region.blockPool b.buddy.start).address < (region.blockPool b.start).address ↔
      b.buddy.start < b.start := by
    rw [geometry.address _ below, geometry.address _ bound, UInt32.lt_iff_toNat_lt,
      geometry.pageAddress_toNat below.le, geometry.pageAddress_toNat bound.le]
    omega
  change _ = min b.start b.buddy.start
  split
  · rename_i lower
    rw [min_eq_right (order.1 lower).le]
  · rename_i upper
    rw [min_eq_left (not_lt.1 (mt order.2 upper))]

/-- The alignment test of `pmm_free` is alignment of the page index. -/
theorem offset_mod_blockSize (geometry : region.Geometry) {index order : ℕ}
    (bound : index < region.blockPoolSize) (order_le : order ≤ maxOrder) :
    (region.pageAddress index - region.start) % blockSize order = 0 ↔ 2 ^ order ∣ index := by
  rw [← UInt32.toNat_inj, UInt32.toNat_mod, UInt32.toNat_sub_of_le _ _
    (geometry.start_le_pageAddress bound).1, geometry.pageAddress_toNat bound.le,
    blockSize_toNat (order_le.trans (Nat.le_succ _)), Nat.add_sub_cancel_left,
    Nat.mul_mod_mul_right]
  change index % 2 ^ order * 4096 = 0 ↔ _
  rw [Nat.dvd_iff_mod_eq_zero]
  omega

end Geometry

end PmmRegion

end ArkoiOs
