import Mathlib.Order.Bounds.Basic
import ArkoiOs.Pmm.InUse

/-!
# Sized requests and the null pointer

`size_to_order` turns a size into the least order whose blocks are large
enough, so a sized request is served by the smallest sufficient block.  The
address of page 0 is the null pointer: a request returns it after some run
exactly when page 0 is managed.
-/

namespace ArkoiOs

/-! ## From a size to an order -/

/-- The loop of `size_to_order` stops at the first order whose blocks are large
enough, or behind `MAX_ORDER`. -/
theorem sizeToOrderLoop_spec (size : UInt32) :
    ∀ {fuel order : ℕ} {block : UInt32}, order + fuel = numOrders →
      block.toNat = 2 ^ order * 4096 → (∀ k < order, 2 ^ k * 4096 < size.toNat) →
      (∀ k < sizeToOrderLoop size fuel order block, 2 ^ k * 4096 < size.toNat) ∧
        (sizeToOrderLoop size fuel order block ≤ maxOrder →
          size.toNat ≤ 2 ^ sizeToOrderLoop size fuel order block * 4096)
  | 0, order, block, fuel_eq, _, smaller =>
      ⟨smaller, fun bounded => by
        have last : order ≤ maxOrder := bounded
        rw [numOrders_eq] at fuel_eq
        omega⟩
  | fuel + 1, order, block, fuel_eq, width, smaller => by
      have bounded : order ≤ maxOrder := by
        rw [numOrders_eq] at fuel_eq
        omega
      unfold sizeToOrderLoop
      split
      · rename_i more
        rw [UInt32.lt_iff_toNat_lt, width] at more
        have limit : 2 ^ order ≤ 1024 := Nat.pow_le_pow_right (by norm_num) bounded
        have doubled : (block <<< 1).toNat = 2 ^ (order + 1) * 4096 := by
          rw [UInt32.toNat_shiftLeft, width, Nat.shiftLeft_eq, Nat.pow_succ]
          simp only [UInt32.reduceToNat, Nat.reduceMod]
          omega
        refine sizeToOrderLoop_spec size (by omega) doubled fun k hk => ?_
        rcases Nat.lt_succ_iff_lt_or_eq.1 hk with lower | rfl
        · exact smaller k lower
        · exact more.1
      · rename_i stop
        rw [UInt32.lt_iff_toNat_lt, width] at stop
        exact ⟨smaller, fun _ => Nat.le_of_not_lt fun less => stop ⟨less, bounded⟩⟩

/-- `size_to_order` finds the least order whose blocks are large enough. -/
theorem sizeToOrder_isLeast {size : UInt32} {order : ℕ} (found : sizeToOrder size = some order) :
    order ≤ maxOrder ∧ IsLeast {k | size ≤ blockSize k} order := by
  have width : (blockSize 0).toNat = 2 ^ 0 * 4096 := blockSize_toNat (Nat.zero_le _)
  obtain ⟨smaller, enough⟩ := sizeToOrderLoop_spec size (Nat.zero_add numOrders) width
    fun k hk => (Nat.not_lt_zero k hk).elim
  simp only [sizeToOrder] at found
  split at found
  · rename_i bounded
    injection found with same
    rw [same] at smaller enough bounded
    refine ⟨bounded, ?_, fun k hk => Nat.le_of_not_lt fun less => ?_⟩
    · change size ≤ blockSize order
      rw [UInt32.le_iff_toNat_le, blockSize_toNat (bounded.trans (Nat.le_succ _))]
      exact enough bounded
    · have short : size ≤ blockSize k := hk
      rw [UInt32.le_iff_toNat_le, blockSize_toNat (by rw [numOrders_eq]; omega)] at short
      exact absurd (smaller k less) (Nat.not_lt.2 short)
  · cases found

/-- It finds none exactly for sizes above the largest block. -/
theorem sizeToOrder_eq_none_iff (size : UInt32) :
    sizeToOrder size = none ↔ blockSize maxOrder < size := by
  have width : (blockSize 0).toNat = 2 ^ 0 * 4096 := blockSize_toNat (Nat.zero_le _)
  obtain ⟨smaller, enough⟩ := sizeToOrderLoop_spec size (Nat.zero_add numOrders) width
    fun k hk => (Nat.not_lt_zero k hk).elim
  rw [UInt32.lt_iff_toNat_lt, blockSize_toNat (Nat.le_succ _)]
  simp only [sizeToOrder]
  split
  · rename_i bounded
    have wide := Nat.pow_le_pow_right (n := 2) (by norm_num) bounded
    have fits := enough bounded
    refine ⟨nofun, fun large => ?_⟩
    omega
  · rename_i unbounded
    exact ⟨fun _ => smaller maxOrder (Nat.lt_of_not_le unbounded), fun _ => rfl⟩

/-- A block of the least sufficient order above 0 is less than twice as large as
the size. -/
theorem least_block_lt {size : UInt32} {order : ℕ} (bounded : order ≤ maxOrder)
    (least : IsLeast {k | size ≤ blockSize k} order) (positive : 0 < order) :
    2 ^ order * 4096 < 2 * size.toNat := by
  obtain ⟨half, rfl⟩ : ∃ half, order = half + 1 := ⟨order - 1, by omega⟩
  have small : ¬ size ≤ blockSize half := fun enough => by
    have := least.2 enough
    omega
  rw [UInt32.le_iff_toNat_le, blockSize_toNat (by rw [numOrders_eq]; omega)] at small
  rw [Nat.pow_succ]
  omega

/-! ## Sized allocations -/

/-- A size above 0 either has no order or is a request for its least order. -/
theorem pmmAllocSize_eq {size : UInt32} (positive : size ≠ 0) (pmm : Pmm) :
    pmmAllocSize size pmm = match sizeToOrder size with
      | none => .error (.panic
          "Requested allocation size %u is too large to be handled by the buddy allocator"
          [size]) pmm
      | some order => pmmAllocOrder order pmm := by
  unfold pmmAllocSize
  rw [if_neg positive]
  cases sizeToOrder size <;> rfl

/-- A request for one page is one of order 0. -/
theorem pmmAllocPages_one (pmm : Pmm) : pmmAllocPages 1 pmm = pmmAllocOrder 0 pmm := by
  have single : sizeToOrder (1 * pageSize) = some 0 := by decide
  unfold pmmAllocPages
  rw [if_neg (by decide), if_neg (by decide), pmmAllocSize_eq (by decide), single]

namespace PmmInv

variable {pmm pmm' : Pmm} {ledger : Ledger} {size numPages address : UInt32}

/-- `pmm_alloc_size` is too large for every block exactly above the largest one. -/
theorem allocSize_tooLarge_iff (inv : PmmInv pmm ledger) (positive : size ≠ 0) :
    (∃ pmm', pmmAllocSize size pmm = .error (.panic
        "Requested allocation size %u is too large to be handled by the buddy allocator"
        [size]) pmm') ↔ blockSize maxOrder < size := by
  rw [pmmAllocSize_eq positive, ← sizeToOrder_eq_none_iff]
  cases found : sizeToOrder size with
  | none => exact ⟨fun _ => rfl, fun _ => ⟨pmm, rfl⟩⟩
  | some order =>
      refine ⟨fun ⟨pmm', refused⟩ => ?_, nofun⟩
      change pmmAllocOrder order pmm = _ at refused
      rcases inv.allocOrder_ends (sizeToOrder_isLeast found).1 with ⟨address, pmm'', run⟩ | panics
      · rw [run] at refused
        cases refused
      · rw [panics] at refused
        injection refused with fault
        injection fault with format
        exact absurd format (by decide)

/-- Up to the largest block it is a request for the least sufficient order. -/
theorem allocSize_least (positive : size ≠ 0) (pmm : Pmm) (fits : size ≤ blockSize maxOrder) :
    ∃ order ≤ maxOrder, IsLeast {k | size ≤ blockSize k} order ∧
      pmmAllocSize size pmm = pmmAllocOrder order pmm := by
  rw [pmmAllocSize_eq positive]
  cases found : sizeToOrder size with
  | none => exact absurd ((sizeToOrder_eq_none_iff size).1 found) (UInt32.not_lt.2 fits)
  | some order =>
      obtain ⟨bounded, least⟩ := sizeToOrder_isLeast found
      exact ⟨order, bounded, least, rfl⟩

/-- The live block of a sized allocation holds the size, without a sufficient
half. -/
theorem allocSize_block (inv : PmmInv pmm ledger) (positive : size ≠ 0)
    (run : pmmAllocSize size pmm = .ok address pmm') :
    ∃ order, (address, order) ∈ pmm'.allocations (ledger.allocated pmm' address) ∧
      size.toNat ≤ 2 ^ order * 4096 ∧ (0 < order → 2 ^ order * 4096 < 2 * size.toNat) := by
  obtain ⟨order, found, run⟩ := pmmAllocSize_ok positive run
  obtain ⟨bounded, least⟩ := sizeToOrder_isLeast found
  have enough : size ≤ blockSize order := least.1
  rw [UInt32.le_iff_toNat_le, blockSize_toNat (bounded.trans (Nat.le_succ _))] at enough
  refine ⟨order, ?_, enough, least_block_lt bounded least⟩
  rw [(inv.allocOrder run).allocations]
  exact Set.mem_insert _ _

/-- The live block of a page allocation holds the pages, and fewer than twice as
many. -/
theorem allocPages_block (inv : PmmInv pmm ledger) (positive : numPages ≠ 0)
    (run : pmmAllocPages numPages pmm = .ok address pmm') :
    ∃ order, (address, order) ∈ pmm'.allocations (ledger.allocated pmm' address) ∧
      numPages.toNat ≤ 2 ^ order ∧ 2 ^ order < 2 * numPages.toNat := by
  obtain ⟨bytes, nonzero, run⟩ := pmmAllocPages_ok positive run
  obtain ⟨order, live, enough, half⟩ := inv.allocSize_block nonzero run
  rw [bytes] at enough half
  refine ⟨order, live, by omega, ?_⟩
  rcases Nat.eq_zero_or_pos order with rfl | above
  · have some : 0 < numPages.toNat := Nat.pos_of_ne_zero fun zero =>
      positive (UInt32.toNat_inj.1 zero)
    omega
  · have := half above
    omega

end PmmInv

/-! ## Requests -/

/-- A request to one of the three allocating calls. -/
inductive AllocRequest
  | order (order : ℕ)
  | size (size : UInt32)
  | pages (numPages : UInt32)
  deriving DecidableEq, Repr

namespace AllocRequest

/-- The call the request is made with. -/
def run : AllocRequest → KernelM Pmm UInt32
  | order k => pmmAllocOrder k
  | size s => pmmAllocSize s
  | pages n => pmmAllocPages n

/-- The request asks for something; an order always does. -/
def Positive : AllocRequest → Prop
  | order _ => True
  | size s => s ≠ 0
  | pages n => n ≠ 0

/-- The messages a request is refused with. -/
def refusals : List String :=
  ["Invalid target order %u for allocation",
    "No free blocks available for order %u",
    "Requested allocation size %u is too large to be handled by the buddy allocator",
    "Requested page count %u causes size overflow"]

variable {pmm pmm' : Pmm} {ledger : Ledger} {address : UInt32}

/-- A request that is served is an allocation step. -/
theorem step {request : AllocRequest} (positive : request.Positive)
    (run : request.run pmm = .ok address pmm') :
    AllocStep (pmm, ledger) (pmm', ledger.allocated pmm' address) := by
  cases request with
  | order k => exact .allocOrder run
  | size s => exact .allocSize positive run
  | pages n => exact .allocPages positive run

/-- A request that is served allocates a block of some order. -/
theorem allocated {request : AllocRequest} (positive : request.Positive)
    (run : request.run pmm = .ok address pmm') (inv : PmmInv pmm ledger) :
    ∃ order, Allocated pmm pmm' ledger order address := by
  cases request with
  | order k => exact ⟨k, inv.allocOrder run⟩
  | size s =>
      obtain ⟨order, -, run⟩ := pmmAllocSize_ok positive run
      exact ⟨order, inv.allocOrder run⟩
  | pages n =>
      obtain ⟨-, positive, run⟩ := pmmAllocPages_ok positive run
      obtain ⟨order, -, run⟩ := pmmAllocSize_ok positive run
      exact ⟨order, inv.allocOrder run⟩

/-- A request for nothing returns the null pointer and changes nothing. -/
theorem nothing {request : AllocRequest} (nothing : ¬ request.Positive)
    (run : request.run pmm = .ok address pmm') : address = 0 ∧ pmm' = pmm := by
  cases request with
  | order k => exact (nothing trivial).elim
  | size s =>
      have zero : s = 0 := not_not.1 nothing
      subst zero
      exact pmmAllocNothing_ok (Or.inl run)
  | pages n =>
      have zero : n = 0 := not_not.1 nothing
      subst zero
      exact pmmAllocNothing_ok (Or.inr run)

end AllocRequest

namespace PmmInv

variable {pmm : Pmm} {ledger : Ledger}

/-- `pmm_alloc_order` is served or refused. -/
theorem allocOrder_served (inv : PmmInv pmm ledger) (order : ℕ) :
    (∃ address pmm', pmmAllocOrder order pmm = .ok address pmm') ∨
      ∃ format ∈ AllocRequest.refusals, ∃ args,
        pmmAllocOrder order pmm = .error (.panic format args) pmm := by
  rcases Nat.lt_or_ge maxOrder order with large | bounded
  · refine Or.inr ⟨_, .head _, [UInt32.ofNat order], ?_⟩
    unfold pmmAllocOrder
    rw [if_pos large]
    rfl
  · exact (inv.allocOrder_ends bounded).imp_right fun refused => ⟨_, .tail _ (.head _), _, refused⟩

theorem allocSize_served (inv : PmmInv pmm ledger) (size : UInt32) :
    (∃ address pmm', pmmAllocSize size pmm = .ok address pmm') ∨
      ∃ format ∈ AllocRequest.refusals, ∃ args,
        pmmAllocSize size pmm = .error (.panic format args) pmm := by
  rcases eq_or_ne size 0 with rfl | positive
  · exact Or.inl ⟨0, pmm, rfl⟩
  · rw [pmmAllocSize_eq positive]
    cases sizeToOrder size with
    | none => exact Or.inr ⟨_, .tail _ (.tail _ (.head _)), [size], rfl⟩
    | some order => exact inv.allocOrder_served order

/-- Every request is served, or refused with the state unchanged. -/
theorem request_served (inv : PmmInv pmm ledger) (request : AllocRequest) :
    (∃ address pmm', request.run pmm = .ok address pmm') ∨
      ∃ format ∈ AllocRequest.refusals, ∃ args,
        request.run pmm = .error (.panic format args) pmm := by
  cases request with
  | order k => exact inv.allocOrder_served k
  | size s => exact inv.allocSize_served s
  | pages n =>
      change (∃ address pmm', pmmAllocPages n pmm = .ok address pmm') ∨
        ∃ format ∈ AllocRequest.refusals, ∃ args,
          pmmAllocPages n pmm = .error (.panic format args) pmm
      unfold pmmAllocPages
      split
      · exact Or.inl ⟨0, pmm, rfl⟩
      · split
        · exact Or.inr ⟨_, .tail _ (.tail _ (.tail _ (.head _))), [n], rfl⟩
        · exact inv.allocSize_served (n * pageSize)

end PmmInv

/-- Sized requests get the smallest sufficient block.  `pmm_alloc_size` is too
large exactly above the largest block and is otherwise `pmm_alloc_order` of the
least sufficient order; `pmm_alloc_pages` allocates at least the pages asked for
and fewer than twice as many, or panics. -/
theorem Reachable.sized_requests {pmm : Pmm} {ledger : Ledger} (h : Reachable pmm ledger) :
    (∀ size : UInt32, size ≠ 0 →
      ((∃ pmm', pmmAllocSize size pmm = .error (.panic
          "Requested allocation size %u is too large to be handled by the buddy allocator"
          [size]) pmm') ↔ blockSize maxOrder < size) ∧
      (size ≤ blockSize maxOrder →
        ∃ order ≤ maxOrder, IsLeast {k | size ≤ blockSize k} order ∧
          pmmAllocSize size pmm = pmmAllocOrder order pmm) ∧
      (∀ address pmm', pmmAllocSize size pmm = .ok address pmm' →
        ∃ order, (address, order) ∈ pmm'.allocations (ledger.allocated pmm' address) ∧
          size.toNat ≤ 2 ^ order * 4096 ∧ (0 < order → 2 ^ order * 4096 < 2 * size.toNat))) ∧
    (∀ numPages : UInt32, numPages ≠ 0 →
      (∃ address pmm', pmmAllocPages numPages pmm = .ok address pmm' ∧
        ∃ order, (address, order) ∈ pmm'.allocations (ledger.allocated pmm' address) ∧
          numPages.toNat ≤ 2 ^ order ∧ 2 ^ order < 2 * numPages.toNat) ∨
      (∃ format args, pmmAllocPages numPages pmm = .error (.panic format args) pmm)) := by
  refine ⟨fun size positive => ⟨h.inv.allocSize_tooLarge_iff positive,
    PmmInv.allocSize_least positive pmm, fun address pmm' run =>
      h.inv.allocSize_block positive run⟩, fun numPages positive => ?_⟩
  rcases h.inv.request_served (.pages numPages) with ⟨address, pmm', run⟩ |
    ⟨format, -, args, refused⟩
  · exact Or.inl ⟨address, pmm', run, h.inv.allocPages_block positive run⟩
  · exact Or.inr ⟨format, args, refused⟩

/-- A size just above a page is a request for two pages. -/
theorem twoPages_sized_requests :
    ∃ order ≤ maxOrder, IsLeast {k | (0x1001 : UInt32) ≤ blockSize k} order ∧
      pmmAllocSize 0x1001 twoPages = pmmAllocOrder order twoPages :=
  (twoPages_reachable.sized_requests.1 0x1001 (by decide)).2.1 (by decide)

end ArkoiOs
