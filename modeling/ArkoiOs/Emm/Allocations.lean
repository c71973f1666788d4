import ArkoiOs.Emm
import ArkoiOs.Library.BumpArena
import Mathlib.Data.List.Induction

/-!
# Calls of the early memory manager

Calls whose exact sums stay below the end of the heap put their ranges one behind
the other, and so they do not overlap.  `emm_alloc` compares the end with a 32-bit
sum: a call that does not fit is refused where the exact sum is below 2^32, and
served where it wraps.
-/

namespace ArkoiOs

open Machine

/-! ## One call -/

variable {emm : Emm} {size : UInt32}

/-- Whether the range of the call lies in the heap. -/
def Emm.Fits (emm : Emm) (size : UInt32) : Prop := emm.cursor.toNat + size.toNat ≤ emm.end_.toNat

theorem toNat_cursor_add (fits : emm.Fits size) :
    (emm.cursor + size).toNat = emm.cursor.toNat + size.toNat := by
  have := emm.end_.toNat_lt
  unfold Emm.Fits at fits
  rw [UInt32.toNat_add]
  omega

/-- A call that fits returns the cursor and moves it behind its range. -/
theorem emmAlloc_of_fits (fits : emm.Fits size) :
    emmAlloc size emm = .ok emm.cursor { emm with cursor := emm.cursor + size } := by
  apply emmAlloc_of_room
  rw [UInt32.le_iff_toNat_le, toNat_cursor_add fits]
  exact fits

/-- A call that does not fit panics when the exact sum is below 2^32. -/
theorem emmAlloc_of_misfit (misfit : ¬ emm.Fits size)
    (small : emm.cursor.toNat + size.toNat < 4294967296) :
    emmAlloc size emm = .error (.panic
      "Early boot allocator exhausted while allocating %u bytes" [size]) emm := by
  apply emmAlloc_exhausted
  unfold Emm.Fits at misfit
  rw [UInt32.lt_iff_toNat_lt, UInt32.toNat_add]
  omega

/-- It returns when the exact sum wraps. -/
theorem emmAlloc_of_wrap (start : emm.cursor ≤ emm.end_)
    (wrap : 4294967296 ≤ emm.cursor.toNat + size.toNat) :
    emmAlloc size emm = .ok emm.cursor { emm with cursor := emm.cursor + size } := by
  apply emmAlloc_of_room
  have := size.toNat_lt
  have := emm.cursor.toNat_lt
  rw [UInt32.le_iff_toNat_le] at start
  rw [UInt32.le_iff_toNat_le, UInt32.toNat_add]
  omega

/-! ## One call after the other -/

/-- The calls with the sizes in their order; it returns their addresses. -/
def emmAllocEach (sizes : List UInt32) : KernelM Emm (List UInt32) := sizes.mapM emmAlloc

/-- The exact sum of the sizes. -/
def totalSize (sizes : List UInt32) : ℕ := (sizes.map UInt32.toNat).sum

/-- The address and size of each call that returned. -/
def allocations (addresses sizes : List UInt32) : List (ℕ × ℕ) :=
  (addresses.map UInt32.toNat).zip (sizes.map UInt32.toNat)

/-- What early allocations promise for calls with these sizes on a heap: the ranges
of calls that returned do not overlap and lie in the heap, no call moved the cursor
down, and the next call panics unless its range fits. -/
structure AllocationsDisjoint (emm : Emm) (sizes : List UInt32) : Prop where
  disjoint : ∀ front, front <+: sizes → ∀ addresses emm',
    emmAllocEach front emm = .ok addresses emm' →
      (allocations addresses front).Pairwise fun a b =>
        Disjoint (BumpArena.range a) (BumpArena.range b)
  within : ∀ front, front <+: sizes → ∀ addresses emm',
    emmAllocEach front emm = .ok addresses emm' →
      ∀ block ∈ allocations addresses front,
        emm.cursor.toNat ≤ block.1 ∧ block.1 + block.2 ≤ emm.end_.toNat
  monotone : ∀ front size, front ++ [size] <+: sizes → ∀ addresses emm' address emm'',
    emmAllocEach front emm = .ok addresses emm' → emmAlloc size emm' = .ok address emm'' →
      emm'.cursor ≤ emm''.cursor
  refuses : ∀ front size, front ++ [size] <+: sizes → ∀ addresses emm',
    emmAllocEach front emm = .ok addresses emm' → ¬ emm'.Fits size →
      emmAlloc size emm' = .error (.panic
        "Early boot allocator exhausted while allocating %u bytes" [size]) emm'

/-- The first call that does not fit, if there is one, has an exact sum below 2^32. -/
def MisfitBelow (emm : Emm) (sizes : List UInt32) : Prop :=
  ∀ front size, front ++ [size] <+: sizes →
    emm.cursor.toNat + totalSize front ≤ emm.end_.toNat →
    emm.end_.toNat < emm.cursor.toNat + totalSize (front ++ [size]) →
    emm.cursor.toNat + totalSize (front ++ [size]) < 4294967296

/-! ## Where the calls fit -/

@[simp] theorem totalSize_nil : totalSize [] = 0 := rfl

@[simp] theorem totalSize_cons (size : UInt32) (sizes : List UInt32) :
    totalSize (size :: sizes) = size.toNat + totalSize sizes := rfl

@[simp] theorem totalSize_append (front back : List UInt32) :
    totalSize (front ++ back) = totalSize front + totalSize back := by
  rw [totalSize, List.map_append, List.sum_append]
  rfl

theorem emmAllocEach_cons (size : UInt32) (sizes : List UInt32) :
    emmAllocEach (size :: sizes) = (do
      let address ← emmAlloc size
      let addresses ← emmAllocEach sizes
      pure (address :: addresses)) := List.mapM_cons

theorem emmAllocEach_append (front back : List UInt32) :
    emmAllocEach (front ++ back) = (do
      let before ← emmAllocEach front
      let after ← emmAllocEach back
      pure (before ++ after)) := List.mapM_append

/-- Calls that fit return, and their ranges lie one behind the other. -/
theorem emmAllocEach_of_fits {sizes : List UInt32}
    (fits : emm.cursor.toNat + totalSize sizes ≤ emm.end_.toNat) :
    ∃ addresses emm', emmAllocEach sizes emm = .ok addresses emm' ∧ emm'.end_ = emm.end_ ∧
      emm'.cursor.toNat = emm.cursor.toNat + totalSize sizes ∧
      allocations addresses sizes =
        BumpArena.blocks emm.cursor.toNat (sizes.map UInt32.toNat) := by
  induction sizes generalizing emm with
  | nil => exact ⟨[], emm, rfl, rfl, rfl, rfl⟩
  | cons size sizes ih =>
      rw [totalSize_cons] at fits
      have first : emm.Fits size := by
        unfold Emm.Fits
        omega
      have moved := toNat_cursor_add first
      have rest : (emm.cursor + size).toNat + totalSize sizes ≤ emm.end_.toNat := by omega
      obtain ⟨addresses, emm', run, sameEnd, cursor, placed⟩ :=
        @ih { emm with cursor := emm.cursor + size } rest
      refine ⟨emm.cursor :: addresses, emm', ?_, sameEnd, ?_, ?_⟩
      · rw [emmAllocEach_cons, bind_of_ok (emmAlloc_of_fits first)]
        exact bind_of_ok run
      · rw [cursor, totalSize_cons, moved, Nat.add_assoc]
      · rw [List.map_cons, BumpArena.blocks_cons, ← moved, ← placed]
        rfl

/-- The last of the calls comes after the others. -/
theorem emmAllocEach_concat {front all : List UInt32} {emm'' : Emm} :
    emmAllocEach (front ++ [size]) emm = .ok all emm'' ↔
      ∃ addresses emm' address, emmAllocEach front emm = .ok addresses emm' ∧
        emmAlloc size emm' = .ok address emm'' ∧ all = addresses ++ [address] := by
  rw [emmAllocEach_append]
  constructor
  · intro run
    obtain ⟨addresses, emm', first, rest⟩ := bind_eq_ok.1 run
    obtain ⟨last, emm₃, second, joined⟩ := bind_eq_ok.1 rest
    rw [emmAllocEach_cons] at second
    obtain ⟨address, emm₄, call, tail⟩ := bind_eq_ok.1 second
    cases tail
    cases joined
    exact ⟨addresses, emm', address, first, call, rfl⟩
  · rintro ⟨addresses, emm', address, first, call, rfl⟩
    have second : emmAllocEach [size] emm' = .ok [address] emm'' := by
      rw [emmAllocEach_cons]
      exact bind_of_ok call
    rw [bind_of_ok first]
    exact bind_of_ok second

/-- When the first misfit has a small sum, all calls that return fit. -/
theorem fits_of_returned {sizes : List UInt32} (start : emm.cursor ≤ emm.end_)
    (below : MisfitBelow emm sizes) {front : List UInt32} (initial : front <+: sizes)
    {addresses : List UInt32} {emm' : Emm} (run : emmAllocEach front emm = .ok addresses emm') :
    emm.cursor.toNat + totalSize front ≤ emm.end_.toNat := by
  induction front using List.reverseRecOn generalizing addresses emm' with
  | nil => exact UInt32.le_iff_toNat_le.1 start
  | append_singleton front size ih =>
      obtain ⟨_, emm₁, address, first, call, -⟩ := emmAllocEach_concat.1 run
      have earlier := ih ((List.prefix_append front [size]).trans initial) first
      obtain ⟨_, _, first', sameEnd, cursor, -⟩ := emmAllocEach_of_fits earlier
      cases first.symm.trans first'
      by_contra misfit
      have small := below front size initial earlier (by omega)
      rw [totalSize_append, totalSize_cons, totalSize_nil, Nat.add_zero] at misfit small
      have full : ¬ emm₁.Fits size := by
        unfold Emm.Fits
        rw [sameEnd]
        omega
      rw [emmAlloc_of_misfit full (by omega)] at call
      cases call

/-! ## All calls -/

/-- Early allocations keep their promise exactly where the first call that does not
fit has a sum below 2^32. -/
theorem allocationsDisjoint_iff {sizes : List UInt32} (start : emm.cursor ≤ emm.end_) :
    AllocationsDisjoint emm sizes ↔ MisfitBelow emm sizes := by
  constructor
  · intro safe front size initial earlier misfit
    obtain ⟨addresses, emm', run, sameEnd, cursor, -⟩ := emmAllocEach_of_fits earlier
    rw [totalSize_append, totalSize_cons, totalSize_nil, Nat.add_zero] at misfit ⊢
    by_contra wraps
    have full : ¬ emm'.Fits size := by
      unfold Emm.Fits
      rw [sameEnd]
      omega
    have refused := safe.refuses front size initial addresses emm' run full
    -- the wrapped sum lies below the cursor, and the call is served
    have inHeap : emm'.cursor ≤ emm'.end_ := by
      rw [UInt32.le_iff_toNat_le, sameEnd]
      omega
    rw [emmAlloc_of_wrap inHeap (by rw [cursor]; omega)] at refused
    cases refused
  · intro below
    have returned : ∀ front, front <+: sizes → ∀ addresses emm',
        emmAllocEach front emm = .ok addresses emm' →
          emm'.end_ = emm.end_ ∧ emm'.cursor.toNat = emm.cursor.toNat + totalSize front ∧
          emm.cursor.toNat + totalSize front ≤ emm.end_.toNat ∧
          allocations addresses front =
            BumpArena.blocks emm.cursor.toNat (front.map UInt32.toNat) := by
      intro front initial addresses emm' run
      have fits := fits_of_returned start below initial run
      obtain ⟨_, _, run', sameEnd, cursor, placed⟩ := emmAllocEach_of_fits fits
      cases run.symm.trans run'
      exact ⟨sameEnd, cursor, fits, placed⟩
    refine ⟨?_, ?_, ?_, ?_⟩
    · intro front initial addresses emm' run
      obtain ⟨-, -, -, placed⟩ := returned front initial addresses emm' run
      rw [placed]
      exact BumpArena.pairwise_disjoint
    · intro front initial addresses emm' run block mem
      obtain ⟨-, -, fits, placed⟩ := returned front initial addresses emm' run
      rw [placed] at mem
      obtain ⟨low, high⟩ := BumpArena.within_of_mem mem
      exact ⟨low, high.trans fits⟩
    · intro front size initial addresses emm' address emm'' run call
      have both := emmAllocEach_concat.2 ⟨addresses, emm', address, run, call, rfl⟩
      obtain ⟨-, cursor, -, -⟩ :=
        returned front ((List.prefix_append front [size]).trans initial) addresses emm' run
      obtain ⟨-, cursor', -, -⟩ := returned _ initial _ _ both
      rw [totalSize_append] at cursor'
      rw [UInt32.le_iff_toNat_le]
      omega
    · intro front size initial addresses emm' run misfit
      obtain ⟨sameEnd, cursor, fits, -⟩ :=
        returned front ((List.prefix_append front [size]).trans initial) addresses emm' run
      have sum : totalSize (front ++ [size]) = totalSize front + size.toNat := by
        rw [totalSize_append, totalSize_cons, totalSize_nil, Nat.add_zero]
      have beyond : ¬ emm'.cursor.toNat + size.toNat ≤ emm.end_.toNat := sameEnd ▸ misfit
      have small := below front size initial fits (by omega)
      exact emmAlloc_of_misfit misfit (by omega)

theorem allocationsDisjoint_iff_pair :
    AllocationsDisjoint ⟨0x200000, 0x300000⟩ [0x100, 0x40] ↔
      MisfitBelow ⟨0x200000, 0x300000⟩ [0x100, 0x40] :=
  allocationsDisjoint_iff (by decide)

/-- A heap in the top quarter of the address space serves a call for 2^32 - 1 bytes,
moves its cursor down and hands out bytes of the first range again. -/
theorem allocations_overlap :
    ¬ AllocationsDisjoint ⟨0xc0100000, 0xc0200000⟩ [0x100, 0xffffffff, 1] := by
  intro safe
  have := safe.disjoint _ (List.prefix_refl _) [0xc0100000, 0xc0100100, 0xc01000ff]
    ⟨0xc0100100, 0xc0200000⟩ rfl
  have apart := (List.pairwise_cons.1 this).1 (0xc01000ff, 1) (by decide)
  have inFirst : 0xc01000ff ∈ BumpArena.range (0xc0100000, 0x100) := by
    simp [BumpArena.range]
  have inLast : 0xc01000ff ∈ BumpArena.range (0xc01000ff, 1) := by
    simp [BumpArena.range]
  exact Set.disjoint_left.1 apart inFirst inLast

end ArkoiOs
