import Mathlib.Data.Nat.Notation
import Mathlib.Order.Interval.Set.Defs
import Mathlib.Data.Set.Lattice
import Mathlib.Order.CompletePartialOrder
import Mathlib.Algebra.BigOperators.Group.List.Basic
import Mathlib.Algebra.Order.Ring.Nat

/-!
# Blocks one behind the other

A bump arena hands out blocks by moving a cursor.  `blocks` is where blocks of
given sizes stand when each begins where the one before it ends; the lemmas say
that they do not overlap and stay below the end of the last one.
-/

namespace BumpArena

/-- The address and the size of each block, from `cursor` on. -/
def blocks : ℕ → List ℕ → List (ℕ × ℕ)
  | _, [] => []
  | cursor, size :: sizes => (cursor, size) :: blocks (cursor + size) sizes

@[simp] theorem blocks_nil (cursor : ℕ) : blocks cursor [] = [] := rfl

@[simp] theorem blocks_cons (cursor size : ℕ) (sizes : List ℕ) :
    blocks cursor (size :: sizes) = (cursor, size) :: blocks (cursor + size) sizes := rfl

variable {cursor : ℕ} {sizes : List ℕ}

/-- Each block lies between the cursor before the first and the one after the last. -/
theorem within_of_mem {block : ℕ × ℕ} (mem : block ∈ blocks cursor sizes) :
    cursor ≤ block.1 ∧ block.1 + block.2 ≤ cursor + sizes.sum := by
  induction sizes generalizing cursor with
  | nil => cases mem
  | cons size sizes ih =>
      rw [List.sum_cons]
      rcases List.mem_cons.1 mem with here | later
      · subst here
        exact ⟨Nat.le_refl _, by simp only; omega⟩
      · obtain ⟨low, high⟩ := ih later
        exact ⟨by omega, by omega⟩

/-- Each block ends where the later ones begin, or before. -/
theorem pairwise_ordered : (blocks cursor sizes).Pairwise fun a b => a.1 + a.2 ≤ b.1 := by
  induction sizes generalizing cursor with
  | nil => exact .nil
  | cons size sizes ih =>
      refine List.pairwise_cons.2 ⟨?_, ih⟩
      intro block later
      exact (within_of_mem later).1

/-- The addresses a block takes. -/
def range (block : ℕ × ℕ) : Set ℕ := Set.Ico block.1 (block.1 + block.2)

/-- No two blocks share an address. -/
theorem pairwise_disjoint :
    (blocks cursor sizes).Pairwise fun a b => Disjoint (range a) (range b) := by
  refine pairwise_ordered.imp ?_
  intro a b ordered
  rw [Set.disjoint_left]
  intro address inA inB
  exact absurd inA.2 (Nat.not_lt.2 (ordered.trans inB.1))

end BumpArena
