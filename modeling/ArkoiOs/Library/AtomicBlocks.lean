import Mathlib.Data.List.Basic
import Mathlib.Order.Nat

/-!
# Blocks written whole into bounded room

A bounded buffer is filled with blocks, each written whole or not at all, up to
the first one that does not fit.  What was written is a prefix of all blocks, and
it fills the room as far as they go exactly where no block straddles its end.
-/

namespace AtomicBlocks

variable {α : Type}

/-- What is written of the blocks into the room. -/
def fill : ℕ → List (List α) → List α
  | _, [] => []
  | room, block :: blocks =>
      if block.length ≤ room then block ++ fill (room - block.length) blocks else []

/-- Blocks of one element. -/
def singles (elements : List α) : List (List α) := elements.map fun a => [a]

@[simp] theorem flatten_singles (elements : List α) : (singles elements).flatten = elements := by
  induction elements with
  | nil => rfl
  | cons a elements ih => exact congrArg (a :: ·) ih

variable {room : ℕ} {first rest blocks : List (List α)}

@[simp] theorem fill_nil : fill room ([] : List (List α)) = [] := rfl

theorem length_fill_le (room : ℕ) (blocks : List (List α)) : (fill room blocks).length ≤ room := by
  induction blocks generalizing room with
  | nil => exact Nat.zero_le _
  | cons block blocks ih =>
      rw [fill]
      split
      · have := ih (room - block.length)
        rw [List.length_append]
        omega
      · exact Nat.zero_le _

/-- Blocks that all fit are all written. -/
theorem fill_of_le (fits : blocks.flatten.length ≤ room) : fill room blocks = blocks.flatten := by
  induction blocks generalizing room with
  | nil => rfl
  | cons block blocks ih =>
      rw [List.flatten_cons, List.length_append] at fits
      rw [fill, if_pos (by omega), ih (by omega), List.flatten_cons]

/-- Behind blocks that all fit the others fill what is left. -/
theorem fill_append (fits : first.flatten.length ≤ room) :
    fill room (first ++ rest) = first.flatten ++ fill (room - first.flatten.length) rest := by
  induction first generalizing room with
  | nil => rfl
  | cons block blocks ih =>
      rw [List.flatten_cons, List.length_append] at fits
      rw [List.cons_append, fill, if_pos (by omega), ih (by omega), List.flatten_cons,
        List.length_append, List.append_assoc, Nat.sub_sub]

/-- Nothing is written behind blocks that do not all fit. -/
theorem fill_append_of_lt (full : room < first.flatten.length) :
    fill room (first ++ rest) = fill room first := by
  induction first generalizing room with
  | nil => exact absurd full (Nat.not_lt_zero _)
  | cons block blocks ih =>
      rw [List.flatten_cons, List.length_append] at full
      rw [List.cons_append, fill, fill]
      split
      · rw [ih (by omega)]
      · rfl

/-- Single elements fill the room to its end. -/
theorem fill_singles (room : ℕ) (elements : List α) :
    fill room (singles elements) = elements.take room := by
  induction elements generalizing room with
  | nil => rw [List.take_nil]; rfl
  | cons a elements ih =>
      cases room with
      | zero => rfl
      | succ room =>
          have rest : fill room (singles elements) = elements.take room := ih room
          rw [List.take_succ_cons, ← rest]
          rfl

/-! ## The end of the room -/

/-- A block begins before the end of the room and ends behind it. -/
def Straddles (room : ℕ) (blocks : List (List α)) : Prop :=
  ∃ front block back, blocks = front ++ block :: back ∧
    front.flatten.length < room ∧ room < front.flatten.length + block.length

/-- Where no block straddles the end of the room, blocks end there. -/
theorem exists_front (whole : ¬Straddles room blocks) :
    ∃ front back, blocks = front ++ back ∧
      front.flatten.length = min room blocks.flatten.length := by
  induction blocks generalizing room with
  | nil => exact ⟨[], [], rfl, (Nat.min_zero room).symm⟩
  | cons block blocks ih =>
      rw [List.flatten_cons, List.length_append]
      rcases Nat.lt_or_ge room block.length with beyond | inside
      · rcases Nat.eq_zero_or_pos room with zero | positive
        · exact ⟨[], block :: blocks, rfl, by rw [zero, Nat.zero_min]; rfl⟩
        · refine absurd ⟨[], block, blocks, rfl, positive, ?_⟩ whole
          rw [List.flatten_nil, List.length_nil, Nat.zero_add]
          exact beyond
      · have later : ¬Straddles (room - block.length) blocks := by
          rintro ⟨front, b, back, rfl, before, behind⟩
          refine whole ⟨block :: front, b, back, rfl, ?_, ?_⟩
          · rw [List.flatten_cons, List.length_append]
            omega
          · rw [List.flatten_cons, List.length_append]
            omega
        obtain ⟨front, back, rfl, ends⟩ := ih later
        refine ⟨block :: front, back, rfl, ?_⟩
        rw [List.flatten_cons, List.length_append, ends]
        omega

/-- Then the room is filled as far as the blocks go, also when there is more room. -/
theorem fill_eq_take (whole : ¬Straddles room blocks) {more : ℕ} (le : room ≤ more) :
    fill room blocks = (fill more blocks).take room ∧
      (fill room blocks).length = min room blocks.flatten.length := by
  obtain ⟨front, back, rfl, ends⟩ := exists_front whole
  have fits : front.flatten.length ≤ room := ends.trans_le (Nat.min_le_left _ _)
  rw [fill_append fits, fill_append (fits.trans le)]
  have nothing : fill (room - front.flatten.length) back = [] := by
    rcases Nat.lt_or_ge room (front ++ back).flatten.length with full | enough
    · have zero : room - front.flatten.length = 0 := by omega
      exact List.eq_nil_of_length_eq_zero (Nat.le_zero.1 (zero ▸ length_fill_le _ back))
    · have empty : back.flatten.length = 0 := by
        rw [List.flatten_append, List.length_append] at ends enough
        omega
      rw [fill_of_le (by omega)]
      exact List.eq_nil_of_length_eq_zero empty
  rw [nothing, List.append_nil]
  refine ⟨?_, ends⟩
  rcases Nat.lt_or_ge room (front ++ back).flatten.length with full | enough
  · have exact_ : room = front.flatten.length := by omega
    rw [exact_, List.take_left]
  · have empty : back.flatten = [] := by
      apply List.eq_nil_of_length_eq_zero
      rw [List.flatten_append, List.length_append] at ends enough
      omega
    rw [fill_of_le (by rw [empty]; exact Nat.zero_le _), empty, List.append_nil,
      List.take_of_length_le fits]

/-- A block across the end of the room leaves some of it empty. -/
theorem length_fill_lt (straddles : Straddles room blocks) : (fill room blocks).length < room := by
  obtain ⟨front, block, back, rfl, before, behind⟩ := straddles
  rw [fill_append before.le, fill, if_neg (by omega), List.append_nil]
  exact before

theorem lt_length_of_straddles (straddles : Straddles room blocks) :
    room < blocks.flatten.length := by
  obtain ⟨front, block, back, rfl, before, behind⟩ := straddles
  rw [List.flatten_append, List.flatten_cons, List.length_append, List.length_append]
  omega

end AtomicBlocks
