import Mathlib.Data.List.DropRight
import Mathlib.Data.Nat.ModEq

/-!
# Queues that drop their oldest elements

`BoundedQueue.push` appends an element to a queue and keeps the last `bound`
elements.  A reader that copies the front, lets pushes happen and then drops the
front gives what some sequential order gives exactly when the front it copied is
still the front (`sequential_iff`).  The last section is the arithmetic of
indices that wrap at a capacity.
-/

namespace BoundedQueue

variable {α : Type} {bound : ℕ}

/-- Append an element and keep the last `bound` elements. -/
def push (bound : ℕ) (q : List α) (x : α) : List α := (q ++ [x]).rtake bound

/-! ## The last elements of a list -/

theorem length_rtake (bound : ℕ) (l : List α) : (l.rtake bound).length = min bound l.length := by
  rw [List.rtake, List.length_drop]
  omega

theorem rtake_of_le {l : List α} (short : l.length ≤ bound) : l.rtake bound = l := by
  rw [List.rtake, Nat.sub_eq_zero_of_le short, List.drop_zero]

/-- Dropping early or late leaves the same last elements. -/
theorem rtake_rtake_append (bound : ℕ) (l m : List α) :
    (l.rtake bound ++ m).rtake bound = (l ++ m).rtake bound := by
  rcases Nat.le_total l.length bound with short | long
  · rw [rtake_of_le short]
  · have cut : l.rtake bound ++ m = (l ++ m).drop (l.length - bound) :=
      (List.drop_append_of_le_length (Nat.sub_le _ _)).symm
    rw [cut, List.rtake, List.rtake, List.drop_drop, List.length_drop, List.length_append]
    congr 1
    omega

theorem push_length_le (bound : ℕ) (q : List α) (x : α) : (push bound q x).length ≤ bound := by
  rw [push, length_rtake]
  exact Nat.min_le_left _ _

/-- With room an element is appended. -/
theorem push_of_lt {q : List α} (room : q.length < bound) (x : α) : push bound q x = q ++ [x] :=
  rtake_of_le (by rw [List.length_append, List.length_singleton]; omega)

/-- A full queue drops its front. -/
theorem push_of_full {q : List α} (full : q.length = bound) (x : α) :
    push bound q x = (q ++ [x]).drop 1 := by
  rw [push, List.rtake, List.length_append, List.length_singleton, full, Nat.add_sub_cancel_left]

/-- Pushing one by one keeps the last elements of all. -/
theorem foldl_push {q : List α} (short : q.length ≤ bound) (xs : List α) :
    xs.foldl (push bound) q = (q ++ xs).rtake bound := by
  induction xs generalizing q with
  | nil => rw [List.foldl_nil, List.append_nil, rtake_of_le short]
  | cons x xs ih =>
      rw [List.foldl_cons, ih (push_length_le bound q x), push, rtake_rtake_append,
        List.append_assoc, List.singleton_append]

/-- A queue with an element has one after any pushes. -/
theorem rtake_append_ne_nil (positive : 0 < bound) {q : List α} (nonempty : q ≠ [])
    (xs : List α) : (q ++ xs).rtake bound ≠ [] := by
  have some := List.length_pos_iff.2 nonempty
  refine List.length_pos_iff.1 ?_
  rw [length_rtake, List.length_append]
  omega

/-! ## A pop that lets pushes in between -/

/-- Popping after some of the pushes and before the others returns `front` and
leaves `rest`. -/
def Sequential (bound : ℕ) (q pushes : List α) (front : α) (rest : List α) : Prop :=
  ∃ earlier later, pushes = earlier ++ later ∧
    ((q ++ earlier).rtake bound).head? = some front ∧
    rest = (((q ++ earlier).rtake bound).drop 1 ++ later).rtake bound

/-- The front was copied after the pushes `before` and dropped after the pushes
`mid` that followed.  Some sequential order gives the same unless the queue
overflowed in between and another element had become the front. -/
theorem sequential_iff {q before mid : List α} {front : α} (short : q.length ≤ bound)
    (copied : ((q ++ before).rtake bound).head? = some front) :
    Sequential bound q (before ++ mid) front (((q ++ (before ++ mid)).rtake bound).drop 1) ↔
      ((q ++ before).rtake bound).length + mid.length ≤ bound ∨
        ((q ++ (before ++ mid)).rtake bound).head? = some front := by
  have same : ((q ++ before).rtake bound ++ mid).rtake bound =
      (q ++ (before ++ mid)).rtake bound := by
    rw [rtake_rtake_append, List.append_assoc]
  have nonempty : 0 < ((q ++ before).rtake bound).length := by
    cases list : (q ++ before).rtake bound with
    | nil =>
        rw [list] at copied
        cases copied
    | cons x xs => exact Nat.succ_pos _
  constructor
  · rintro ⟨earlier, later, pushes, first, rest⟩
    refine or_iff_not_imp_left.2 fun overflow => ?_
    -- by its length, what is left admits no push after the pop
    have lengths := congrArg List.length rest
    have total := congrArg List.length pushes
    simp only [List.length_drop, length_rtake, List.length_append]
      at lengths total overflow nonempty
    have last : later = [] := List.eq_nil_of_length_eq_zero (by omega)
    rw [last, List.append_nil] at pushes
    rw [pushes]
    exact first
  · rintro (room | unchanged)
    · refine ⟨before, mid, rfl, copied, ?_⟩
      rw [← same, rtake_of_le (by rw [List.length_append]; exact room),
        List.drop_append_of_le_length nonempty]
      refine (rtake_of_le ?_).symm
      rw [List.length_append, List.length_drop]
      omega
    · refine ⟨before ++ mid, [], (List.append_nil _).symm, unchanged, ?_⟩
      rw [List.append_nil]
      refine (rtake_of_le ?_).symm
      rw [List.length_drop, length_rtake]
      omega

/-! ## Indices that wrap -/

/-- Different offsets below the capacity are different indices. -/
theorem index_inj {start capacity i j : ℕ} (hi : i < capacity) (hj : j < capacity)
    (same : (start + i) % capacity = (start + j) % capacity) : i = j := by
  have cancelled : i ≡ j [MOD capacity] := Nat.ModEq.add_left_cancel' start same
  exact cancelled.eq_of_lt_of_lt hi hj

theorem index_succ (start capacity i : ℕ) :
    ((start + 1) % capacity + i) % capacity = (start + (i + 1)) % capacity := by
  rw [Nat.mod_add_mod]
  congr 1
  omega

/-- Going back from an index to the start of the ring counts the steps. -/
theorem index_sub {start capacity i : ℕ} (hs : start < capacity) (hi : i < capacity) :
    ((start + i) % capacity + capacity - start) % capacity = i := by
  rcases Nat.lt_or_ge (start + i) capacity with below | wraps
  · rw [Nat.mod_eq_of_lt below]
    have sum : start + i + capacity - start = i + capacity := by omega
    rw [sum, Nat.add_mod_right, Nat.mod_eq_of_lt hi]
  · have wrapped : (start + i) % capacity = start + i - capacity := by
      rw [Nat.mod_eq_sub_mod wraps]
      exact Nat.mod_eq_of_lt (by omega)
    have sum : start + i - capacity + capacity - start = i := by omega
    rw [wrapped, sum, Nat.mod_eq_of_lt hi]

end BoundedQueue
