import Mathlib.Data.List.Nodup
import Mathlib.Logic.Function.Basic

/-!
# Intrusive singly linked lists

`Chain next head xs` says that following the links `next` from `head` visits
exactly the nodes `xs` and then ends.  A chain is determined by its head and
visits no node twice.  The update lemmas are the ones an intrusive list needs:
a link written outside the chain, a node pushed in front, a node unlinked.
-/

variable {α : Type*}

/-- Following `next` from `head` visits `xs` and ends. -/
inductive Chain (next : α → Option α) : Option α → List α → Prop
  | nil : Chain next none []
  | cons {a : α} {xs : List α} : Chain next (next a) xs → Chain next (some a) (a :: xs)

namespace Chain

variable {next next' : α → Option α} {head : Option α} {xs ys : List α} {a b : α}

@[simp] theorem none_iff : Chain next none xs ↔ xs = [] := by
  constructor
  · intro h
    cases h
    rfl
  · rintro rfl
    exact .nil

@[simp] theorem some_iff :
    Chain next (some a) xs ↔ ∃ ys, xs = a :: ys ∧ Chain next (next a) ys := by
  constructor
  · intro h
    cases h with
    | cons rest => exact ⟨_, rfl, rest⟩
  · rintro ⟨ys, rfl, rest⟩
    exact .cons rest

/-- The head determines the visited nodes. -/
theorem unique (left : Chain next head xs) (right : Chain next head ys) : xs = ys := by
  induction left generalizing ys with
  | nil => exact (none_iff.1 right).symm
  | cons _ ih =>
      obtain ⟨zs, rfl, rest⟩ := some_iff.1 right
      rw [ih rest]

theorem head_eq (h : Chain next head xs) : head = xs.head? := by
  cases h <;> rfl

/-- The chain that starts at a visited node. -/
theorem suffix (h : Chain next head (xs ++ a :: ys)) : Chain next (some a) (a :: ys) := by
  induction xs generalizing head with
  | nil =>
      obtain rfl := h.head_eq
      exact h
  | cons x xs ih =>
      obtain rfl := h.head_eq
      obtain ⟨zs, same, rest⟩ := some_iff.1 h
      cases same
      exact ih rest

/-- A finite chain visits no node twice: a second visit would start the same
chain again, of a different length. -/
theorem nodup (h : Chain next head xs) : xs.Nodup := by
  induction h with
  | nil => exact List.nodup_nil
  | @cons a xs rest ih =>
      refine List.nodup_cons.2 ⟨fun again => ?_, ih⟩
      obtain ⟨before, after, rfl⟩ := List.append_of_mem again
      have whole : Chain next (some a) (a :: (before ++ a :: after)) := .cons rest
      have := congrArg List.length (whole.unique rest.suffix)
      simp at this
      omega

/-- Links outside the chain do not matter. -/
theorem congr (h : Chain next head xs) (same : ∀ x ∈ xs, next' x = next x) :
    Chain next' head xs := by
  induction h with
  | nil => exact .nil
  | @cons a xs _ ih =>
      apply Chain.cons
      rw [same a List.mem_cons_self]
      exact ih fun x hx => same x (List.mem_cons_of_mem _ hx)

variable [DecidableEq α]

/-- Writing the link of a node outside the chain. -/
theorem update_of_notMem (h : Chain next head xs) (link : Option α) (ha : a ∉ xs) :
    Chain (Function.update next a link) head xs :=
  h.congr fun x hx => Function.update_of_ne (by rintro rfl; exact ha hx) _ _

/-- Pushing a fresh node in front. -/
theorem push (h : Chain next head xs) (ha : a ∉ xs) :
    Chain (Function.update next a head) (some a) (a :: xs) := by
  apply Chain.cons
  rw [Function.update_self]
  exact h.update_of_notMem head ha

/-- Linking a fresh node, whose own link is cleared, behind the last one. -/
theorem concat (h : Chain next head (xs ++ [b])) (ha : a ∉ xs ++ [b]) :
    Chain (Function.update (Function.update next a none) b (some a)) head (xs ++ [b] ++ [a]) := by
  induction xs generalizing head with
  | nil =>
      have ab : a ≠ b := fun same => ha (same ▸ List.mem_singleton_self a)
      obtain rfl := h.head_eq
      apply Chain.cons
      rw [Function.update_self]
      apply Chain.cons
      rw [Function.update_of_ne ab, Function.update_self]
      exact .nil
  | cons x xs ih =>
      obtain rfl := h.head_eq
      obtain ⟨_, same, rest⟩ := some_iff.1 h
      cases same
      have xb : x ≠ b := by rintro rfl; exact (List.nodup_cons.1 h.nodup).1 (by simp)
      have xa : x ≠ a := by rintro rfl; exact ha (by simp)
      apply Chain.cons
      rw [Function.update_of_ne xb, Function.update_of_ne xa]
      exact ih rest fun mem => ha (List.mem_cons_of_mem x mem)

/-- Unlinking the first node; its own link may be cleared. -/
theorem pop (h : Chain next head (a :: xs)) (link : Option α) :
    Chain (Function.update next a link) (next a) xs := by
  obtain rfl := h.head_eq
  obtain ⟨_, same, rest⟩ := some_iff.1 h
  cases same
  exact rest.update_of_notMem link (List.nodup_cons.1 h.nodup).1

/-- Unlinking a node behind `b`: `b` is linked to its successor, and its own
link may be cleared. -/
theorem unlink (h : Chain next head (xs ++ b :: a :: ys)) (link : Option α) :
    Chain (Function.update (Function.update next b (next a)) a link) head
      (xs ++ b :: ys) := by
  have distinct := h.nodup
  have ba : b ≠ a := by
    rintro rfl
    exact absurd (h.suffix.nodup) (by simp)
  induction xs generalizing head with
  | nil =>
      obtain rfl := h.head_eq
      obtain ⟨_, same, rest⟩ := some_iff.1 h
      cases same
      apply Chain.cons
      rw [Function.update_of_ne ba, Function.update_self]
      have tail : Chain next (next a) ys := by
        obtain ⟨_, same', rest'⟩ := some_iff.1 (rest.head_eq ▸ rest)
        cases same'
        exact rest'
      have nodup := distinct
      simp only [List.nil_append, List.nodup_cons, List.mem_cons, not_or] at nodup
      exact (tail.update_of_notMem _ nodup.1.2).update_of_notMem _ nodup.2.1
  | cons x xs ih =>
      obtain rfl := h.head_eq
      obtain ⟨_, same, rest⟩ := some_iff.1 h
      cases same
      have nodup := List.nodup_cons.1 distinct
      have xb : x ≠ b := by rintro rfl; exact nodup.1 (by simp)
      have xa : x ≠ a := by rintro rfl; exact nodup.1 (by simp)
      apply Chain.cons
      rw [Function.update_of_ne xa, Function.update_of_ne xb]
      exact ih rest nodup.2

end Chain
