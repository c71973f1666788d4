import Mathlib.Data.Finset.Prod
import Mathlib.Data.Fintype.Card
import ArkoiOs.Library.Machine

/-!
# Loops that run until a round returns nothing

A loop goes from position to position and changes a state on its way.  Where each
round keeps the state or makes a measure of it smaller, and there are finitely many
positions, the loop never ends exactly if it comes to a cycle of rounds that all
keep the state.
-/

namespace FuelLoop

open Relation

variable {ε σ α : Type}

/-- Rounds from the position on; a loop that outlives its fuel fails with `endless`. -/
def loop (endless : ε) (round : α → EStateM ε σ (Option α)) : ℕ → α → EStateM ε σ Unit
  | 0, _ => throw endless
  | fuel + 1, position => do
      let next ← round position
      next.elim (pure ()) (loop endless round fuel)

/-- One round leads from a position and a state to the next ones. -/
def Step (round : α → EStateM ε σ (Option α)) (x y : α × σ) : Prop :=
  round x.1 x.2 = .ok (some y.1) y.2

/-! ## Paths -/

section Paths

variable {β : Type} {R : β → β → Prop} {x y : β} {n : ℕ}

/-- There are `n` steps from `x` on. -/
def HasPath (R : β → β → Prop) (x : β) (n : ℕ) : Prop :=
  ∃ path : ℕ → β, path 0 = x ∧ ∀ i < n, R (path i) (path (i + 1))

theorem hasPath_zero (x : β) : HasPath R x 0 :=
  ⟨fun _ => x, rfl, fun _ none => absurd none (Nat.not_lt_zero _)⟩

theorem hasPath_succ : HasPath R x (n + 1) ↔ ∃ y, R x y ∧ HasPath R y n := by
  constructor
  · rintro ⟨path, rfl, steps⟩
    exact ⟨path 1, steps 0 (Nat.succ_pos n), fun i => path (i + 1), rfl,
      fun i hi => steps (i + 1) (Nat.succ_lt_succ hi)⟩
  · rintro ⟨y, first, path, rfl, steps⟩
    refine ⟨fun i => Nat.casesOn i x path, rfl, fun i hi => ?_⟩
    cases i with
    | zero => exact first
    | succ i => exact steps i (Nat.lt_of_succ_lt_succ hi)

/-- On a cycle there are steps without end. -/
theorem hasPath_of_cycle (cycle : TransGen R x x) (n : ℕ) : HasPath R x n := by
  induction n generalizing x with
  | zero => exact hasPath_zero x
  | succ n ih =>
      obtain ⟨y, first, back⟩ := TransGen.head'_iff.1 cycle
      exact hasPath_succ.2 ⟨y, first, ih (TransGen.tail' back first)⟩

/-- Also where the cycle comes later. -/
theorem hasPath_of_reaches (reaches : ReflTransGen R x y) (endless : ∀ n, HasPath R y n) (n : ℕ) :
    HasPath R x n := by
  induction reaches using ReflTransGen.head_induction_on generalizing n with
  | refl => exact endless n
  | head first _ ih =>
      cases n with
      | zero => exact hasPath_zero _
      | succ n => exact hasPath_succ.2 ⟨_, first, ih n⟩

theorem reaches_of_path {path : ℕ → β} (steps : ∀ i < n, R (path i) (path (i + 1))) {i j : ℕ}
    (le : i ≤ j) (inside : j ≤ n) : ReflTransGen R (path i) (path j) := by
  induction j, le using Nat.le_induction with
  | base => exact .refl
  | succ j _ ih => exact (ih (Nat.le_of_succ_le inside)).tail (steps j inside)

end Paths

/-! ## Cycles -/

/-- A cycle of rounds that keep the state. -/
def IdleCycle (round : α → EStateM ε σ (Option α)) (position : α) (state : σ) : Prop :=
  TransGen (fun a b => Step round (a, state) (b, state)) position position

variable {round : α → EStateM ε σ (Option α)} {measure : σ → ℕ} {path : ℕ → α × σ} {n : ℕ}

/-- Rounds that keep the state or make the measure smaller never make it larger. -/
theorem measure_le (progress : ∀ i < n, (path (i + 1)).2 = (path i).2 ∨
    measure (path (i + 1)).2 < measure (path i).2) {i j : ℕ} (le : i ≤ j) (inside : j ≤ n) :
    measure (path j).2 ≤ measure (path i).2 := by
  induction j, le using Nat.le_induction with
  | base => exact Nat.le_refl _
  | succ j _ ih =>
      refine Nat.le_trans ?_ (ih (Nat.le_of_succ_le inside))
      rcases progress j inside with same | smaller
      · rw [same]
      · exact smaller.le

/-- Between two places with the same measure the state is kept. -/
theorem state_eq (progress : ∀ i < n, (path (i + 1)).2 = (path i).2 ∨
    measure (path (i + 1)).2 < measure (path i).2) {i j k : ℕ}
    (same : measure (path i).2 = measure (path j).2) (inside : j ≤ n) (lower : i ≤ k)
    (upper : k ≤ j) : (path k).2 = (path i).2 := by
  induction k, lower using Nat.le_induction with
  | base => rfl
  | succ k _ ih =>
      have before := ih (Nat.le_of_succ_le upper)
      rcases progress k (Nat.lt_of_lt_of_le upper inside) with kept | smaller
      · rw [kept, before]
      · have later := measure_le progress upper inside
        rw [before] at smaller
        omega

/-- A position that comes back with the same measure is on a cycle. -/
theorem idleCycle_of_repeat (steps : ∀ i < n, Step round (path i) (path (i + 1)))
    (progress : ∀ i < n, (path (i + 1)).2 = (path i).2 ∨
      measure (path (i + 1)).2 < measure (path i).2) {i j : ℕ} (less : i < j) (inside : j ≤ n)
    (place : (path i).1 = (path j).1) (level : measure (path i).2 = measure (path j).2) :
    IdleCycle round (path i).1 (path i).2 := by
  have step : ∀ k, i ≤ k → k < j →
      Step round ((path k).1, (path i).2) ((path (k + 1)).1, (path i).2) := by
    intro k lower upper
    have once := steps k (Nat.lt_of_lt_of_le upper inside)
    unfold Step at once ⊢
    rw [state_eq progress level inside lower upper.le,
      state_eq progress level inside (Nat.le_succ_of_le lower) upper] at once
    exact once
  have leads : ∀ k, i + 1 ≤ k → k ≤ j → TransGen
      (fun a b => Step round (a, (path i).2) (b, (path i).2)) (path i).1 (path k).1 := by
    intro k lower upper
    induction k, lower using Nat.le_induction with
    | base => exact .single (step i (Nat.le_refl i) upper)
    | succ k lower' ih =>
        exact (ih (Nat.le_of_succ_le upper)).tail (step k (Nat.le_of_succ_le lower') upper)
  have whole := leads j less (Nat.le_refl j)
  rw [← place] at whole
  exact whole

/-- Among enough rounds there is a cycle. -/
theorem exists_idleCycle [Fintype α] (steps : ∀ i < n, Step round (path i) (path (i + 1)))
    (progress : ∀ i < n, (path (i + 1)).2 = (path i).2 ∨
      measure (path (i + 1)).2 < measure (path i).2)
    (long : Fintype.card α * (measure (path 0).2 + 1) ≤ n) :
    ∃ i ≤ n, IdleCycle round (path i).1 (path i).2 := by
  have few : (Finset.univ ×ˢ Finset.range (measure (path 0).2 + 1) : Finset (α × ℕ)).card <
      (Finset.range (n + 1)).card := by
    rw [Finset.card_product, Finset.card_univ, Finset.card_range, Finset.card_range]
    exact Nat.lt_succ_of_le long
  have inside : ∀ {k}, k ∈ Finset.range (n + 1) → k ≤ n :=
    fun mem => Nat.lt_succ_iff.1 (Finset.mem_range.1 mem)
  have bounded : Set.MapsTo (fun i => ((path i).1, measure (path i).2)) (Finset.range (n + 1))
      (Finset.univ ×ˢ Finset.range (measure (path 0).2 + 1) : Finset (α × ℕ)) := by
    intro i hi
    have smaller := measure_le progress (Nat.zero_le i) (inside hi)
    exact Finset.mem_product.2 ⟨Finset.mem_univ _, Finset.mem_range.2 (Nat.lt_succ_of_le smaller)⟩
  -- two rounds start at the same position with the same measure
  obtain ⟨i, hi, j, hj, different, same⟩ :=
    Finset.exists_ne_map_eq_of_card_lt_of_maps_to few bounded
  obtain ⟨place, level⟩ := Prod.ext_iff.1 same
  rcases Nat.lt_or_gt_of_ne different with less | greater
  · exact ⟨i, inside hi, idleCycle_of_repeat steps progress less (inside hj) place level⟩
  · exact ⟨j, inside hj,
      idleCycle_of_repeat steps progress greater (inside hi) place.symm level.symm⟩

variable {endless : ε} {x : α × σ} {Inv : α × σ → Prop}

/-- What holds at the start and is kept by each round that goes on leads to the end, or to a
fault of a round. -/
theorem loop_ends {E : ε → Prop} (outlives : E endless) (start : Inv x)
    (keep : ∀ y, Inv y → Machine.Ends (fun next t => ∀ b, next = some b → Inv (b, t)) E
      (round y.1 y.2)) (fuel : ℕ) :
    Machine.Ends (fun _ _ => True) E (loop endless round fuel x.1 x.2) := by
  induction fuel generalizing x with
  | zero => exact outlives
  | succ fuel ih =>
      rw [loop]
      refine (keep x start).bind fun next t inv => ?_
      cases next with
      | none => trivial
      | some b => exact ih (inv b rfl)

theorem loop_mirrors {f : σ → σ} {stop : ε} (mirrors : ∀ a, Machine.Mirrors f stop (round a))
    (fuel : ℕ) (a : α) : Machine.Mirrors f stop (loop endless round fuel a) := by
  induction fuel generalizing a with
  | zero => exact .throw _
  | succ fuel ih =>
      refine (mirrors a).bind fun next => ?_
      cases next with
      | none => exact .pure _
      | some b => exact ih b

/-! ## Loops without end -/

/-- As many rounds as there is fuel outlive it. -/
theorem loop_endless_of_path {fuel : ℕ} (path : HasPath (Step round) x fuel) :
    ∃ t, loop endless round fuel x.1 x.2 = .error endless t := by
  induction fuel generalizing x with
  | zero => exact ⟨x.2, rfl⟩
  | succ fuel ih =>
      obtain ⟨y, first, rest⟩ := hasPath_succ.1 path
      rw [loop, Machine.bind_of_ok first]
      exact ih rest

/-- The loop outlives its fuel exactly if there are as many rounds. -/
theorem loop_endless_iff (start : Inv x) (keep : ∀ y z, Inv y → Step round y z → Inv z)
    (quiet : ∀ y t, Inv y → round y.1 y.2 ≠ .error endless t) (fuel : ℕ) :
    (∃ t, loop endless round fuel x.1 x.2 = .error endless t) ↔ HasPath (Step round) x fuel := by
  refine ⟨fun outlives => ?_, loop_endless_of_path⟩
  induction fuel generalizing x with
  | zero => exact hasPath_zero x
  | succ fuel ih =>
      rw [loop] at outlives
      cases run : round x.1 x.2 with
      | ok next t =>
          rw [Machine.bind_of_ok run] at outlives
          cases next with
          | none =>
              obtain ⟨_, stopped⟩ := outlives
              cases stopped
          | some b =>
              have step : Step round x (b, t) := run
              exact hasPath_succ.2 ⟨_, step, ih (keep x _ start step) outlives⟩
      | error e t =>
          rw [Machine.bind_of_error run] at outlives
          obtain ⟨_, stopped⟩ := outlives
          cases stopped
          exact absurd run (quiet x t start)

/-- With enough fuel the loop is endless exactly if it reaches a cycle of rounds that keep the
state. -/
theorem loop_endless_iff_cycle [Fintype α] (start : Inv x)
    (keep : ∀ y z, Inv y → Step round y z → Inv z)
    (quiet : ∀ y t, Inv y → round y.1 y.2 ≠ .error endless t)
    (progress : ∀ y z, Inv y → Step round y z → z.2 = y.2 ∨ measure z.2 < measure y.2) {fuel : ℕ}
    (enough : Fintype.card α * (measure x.2 + 1) ≤ fuel) :
    (∃ t, loop endless round fuel x.1 x.2 = .error endless t) ↔
      ∃ y, ReflTransGen (Step round) x y ∧ IdleCycle round y.1 y.2 := by
  rw [loop_endless_iff start keep quiet]
  constructor
  · rintro ⟨path, rfl, steps⟩
    have inv : ∀ i ≤ fuel, Inv (path i) := by
      intro i le
      induction i with
      | zero => exact start
      | succ i ih => exact keep _ _ (ih (Nat.le_of_succ_le le)) (steps i le)
    obtain ⟨i, le, cycle⟩ := exists_idleCycle steps
      (fun i less => progress _ _ (inv i less.le) (steps i less)) enough
    exact ⟨path i, reaches_of_path steps (Nat.zero_le i) le, cycle⟩
  · rintro ⟨⟨position, state⟩, reaches, cycle⟩
    refine hasPath_of_reaches reaches (fun n => hasPath_of_cycle ?_ n) fuel
    exact cycle.lift (fun a => (a, state)) fun _ _ step => step

end FuelLoop
