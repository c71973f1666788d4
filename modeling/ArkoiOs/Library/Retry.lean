import Mathlib.Order.Filter.AtTopBot.Basic
import ArkoiOs.Library.Machine

/-!
# Loops that wait

Code with fuel settles if it ends in the same way with all large amounts of fuel.  A loop
that retries until an attempt succeeds settles if each failed attempt takes one tick of a
clock and again and again one of them makes a measure smaller.
-/

namespace Retry

open Filter

variable {ε σ α β : Type}

/-! ## Enough fuel -/

/-- With enough fuel the code ends so. -/
def Settles (x : ℕ → EStateM ε σ α) (s : σ) (r : EStateM.Result ε σ α) : Prop :=
  ∀ᶠ fuel in atTop, x fuel s = r

namespace Settles

variable {x : ℕ → EStateM ε σ α} {s s' : σ} {a : α}

theorem of_eq {r : EStateM.Result ε σ α} (h : ∀ fuel, x fuel s = r) : Settles x s r :=
  Eventually.of_forall h

/-- A sequence settles as its second part does after its first part returned. -/
theorem bind {f : ℕ → α → EStateM ε σ β} {r : EStateM.Result ε σ β}
    (first : Settles x s (.ok a s')) (second : Settles (fun fuel => f fuel a) s' r) :
    Settles (fun fuel => x fuel >>= f fuel) s r := by
  filter_upwards [first, second] with fuel run rest
  rw [Machine.bind_of_ok run]
  exact rest

end Settles

/-! ## Retrying -/

/-- `while (!attempt());`; a loop that outlives its fuel fails with `endless`. -/
def retry (endless : ε) (attempt : EStateM ε σ Bool) : ℕ → EStateM ε σ Unit
  | 0 => throw endless
  | fuel + 1 => do
      if ← attempt then pure () else retry endless attempt fuel

section Attempts

variable {endless : ε} {attempt : EStateM ε σ Bool} {s s' : σ} {r : EStateM.Result ε σ Unit}

theorem settles_of_success (run : attempt s = .ok true s') :
    Settles (retry endless attempt) s (.ok () s') := by
  filter_upwards [eventually_gt_atTop 0] with fuel positive
  obtain ⟨fuel, rfl⟩ := Nat.exists_eq_succ_of_ne_zero positive.ne'
  rw [retry, Machine.bind_of_ok run]
  rfl

theorem settles_of_failure (run : attempt s = .ok false s')
    (rest : Settles (retry endless attempt) s' r) : Settles (retry endless attempt) s r := by
  filter_upwards [eventually_gt_atTop 0, (tendsto_sub_atTop_nat 1).eventually rest] with
    fuel positive later
  obtain ⟨fuel, rfl⟩ := Nat.exists_eq_succ_of_ne_zero positive.ne'
  rw [retry, Machine.bind_of_ok run]
  exact later

variable {P Q : σ → Prop} {progress : ℕ → Prop} {clock measure : σ → ℕ}

/-- What holds where an attempt is made holds again where it has failed, at the next tick;
failures never make the measure larger, and a failure at a tick of progress makes it
smaller. -/
def Waits (attempt : EStateM ε σ Bool) (P Q : σ → Prop) (progress : ℕ → Prop)
    (clock measure : σ → ℕ) : Prop :=
  ∀ s, P s → (∃ s', attempt s = .ok true s' ∧ Q s') ∨
    ∃ s', attempt s = .ok false s' ∧ P s' ∧ clock s' = clock s + 1 ∧ measure s' ≤ measure s ∧
      (progress (clock s) → measure s' < measure s)

/-- Up to the next tick of progress the loop ends, or the measure becomes smaller. -/
theorem Waits.until_progress (waits : Waits attempt P Q progress clock measure) {bound : ℕ}
    (smaller : ∀ s, P s → measure s < bound →
      ∃ s', Settles (retry endless attempt) s (.ok () s') ∧ Q s')
    {distance : ℕ} (here : P s) (level : measure s ≤ bound)
    (next : progress (clock s + distance)) :
    ∃ s', Settles (retry endless attempt) s (.ok () s') ∧ Q s' := by
  induction distance generalizing s with
  | zero =>
      rcases waits s here with ⟨s', run, done⟩ | ⟨s', run, again, -, -, less⟩
      · exact ⟨s', settles_of_success run, done⟩
      · obtain ⟨s₁, rest, done⟩ := smaller s' again ((less next).trans_le level)
        exact ⟨s₁, settles_of_failure run rest, done⟩
  | succ distance ih =>
      rcases waits s here with ⟨s', run, done⟩ | ⟨s', run, again, tick, no_more, -⟩
      · exact ⟨s', settles_of_success run, done⟩
      · have later : progress (clock s' + distance) := by
          rw [tick, Nat.add_right_comm]
          exact next
        obtain ⟨s₁, rest, done⟩ := ih again (no_more.trans level) later
        exact ⟨s₁, settles_of_failure run rest, done⟩

/-- Where there is progress again and again the loop ends. -/
theorem Waits.settles (waits : Waits attempt P Q progress clock measure)
    (often : ∃ᶠ tick in atTop, progress tick) (here : P s) :
    ∃ s', Settles (retry endless attempt) s (.ok () s') ∧ Q s' := by
  induction level : measure s using Nat.strong_induction_on generalizing s with
  | _ n ih =>
      obtain ⟨tick, after, next⟩ := frequently_atTop.1 often (clock s)
      obtain ⟨distance, rfl⟩ := Nat.exists_eq_add_of_le after
      exact waits.until_progress (fun t there less => ih _ less there rfl) here level.le next

end Attempts

end Retry
