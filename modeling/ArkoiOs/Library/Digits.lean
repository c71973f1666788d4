import Mathlib.Data.Nat.Notation
import Mathlib.Algebra.Order.Ring.Nat
import Mathlib.Tactic.Ring

/-!
# Digits from the front

`digits base count n` are the `count` low digits of a number, the most significant
one first, as a loop with a shrinking divisor or shift produces them.  Where the
count is that of the number they are `Nat.toDigits`, and with more they are
padded with zeros.
-/

namespace Digits

/-- The `count` low digits, the most significant first. -/
def digits (base : ℕ) : ℕ → ℕ → List ℕ
  | 0, _ => []
  | count + 1, n => n / base ^ count % base :: digits base count n

variable {base count n : ℕ}

@[simp] theorem digits_zero : digits base 0 n = [] := rfl

@[simp] theorem length_digits : (digits base count n).length = count := by
  induction count with
  | zero => rfl
  | succ count ih => rw [digits, List.length_cons, ih]

/-- Higher digits play no part. -/
theorem digits_mod (base n : ℕ) {count more : ℕ} (le : count ≤ more) :
    digits base count (n % base ^ more) = digits base count n := by
  induction count with
  | zero => rfl
  | succ count ih =>
      have split : base ^ more = base ^ count * base ^ (more - count) := by
        rw [← Nat.pow_add, Nat.add_sub_cancel' (Nat.le_of_succ_le le)]
      have divides : base ∣ base ^ (more - count) :=
        dvd_pow_self base (by omega)
      rw [digits, digits, ih (Nat.le_of_succ_le le), split, Nat.mod_mul_right_div_self,
        Nat.mod_mod_of_dvd _ divides]

/-- The last digit. -/
theorem digits_concat (base count n : ℕ) :
    digits base (count + 1) n = digits base count (n / base) ++ [n % base] := by
  induction count with
  | zero => rw [digits, digits, digits, Nat.pow_zero, Nat.div_one, List.nil_append]
  | succ count ih =>
      rw [digits, ih, digits, List.cons_append, Nat.div_div_eq_div_mul, ← Nat.pow_succ']

/-- All digits of a number, as characters. -/
theorem toDigits_eq (large : 1 < base) {count : ℕ} (high : base ^ count ≤ n ∨ count = 0)
    (low : n < base ^ (count + 1)) :
    Nat.toDigits base n = (digits base (count + 1) n).map Nat.digitChar := by
  induction count generalizing n with
  | zero =>
      have small : n < base := by rwa [Nat.zero_add, Nat.pow_one] at low
      rw [Nat.toDigits_of_lt_base small, digits, digits, Nat.pow_zero, Nat.div_one,
        Nat.mod_eq_of_lt small]
      rfl
  | succ count ih =>
      have positive : 0 < base := Nat.lt_of_succ_lt large
      have enough : base ^ (count + 1) ≤ n := high.resolve_right (Nat.succ_ne_zero count)
      have more : base ≤ n :=
        (Nat.le_self_pow (Nat.succ_ne_zero count) base).trans enough
      have rest_high : base ^ count ≤ n / base := by
        rw [Nat.le_div_iff_mul_le positive, ← Nat.pow_succ]
        exact enough
      have rest_low : n / base < base ^ (count + 1) := by
        rw [Nat.div_lt_iff_lt_mul positive, ← Nat.pow_succ]
        exact low
      rw [Nat.toDigits_of_base_le large more, ih (Or.inl rest_high) rest_low,
        digits_concat base (count + 1) n, List.map_append]
      rfl

/-- More digits than the number has are zeros in front. -/
theorem leftpad_toDigits (large : 1 < base) {count : ℕ} (low : n < base ^ (count + 1)) :
    (Nat.toDigits base n).leftpad (count + 1) '0' =
      (digits base (count + 1) n).map Nat.digitChar := by
  induction count with
  | zero =>
      rw [toDigits_eq large (Or.inr rfl) low]
      rfl
  | succ count ih =>
      rcases Nat.lt_or_ge n (base ^ (count + 1)) with fewer | all
      · have short : (Nat.toDigits base n).length ≤ count + 1 :=
          (Nat.length_toDigits_le_iff large (Nat.succ_pos count)).2 fewer
        have zero : n / base ^ (count + 1) % base = 0 := by
          rw [Nat.div_eq_of_lt fewer, Nat.zero_mod]
        have pad : count + 1 + 1 - (Nat.toDigits base n).length =
            count + 1 - (Nat.toDigits base n).length + 1 := by omega
        have rest := ih fewer
        rw [List.leftpad] at rest
        rw [digits, zero, List.map_cons, ← rest, List.leftpad, pad, List.replicate_succ,
          List.cons_append]
        rfl
      · rw [toDigits_eq large (Or.inl all) low, List.leftpad, List.length_map, length_digits,
          Nat.sub_self]
        rfl

end Digits
