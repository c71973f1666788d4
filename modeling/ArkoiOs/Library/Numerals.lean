import ArkoiOs.Library.Digits
import Mathlib.Data.List.Induction
import Mathlib.Data.Nat.Log

/-!
# Numerals over an alphabet

The characters of an alphabet are the digits of a base, in their order.  A text of
digits has a value, and a number has one canonical text: the digits of the number
from the front, which is the shortest text with its value and begins with a zero
only where it is the zero.
-/

namespace Numerals

open Digits

variable {α : Type} [DecidableEq α] {alphabet : List α}

/-- The value of a text. -/
def value (alphabet text : List α) : ℕ :=
  text.foldl (fun n c => n * alphabet.length + alphabet.idxOf c) 0

/-- The text is made of digits. -/
def IsNumeral (alphabet text : List α) : Prop := ∀ c ∈ text, c ∈ alphabet

/-- The text is the canonical one of the number. -/
structure Canonical (alphabet text : List α) (n : ℕ) : Prop where
  nonempty : text ≠ []
  numeral : IsNumeral alphabet text
  value : value alphabet text = n
  noLeadingZero : ∀ c rest, text = c :: rest → alphabet.idxOf c = 0 → rest = []
  shortest : ∀ other, other ≠ [] → IsNumeral alphabet other → Numerals.value alphabet other = n →
    text.length ≤ other.length

/-- `digit` spells each digit of the base. -/
def Spells (alphabet : List α) (digit : ℕ → α) : Prop :=
  ∀ d < alphabet.length, digit d ∈ alphabet ∧ alphabet.idxOf (digit d) = d

theorem value_concat (alphabet text : List α) (c : α) :
    value alphabet (text ++ [c]) =
      value alphabet text * alphabet.length + alphabet.idxOf c := by
  rw [value, List.foldl_append]
  rfl

/-- A text of `k` digits has a value below the `k`-th power of the base. -/
theorem value_lt {text : List α} (numeral : IsNumeral alphabet text) :
    value alphabet text < alphabet.length ^ text.length := by
  induction text using List.reverseRecOn with
  | nil => exact Nat.one_pos
  | append_singleton text c ih =>
      have front := ih fun c' mem => numeral c' (List.mem_append_left _ mem)
      have last : alphabet.idxOf c < alphabet.length :=
        List.idxOf_lt_length_of_mem
          (numeral c (List.mem_append_right _ (List.mem_singleton_self c)))
      rw [value_concat, List.length_append, List.length_singleton, Nat.pow_succ]
      calc value alphabet text * alphabet.length + alphabet.idxOf c
          < (value alphabet text + 1) * alphabet.length := by rw [Nat.succ_mul]; omega
        _ ≤ alphabet.length ^ text.length * alphabet.length := Nat.mul_le_mul_right _ front

section Spelled

variable {digit : ℕ → α} (spells : Spells alphabet digit) {count n : ℕ}

include spells

theorem isNumeral_digits (positive : 0 < alphabet.length) (count n : ℕ) :
    IsNumeral alphabet ((digits alphabet.length count n).map digit) := by
  induction count with
  | zero => exact fun _ mem => (List.not_mem_nil mem).elim
  | succ count ih =>
      rw [digits, List.map_cons]
      intro c mem
      rcases List.mem_cons.1 mem with rfl | rest
      · exact (spells _ (Nat.mod_lt _ positive)).1
      · exact ih c rest

/-- The value of the low digits of a number. -/
theorem value_digits (positive : 0 < alphabet.length) (count n : ℕ) :
    value alphabet ((digits alphabet.length count n).map digit) = n % alphabet.length ^ count := by
  induction count generalizing n with
  | zero => exact (Nat.mod_one n).symm
  | succ count ih =>
      rw [digits_concat, List.map_append, List.map_singleton, value_concat, ih,
        (spells _ (Nat.mod_lt n positive)).2, Nat.pow_succ', Nat.mod_mul]
      ring

/-- The digits of a number are its canonical text. -/
theorem canonical_digits (large : 1 < alphabet.length)
    (high : alphabet.length ^ count ≤ n ∨ count = 0) (low : n < alphabet.length ^ (count + 1)) :
    Canonical alphabet ((digits alphabet.length (count + 1) n).map digit) n where
  nonempty := by
    rw [digits, List.map_cons]
    exact List.cons_ne_nil _ _
  numeral := isNumeral_digits spells (Nat.zero_lt_of_lt large) _ _
  value := by
    rw [value_digits spells (Nat.zero_lt_of_lt large), Nat.mod_eq_of_lt low]
  noLeadingZero c rest text zero := by
    rcases high with enough | none
    · -- the first digit is the quotient by the power, which is not zero
      have positive : 0 < alphabet.length ^ count := Nat.pow_pos (Nat.zero_lt_of_lt large)
      have first : n / alphabet.length ^ count < alphabet.length := by
        rw [Nat.div_lt_iff_lt_mul positive, ← Nat.pow_succ']
        exact low
      rw [digits, List.map_cons, Nat.mod_eq_of_lt first] at text
      obtain ⟨rfl, -⟩ := List.cons.inj text
      rw [(spells _ first).2] at zero
      exact absurd zero (Nat.ne_of_gt (Nat.div_pos enough positive))
    · subst none
      rw [digits, digits, List.map_cons, List.map_nil] at text
      exact (List.cons.inj text).2.symm
  shortest other nonempty numeral same := by
    rw [List.length_map, length_digits]
    rcases high with enough | none
    · have bound := value_lt numeral
      rw [same] at bound
      exact (Nat.pow_lt_pow_iff_right large).1 (enough.trans_lt bound)
    · rw [none]
      exact List.length_pos_iff.2 nonempty

end Spelled

end Numerals
