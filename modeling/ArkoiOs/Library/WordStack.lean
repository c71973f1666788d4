import Mathlib.Data.UInt
import ArkoiOs.Library.LittleEndian

/-!
# Words on a stack

A memory of 2^32 bytes and the 32-bit words in it, least significant byte first.
`Holds` says which words stand from an address on; it is all that code which only
pushes and pops needs to know of the memory.  Addresses wrap at 2^32, so a stack
must be shorter than the memory.
-/

namespace WordStack

/-- The byte at each address. -/
abbrev Bytes : Type := UInt32 → UInt8

variable {memory memory' : Bytes} {a b : UInt32} {v w : UInt32} {ws : List UInt32}

/-- The word at an address. -/
def load (memory : Bytes) (a : UInt32) : UInt32 :=
  .ofNat (LittleEndian.decode [memory a, memory (a + 1), memory (a + 2), memory (a + 3)])

/-- Write a word. -/
def store (memory : Bytes) (a v : UInt32) : Bytes := fun b =>
  match (LittleEndian.encode 4 v.toNat)[(b - a).toNat]? with
  | some byte => byte
  | none => memory b

/-- The words from an address on. -/
def words (memory : Bytes) : UInt32 → ℕ → List UInt32
  | _, 0 => []
  | a, n + 1 => load memory a :: words memory (a + 4) n

@[simp] theorem length_words (memory : Bytes) (a : UInt32) (n : ℕ) :
    (words memory a n).length = n := by
  induction n generalizing a with
  | zero => rfl
  | succ n ih => rw [words, List.length_cons, ih]

/-! ## Loads and stores -/

/-- A word that was written is read back. -/
theorem load_store (memory : Bytes) (a v : UInt32) : load (store memory a v) a = v := by
  have first : (a - a).toNat = 0 := by rw [sub_self]; rfl
  have second : (a + 1 - a).toNat = 1 := by rw [add_sub_cancel_left]; rfl
  have third : (a + 2 - a).toNat = 2 := by rw [add_sub_cancel_left]; rfl
  have fourth : (a + 3 - a).toNat = 3 := by rw [add_sub_cancel_left]; rfl
  have bound : v.toNat < 256 ^ 4 := v.toNat_lt
  simp only [load, store, first, second, third, fourth]
  change UInt32.ofNat (LittleEndian.decode (LittleEndian.encode 4 v.toNat)) = v
  rw [LittleEndian.decode_encode_of_lt bound, UInt32.ofNat_toNat]

/-- Outside its four bytes a store changes nothing. -/
theorem store_apply_of_le (h : 4 ≤ (b - a).toNat) : store memory a v b = memory b := by
  simp only [store]
  rw [List.getElem?_eq_none (by rw [LittleEndian.length_encode]; exact h)]

/-- A word that does not overlap one that is written stays. -/
theorem load_store_of_apart (above : 4 ≤ (b - a).toNat) (below : (b - a).toNat ≤ 2 ^ 32 - 4) :
    load (store memory a v) b = load memory b := by
  have further : ∀ i : UInt32, i.toNat < 4 → store memory a v (b + i) = memory (b + i) := by
    intro i hi
    refine store_apply_of_le ?_
    rw [add_sub_right_comm, UInt32.toNat_add, Nat.mod_eq_of_lt (by omega)]
    omega
  have here : store memory a v b = memory b := store_apply_of_le above
  rw [load, load, here, further 1 (by decide), further 2 (by decide), further 3 (by decide)]

/-! ## Words from an address on -/

/-- These words stand from the address on. -/
def Holds (memory : Bytes) (a : UInt32) (ws : List UInt32) : Prop :=
  words memory a ws.length = ws

theorem holds_nil (memory : Bytes) (a : UInt32) : Holds memory a [] := rfl

theorem holds_cons : Holds memory a (w :: ws) ↔ load memory a = w ∧ Holds memory (a + 4) ws :=
  List.cons_eq_cons

/-- A store below the words leaves them, as long as they do not reach around the
memory. -/
theorem Holds.store {n : ℕ} (h : Holds memory a ws) (distance : (a - b).toNat = n)
    (above : 4 ≤ n) (fits : n + 4 * ws.length ≤ 2 ^ 32) : Holds (store memory b v) a ws := by
  induction ws generalizing a n with
  | nil => exact holds_nil _ a
  | cons w ws ih =>
      rw [List.length_cons] at fits
      obtain ⟨first, rest⟩ := holds_cons.1 h
      refine holds_cons.2 ⟨?_, ?_⟩
      · rw [load_store_of_apart (by omega) (by omega)]
        exact first
      · cases ws with
        | nil => exact holds_nil _ _
        | cons w' ws =>
            rw [List.length_cons] at fits
            refine ih rest (n := n + 4) ?_ (by omega) (by rw [List.length_cons]; omega)
            rw [add_sub_right_comm, UInt32.toNat_add, distance]
            exact Nat.mod_eq_of_lt (by change n + 4 < _; omega)

/-- The stack grows by a word. -/
theorem Holds.push (h : Holds memory a ws) (short : ws.length < 2 ^ 30 - 1) (v : UInt32) :
    Holds (WordStack.store memory (a - 4) v) (a - 4) (v :: ws) := by
  refine holds_cons.2 ⟨load_store _ _ _, ?_⟩
  have distance : (a - (a - 4)).toNat = 4 := by rw [sub_sub_cancel]; rfl
  rw [sub_add_cancel]
  exact h.store distance le_rfl (by omega)

/-- The first words stand there too. -/
theorem Holds.take (h : Holds memory a ws) (n : ℕ) : Holds memory a (ws.take n) := by
  induction ws generalizing a n with
  | nil =>
      rw [List.take_nil]
      exact h
  | cons w ws ih =>
      cases n with
      | zero => exact holds_nil _ a
      | succ n =>
          obtain ⟨first, rest⟩ := holds_cons.1 h
          exact holds_cons.2 ⟨first, ih rest n⟩

/-- Memories that agree on the words hold the same ones. -/
theorem Holds.congr (h : Holds memory a ws)
    (same : ∀ i < 4 * ws.length, memory' (a + .ofNat i) = memory (a + .ofNat i)) :
    Holds memory' a ws := by
  induction ws generalizing a with
  | nil => exact holds_nil _ a
  | cons w ws ih =>
      rw [List.length_cons] at same
      obtain ⟨first, rest⟩ := holds_cons.1 h
      refine holds_cons.2 ⟨?_, ih rest fun i hi => ?_⟩
      · have zero : memory' a = memory a := by
          have here := same 0 (by omega)
          have none : a + UInt32.ofNat 0 = a := add_zero a
          rwa [none] at here
        have one : memory' (a + 1) = memory (a + 1) := same 1 (by omega)
        have two : memory' (a + 2) = memory (a + 2) := same 2 (by omega)
        have three : memory' (a + 3) = memory (a + 3) := same 3 (by omega)
        rw [← first, load, load, zero, one, two, three]
      · have shift : a + 4 + UInt32.ofNat i = a + UInt32.ofNat (4 + i) := by
          rw [UInt32.ofNat_add]
          exact add_assoc a 4 _
        rw [shift]
        exact same (4 + i) (by omega)

end WordStack
