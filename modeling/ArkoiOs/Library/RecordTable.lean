import Mathlib.Data.UInt
import Mathlib.Data.List.Basic

/-!
# Tables of records in memory

A memory of 2^32 bytes, bytes placed at an address and read back, and tables of
records of one width.  A `Window` is a part of the memory that does not reach around
its end; what is placed in one window is not seen in another one.
-/

namespace RecordTable

variable {memory memory' : UInt32 → UInt8} {a b : UInt32} {bytes : List UInt8} {n width : ℕ}
  {record : ℕ → List UInt8}

/-- Write bytes from an address on. -/
def place (memory : UInt32 → UInt8) (a : UInt32) (bytes : List UInt8) : UInt32 → UInt8 := fun b =>
  match bytes[(b - a).toNat]? with
  | some byte => byte
  | none => memory b

/-- The bytes from an address on. -/
def read (memory : UInt32 → UInt8) (a : UInt32) (n : ℕ) : List UInt8 :=
  (List.range n).map fun i => memory (a + .ofNat i)

/-! ## Placing and reading -/

theorem read_congr (same : ∀ i < n, memory' (a + .ofNat i) = memory (a + .ofNat i)) :
    read memory' a n = read memory a n :=
  List.map_congr_left fun i mem => same i (List.mem_range.1 mem)

theorem place_of_ge (far : bytes.length ≤ (b - a).toNat) : place memory a bytes b = memory b := by
  unfold place
  rw [List.getElem?_eq_none far]

/-- What is placed is read back. -/
theorem read_place (memory : UInt32 → UInt8) (a : UInt32) (short : bytes.length ≤ 2 ^ 32) :
    read (place memory a bytes) a bytes.length = bytes := by
  refine List.ext_getElem (by simp [read]) fun i _ inside => ?_
  have offset : (a + UInt32.ofNat i - a).toNat = i := by
    rw [add_sub_cancel_left]
    exact UInt32.toNat_ofNat_of_lt' (Nat.lt_of_lt_of_le inside short)
  simp only [read, List.getElem_map, List.getElem_range, place, offset,
    List.getElem?_eq_getElem inside]

/-! ## Windows -/

/-- A part of the memory that ends before the memory does. -/
structure Window where
  base : UInt32
  size : ℕ
  fits : base.toNat + size ≤ 2 ^ 32

namespace Window

/-- An address lies in the window. -/
def Has (w : Window) (b : UInt32) : Prop :=
  w.base.toNat ≤ b.toNat ∧ b.toNat < w.base.toNat + w.size

/-- Windows without a common byte. -/
def Apart (v w : Window) : Prop :=
  v.base.toNat + v.size ≤ w.base.toNat ∨ w.base.toNat + w.size ≤ v.base.toNat

theorem Apart.symm {v w : Window} (apart : v.Apart w) : w.Apart v := Or.symm apart

theorem Apart.not_has {v w : Window} (apart : v.Apart w) (inside : w.Has b) : ¬ v.Has b := by
  rintro ⟨lower, upper⟩
  obtain ⟨lower', upper'⟩ := inside
  rcases apart with before | behind
  · omega
  · omega

theorem toNat_add {w : Window} {i : ℕ} (inside : i < w.size) :
    (w.base + .ofNat i).toNat = w.base.toNat + i := by
  have fits := w.fits
  have small : i < 2 ^ 32 := by omega
  rw [UInt32.toNat_add, UInt32.toNat_ofNat_of_lt' small]
  exact Nat.mod_eq_of_lt (by omega)

theorem has_add {w : Window} {i : ℕ} (inside : i < w.size) : w.Has (w.base + .ofNat i) := by
  unfold Has
  rw [toNat_add inside]
  omega

end Window

/-- Bytes placed in a window change nothing outside of it. -/
theorem place_of_not_has {w : Window} {i : ℕ} (placed : i + bytes.length ≤ w.size)
    (outside : ¬ w.Has b) : place memory (w.base + .ofNat i) bytes b = memory b := by
  rcases Nat.eq_zero_or_pos bytes.length with empty | pos
  · exact place_of_ge (empty ▸ Nat.zero_le _)
  refine place_of_ge ?_
  have here : (w.base + UInt32.ofNat i).toNat = w.base.toNat + i := Window.toNat_add (by omega)
  have fits := w.fits
  have bound := b.toNat_lt
  unfold Window.Has at outside
  rw [UInt32.toNat_sub, here]
  omega

/-! ## Tables -/

/-- The first `n` records of a table stand in a window. -/
def Filled (memory : UInt32 → UInt8) (w : Window) (width : ℕ) (record : ℕ → List UInt8)
    (n : ℕ) : Prop :=
  ∀ i < n, read memory (w.base + .ofNat (width * i)) width = record i

theorem filled_zero (memory : UInt32 → UInt8) (w : Window) : Filled memory w width record 0 :=
  fun _ bound => (Nat.not_lt_zero _ bound).elim

/-- The next record is placed behind the others. -/
theorem Filled.place {w : Window} (filled : Filled memory w width record n)
    (length : (record n).length = width) (room : width * (n + 1) ≤ w.size) :
    Filled (place memory (w.base + .ofNat (width * n)) (record n)) w width record (n + 1) := by
  have fits := w.fits
  rw [Nat.mul_succ] at room
  intro i bound
  rcases Nat.lt_succ_iff_lt_or_eq.1 bound with before | rfl
  · rw [← filled i before]
    refine read_congr fun k hk => place_of_ge ?_
    have step : width * i + width ≤ width * n := by
      rw [← Nat.mul_succ]
      exact Nat.mul_le_mul_left width before
    have shift : w.base + UInt32.ofNat (width * i) + UInt32.ofNat k =
        w.base + UInt32.ofNat (width * i + k) := by
      rw [UInt32.ofNat_add, add_assoc]
    have here : (w.base + UInt32.ofNat (width * n)).toNat = w.base.toNat + width * n :=
      Window.toNat_add (by omega)
    have there : (w.base + UInt32.ofNat (width * i + k)).toNat = w.base.toNat + (width * i + k) :=
      Window.toNat_add (by omega)
    rw [shift, UInt32.toNat_sub, here, there, length]
    omega
  · have short : (record i).length ≤ 2 ^ 32 := by omega
    have placed := read_place memory (w.base + .ofNat (width * i)) short
    rw [length] at placed
    exact placed

/-- Place the first `n` records of a table one behind the other. -/
def fill (memory : UInt32 → UInt8) (w : Window) (width : ℕ) (record : ℕ → List UInt8) :
    ℕ → UInt32 → UInt8
  | 0 => memory
  | n + 1 => place (fill memory w width record n) (w.base + .ofNat (width * n)) (record n)

theorem filled_fill (memory : UInt32 → UInt8) {w : Window}
    (length : ∀ i < n, (record i).length = width) (room : width * n ≤ w.size) :
    Filled (fill memory w width record n) w width record n := by
  induction n with
  | zero => exact filled_zero memory w
  | succ n ih =>
      have smaller : width * n ≤ w.size := (Nat.mul_le_mul_left width (Nat.le_succ n)).trans room
      exact (ih (fun i bound => length i (Nat.lt_succ_of_lt bound)) smaller).place
        (length n (Nat.lt_succ_self n)) room

/-- Filling a table changes nothing outside of its window. -/
theorem fill_of_not_has {w : Window} (length : ∀ i < n, (record i).length = width)
    (room : width * n ≤ w.size) (outside : ¬ w.Has b) :
    fill memory w width record n b = memory b := by
  induction n with
  | zero => rfl
  | succ n ih =>
      have smaller : width * n ≤ w.size := (Nat.mul_le_mul_left width (Nat.le_succ n)).trans room
      rw [← ih (fun i bound => length i (Nat.lt_succ_of_lt bound)) smaller]
      refine place_of_not_has ?_ outside
      rw [length n (Nat.lt_succ_self n), ← Nat.mul_succ]
      exact room

/-- Records stay where no byte of their window changes. -/
theorem Filled.congr {w : Window} (filled : Filled memory w width record n)
    (room : width * n ≤ w.size) (same : ∀ b, w.Has b → memory' b = memory b) :
    Filled memory' w width record n := by
  intro i bound
  have step : width * i + width ≤ width * n := by
    rw [← Nat.mul_succ]
    exact Nat.mul_le_mul_left width bound
  rw [← filled i bound]
  refine read_congr fun k hk => ?_
  have shift : w.base + UInt32.ofNat (width * i) + UInt32.ofNat k =
      w.base + UInt32.ofNat (width * i + k) := by
    rw [UInt32.ofNat_add, add_assoc]
  rw [shift]
  exact same _ (Window.has_add (by omega))

end RecordTable
