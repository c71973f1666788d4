import Mathlib.Data.List.Basic
import Mathlib.Order.Nat

/-!
# Byte memories

A memory of objects: at each offset an object either has a byte or ends.  A
pointer is an object and an offset.  `Holds` says which bytes stand at a
pointer, `Room` that the object goes on for some bytes, and `overwrite` replaces
bytes; what is written is read back, and windows apart keep their bytes.
-/

/-- The bytes of each object at its offsets. -/
abbrev ByteMemory (ι : Type) : Type := ι → ℕ → Option UInt8

/-- A position in an object. -/
structure Pointer (ι : Type) where
  object : ι
  offset : ℕ
  deriving DecidableEq, Repr

namespace Pointer

variable {ι : Type}

/-- The position `distance` bytes further on. -/
def advance (p : Pointer ι) (distance : ℕ) : Pointer ι := ⟨p.object, p.offset + distance⟩

@[simp] theorem advance_offset (p : Pointer ι) (n : ℕ) :
    (p.advance n).offset = p.offset + n := rfl

@[simp] theorem advance_zero (p : Pointer ι) : p.advance 0 = p := rfl

theorem advance_advance (p : Pointer ι) (n m : ℕ) :
    (p.advance n).advance m = p.advance (n + m) := by
  rw [advance, advance, advance, Nat.add_assoc]

/-- A position behind another one in its object. -/
theorem eq_advance {p q : Pointer ι} (object : q.object = p.object) (behind : p.offset ≤ q.offset) :
    q = p.advance (q.offset - p.offset) := by
  rw [advance, ← object, Nat.add_sub_cancel' behind]

/-- The window of `n` bytes at `p` and that of `m` bytes at `q` share no byte. -/
def Apart (p : Pointer ι) (n : ℕ) (q : Pointer ι) (m : ℕ) : Prop :=
  p.object ≠ q.object ∨ p.offset + n ≤ q.offset ∨ q.offset + m ≤ p.offset

theorem Apart.symm {p q : Pointer ι} {n m : ℕ} (apart : p.Apart n q m) : q.Apart m p n := by
  rcases apart with other | before | behind
  · exact Or.inl other.symm
  · exact Or.inr (Or.inr before)
  · exact Or.inr (Or.inl behind)

/-- Parts of windows apart are apart. -/
theorem Apart.part {p q : Pointer ι} {n m i j n' m' : ℕ} (apart : p.Apart n q m)
    (hn : i + n' ≤ n) (hm : j + m' ≤ m) : (p.advance i).Apart n' (q.advance j) m' := by
  rcases apart with other | before | behind
  · exact Or.inl other
  · exact Or.inr (Or.inl (by simp only [advance_offset]; omega))
  · exact Or.inr (Or.inr (by simp only [advance_offset]; omega))

/-- A byte lies in a window or apart from it. -/
theorem inside_or_apart [DecidableEq ι] (p q : Pointer ι) (n : ℕ) :
    (∃ i < n, q = p.advance i) ∨ q.Apart 1 p n := by
  rcases eq_or_ne q.object p.object with object | other
  · rcases Nat.lt_or_ge q.offset p.offset with before | above
    · exact Or.inr (Or.inr (Or.inl before))
    · obtain ⟨i, offset⟩ := Nat.exists_eq_add_of_le above
      rcases Nat.lt_or_ge i n with inside | behind
      · refine Or.inl ⟨i, inside, ?_⟩
        rw [Pointer.advance, ← object, ← offset]
      · exact Or.inr (Or.inr (Or.inr (by omega)))
  · exact Or.inr (Or.inl other)

end Pointer

namespace ByteMemory

variable {ι : Type}

/-- The byte at a pointer. -/
def byte (memory : ByteMemory ι) (p : Pointer ι) : Option UInt8 := memory p.object p.offset

/-- Memories with the same bytes are equal. -/
theorem ext_byte {memory memory' : ByteMemory ι}
    (same : ∀ p, memory.byte p = memory'.byte p) : memory = memory' :=
  funext fun object => funext fun offset => same ⟨object, offset⟩

/-- The bytes stand at the pointer. -/
def Holds (memory : ByteMemory ι) (p : Pointer ι) (bytes : List UInt8) : Prop :=
  ∀ i < bytes.length, memory.byte (p.advance i) = bytes[i]?

/-- The object goes on for `size` bytes from the pointer. -/
def Room (memory : ByteMemory ι) (p : Pointer ι) (size : ℕ) : Prop :=
  ∀ i < size, (memory.byte (p.advance i)).isSome

instance (memory : ByteMemory ι) (p : Pointer ι) (bytes : List UInt8) :
    Decidable (memory.Holds p bytes) :=
  inferInstanceAs (Decidable (∀ i < bytes.length, memory.byte (p.advance i) = bytes[i]?))

instance (memory : ByteMemory ι) (p : Pointer ι) (size : ℕ) : Decidable (memory.Room p size) :=
  inferInstanceAs (Decidable (∀ i < size, (memory.byte (p.advance i)).isSome))

section Windows

variable {memory : ByteMemory ι} {p : Pointer ι} {bytes front back : List UInt8} {n m : ℕ}

theorem holds_nil (memory : ByteMemory ι) (p : Pointer ι) : memory.Holds p [] :=
  fun _ h => absurd h (Nat.not_lt_zero _)

theorem holds_append : memory.Holds p (front ++ back) ↔
    memory.Holds p front ∧ memory.Holds (p.advance front.length) back := by
  refine ⟨fun h => ⟨fun i hi => ?_, fun i hi => ?_⟩, fun ⟨h, h'⟩ i hi => ?_⟩
  · rw [h i (by rw [List.length_append]; omega), List.getElem?_append_left hi]
  · rw [Pointer.advance_advance, h _ (by rw [List.length_append]; omega),
      List.getElem?_append_right (Nat.le_add_right _ _), Nat.add_sub_cancel_left]
  · rw [List.length_append] at hi
    rcases Nat.lt_or_ge i front.length with before | behind
    · rw [List.getElem?_append_left before]
      exact h i before
    · obtain ⟨j, rfl⟩ := Nat.exists_eq_add_of_le behind
      rw [List.getElem?_append_right behind, Nat.add_sub_cancel_left, ← Pointer.advance_advance]
      exact h' j (by omega)

theorem holds_cons {b : UInt8} : memory.Holds p (b :: bytes) ↔
    memory.byte p = some b ∧ memory.Holds (p.advance 1) bytes := by
  have split : memory.Holds p ([b] ++ bytes) ↔ _ := holds_append
  refine split.trans (and_congr_left fun _ => ⟨fun h => h 0 Nat.one_pos, fun h i hi => ?_⟩)
  obtain rfl : i = 0 := Nat.lt_one_iff.1 hi
  exact h

theorem Holds.room (h : memory.Holds p bytes) : memory.Room p bytes.length := by
  intro i hi
  rw [h i hi, List.getElem?_eq_getElem hi]
  rfl

theorem room_succ : memory.Room p (n + 1) ↔
    (memory.byte p).isSome ∧ memory.Room (p.advance 1) n := by
  refine ⟨fun h => ⟨h 0 (Nat.succ_pos n), fun i hi => ?_⟩, fun ⟨first, rest⟩ i hi => ?_⟩
  · rw [Pointer.advance_advance, Nat.add_comm]
    exact h (i + 1) (Nat.succ_lt_succ hi)
  · cases i with
    | zero => exact first
    | succ i =>
        rw [Nat.add_comm, ← Pointer.advance_advance]
        exact rest i (Nat.lt_of_succ_lt_succ hi)

theorem room_one : memory.Room p 1 ↔ (memory.byte p).isSome := by
  rw [room_succ, and_iff_left_iff_imp]
  exact fun _ _ h => absurd h (Nat.not_lt_zero _)

theorem Room.part (h : memory.Room p n) {i : ℕ} (inside : i + m ≤ n) :
    memory.Room (p.advance i) m := by
  intro j hj
  rw [Pointer.advance_advance]
  exact h _ (by omega)

/-- What a window holds. -/
theorem Room.exists_holds (h : memory.Room p n) :
    ∃ bytes, bytes.length = n ∧ memory.Holds p bytes := by
  induction n generalizing p with
  | zero => exact ⟨[], rfl, holds_nil _ _⟩
  | succ n ih =>
      obtain ⟨there, rest⟩ := room_succ.1 h
      obtain ⟨b, first⟩ := Option.isSome_iff_exists.1 there
      obtain ⟨bytes, length, holds⟩ := ih rest
      exact ⟨b :: bytes, congrArg (· + 1) length, holds_cons.2 ⟨first, holds⟩⟩

/-- A window holds one list of bytes of each length. -/
theorem Holds.unique {bytes' : List UInt8} (h : memory.Holds p bytes) (h' : memory.Holds p bytes')
    (same : bytes.length = bytes'.length) : bytes = bytes' := by
  refine List.ext_getElem? fun i => ?_
  rcases Nat.lt_or_ge i bytes.length with inside | outside
  · rw [← h i inside, h' i (same ▸ inside)]
  · rw [List.getElem?_eq_none outside, List.getElem?_eq_none (same ▸ outside)]

/-- A window holds one string that ends at its first zero byte. -/
theorem Holds.unique_terminated {string string' : List UInt8} (noZero : 0 ∉ string)
    (noZero' : 0 ∉ string') (h : memory.Holds p (string ++ [0]))
    (h' : memory.Holds p (string' ++ [0])) : string = string' := by
  induction string generalizing string' p with
  | nil =>
      cases string' with
      | nil => rfl
      | cons b string' =>
          have first := (holds_cons.1 h).1.symm.trans (holds_cons.1 h').1
          cases first
          exact (noZero' List.mem_cons_self).elim
  | cons b string ih =>
      cases string' with
      | nil =>
          have first := (holds_cons.1 h).1.symm.trans (holds_cons.1 h').1
          cases first
          exact (noZero List.mem_cons_self).elim
      | cons b' string' =>
          obtain ⟨first, rest⟩ := holds_cons.1 h
          obtain ⟨first', rest'⟩ := holds_cons.1 h'
          have same : b = b' := Option.some.inj (first.symm.trans first')
          rw [same, ih (fun mem => noZero (List.mem_cons_of_mem _ mem))
            (fun mem => noZero' (List.mem_cons_of_mem _ mem)) rest rest']

/-- A part of what a window holds. -/
theorem Holds.drop (h : memory.Holds p bytes) (i : ℕ) (inside : i ≤ bytes.length) :
    memory.Holds (p.advance i) (bytes.drop i) := by
  rw [← List.take_append_drop i bytes] at h
  have rest := (holds_append.1 h).2
  rw [List.length_take_of_le inside] at rest
  exact rest

theorem Holds.take (h : memory.Holds p bytes) (i : ℕ) : memory.Holds p (bytes.take i) := by
  rw [← List.take_append_drop i bytes] at h
  exact (holds_append.1 h).1

/-- The bytes at a pointer, as far as there are some. -/
def read (memory : ByteMemory ι) : Pointer ι → ℕ → List UInt8
  | _, 0 => []
  | p, size + 1 => (memory.byte p).toList ++ memory.read (p.advance 1) size

theorem Holds.read_eq (h : memory.Holds p bytes) : memory.read p bytes.length = bytes := by
  induction bytes generalizing p with
  | nil => rfl
  | cons b bytes ih =>
      obtain ⟨first, rest⟩ := holds_cons.1 h
      rw [List.length_cons, read, first, ih rest]
      rfl

end Windows

/-! ## Overwriting -/

variable [DecidableEq ι]

/-- Replace the bytes at a pointer. -/
def overwrite (memory : ByteMemory ι) (p : Pointer ι) (bytes : List UInt8) : ByteMemory ι :=
  fun object offset =>
    if object = p.object ∧ p.offset ≤ offset ∧ offset < p.offset + bytes.length then
      bytes[offset - p.offset]?
    else memory object offset

section Overwrite

variable {memory : ByteMemory ι} {p q : Pointer ι} {bytes bytes' : List UInt8} {n : ℕ}

theorem overwrite_nil (memory : ByteMemory ι) (p : Pointer ι) : memory.overwrite p [] = memory := by
  funext object offset
  refine if_neg fun ⟨_, lower, upper⟩ => ?_
  rw [List.length_nil] at upper
  omega

/-- What was written is there. -/
theorem holds_overwrite (memory : ByteMemory ι) (p : Pointer ι) (bytes : List UInt8) :
    (memory.overwrite p bytes).Holds p bytes := by
  intro i hi
  rw [byte, overwrite, Pointer.advance_offset, if_pos ⟨rfl, Nat.le_add_right _ _, by omega⟩,
    Nat.add_sub_cancel_left]

/-- Writing what is there changes nothing. -/
theorem Holds.overwrite_self (h : memory.Holds p bytes) : memory.overwrite p bytes = memory := by
  funext object offset
  rw [ByteMemory.overwrite]
  split
  · rename_i inside
    obtain ⟨i, rfl⟩ := Nat.exists_eq_add_of_le inside.2.1
    rw [Nat.add_sub_cancel_left, ← h i (by omega), inside.1]
    rfl
  · rfl

/-- Bytes outside the window stay. -/
theorem byte_overwrite_of_apart (apart : q.Apart 1 p bytes.length) :
    (memory.overwrite p bytes).byte q = memory.byte q := by
  refine if_neg fun ⟨object, lower, upper⟩ => ?_
  rcases apart with other | before | behind
  · exact other object
  · omega
  · omega

theorem Holds.overwrite (h : memory.Holds q bytes')
    (apart : q.Apart bytes'.length p bytes.length) :
    (memory.overwrite p bytes).Holds q bytes' := by
  intro i hi
  have far : (q.advance i).Apart 1 p bytes.length := apart.part (j := 0) hi (Nat.zero_add _).le
  rw [byte_overwrite_of_apart far]
  exact h i hi

/-- Overwriting bytes that are there neither extends nor shortens an object. -/
theorem isSome_overwrite (room : memory.Room p bytes.length) (q : Pointer ι) :
    ((memory.overwrite p bytes).byte q).isSome = (memory.byte q).isSome := by
  rw [byte, ByteMemory.overwrite]
  split
  · rename_i inside
    rcases inside with ⟨object, lower, upper⟩
    obtain ⟨i, offset⟩ := Nat.exists_eq_add_of_le lower
    have there := room i (by omega)
    have same : p.advance i = q := by
      rw [Pointer.advance, ← object, ← offset]
    rw [same] at there
    rw [there, List.getElem?_eq_getElem (by omega)]
    rfl
  · rfl

theorem room_overwrite (room : memory.Room p bytes.length) :
    (memory.overwrite p bytes).Room q n ↔ memory.Room q n :=
  forall₂_congr fun i _ => by rw [isSome_overwrite room]

/-- Overwriting byte by byte is overwriting. -/
theorem overwrite_cons (memory : ByteMemory ι) (p : Pointer ι) (b : UInt8) (bytes : List UInt8) :
    (memory.overwrite p [b]).overwrite (p.advance 1) bytes = memory.overwrite p (b :: bytes) := by
  refine ext_byte fun q => ?_
  have whole := holds_overwrite memory p (b :: bytes)
  rcases Pointer.inside_or_apart p q (bytes.length + 1) with ⟨i, hi, rfl⟩ | apart
  · rw [whole i hi]
    cases i with
    | zero =>
        rw [byte_overwrite_of_apart (Or.inr (Or.inl (Nat.le_refl _)))]
        exact holds_overwrite memory p [b] 0 Nat.one_pos
    | succ i =>
        have rest := holds_overwrite (memory.overwrite p [b]) (p.advance 1) bytes i
          (Nat.lt_of_succ_lt_succ hi)
        rw [Pointer.advance_advance, Nat.add_comm] at rest
        rw [rest, List.getElem?_cons_succ]
  · have kept : (memory.overwrite p (b :: bytes)).byte q = memory.byte q :=
      byte_overwrite_of_apart apart
    rw [kept, byte_overwrite_of_apart, byte_overwrite_of_apart]
    · exact apart.part (i := 0) (j := 0) (Nat.le_refl 1) (by rw [List.length_singleton]; omega)
    · exact apart.part (i := 0) (Nat.le_refl 1) (Nat.add_comm _ _).le

/-- Overwriting in two parts. -/
theorem overwrite_append (memory : ByteMemory ι) (p : Pointer ι) (front back : List UInt8) :
    (memory.overwrite p front).overwrite (p.advance front.length) back =
      memory.overwrite p (front ++ back) := by
  induction front generalizing memory p with
  | nil => rw [overwrite_nil, List.length_nil, Pointer.advance_zero, List.nil_append]
  | cons b front ih =>
      have rest := ih (memory.overwrite p [b]) (p.advance 1)
      rw [overwrite_cons, Pointer.advance_advance, overwrite_cons, Nat.add_comm] at rest
      rw [List.length_cons, List.cons_append]
      exact rest

end Overwrite

/-! ## Windows of a memory -/

/-- The pointer lies in one of the windows. -/
def Within (windows : List (Pointer ι × ℕ)) (q : Pointer ι) : Prop :=
  ∃ window ∈ windows, window.1.object = q.object ∧ window.1.offset ≤ q.offset ∧
    q.offset < window.1.offset + window.2

instance (windows : List (Pointer ι × ℕ)) (q : Pointer ι) : Decidable (Within windows q) :=
  inferInstanceAs (Decidable (∃ window ∈ windows, window.1.object = q.object ∧
    window.1.offset ≤ q.offset ∧ q.offset < window.1.offset + window.2))

/-- The memory without the bytes outside the windows. -/
def only (memory : ByteMemory ι) (windows : List (Pointer ι × ℕ)) : ByteMemory ι :=
  fun object offset => if Within windows ⟨object, offset⟩ then memory object offset else none

section Only

variable {memory : ByteMemory ι} {windows : List (Pointer ι × ℕ)} {p : Pointer ι}
  {bytes : List UInt8} {n : ℕ}

theorem byte_only_of_within (within : Within windows p) :
    (memory.only windows).byte p = memory.byte p := if_pos within

theorem byte_only_of_outside (outside : ¬Within windows p) :
    (memory.only windows).byte p = none := if_neg outside

omit [DecidableEq ι] in
theorem within_of_window {i : ℕ} (window : (p, n) ∈ windows) (inside : i < n) :
    Within windows (p.advance i) :=
  ⟨(p, n), window, rfl, Nat.le_add_right _ _, Nat.add_lt_add_left inside _⟩

theorem byte_only {i : ℕ} (window : (p, n) ∈ windows) (inside : i < n) :
    (memory.only windows).byte (p.advance i) = memory.byte (p.advance i) :=
  byte_only_of_within (within_of_window window inside)

/-- What a part of the memory has, all of it has. -/
theorem byte_of_only {b : UInt8} (there : (memory.only windows).byte p = some b) :
    memory.byte p = some b := by
  by_cases within : Within windows p
  · rw [byte_only_of_within within] at there
    exact there
  · rw [byte_only_of_outside within] at there
    cases there

theorem Holds.of_only (h : (memory.only windows).Holds p bytes) : memory.Holds p bytes := by
  intro i hi
  have there := h i hi
  rw [List.getElem?_eq_getElem hi] at there ⊢
  exact byte_of_only there

theorem Holds.only_part {i : ℕ} (h : memory.Holds (p.advance i) bytes)
    (window : (p, n) ∈ windows) (inside : i + bytes.length ≤ n) :
    (memory.only windows).Holds (p.advance i) bytes := by
  intro j hj
  rw [Pointer.advance_advance, byte_only window (by omega), ← Pointer.advance_advance]
  exact h j hj

theorem Holds.only (h : memory.Holds p bytes) (window : (p, n) ∈ windows)
    (inside : bytes.length ≤ n) : (memory.only windows).Holds p bytes :=
  only_part (i := 0) h window (by omega)

theorem Room.only_part {m i : ℕ} (h : memory.Room (p.advance i) m) (window : (p, n) ∈ windows)
    (inside : i + m ≤ n) : (memory.only windows).Room (p.advance i) m := by
  intro j hj
  rw [Pointer.advance_advance, byte_only window (by omega), ← Pointer.advance_advance]
  exact h j hj

theorem Room.only (h : memory.Room p n) (window : (p, n) ∈ windows) :
    (memory.only windows).Room p n :=
  only_part (i := 0) h window (by omega)

/-- Overwriting inside the windows. -/
theorem only_overwrite (memory : ByteMemory ι)
    (inside : ∀ i < bytes.length, Within windows (p.advance i)) :
    (memory.only windows).overwrite p bytes = (memory.overwrite p bytes).only windows := by
  funext object offset
  rw [ByteMemory.overwrite, ByteMemory.only, ByteMemory.only, ByteMemory.overwrite]
  split
  · rename_i written
    obtain ⟨i, rfl⟩ := Nat.exists_eq_add_of_le written.2.1
    have within := inside i (by omega)
    rw [Pointer.advance, ← written.1] at within
    exact (if_pos within).symm
  · rfl

end Only

end ByteMemory
