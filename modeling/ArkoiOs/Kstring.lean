import ArkoiOs.Kmemory

/-!
# Strings

`kstrlen` of `lib/kstring.c` on a memory of objects.
-/

namespace ArkoiOs

variable {ι : Type}

/-- The loop of `kstrlen`; its counter wraps at 2^32. -/
def kstrlenLoop (input : Pointer ι) : ℕ → UInt32 → KernelM (ByteMemory ι) UInt32
  | 0, _ => throw .hang
  | fuel + 1, length => do
      let byte ← loadByte (input.advance length.toNat)
      if byte ≠ 0 then kstrlenLoop input fuel (length + 1) else pure length

/-- `kstrlen`, for as many rounds as there is fuel. -/
def kstrlen (fuel : ℕ) (input : Pointer ι) : KernelM (ByteMemory ι) UInt32 :=
  kstrlenLoop input fuel 0

/-- The loop runs from any byte of a string to its terminator. -/
theorem kstrlenLoop_eq {memory : ByteMemory ι} {input : Pointer ι} {string : List UInt8}
    (noZero : 0 ∉ string) {fuel : ℕ} (enough : string.length < fuel) {length : UInt32}
    (holds : memory.Holds (input.advance length.toNat) (string ++ [0]))
    (bound : length.toNat + string.length < 2 ^ 32) :
    kstrlenLoop input fuel length memory =
      .ok (UInt32.ofNat (length.toNat + string.length)) memory := by
  induction string generalizing fuel length with
  | nil =>
      cases fuel with
      | zero => exact absurd enough (Nat.not_lt_zero _)
      | succ fuel =>
          rw [kstrlenLoop, Machine.bind_of_ok (loadByte_of_some (ByteMemory.holds_cons.1 holds).1),
            if_neg (not_not.2 rfl), List.length_nil, Nat.add_zero, UInt32.ofNat_toNat]
          rfl
  | cons b string ih =>
      cases fuel with
      | zero => exact absurd enough (Nat.not_lt_zero _)
      | succ fuel =>
          obtain ⟨first, rest⟩ := ByteMemory.holds_cons.1 holds
          rw [List.length_cons] at enough bound
          have nonzero : b ≠ 0 := fun zero => noZero (zero ▸ List.mem_cons_self)
          have counted : (length + 1).toNat = length.toNat + 1 :=
            toNat_add_of_lt rfl rfl (by omega)
          rw [Pointer.advance_advance, ← counted] at rest
          rw [kstrlenLoop, Machine.bind_of_ok (loadByte_of_some first), if_pos nonzero,
            ih (fun mem => noZero (List.mem_cons_of_mem _ mem)) (Nat.lt_of_succ_lt_succ enough) rest
              (by omega), counted, List.length_cons, Nat.add_assoc, Nat.add_comm 1]

/-- `kstrlen` counts the bytes in front of the terminator. -/
theorem kstrlen_eq {memory : ByteMemory ι} {input : Pointer ι} {string : List UInt8}
    (holds : memory.Holds input (string ++ [0])) (noZero : 0 ∉ string)
    (bound : string.length < 2 ^ 32) {fuel : ℕ} (enough : string.length < fuel) :
    kstrlen fuel input memory = .ok (UInt32.ofNat string.length) memory := by
  have first : memory.Holds (input.advance (0 : UInt32).toNat) (string ++ [0]) := holds
  have counted := kstrlenLoop_eq noZero enough first (by rw [UInt32.toNat_zero]; omega)
  rw [UInt32.toNat_zero, Nat.zero_add] at counted
  exact counted

/-! ## Any bytes -/

section AnyBytes

variable {memory : ByteMemory ι} {input : Pointer ι} {E : Fault → Prop}

/-- A terminated string goes on where only bytes other than zero were read. -/
theorem isSome_of_terminated {front string : List UInt8} (holds : memory.Holds input front)
    (noZero : 0 ∉ front) (terminated : memory.Holds input (string ++ [0])) :
    (memory.byte (input.advance front.length)).isSome := by
  have room := terminated.room
  rw [List.length_append, List.length_singleton] at room
  rcases Nat.lt_or_ge string.length front.length with shorter | within
  · have zero := terminated string.length (by
      rw [List.length_append]
      exact Nat.lt_succ_self _)
    rw [holds string.length shorter, List.getElem?_append_right (Nat.le_refl _),
      Nat.sub_self] at zero
    exact (noZero (List.mem_of_getElem? zero)).elim
  · exact room front.length (Nat.lt_succ_of_le within)

/-- From any byte on the loop finds the terminator, or misses a byte in front of it, if not all
of the 2^32 bytes are there and other than zero. -/
theorem kstrlenLoop_ends
    (finite : ∃ i < 2 ^ 32, ∀ byte ∈ memory.byte (input.advance i), byte = 0)
    (reads : E .outOfBounds ∨ ∃ string, memory.Holds input (string ++ [0])) {fuel : ℕ}
    {length : UInt32} {front : List UInt8} (holds : memory.Holds input front) (noZero : 0 ∉ front)
    (here : length.toNat = front.length) (enough : 2 ^ 32 ≤ fuel + front.length) :
    Machine.Ends (fun result memory' => memory = memory' ∧ ∃ string, 0 ∉ string ∧
      memory.Holds input (string ++ [0]) ∧ string.length = result.toNat) E
      (kstrlenLoop input fuel length memory) := by
  induction fuel generalizing length front with
  | zero =>
      have width := length.toNat_lt
      omega
  | succ fuel ih =>
      have width := length.toNat_lt
      have reads' : E .outOfBounds ∨ (memory.byte (input.advance length.toNat)).isSome := by
        refine reads.imp_right fun ⟨string, terminated⟩ => ?_
        rw [here]
        exact isSome_of_terminated holds noZero terminated
      refine (loadByte_ends reads').bind fun byte _ ⟨same, there⟩ => ?_
      subst same
      have longer : memory.Holds input (front ++ [byte]) := by
        refine ByteMemory.holds_append.2 ⟨holds, ByteMemory.holds_cons.2 ⟨?_, ?_⟩⟩
        · rw [← here]
          exact there
        · exact ByteMemory.holds_nil _ _
      by_cases zero : byte = 0
      · rw [if_neg (not_not.2 zero)]
        rw [zero] at longer
        exact ⟨rfl, front, noZero, longer, here.symm⟩
      · rw [if_pos zero]
        have others : 0 ∉ front ++ [byte] := by
          intro mem
          rcases List.mem_append.1 mem with mem | mem
          · exact noZero mem
          · exact zero (List.mem_singleton.1 mem).symm
        have more : length.toNat + 1 < 2 ^ 32 := by
          by_contra full
          obtain ⟨i, below, stops⟩ := finite
          have inside : i < (front ++ [byte]).length := by
            rw [List.length_append, List.length_singleton, ← here]
            omega
          have there := longer i inside
          rw [List.getElem?_eq_getElem inside] at there
          exact others (stops _ there ▸ List.getElem_mem inside)
        have next : (length + 1).toNat = (front ++ [byte]).length := by
          rw [List.length_append, List.length_singleton, ← here]
          exact toNat_add_of_lt rfl rfl more
        refine ih longer others next ?_
        rw [List.length_append, List.length_singleton]
        omega

/-- `kstrlen` of anything counts the bytes in front of a terminator, where there is one. -/
theorem kstrlen_ends
    (finite : ∃ i < 2 ^ 32, ∀ byte ∈ memory.byte (input.advance i), byte = 0) {fuel : ℕ}
    (enough : 2 ^ 32 ≤ fuel)
    (reads : E .outOfBounds ∨ ∃ string, memory.Holds input (string ++ [0])) :
    Machine.Ends (fun result memory' => memory = memory' ∧ ∃ string, 0 ∉ string ∧
      memory.Holds input (string ++ [0]) ∧ string.length = result.toNat) E
      (kstrlen fuel input memory) :=
  kstrlenLoop_ends finite reads (ByteMemory.holds_nil _ _) List.not_mem_nil rfl enough

end AnyBytes

/-! ## Parts of memory -/

section Parts

variable [DecidableEq ι] {windows : List (Pointer ι × ℕ)}

theorem kstrlenLoop_inPart (input : Pointer ι) (fuel : ℕ) (length : UInt32) :
    InPart windows (kstrlenLoop input fuel length) := by
  induction fuel generalizing length with
  | zero => exact .throw _
  | succ fuel ih => exact (loadByte_inPart _).bind fun _ => .ite (ih _) (.pure _)

theorem kstrlen_inPart (fuel : ℕ) (input : Pointer ι) : InPart windows (kstrlen fuel input) :=
  kstrlenLoop_inPart input fuel 0

end Parts

end ArkoiOs
