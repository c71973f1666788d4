import ArkoiOs.Multiboot2.Accesses
import ArkoiOs.Multiboot2.Tags

/-!
# Memory while the parser works

`Parsed` says what the parser has built so far: the early heap is an arena of
pieces, the three lists of `boot_info_t` start in its fields, and memory outside
the heap and `boot_info_t` is as it was.  Writing fresh memory, linking a node
and setting one of the two strings keep it.
-/

namespace ArkoiOs

open Piece

/-- The lists of `boot_info_t`. -/
inductive BootList
  | ram
  | reserved
  | modules
  deriving DecidableEq, Repr

/-- What the parser writes: its part of the early heap, and `boot_info_t`. -/
structure BootAreas where
  heap : ℕ
  capacity : ℕ
  bootInfo : ℕ

/-- The field a list starts in. -/
def BootAreas.slot (areas : BootAreas) : BootList → ℕ
  | .ram => areas.bootInfo + 8
  | .reserved => areas.bootInfo + 12
  | .modules => areas.bootInfo + 16

/-- Bytes the parser does not write. -/
def BootAreas.Outside (areas : BootAreas) (position length : ℕ) : Prop :=
  (position + length ≤ areas.heap ∨ areas.heap + areas.capacity ≤ position) ∧
    (position + length ≤ areas.bootInfo ∨ areas.bootInfo + 20 ≤ position)

instance (areas : BootAreas) (position length : ℕ) : Decidable (areas.Outside position length) :=
  inferInstanceAs (Decidable ((position + length ≤ areas.heap ∨
    areas.heap + areas.capacity ≤ position) ∧
      (position + length ≤ areas.bootInfo ∨ areas.bootInfo + 20 ≤ position)))

theorem BootAreas.Outside.part {areas : BootAreas} {position length position' length' : ℕ}
    (outside : areas.Outside position length) (lower : position ≤ position')
    (upper : position' + length' ≤ position + length) : areas.Outside position' length' := by
  obtain ⟨heap, bootInfo⟩ := outside
  exact ⟨by omega, by omega⟩

/-- The areas are there, apart, and not at the null pointer. -/
structure BootAreas.Usable (areas : BootAreas) (memory : ByteMemory Unit) : Prop where
  heapRoom : memory.Room ⟨(), areas.heap⟩ areas.capacity
  bootRoom : memory.Room ⟨(), areas.bootInfo⟩ 20
  apart : areas.heap + areas.capacity ≤ areas.bootInfo ∨ areas.bootInfo + 20 ≤ areas.heap
  heapPos : 0 < areas.heap
  heapBound : areas.heap + areas.capacity < 2 ^ 32
  bootPos : 0 < areas.bootInfo
  bootBound : areas.bootInfo + 20 ≤ 2 ^ 32

/-- Memory `memory`, which was `before` at the start, when the parser has put
`pieces` into the heap and linked `tail` already. -/
structure Parsed (areas : BootAreas) (before memory : ByteMemory Unit)
    (pieces tail : List (Piece BootList)) (name commandLine : ℕ) : Prop where
  image : memory.Holds ⟨(), areas.heap⟩ (image tail areas.heap pieces)
  slots : ∀ list, memory.Holds ⟨(), areas.slot list⟩ (link (next list areas.heap (pieces ++ tail)))
  name : memory.Holds ⟨(), areas.bootInfo⟩ (link name)
  commandLine : memory.Holds ⟨(), areas.bootInfo + 4⟩ (link commandLine)
  same : ∀ position, areas.Outside position 1 →
    memory.byte ⟨(), position⟩ = before.byte ⟨(), position⟩
  exist : ∀ p, (memory.byte p).isSome = (before.byte p).isSome

theorem slot_bounds (areas : BootAreas) (list : BootList) :
    areas.bootInfo + 8 ≤ areas.slot list ∧ areas.slot list + 4 ≤ areas.bootInfo + 20 := by
  cases list <;> simp only [BootAreas.slot] <;> omega

theorem slot_apart (areas : BootAreas) {list list' : BootList} (other : list' ≠ list) :
    areas.slot list' + 4 ≤ areas.slot list ∨ areas.slot list + 4 ≤ areas.slot list' := by
  cases list <;> cases list' <;> simp only [BootAreas.slot] <;>
    first
      | omega
      | exact (other rfl).elim

namespace Parsed

variable {areas : BootAreas} {before memory : ByteMemory Unit} {pieces tail : List (Piece BootList)}
  {name commandLine position n : ℕ} {bytes : List UInt8} {list : BootList} {content : List UInt8}

theorem room (parsed : Parsed areas before memory pieces tail name commandLine) {p : Pointer Unit} :
    memory.Room p n ↔ before.Room p n :=
  forall₂_congr fun _ _ => by rw [parsed.exist]

/-- What stands outside stays. -/
theorem holds (parsed : Parsed areas before memory pieces tail name commandLine)
    (there : before.Holds ⟨(), position⟩ bytes) (outside : areas.Outside position bytes.length) :
    memory.Holds ⟨(), position⟩ bytes := by
  intro i hi
  have byte := parsed.same (position + i) ⟨by have := outside.1; omega, by have := outside.2; omega⟩
  exact byte.trans (there i hi)

/-- The part of the heap behind the pieces. -/
theorem heapRoom (parsed : Parsed areas before memory pieces tail name commandLine)
    (usable : areas.Usable before) (lower : areas.heap ≤ position)
    (upper : position + n ≤ areas.heap + areas.capacity) : memory.Room ⟨(), position⟩ n := by
  obtain ⟨i, rfl⟩ := Nat.exists_eq_add_of_le lower
  exact parsed.room.2 (usable.heapRoom.part (by omega))

theorem bootRoom (parsed : Parsed areas before memory pieces tail name commandLine)
    (usable : areas.Usable before) (lower : areas.bootInfo ≤ position)
    (upper : position + n ≤ areas.bootInfo + 20) : memory.Room ⟨(), position⟩ n := by
  obtain ⟨i, rfl⟩ := Nat.exists_eq_add_of_le lower
  exact parsed.room.2 (usable.bootRoom.part (by omega))

/-- Writing to the heap behind the pieces. -/
theorem fresh (parsed : Parsed areas before memory pieces tail name commandLine)
    (usable : areas.Usable before) (behind : areas.heap + extent pieces ≤ position)
    (inside : position + bytes.length ≤ areas.heap + areas.capacity) :
    Parsed areas before (memory.overwrite ⟨(), position⟩ bytes) pieces tail name commandLine := by
  have apart := usable.apart
  have room := parsed.heapRoom usable (n := bytes.length) (by omega) inside
  refine ⟨parsed.image.overwrite (apart_of ?_), fun list => ?_, parsed.name.overwrite (apart_of ?_),
    parsed.commandLine.overwrite (apart_of ?_), fun p outside => ?_, fun p => ?_⟩
  · rw [length_image]
    exact Or.inl behind
  · have bounds := slot_bounds areas list
    refine (parsed.slots list).overwrite (apart_of ?_)
    rw [length_link]
    omega
  · rw [length_link]
    omega
  · rw [length_link]
    omega
  · have far := outside.1
    rw [ByteMemory.byte_overwrite_of_apart (apart_of (by omega))]
    exact parsed.same p outside
  · rw [ByteMemory.isSome_overwrite room]
    exact parsed.exist p

/-- A piece that is linked already and stands behind the others is one more
piece. -/
theorem push {piece : Piece BootList}
    (parsed : Parsed areas before memory pieces (piece :: tail) name commandLine)
    (there : memory.Holds ⟨(), areas.heap + extent pieces⟩
      (Piece.image tail (areas.heap + extent pieces) [piece])) :
    Parsed areas before memory (pieces ++ [piece]) tail name commandLine where
  image := by
    rw [image_append]
    refine ByteMemory.holds_append.2 ⟨parsed.image, ?_⟩
    rw [length_image]
    exact there
  slots list := by
    rw [List.append_assoc]
    exact parsed.slots list
  name := parsed.name
  commandLine := parsed.commandLine
  same := parsed.same
  exist := parsed.exist

/-- A loose piece needs no link. -/
theorem loose (parsed : Parsed areas before memory pieces [] name commandLine) :
    Parsed areas before memory pieces [.loose bytes] name commandLine where
  image := by
    rw [image_of_none _ _ fun _ => rfl]
    exact parsed.image
  slots list := by
    rw [next_append_of_none _ _ rfl, ← List.append_nil pieces]
    exact parsed.slots list
  name := parsed.name
  commandLine := parsed.commandLine
  same := parsed.same
  exist := parsed.exist

theorem pushLoose (parsed : Parsed areas before memory pieces [] name commandLine)
    (there : memory.Holds ⟨(), areas.heap + extent pieces⟩ bytes) :
    Parsed areas before memory (pieces ++ [.loose bytes]) [] name commandLine := by
  refine parsed.loose.push ?_
  rw [image_loose]
  exact there

/-- A node that is linked already and stands behind the others. -/
theorem pushNode (parsed : Parsed areas before memory pieces [.node list content] name commandLine)
    (there : memory.Holds ⟨(), areas.heap + extent pieces⟩ (content ++ link 0)) :
    Parsed areas before memory (pieces ++ [.node list content]) [] name commandLine := by
  refine parsed.push ?_
  rw [image_node]
  exact there

/-- There is memory where a list ends. -/
theorem lastSlot_room (parsed : Parsed areas before memory pieces [] name commandLine)
    (usable : areas.Usable before) (fits : extent pieces ≤ areas.capacity) (list : BootList) :
    memory.Room ⟨(), lastSlot list (areas.slot list) areas.heap pieces⟩ 4 := by
  have bounds := slot_bounds areas list
  rcases lastSlot_cases list (areas.slot list) areas.heap pieces with same | inside
  · rw [same]
    exact parsed.bootRoom usable (by omega) (by omega)
  · exact parsed.heapRoom usable inside.1 (by omega)

/-- Linking a node that will stand behind the pieces. -/
theorem thread (parsed : Parsed areas before memory pieces [] name commandLine)
    (usable : areas.Usable before) (fits : extent pieces ≤ areas.capacity) (list : BootList)
    (content : List UInt8) :
    Parsed areas before
      (memory.overwrite ⟨(), lastSlot list (areas.slot list) areas.heap pieces⟩
        (link (areas.heap + extent pieces)))
      pieces [.node list content] name commandLine := by
  have apart := usable.apart
  have bounds := slot_bounds areas list
  have head := parsed.slots list
  rw [List.append_nil] at head
  obtain ⟨image', head'⟩ := parsed.image.thread content head (by omega)
  have place := lastSlot_cases list (areas.slot list) areas.heap pieces
  have room : memory.Room ⟨(), lastSlot list (areas.slot list) areas.heap pieces⟩
      (link (areas.heap + extent pieces)).length := by
    rw [length_link]
    exact parsed.lastSlot_room usable fits list
  refine ⟨image', fun list' => ?_, ?_, ?_, fun p outside => ?_, fun p => ?_⟩
  · by_cases same : list' = list
    · subst same
      exact head'
    · have other : contents list' [.node list content] = [] := if_neg (Ne.symm same)
      have far := slot_apart areas same
      have bounds' := slot_bounds areas list'
      have kept := parsed.slots list'
      rw [List.append_nil] at kept
      rw [next_append_of_none _ _ other]
      apply kept.overwrite_lastSlot <;> rw [length_link] <;> omega
  · apply parsed.name.overwrite_lastSlot <;> rw [length_link] <;> omega
  · apply parsed.commandLine.overwrite_lastSlot <;> rw [length_link] <;> omega
  · have far := outside.1
    have far' := outside.2
    rw [ByteMemory.byte_overwrite_of_apart]
    · exact parsed.same p outside
    · rw [length_link]
      apply apart_of
      omega
  · rw [ByteMemory.isSome_overwrite room]
    exact parsed.exist p

/-- Writing one of the strings of `boot_info_t`. -/
theorem setString (parsed : Parsed areas before memory pieces [] name commandLine)
    (usable : areas.Usable before) (fits : extent pieces ≤ areas.capacity)
    (field : position = areas.bootInfo ∨ position = areas.bootInfo + 4) (address : ℕ) :
    Parsed areas before (memory.overwrite ⟨(), position⟩ (link address)) pieces []
      (if position = areas.bootInfo then address else name)
      (if position = areas.bootInfo then commandLine else address) := by
  have apart := usable.apart
  have room : memory.Room ⟨(), position⟩ (link address).length := by
    rw [length_link]
    exact parsed.bootRoom usable (by omega) (by omega)
  have written := ByteMemory.holds_overwrite memory ⟨(), position⟩ (link address)
  refine ⟨parsed.image.overwrite (apart_of ?_), fun list => ?_, ?_, ?_, fun p outside => ?_,
    fun p => ?_⟩
  · rw [length_image, length_link]
    omega
  · have bounds := slot_bounds areas list
    refine (parsed.slots list).overwrite (apart_of ?_)
    rw [length_link, length_link]
    omega
  · split
    · rename_i same
      rw [← same]
      exact written
    · refine parsed.name.overwrite (apart_of ?_)
      rw [length_link, length_link]
      omega
  · split
    · refine parsed.commandLine.overwrite (apart_of ?_)
      rw [length_link, length_link]
      omega
    · rename_i other
      rw [← field.resolve_left other]
      exact written
  · have far := outside.2
    rw [ByteMemory.byte_overwrite_of_apart]
    · exact parsed.same p outside
    · rw [length_link]
      apply apart_of
      omega
  · rw [ByteMemory.isSome_overwrite room]
    exact parsed.exist p

end Parsed

end ArkoiOs
