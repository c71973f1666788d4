import ArkoiOs.Library.ListWalk
import ArkoiOs.Multiboot2.Handlers

/-!
# What the handlers do on any bytes

The parser between two steps, whatever the information structure holds: the heap
is an arena of pieces and the lists are linked, so that no walk goes astray.
Each handler returns with more pieces or stops with a fault of `E`, which has
the panics, and the access out of bounds unless the handler finds its bytes.
-/

namespace ArkoiOs

open Piece

/-- The early heap ends so far below 2^32 that no request for a region or a module wraps, and
addresses have 32 bits. -/
structure BootAreas.NoWrap (areas : BootAreas) (memory : ByteMemory Unit) : Prop where
  small : areas.heap + areas.capacity + 20 < 2 ^ 32
  addressable : memory.Addressable

/-- The parser between two steps, with all of the early heap in its areas. -/
structure AtWork (areas : BootAreas) (before : ByteMemory Unit) (s : BootState)
    (pieces : List (Piece BootList)) : Prop where
  progress : ∃ name commandLine, Progress areas before s pieces name commandLine
  whole : s.emm.end_.toNat = areas.heap + areas.capacity
  fits : extent pieces ≤ areas.capacity

/-- The rounds of the loop of `parse_memory_map` from `current` on find their entries, and
the entry size is not written over. -/
def EntriesReadable (areas : BootAreas) (before : ByteMemory Unit) (tag end_ current : UInt32) :
    Prop :=
  current < end_ → ∃ entrySize, areas.Outside (tag + 8).toNat 4 ∧
    before.Holds ⟨(), (tag + 8).toNat⟩ (bytes32 entrySize) ∧
    ∀ k : ℕ, (∀ j ≤ k, current + UInt32.ofNat j * entrySize < end_) →
      (current + UInt32.ofNat k * entrySize).toNat + 20 ≤ 2 ^ 32 ∧
        before.Room ⟨(), (current + UInt32.ofNat k * entrySize).toNat⟩ 20

/-- The size of the memory map is not written over, and the loop finds its entries. -/
def MapReadable (areas : BootAreas) (before : ByteMemory Unit) (tag : UInt32) : Prop :=
  ∃ size, areas.Outside (tag + 4).toNat 4 ∧ before.Holds ⟨(), (tag + 4).toNat⟩ (bytes32 size) ∧
    EntriesReadable areas before tag (tag + size) (tag + 16)

/-- A terminated string that is not written over. -/
def StringReadable (areas : BootAreas) (before : ByteMemory Unit) (source : UInt32) : Prop :=
  ∃ string, areas.Outside source.toNat (string.length + 1) ∧
    before.Holds ⟨(), source.toNat⟩ (string ++ [0])

/-- The range and the command line of a module. -/
def ModuleReadable (areas : BootAreas) (before : ByteMemory Unit) (tag : UInt32) : Prop :=
  tag.toNat + 16 ≤ 2 ^ 32 ∧ before.Room ⟨(), tag.toNat + 8⟩ 8 ∧
    StringReadable areas before (tag + 16)

/-- What the handler of the tag reads is there. -/
def TagReadable (areas : BootAreas) (before : ByteMemory Unit) (type tag : UInt32) : Prop :=
  if type = multiboot2TagTypeMemoryMap then MapReadable areas before tag
  else if type = multiboot2TagTypeCommandLine then StringReadable areas before (tag + 8)
  else if type = multiboot2TagTypeModule then ModuleReadable areas before tag
  else if type = multiboot2TagTypeBootLoaderName then StringReadable areas before (tag + 8)
  else True

/-- The request for a copy of the string does not wrap. -/
def CopyFits (fuel : ℕ) (source : UInt32) (s : BootState) : Prop :=
  ∀ length t, onMemory (kstrlen fuel (pointerTo source)) s = .ok length t →
    s.emm.cursor.toNat + (length.toNat + 1) < 2 ^ 32

/-- `parse_module` up to the copy of the command line; it returns the module. -/
def moduleNode (fuel : ℕ) (tag bootInfo : UInt32) : KernelM BootState UInt32 := do
  let mod ← onEarlyHeap (emmAlloc sizeofBootModule)
  let modStart ← load32 (tag + 8)
  store32 mod modStart
  let modEnd ← load32 (tag + 12)
  store32 (mod + 4) modEnd
  store32 (mod + 12) 0
  appendNode fuel 12 (bootInfo + 16) mod
  pure mod

/-- The requests of the handler of the tag for strings do not wrap. -/
structure RequestsFit (fuel : ℕ) (type tag bootInfo : UInt32) (s : BootState) : Prop where
  string : type = multiboot2TagTypeCommandLine ∨ type = multiboot2TagTypeBootLoaderName →
    CopyFits fuel (tag + 8) s
  module : type = multiboot2TagTypeModule → ∀ mod t, moduleNode fuel tag bootInfo s = .ok mod t →
    CopyFits fuel (tag + 16) t

theorem parseModule_eq (fuel : ℕ) (tag bootInfo : UInt32) :
    parseModule fuel tag bootInfo = (do
      let mod ← moduleNode fuel tag bootInfo
      copyString fuel (mod + 8) (tag + 16)) := by
  unfold parseModule moduleNode
  simp only [bind_assoc, pure_bind]

/-- The handler of the tag takes nothing from the early heap: there is none, or the memory map
has no entry. -/
def IdleTag (memory : ByteMemory Unit) (type tag : UInt32) : Prop :=
  if type = multiboot2TagTypeMemoryMap then
    ∃ size, memory.Holds ⟨(), (tag + 4).toNat⟩ (bytes32 size) ∧ ¬tag + 16 < tag + size
  else type ≠ multiboot2TagTypeCommandLine ∧ type ≠ multiboot2TagTypeModule ∧
    type ≠ multiboot2TagTypeBootLoaderName

theorem bytes32_inj {value value' : UInt32} (same : bytes32 value = bytes32 value') :
    value = value' :=
  UInt32.toNat_inj.1 (LittleEndian.encode_inj value.toNat_lt value'.toNat_lt same)

/-- Behind one entry the others are found. -/
theorem EntriesReadable.next {areas : BootAreas} {before : ByteMemory Unit}
    {tag end_ current entrySize : UInt32} (readable : EntriesReadable areas before tag end_ current)
    (more : current < end_)
    (size : before.Holds ⟨(), (tag + 8).toNat⟩ (bytes32 entrySize)) :
    EntriesReadable areas before tag end_ (current + entrySize) := by
  intro _
  obtain ⟨entrySize', outside, size', entries⟩ := readable more
  obtain rfl : entrySize' = entrySize := bytes32_inj (size'.unique size (by simp [length_bytes32]))
  have shift : ∀ j : ℕ, current + entrySize' + UInt32.ofNat j * entrySize' =
      current + UInt32.ofNat (j + 1) * entrySize' := by
    intro j
    rw [UInt32.ofNat_add, UInt32.add_mul, UInt32.add_assoc, UInt32.add_comm entrySize']
    rw [show UInt32.ofNat 1 = 1 from rfl, UInt32.one_mul]
  refine ⟨entrySize', outside, size, fun k before_ => ?_⟩
  rw [shift]
  refine entries (k + 1) fun j le => ?_
  cases j with
  | zero =>
      rw [show UInt32.ofNat 0 = 0 from rfl, UInt32.zero_mul, UInt32.add_zero]
      exact more
  | succ j =>
      rw [← shift]
      exact before_ j (Nat.le_of_succ_le_succ le)

/-- Any four bytes are a word. -/
theorem bytes32_decode {bytes : List UInt8} (length : bytes.length = 4) :
    bytes32 (UInt32.ofNat (LittleEndian.decode bytes)) = bytes := by
  have small := LittleEndian.decode_lt bytes
  rw [length] at small
  rw [bytes32, UInt32.toNat_ofNat_of_lt' small, ← length, LittleEndian.encode_decode]

/-! ## Loads -/

section Loads

variable {s : BootState} {address : UInt32} {E : Fault → Prop}

theorem load32_ends (reads : E .outOfBounds ∨ s.memory.Room ⟨(), address.toNat⟩ 4) :
    Machine.Ends (fun value s' => s = s' ∧ s.memory.Holds ⟨(), address.toNat⟩ (bytes32 value)) E
      (load32 address s) := by
  have bytes : Machine.Ends _ E (loadBytes 4 (pointerTo address) s.memory) := loadBytes_ends reads
  refine (onMemory_ends bytes).bind fun bytes s' ⟨memory, same, unchanged, length, holds⟩ => ?_
  subst same unchanged
  refine ⟨rfl, ?_⟩
  rw [bytes32_decode length]
  exact holds

theorem load64_ends (reads : E .outOfBounds ∨ s.memory.Room ⟨(), address.toNat⟩ 8) :
    Machine.Ends (fun _ s' => s = s') E (load64 address s) := by
  have bytes : Machine.Ends _ E (loadBytes 8 (pointerTo address) s.memory) := loadBytes_ends reads
  refine (onMemory_ends bytes).bind fun bytes s' ⟨memory, same, unchanged, _, _⟩ => ?_
  subst same unchanged
  rfl

end Loads

/-! ## The early heap -/

section Handlers

variable {areas : BootAreas} {before : ByteMemory Unit} {s : BootState}
  {pieces : List (Piece BootList)} {fuel : ℕ} {E : Fault → Prop}

theorem AtWork.room (work : AtWork areas before s pieces) {p : Pointer Unit} {n : ℕ} :
    s.memory.Room p n ↔ before.Room p n := by
  obtain ⟨name, commandLine, progress⟩ := work.progress
  exact progress.parsed.room

theorem AtWork.cursor (work : AtWork areas before s pieces) :
    s.emm.cursor.toNat = areas.heap + extent pieces := by
  obtain ⟨name, commandLine, progress⟩ := work.progress
  exact progress.cursor

/-- Some list ends with a zero. -/
theorem AtWork.exists_zero (work : AtWork areas before s pieces) (usable : areas.Usable before) :
    ∃ position, s.memory.Holds ⟨(), position⟩ (link 0) := by
  have bound := usable.heapBound
  have fits := work.fits
  obtain ⟨name, commandLine, progress⟩ := work.progress
  have head := progress.parsed.slots .ram
  rw [List.append_nil] at head
  have linked : s.memory.LinkedList () (next .ram areas.heap pieces) (contents .ram pieces) :=
    progress.parsed.image.linkedList usable.heapPos (by omega)
  rcases linked.exists_end with none | last
  · rw [none] at head
    exact ⟨_, head⟩
  · exact last

/-- A scan from any address stops at a zero, or behind the last address. -/
theorem scan_stops {memory : ByteMemory Unit} (addressable : memory.Addressable)
    (zero : ∃ position, memory.Holds ⟨(), position⟩ (link 0)) (source : UInt32) :
    ∃ i < 2 ^ 32, ∀ byte ∈ memory.byte ((pointerTo source).advance i), byte = 0 := by
  obtain ⟨position, holds⟩ := zero
  have there : memory.byte ⟨(), position⟩ = some 0 := holds 0 (by decide)
  rcases Nat.eq_zero_or_pos source.toNat with first | positive
  · refine ⟨position, addressable ⟨(), position⟩ (by rw [there]; rfl), fun byte mem => ?_⟩
    have same : (pointerTo source).advance position = ⟨(), position⟩ := by
      rw [pointerTo_of_toNat first]
      exact congrArg (Pointer.mk ()) (Nat.zero_add position)
    rw [same, there] at mem
    exact (Option.some.inj mem).symm
  · have width := source.toNat_lt
    refine ⟨2 ^ 32 - source.toNat, by omega, fun byte mem => ?_⟩
    have inside := addressable _ (Option.isSome_of_mem mem)
    have beyond : source.toNat + (2 ^ 32 - source.toNat) < 2 ^ 32 := inside
    omega

theorem Parsed.addressable {memory : ByteMemory Unit} {tail : List (Piece BootList)}
    {name commandLine : ℕ} (parsed : Parsed areas before memory pieces tail name commandLine)
    (addressable : before.Addressable) : memory.Addressable :=
  fun p there => addressable p (parsed.exist p ▸ there)

theorem AtWork.addressable (work : AtWork areas before s pieces) (noWrap : areas.NoWrap before) :
    s.memory.Addressable := by
  obtain ⟨name, commandLine, progress⟩ := work.progress
  exact progress.parsed.addressable noWrap.addressable

/-- An allocation has room, or panics. -/
theorem onEarlyHeap_ends {size : UInt32} {amount : ℕ} (bytes : size.toNat = amount)
    (panics : ∀ message args, E (.panic message args))
    (noWrap : s.emm.cursor.toNat + amount < 2 ^ 32) :
    s.emm.cursor.toNat + amount ≤ s.emm.end_.toNat ∨
      ∃ e, onEarlyHeap (emmAlloc size) s = .error e s ∧ E e := by
  rcases Nat.lt_or_ge s.emm.end_.toNat (s.emm.cursor.toNat + amount) with full | room
  · have beyond : s.emm.end_ < s.emm.cursor + size := by
      rw [UInt32.lt_iff_toNat_lt, toNat_add_of_lt rfl bytes noWrap]
      exact full
    exact Or.inr ⟨_, Machine.zoom_of_error rfl (emmAlloc_exhausted beyond), panics _ _⟩
  · exact Or.inl room

variable (work : AtWork areas before s pieces) (usable : areas.Usable before)
  (noWrap : areas.NoWrap before) (panics : ∀ message args, E (.panic message args))
  (enough : 2 ^ 32 ≤ fuel)

/-! ## Entries -/

include work usable noWrap panics enough

/-- The entry becomes a region of 20 bytes. -/
theorem AtWork.parseEntry {current bootInfo : UInt32} (hboot : bootInfo.toNat = areas.bootInfo)
    (reads : E .outOfBounds ∨
      current.toNat + 20 ≤ 2 ^ 32 ∧ before.Room ⟨(), current.toNat⟩ 20) :
    Machine.Ends (fun _ s' => ∃ piece, piece.size = 20 ∧
      AtWork areas before s' (pieces ++ [piece])) E
      (ArkoiOs.parseEntry fuel current bootInfo s) := by
  have heapBound := usable.heapBound
  have small := noWrap.small
  obtain ⟨name, commandLine, progress⟩ := work.progress
  have field : ∀ (offset : UInt32) (n : ℕ), offset.toNat + n ≤ 20 → E .outOfBounds ∨
      s.memory.Room ⟨(), (current + offset).toNat⟩ n := by
    intro offset n inside
    refine reads.imp_right fun ⟨below, room⟩ => ?_
    rcases Nat.eq_zero_or_pos n with rfl | positive
    · exact fun _ none => absurd none (Nat.not_lt_zero _)
    · rw [toNat_add_of_lt rfl rfl (by omega)]
      exact work.room.2 (room.part inside)
  have first : E .outOfBounds ∨ s.memory.Room ⟨(), current.toNat⟩ 8 :=
    reads.imp_right fun ⟨_, room⟩ => work.room.2 (room.part (i := 0) (by omega))
  rcases (load64_ends first).ok_or_error with ⟨base, _, load₁, rfl⟩ | ⟨e, _, fault, stops⟩
  swap
  · unfold ArkoiOs.parseEntry
    rw [Machine.bind_of_error fault]
    exact stops
  rcases (load64_ends (field 8 8 (by decide))).ok_or_error with
    ⟨length, _, load₂, rfl⟩ | ⟨e, _, fault, stops⟩
  swap
  · unfold ArkoiOs.parseEntry
    rw [Machine.bind_of_ok load₁, Machine.bind_of_error fault]
    exact stops
  rcases (load32_ends (field 16 4 (by decide))).ok_or_error with
    ⟨type, _, load₃, rfl, _⟩ | ⟨e, _, fault, stops⟩
  swap
  · unfold ArkoiOs.parseEntry
    rw [Machine.bind_of_ok load₁, Machine.bind_of_ok load₂, Machine.bind_of_error fault]
    exact stops
  have cursor := work.cursor
  have whole := work.whole
  have fits := work.fits
  have amount : sizeofBootMemoryRegion.toNat = 20 := rfl
  rcases onEarlyHeap_ends amount panics (show s.emm.cursor.toNat + 20 < 2 ^ 32 by omega) with
    room | ⟨e, fault, stops⟩
  · have more : extent pieces + 20 ≤ areas.capacity := by omega
    have short : extent pieces < fuel := by omega
    obtain ⟨s', run, kept, progress'⟩ := @Progress.withRegion _ _ _ _ _ _ _ progress
      usable ⟨base, length, type, []⟩ _ _ load₁ load₂ load₃ more short hboot
    rw [run]
    refine ⟨_, MemoryMapEntry.size_piece _, ⟨_, _, progress'⟩, kept ▸ whole, ?_⟩
    rw [extent_append, extent_cons, extent_nil, MemoryMapEntry.size_piece]
    omega
  · unfold ArkoiOs.parseEntry
    rw [Machine.bind_of_ok load₁, Machine.bind_of_ok load₂, Machine.bind_of_ok load₃,
      Machine.bind_of_error fault]
    exact stops

/-- The loop ends with the early heap at the latest: each round takes 20 bytes of it. -/
theorem AtWork.parseMemoryMapLoop {tag bootInfo end_ current : UInt32} {rounds : ℕ}
    (more : areas.capacity < extent pieces + 20 * rounds)
    (hboot : bootInfo.toNat = areas.bootInfo)
    (reads : E .outOfBounds ∨ EntriesReadable areas before tag end_ current) :
    Machine.Ends (fun _ s' => ∃ new, AtWork areas before s' (pieces ++ new) ∧
      (current < end_ → 0 < extent new) ∧ (¬current < end_ → s' = s)) E
      (ArkoiOs.parseMemoryMapLoop fuel tag bootInfo end_ rounds current s) := by
  induction rounds generalizing s pieces current with
  | zero =>
      have fits := work.fits
      omega
  | succ rounds ih =>
      rw [ArkoiOs.parseMemoryMapLoop]
      by_cases inside : current < end_
      · rw [if_pos inside]
        have entry : E .outOfBounds ∨
            current.toNat + 20 ≤ 2 ^ 32 ∧ before.Room ⟨(), current.toNat⟩ 20 := by
          refine reads.imp_right fun readable => ?_
          obtain ⟨entrySize, -, -, entries⟩ := readable inside
          have first := entries 0 fun j le => by
            rw [Nat.le_zero.1 le, show UInt32.ofNat 0 = 0 from rfl, UInt32.zero_mul,
              UInt32.add_zero]
            exact inside
          rw [show UInt32.ofNat 0 = 0 from rfl, UInt32.zero_mul, UInt32.add_zero] at first
          exact first
        refine (work.parseEntry usable noWrap panics enough hboot entry).bind ?_
        rintro _ s₁ ⟨piece, size, work₁⟩
        have grown : extent (pieces ++ [piece]) = extent pieces + 20 := by
          rw [extent_append, extent_cons, extent_nil, size]
        have field : E .outOfBounds ∨ s₁.memory.Room ⟨(), (tag + 8).toNat⟩ 4 := by
          refine reads.imp_right fun readable => ?_
          obtain ⟨entrySize, -, there, -⟩ := readable inside
          have room := there.room
          rw [length_bytes32] at room
          exact work₁.room.2 room
        refine (load32_ends field).bind ?_
        rintro entrySize s₂ ⟨same, loaded⟩
        subst same
        have next : E .outOfBounds ∨
            EntriesReadable areas before tag end_ (current + entrySize) := by
          refine reads.imp_right fun readable => ?_
          obtain ⟨entrySize', outside, there, -⟩ := readable inside
          obtain ⟨name, commandLine, progress⟩ := work₁.progress
          have kept := progress.parsed.holds there (by rw [length_bytes32]; exact outside)
          obtain rfl : entrySize' = entrySize :=
            bytes32_inj (kept.unique loaded (by simp [length_bytes32]))
          exact readable.next inside there
        refine (ih work₁ (by omega) next).mono ?_
        rintro _ s' ⟨new, work', -, -⟩
        refine ⟨piece :: new, ?_, fun _ => ?_, fun outside => absurd inside outside⟩
        · rw [List.append_assoc] at work'
          exact work'
        · rw [extent_cons, size]
          omega
      · rw [if_neg inside]
        refine ⟨[], ?_, fun more => absurd more inside, fun _ => rfl⟩
        rw [List.append_nil]
        exact work

omit work usable noWrap panics enough in
/-- The end of the copy of a string: the field is set, and some bytes and a zero go to fresh
memory. -/
theorem copyString_rest {field source length : UInt32} {f c n : ℕ} {emm : Emm}
    (hf : field.toNat = f) (hc : s.emm.cursor.toNat = c) (cPos : 0 < c)
    (hlength : length.toNat = n) (below : c + n < 2 ^ 32)
    (alloc : onEarlyHeap (emmAlloc (length + 1)) s = .ok s.emm.cursor { s with emm := emm })
    (counted : onMemory (kstrlen fuel (pointerTo source)) s = .ok length s)
    (fieldRoom : s.memory.Room ⟨(), f⟩ 4) (copyRoom : s.memory.Room ⟨(), c⟩ (n + 1))
    (sourceRoom : s.memory.Room ⟨(), source.toNat⟩ n)
    (fieldCopy : f + 4 ≤ c ∨ c + (n + 1) ≤ f) :
    ∃ bytes, bytes.length = n + 1 ∧ copyString fuel field source s = .ok ()
      ⟨(s.memory.overwrite ⟨(), f⟩ (link c)).overwrite ⟨(), c⟩ bytes, emm⟩ := by
  have stored := store32_of_room (s := ⟨s.memory, emm⟩) s.emm.cursor hf fieldRoom
  rw [bytes32_eq_link hc] at stored
  have pointer := ByteMemory.holds_overwrite s.memory ⟨(), f⟩ (link c)
  have rooms : ∀ p k, (s.memory.overwrite ⟨(), f⟩ (link c)).Room p k ↔ s.memory.Room p k :=
    fun p k => ByteMemory.room_overwrite (by rw [length_link]; exact fieldRoom)
  unfold copyString
  rw [Machine.bind_of_ok counted, Machine.bind_of_ok alloc, Machine.bind_of_ok stored]
  generalize s.memory.overwrite ⟨(), f⟩ (link c) = memory₁ at *
  have field₁ : memory₁.Holds ⟨(), f⟩ (bytes32 s.emm.cursor) := by
    rw [bytes32_eq_link hc]
    exact pointer
  have copyFits : memory₁.Room ⟨(), c⟩ length.toNat := by
    rw [hlength]
    exact (rooms _ _).2 (copyRoom.part (i := 0) (by omega))
  have sources : ∀ src, nullable source = some src → memory₁.Room src length.toNat := by
    intro src some_
    unfold nullable at some_
    split at some_
    · cases some_
    · cases some_
      rw [hlength]
      exact (rooms _ _).2 sourceRoom
  -- no byte of the source is missing, so that `kmemcpy` does not fail
  have copied : Machine.Ends _ (fun _ => False)
      (kmemcpy (some ⟨(), c⟩) (nullable source) length memory₁) :=
    kmemcpy_ends copyFits (Or.inr sources)
  obtain ⟨_, _, run, bytes, amount, rfl⟩ := copied.ok_or_error.resolve_right
    fun ⟨_, _, _, absurd_⟩ => absurd_
  rw [← nullable_of_pos hc cPos] at run
  have field₂ : (memory₁.overwrite ⟨(), c⟩ bytes).Holds ⟨(), f⟩ (bytes32 s.emm.cursor) := by
    refine field₁.overwrite (apart_of ?_)
    rw [length_bytes32]
    omega
  have last : (s.emm.cursor + length).toNat = c + bytes.length :=
    toNat_add_of_lt hc amount.symm (by omega)
  have room₂ : (memory₁.overwrite ⟨(), c⟩ bytes).Room ⟨(), c + bytes.length⟩ 1 :=
    (ByteMemory.room_overwrite (amount ▸ copyFits)).2
      (((rooms _ _).2 copyRoom).part (i := bytes.length) (by omega))
  have ended := storeByte_at (s := ⟨memory₁.overwrite ⟨(), c⟩ bytes, emm⟩) 0 last room₂
  have load₁ := load32_of_holds (s := ⟨memory₁, emm⟩) hf field₁
  have load₂ := load32_of_holds (s := ⟨memory₁.overwrite ⟨(), c⟩ bytes, emm⟩) hf field₂
  refine ⟨bytes ++ [0], ?_, ?_⟩
  · rw [List.length_append, List.length_singleton]
    omega
  · rw [Machine.bind_of_ok load₁, Machine.bind_of_ok (onMemory_of_ok run), Machine.bind_of_ok load₂,
      ← ByteMemory.overwrite_append]
    exact ended

omit work usable noWrap panics enough in
/-- A string is copied to fresh memory, unless it has no terminator or no room. -/
theorem copyString_ends {field source : UInt32} {f c : ℕ} (hf : field.toNat = f)
    (hc : s.emm.cursor.toNat = c) (cPos : 0 < c) (le : c ≤ s.emm.end_.toNat)
    (finite : ∃ i < 2 ^ 32, ∀ byte ∈ s.memory.byte ((pointerTo source).advance i), byte = 0)
    (request : CopyFits fuel source s) (enough : 2 ^ 32 ≤ fuel)
    (panics : ∀ message args, E (.panic message args)) (fieldRoom : s.memory.Room ⟨(), f⟩ 4)
    (heapRoom : s.memory.Room ⟨(), c⟩ (s.emm.end_.toNat - c))
    (apart : f + 4 ≤ c ∨ s.emm.end_.toNat ≤ f)
    (reads : E .outOfBounds ∨ ∃ string, s.memory.Holds ⟨(), source.toNat⟩ (string ++ [0])) :
    Machine.Ends (fun _ s' => ∃ bytes emm, 0 < bytes.length ∧
      s' = ⟨(s.memory.overwrite ⟨(), f⟩ (link c)).overwrite ⟨(), c⟩ bytes, emm⟩ ∧
      emm.cursor.toNat = c + bytes.length ∧ emm.end_ = s.emm.end_ ∧
      c + bytes.length ≤ s.emm.end_.toNat) E (copyString fuel field source s) := by
  rcases (onMemory_ends (kstrlen_ends finite enough reads)).ok_or_error with
    ⟨length, _, counted, memory, rfl, same, string, -, holds, hlength⟩ | ⟨e, _, fault, stops⟩
  swap
  · unfold copyString
    rw [Machine.bind_of_error fault]
    exact stops
  subst same
  have room := holds.room
  rw [List.length_append, List.length_singleton, hlength] at room
  have bound := request _ _ counted
  have amount : (length + 1).toNat = length.toNat + 1 := toNat_add_of_lt rfl rfl (by omega)
  rcases onEarlyHeap_ends amount panics (s := s) (by omega) with fits | ⟨e, fault, stops⟩
  · rw [hc] at fits
    obtain ⟨emm, alloc, cursor, kept⟩ := onEarlyHeap_of_room hc amount fits
    obtain ⟨bytes, size, run⟩ := copyString_rest hf hc cPos rfl (by omega) alloc counted fieldRoom
      (heapRoom.part (i := 0) (by omega)) (room.part (i := 0) (by omega)) (by omega)
    rw [run]
    exact ⟨bytes, emm, by omega, rfl, by omega, kept, by omega⟩
  · unfold copyString
    rw [Machine.bind_of_ok counted, Machine.bind_of_error fault]
    exact stops

/-- A string goes to the early heap, with its address in a field of `boot_info_t`. -/
theorem AtWork.copyString {field source : UInt32}
    (isString : field.toNat = areas.bootInfo ∨ field.toNat = areas.bootInfo + 4)
    (request : CopyFits fuel source s)
    (reads : E .outOfBounds ∨ StringReadable areas before source) :
    Machine.Ends (fun _ s' => ∃ new, AtWork areas before s' (pieces ++ new) ∧ 0 < extent new) E
      (ArkoiOs.copyString fuel field source s) := by
  have heapBound := usable.heapBound
  have heapPos := usable.heapPos
  have apart := usable.apart
  have whole := work.whole
  have fits := work.fits
  have cursor := work.cursor
  obtain ⟨name, commandLine, progress⟩ := work.progress
  have parsed := progress.parsed
  have rest : s.emm.end_.toNat - (areas.heap + extent pieces) = areas.capacity - extent pieces := by
    omega
  have finite := scan_stops (work.addressable noWrap) (work.exists_zero usable) source
  have fieldRoom : s.memory.Room ⟨(), field.toNat⟩ 4 :=
    parsed.bootRoom usable (by omega) (by omega)
  have heapRoom : s.memory.Room ⟨(), areas.heap + extent pieces⟩
      (s.emm.end_.toNat - (areas.heap + extent pieces)) := by
    rw [rest]
    exact parsed.heapRoom usable (Nat.le_add_right _ _) (by omega)
  have far : field.toNat + 4 ≤ areas.heap + extent pieces ∨ s.emm.end_.toNat ≤ field.toNat := by
    omega
  have reads' : E .outOfBounds ∨ ∃ string, s.memory.Holds ⟨(), source.toNat⟩ (string ++ [0]) := by
    refine reads.imp_right fun ⟨string, outside, there⟩ => ⟨string, parsed.holds there ?_⟩
    rw [List.length_append, List.length_singleton]
    exact outside
  have copied := copyString_ends rfl cursor (by omega) (by omega) finite request enough panics
    fieldRoom heapRoom far reads'
  refine copied.mono fun _ s' ⟨bytes, emm, positive, same, cursor', kept, inside⟩ => ?_
  subst same
  have set := parsed.setString usable fits isString (areas.heap + extent pieces)
  have pushed :=
    (set.fresh usable le_rfl (by omega)).pushLoose (ByteMemory.holds_overwrite _ _ bytes)
  refine ⟨[.loose bytes], ⟨⟨_, _, progress.snoc pushed cursor' kept positive ?_⟩, ?_, ?_⟩, ?_⟩
  · exact fun _ _ isNode => by cases isNode
  · exact kept ▸ whole
  · rw [extent_append, extent_cons, extent_nil, Piece.size]
    omega
  · rw [extent_cons, extent_nil, Piece.size]
    exact positive

omit work enough in
/-- A module without its command line goes to the early heap, and is linked already. -/
theorem moduleNode_ends {name commandLine : ℕ}
    (progress : Progress areas before s pieces name commandLine)
    (whole : s.emm.end_.toNat = areas.heap + areas.capacity) (fits : extent pieces ≤ areas.capacity)
    (short : 2 ^ 32 ≤ fuel) {tag bootInfo : UInt32} (hboot : bootInfo.toNat = areas.bootInfo)
    (reads : E .outOfBounds ∨ tag.toNat + 16 ≤ 2 ^ 32 ∧ before.Room ⟨(), tag.toNat + 8⟩ 8) :
    Machine.Ends (fun mod t => mod = s.emm.cursor ∧ extent pieces + 16 ≤ areas.capacity ∧
      t.emm.cursor.toNat = areas.heap + extent pieces + 16 ∧ t.emm.end_ = s.emm.end_ ∧
      ∃ modStart modEnd,
        Parsed areas before t.memory pieces [.node .modules
          (moduleBytes modStart modEnd (areas.heap + extent pieces + 16))] name commandLine ∧
        t.memory.Holds ⟨(), areas.heap + extent pieces⟩ (bytes32 modStart ++ bytes32 modEnd) ∧
        t.memory.Holds ⟨(), areas.heap + extent pieces + 12⟩ (link 0)) E
      (moduleNode fuel tag bootInfo s) := by
  have heapBound := usable.heapBound
  have small := noWrap.small
  have cursor := progress.cursor
  have amount : sizeofBootModule.toNat = 16 := rfl
  rcases onEarlyHeap_ends amount panics (s := s) (by omega) with room | ⟨e, fault, stops⟩
  swap
  · unfold moduleNode
    rw [Machine.bind_of_error fault]
    exact stops
  rw [cursor] at room
  obtain ⟨emm, alloc, cursor₁, kept⟩ := onEarlyHeap_of_room cursor amount room
  unfold moduleNode
  rw [Machine.bind_of_ok alloc]
  have field : ∀ (offset : UInt32) (memory : ByteMemory Unit),
      (∀ p k, memory.Room p k ↔ before.Room p k) → 8 ≤ offset.toNat → offset.toNat + 4 ≤ 16 →
      E .outOfBounds ∨ memory.Room ⟨(), (tag + offset).toNat⟩ 4 := by
    intro offset memory same lower upper
    refine reads.imp_right fun ⟨below, range⟩ => ?_
    rw [toNat_add_of_lt rfl rfl (by omega), same]
    obtain ⟨i, hi⟩ := Nat.exists_eq_add_of_le lower
    rw [hi, ← Nat.add_assoc]
    exact range.part (by omega)
  have free := progress.parsed.heapRoom usable (Nat.le_add_right _ _) (show
    areas.heap + extent pieces + 16 ≤ areas.heap + areas.capacity by omega)
  refine (load32_ends (s := ⟨s.memory, emm⟩)
    (field 8 s.memory (fun _ _ => progress.parsed.room) (by decide) (by decide))).bind
      fun modStart s₁ ⟨same, _⟩ => ?_
  subst same
  have store₁ :=
    store32_of_room (s := ⟨s.memory, emm⟩) modStart cursor (free.part (i := 0) (by omega))
  rw [Machine.bind_of_ok store₁]
  have kept₁ : ∀ p k, (s.memory.overwrite ⟨(), areas.heap + extent pieces⟩
      (bytes32 modStart)).Room p k ↔ before.Room p k := by
    intro p k
    have front : s.memory.Room ⟨(), areas.heap + extent pieces⟩ (bytes32 modStart).length :=
      free.part (i := 0) (by rw [length_bytes32]; omega)
    exact (ByteMemory.room_overwrite front).trans progress.parsed.room
  refine (load32_ends (s := ⟨s.memory.overwrite ⟨(), areas.heap + extent pieces⟩
    (bytes32 modStart), emm⟩) (field 12 _ kept₁ (by decide) (by decide))).bind
      fun modEnd s₂ ⟨same, _⟩ => ?_
  subst same
  have field₄ : (s.emm.cursor + 4).toNat =
      areas.heap + extent pieces + (bytes32 modStart).length := by
    rw [length_bytes32]
    exact toNat_add_of_lt cursor rfl (by omega)
  have store₂ := store32_behind s.memory emm (bytes32 modStart) modEnd field₄
    (free.part (i := 0) (by rw [length_bytes32]; omega))
  rw [Machine.bind_of_ok store₂]
  have field₁₂ : (s.emm.cursor + 12).toNat = areas.heap + extent pieces + 12 :=
    toNat_add_of_lt cursor rfl (by omega)
  have nextRoom : (s.memory.overwrite ⟨(), areas.heap + extent pieces⟩
      (bytes32 modStart ++ bytes32 modEnd)).Room ⟨(), areas.heap + extent pieces + 12⟩ 4 :=
    (ByteMemory.room_overwrite (free.part (i := 0) (by rw [length_range]; omega))).2
      (free.part (i := 12) le_rfl)
  have store₃ := store32_of_room (s := ⟨s.memory.overwrite ⟨(), areas.heap + extent pieces⟩
    (bytes32 modStart ++ bytes32 modEnd), emm⟩) 0 field₁₂ nextRoom
  rw [Machine.bind_of_ok store₃]
  obtain ⟨parsed₁, range₁⟩ := progress.parsed.rawModule usable (by omega) modStart modEnd
  have next₁ := ByteMemory.holds_overwrite (s.memory.overwrite ⟨(), areas.heap + extent pieces⟩
    (bytes32 modStart ++ bytes32 modEnd)) ⟨(), areas.heap + extent pieces + 12⟩ (link 0)
  have last : bytes32 0 = link 0 := rfl
  rw [last]
  generalize (s.memory.overwrite ⟨(), areas.heap + extent pieces⟩
    (bytes32 modStart ++ bytes32 modEnd)).overwrite
      ⟨(), areas.heap + extent pieces + 12⟩ (link 0) = memory₁ at *
  obtain ⟨memory₂, run, parsed₂, range₂, next₂⟩ := progress.linkModule emm usable parsed₁ range₁
    next₁ (by omega) (show extent pieces < fuel by omega) hboot
  rw [Machine.bind_of_ok run]
  exact ⟨rfl, by omega, cursor₁, kept, modStart, modEnd, parsed₂, range₂, next₂⟩

/-- A module and its command line go to the early heap. -/
theorem AtWork.parseModule {tag bootInfo : UInt32} (hboot : bootInfo.toNat = areas.bootInfo)
    (request : ∀ mod t, moduleNode fuel tag bootInfo s = .ok mod t → CopyFits fuel (tag + 16) t)
    (reads : E .outOfBounds ∨ ModuleReadable areas before tag) :
    Machine.Ends (fun _ s' => ∃ new, AtWork areas before s' (pieces ++ new) ∧ 0 < extent new) E
      (ArkoiOs.parseModule fuel tag bootInfo s) := by
  have heapBound := usable.heapBound
  have heapPos := usable.heapPos
  have whole := work.whole
  have fits := work.fits
  obtain ⟨name, commandLine, progress⟩ := work.progress
  have node : Machine.Ends _ E (moduleNode fuel tag bootInfo s) :=
    moduleNode_ends usable noWrap panics progress whole fits enough hboot
      (reads.imp_right fun ⟨below, range, _⟩ => ⟨below, range⟩)
  rw [parseModule_eq]
  rcases node.ok_or_error with ⟨mod, t, run, same, room, cursor, kept, modStart, modEnd, parsed,
    range, last⟩ | ⟨e, _, fault, stops⟩
  swap
  · rw [Machine.bind_of_error fault]
    exact stops
  subst same
  rw [Machine.bind_of_ok run]
  have field : (s.emm.cursor + 8).toNat = areas.heap + extent pieces + 8 :=
    toNat_add_of_lt progress.cursor rfl (by omega)
  have addressable := parsed.addressable noWrap.addressable
  have fieldRoom : t.memory.Room ⟨(), areas.heap + extent pieces + 8⟩ 4 :=
    parsed.heapRoom usable (by omega) (by omega)
  have rest : t.emm.end_.toNat - (areas.heap + extent pieces + 16) =
      areas.capacity - extent pieces - 16 := by
    rw [kept]
    omega
  have heapRoom : t.memory.Room ⟨(), areas.heap + extent pieces + 16⟩
      (t.emm.end_.toNat - (areas.heap + extent pieces + 16)) := by
    rw [rest]
    exact parsed.heapRoom usable (by omega) (by omega)
  have source : E .outOfBounds ∨
      ∃ string, t.memory.Holds ⟨(), (tag + 16).toNat⟩ (string ++ [0]) := by
    refine reads.imp_right fun ⟨_, _, string, outside, there⟩ => ⟨string, parsed.holds there ?_⟩
    rw [List.length_append, List.length_singleton]
    exact outside
  refine (copyString_ends field cursor (by omega) (by rw [kept]; omega)
    (scan_stops addressable ⟨_, last⟩ _) (request _ _ run) enough panics fieldRoom heapRoom
    (Or.inl (by omega)) source).mono ?_
  rintro _ _ ⟨bytes, emm, positive, rfl, cursor', kept', inside⟩
  have inside' : extent pieces + (16 + bytes.length) ≤ areas.capacity := by
    rw [kept] at inside
    omega
  refine ⟨_, ⟨⟨_, _, progress.snocModule usable parsed range last inside' cursor'
    (kept'.trans kept)⟩, ?_, ?_⟩, ?_⟩
  · rw [← whole, ← kept, ← kept']
  · rw [extent_append, extent_cons, extent_cons, extent_nil, Piece.size, Piece.size,
      length_moduleBytes]
    omega
  · rw [extent_cons, extent_cons, extent_nil, Piece.size, Piece.size, length_moduleBytes]
    omega

/-- A memory map takes something from the early heap for each entry. -/
theorem AtWork.parseMemoryMap {tag bootInfo : UInt32} (hboot : bootInfo.toNat = areas.bootInfo)
    (reads : E .outOfBounds ∨ MapReadable areas before tag) :
    Machine.Ends (fun _ s' => ∃ new size, AtWork areas before s' (pieces ++ new) ∧
      s.memory.Holds ⟨(), (tag + 4).toNat⟩ (bytes32 size) ∧
      (tag + 16 < tag + size → 0 < extent new) ∧ (¬tag + 16 < tag + size → s' = s)) E
      (ArkoiOs.parseMemoryMap fuel tag bootInfo s) := by
  have bound := usable.heapBound
  obtain ⟨name, commandLine, progress⟩ := work.progress
  have field : E .outOfBounds ∨ s.memory.Room ⟨(), (tag + 4).toNat⟩ 4 := by
    refine reads.imp_right fun ⟨size, outside, there, _⟩ => ?_
    have room := there.room
    rw [length_bytes32] at room
    exact work.room.2 room
  unfold ArkoiOs.parseMemoryMap
  refine (load32_ends field).bind fun size s₁ ⟨same, loaded⟩ => ?_
  subst same
  have entries : E .outOfBounds ∨ EntriesReadable areas before tag (tag + size) (tag + 16) := by
    refine reads.imp_right fun ⟨size', outside, there, readable⟩ => ?_
    have kept := progress.parsed.holds there (by rw [length_bytes32]; exact outside)
    obtain rfl : size' = size := bytes32_inj (kept.unique loaded (by simp [length_bytes32]))
    exact readable
  refine (work.parseMemoryMapLoop usable noWrap panics enough (by omega) hboot entries).mono ?_
  rintro _ s' ⟨new, work', some_, none_⟩
  exact ⟨new, size, work', loaded, some_, none_⟩

/-- A handler returns with more pieces; without any it has left the state as it was. -/
theorem AtWork.parseTag {type tag bootInfo : UInt32} (hboot : bootInfo.toNat = areas.bootInfo)
    (request : RequestsFit fuel type tag bootInfo s)
    (reads : E .outOfBounds ∨ TagReadable areas before type tag) :
    Machine.Ends (fun _ s' => ∃ new, AtWork areas before s' (pieces ++ new) ∧
      (IdleTag s.memory type tag → s' = s) ∧ (¬IdleTag s.memory type tag → 0 < extent new)) E
      (ArkoiOs.parseTag fuel type tag bootInfo s) := by
  have bootBound := usable.bootBound
  unfold TagReadable at reads
  unfold ArkoiOs.parseTag IdleTag
  split
  · rename_i map
    rw [if_pos map] at reads
    refine (work.parseMemoryMap usable noWrap panics enough hboot reads).mono ?_
    rintro _ s' ⟨new, size, work', loaded, some_, none_⟩
    refine ⟨new, work', ?_, fun busy => some_ ?_⟩
    · rintro ⟨size', loaded', stop⟩
      obtain rfl : size' = size := bytes32_inj (loaded'.unique loaded (by simp [length_bytes32]))
      exact none_ stop
    · by_contra stop
      exact busy ⟨size, loaded, stop⟩
  rename_i map
  rw [if_neg map] at reads
  split
  · rename_i line
    rw [if_pos line] at reads
    have field : (bootInfo + 4).toNat = areas.bootInfo + 4 := toNat_add_of_lt hboot rfl (by omega)
    refine (work.copyString usable noWrap panics enough (Or.inr field)
      (request.string (Or.inl line)) reads).mono ?_
    rintro _ s' ⟨new, work', grown⟩
    exact ⟨new, work', fun idle => absurd line idle.1, fun _ => grown⟩
  rename_i line
  rw [if_neg line] at reads
  split
  · rename_i module
    rw [if_pos module] at reads
    refine (work.parseModule usable noWrap panics enough hboot (request.module module)
      reads).mono ?_
    rintro _ s' ⟨new, work', grown⟩
    exact ⟨new, work', fun idle => absurd module idle.2.1, fun _ => grown⟩
  rename_i module
  rw [if_neg module] at reads
  split
  · rename_i loader
    rw [if_pos loader] at reads
    refine (work.copyString usable noWrap panics enough (Or.inl hboot)
      (request.string (Or.inr loader)) reads).mono ?_
    rintro _ s' ⟨new, work', grown⟩
    exact ⟨new, work', fun idle => absurd loader idle.2.2, fun _ => grown⟩
  · rename_i loader
    refine ⟨[], ?_, fun _ => rfl, fun busy => absurd ⟨line, module, loader⟩ busy⟩
    rw [List.append_nil]
    exact work

omit work usable noWrap panics enough in
/-- A string is no longer than the blocks of memory. -/
theorem copyFits_of_blocks {source : UInt32}
    (finite : ∃ i < 2 ^ 32, ∀ byte ∈ s.memory.byte ((pointerTo source).advance i), byte = 0)
    (blocks : ∀ p n, s.memory.Room p n → s.emm.cursor.toNat + n < 2 ^ 32)
    (enough : 2 ^ 32 ≤ fuel) : CopyFits fuel source s := by
  intro length t counted
  have ends : Machine.Ends _ (fun _ => True) (onMemory (kstrlen fuel (pointerTo source)) s) :=
    onMemory_ends (kstrlen_ends finite enough (Or.inl trivial))
  obtain ⟨memory, -, -, string, -, holds, same⟩ := ends.of_ok counted
  have room := holds.room
  rw [List.length_append, List.length_singleton, same] at room
  exact blocks _ _ room

omit panics in
/-- Where the early heap ends further below 2^32 than any block of memory is long, no request
wraps. -/
theorem AtWork.requestsFit
    (blocks : ∀ p n, before.Room p n → areas.heap + areas.capacity + n < 2 ^ 32)
    {type tag bootInfo : UInt32} (hboot : bootInfo.toNat = areas.bootInfo) :
    RequestsFit fuel type tag bootInfo s := by
  have whole := work.whole
  have fits := work.fits
  have cursor := work.cursor
  refine ⟨fun _ => copyFits_of_blocks (scan_stops (work.addressable noWrap)
    (work.exists_zero usable) _) (fun p n room => ?_) enough, fun _ mod t run => ?_⟩
  · have bound := blocks p n (work.room.1 room)
    omega
  · obtain ⟨name, commandLine, progress⟩ := work.progress
    have node : Machine.Ends _ (fun _ => True) (moduleNode fuel tag bootInfo s) :=
      moduleNode_ends usable noWrap (fun _ _ => trivial) progress whole fits enough hboot
        (Or.inl trivial)
    obtain ⟨-, room, cursor', -, modStart, modEnd, parsed, -, last⟩ := node.of_ok run
    have addressable := parsed.addressable noWrap.addressable
    refine copyFits_of_blocks (scan_stops addressable ⟨_, last⟩ _) (fun p n there => ?_) enough
    have bound := blocks p n (parsed.room.1 there)
    omega

end Handlers

end ArkoiOs
