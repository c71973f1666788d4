import ArkoiOs.Multiboot2.Handlers

/-!
# The loop over the tags

Each tag puts its pieces behind those of the tags in front of it, and the loop
goes from tag to tag by their padded sizes until an END tag or the end of the
structure.
-/

namespace ArkoiOs

open Piece

/-! ## Sizes -/

/-- `MULTIBOOT2_ALIGN_UP` rounds up to 8, as long as the sum does not wrap. -/
theorem multiboot2AlignUp_toNat {size : UInt32} (bound : size.toNat + 7 < 2 ^ 32) :
    (multiboot2AlignUp size).toNat = (size.toNat + 7) / 8 * 8 := by
  have sum : (size + 7).toNat = size.toNat + 7 := toNat_add_of_lt rfl rfl bound
  have rounded : (multiboot2AlignUp size).toNat = (size + 7).toNat / 2 ^ 3 * 2 ^ 3 :=
    and_high_mask (size + 7) 3 29 rfl rfl
  rw [rounded, sum]
  rfl

/-- The word of the size of a tag. -/
theorem Tag.toNat_size (tag : Tag) (bound : tag.size < 2 ^ 32) :
    (UInt32.ofNat tag.size).toNat = tag.size :=
  Nat.mod_eq_of_lt bound

/-- A tag in memory is its type, its size and its body. -/
theorem Tag.holds_bytes {memory : ByteMemory Unit} {position : ℕ} {tag : Tag}
    (there : memory.Holds ⟨(), position⟩ tag.bytes) (bound : tag.size < 2 ^ 32) :
    memory.Holds ⟨(), position⟩ (bytes32 tag.type) ∧
      memory.Holds ⟨(), position + 4⟩ (bytes32 (UInt32.ofNat tag.size)) ∧
      memory.Holds ⟨(), position + 8⟩ tag.body := by
  rw [Tag.bytes, ByteMemory.holds_append, ByteMemory.holds_append, length_bytes32,
    LittleEndian.length_encode, Pointer.advance_advance] at there
  rw [bytes32_eq_link (tag.toNat_size bound)]
  exact there

theorem Tag.length_bytes (tag : Tag) : tag.bytes.length = tag.size := by
  rw [Tag.bytes, List.length_append, List.length_append, length_bytes32,
    LittleEndian.length_encode, Tag.size, ← Nat.add_assoc]

/-! ## One tag -/

section Tags

variable {areas : BootAreas} {before : ByteMemory Unit} {s : BootState}
  {pieces : List (Piece BootList)} {name commandLine fuel position : ℕ}

/-- The address of a string field behind a tag that may set it. -/
def stringPointer (string : Option (List UInt8)) (start address : ℕ) : ℕ :=
  if string.isSome then start else address

/-- The body of a string tag starts with the string. -/
theorem length_stringBody (string slack : List UInt8) :
    string.length + 1 ≤ (string ++ [0] ++ slack).length := by
  rw [List.length_append, List.length_append, List.length_singleton]
  exact Nat.le_add_right _ _

/-- A memory map puts a region for each of its entries into the heap. -/
theorem Progress.withMemoryMap {entrySize entryVersion : UInt32} {entries : List MemoryMapEntry}
    (progress : Progress areas before s pieces name commandLine) (usable : areas.Usable before)
    (wellFormed : (Tag.memoryMap entrySize entryVersion entries).WellFormed)
    (there : before.Holds ⟨(), position⟩ (Tag.memoryMap entrySize entryVersion entries).bytes)
    (outside : areas.Outside position (Tag.memoryMap entrySize entryVersion entries).size)
    (bound : position + (Tag.memoryMap entrySize entryVersion entries).size < 2 ^ 32)
    (fits : extent pieces + 20 * entries.length ≤ areas.capacity)
    (enough : extent pieces + 20 * entries.length < fuel) {current bootInfo : UInt32}
    (hcurrent : current.toNat = position) (hboot : bootInfo.toNat = areas.bootInfo) :
    ∃ s', parseMemoryMap fuel current bootInfo s = .ok () s' ∧ s'.emm.end_ = s.emm.end_ ∧
      Progress areas before s' (pieces ++ entries.map MemoryMapEntry.piece) name commandLine := by
  obtain ⟨-, -, sized⟩ := wellFormed
  obtain ⟨-, sizeField, body⟩ := Tag.holds_bytes there (by omega)
  have size : (Tag.memoryMap entrySize entryVersion entries).size =
      16 + (entries.flatMap MemoryMapEntry.bytes).length := by
    rw [Tag.size, Tag.body, List.length_append, List.length_append, length_bytes32, length_bytes32]
    omega
  rw [Tag.body, ByteMemory.holds_append, ByteMemory.holds_append, length_bytes32, length_bytes32,
    Pointer.advance_advance] at body
  obtain ⟨entrySizeField, -, there'⟩ := body
  have here : before.Holds ⟨(), position + 16⟩ (entries.flatMap MemoryMapEntry.bytes) := there'
  have at₄ : (current + 4).toNat = position + 4 := toNat_add_of_lt hcurrent rfl (by omega)
  have at₈ : (current + 8).toNat = position + 8 := toNat_add_of_lt hcurrent rfl (by omega)
  have at₁₆ : (current + 16).toNat = position + 16 := toNat_add_of_lt hcurrent rfl (by omega)
  have rounds : entries.length < fuel := by omega
  have reads := progress.reads sizeField (outside.part (Nat.le_add_right _ _) (by omega)) at₄
  have stop := toNat_add_of_lt hcurrent (Tag.toNat_size _ (by omega)) bound
  obtain ⟨s', run, kept, progress'⟩ := progress.withEntries usable here
    (outside.part (Nat.le_add_right _ _) (by omega)) sized entrySizeField
    (outside.part (Nat.le_add_right _ _) (by omega)) fits enough rounds at₈ at₁₆ hboot
    (by rw [stop, size, Nat.add_assoc])
  refine ⟨s', ?_, kept, progress'⟩
  rw [parseMemoryMap, Machine.bind_of_ok reads]
  exact run

/-- The handler of a well-formed tag puts the pieces of the tag into the heap. -/
theorem Progress.withTag {tag : Tag} (progress : Progress areas before s pieces name commandLine)
    (usable : areas.Usable before) (wellFormed : tag.WellFormed)
    (there : before.Holds ⟨(), position⟩ tag.bytes) (outside : areas.Outside position tag.size)
    (bound : position + tag.size < 2 ^ 32)
    (fits : extent pieces + tag.heapNeed ≤ areas.capacity)
    (enough : extent pieces + tag.heapNeed < fuel) {current bootInfo : UInt32}
    (hcurrent : current.toNat = position) (hboot : bootInfo.toNat = areas.bootInfo) :
    ∃ s', parseTag fuel tag.type current bootInfo s = .ok () s' ∧
      s'.emm.end_ = s.emm.end_ ∧
      Progress areas before s' (pieces ++ tag.pieces (areas.heap + extent pieces))
        (stringPointer tag.loaderName? (areas.heap + extent pieces) name)
        (stringPointer tag.commandLine? (areas.heap + extent pieces) commandLine) := by
  obtain ⟨-, -, body⟩ := Tag.holds_bytes there (by omega)
  have bootBound := usable.bootBound
  have long : 8 ≤ tag.size := Nat.le_add_right _ _
  have at₈ : (current + 8).toNat = position + 8 := toNat_add_of_lt hcurrent rfl (by omega)
  cases tag with
  | commandLine string slack =>
      have size : 8 + (string.length + 1) ≤ (Tag.commandLine string slack).size :=
        Nat.add_le_add_left (length_stringBody string slack) 8
      have field : (bootInfo + 4).toNat = areas.bootInfo + 4 :=
        toNat_add_of_lt hboot rfl (by omega)
      obtain ⟨s', run, kept, progress'⟩ := progress.withString usable wellFormed
        (ByteMemory.holds_append.1 body).1 (outside.part (Nat.le_add_right _ _) (by omega))
        (Nat.succ_pos _) fits enough field (Or.inr rfl) at₈
      rw [if_neg (by omega), if_neg (by omega)] at progress'
      exact ⟨s', run, kept, progress'⟩
  | loaderName string slack =>
      have size : 8 + (string.length + 1) ≤ (Tag.loaderName string slack).size :=
        Nat.add_le_add_left (length_stringBody string slack) 8
      obtain ⟨s', run, kept, progress'⟩ := progress.withString usable wellFormed
        (ByteMemory.holds_append.1 body).1 (outside.part (Nat.le_add_right _ _) (by omega))
        (Nat.succ_pos _) fits enough hboot (Or.inl rfl) at₈
      rw [if_pos rfl, if_pos rfl] at progress'
      exact ⟨s', run, kept, progress'⟩
  | module modStart modEnd string slack =>
      have size : 16 + (string.length + 1) ≤ (Tag.module modStart modEnd string slack).size := by
        have long := length_stringBody string slack
        rw [Tag.size, Tag.body, List.length_append, List.length_append, length_bytes32,
          length_bytes32]
        omega
      rw [Tag.body, ByteMemory.holds_append, ByteMemory.holds_append, length_bytes32,
        length_bytes32, Pointer.advance_advance] at body
      obtain ⟨start, end_, source⟩ := body
      exact progress.withModule usable start end_ (ByteMemory.holds_append.1 source).1
        (outside.part (Nat.le_add_right _ _) (by omega)) wellFormed (by omega) fits enough
        hcurrent hboot
  | memoryMap entrySize entryVersion entries =>
      exact progress.withMemoryMap usable wellFormed there outside bound fits enough hcurrent hboot
  | other type body =>
      obtain ⟨-, notCommandLine, notName, notModule, notMap⟩ := wellFormed
      refine ⟨s, ?_, rfl, ?_⟩
      · rw [Tag.type, parseTag, if_neg notMap, if_neg notCommandLine, if_neg notModule,
          if_neg notName]
        rfl
      · rw [Tag.pieces, List.append_nil]
        exact progress

/-! ## All tags -/

/-- What the handlers of the tags put into the heap from `start` on. -/
def tagsPieces : ℕ → List Tag → List (Piece BootList)
  | _, [] => []
  | start, tag :: tags => tag.pieces start ++ tagsPieces (start + tag.heapNeed) tags

/-- The address of a string field behind the tags. -/
def stringPointers (string? : Tag → Option (List UInt8)) : ℕ → ℕ → List Tag → ℕ
  | _, address, [] => address
  | start, address, tag :: tags =>
      stringPointers string? (start + tag.heapNeed) (stringPointer (string? tag) start address) tags

theorem Tag.type_ne_end {tag : Tag} (wellFormed : tag.WellFormed) :
    tag.type ≠ multiboot2TagTypeEnd := by
  have nonzero : ∀ type : UInt32, 0 < type.toNat → type ≠ multiboot2TagTypeEnd := by
    rintro _ positive rfl
    exact Nat.lt_irrefl 0 positive
  cases tag with
  | commandLine string slack => exact nonzero _ (Nat.succ_pos _)
  | loaderName string slack => exact nonzero _ (Nat.succ_pos _)
  | module modStart modEnd string slack => exact nonzero _ (Nat.succ_pos _)
  | memoryMap entrySize entryVersion entries => exact nonzero _ (Nat.succ_pos _)
  | other type body => exact wellFormed.1

/-- Tags stand below 2^32. -/
theorem LaidOut.position_lt {limit : ℕ} {tags : List Tag}
    (laidOut : LaidOut before limit position tags) (bound : limit < 2 ^ 32) :
    position < 2 ^ 32 := by
  cases tags with
  | nil =>
      rcases laidOut with ⟨-, below⟩ | ⟨inside, -⟩
      · exact below
      · omega
  | cons tag tags =>
      have inside := laidOut.2.1
      omega

/-- The loop handles the tags and stops behind the last. -/
theorem Progress.withTags {tags : List Tag} {base total rounds : ℕ} {current bootInfo end_ : UInt32}
    (progress : Progress areas before s pieces name commandLine) (usable : areas.Usable before)
    (laidOut : LaidOut before (base + total) position tags) (outside : areas.Outside base total)
    (lower : base ≤ position) (header : 8 ≤ position)
    (fits : extent pieces + heapNeed tags ≤ areas.capacity)
    (enough : extent pieces + heapNeed tags < fuel) (left : tags.length < rounds)
    (hcurrent : current.toNat = position) (hend : end_.toNat = base + total)
    (hboot : bootInfo.toNat = areas.bootInfo) :
    ∃ s', parseTags fuel bootInfo end_ rounds current s = .ok () s' ∧
      s'.emm.end_ = s.emm.end_ ∧
      Progress areas before s' (pieces ++ tagsPieces (areas.heap + extent pieces) tags)
        (stringPointers Tag.loaderName? (areas.heap + extent pieces) name tags)
        (stringPointers Tag.commandLine? (areas.heap + extent pieces) commandLine tags) := by
  have limit := end_.toNat_lt
  induction tags generalizing s pieces position current rounds name commandLine with
  | nil =>
      cases rounds with
      | zero => exact absurd left (Nat.not_lt_zero _)
      | succ rounds =>
          refine ⟨s, ?_, rfl, ?_⟩
          · rcases laidOut with ⟨beyond, -⟩ | ⟨inside, endTag⟩
            · have done : ¬current < end_ := by
                rw [UInt32.lt_iff_toNat_lt, hcurrent, hend]
                exact Nat.not_lt.2 beyond
              rw [parseTags, if_neg done]
              rfl
            · have more : current < end_ := by
                rw [UInt32.lt_iff_toNat_lt, hcurrent, hend]
                omega
              have reads := progress.reads endTag (outside.part lower (by omega)) hcurrent
              rw [parseTags, if_pos more, Machine.bind_of_ok reads, if_pos rfl]
              rfl
          · rw [tagsPieces, List.append_nil]
            exact progress
  | cons tag tags ih =>
      cases rounds with
      | zero => exact absurd left (Nat.not_lt_zero _)
      | succ rounds =>
          obtain ⟨wellFormed, inside, there, laidOut'⟩ := laidOut
          have long : 8 ≤ tag.size := Nat.le_add_right _ _
          have need : heapNeed (tag :: tags) = tag.heapNeed + heapNeed tags := rfl
          rw [need] at fits enough
          have whole : areas.Outside position tag.size := outside.part lower inside
          obtain ⟨typeField, sizeField, -⟩ := Tag.holds_bytes there (by omega)
          have more : current < end_ := by
            rw [UInt32.lt_iff_toNat_lt, hcurrent, hend]
            omega
          have type := progress.reads typeField (whole.part le_rfl (by omega)) hcurrent
          have enough' : extent pieces + tag.heapNeed < fuel := by omega
          obtain ⟨s₁, run, kept₁, progress₁⟩ := progress.withTag usable wellFormed there whole (by omega)
            (by omega) enough' hcurrent hboot
          have at₄ : (current + 4).toNat = position + 4 :=
            toNat_add_of_lt hcurrent rfl (by omega)
          have size := progress₁.reads sizeField (whole.part (Nat.le_add_right _ _) (by omega)) at₄
          have word := tag.toNat_size (by omega)
          have padded : (multiboot2AlignUp (UInt32.ofNat tag.size)).toNat = tag.padded := by
            rw [multiboot2AlignUp_toNat (by omega), word]
            rfl
          have next := toNat_add_of_lt hcurrent padded (laidOut'.position_lt (by omega))
          have grown : extent (pieces ++ tag.pieces (areas.heap + extent pieces)) =
              extent pieces + tag.heapNeed := by
            rw [extent_append, tag.extent_pieces]
          obtain ⟨s₂, rest, kept₂, progress₂⟩ := ih progress₁ laidOut' (by omega) (by omega)
            (by omega) (by omega) (Nat.lt_of_succ_lt_succ left) next
          refine ⟨s₂, ?_, kept₂.trans kept₁, ?_⟩
          · rw [parseTags, if_pos more, Machine.bind_of_ok type,
              if_neg (Tag.type_ne_end wellFormed), Machine.bind_of_ok run, Machine.bind_of_ok size]
            exact rest
          · rw [grown, ← Nat.add_assoc] at progress₂
            rw [tagsPieces, ← List.append_assoc]
            exact progress₂

end Tags

end ArkoiOs
