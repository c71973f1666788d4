import ArkoiOs.Multiboot2.Parsed

/-!
# What the handlers of the tags build

Each handler puts the pieces of its tag behind the pieces that are there:
`Progress` goes from some pieces to more of them.
-/

namespace ArkoiOs

open Piece

/-! ## The pieces of a tag -/

/-- Where the nodes of a list have their link. -/
def BootList.linkOffset : BootList → ℕ
  | .ram => 16
  | .reserved => 16
  | .modules => 12

/-- The list an entry of the memory map goes to. -/
def regionList (type : UInt32) : Option BootList :=
  if type = multiboot2MemoryAvailable then some .ram
  else if type = multiboot2MemoryReserved then some .reserved
  else none

/-- The region of an entry: linked, or ignored. -/
def MemoryMapEntry.piece (entry : MemoryMapEntry) : Piece BootList :=
  match regionList entry.type with
  | some list => .node list entry.region.bytes
  | none => .loose (entry.region.bytes ++ link 0)

/-- What the handler of the tag puts into the heap from `start` on. -/
def Tag.pieces (start : ℕ) : Tag → List (Piece BootList)
  | commandLine string _ => [.loose (string ++ [0])]
  | loaderName string _ => [.loose (string ++ [0])]
  | module modStart modEnd string _ =>
      [.node .modules (moduleBytes modStart modEnd (start + 16)), .loose (string ++ [0])]
  | memoryMap _ _ entries => entries.map MemoryMapEntry.piece
  | other _ _ => []

theorem BootMemoryRegion.length_bytes (region : BootMemoryRegion) : region.bytes.length = 16 := by
  rw [BootMemoryRegion.bytes, List.length_append, length_bytes64, length_bytes64]

theorem MemoryMapEntry.size_piece (entry : MemoryMapEntry) : entry.piece.size = 20 := by
  unfold MemoryMapEntry.piece
  cases regionList entry.type with
  | some list => rw [Piece.size, BootMemoryRegion.length_bytes]
  | none => rw [Piece.size, List.length_append, BootMemoryRegion.length_bytes, length_link]

theorem extent_entries (entries : List MemoryMapEntry) :
    extent (entries.map MemoryMapEntry.piece) = 20 * entries.length := by
  induction entries with
  | nil => rfl
  | cons entry entries ih =>
      rw [List.map_cons, extent_cons, entry.size_piece, ih, List.length_cons]
      omega

theorem length_moduleBytes (modStart modEnd : UInt32) (commandLine : ℕ) :
    (moduleBytes modStart modEnd commandLine).length = 12 := by
  rw [moduleBytes, List.length_append, List.length_append, length_bytes32, length_bytes32,
    length_link]

/-- The pieces of a tag are its part of the heap. -/
theorem Tag.extent_pieces (tag : Tag) (start : ℕ) : extent (tag.pieces start) = tag.heapNeed := by
  cases tag with
  | commandLine string slack => rw [pieces, extent_cons, Piece.size, List.length_append]; rfl
  | loaderName string slack => rw [pieces, extent_cons, Piece.size, List.length_append]; rfl
  | module modStart modEnd string slack =>
      rw [pieces, extent_cons, extent_cons, Piece.size, Piece.size, length_moduleBytes,
        List.length_append]
      rfl
  | memoryMap entrySize entryVersion entries => exact extent_entries entries
  | other type body => rfl

/-! ## Progress -/

/-- The state when the parser has put `pieces` into the heap and is between two
steps. -/
structure Progress (areas : BootAreas) (before : ByteMemory Unit) (s : BootState)
    (pieces : List (Piece BootList)) (name commandLine : ℕ) : Prop where
  parsed : Parsed areas before s.memory pieces [] name commandLine
  cursor : s.emm.cursor.toNat = areas.heap + extent pieces
  room : areas.heap + areas.capacity ≤ s.emm.end_.toNat
  links : ∀ list : BootList, LinksAt list list.linkOffset pieces
  short : pieces.length ≤ extent pieces

namespace Progress

variable {areas : BootAreas} {before : ByteMemory Unit} {s : BootState}
  {pieces : List (Piece BootList)} {name commandLine fuel : ℕ} {piece : Piece BootList}

/-- More pieces in a state that is otherwise known. -/
theorem append (progress : Progress areas before s pieces name commandLine) {s' : BootState}
    {more : List (Piece BootList)} {name' commandLine' : ℕ}
    (parsed : Parsed areas before s'.memory (pieces ++ more) [] name' commandLine')
    (cursor : s'.emm.cursor.toNat = areas.heap + extent pieces + extent more)
    (room : s'.emm.end_ = s.emm.end_) (short : more.length ≤ extent more)
    (links : ∀ list : BootList, LinksAt list list.linkOffset more) :
    Progress areas before s' (pieces ++ more) name' commandLine' where
  parsed := parsed
  cursor := by
    rw [cursor, extent_append, Nat.add_assoc]
  room := room ▸ progress.room
  links list content mem :=
    (List.mem_append.1 mem).elim (progress.links list content) (links list content)
  short := by
    rw [extent_append, List.length_append]
    exact Nat.add_le_add progress.short short

theorem snoc (progress : Progress areas before s pieces name commandLine) {s' : BootState}
    {name' commandLine' : ℕ}
    (parsed : Parsed areas before s'.memory (pieces ++ [piece]) [] name' commandLine')
    (cursor : s'.emm.cursor.toNat = areas.heap + extent pieces + piece.size)
    (room : s'.emm.end_ = s.emm.end_) (positive : 0 < piece.size)
    (offset : ∀ list content, piece = .node list content → content.length = list.linkOffset) :
    Progress areas before s' (pieces ++ [piece]) name' commandLine' :=
  progress.append parsed cursor room positive fun list content mem =>
    offset list content (List.mem_singleton.1 mem).symm

end Progress

/-- A word of memory that the parser does not write. -/
theorem Progress.reads {areas : BootAreas} {before : ByteMemory Unit} {s : BootState}
    {pieces : List (Piece BootList)} {name commandLine position : ℕ} {address value : UInt32}
    (progress : Progress areas before s pieces name commandLine)
    (there : before.Holds ⟨(), position⟩ (bytes32 value)) (outside : areas.Outside position 4)
    (same : address.toNat = position) : load32 address s = .ok value s := by
  rw [← length_bytes32 value] at outside
  exact load32_of_holds same (progress.parsed.holds there outside)

/-- `appendNode` links a node that will stand behind the pieces, and leaves what
is behind them. -/
theorem Parsed.appendNode {areas : BootAreas} {before : ByteMemory Unit} {s : BootState}
    {pieces : List (Piece BootList)} {name commandLine fuel : ℕ} {nextOffset slot node : UInt32}
    {list : BootList} (parsed : Parsed areas before s.memory pieces [] name commandLine)
    (usable : areas.Usable before) (fits : extent pieces ≤ areas.capacity)
    (links : LinksAt list list.linkOffset pieces) (offset : nextOffset.toNat = list.linkOffset)
    (enough : pieces.length < fuel)
    (hslot : slot.toNat = areas.slot list) (hnode : node.toNat = areas.heap + extent pieces)
    (content : List UInt8) :
    ∃ memory, ArkoiOs.appendNode fuel nextOffset slot node s = .ok () ⟨memory, s.emm⟩ ∧
      Parsed areas before memory pieces [.node list content] name commandLine ∧
      ∀ position bytes, areas.heap + extent pieces ≤ position →
        position + bytes.length ≤ areas.heap + areas.capacity →
        s.memory.Holds ⟨(), position⟩ bytes → memory.Holds ⟨(), position⟩ bytes := by
  have bound := usable.heapBound
  have apart := usable.apart
  have bounds := slot_bounds areas list
  have head := parsed.slots list
  rw [List.append_nil, ← hslot] at head
  rw [← offset] at links
  obtain ⟨last, run, place⟩ := walkSlots_eq parsed.image head links usable.heapPos
    (by omega) enough
  rw [hslot] at place
  refine ⟨_, ?_, parsed.thread usable fits list content,
    fun position bytes behind inside there => ?_⟩
  · unfold ArkoiOs.appendNode
    rw [Machine.bind_of_ok run, store32_of_room node place (parsed.lastSlot_room usable fits list),
      bytes32_eq_link hnode]
  · exact there.overwrite_lastSlot (by omega) (Or.inr behind)

/-! ## Strings -/

section Handlers

variable {areas : BootAreas} {before : ByteMemory Unit} {s : BootState}
  {pieces : List (Piece BootList)} {name commandLine fuel position : ℕ} {string : List UInt8}

/-- A string of the structure is copied to the heap, with its address in a field
of `boot_info_t`. -/
theorem Progress.withString (progress : Progress areas before s pieces name commandLine)
    (usable : areas.Usable before) (noZero : 0 ∉ string)
    (there : before.Holds ⟨(), position⟩ (string ++ [0]))
    (outside : areas.Outside position (string.length + 1)) (positive : 0 < position)
    (fits : extent pieces + (string.length + 1) ≤ areas.capacity)
    (enough : extent pieces + (string.length + 1) < fuel) {field source : UInt32} {f : ℕ}
    (hf : field.toNat = f) (isString : f = areas.bootInfo ∨ f = areas.bootInfo + 4)
    (hsource : source.toNat = position) :
    ∃ s', copyString fuel field source s = .ok () s' ∧ s'.emm.end_ = s.emm.end_ ∧
      Progress areas before s' (pieces ++ [.loose (string ++ [0])])
        (if f = areas.bootInfo then areas.heap + extent pieces else name)
        (if f = areas.bootInfo then commandLine else areas.heap + extent pieces) := by
  have parsed := progress.parsed
  have apart := usable.apart
  have room := progress.room
  have heapPos := usable.heapPos
  have far := outside.2
  have near := outside.1
  have length : (string ++ [0]).length = string.length + 1 := by
    rw [List.length_append, List.length_singleton]
  have counted : string.length < fuel := by omega
  obtain ⟨emm, run, cursor, kept⟩ := copyString_eq hf hsource progress.cursor positive
    (by omega) (by omega) noZero counted
    (parsed.holds there (by rw [length]; exact outside))
    (parsed.bootRoom usable (by omega) (by omega))
    (parsed.heapRoom usable (by omega) (by omega)) (by omega) (by omega) (by omega)
  refine ⟨_, run, kept, ?_⟩
  refine progress.snoc ?_ ?_ kept ?_ fun _ _ isNode => by cases isNode
  · have parsed₁ := parsed.setString usable (by omega) isString (areas.heap + extent pieces)
    refine (parsed₁.fresh usable le_rfl ?_).pushLoose (ByteMemory.holds_overwrite _ _ _)
    rw [length]
    omega
  · rw [Piece.size, length]
    exact cursor
  · rw [Piece.size, length]
    omega

/-! ## Regions -/

/-- The slot of an entry is where its list starts. -/
theorem regionSlot_eq {bootInfo type : UInt32} {list : BootList}
    (hboot : bootInfo.toNat = areas.bootInfo) (bound : areas.bootInfo + 20 ≤ 2 ^ 32)
    (linked : regionList type = some list) :
    list.linkOffset = 16 ∧
      ∃ slot, regionSlot bootInfo type = some slot ∧ slot.toNat = areas.slot list := by
  unfold regionList at linked
  unfold regionSlot
  split at linked
  · cases linked
    exact ⟨rfl, bootInfo + 8, if_pos ‹_›, toNat_add_of_lt hboot rfl (by omega)⟩
  · split at linked
    · cases linked
      refine ⟨rfl, bootInfo + 12, ?_, toNat_add_of_lt hboot rfl (by omega)⟩
      rw [if_neg ‹_›, if_pos ‹_›]
    · cases linked

theorem regionSlot_none {bootInfo type : UInt32} (ignored : regionList type = none) :
    regionSlot bootInfo type = none := by
  unfold regionList at ignored
  unfold regionSlot
  split at ignored
  · cases ignored
  · split at ignored
    · cases ignored
    · rw [if_neg ‹_›, if_neg ‹_›]

/-- An entry has its three fields. -/
theorem MemoryMapEntry.length_bytes (entry : MemoryMapEntry) : 20 ≤ entry.bytes.length := by
  rw [MemoryMapEntry.bytes, List.length_append, List.length_append, List.length_append,
    length_bytes64, length_bytes64, length_bytes32]
  omega

/-- The fields of an entry. -/
theorem MemoryMapEntry.loads {entry : MemoryMapEntry} {current : UInt32}
    (there : s.memory.Holds ⟨(), position⟩ entry.bytes) (bound : position + 20 ≤ 2 ^ 32)
    (hcurrent : current.toNat = position) :
    load64 current s = .ok entry.region.baseAddress s ∧
      load64 (current + 8) s = .ok entry.region.length s ∧
      load32 (current + 16) s = .ok entry.type s := by
  unfold MemoryMapEntry.bytes at there
  rw [ByteMemory.holds_append, ByteMemory.holds_append, ByteMemory.holds_append, length_bytes64,
    length_bytes64] at there
  obtain ⟨base, length, type, -⟩ := there
  have at₈ : (current + 8).toNat = position + 8 := toNat_add_of_lt hcurrent rfl (by omega)
  have at₁₆ : (current + 16).toNat = position + 16 := toNat_add_of_lt hcurrent rfl (by omega)
  exact ⟨load64_of_holds hcurrent base, load64_of_holds at₈ length, load32_of_holds at₁₆ type⟩

/-- The three stores to a fresh region, which has no next region. -/
theorem region_stores {address : UInt32} {n : ℕ} (here : address.toNat = n)
    (bound : n + 20 < 2 ^ 32) {memory : ByteMemory Unit} (room : memory.Room ⟨(), n⟩ 20)
    (emm : Emm) (region : BootMemoryRegion) (rest : KernelM BootState Unit) :
    (do
        store64 address region.baseAddress
        store64 (address + 8) region.length
        store32 (address + 16) 0
        rest) ⟨memory, emm⟩ = rest ⟨memory.overwrite ⟨(), n⟩ (region.bytes ++ link 0), emm⟩ := by
  have field₈ : (address + 8).toNat = n + (bytes64 region.baseAddress).length := by
    rw [length_bytes64]
    exact toNat_add_of_lt here rfl (by omega)
  have field₁₆ : (address + 16).toNat = n + region.bytes.length := by
    rw [region.length_bytes]
    exact toNat_add_of_lt here rfl (by omega)
  have store₁ := store64_of_room (s := ⟨memory, emm⟩) region.baseAddress here
    (room.part (i := 0) (by omega))
  have store₂ := store64_behind memory emm (bytes64 region.baseAddress) region.length field₈
    (room.part (i := 0) (by rw [length_bytes64]; omega))
  have store₃ := store32_behind memory emm region.bytes 0 field₁₆
    (room.part (i := 0) (by rw [region.length_bytes]))
  rw [BootMemoryRegion.bytes] at store₃
  rw [Machine.bind_of_ok store₁, Machine.bind_of_ok store₂, Machine.bind_of_ok store₃]
  rfl

/-- What an entry loads becomes a region. -/
theorem Progress.withRegion (progress : Progress areas before s pieces name commandLine)
    (usable : areas.Usable before) {entry : MemoryMapEntry} {current bootInfo : UInt32}
    (load₁ : load64 current s = .ok entry.region.baseAddress s)
    (load₂ : load64 (current + 8) s = .ok entry.region.length s)
    (load₃ : load32 (current + 16) s = .ok entry.type s)
    (fits : extent pieces + 20 ≤ areas.capacity) (enough : extent pieces < fuel)
    (hboot : bootInfo.toNat = areas.bootInfo) :
    ∃ s', parseEntry fuel current bootInfo s = .ok () s' ∧ s'.emm.end_ = s.emm.end_ ∧
      Progress areas before s' (pieces ++ [entry.piece]) name commandLine := by
  have parsed := progress.parsed
  have room := progress.room
  have heapBound := usable.heapBound
  have amount : sizeofBootMemoryRegion.toNat = 20 := rfl
  have length : (entry.region.bytes ++ link 0).length = 20 := by
    rw [List.length_append, BootMemoryRegion.length_bytes, length_link]
  obtain ⟨emm, alloc, cursor, kept⟩ := onEarlyHeap_of_room progress.cursor amount (by omega)
  have inside : areas.heap + extent pieces + 20 ≤ areas.heap + areas.capacity := by omega
  have free := parsed.heapRoom usable (Nat.le_add_right _ _) inside
  rw [← length] at inside
  have parsed₁ := parsed.fresh usable le_rfl inside
  have region := ByteMemory.holds_overwrite s.memory ⟨(), areas.heap + extent pieces⟩
    (entry.region.bytes ++ link 0)
  unfold parseEntry
  rw [Machine.bind_of_ok load₁, Machine.bind_of_ok load₂, Machine.bind_of_ok load₃,
    Machine.bind_of_ok alloc, region_stores progress.cursor (by omega) free emm entry.region]
  generalize s.memory.overwrite ⟨(), areas.heap + extent pieces⟩
    (entry.region.bytes ++ link 0) = memory₁ at parsed₁ region ⊢
  have here : emm.cursor.toNat = areas.heap + extent pieces + entry.piece.size := by
    rw [entry.size_piece, cursor]
  have positive : 0 < entry.piece.size := by
    rw [entry.size_piece]
    omega
  unfold MemoryMapEntry.piece at here positive ⊢
  cases found : regionList entry.type with
  | none =>
      rw [found] at here positive
      rw [regionSlot_none found]
      refine ⟨_, rfl, kept, progress.snoc (parsed₁.pushLoose region) here kept positive ?_⟩
      exact fun _ _ isNode => by cases isNode
  | some list =>
      rw [found] at here positive
      obtain ⟨offset, slot, isSlot, place⟩ := regionSlot_eq hboot usable.bootBound found
      rw [isSlot]
      have sixteen : (16 : UInt32).toNat = list.linkOffset := offset.symm
      obtain ⟨memory₂, run, parsed₂, stays⟩ := parsed₁.appendNode (s := ⟨memory₁, emm⟩) usable
        (by omega) (progress.links list) sixteen (progress.short.trans_lt enough) place
        progress.cursor entry.region.bytes
      have node := stays _ _ le_rfl inside region
      refine ⟨_, run, kept, progress.snoc (parsed₂.pushNode node) here kept positive ?_⟩
      intro list' content isNode
      cases isNode
      rw [BootMemoryRegion.length_bytes, offset]

/-- An entry of a memory map becomes a region. -/
theorem Progress.withEntry (progress : Progress areas before s pieces name commandLine)
    (usable : areas.Usable before) {entry : MemoryMapEntry}
    (there : before.Holds ⟨(), position⟩ entry.bytes)
    (outside : areas.Outside position entry.bytes.length)
    (bound : position + 20 ≤ 2 ^ 32) (fits : extent pieces + 20 ≤ areas.capacity)
    (enough : extent pieces < fuel) {current bootInfo : UInt32}
    (hcurrent : current.toNat = position) (hboot : bootInfo.toNat = areas.bootInfo) :
    ∃ s', parseEntry fuel current bootInfo s = .ok () s' ∧ s'.emm.end_ = s.emm.end_ ∧
      Progress areas before s' (pieces ++ [entry.piece]) name commandLine := by
  obtain ⟨load₁, load₂, load₃⟩ :=
    MemoryMapEntry.loads (progress.parsed.holds there outside) bound hcurrent
  exact progress.withRegion usable load₁ load₂ load₃ fits enough hboot

/-- The loop over the entries of a memory map. -/
theorem Progress.withEntries {entries : List MemoryMapEntry} {entrySize : UInt32}
    {tag current bootInfo end_ : UInt32} {t rounds : ℕ}
    (progress : Progress areas before s pieces name commandLine) (usable : areas.Usable before)
    (there : before.Holds ⟨(), position⟩ (entries.flatMap MemoryMapEntry.bytes))
    (outside : areas.Outside position (entries.flatMap MemoryMapEntry.bytes).length)
    (sized : ∀ entry ∈ entries, entry.bytes.length = entrySize.toNat)
    (sizeField : before.Holds ⟨(), t + 8⟩ (bytes32 entrySize))
    (sizeOutside : areas.Outside (t + 8) 4)
    (fits : extent pieces + 20 * entries.length ≤ areas.capacity)
    (enough : extent pieces + 20 * entries.length < fuel) (left : entries.length < rounds)
    (htag : (tag + 8).toNat = t + 8) (hcurrent : current.toNat = position)
    (hboot : bootInfo.toNat = areas.bootInfo)
    (hend : end_.toNat = position + (entries.flatMap MemoryMapEntry.bytes).length) :
    ∃ s', parseMemoryMapLoop fuel tag bootInfo end_ rounds current s = .ok () s' ∧
      s'.emm.end_ = s.emm.end_ ∧
      Progress areas before s' (pieces ++ entries.map MemoryMapEntry.piece) name commandLine := by
  induction entries generalizing s pieces position current rounds with
  | nil =>
      cases rounds with
      | zero => exact absurd left (Nat.not_lt_zero _)
      | succ rounds =>
          have done : ¬current < end_ := by
            rw [UInt32.lt_iff_toNat_lt, hcurrent, hend]
            exact Nat.lt_irrefl _
          refine ⟨s, ?_, rfl, ?_⟩
          · rw [parseMemoryMapLoop, if_neg done]
            rfl
          · rw [List.map_nil, List.append_nil]
            exact progress
  | cons entry entries ih =>
      cases rounds with
      | zero => exact absurd left (Nat.not_lt_zero _)
      | succ rounds =>
          have limit := end_.toNat_lt
          have size := sized entry List.mem_cons_self
          have long := entry.length_bytes
          rw [List.flatMap_cons, List.length_append] at outside hend
          rw [List.flatMap_cons, ByteMemory.holds_append] at there
          have behind : before.Holds ⟨(), position + entry.bytes.length⟩
              (entries.flatMap MemoryMapEntry.bytes) := there.2
          rw [List.length_cons] at fits enough left
          have beside := outside.1
          have beside' := outside.2
          have more : current < end_ := by
            rw [UInt32.lt_iff_toNat_lt, hcurrent, hend]
            omega
          have first := outside.part le_rfl (Nat.add_le_add_left (Nat.le_add_right _ _) position)
          have others := outside.part (Nat.le_add_right _ _) (Nat.add_assoc _ _ _).le
          have enough₁ : extent pieces < fuel := by omega
          obtain ⟨s₁, run, kept₁, progress₁⟩ := progress.withEntry usable there.1 first (by omega)
            (by omega) enough₁ hcurrent hboot
          have next : (current + entrySize).toNat = position + entry.bytes.length :=
            toNat_add_of_lt hcurrent size.symm (by omega)
          have reads := progress₁.reads sizeField sizeOutside htag
          have grown : extent (pieces ++ [entry.piece]) = extent pieces + 20 := by
            rw [extent_append, extent_cons, extent_nil, entry.size_piece]
          obtain ⟨s₂, rest, kept₂, progress₂⟩ := ih progress₁ behind others
            (fun entry' mem => sized entry' (List.mem_cons_of_mem _ mem)) (by omega) (by omega)
            (Nat.lt_of_succ_lt_succ left) next (by omega)
          refine ⟨s₂, ?_, kept₂.trans kept₁, ?_⟩
          · rw [parseMemoryMapLoop, if_pos more, Machine.bind_of_ok run, Machine.bind_of_ok reads]
            exact rest
          · rw [List.map_cons, ← List.singleton_append, ← List.append_assoc]
            exact progress₂

/-! ## Modules -/

/-- The range goes from the tag to a fresh module, which has no next module. -/
theorem module_stores {memory : ByteMemory Unit} {modStart modEnd tag mod : UInt32} {n : ℕ}
    (emm : Emm) (start : memory.Holds ⟨(), position + 8⟩ (bytes32 modStart))
    (end_ : memory.Holds ⟨(), position + 12⟩ (bytes32 modEnd)) (room : memory.Room ⟨(), n⟩ 16)
    (apart : position + 16 ≤ n ∨ n + 16 ≤ position + 8) (here : mod.toNat = n)
    (htag : tag.toNat = position) (bound : position + 16 < 2 ^ 32) (bound' : n + 16 < 2 ^ 32)
    (rest : KernelM BootState Unit) :
    (do
        let modStart ← load32 (tag + 8)
        store32 mod modStart
        let modEnd ← load32 (tag + 12)
        store32 (mod + 4) modEnd
        store32 (mod + 12) 0
        rest) ⟨memory, emm⟩ =
      rest ⟨(memory.overwrite ⟨(), n⟩ (bytes32 modStart ++ bytes32 modEnd)).overwrite
        ⟨(), n + 12⟩ (link 0), emm⟩ := by
  have at₈ : (tag + 8).toNat = position + 8 := toNat_add_of_lt htag rfl (by omega)
  have at₁₂ : (tag + 12).toNat = position + 12 := toNat_add_of_lt htag rfl (by omega)
  have field₄ : (mod + 4).toNat = n + (bytes32 modStart).length := by
    rw [length_bytes32]
    exact toNat_add_of_lt here rfl (by omega)
  have field₁₂ : (mod + 12).toNat = n + 12 := toNat_add_of_lt here rfl (by omega)
  have both : (bytes32 modStart ++ bytes32 modEnd).length = 8 := by
    rw [List.length_append, length_bytes32, length_bytes32]
  have rangeRoom : memory.Room ⟨(), n⟩ (bytes32 modStart ++ bytes32 modEnd).length :=
    room.part (i := 0) (by rw [both]; omega)
  have nextRoom : (memory.overwrite ⟨(), n⟩ (bytes32 modStart ++ bytes32 modEnd)).Room
      ⟨(), n + 12⟩ 4 :=
    (ByteMemory.room_overwrite rangeRoom).2 (room.part (i := 12) le_rfl)
  have end₁ : (memory.overwrite ⟨(), n⟩ (bytes32 modStart)).Holds ⟨(), position + 12⟩
      (bytes32 modEnd) := by
    refine end_.overwrite (apart_of ?_)
    rw [length_bytes32, length_bytes32]
    omega
  have load₁ := load32_of_holds (s := ⟨memory, emm⟩) at₈ start
  have store₁ := store32_of_room (s := ⟨memory, emm⟩) modStart here (room.part (i := 0) (by omega))
  have load₂ := load32_of_holds (s := ⟨memory.overwrite ⟨(), n⟩ (bytes32 modStart), emm⟩) at₁₂ end₁
  have store₂ := store32_behind memory emm (bytes32 modStart) modEnd field₄
    (room.part (i := 0) (by rw [length_bytes32]; omega))
  have store₃ := store32_of_room
    (s := ⟨memory.overwrite ⟨(), n⟩ (bytes32 modStart ++ bytes32 modEnd), emm⟩) 0 field₁₂ nextRoom
  rw [Machine.bind_of_ok load₁, Machine.bind_of_ok store₁, Machine.bind_of_ok load₂,
    Machine.bind_of_ok store₂, Machine.bind_of_ok store₃]
  rfl

theorem length_range (modStart modEnd : UInt32) :
    (bytes32 modStart ++ bytes32 modEnd).length = 8 := by
  rw [List.length_append, length_bytes32, length_bytes32]

/-- Behind the pieces there may be a module without its command line. -/
theorem Parsed.rawModule {memory : ByteMemory Unit}
    (parsed : Parsed areas before memory pieces [] name commandLine) (usable : areas.Usable before)
    (fits : extent pieces + 16 ≤ areas.capacity) (modStart modEnd : UInt32) :
    Parsed areas before ((memory.overwrite ⟨(), areas.heap + extent pieces⟩
        (bytes32 modStart ++ bytes32 modEnd)).overwrite
          ⟨(), areas.heap + extent pieces + 12⟩ (link 0)) pieces [] name commandLine ∧
      ((memory.overwrite ⟨(), areas.heap + extent pieces⟩
        (bytes32 modStart ++ bytes32 modEnd)).overwrite
          ⟨(), areas.heap + extent pieces + 12⟩ (link 0)).Holds
            ⟨(), areas.heap + extent pieces⟩ (bytes32 modStart ++ bytes32 modEnd) := by
  have range := length_range modStart modEnd
  constructor
  · refine (parsed.fresh usable le_rfl ?_).fresh usable (Nat.le_add_right _ _) ?_
    · rw [range]
      omega
    · rw [length_link]
      omega
  · refine (ByteMemory.holds_overwrite _ _ _).overwrite (apart_of ?_)
    rw [range]
    omega

/-- A fresh module behind the pieces has its range and no next module. -/
theorem Parsed.startModule {memory : ByteMemory Unit} {modStart modEnd tag mod : UInt32} (emm : Emm)
    (parsed : Parsed areas before memory pieces [] name commandLine) (usable : areas.Usable before)
    (start : before.Holds ⟨(), position + 8⟩ (bytes32 modStart))
    (end_ : before.Holds ⟨(), position + 12⟩ (bytes32 modEnd))
    (outside : areas.Outside (position + 8) 8) (bound : position + 16 < 2 ^ 32)
    (fits : extent pieces + 16 ≤ areas.capacity) (htag : tag.toNat = position)
    (here : mod.toNat = areas.heap + extent pieces) :
    ∃ memory', (∀ rest : KernelM BootState Unit, (do
          let modStart ← load32 (tag + 8)
          store32 mod modStart
          let modEnd ← load32 (tag + 12)
          store32 (mod + 4) modEnd
          store32 (mod + 12) 0
          rest) ⟨memory, emm⟩ = rest ⟨memory', emm⟩) ∧
      Parsed areas before memory' pieces [] name commandLine ∧
      memory'.Holds ⟨(), areas.heap + extent pieces⟩ (bytes32 modStart ++ bytes32 modEnd) ∧
      memory'.Holds ⟨(), areas.heap + extent pieces + 12⟩ (link 0) := by
  have heapBound := usable.heapBound
  have beside := outside.1
  have start' := parsed.holds start (by
    rw [length_bytes32]
    exact outside.part le_rfl (by omega))
  have end' := parsed.holds end_ (by
    rw [length_bytes32]
    exact outside.part (by omega) (by omega))
  have free := parsed.heapRoom usable (Nat.le_add_right _ _) (show
    areas.heap + extent pieces + 16 ≤ areas.heap + areas.capacity by omega)
  obtain ⟨parsed', range⟩ := parsed.rawModule usable fits modStart modEnd
  exact ⟨_, module_stores emm start' end' free (by omega) here htag bound (by omega), parsed',
    range, ByteMemory.holds_overwrite _ _ _⟩

/-- The copy of the command line completes the module. -/
theorem holds_moduleBytes {memory : ByteMemory Unit} {modStart modEnd : UInt32} {n : ℕ}
    (range : memory.Holds ⟨(), n⟩ (bytes32 modStart ++ bytes32 modEnd))
    (next : memory.Holds ⟨(), n + 12⟩ (link 0)) (string : List UInt8) :
    ((memory.overwrite ⟨(), n + 8⟩ (link (n + 16))).overwrite ⟨(), n + 16⟩ string).Holds ⟨(), n⟩
      (moduleBytes modStart modEnd (n + 16) ++ link 0) := by
  have length := length_range modStart modEnd
  rw [ByteMemory.holds_append, length_moduleBytes, moduleBytes, ← List.append_assoc,
    ByteMemory.holds_append, length]
  refine ⟨⟨?_, ?_⟩, ?_⟩
  · refine (range.overwrite (apart_of ?_)).overwrite (apart_of ?_)
    · rw [length, length_link]
      omega
    · rw [length]
      omega
  · refine (ByteMemory.holds_overwrite _ _ _).overwrite (apart_of ?_)
    rw [length_link]
    omega
  · refine (next.overwrite (apart_of ?_)).overwrite (apart_of ?_)
    · rw [length_link, length_link]
      omega
    · rw [length_link]
      omega

/-- A linked module and the copy of its command line are two more pieces. -/
theorem Progress.snocModule {modStart modEnd : UInt32} {memory : ByteMemory Unit} {emm : Emm}
    {bytes : List UInt8} (progress : Progress areas before s pieces name commandLine)
    (usable : areas.Usable before)
    (parsed : Parsed areas before memory pieces [.node .modules
      (moduleBytes modStart modEnd (areas.heap + extent pieces + 16))] name commandLine)
    (range : memory.Holds ⟨(), areas.heap + extent pieces⟩ (bytes32 modStart ++ bytes32 modEnd))
    (next : memory.Holds ⟨(), areas.heap + extent pieces + 12⟩ (link 0))
    (fits : extent pieces + (16 + bytes.length) ≤ areas.capacity)
    (cursor : emm.cursor.toNat = areas.heap + extent pieces + 16 + bytes.length)
    (room : emm.end_ = s.emm.end_) :
    Progress areas before
      ⟨(memory.overwrite ⟨(), areas.heap + extent pieces + 8⟩
        (link (areas.heap + extent pieces + 16))).overwrite
          ⟨(), areas.heap + extent pieces + 16⟩ bytes, emm⟩
      (pieces ++ [.node .modules
        (moduleBytes modStart modEnd (areas.heap + extent pieces + 16)), .loose bytes])
      name commandLine := by
  have length := length_moduleBytes modStart modEnd (areas.heap + extent pieces + 16)
  have pointed : areas.heap + extent pieces + 8 + (link (areas.heap + extent pieces + 16)).length ≤
      areas.heap + areas.capacity := by
    rw [length_link]
    omega
  have linked := ((parsed.fresh usable (Nat.le_add_right _ _) pointed).fresh usable
    (Nat.le_add_right _ _) (by omega)).pushNode (holds_moduleBytes range next bytes)
  have copy := ByteMemory.holds_overwrite (memory.overwrite ⟨(), areas.heap + extent pieces + 8⟩
    (link (areas.heap + extent pieces + 16))) ⟨(), areas.heap + extent pieces + 16⟩ bytes
  have behind : areas.heap + extent (pieces ++ [.node BootList.modules
      (moduleBytes modStart modEnd (areas.heap + extent pieces + 16))]) =
        areas.heap + extent pieces + 16 := by
    rw [extent_append, extent_cons, extent_nil, Piece.size, length]
    omega
  have both : Parsed areas before _ (_ ++ [.loose bytes]) [] name commandLine :=
    linked.pushLoose (by rw [behind]; exact copy)
  rw [List.append_assoc] at both
  have amount : extent [.node BootList.modules (moduleBytes modStart modEnd
      (areas.heap + extent pieces + 16)), .loose bytes] = 16 + bytes.length := by
    rw [extent_cons, extent_cons, extent_nil, Piece.size, Piece.size, length]
    rfl
  refine progress.append both ?_ room ?_ ?_
  · rw [cursor, amount, Nat.add_assoc _ 16]
  · rw [amount, List.length_cons, List.length_singleton]
    omega
  · intro list content mem
    rcases List.mem_cons.1 mem with isNode | mem
    · cases isNode
      exact length
    · cases List.mem_singleton.1 mem

/-- A fresh module is linked before it has its command line, and keeps its fields. -/
theorem Progress.linkModule {modStart modEnd bootInfo : UInt32} {memory : ByteMemory Unit}
    (emm : Emm) (progress : Progress areas before s pieces name commandLine)
    (usable : areas.Usable before)
    (parsed : Parsed areas before memory pieces [] name commandLine)
    (range : memory.Holds ⟨(), areas.heap + extent pieces⟩ (bytes32 modStart ++ bytes32 modEnd))
    (next : memory.Holds ⟨(), areas.heap + extent pieces + 12⟩ (link 0))
    (fits : extent pieces + 16 ≤ areas.capacity) (enough : extent pieces < fuel)
    (hboot : bootInfo.toNat = areas.bootInfo) :
    ∃ memory', appendNode fuel 12 (bootInfo + 16) s.emm.cursor ⟨memory, emm⟩ =
        .ok () ⟨memory', emm⟩ ∧
      Parsed areas before memory' pieces [.node .modules
        (moduleBytes modStart modEnd (areas.heap + extent pieces + 16))] name commandLine ∧
      memory'.Holds ⟨(), areas.heap + extent pieces⟩ (bytes32 modStart ++ bytes32 modEnd) ∧
      memory'.Holds ⟨(), areas.heap + extent pieces + 12⟩ (link 0) := by
  have bootBound := usable.bootBound
  have bootSlot : (bootInfo + 16).toNat = areas.slot .modules :=
    toNat_add_of_lt hboot rfl (by omega)
  have short : pieces.length < fuel := progress.short.trans_lt enough
  have twelve : (12 : UInt32).toNat = BootList.modules.linkOffset := rfl
  obtain ⟨memory', run, parsed', stays⟩ := parsed.appendNode (s := ⟨memory, emm⟩) usable
    (by omega) (progress.links .modules) twelve short bootSlot progress.cursor
    (moduleBytes modStart modEnd (areas.heap + extent pieces + 16))
  refine ⟨memory', run, parsed', stays _ _ le_rfl ?_ range,
    stays _ _ (Nat.le_add_right _ _) ?_ next⟩
  · rw [length_range]
    omega
  · rw [length_link]
    omega

/-- A module tag becomes a module and its command line. -/
theorem Progress.withModule {modStart modEnd : UInt32} {tag bootInfo : UInt32}
    (progress : Progress areas before s pieces name commandLine) (usable : areas.Usable before)
    (start : before.Holds ⟨(), position + 8⟩ (bytes32 modStart))
    (end_ : before.Holds ⟨(), position + 12⟩ (bytes32 modEnd))
    (source : before.Holds ⟨(), position + 16⟩ (string ++ [0]))
    (outside : areas.Outside (position + 8) (8 + (string.length + 1))) (noZero : 0 ∉ string)
    (bound : position + 16 < 2 ^ 32)
    (fits : extent pieces + (16 + (string.length + 1)) ≤ areas.capacity)
    (enough : extent pieces + (16 + (string.length + 1)) < fuel)
    (htag : tag.toNat = position) (hboot : bootInfo.toNat = areas.bootInfo) :
    ∃ s', parseModule fuel tag bootInfo s = .ok () s' ∧ s'.emm.end_ = s.emm.end_ ∧
      Progress areas before s' (pieces ++ [.node .modules
          (moduleBytes modStart modEnd (areas.heap + extent pieces + 16)), .loose (string ++ [0])])
        name commandLine := by
  have heapBound := usable.heapBound
  have bootBound := usable.bootBound
  have heapPos := usable.heapPos
  have hc := progress.cursor
  have room := progress.room
  have beside := outside.1
  have beside' := outside.2
  have amount : sizeofBootModule.toNat = 16 := rfl
  obtain ⟨emm, alloc, cursor, kept⟩ := onEarlyHeap_of_room hc amount (by omega)
  obtain ⟨memory₁, stores, parsed₁, range₁, next₁⟩ := progress.parsed.startModule emm usable start
    end_ (outside.part le_rfl (by omega)) bound (by omega) htag hc
  obtain ⟨memory₂, run, parsed₂, range₂, next₂⟩ := progress.linkModule emm usable parsed₁ range₁
    next₁ (by omega) (show extent pieces < fuel by omega) hboot
  have field : (s.emm.cursor + 8).toNat = areas.heap + extent pieces + 8 :=
    toNat_add_of_lt hc rfl (by omega)
  have at₁₆ : (tag + 16).toNat = position + 16 := toNat_add_of_lt htag rfl (by omega)
  have counted : string.length < fuel := by omega
  have length : (string ++ [0]).length = string.length + 1 := by
    rw [List.length_append, List.length_singleton]
  obtain ⟨emm', copied, cursor', kept'⟩ := copyString_eq (s := ⟨memory₂, emm⟩) field at₁₆ cursor
    (by omega) (by omega) (by rw [kept]; omega) noZero counted
    (parsed₂.holds source (by rw [length]; exact outside.part (by omega) (by omega)))
    (parsed₂.heapRoom usable (by omega) (by omega))
    (parsed₂.heapRoom usable (by omega) (by omega)) (by omega) (by omega) (by omega)
  unfold parseModule
  rw [Machine.bind_of_ok alloc, stores, Machine.bind_of_ok run]
  rw [← length] at cursor'
  exact ⟨_, copied, kept'.trans kept, progress.snocModule usable parsed₂ range₂ next₂
    (by rw [length]; exact fits) cursor' (kept'.trans kept)⟩

end Handlers

end ArkoiOs
