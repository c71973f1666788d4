import ArkoiOs.Multiboot2.TagLoop

/-!
# The boot information of the tags

The pieces of the tags hold what the tags say: the lists of `boot_info_t` have
the regions and modules of the tags in order, and its strings are those of the
last tags that have one.
-/

namespace ArkoiOs

open Piece

/-! ## Regions -/

/-- The regions of a list are those of the entries that go there. -/
theorem contents_entries (list : BootList) (entries : List MemoryMapEntry) :
    contents list (entries.map MemoryMapEntry.piece) =
      (entries.filter fun entry => regionList entry.type = some list).map fun entry =>
        entry.region.bytes := by
  induction entries with
  | nil => rfl
  | cons entry entries ih =>
      rw [List.map_cons, List.filter_cons, MemoryMapEntry.piece]
      cases regionList entry.type with
      | none => exact ih
      | some list' =>
          simp only [contents, ih, Option.some.injEq, decide_eq_true_eq]
          split <;> rfl

/-- The list of the entries of one type. -/
theorem contents_tagsPieces {list : BootList} {type : UInt32} (isRegion : list ≠ .modules)
    (goes : ∀ type', regionList type' = some list ↔ type' = type) (start : ℕ) (tags : List Tag) :
    contents list (tagsPieces start tags) =
      (tags.flatMap (Tag.regions type)).map BootMemoryRegion.bytes := by
  induction tags generalizing start with
  | nil => rfl
  | cons tag tags ih =>
      rw [tagsPieces, contents_append, ih, List.flatMap_cons, List.map_append]
      congr 1
      cases tag with
      | commandLine string slack => rfl
      | loaderName string slack => rfl
      | module modStart modEnd string slack => exact if_neg isRegion.symm
      | memoryMap entrySize entryVersion entries =>
          simp only [Tag.pieces, contents_entries, goes, Tag.regions, List.map_map]
          rfl
      | other type' body => rfl

theorem regionList_ram (type : UInt32) :
    regionList type = some .ram ↔ type = multiboot2MemoryAvailable := by
  unfold regionList
  split
  · exact iff_of_true rfl ‹_›
  · refine iff_of_false ?_ ‹_›
    split <;> intro same <;> cases same

theorem regionList_reserved (type : UInt32) :
    regionList type = some .reserved ↔ type = multiboot2MemoryReserved := by
  unfold regionList
  split
  · rename_i available
    rw [available]
    refine iff_of_false ?_ ?_ <;> intro same <;> cases same
  · split
    · exact iff_of_true rfl ‹_›
    · refine iff_of_false ?_ ‹_›
      intro same
      cases same

theorem regionList_ne_modules (type : UInt32) : regionList type ≠ some .modules := by
  unfold regionList
  split
  · intro same
    cases same
  · split <;> intro same <;> cases same

/-! ## What the pieces of the tags hold -/

section Pieces

variable {memory : ByteMemory Unit} {start : ℕ} {tag : Tag} {tags : List Tag}

/-- The pieces of the first tag and those of the others. -/
theorem holds_tagsPieces
    (there : memory.Holds ⟨(), start⟩ (image [] start (tagsPieces start (tag :: tags)))) :
    memory.Holds ⟨(), start⟩
        (image (tagsPieces (start + tag.heapNeed) tags) start (tag.pieces start)) ∧
      memory.Holds ⟨(), start + tag.heapNeed⟩
        (image [] (start + tag.heapNeed) (tagsPieces (start + tag.heapNeed) tags)) := by
  rw [tagsPieces, image_append, ByteMemory.holds_append, length_image, List.append_nil,
    tag.extent_pieces] at there
  exact there

theorem extent_tagsPieces (start : ℕ) (tags : List Tag) :
    extent (tagsPieces start tags) = heapNeed tags := by
  induction tags generalizing start with
  | nil => rfl
  | cons tag tags ih =>
      rw [tagsPieces, extent_append, tag.extent_pieces, ih]
      rfl

/-- The modules of a list of tags. -/
theorem modules_tagsPieces (wellFormed : ∀ tag ∈ tags, tag.WellFormed) (positive : 0 < start)
    (bound : start + heapNeed tags < 2 ^ 32)
    (there : memory.Holds ⟨(), start⟩ (image [] start (tagsPieces start tags))) :
    List.Forall₂ (ModuleAt memory) (contents .modules (tagsPieces start tags))
      (tags.filterMap Tag.module?) := by
  induction tags generalizing start with
  | nil => exact .nil
  | cons tag tags ih =>
      obtain ⟨first, others⟩ := holds_tagsPieces there
      have need : heapNeed (tag :: tags) = tag.heapNeed + heapNeed tags := rfl
      rw [need] at bound
      have rest := ih (fun tag' mem => wellFormed tag' (List.mem_cons_of_mem _ mem)) (by omega)
        (by omega) others
      rw [tagsPieces, contents_append]
      have this := wellFormed tag List.mem_cons_self
      cases tag with
      | commandLine string slack => exact rest
      | loaderName string slack => exact rest
      | module modStart modEnd string slack =>
          rw [Tag.pieces, image, image, image, List.append_nil, ByteMemory.holds_append,
            List.length_append, length_moduleBytes, length_link] at first
          have size : (Tag.module modStart modEnd string slack).heapNeed =
            16 + (string.length + 1) := rfl
          exact .cons ⟨start + 16, by omega, rfl, Nat.succ_ne_zero _, this, first.2⟩ rest
      | memoryMap entrySize entryVersion entries =>
          have none : contents .modules (entries.map MemoryMapEntry.piece) = [] := by
            simp only [contents_entries, regionList_ne_modules, decide_false, List.filter_false,
              List.map_nil]
          rw [Tag.pieces, none]
          exact rest
      | other type body => exact rest

/-- The last string of the tags is where its field points. -/
theorem string_tagsPieces {string? : Tag → Option (List UInt8)} {address : ℕ}
    {string : Option (List UInt8)}
    (copied : ∀ tag ∈ tags, ∀ string', string? tag = some string' →
      0 ∉ string' ∧ ∀ start, tag.pieces start = [.loose (string' ++ [0])])
    (positive : 0 < start)
    (there : memory.Holds ⟨(), start⟩ (image [] start (tagsPieces start tags)))
    (here : StringAt memory address string) (below : address ≤ start) :
    StringAt memory (stringPointers string? start address tags)
        ((tags.filterMap string?).getLast?.or string) ∧
      stringPointers string? start address tags ≤ start + heapNeed tags := by
  induction tags generalizing start address string with
  | nil => exact ⟨here, below⟩
  | cons tag tags ih =>
      obtain ⟨first, others⟩ := holds_tagsPieces there
      have copied' := fun tag' mem => copied tag' (List.mem_cons_of_mem tag mem)
      have need : start + heapNeed (tag :: tags) = start + tag.heapNeed + heapNeed tags :=
        (Nat.add_assoc _ _ _).symm
      rw [stringPointers, need, List.filterMap_cons]
      cases found : string? tag with
      | none => exact ih copied' (by omega) others here (below.trans (Nat.le_add_right _ _))
      | some string' =>
          obtain ⟨noZero, only⟩ := copied tag List.mem_cons_self string' found
          rw [only, image_loose] at first
          have last : StringAt memory start (some string') :=
            ⟨Nat.ne_of_gt positive, noZero, first⟩
          have rest := ih copied' (by omega) others last (Nat.le_add_right _ _)
          have or_some : (string' :: tags.filterMap string?).getLast?.or string =
              (tags.filterMap string?).getLast?.or (some string') := by
            rw [List.getLast?_cons]
            cases (tags.filterMap string?).getLast? <;> rfl
          rw [or_some]
          exact rest

/-- A tag with one of the two strings is copied as it stands. -/
theorem Tag.pieces_of_string {string : List UInt8} (wellFormed : tag.WellFormed)
    (found : tag.loaderName? = some string ∨ tag.commandLine? = some string) :
    0 ∉ string ∧ ∀ start, tag.pieces start = [.loose (string ++ [0])] := by
  cases tag with
  | commandLine string' slack =>
      rcases found with found | found <;> cases found
      exact ⟨wellFormed, fun _ => rfl⟩
  | loaderName string' slack =>
      rcases found with found | found <;> cases found
      exact ⟨wellFormed, fun _ => rfl⟩
  | module modStart modEnd string' slack => rcases found with found | found <;> cases found
  | memoryMap entrySize entryVersion entries => rcases found with found | found <;> cases found
  | other type body => rcases found with found | found <;> cases found

end Pieces

/-! ## Memory holds one boot information -/

section Unique

variable {memory : ByteMemory Unit} {address : ℕ}

theorem StringAt.unique {string string' : Option (List UInt8)} (h : StringAt memory address string)
    (h' : StringAt memory address string') : string = string' := by
  cases string with
  | none =>
      cases string' with
      | none => rfl
      | some string' => exact absurd h h'.1
  | some string =>
      cases string' with
      | none => exact absurd h' h.1
      | some string' => rw [h.2.2.unique_terminated h.2.1 h'.2.1 h'.2.2]

theorem link_unique {p q : ℕ} (hp : p < 2 ^ 32) (hq : q < 2 ^ 32)
    (h : memory.Holds ⟨(), address⟩ (link p)) (h' : memory.Holds ⟨(), address⟩ (link q)) : p = q :=
  link_inj hp hq (h.unique h' ((length_link p).trans (length_link q).symm))

theorem bytes64_injective : Function.Injective bytes64 := fun a b same =>
  UInt64.toNat_inj.1 (LittleEndian.encode_inj a.toNat_lt b.toNat_lt same)

theorem bytes32_injective : Function.Injective bytes32 := fun a b same =>
  UInt32.toNat_inj.1 (LittleEndian.encode_inj a.toNat_lt b.toNat_lt same)

theorem BootMemoryRegion.bytes_injective : Function.Injective BootMemoryRegion.bytes := by
  rintro ⟨base, length⟩ ⟨base', length'⟩ same
  obtain ⟨first, second⟩ := List.append_inj same ((length_bytes64 _).trans (length_bytes64 _).symm)
  cases bytes64_injective first
  cases bytes64_injective second
  rfl

theorem ModuleAt.unique {content : List UInt8} {mod mod' : BootModule}
    (h : ModuleAt memory content mod) (h' : ModuleAt memory content mod') : mod = mod' := by
  obtain ⟨p, hp, rfl, string⟩ := h
  obtain ⟨q, hq, same, string'⟩ := h'
  obtain ⟨start, rest⟩ := List.append_inj same ((length_bytes32 _).trans (length_bytes32 _).symm)
  obtain ⟨end_, address⟩ := List.append_inj rest ((length_bytes32 _).trans (length_bytes32 _).symm)
  rw [← link_inj hp hq address] at string'
  obtain ⟨modStart, modEnd, commandLine⟩ := mod
  obtain ⟨modStart', modEnd', commandLine'⟩ := mod'
  cases bytes32_injective start
  cases bytes32_injective end_
  cases string.unique string'
  rfl

/-- The regions of a list are determined. -/
theorem regions_unique {p : ℕ} {regions regions' : List BootMemoryRegion}
    (h : memory.LinkedList () p (regions.map BootMemoryRegion.bytes))
    (h' : memory.LinkedList () p (regions'.map BootMemoryRegion.bytes)) : regions = regions' := by
  have wide : ∀ regions : List BootMemoryRegion,
      ∀ content ∈ regions.map BootMemoryRegion.bytes, content.length = 16 := by
    intro regions content mem
    obtain ⟨region, -, rfl⟩ := List.mem_map.1 mem
    exact region.length_bytes
  exact BootMemoryRegion.bytes_injective.list_map (h.unique h' (wide regions) (wide regions'))

theorem modules_unique {p : ℕ} {contents contents' : List (List UInt8)}
    {mods mods' : List BootModule} (h : memory.LinkedList () p contents)
    (h' : memory.LinkedList () p contents') (at_ : List.Forall₂ (ModuleAt memory) contents mods)
    (at' : List.Forall₂ (ModuleAt memory) contents' mods') : mods = mods' := by
  have wide : ∀ {contents : List (List UInt8)} {mods : List BootModule},
      List.Forall₂ (ModuleAt memory) contents mods → ∀ content ∈ contents, content.length = 12 := by
    intro contents mods all
    induction all with
    | nil => exact fun _ mem => absurd mem List.not_mem_nil
    | cons first _ ih =>
        intro content mem
        rcases List.mem_cons.1 mem with rfl | mem
        · obtain ⟨_, _, rfl, _⟩ := first
          exact length_moduleBytes _ _ _
        · exact ih content mem
  obtain rfl := h.unique h' (wide at_) (wide at')
  have unique : Relator.RightUnique (ModuleAt memory) := fun _ _ _ => ModuleAt.unique
  exact unique.forall₂ at_ at'

/-- Memory holds at most one boot information at an address. -/
theorem BootInfoAt.unique {info info' : BootInfo} (h : BootInfoAt memory address info)
    (h' : BootInfoAt memory address info') : info = info' := by
  obtain ⟨⟨p₁, b₁, f₁, name⟩, ⟨p₂, b₂, f₂, commandLine⟩, ⟨p₃, b₃, f₃, ram⟩,
    ⟨p₄, b₄, f₄, reserved⟩, ⟨p₅, b₅, f₅, _, nodes, mods⟩⟩ := h
  obtain ⟨⟨q₁, c₁, g₁, name'⟩, ⟨q₂, c₂, g₂, commandLine'⟩, ⟨q₃, c₃, g₃, ram'⟩,
    ⟨q₄, c₄, g₄, reserved'⟩, ⟨q₅, c₅, g₅, _, nodes', mods'⟩⟩ := h'
  cases link_unique b₁ c₁ f₁ g₁
  cases link_unique b₂ c₂ f₂ g₂
  cases link_unique b₃ c₃ f₃ g₃
  cases link_unique b₄ c₄ f₄ g₄
  cases link_unique b₅ c₅ f₅ g₅
  obtain ⟨infoName, infoCommandLine, infoRam, infoReserved, infoModules⟩ := info
  obtain ⟨infoName', infoCommandLine', infoRam', infoReserved', infoModules'⟩ := info'
  cases name.unique name'
  cases commandLine.unique commandLine'
  cases regions_unique ram ram'
  cases regions_unique reserved reserved'
  cases modules_unique nodes nodes' mods mods'
  rfl

end Unique

/-! ## The parser -/

/-- With the pieces of the tags in the heap, `boot_info_t` holds what they say. -/
theorem Progress.bootInfoAt {areas : BootAreas} {before : ByteMemory Unit} {s : BootState}
    {tags : List Tag}
    (progress : Progress areas before s (tagsPieces areas.heap tags)
      (stringPointers Tag.loaderName? areas.heap 0 tags)
      (stringPointers Tag.commandLine? areas.heap 0 tags))
    (usable : areas.Usable before) (wellFormed : ∀ tag ∈ tags, tag.WellFormed)
    (fits : heapNeed tags ≤ areas.capacity) :
    BootInfoAt s.memory areas.bootInfo (decoded tags) := by
  have parsed := progress.parsed
  have image := parsed.image
  have positive := usable.heapPos
  have bound : areas.heap + heapNeed tags < 2 ^ 32 := by
    have heapBound := usable.heapBound
    omega
  have nodes : ∀ list, next list areas.heap (tagsPieces areas.heap tags) < 2 ^ 32 := by
    intro list
    have below := next_le list areas.heap (tagsPieces areas.heap tags)
    rw [extent_tagsPieces] at below
    omega
  have lists : ∀ list, s.memory.LinkedList () (next list areas.heap (tagsPieces areas.heap tags))
      (contents list (tagsPieces areas.heap tags)) := by
    intro list
    refine image.linkedList positive ?_
    rw [extent_tagsPieces]
    exact bound
  have slots := parsed.slots
  rw [List.append_nil] at slots
  have null : StringAt s.memory 0 none := rfl
  obtain ⟨name, nameBound⟩ := string_tagsPieces
    (fun tag mem _ found => Tag.pieces_of_string (wellFormed tag mem) (Or.inl found)) positive
    image null (Nat.zero_le _)
  obtain ⟨commandLine, commandLineBound⟩ := string_tagsPieces
    (fun tag mem _ found => Tag.pieces_of_string (wellFormed tag mem) (Or.inr found)) positive
    image null (Nat.zero_le _)
  rw [Option.or_none] at name commandLine
  refine ⟨⟨_, nameBound.trans_lt bound, parsed.name, name⟩,
    ⟨_, commandLineBound.trans_lt bound, parsed.commandLine, commandLine⟩,
    ⟨_, nodes .ram, slots .ram, ?_⟩, ⟨_, nodes .reserved, slots .reserved, ?_⟩,
    ⟨_, nodes .modules, slots .modules, _, lists .modules,
      modules_tagsPieces wellFormed positive bound image⟩⟩
  · have regions := lists .ram
    rw [contents_tagsPieces (by simp) regionList_ram] at regions
    exact regions
  · have regions := lists .reserved
    rw [contents_tagsPieces (by simp) regionList_reserved] at regions
    exact regions

/-- Before the first tag all of `boot_info_t` is zero. -/
theorem Parsed.start {areas : BootAreas} {before : ByteMemory Unit}
    (usable : areas.Usable before) :
    Parsed areas before (before.overwrite ⟨(), areas.bootInfo⟩ (List.replicate 20 0))
      [] [] 0 0 := by
  have room : before.Room ⟨(), areas.bootInfo⟩ (List.replicate 20 (0 : UInt8)).length := by
    rw [List.length_replicate]
    exact usable.bootRoom
  have cleared := ByteMemory.holds_overwrite before ⟨(), areas.bootInfo⟩ (List.replicate 20 0)
  have zero : ∀ i, i + 4 ≤ 20 →
      (before.overwrite ⟨(), areas.bootInfo⟩ (List.replicate 20 0)).Holds ⟨(), areas.bootInfo + i⟩
        (link 0) := by
    intro i inside
    have parts : List.replicate 20 (0 : UInt8) =
        List.replicate i 0 ++ (List.replicate 4 0 ++ List.replicate (16 - i) 0) := by
      rw [List.replicate_append_replicate, List.replicate_append_replicate]
      congr 1
      omega
    rw [parts, ByteMemory.holds_append, ByteMemory.holds_append, List.length_replicate] at cleared
    rw [link, LittleEndian.encode_zero, parts]
    exact cleared.2.1
  refine ⟨ByteMemory.holds_nil _ _, fun list => ?_, zero 0 (by omega), zero 4 (by omega),
    fun position outside => ?_, fun p => ByteMemory.isSome_overwrite room p⟩
  · cases list with
    | ram => exact zero 8 (by omega)
    | reserved => exact zero 12 (by omega)
    | modules => exact zero 16 le_rfl
  · have far := outside.2
    rw [ByteMemory.byte_overwrite_of_apart]
    rw [List.length_replicate]
    exact apart_of far

/-- `boot_info_t` is cleared before the first tag. -/
theorem Progress.start {areas : BootAreas} {s : BootState} {bootInfo : UInt32}
    (usable : areas.Usable s.memory) (hboot : bootInfo.toNat = areas.bootInfo)
    (cursor : s.emm.cursor.toNat = areas.heap)
    (room : areas.heap + areas.capacity ≤ s.emm.end_.toNat) :
    ∃ memory, onMemory (kmemset (nullable bootInfo) 0 sizeofBootInfo) s =
        .ok (nullable bootInfo) ⟨memory, s.emm⟩ ∧
      Progress areas s.memory ⟨memory, s.emm⟩ [] 0 0 := by
  have target := nullable_of_pos hboot usable.bootPos
  have cleared : kmemset (nullable bootInfo) 0 sizeofBootInfo s.memory = .ok (nullable bootInfo)
      (s.memory.overwrite ⟨(), areas.bootInfo⟩ (List.replicate 20 0)) := by
    rw [target]
    exact kmemset_eq usable.bootRoom
  exact ⟨_, onMemory_of_ok cleared, Parsed.start usable, cursor, room,
    fun _ _ mem => absurd mem List.not_mem_nil, le_rfl⟩

/-- What the parser writes for the tags: the next bytes of the early heap, and
`boot_info_t`. -/
def bootAreas (s : BootState) (bootInfo : UInt32) (tags : List Tag) : BootAreas where
  heap := s.emm.cursor.toNat
  capacity := heapNeed tags
  bootInfo := bootInfo.toNat

/-- A call of the parser on a structure with the tags: the structure is below
2^32, the early heap has room for what the tags need, and the two and
`boot_info_t` do not overlap. -/
structure BootSetup (s : BootState) (mb2Info bootInfo totalSize : UInt32) (tags : List Tag) :
    Prop where
  header : s.memory.Holds ⟨(), mb2Info.toNat⟩ (bytes32 totalSize)
  headerFits : 8 ≤ totalSize.toNat
  below : mb2Info.toNat + totalSize.toNat < 2 ^ 32
  laidOut : LaidOut s.memory (mb2Info.toNat + totalSize.toNat) (mb2Info.toNat + 8) tags
  heapFits : s.emm.cursor.toNat + heapNeed tags ≤ s.emm.end_.toNat
  usable : (bootAreas s bootInfo tags).Usable s.memory
  outside : (bootAreas s bootInfo tags).Outside mb2Info.toNat totalSize.toNat

theorem LaidOut.wellFormed {memory : ByteMemory Unit} {limit position : ℕ} {tags : List Tag}
    (laidOut : LaidOut memory limit position tags) : ∀ tag ∈ tags, tag.WellFormed := by
  induction tags generalizing position with
  | nil => exact fun _ mem => absurd mem List.not_mem_nil
  | cons tag tags ih =>
      intro tag' mem
      rcases List.mem_cons.1 mem with rfl | mem
      · exact laidOut.1
      · exact ih laidOut.2.2.2 tag' mem

/-- The parser decodes the information structure: `boot_info_t` ends up with the
boot information of its tags. -/
theorem multiboot2ParseBootInfo_decodes {s : BootState} {mb2Info bootInfo totalSize : UInt32}
    {tags : List Tag} {fuel : ℕ} (setup : BootSetup s mb2Info bootInfo totalSize tags)
    (enough : tags.length + heapNeed tags < fuel) :
    ∃ s', multiboot2ParseBootInfo fuel mb2Info bootInfo s = .ok () s' ∧
      BootInfoAt s'.memory bootInfo.toNat (decoded tags) := by
  have usable := setup.usable
  have below := setup.below
  have headerFits := setup.headerFits
  obtain ⟨memory, cleared, progress⟩ := Progress.start usable rfl rfl setup.heapFits
  have reads := progress.reads setup.header (setup.outside.part le_rfl (by omega)) rfl
  have stop := toNat_add_of_lt (a := mb2Info) (b := totalSize) rfl rfl below
  have first : (mb2Info + 8).toNat = mb2Info.toNat + 8 := toNat_add_of_lt rfl rfl (by omega)
  have need : extent ([] : List (Piece BootList)) + heapNeed tags < fuel := by
    rw [extent_nil]
    omega
  have rounds : tags.length < fuel := by omega
  obtain ⟨s', run, -, done⟩ := progress.withTags usable setup.laidOut setup.outside
    (Nat.le_add_right _ _) (Nat.le_add_left _ _) (Nat.zero_add _).le need rounds first stop rfl
  refine ⟨s', ?_, done.bootInfoAt usable setup.laidOut.wellFormed le_rfl⟩
  unfold multiboot2ParseBootInfo
  rw [Machine.bind_of_ok cleared, Machine.bind_of_ok reads]
  exact run

/-- A command line, a memory map with an available and a reserved entry, and a
module. -/
def smallTags : List Tag :=
  [.commandLine [97] [],
    .memoryMap 24 0 [⟨0, 0x9FC00, 1, [0, 0, 0, 0]⟩, ⟨0x9FC00, 0x400, 2, [0, 0, 0, 0]⟩],
    .module 4096 8192 [98] []]

/-- The tags at 256 in 512 bytes, with the early heap from 160 to 220. -/
def smallState : BootState where
  memory := ByteMemory.overwrite (fun _ offset => if offset < 512 then some 0 else none) ⟨(), 256⟩
    (bytes32 120 ++ bytes32 0 ++ smallTags.flatMap fun tag =>
      tag.bytes ++ List.replicate (tag.padded - tag.size) 0)
  emm := ⟨160, 220⟩

theorem smallState_setup : BootSetup smallState 256 128 120 smallTags where
  header := by decide +kernel
  headerFits := by decide
  below := by decide
  laidOut := by decide +kernel
  heapFits := by decide
  usable := ⟨by decide +kernel, by decide +kernel, by decide, by decide, by decide, by decide,
    by decide⟩
  outside := by decide

theorem smallState_decodes : ∃ s', multiboot2ParseBootInfo 100 256 128 smallState = .ok () s' ∧
    BootInfoAt s'.memory 128
      { name := none
        commandLine := some [97]
        ramRegions := [⟨0, 0x9FC00⟩]
        reservedRegions := [⟨0x9FC00, 0x400⟩]
        modules := [⟨4096, 8192, [98]⟩] } :=
  multiboot2ParseBootInfo_decodes smallState_setup (by decide)

end ArkoiOs
