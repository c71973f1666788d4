import ArkoiOs.Multiboot2.Termination

/-!
# What the parser reads

With a part of memory the parser does what it does with all of it, until it misses
a byte.  It misses none outside the information structure and, in a handler, none
outside the tag, if each tag it comes to has what its handler reads; the parser
itself only looks where the tag starts.
-/

namespace ArkoiOs

open Piece Relation FuelLoop ByteMemory Machine

/-- The state with a part of the memory. -/
def BootState.only (s : BootState) (windows : List (Pointer Unit × ℕ)) : BootState :=
  { s with memory := s.memory.only windows }

/-- The code needs no byte outside the windows: it misses no byte, and without those outside it
does the same. -/
def StaysWithin {α : Type} (windows : List (Pointer Unit × ℕ)) (x : KernelM BootState α)
    (s : BootState) : Prop :=
  (∀ t, x s ≠ .error .outOfBounds t) ∧
    x (s.only windows) = mapState (fun t => t.only windows) (x s)

/-- Code that needs no other byte misses none in the windows. -/
theorem StaysWithin.found {α : Type} {windows : List (Pointer Unit × ℕ)} {x : KernelM BootState α}
    {s t : BootState} (h : StaysWithin windows x s) :
    x (s.only windows) ≠ .error .outOfBounds t := by
  intro missed
  rw [h.2] at missed
  cases run : x s with
  | ok a t' =>
      rw [run] at missed
      cases missed
  | error e t' =>
      rw [run] at missed
      cases missed
      exact h.1 t' run

/-! ## Parts of memory -/

section Parts

/-- The code does with a part of memory what it does with all of it, or misses a byte. -/
abbrev BootInPart {α : Type} (windows : List (Pointer Unit × ℕ)) (x : KernelM BootState α) :
    Prop :=
  Mirrors (fun s => s.only windows) .outOfBounds x

variable {windows : List (Pointer Unit × ℕ)} {fuel : ℕ}

/-- Code that misses no byte in a part of memory needs no other. -/
theorem BootInPart.staysWithin {α : Type} {x : KernelM BootState α} {s : BootState}
    (h : BootInPart windows x) (found : ∀ t, x (s.only windows) ≠ .error .outOfBounds t) :
    StaysWithin windows x s := by
  rcases h s with ⟨t, missed⟩ | same
  · exact absurd missed (found t)
  · refine ⟨fun t missed => found (t.only windows) ?_, same⟩
    rw [same, missed]
    rfl

theorem onMemory_inPart {α : Type} {x : KernelM (ByteMemory Unit) α} (h : InPart windows x) :
    BootInPart windows (onMemory x) :=
  .zoom (fun _ => rfl) (fun _ _ => rfl) h

theorem onEarlyHeap_inPart {α : Type} (x : KernelM Emm α) :
    BootInPart windows (onEarlyHeap x) :=
  .zoom (fun _ => rfl) (fun _ _ => rfl) (.self x)

theorem load32_inPart (address : UInt32) : BootInPart windows (load32 address) :=
  (onMemory_inPart (loadBytes_inPart _ _)).bind fun _ => .pure _

theorem load64_inPart (address : UInt32) : BootInPart windows (load64 address) :=
  (onMemory_inPart (loadBytes_inPart _ _)).bind fun _ => .pure _

theorem store32_inPart (address value : UInt32) : BootInPart windows (store32 address value) :=
  onMemory_inPart (storeBytes_inPart _ _)

theorem store64_inPart (address : UInt32) (value : UInt64) :
    BootInPart windows (store64 address value) :=
  onMemory_inPart (storeBytes_inPart _ _)

theorem walkSlots_inPart (nextOffset slot : UInt32) :
    BootInPart windows (walkSlots nextOffset fuel slot) := by
  induction fuel generalizing slot with
  | zero => exact .throw _
  | succ fuel ih => exact (load32_inPart slot).bind fun _ => .ite (ih _) (.pure _)

theorem appendNode_inPart (nextOffset slot node : UInt32) :
    BootInPart windows (appendNode fuel nextOffset slot node) :=
  (walkSlots_inPart nextOffset slot).bind fun _ => store32_inPart _ node

theorem parseEntry_inPart (current bootInfo : UInt32) :
    BootInPart windows (parseEntry fuel current bootInfo) := by
  refine (load64_inPart _).bind fun _ => (load64_inPart _).bind fun _ =>
    (load32_inPart _).bind fun _ => (onEarlyHeap_inPart _).bind fun _ =>
      (store64_inPart _ _).bind fun _ => (store64_inPart _ _).bind fun _ =>
        (store32_inPart _ _).bind fun _ => ?_
  split
  · exact .pure _
  · exact appendNode_inPart _ _ _

theorem parseMemoryMapLoop_inPart (tag bootInfo end_ current : UInt32) (rounds : ℕ) :
    BootInPart windows (parseMemoryMapLoop fuel tag bootInfo end_ rounds current) := by
  induction rounds generalizing current with
  | zero => exact .throw _
  | succ rounds ih =>
      exact .ite ((parseEntry_inPart _ _).bind fun _ => (load32_inPart _).bind fun _ => ih _)
        (.pure _)

theorem parseMemoryMap_inPart (tag bootInfo : UInt32) :
    BootInPart windows (parseMemoryMap fuel tag bootInfo) :=
  (load32_inPart _).bind fun _ => parseMemoryMapLoop_inPart _ _ _ _ _

theorem copyString_inPart (field source : UInt32) :
    BootInPart windows (copyString fuel field source) :=
  (onMemory_inPart (kstrlen_inPart _ _)).bind fun _ => (onEarlyHeap_inPart _).bind fun _ =>
    (store32_inPart _ _).bind fun _ => (load32_inPart _).bind fun _ =>
      (onMemory_inPart (kmemcpy_inPart _ _ _)).bind fun _ => (load32_inPart _).bind fun _ =>
        onMemory_inPart (storeByte_inPart _ _)

theorem moduleNode_inPart (tag bootInfo : UInt32) :
    BootInPart windows (moduleNode fuel tag bootInfo) :=
  (onEarlyHeap_inPart _).bind fun _ => (load32_inPart _).bind fun _ =>
    (store32_inPart _ _).bind fun _ => (load32_inPart _).bind fun _ =>
      (store32_inPart _ _).bind fun _ => (store32_inPart _ _).bind fun _ =>
        (appendNode_inPart _ _ _).bind fun _ => .pure _

theorem parseModule_inPart (tag bootInfo : UInt32) :
    BootInPart windows (parseModule fuel tag bootInfo) := by
  rw [parseModule_eq]
  exact (moduleNode_inPart _ _).bind fun _ => copyString_inPart _ _

theorem parseTag_inPart (type tag bootInfo : UInt32) :
    BootInPart windows (parseTag fuel type tag bootInfo) :=
  .ite (parseMemoryMap_inPart _ _) (.ite (copyString_inPart _ _)
    (.ite (parseModule_inPart _ _) (.ite (copyString_inPart _ _) (.pure _))))

theorem tagRound_inPart (bootInfo end_ current : UInt32) :
    BootInPart windows (tagRound fuel bootInfo end_ current) :=
  .ite ((load32_inPart _).bind fun _ => .ite (.pure _) ((parseTag_inPart _ _ _).bind fun _ =>
    (load32_inPart _).bind fun _ => .pure _)) (.pure _)

theorem parseHeader_inPart (mb2Info bootInfo : UInt32) :
    BootInPart windows (parseHeader mb2Info bootInfo) :=
  (onMemory_inPart (kmemset_inPart _ _ _)).bind fun _ => load32_inPart _

theorem multiboot2ParseBootInfo_inPart (mb2Info bootInfo : UInt32) :
    BootInPart windows (multiboot2ParseBootInfo fuel mb2Info bootInfo) := by
  rw [multiboot2ParseBootInfo_eq]
  exact (parseHeader_inPart _ _).bind fun _ => loop_mirrors (fun _ => tagRound_inPart _ _ _) _ _

/-- A part of memory with the areas of the parser. -/
structure BootAreas.Inside (areas : BootAreas) (windows : List (Pointer Unit × ℕ)) : Prop where
  heap : (⟨(), areas.heap⟩, areas.capacity) ∈ windows
  bootInfo : (⟨(), areas.bootInfo⟩, 20) ∈ windows

variable {areas : BootAreas} {before : ByteMemory Unit} {s : BootState}
  {pieces : List (Piece BootList)}

theorem BootAreas.Usable.only (usable : areas.Usable before) (inside : areas.Inside windows) :
    areas.Usable (before.only windows) :=
  { usable with
    heapRoom := usable.heapRoom.only inside.heap
    bootRoom := usable.bootRoom.only inside.bootInfo }

theorem BootAreas.NoWrap.only (noWrap : areas.NoWrap before) :
    areas.NoWrap (before.only windows) :=
  { noWrap with addressable := ByteMemory.Addressable.only noWrap.addressable }

theorem CopyFits.only {source : UInt32} (request : CopyFits fuel source s) :
    CopyFits fuel source (s.only windows) := by
  intro length t counted
  obtain ⟨t', counted', rfl⟩ := (onMemory_inPart (kstrlen_inPart fuel _)).exists_ok counted
  exact request length t' counted'

/-- With a part of memory the handler makes no other requests. -/
theorem RequestsFit.only {type tag bootInfo : UInt32}
    (request : RequestsFit fuel type tag bootInfo s) :
    RequestsFit fuel type tag bootInfo (s.only windows) := by
  refine ⟨fun string => (request.string string).only, fun module mod t run => ?_⟩
  obtain ⟨t', run', rfl⟩ := (moduleNode_inPart tag bootInfo).exists_ok run
  exact (request.module module mod t' run').only

theorem RoundFits.only {bootInfo end_ tag : UInt32} (request : RoundFits fuel bootInfo end_ tag s) :
    RoundFits fuel bootInfo end_ tag (s.only windows) :=
  fun inside type there => (request inside type (ByteMemory.Holds.of_only there)).only

/-- In a part of memory with its areas the parser has built what it has built in all of it. -/
theorem Parsed.only {memory : ByteMemory Unit} {name commandLine : ℕ}
    (parsed : Parsed areas before memory pieces [] name commandLine)
    (fits : extent pieces ≤ areas.capacity) (inside : areas.Inside windows) :
    Parsed areas (before.only windows) (memory.only windows) pieces [] name commandLine where
  image := parsed.image.only inside.heap (by rw [length_image]; exact fits)
  slots list := by
    have there := parsed.slots list
    cases list with
    | ram => exact Holds.only_part (i := 8) there inside.bootInfo (by rw [length_link]; omega)
    | reserved => exact Holds.only_part (i := 12) there inside.bootInfo (by rw [length_link]; omega)
    | modules => exact Holds.only_part (i := 16) there inside.bootInfo (by rw [length_link])
  name := parsed.name.only inside.bootInfo (by rw [length_link]; omega)
  commandLine :=
    Holds.only_part (i := 4) parsed.commandLine inside.bootInfo (by rw [length_link]; omega)
  same position outside := by
    by_cases within : Within windows (⟨(), position⟩ : Pointer Unit)
    · rw [byte_only_of_within within, byte_only_of_within within]
      exact parsed.same position outside
    · rw [byte_only_of_outside within, byte_only_of_outside within]
  exist p := by
    by_cases within : Within windows p
    · rw [byte_only_of_within within, byte_only_of_within within]
      exact parsed.exist p
    · rw [byte_only_of_outside within, byte_only_of_outside within]

theorem AtWork.only (work : AtWork areas before s pieces) (inside : areas.Inside windows) :
    AtWork areas (before.only windows) (s.only windows) pieces := by
  obtain ⟨name, commandLine, progress⟩ := work.progress
  exact ⟨⟨name, commandLine, { progress with parsed := progress.parsed.only work.fits inside }⟩,
    work.whole, work.fits⟩

end Parts

/-! ## Tags with room for what is read -/

/-- A terminated string that starts and ends in front of the limit. -/
def StringInside (memory : ByteMemory Unit) (start limit : ℕ) : Prop :=
  ∃ string, start + string.length + 1 ≤ limit ∧ memory.Holds ⟨(), start⟩ (string ++ [0])

/-- The entries the loop of `parse_memory_map` comes to lie between the tag and the limit. -/
def EntriesInside (memory : ByteMemory Unit) (tag size : UInt32) (limit : ℕ) : Prop :=
  tag + 16 < tag + size → tag.toNat + 12 ≤ limit ∧
    ∀ entrySize, memory.Holds ⟨(), tag.toNat + 8⟩ (bytes32 entrySize) →
      ∀ k : ℕ, (∀ j ≤ k, tag + 16 + UInt32.ofNat j * entrySize < tag + size) →
        tag.toNat ≤ (tag + 16 + UInt32.ofNat k * entrySize).toNat ∧
          (tag + 16 + UInt32.ofNat k * entrySize).toNat + 20 ≤ limit

/-- What the handler of the tag reads lies in front of the limit. -/
def HandlerInside (memory : ByteMemory Unit) (type size tag : UInt32) (limit : ℕ) : Prop :=
  if type = multiboot2TagTypeMemoryMap then
    tag.toNat + 8 ≤ limit ∧ EntriesInside memory tag size limit
  else if type = multiboot2TagTypeCommandLine then StringInside memory (tag.toNat + 8) limit
  else if type = multiboot2TagTypeModule then StringInside memory (tag.toNat + 16) limit
  else if type = multiboot2TagTypeBootLoaderName then StringInside memory (tag.toNat + 8) limit
  else True

/-- The header of the tag lies in the structure from `low` to `high`, and what its handler reads
in front of the ends of the tag and the structure. -/
def TagInside (memory : ByteMemory Unit) (low high : ℕ) (tag : UInt32) : Prop :=
  low ≤ tag.toNat ∧ tag.toNat + 4 ≤ high ∧
    ∀ type, memory.Holds ⟨(), tag.toNat⟩ (bytes32 type) → type ≠ multiboot2TagTypeEnd →
      tag.toNat + 8 ≤ high ∧
        ∀ size, memory.Holds ⟨(), tag.toNat + 4⟩ (bytes32 size) →
          HandlerInside memory type size tag (min (tag.toNat + size.toNat) high)

/-- The bytes from `low` to `limit` are in a part of the memory and not written over. -/
structure PartOfInfo (areas : BootAreas) (memory : ByteMemory Unit)
    (windows : List (Pointer Unit × ℕ)) (low limit : ℕ) : Prop where
  outside : ∀ {position length}, low ≤ position → position + length ≤ limit →
    areas.Outside position length
  room : ∀ {position length}, low ≤ position → position + length ≤ limit →
    memory.Room ⟨(), position⟩ length
  within : ∀ {position}, low ≤ position → position < limit → Within windows ⟨(), position⟩
  bound : limit ≤ 2 ^ 32

namespace PartOfInfo

variable {areas : BootAreas} {memory : ByteMemory Unit} {windows : List (Pointer Unit × ℕ)}
  {low limit position n : ℕ} {bytes : List UInt8} {type size tag source : UInt32}

theorem roomOnly (part : PartOfInfo areas memory windows low limit) (lower : low ≤ position)
    (upper : position + n ≤ limit) : (memory.only windows).Room ⟨(), position⟩ n := by
  intro i hi
  rw [byte_only_of_within (part.within (by simp only [Pointer.advance_offset]; omega)
    (by simp only [Pointer.advance_offset]; omega))]
  exact part.room lower upper i hi

theorem holdsOnly (part : PartOfInfo areas memory windows low limit)
    (there : memory.Holds ⟨(), position⟩ bytes) (lower : low ≤ position)
    (upper : position + bytes.length ≤ limit) :
    (memory.only windows).Holds ⟨(), position⟩ bytes := by
  intro i hi
  rw [byte_only_of_within (part.within (by simp only [Pointer.advance_offset]; omega)
    (by simp only [Pointer.advance_offset]; omega))]
  exact there i hi

/-- What stands at four of the bytes. -/
theorem word (part : PartOfInfo areas memory windows low limit) (position : ℕ)
    (lower : low ≤ position) (upper : position + 4 ≤ limit) :
    ∃ value, memory.Holds ⟨(), position⟩ (bytes32 value) := by
  obtain ⟨bytes, length, holds⟩ := (part.room lower upper).exists_holds
  exact ⟨UInt32.ofNat (LittleEndian.decode bytes), by rw [bytes32_decode length]; exact holds⟩

theorem string (part : PartOfInfo areas memory windows low limit) {start : ℕ}
    (hsource : source.toNat = start) (lower : low ≤ start)
    (inside : StringInside memory start limit) :
    StringReadable areas (memory.only windows) source := by
  obtain ⟨string, fits, there⟩ := inside
  refine ⟨string, ?_, ?_⟩
  · rw [hsource]
    exact part.outside lower (by omega)
  · rw [hsource]
    refine part.holdsOnly there lower ?_
    rw [List.length_append, List.length_singleton]
    omega

theorem entries (part : PartOfInfo areas memory windows tag.toNat limit)
    (inside : EntriesInside memory tag size limit) :
    EntriesReadable areas (memory.only windows) tag (tag + size) (tag + 16) := by
  intro more
  have bound := part.bound
  obtain ⟨header, found⟩ := inside more
  have field : (tag + 8).toNat = tag.toNat + 8 := toNat_add_of_lt rfl rfl (by omega)
  obtain ⟨entrySize, there⟩ := part.word (tag.toNat + 8) (by omega) (by omega)
  rw [field]
  refine ⟨entrySize, part.outside (by omega) (by omega),
    part.holdsOnly there (by omega) (by rw [length_bytes32]; omega), fun k before => ?_⟩
  obtain ⟨lower, upper⟩ := found entrySize there k before
  exact ⟨upper.trans bound, part.roomOnly lower upper⟩

/-- A handler finds what it reads. -/
theorem handler (part : PartOfInfo areas memory windows tag.toNat limit)
    (sizeField : memory.Holds ⟨(), tag.toNat + 4⟩ (bytes32 size))
    (inside : HandlerInside memory type size tag limit) :
    TagReadable areas (memory.only windows) type tag := by
  have bound := part.bound
  have field : ∀ (offset : UInt32), StringInside memory (tag.toNat + offset.toNat) limit →
      (tag + offset).toNat = tag.toNat + offset.toNat :=
    fun offset ⟨_, fits, _⟩ => toNat_add_of_lt rfl rfl (by omega)
  unfold HandlerInside at inside
  unfold TagReadable
  split
  · rename_i map
    rw [if_pos map] at inside
    obtain ⟨header, found⟩ := inside
    have offset : (tag + 4).toNat = tag.toNat + 4 := toNat_add_of_lt rfl rfl (by omega)
    refine ⟨size, ?_, ?_, part.entries found⟩
    · rw [offset]
      exact part.outside (by omega) (by omega)
    · rw [offset]
      exact part.holdsOnly sizeField (by omega) (by rw [length_bytes32]; omega)
  rename_i map
  rw [if_neg map] at inside
  split
  · rename_i line
    rw [if_pos line] at inside
    exact part.string (field 8 inside) (by omega) inside
  rename_i line
  rw [if_neg line] at inside
  split
  · rename_i module
    rw [if_pos module] at inside
    have range : tag.toNat + 16 ≤ limit := by
      obtain ⟨string, fits, -⟩ := inside
      omega
    exact ⟨range.trans bound, part.roomOnly (by omega) (by omega),
      part.string (field 16 inside) (by omega) inside⟩
  rename_i module
  rw [if_neg module] at inside
  split
  · rename_i loader
    rw [if_pos loader] at inside
    exact part.string (field 8 inside) (by omega) inside
  · trivial

end PartOfInfo

/-! ## The parser -/

/-- An information structure of `total_size` bytes, apart from what the parser writes. -/
structure InfoSetup (s : BootState) (mb2Info bootInfo totalSize : UInt32) : Prop where
  field : s.memory.Holds ⟨(), mb2Info.toNat⟩ (bytes32 totalSize)
  header : 8 ≤ totalSize.toNat
  room : s.memory.Room ⟨(), mb2Info.toNat⟩ totalSize.toNat
  bound : mb2Info.toNat + totalSize.toNat ≤ 2 ^ 32
  outside : (fullAreas s bootInfo).Outside mb2Info.toNat totalSize.toNat

/-- Some bytes, the early heap and `boot_info_t`. -/
def withAreas (s : BootState) (bootInfo start : UInt32) (size : ℕ) : List (Pointer Unit × ℕ) :=
  [(⟨(), start.toNat⟩, size), (⟨(), (fullAreas s bootInfo).heap⟩, (fullAreas s bootInfo).capacity),
    (⟨(), bootInfo.toNat⟩, 20)]

section Confinement

variable {s : BootState} {mb2Info bootInfo totalSize : UInt32} {fuel : ℕ}

theorem inside_withAreas (s : BootState) (bootInfo start : UInt32) (size : ℕ) :
    (fullAreas s bootInfo).Inside (withAreas s bootInfo start size) :=
  ⟨List.mem_cons_of_mem _ List.mem_cons_self,
    List.mem_cons_of_mem _ (List.mem_cons_of_mem _ List.mem_cons_self)⟩

/-- Bytes of the structure in a window. -/
theorem InfoSetup.part (info : InfoSetup s mb2Info bootInfo totalSize) {start : UInt32}
    {size low limit : ℕ} (lower : mb2Info.toNat ≤ low) (first : start.toNat ≤ low)
    (upper : limit ≤ mb2Info.toNat + totalSize.toNat) (last : limit ≤ start.toNat + size) :
    PartOfInfo (fullAreas s bootInfo) s.memory (withAreas s bootInfo start size) low limit where
  outside above below := info.outside.part (by omega) (by omega)
  room above below := by
    obtain ⟨i, rfl⟩ := Nat.exists_eq_add_of_le (lower.trans above)
    exact info.room.part (by omega)
  within above below := by
    obtain ⟨i, rfl⟩ := Nat.exists_eq_add_of_le (first.trans above)
    exact within_of_window (p := ⟨(), start.toNat⟩) List.mem_cons_self (by omega)
  bound := upper.trans info.bound

/-- A round at a tag in the structure finds what it reads. -/
theorem InfoSetup.round (info : InfoSetup s mb2Info bootInfo totalSize) {end_ tag : UInt32}
    (inside : TagInside s.memory mb2Info.toNat (mb2Info.toNat + totalSize.toNat) tag) :
    RoundReadable (fullAreas s bootInfo)
      (s.memory.only (withAreas s bootInfo mb2Info totalSize.toNat)) end_ tag := by
  intro _
  have bound := info.bound
  obtain ⟨lower, upper, rest⟩ := inside
  have part : PartOfInfo (fullAreas s bootInfo) s.memory
      (withAreas s bootInfo mb2Info totalSize.toNat) tag.toNat
        (mb2Info.toNat + totalSize.toNat) := info.part lower lower le_rfl le_rfl
  obtain ⟨type, typeField⟩ := part.word tag.toNat le_rfl upper
  refine ⟨type, part.outside le_rfl upper,
    part.holdsOnly typeField le_rfl (by rw [length_bytes32]; exact upper), fun notEnd => ?_⟩
  obtain ⟨header, handlers⟩ := rest type typeField notEnd
  have offset : (tag + 4).toNat = tag.toNat + 4 := toNat_add_of_lt rfl rfl (by omega)
  obtain ⟨size, sizeField⟩ := part.word (tag.toNat + 4) (by omega) (by omega)
  have handlerPart : PartOfInfo (fullAreas s bootInfo) s.memory
      (withAreas s bootInfo mb2Info totalSize.toNat) tag.toNat
        (min (tag.toNat + size.toNat) (mb2Info.toNat + totalSize.toNat)) :=
    info.part lower lower (Nat.min_le_right _ _) (Nat.min_le_right _ _)
  refine ⟨handlerPart.handler sizeField (handlers size sizeField), ?_⟩
  rw [offset]
  exact part.roomOnly (by omega) (by omega)

theorem AnySetup.only (setup : AnySetup s bootInfo) {windows : List (Pointer Unit × ℕ)}
    (inside : (fullAreas s bootInfo).Inside windows) : AnySetup (s.only windows) bootInfo :=
  ⟨setup.ordered, setup.usable.only inside, setup.noWrap.only⟩

theorem InfoSetup.front (info : InfoSetup s mb2Info bootInfo totalSize) :
    s.memory.Room ⟨(), mb2Info.toNat⟩ 4 :=
  info.room.part (i := 0) (by have := info.header; omega)

/-- The states at the tags are between two steps of the parser. -/
theorem ReachesTag.atWork {end_ tag : UInt32} {t : BootState}
    (reaches : ReachesTag fuel mb2Info bootInfo s end_ tag t) (setup : AnySetup s bootInfo)
    (requests : NoRequestWraps fuel mb2Info bootInfo s)
    (info : InfoSetup s mb2Info bootInfo totalSize) (enough : 2 ^ 32 ≤ fuel) :
    ∃ pieces, AtWork (fullAreas s bootInfo) s.memory t pieces := by
  obtain ⟨total, s₁, run, same, steps⟩ := reaches
  have header : Machine.Ends _ (fun _ => False) (parseHeader mb2Info bootInfo s) :=
    setup.parseHeader (Or.inr info.front)
  exact setup.atWork enough ⟨[], (header.of_ok run).1⟩
    (fun _ before => requests _ _ _ ⟨total, s₁, run, same, before⟩) steps

variable (setup : AnySetup s bootInfo) (requests : NoRequestWraps fuel mb2Info bootInfo s)
  (info : InfoSetup s mb2Info bootInfo totalSize)
  (enough : 2 ^ 32 ≤ fuel)
  (inside : ∀ end_ tag t, ReachesTag fuel mb2Info bootInfo s end_ tag t → tag < end_ →
    TagInside s.memory mb2Info.toNat (mb2Info.toNat + totalSize.toNat) tag)

include setup requests info enough inside

/-- At the tags the parser comes to, a round with only the structure goes where a round with all
of memory goes, and misses no byte. -/
theorem tagRound_only {end_ tag : UInt32} {t : BootState}
    (reaches : ReachesTag fuel mb2Info bootInfo s end_ tag t) :
    Machine.Ends (fun next t' => ∀ b, next = some b → ∃ t₁,
      t' = t₁.only (withAreas s bootInfo mb2Info totalSize.toNat) ∧
        ReachesTag fuel mb2Info bootInfo s end_ b t₁) (· ≠ .outOfBounds)
      (tagRound fuel bootInfo end_ tag
        (t.only (withAreas s bootInfo mb2Info totalSize.toNat))) := by
  have areas := inside_withAreas s bootInfo mb2Info totalSize.toNat
  obtain ⟨pieces, work⟩ := reaches.atWork setup requests info enough
  have readable : RoundReadable (fullAreas s bootInfo)
      (s.memory.only (withAreas s bootInfo mb2Info totalSize.toNat)) end_ tag :=
    fun less => info.round (inside _ _ _ reaches less) less
  have round : Machine.Ends _ (· ≠ Fault.outOfBounds) (tagRound fuel bootInfo end_ tag _) :=
    (work.only areas).tagRound (setup.usable.only areas) setup.noWrap.only (fun _ _ => by simp)
      enough rfl (requests _ _ _ reaches).only (Or.inr readable)
  rcases round.ok_or_error with ⟨next, _, step', -⟩ | ⟨e, _, fault, stops⟩
  · rw [step']
    rintro b rfl
    obtain ⟨t₁, step, rfl⟩ := (tagRound_inPart bootInfo end_ tag).exists_ok step'
    obtain ⟨total, s₁, run, same, steps⟩ := reaches
    exact ⟨t₁, rfl, total, s₁, run, same, steps.tail step⟩
  · rw [fault]
    exact stops

theorem parser_staysWithin : StaysWithin (withAreas s bootInfo mb2Info totalSize.toNat)
    (multiboot2ParseBootInfo fuel mb2Info bootInfo) s := by
  have areas := inside_withAreas s bootInfo mb2Info totalSize.toNat
  refine (multiboot2ParseBootInfo_inPart mb2Info bootInfo).staysWithin fun t missed => ?_
  have front : (s.memory.only (withAreas s bootInfo mb2Info totalSize.toNat)).Room
      ⟨(), mb2Info.toNat⟩ 4 :=
    info.front.only_part (i := 0) List.mem_cons_self (by have := info.header; omega)
  have header : Machine.Ends _ (· ≠ Fault.outOfBounds) (parseHeader mb2Info bootInfo _) :=
    (setup.only areas).parseHeader (Or.inr front)
  rw [multiboot2ParseBootInfo_eq] at missed
  rcases header.ok_or_error with ⟨total, _, run', -⟩ | ⟨e, _, fault, stops⟩
  · obtain ⟨s₁, run, rfl⟩ := (parseHeader_inPart mb2Info bootInfo).exists_ok run'
    rw [bind_of_ok run'] at missed
    have start : ∃ t, s₁.only (withAreas s bootInfo mb2Info totalSize.toNat) =
        t.only (withAreas s bootInfo mb2Info totalSize.toNat) ∧
          ReachesTag fuel mb2Info bootInfo s (mb2Info + total) (mb2Info + 8) t :=
      ⟨s₁, rfl, total, s₁, run, rfl, .refl⟩
    have keep : ∀ y : UInt32 × BootState,
        (∃ t, y.2 = t.only (withAreas s bootInfo mb2Info totalSize.toNat) ∧
          ReachesTag fuel mb2Info bootInfo s (mb2Info + total) y.1 t) →
        Machine.Ends (fun next t' => ∀ b, next = some b → ∃ t₁,
          t' = t₁.only (withAreas s bootInfo mb2Info totalSize.toNat) ∧
            ReachesTag fuel mb2Info bootInfo s (mb2Info + total) b t₁) (· ≠ .outOfBounds)
          (tagRound fuel bootInfo (mb2Info + total) y.1 y.2) := by
      rintro ⟨tag, _⟩ ⟨t, rfl, reaches⟩
      exact tagRound_only setup requests info enough inside reaches
    have loops : Machine.Ends (fun _ _ => True) (· ≠ Fault.outOfBounds)
        (loop .hang (tagRound fuel bootInfo (mb2Info + total)) fuel (mb2Info + 8)
          (s₁.only (withAreas s bootInfo mb2Info totalSize.toNat))) :=
      loop_ends (x := (mb2Info + 8, _)) (by simp) start keep fuel
    exact loops.of_error missed rfl
  · rw [bind_of_error fault] at missed
    cases missed
    exact stops rfl

theorem handler_staysWithin {end_ tag type size : UInt32} {t : BootState}
    (reaches : ReachesTag fuel mb2Info bootInfo s end_ tag t) (less : tag < end_)
    (typeField : s.memory.Holds ⟨(), tag.toNat⟩ (bytes32 type))
    (notEnd : type ≠ multiboot2TagTypeEnd)
    (sizeField : s.memory.Holds ⟨(), tag.toNat + 4⟩ (bytes32 size)) :
    StaysWithin (withAreas s bootInfo tag size.toNat) (parseTag fuel type tag bootInfo) t := by
  have areas := inside_withAreas s bootInfo tag size.toNat
  obtain ⟨pieces, work⟩ := reaches.atWork setup requests info enough
  obtain ⟨lower, upper, rest⟩ := inside end_ tag t reaches less
  have part : PartOfInfo (fullAreas s bootInfo) s.memory (withAreas s bootInfo tag size.toNat)
      tag.toNat (min (tag.toNat + size.toNat) (mb2Info.toNat + totalSize.toNat)) :=
    info.part lower le_rfl (Nat.min_le_right _ _) (Nat.min_le_left _ _)
  have readable := part.handler sizeField ((rest type typeField notEnd).2 size sizeField)
  -- the type is still there when the loop comes to the tag
  have typeField' : t.memory.Holds ⟨(), tag.toNat⟩ (bytes32 type) := by
    obtain ⟨name, commandLine, progress⟩ := work.progress
    refine progress.parsed.holds typeField ?_
    rw [length_bytes32]
    exact info.outside.part lower upper
  refine (parseTag_inPart type tag bootInfo).staysWithin fun t' missed => ?_
  have found : Machine.Ends _ (· ≠ Fault.outOfBounds) (parseTag fuel type tag bootInfo _) :=
    (work.only areas).parseTag (setup.usable.only areas) setup.noWrap.only (fun _ _ => by simp)
      enough rfl (requests _ _ _ reaches less type typeField').only (Or.inr readable)
  exact found.of_error missed rfl

/-- The parser needs no byte outside the structure, and its handlers none outside their tags, if
each tag it comes to has room for what is read. -/
theorem multiboot2ParseBootInfo_staysWithin :
    StaysWithin (withAreas s bootInfo mb2Info totalSize.toNat)
        (multiboot2ParseBootInfo fuel mb2Info bootInfo) s ∧
      ∀ end_ tag t type size, ReachesTag fuel mb2Info bootInfo s end_ tag t → tag < end_ →
        s.memory.Holds ⟨(), tag.toNat⟩ (bytes32 type) → type ≠ multiboot2TagTypeEnd →
        s.memory.Holds ⟨(), tag.toNat + 4⟩ (bytes32 size) →
        StaysWithin (withAreas s bootInfo tag size.toNat) (parseTag fuel type tag bootInfo) t :=
  ⟨parser_staysWithin setup requests info enough inside,
    fun _ _ _ _ _ reaches => handler_staysWithin setup requests info enough inside reaches⟩

end Confinement

/-! ## A command line at the end of the structure -/

/-- A structure of `total_size` bytes at 256 with a command line, of one letter, as its first tag,
and an end tag behind. -/
def commandLineState (totalSize : UInt8) : BootState :=
  filledState fun offset => if offset = 256 then totalSize else if offset = 264 then 1
    else if offset = 268 then 10 else if offset = 272 then 97 else if offset = 284 then 8 else 0

/-- A structure that ends where the command line starts: its first byte is read behind. -/
theorem truncated_leaves : AnySetup (commandLineState 16) 128 ∧
    InfoSetup (commandLineState 16) 256 128 16 ∧
      ¬StaysWithin (withAreas (commandLineState 16) 128 256 (16 : UInt32).toNat)
        (multiboot2ParseBootInfo (2 ^ 32) 256 128) (commandLineState 16) := by
  refine ⟨filledState_setup _, ⟨by decide +kernel, by decide, ?_, by decide, by decide⟩, ?_⟩
  · exact filledState_room _ (by decide)
  · intro stays
    have missed : fault? (multiboot2ParseBootInfo (2 ^ 32) 256 128 ((commandLineState 16).only
        (withAreas (commandLineState 16) 128 256 (16 : UInt32).toNat))) = some .outOfBounds := by
      decide +kernel
    exact stays.found (eq_error_of_fault missed)

/-- With the command line inside, the parser comes to its tag and the end tag. -/
theorem commandLineState_tags {end_ tag : UInt32} {t : BootState}
    (reaches : ReachesTag (2 ^ 32) 256 128 (commandLineState 32) end_ tag t) :
    tag = 264 ∨ tag = 280 := by
  obtain ⟨total, s₁, run, rfl, steps⟩ := reaches
  have header : value? (parseHeader 256 128 (commandLineState 32)) = some 32 := by decide +kernel
  have first : value? (tagRound (2 ^ 32) 128 (256 + 32) (256 + 8)
      (final (parseHeader 256 128 (commandLineState 32)))) = some (some 280) := by
    decide +kernel
  have second : value? (tagRound (2 ^ 32) 128 (256 + 32) 280
      (final (tagRound (2 ^ 32) 128 (256 + 32) (256 + 8)
        (final (parseHeader 256 128 (commandLineState 32)))))) = some none := by
    decide +kernel
  rw [run] at header first second
  cases header
  rcases steps.cases_head with same | ⟨⟨tag₁, t₁⟩, step₁, steps⟩
  · cases same
    exact Or.inl rfl
  · have run₁ : tagRound (2 ^ 32) 128 (256 + 32) (256 + 8) (final (.ok (32 : UInt32) s₁ :
        EStateM.Result Fault BootState UInt32)) = .ok (some tag₁) t₁ := step₁
    rw [run₁] at first second
    cases first
    rcases steps.cases_head with same | ⟨⟨tag₂, t₂⟩, step₂, -⟩
    · cases same
      exact Or.inr rfl
    · have run₂ : tagRound (2 ^ 32) 128 (256 + 32) 280 (final (.ok (some 280) t₁ :
          EStateM.Result Fault BootState (Option UInt32))) = .ok (some tag₂) t₂ := step₂
      rw [run₂] at second
      cases second

/-- A structure that goes on to the end tag. -/
theorem commandLine_staysWithin :
    StaysWithin (withAreas (commandLineState 32) 128 256 (32 : UInt32).toNat)
        (multiboot2ParseBootInfo (2 ^ 32) 256 128) (commandLineState 32) ∧
      ∀ end_ tag t type size, ReachesTag (2 ^ 32) 256 128 (commandLineState 32) end_ tag t →
        tag < end_ → (commandLineState 32).memory.Holds ⟨(), tag.toNat⟩ (bytes32 type) →
        type ≠ multiboot2TagTypeEnd →
        (commandLineState 32).memory.Holds ⟨(), tag.toNat + 4⟩ (bytes32 size) →
        StaysWithin (withAreas (commandLineState 32) 128 tag size.toNat)
          (parseTag (2 ^ 32) type tag 128) t := by
  refine multiboot2ParseBootInfo_staysWithin (filledState_setup _)
    (filledState_requests _ (Nat.le_refl _) 256) ⟨by decide +kernel, by decide, filledState_room _ (by decide), by decide, by decide⟩
    (Nat.le_refl _) fun end_ tag t reaches _ => ?_
  rcases commandLineState_tags reaches with rfl | rfl
  · refine ⟨by decide, by decide, fun type typeField _ => ⟨by decide, fun size sizeField => ?_⟩⟩
    have type_ : (commandLineState 32).memory.Holds ⟨(), 264⟩ (bytes32 1) := by decide +kernel
    have size_ : (commandLineState 32).memory.Holds ⟨(), 268⟩ (bytes32 10) := by decide +kernel
    obtain rfl : type = 1 := bytes32_inj (typeField.unique type_ (by simp [length_bytes32]))
    obtain rfl : size = 10 := bytes32_inj (sizeField.unique size_ (by simp [length_bytes32]))
    exact ⟨[97], by decide, by decide +kernel⟩
  · have type_ : (commandLineState 32).memory.Holds ⟨(), 280⟩ (bytes32 0) := by decide +kernel
    refine ⟨by decide, by decide, fun type typeField notEnd => absurd ?_ notEnd⟩
    exact bytes32_inj (typeField.unique type_ (by simp [length_bytes32]))

end ArkoiOs
