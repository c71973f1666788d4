import Mathlib.Algebra.Order.BigOperators.Group.List
import ArkoiOs.Multiboot2.Decode
import ArkoiOs.Multiboot2.Printing
import ArkoiOs.Pmm.BootMemory

/-!
# The start of `kernel_main`

`kernel_main` parses the information structure, prints what it found and hands the memory to
`pmm_init`.  The screen and the memory manager end up with what the tags of the structure say:
the early heap, `boot_info_t` and the buffer of `kvprintf` in between are apart, so neither the
parser nor the calls of `kprintf` harm what the next function reads.
-/

namespace ArkoiOs

open Piece (link)

/-! ## What the tags say is of bounded size -/

section Sizes

variable {tags : List Tag} {tag : Tag} {string : List UInt8}

theorem heapNeed_le_of_mem (mem : tag ∈ tags) : tag.heapNeed ≤ heapNeed tags :=
  List.le_sum_of_mem (List.mem_map_of_mem mem)

/-- Entries and modules take room of the early heap. -/
theorem length_le_heapNeed {β : Type} {found : Tag → List β}
    (paid : ∀ tag, (found tag).length ≤ tag.heapNeed) (tags : List Tag) :
    (tags.flatMap found).length ≤ heapNeed tags := by
  induction tags with
  | nil => exact Nat.zero_le _
  | cons tag tags ih =>
      have need : heapNeed (tag :: tags) = tag.heapNeed + heapNeed tags := rfl
      rw [List.flatMap_cons, List.length_append, need]
      exact Nat.add_le_add (paid tag) ih

theorem Tag.length_regions_le (type : UInt32) (tag : Tag) :
    (tag.regions type).length ≤ tag.heapNeed := by
  cases tag with
  | memoryMap entrySize entryVersion entries =>
      have fewer := List.length_filter_le (fun entry : MemoryMapEntry => entry.type = type) entries
      rw [Tag.regions, List.length_map, Tag.heapNeed]
      omega
  | _ => exact Nat.zero_le _

theorem Tag.length_module_le (tag : Tag) : tag.module?.toList.length ≤ tag.heapNeed := by
  cases tag with
  | module modStart modEnd string slack =>
      exact (Nat.le_add_left 1 15).trans (Nat.le_add_right 16 _)
  | _ => exact Nat.zero_le _

/-- The strings of the tags are copied to the early heap. -/
theorem Tag.length_string_lt
    (found : tag.loaderName? = some string ∨ tag.commandLine? = some string ∨
      ∃ mod, tag.module? = some mod ∧ mod.commandLine = string) :
    string.length < tag.heapNeed := by
  cases tag with
  | commandLine string' slack =>
      rcases found with found | found | ⟨_, found, -⟩ <;> cases found
      exact Nat.lt_succ_self _
  | loaderName string' slack =>
      rcases found with found | found | ⟨_, found, -⟩ <;> cases found
      exact Nat.lt_succ_self _
  | module modStart modEnd string' slack =>
      rcases found with found | found | ⟨_, found, rfl⟩ <;> cases found
      exact Nat.lt_of_lt_of_le (Nat.lt_succ_self _) (Nat.le_add_left _ 16)
  | memoryMap entrySize entryVersion entries =>
      rcases found with found | found | ⟨_, found, -⟩ <;> cases found
  | other type body => rcases found with found | found | ⟨_, found, -⟩ <;> cases found

theorem decoded_sized {fuel : ℕ} (small : heapNeed tags < 2 ^ 32) (enough : 2 ^ 32 ≤ fuel) :
    (decoded tags).Sized fuel := by
  have rounds := small.trans_le enough
  have string : ∀ tag ∈ tags, ∀ string, (tag.loaderName? = some string ∨
      tag.commandLine? = some string ∨ ∃ mod, tag.module? = some mod ∧ mod.commandLine = string) →
        string.length < 2 ^ 32 := fun tag mem string found =>
    ((tag.length_string_lt found).trans_le (heapNeed_le_of_mem mem)).trans small
  have last : ∀ {string? : Tag → Option (List UInt8)} {string : List UInt8},
      string ∈ (tags.filterMap string?).getLast? → ∃ tag ∈ tags, string? tag = some string :=
    fun mem => List.mem_filterMap.1 (List.mem_of_getLast? mem)
  refine ⟨?_, ?_, ?_, fun text mem => ?_, fun text mem => ?_, fun mod mem => ?_⟩
  · exact (length_le_heapNeed (Tag.length_regions_le _) tags).trans_lt rounds
  · exact (length_le_heapNeed (Tag.length_regions_le _) tags).trans_lt rounds
  · have modules := length_le_heapNeed Tag.length_module_le tags
    rw [← List.filterMap_eq_flatMap_toList] at modules
    exact modules.trans_lt rounds
  · obtain ⟨tag, mem, found⟩ := last mem
    exact string tag mem text (Or.inl found)
  · obtain ⟨tag, mem, found⟩ := last mem
    exact string tag mem text (Or.inr (Or.inl found))
  · obtain ⟨tag, mem, found⟩ := List.mem_filterMap.1 mem
    exact string tag mem _ (Or.inr (Or.inr ⟨mod, found, rfl⟩))

end Sizes

/-! ## Memory without the buffer -/

section Without

variable {areas : BootAreas} {before memory : ByteMemory Unit}
  {pieces tail : List (Piece BootList)} {name commandLine b n : ℕ}

/-- The areas are usable without a window outside of them. -/
theorem BootAreas.Usable.without (usable : areas.Usable before) (outside : areas.Outside b n) :
    areas.Usable (before.without ⟨(), b⟩ n) := by
  obtain ⟨heap, bootInfo⟩ := outside
  exact { usable with
    heapRoom := usable.heapRoom.without (apart_of heap.symm)
    bootRoom := usable.bootRoom.without (apart_of bootInfo.symm) }

/-- What the parser has built is there without a window outside of its areas. -/
theorem Parsed.without (parsed : Parsed areas before memory pieces tail name commandLine)
    (outside : areas.Outside b n) (fits : Piece.extent pieces ≤ areas.capacity) :
    Parsed areas (before.without ⟨(), b⟩ n) (memory.without ⟨(), b⟩ n) pieces tail name
      commandLine := by
  obtain ⟨heap, bootInfo⟩ := outside
  refine ⟨parsed.image.without (apart_of ?_), fun list => (parsed.slots list).without (apart_of ?_),
    parsed.name.without (apart_of ?_), parsed.commandLine.without (apart_of ?_),
    fun position outside' => ?_, fun p => ?_⟩
  · rw [Piece.length_image]
    omega
  · have bounds := slot_bounds areas list
    rw [Piece.length_link]
    omega
  · rw [Piece.length_link]
    omega
  · rw [Piece.length_link]
    omega
  · rcases Pointer.inside_or_apart (⟨(), b⟩ : Pointer Unit) ⟨(), position⟩ n with
      ⟨i, inside, same⟩ | apart
    · rw [same, ByteMemory.byte_without_of_inside inside, ByteMemory.byte_without_of_inside inside]
    · rw [ByteMemory.byte_without_of_apart apart, ByteMemory.byte_without_of_apart apart]
      exact parsed.same position outside'
  · rcases Pointer.inside_or_apart (⟨(), b⟩ : Pointer Unit) p n with ⟨i, inside, rfl⟩ | apart
    · rw [ByteMemory.byte_without_of_inside inside, ByteMemory.byte_without_of_inside inside]
    · rw [ByteMemory.byte_without_of_apart apart, ByteMemory.byte_without_of_apart apart]
      exact parsed.exist p

theorem Progress.without {s : BootState}
    (progress : Progress areas before s pieces name commandLine) (outside : areas.Outside b n)
    (fits : Piece.extent pieces ≤ areas.capacity) :
    Progress areas (before.without ⟨(), b⟩ n) ⟨s.memory.without ⟨(), b⟩ n, s.emm⟩ pieces name
      commandLine :=
  { progress with parsed := progress.parsed.without outside fits }

end Without

/-! ## Parsing and printing -/

/-- A literal that neither the parser nor `kvprintf` writes. -/
structure LiteralApart (areas : BootAreas) (memory : ByteMemory Unit) (buffer p : Pointer Unit)
    (text : List UInt8) : Prop where
  holds : memory.Holds p (text ++ [0])
  outside : areas.Outside p.offset (text ++ [(0 : UInt8)]).length
  apart : p.Apart (text ++ [(0 : UInt8)]).length buffer printfBufferSize.toNat

/-- The buffer of `kvprintf` and the literals are there, and apart from what the parser
writes. -/
structure PrintSetup (areas : BootAreas) (memory : ByteMemory Unit) (frame : PrintFrame Unit)
    (literals : BootFormat → Pointer Unit) : Prop where
  addressable : memory.Addressable
  room : memory.Room frame.buffer printfBufferSize.toNat
  outside : areas.Outside frame.buffer.offset printfBufferSize.toNat
  missing : LiteralApart areas memory frame.buffer frame.nullText missingText
  formats : ∀ format, LiteralApart areas memory frame.buffer (literals format)
    (BootFormat.text format)

section Boot

variable {s : BootState} {mb2Info bootInfo totalSize : UInt32} {tags : List Tag} {fuel : ℕ}
  {frame : PrintFrame Unit} {literals : BootFormat → Pointer Unit} {vga : Vga} {d : Document}

/-- The parser leaves the boot information of the tags in the memory without the buffer, and
the buffer and the literals as they were. -/
theorem multiboot2ParseBootInfo_kept (setup : BootSetup s mb2Info bootInfo totalSize tags)
    (printing : PrintSetup (bootAreas s bootInfo tags) s.memory frame literals)
    (enough : tags.length + heapNeed tags < fuel) :
    ∃ s', multiboot2ParseBootInfo fuel mb2Info bootInfo s = .ok () s' ∧
      s'.emm.cursor.toNat = s.emm.cursor.toNat + heapNeed tags ∧ s'.emm.end_ = s.emm.end_ ∧
      s'.memory.Room frame.buffer printfBufferSize.toNat ∧
      (s'.memory.without frame.buffer printfBufferSize.toNat).Addressable ∧
      BootLiterals frame literals (s'.memory.without frame.buffer printfBufferSize.toNat) ∧
      BootInfoAt (s'.memory.without frame.buffer printfBufferSize.toNat) bootInfo.toNat
        (decoded tags) := by
  have usable := setup.usable
  have below := setup.below
  have headerFits := setup.headerFits
  obtain ⟨memory, cleared, progress⟩ := Progress.start usable rfl rfl setup.heapFits
  have reads := progress.reads setup.header (setup.outside.part le_rfl (by omega)) rfl
  have stop := toNat_add_of_lt (a := mb2Info) (b := totalSize) rfl rfl below
  have first : (mb2Info + 8).toNat = mb2Info.toNat + 8 := toNat_add_of_lt rfl rfl (by omega)
  have need : Piece.extent ([] : List (Piece BootList)) + heapNeed tags < fuel := by
    rw [Piece.extent_nil]
    omega
  have rounds : tags.length < fuel := by omega
  obtain ⟨s', run, same, done⟩ := progress.withTags usable setup.laidOut setup.outside
    (Nat.le_add_right _ _) (Nat.le_add_left _ _) (Nat.zero_add _).le need rounds first stop rfl
  have fits : Piece.extent ([] ++ tagsPieces (bootAreas s bootInfo tags).heap tags) ≤
      (bootAreas s bootInfo tags).capacity := by
    rw [List.nil_append, extent_tagsPieces]
    exact le_rfl
  have kept : ∀ {p : Pointer Unit} {text : List UInt8},
      LiteralApart (bootAreas s bootInfo tags) s.memory frame.buffer p text →
        (s'.memory.without frame.buffer printfBufferSize.toNat).Holds p (text ++ [0]) :=
    fun literal => (done.parsed.holds literal.holds literal.outside).without literal.apart
  refine ⟨s', ?_, ?_, same, done.parsed.room.2 printing.room, ?_, ⟨kept printing.missing,
    fun format => kept (printing.formats format)⟩, ?_⟩
  · unfold multiboot2ParseBootInfo
    rw [Machine.bind_of_ok cleared, Machine.bind_of_ok reads]
    exact run
  · rw [done.cursor, List.nil_append, extent_tagsPieces]
    rfl
  · refine ByteMemory.Addressable.without fun p there => ?_
    rw [done.parsed.exist] at there
    exact printing.addressable p there
  · exact (done.without printing.outside fits).bootInfoAt (usable.without printing.outside)
      setup.laidOut.wellFormed le_rfl

end Boot

/-! ## The model -/

/-- What `kernel_main` works on until `pmm_init` returns. -/
structure KernelStart where
  terminal : Terminal Unit
  pmm : Pmm

namespace KernelStart

/-- Memory and the early heap. -/
def boot (s : KernelStart) : BootState := ⟨s.terminal.memory, s.pmm.emm⟩

end KernelStart

section Model

variable (fuel : ℕ)

end Model

/-! ## The start -/

section Start

variable {s : KernelStart} {mb2Info bootInfo totalSize : UInt32} {tags : List Tag} {fuel n : ℕ}
  {frame : PrintFrame Unit} {literals : BootFormat → Pointer Unit} {kept : ByteMemory Unit}
  {d : Document} {lines : List ReportLine} {info : BootInfo}

/-- The report of the boot information is what the tags say: after the parser,
`multiboot2_print_boot_info` adds it to the document on the screen.  All of a line is there
exactly if it has at most 255 bytes and no zero byte. -/
theorem bootReport_shows {s : BootState} {vga : Vga}
    (setup : BootSetup s mb2Info bootInfo totalSize tags)
    (printing : PrintSetup (bootAreas s bootInfo tags) s.memory frame literals)
    (rounds : tags.length + heapNeed tags < fuel) (enough : 2 ^ 32 ≤ fuel) (shows : vga.Shows d) :
    (∃ s' t, multiboot2ParseBootInfo fuel mb2Info bootInfo s = .ok () s' ∧
      multiboot2PrintBootInfo fuel frame literals bootInfo ⟨s'.memory, vga⟩ = .ok () t ∧
      t.vga.Shows ((decoded tags).reportText.foldl Document.write d)) ∧
    ∀ line ∈ (decoded tags).report, ∀ rendered, render line.1.text line.2 = some rendered →
      (line.text = rendered ↔ rendered.length ≤ 255 ∧ 0 ∉ rendered) := by
  obtain ⟨s', parsed, -, -, room, addressable, there, here⟩ :=
    multiboot2ParseBootInfo_kept setup printing rounds
  have small : heapNeed tags < 2 ^ 32 :=
    ((Nat.le_add_left _ _).trans setup.heapFits).trans_lt s.emm.end_.toNat_lt
  have reporting : Reporting frame
      (s'.memory.without frame.buffer printfBufferSize.toNat) d [] ⟨s'.memory, vga⟩ :=
    ⟨room, rfl, shows⟩
  obtain ⟨t, printed, reported⟩ :=
    reporting.bootInfo enough there addressable here (decoded_sized small enough)
  exact ⟨⟨s', t, parsed, printed, reported.shows⟩, fun line _ rendered => printed_eq_iff⟩

end Start

/-! ## A small machine -/

/-- The formats in the order of the source. -/
def bootFormats : List BootFormat :=
  [.loader, .commandLine, .ram, .ramRegion, .reserved, .reservedRegion, .modules, .module,
    .moduleCommandLine]

/-- The small machine of the parser with a buffer of zeros at 512, the literal for a null
string at 768, and the formats behind it in places of 64 bytes. -/
def startMemory : ByteMemory Unit := fun _ offset =>
  if offset < 512 then smallState.memory () offset
  else if offset < 768 then some 0
  else if offset < 832 then (missingText ++ [0])[offset - 768]?
  else bootFormats[(offset - 832) / 64]?.bind fun format =>
    (format.text ++ [0])[(offset - 832) % 64]?

def startFrame : PrintFrame Unit :=
  ⟨⟨(), 512⟩, ⟨(), 768⟩, ⟨⟨(), 0⟩, ⟨(), 0⟩, ⟨(), 0⟩⟩⟩

/-- Where the literals are. -/
def startLiterals (format : BootFormat) : Pointer Unit :=
  ⟨(), 832 + 64 * bootFormats.idxOf format⟩

def startState : BootState := ⟨startMemory, ⟨160, 0x10000⟩⟩

theorem startMemory_addressable : startMemory.Addressable := by
  intro p there
  by_contra above
  have beyond : bootFormats.length ≤ (p.offset - 832) / 64 := by
    change 9 ≤ _
    omega
  have missing : startMemory.byte p = none := by
    unfold ByteMemory.byte startMemory
    rw [if_neg (by omega), if_neg (by omega), if_neg (by omega), List.getElem?_eq_none beyond]
    rfl
  rw [missing] at there
  cases there

theorem startMemory_literal (format : BootFormat) :
    startMemory.Holds (startLiterals format) (format.text ++ [0]) := by
  intro i inside
  have short : (format.text ++ [(0 : UInt8)]).length ≤ 64 := by
    cases format <;> decide +kernel
  have here : bootFormats[bootFormats.idxOf format]? = some format := by
    cases format <;> rfl
  have offset : ((startLiterals format).advance i).offset =
      832 + (64 * bootFormats.idxOf format + i) := Nat.add_assoc _ _ _
  have place : (64 * bootFormats.idxOf format + i) / 64 = bootFormats.idxOf format := by omega
  have index : (64 * bootFormats.idxOf format + i) % 64 = i := by omega
  unfold ByteMemory.byte startMemory
  rw [offset, if_neg (by omega), if_neg (by omega), if_neg (by omega), Nat.add_sub_cancel_left,
    place, index, here]
  rfl

theorem startState_setup : BootSetup startState 256 128 120 smallTags where
  header := by decide +kernel
  headerFits := by decide
  below := by decide
  laidOut := by decide +kernel
  heapFits := by decide
  usable := ⟨by decide +kernel, by decide +kernel, by decide, by decide, by decide, by decide,
    by decide⟩
  outside := by decide

theorem startLiterals_apart (format : BootFormat) :
    LiteralApart (bootAreas startState 128 smallTags) startMemory startFrame.buffer
      (startLiterals format) format.text := by
  have behind : 832 ≤ (startLiterals format).offset := Nat.le_add_right _ _
  refine ⟨startMemory_literal format, ⟨Or.inr ?_, Or.inr ?_⟩, Or.inr (Or.inr ?_)⟩
  · have heap : (bootAreas startState 128 smallTags).heap +
        (bootAreas startState 128 smallTags).capacity = 220 := by decide
    omega
  · have bootInfo : (bootAreas startState 128 smallTags).bootInfo = 128 := rfl
    omega
  · have buffer : startFrame.buffer.offset + printfBufferSize.toNat = 768 := by decide
    omega

theorem startState_printSetup :
    PrintSetup (bootAreas startState 128 smallTags) startMemory startFrame startLiterals :=
  ⟨startMemory_addressable, by decide +kernel, by decide, ⟨by decide +kernel, by decide,
    Or.inr (by decide)⟩, startLiterals_apart⟩

/-- What the screen shows after the small tags were parsed and printed. -/
theorem startState_reports : ∃ s' t vga, multiboot2ParseBootInfo (2 ^ 32) 256 128 startState =
      .ok () s' ∧
    multiboot2PrintBootInfo (2 ^ 32) startFrame startLiterals 128 ⟨s'.memory, vga⟩ = .ok () t ∧
    t.vga.Shows (.ofText (decoded smallTags).reportText) := by
  obtain ⟨vga, -, shows⟩ := Vga.clear_shows ⟨fun _ => 0, 0, 0, 0, []⟩
  obtain ⟨⟨s', t, parsed, printed, reported⟩, -⟩ := bootReport_shows startState_setup
    startState_printSetup (by decide) le_rfl shows
  exact ⟨s', t, vga, parsed, printed, reported⟩

end ArkoiOs
