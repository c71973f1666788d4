import ArkoiOs.Multiboot2.Handlers
import ArkoiOs.Multiboot2.Report

/-!
# Printing the report

`Reporting` says what the code has between two calls of `kprintf`: the lines printed so far are
on the screen, and memory without the buffer of `kvprintf` is what it was.  The loops of
`multiboot2_print_boot_info` are walks that keep it.
-/

namespace ArkoiOs

open AtomicBlocks
open Piece (link)

/-- While the report is printed: `kept` is the memory without the buffer, `d` was on the screen
at first and the lines were printed since. -/
structure Reporting (frame : PrintFrame Unit) (kept : ByteMemory Unit) (d : Document)
    (lines : List ReportLine) (t : Terminal Unit) : Prop where
  room : t.memory.Room frame.buffer printfBufferSize.toNat
  kept : t.memory.without frame.buffer printfBufferSize.toNat = kept
  shows : t.vga.Shows ((lines.flatMap ReportLine.text).foldl Document.write d)

/-- The formats, and the literal for a null string. -/
structure BootLiterals (frame : PrintFrame Unit) (literals : BootFormat → Pointer Unit)
    (kept : ByteMemory Unit) : Prop where
  missing : kept.Holds frame.nullText (missingText ++ [0])
  formats : ∀ format, kept.Holds (literals format) (BootFormat.text format ++ [0])

section Printing

variable {frame : PrintFrame Unit} {literals : BootFormat → Pointer Unit}
  {kept : ByteMemory Unit} {d : Document} {lines : List ReportLine} {t : Terminal Unit}
  {fuel n : ℕ} {address : UInt32} {p : Pointer Unit}

namespace Reporting

/-- A string in the memory that is kept can be read while the buffer is written. -/
theorem readable (reporting : Reporting frame kept d lines t) {string : List UInt8}
    (holds : kept.Holds p (string ++ [0])) (noZero : 0 ∉ string)
    (bound : string.length < 2 ^ 32) :
    Readable t.memory frame.buffer printfBufferSize.toNat p string := by
  have there : (t.memory.without frame.buffer printfBufferSize.toNat).Holds p (string ++ [0]) :=
    reporting.kept ▸ holds
  have length : (string ++ [(0 : UInt8)]).length = string.length + 1 := List.length_append
  have apart := there.apart_of_without (length ▸ Nat.succ_pos _) (by decide)
  rw [length] at apart
  exact ⟨there.of_without, noZero, bound, apart⟩

/-- A pointer to a string, or null, as an argument. -/
theorem argHolds (reporting : Reporting frame kept d lines t) {string : Option (List UInt8)}
    (here : StringAt kept address.toNat string) (bound : ∀ text ∈ string, text.length < 2 ^ 32) :
    ArgHolds t.memory frame.buffer printfBufferSize.toNat (.string (nullable address))
      (.string string) := by
  cases string with
  | none =>
      have zero : address.toNat = (0 : UInt32).toNat := here
      rw [nullable, if_pos (UInt32.toNat_inj.1 zero)]
      exact .missing
  | some text =>
      obtain ⟨nonzero, noZero, holds⟩ := here
      rw [nullable_of_pos rfl (Nat.pos_of_ne_zero nonzero)]
      exact .string (reporting.readable holds noZero (bound text rfl))

theorem load32 (reporting : Reporting frame kept d lines t) {value : UInt32}
    (same : address.toNat = n) (holds : kept.Holds ⟨(), n⟩ (bytes32 value)) :
    Terminal.load32 address t = .ok value t := by
  have there : t.memory.Holds ⟨(), n⟩ (bytes32 value) :=
    ByteMemory.Holds.of_without (reporting.kept ▸ holds)
  have read := loadBytes_of_holds there
  rw [length_bytes32, ← pointerTo_of_toNat same] at read
  have run : Terminal.onMemory (loadBytes 4 (pointerTo address)) t = .ok (bytes32 value) t :=
    Machine.zoom_of_ok rfl read
  unfold Terminal.load32
  rw [Machine.bind_of_ok run, bytes32, LittleEndian.decode_encode_of_lt value.toNat_lt,
    UInt32.ofNat_toNat]
  rfl

theorem load64 (reporting : Reporting frame kept d lines t) {value : UInt64}
    (same : address.toNat = n) (holds : kept.Holds ⟨(), n⟩ (bytes64 value)) :
    Terminal.load64 address t = .ok value t := by
  have there : t.memory.Holds ⟨(), n⟩ (bytes64 value) :=
    ByteMemory.Holds.of_without (reporting.kept ▸ holds)
  have read := loadBytes_of_holds there
  rw [length_bytes64, ← pointerTo_of_toNat same] at read
  have run : Terminal.onMemory (loadBytes 8 (pointerTo address)) t = .ok (bytes64 value) t :=
    Machine.zoom_of_ok rfl read
  unfold Terminal.load64
  rw [Machine.bind_of_ok run, bytes64, LittleEndian.decode_encode_of_lt value.toNat_lt,
    UInt64.ofNat_toNat]
  rfl

/-- A pointer is read. -/
theorem loadLink (reporting : Reporting frame kept d lines t) {target : ℕ}
    (same : address.toNat = n) (bound : target < 2 ^ 32)
    (holds : kept.Holds ⟨(), n⟩ (link target)) :
    Terminal.load32 address t = .ok (UInt32.ofNat target) t := by
  have word : (UInt32.ofNat target).toNat = target := UInt32.toNat_ofNat_of_lt' bound
  rw [← bytes32_eq_link word] at holds
  exact reporting.load32 same holds

/-- One call of `kprintf` prints its line. -/
theorem line (reporting : Reporting frame kept d lines t) (enough : 2 ^ 32 ≤ fuel)
    (there : BootLiterals frame literals kept) (format : BootFormat) {args : List (VaArg Unit)}
    (arguments : List Argument) (kinds : arguments.map Argument.blank = format.kinds)
    (held : List.Forall₂ (ArgHolds t.memory frame.buffer printfBufferSize.toNat) args arguments) :
    ∃ t', printBoot fuel frame literals format args t = .ok () t' ∧
      Reporting frame kept d (lines ++ [(format, arguments)]) t' := by
  obtain ⟨pieces, matched⟩ := Option.isSome_iff_exists.1 (format.matching kinds)
  let call : PrintCall Unit := ⟨literals format, args, format.text, arguments, pieces, matched⟩
  have prepared : call.Prepared t.memory frame.buffer :=
    ⟨reporting.readable (there.formats format) format.noZero format.length_text, held⟩
  have missing := reporting.readable there.missing (by decide) (by decide)
  obtain ⟨vga', run, shows'⟩ :=
    call.kprintf_shows enough reporting.room missing prepared reporting.shows
  have short : (call.produced ++ [0]).length ≤ printfBufferSize.toNat := by
    have fits : call.produced.length ≤ 255 := length_fill_le _ _
    rw [List.length_append]
    exact Nat.succ_le_succ fits
  have inside : t.memory.Room frame.buffer (call.produced ++ [0]).length :=
    reporting.room.part (i := 0) (by omega)
  refine ⟨_, (Machine.bind_of_ok run).trans rfl, ?_, ?_, ?_⟩
  · exact (ByteMemory.room_overwrite inside).2 reporting.room
  · refine (ByteMemory.without_congr fun q apart => ?_).trans reporting.kept
    refine ByteMemory.byte_overwrite_of_apart ?_
    exact apart.part (i := 0) (j := 0) le_rfl (by omega)
  · rw [call.shown_eq] at shows'
    rw [List.flatMap_append, List.foldl_append, List.flatMap_singleton]
    exact shows'

end Reporting

/-! ## The loops -/

/-- Where the invariant says that a report is printed, pointers are read. -/
theorem loads_of_reports {α β : Type} {Inv : List β → α → Terminal Unit → Prop}
    (reports : ∀ front a t, Inv front a t → ∃ lines, Reporting frame kept d lines t) :
    Loads kept () Terminal.load32 Inv := by
  intro front a t address value inv holds
  obtain ⟨lines, reporting⟩ := reports front a t inv
  rw [← bytes32_eq_link rfl] at holds
  exact reporting.load32 rfl holds

/-- The fields of a region are read. -/
theorem Reporting.region (reporting : Reporting frame kept d lines t)
    (addressable : kept.Addressable) {region : BootMemoryRegion} {current : UInt32}
    (holds : kept.Holds ⟨(), current.toNat⟩ region.bytes) :
    Terminal.load64 current t = .ok region.baseAddress t ∧
      Terminal.load64 (current + 8) t = .ok region.length t := by
  have size := region.length_bytes
  have below : current.toNat + region.bytes.length ≤ 2 ^ 32 :=
    (addressable.holds holds).resolve_left (List.ne_nil_of_length_eq_add_one size)
  have second : (current + 8).toNat = current.toNat + 8 := toNat_add_of_lt rfl rfl (by omega)
  rw [BootMemoryRegion.bytes, ByteMemory.holds_append, length_bytes64] at holds
  exact ⟨reporting.load64 rfl holds.1, reporting.load64 second holds.2⟩

/-- The fields of a module are read. -/
theorem Reporting.module (reporting : Reporting frame kept d lines t)
    (addressable : kept.Addressable) {modStart modEnd : UInt32} {commandLine : ℕ}
    (bound : commandLine < 2 ^ 32) {current : UInt32}
    (holds : kept.Holds ⟨(), current.toNat⟩ (moduleBytes modStart modEnd commandLine)) :
    Terminal.load32 current t = .ok modStart t ∧ Terminal.load32 (current + 4) t = .ok modEnd t ∧
      Terminal.load32 (current + 8) t = .ok (UInt32.ofNat commandLine) t := by
  have size := length_moduleBytes modStart modEnd commandLine
  have below : current.toNat + (moduleBytes modStart modEnd commandLine).length ≤ 2 ^ 32 :=
    (addressable.holds holds).resolve_left (List.ne_nil_of_length_eq_add_one size)
  have second : (current + 4).toNat = current.toNat + 4 := toNat_add_of_lt rfl rfl (by omega)
  have third : (current + 8).toNat = current.toNat + 8 := toNat_add_of_lt rfl rfl (by omega)
  rw [moduleBytes, ByteMemory.holds_append, ByteMemory.holds_append, length_bytes32,
    length_bytes32, Pointer.advance_advance] at holds
  exact ⟨reporting.load32 rfl holds.1, reporting.load32 second holds.2.1,
    reporting.loadLink third bound holds.2.2⟩

section Regions

variable {regions : List BootMemoryRegion} {α : Type} {a : α}
  {visit : α → UInt32 → KernelM (Terminal Unit) α}
  {Inv : List BootMemoryRegion → α → Terminal Unit → Prop}

/-- A walk over a list of regions. -/
theorem walkRegions_ends {σ : Type} {load : UInt32 → KernelM σ UInt32} {endless : Fault}
    {visit : α → UInt32 → KernelM σ α} {Inv : List BootMemoryRegion → α → σ → Prop}
    {E : Fault → Prop} {s : σ} (addressable : kept.Addressable) (loads : Loads kept () load Inv)
    (visits : Visits kept () regions visit (fun content region => content = region.bytes) Inv E)
    (list : kept.LinkedList () n (regions.map BootMemoryRegion.bytes)) (bound : n < 2 ^ 32)
    (enough : regions.length < fuel) (start : Inv [] a s) :
    Machine.Ends (Inv regions) E (walkList load endless 16 visit fuel a (UInt32.ofNat n) s) := by
  refine walkList_ends addressable loads visits list bound ?_ ?_ ?_ start
  · exact List.forall₂_map_left_iff.2 (List.forall₂_same.2 fun _ _ => rfl)
  · intro content mem
    obtain ⟨region, -, rfl⟩ := List.mem_map.1 mem
    exact region.length_bytes
  · rw [List.length_map]
    exact enough

/-- What a loop over a list of regions does at each of them. -/
abbrev VisitsRegions (kept : ByteMemory Unit) (regions : List BootMemoryRegion)
    (visit : α → UInt32 → KernelM (Terminal Unit) α)
    (Inv : List BootMemoryRegion → α → Terminal Unit → Prop) : Prop :=
  Visits kept () regions visit (fun content region => content = region.bytes) Inv fun _ => False

/-- A loop over a list of regions. -/
theorem overRegions_runs
    (reports : ∀ front a t, Inv front a t → ∃ lines, Reporting frame kept d lines t)
    (addressable : kept.Addressable) (visits : VisitsRegions kept regions visit Inv)
    (list : kept.LinkedList () n (regions.map BootMemoryRegion.bytes)) (bound : n < 2 ^ 32)
    (enough : regions.length < fuel) (start : Inv [] a t) :
    ∃ a' t', overRegions fuel visit a (UInt32.ofNat n) t = .ok a' t' ∧ Inv regions a' t' :=
  (walkRegions_ends addressable (loads_of_reports reports) visits list bound enough start).returns

/-- `multiboot2_memory_map_size` adds up the lengths. -/
theorem Reporting.mapSize (reporting : Reporting frame kept d lines t)
    (addressable : kept.Addressable)
    (list : kept.LinkedList () n (regions.map BootMemoryRegion.bytes)) (bound : n < 2 ^ 32)
    (enough : regions.length < fuel) :
    multiboot2MemoryMapSize fuel (UInt32.ofNat n) t = .ok (totalLength regions) t := by
  have visits : VisitsRegions kept regions (fun total current => do
      let length ← Terminal.load64 (current + 8)
      pure (total + length)) fun front total s => total = totalLength front ∧ s = t := by
    rintro content region front back total s current - rfl holds ⟨rfl, rfl⟩
    beta_reduce
    rw [Machine.bind_of_ok (reporting.region addressable holds).2]
    exact ⟨(totalLength_concat front region).symm, rfl⟩
  obtain ⟨total, t', run, rfl, rfl⟩ := overRegions_runs
    (fun _ _ _ inv => ⟨lines, inv.2 ▸ reporting⟩) addressable visits list bound enough ⟨rfl, rfl⟩
  exact run

/-- `multiboot2_memory_map_count` counts the regions. -/
theorem Reporting.mapCount (reporting : Reporting frame kept d lines t)
    (addressable : kept.Addressable)
    (list : kept.LinkedList () n (regions.map BootMemoryRegion.bytes)) (bound : n < 2 ^ 32)
    (enough : regions.length < fuel) :
    multiboot2MemoryMapCount fuel (UInt32.ofNat n) t = .ok (UInt32.ofNat regions.length) t := by
  have visits : VisitsRegions kept regions (fun count _ => pure (count + 1))
      fun front count s => count = UInt32.ofNat front.length ∧ s = t := by
    rintro content region front back count s current - - - ⟨rfl, rfl⟩
    refine ⟨?_, rfl⟩
    rw [List.length_append, List.length_singleton, UInt32.ofNat_add]
    rfl
  obtain ⟨count, t', run, rfl, rfl⟩ := overRegions_runs
    (fun _ _ _ inv => ⟨lines, inv.2 ▸ reporting⟩) addressable visits list bound enough ⟨rfl, rfl⟩
  exact run

/-- The loops that print regions. -/
theorem Reporting.printRegions (reporting : Reporting frame kept d lines t)
    (enough : 2 ^ 32 ≤ fuel) (there : BootLiterals frame literals kept)
    (addressable : kept.Addressable) {format : BootFormat}
    (kinds : [.word 0, .word 0, .word 0] = format.kinds)
    (list : kept.LinkedList () n (regions.map BootMemoryRegion.bytes)) (bound : n < 2 ^ 32)
    (rounds : regions.length < fuel) :
    ∃ t', overRegions fuel (fun _ => printRegion fuel frame literals format) ()
        (UInt32.ofNat n) t = .ok () t' ∧
      Reporting frame kept d (lines ++ regions.map (BootMemoryRegion.line format)) t' := by
  have visits : VisitsRegions kept regions (fun _ => printRegion fuel frame literals format)
      fun front _ =>
        Reporting frame kept d (lines ++ front.map (BootMemoryRegion.line format)) := by
    rintro content region front back _ s current - rfl holds inv
    obtain ⟨base, length⟩ := inv.region addressable holds
    obtain ⟨s', run, inv'⟩ := inv.line enough there format (region.line format).2 kinds
      (.cons (.word region.baseAddress.toUInt32) (.cons
        (.word (region.baseAddress + region.length).toUInt32) (.cons
          (.word (region.length / 1024).toUInt32) .nil)))
    rw [List.append_assoc] at inv'
    beta_reduce
    unfold printRegion
    rw [Machine.bind_of_ok base, Machine.bind_of_ok length, run, List.map_append]
    exact inv'
  have start : Reporting frame kept d
      (lines ++ ([] : List BootMemoryRegion).map (BootMemoryRegion.line format)) t := by
    rw [List.map_nil, List.append_nil]
    exact reporting
  obtain ⟨_, t', run, reporting'⟩ := overRegions_runs (fun _ _ _ inv => ⟨_, inv⟩) addressable
    visits list bound rounds start
  exact ⟨t', run, reporting'⟩

end Regions

section Modules

variable {mods : List BootModule} {contents : List (List UInt8)} {α : Type} {a : α}
  {visit : α → UInt32 → KernelM (Terminal Unit) α}
  {Inv : List BootModule → α → Terminal Unit → Prop}

/-- A node for a module whose command line is shorter than 2^32. -/
def ShortModuleAt (memory : ByteMemory Unit) (content : List UInt8) (mod : BootModule) : Prop :=
  ModuleAt memory content mod ∧ mod.commandLine.length < 2 ^ 32

theorem ModuleAt.length {memory : ByteMemory Unit} {content : List UInt8} {mod : BootModule}
    (here : ModuleAt memory content mod) : content.length = 12 := by
  obtain ⟨commandLine, -, rfl, -⟩ := here
  exact length_moduleBytes _ _ _

theorem ShortModuleAt.of_short {memory : ByteMemory Unit} {contents : List (List UInt8)}
    {mods : List BootModule} (related : List.Forall₂ (ModuleAt memory) contents mods)
    (short : ∀ mod ∈ mods, mod.commandLine.length < 2 ^ 32) :
    List.Forall₂ (ShortModuleAt memory) contents mods := by
  induction related with
  | nil => exact .nil
  | cons first _ ih =>
      obtain ⟨here, others⟩ := List.forall_mem_cons.1 short
      exact .cons ⟨first, here⟩ (ih others)

/-- What a loop over a list of modules does at each of them. -/
abbrev VisitsModules (kept : ByteMemory Unit) (mods : List BootModule)
    (visit : α → UInt32 → KernelM (Terminal Unit) α)
    (Inv : List BootModule → α → Terminal Unit → Prop) : Prop :=
  Visits kept () mods visit (ShortModuleAt kept) Inv fun _ => False

/-- A loop over a list of modules. -/
theorem overModules_runs
    (reports : ∀ front a t, Inv front a t → ∃ lines, Reporting frame kept d lines t)
    (addressable : kept.Addressable) (visits : VisitsModules kept mods visit Inv)
    (list : kept.LinkedList () n contents) (bound : n < 2 ^ 32)
    (related : List.Forall₂ (ShortModuleAt kept) contents mods) (enough : mods.length < fuel)
    (start : Inv [] a t) :
    ∃ a' t', overModules fuel visit a (UInt32.ofNat n) t = .ok a' t' ∧ Inv mods a' t' := by
  refine (walkList_ends addressable (loads_of_reports reports) visits list bound related ?_ ?_
    start).returns
  · intro content mem
    obtain ⟨mod, here⟩ : ∃ mod, ShortModuleAt kept content mod := by
      obtain ⟨i, inside, rfl⟩ := List.getElem_of_mem mem
      exact ⟨_, related.get inside (related.length_eq ▸ inside)⟩
    exact here.1.length
  · rw [related.length_eq]
    exact enough

/-- `multiboot2_module_count` counts the modules. -/
theorem Reporting.moduleCount (reporting : Reporting frame kept d lines t)
    (addressable : kept.Addressable) (list : kept.LinkedList () n contents) (bound : n < 2 ^ 32)
    (related : List.Forall₂ (ShortModuleAt kept) contents mods) (enough : mods.length < fuel) :
    multiboot2ModuleCount fuel (UInt32.ofNat n) t = .ok (UInt32.ofNat mods.length) t := by
  have visits : VisitsModules kept mods (fun count _ => pure (count + 1))
      fun front count s => count = UInt32.ofNat front.length ∧ s = t := by
    rintro content mod front back count s current - - - ⟨rfl, rfl⟩
    refine ⟨?_, rfl⟩
    rw [List.length_append, List.length_singleton, UInt32.ofNat_add]
    rfl
  obtain ⟨count, t', run, rfl, rfl⟩ := overModules_runs
    (fun _ _ _ inv => ⟨lines, inv.2 ▸ reporting⟩) addressable visits list bound related enough
    ⟨rfl, rfl⟩
  exact run

/-- The loop that prints the modules. -/
theorem Reporting.printModules (reporting : Reporting frame kept d lines t)
    (enough : 2 ^ 32 ≤ fuel) (there : BootLiterals frame literals kept)
    (addressable : kept.Addressable) (list : kept.LinkedList () n contents) (bound : n < 2 ^ 32)
    (related : List.Forall₂ (ShortModuleAt kept) contents mods) (rounds : mods.length < fuel) :
    ∃ t', overModules fuel (fun _ => printModule fuel frame literals) () (UInt32.ofNat n) t =
        .ok () t' ∧
      Reporting frame kept d (lines ++ mods.flatMap BootModule.lines) t' := by
  have visits : VisitsModules kept mods (fun _ => printModule fuel frame literals)
      fun front _ => Reporting frame kept d (lines ++ front.flatMap BootModule.lines) := by
    rintro content mod front back _ s current - ⟨⟨commandLine, below, rfl, string⟩, short⟩ holds inv
    obtain ⟨modStart, modEnd, pointer⟩ := inv.module addressable below holds
    obtain ⟨s₁, first, inv₁⟩ := inv.line enough there .module _ rfl
      (.cons (.word mod.modStart) (.cons (.word mod.modEnd)
        (.cons (.word ((mod.modEnd - mod.modStart) / 1024)) .nil)))
    obtain ⟨-, -, pointer₁⟩ := inv₁.module addressable below holds
    have word : (UInt32.ofNat commandLine).toNat = commandLine := UInt32.toNat_ofNat_of_lt' below
    have held := inv₁.argHolds (word.symm ▸ string) (fun text mem => by cases mem; exact short)
    obtain ⟨s₂, second, inv₂⟩ := inv₁.line enough there .moduleCommandLine _ rfl (.cons held .nil)
    rw [List.append_assoc, List.append_assoc] at inv₂
    beta_reduce
    unfold printModule
    rw [Machine.bind_of_ok modStart, Machine.bind_of_ok modEnd, Machine.bind_of_ok first,
      Machine.bind_of_ok pointer₁, second, List.flatMap_append, List.flatMap_singleton]
    exact inv₂
  have start : Reporting frame kept d
      (lines ++ ([] : List BootModule).flatMap BootModule.lines) t := by
    rw [List.flatMap_nil, List.append_nil]
    exact reporting
  obtain ⟨_, t', run, reporting'⟩ := overModules_runs (fun _ _ _ inv => ⟨_, inv⟩) addressable visits
    list bound related rounds start
  exact ⟨t', run, reporting'⟩

end Modules

/-! ## The whole report -/

/-- `multiboot2_print_boot_info` adds the report of the boot information in memory to the
document on the screen. -/
theorem Reporting.bootInfo {bootInfo : UInt32} {info : BootInfo}
    (reporting : Reporting frame kept d [] t) (enough : 2 ^ 32 ≤ fuel)
    (there : BootLiterals frame literals kept) (addressable : kept.Addressable)
    (here : BootInfoAt kept bootInfo.toNat info) (sized : info.Sized fuel) :
    ∃ t', multiboot2PrintBootInfo fuel frame literals bootInfo t = .ok () t' ∧
      Reporting frame kept d info.report t' := by
  obtain ⟨⟨p₁, b₁, f₁, name⟩, ⟨p₂, b₂, f₂, commandLine⟩, ⟨p₃, b₃, f₃, ram⟩,
    ⟨p₄, b₄, f₄, reserved⟩, ⟨p₅, b₅, f₅, contents, nodes, mods⟩⟩ := here
  have below : bootInfo.toNat + 16 + 4 ≤ 2 ^ 32 := by
    have last := (addressable.holds f₅).resolve_left
      (List.ne_nil_of_length_eq_add_one (Piece.length_link p₅))
    rw [Piece.length_link] at last
    exact last
  have field : ∀ {offset : UInt32}, offset.toNat ≤ 16 →
      (bootInfo + offset).toNat = bootInfo.toNat + offset.toNat :=
    fun small => toNat_add_of_lt rfl rfl (by omega)
  have words : ∀ {p : ℕ}, p < 2 ^ 32 → (UInt32.ofNat p).toNat = p := UInt32.toNat_ofNat_of_lt'
  have related := ShortModuleAt.of_short mods sized.commandLines
  -- the two strings
  obtain ⟨t₁, run₁, reporting₁⟩ := reporting.line enough there .loader [.string info.name] rfl
    (.cons (reporting.argHolds ((words b₁).symm ▸ name) sized.name) .nil)
  obtain ⟨t₂, run₂, reporting₂⟩ := reporting₁.line enough there .commandLine
    [.string info.commandLine] rfl
    (.cons (reporting₁.argHolds ((words b₂).symm ▸ commandLine) sized.commandLine) .nil)
  -- the two lists of regions
  obtain ⟨t₃, run₃, reporting₃⟩ := reporting₂.line enough there .ram
    [.word (totalLength info.ramRegions / (1024 * 1024)).toUInt32,
      .word (UInt32.ofNat info.ramRegions.length)] rfl (.cons (.word _) (.cons (.word _) .nil))
  obtain ⟨t₄, run₄, reporting₄⟩ := reporting₃.printRegions enough there addressable
    (by rfl : _ = BootFormat.kinds .ramRegion) ram b₃ sized.ramRegions
  obtain ⟨t₅, run₅, reporting₅⟩ := reporting₄.line enough there .reserved
    [.word (totalLength info.reservedRegions / 1024).toUInt32,
      .word (UInt32.ofNat info.reservedRegions.length)] rfl
    (.cons (.word _) (.cons (.word _) .nil))
  obtain ⟨t₆, run₆, reporting₆⟩ := reporting₅.printRegions enough there addressable
    (by rfl : _ = BootFormat.kinds .reservedRegion) reserved b₄ sized.reservedRegions
  -- the modules
  obtain ⟨t₇, run₇, reporting₇⟩ := reporting₆.line enough there .modules
    [.word (UInt32.ofNat info.modules.length)] rfl (.cons (.word _) .nil)
  obtain ⟨t', run₈, reporting₈⟩ := reporting₇.printModules enough there addressable nodes b₅ related
    sized.modules
  refine ⟨t', ?_, ?_⟩
  · have at₄ : (bootInfo + 4).toNat = bootInfo.toNat + 4 := field (by decide)
    have at₈ : (bootInfo + 8).toNat = bootInfo.toNat + 8 := field (by decide)
    have at₁₂ : (bootInfo + 12).toNat = bootInfo.toNat + 12 := field (by decide)
    have at₁₆ : (bootInfo + 16).toNat = bootInfo.toNat + 16 := field (by decide)
    have size := reporting₂.mapSize addressable ram b₃ sized.ramRegions
    have count := reporting₂.mapCount addressable ram b₃ sized.ramRegions
    have size' := reporting₄.mapSize addressable reserved b₄ sized.reservedRegions
    have count' := reporting₄.mapCount addressable reserved b₄ sized.reservedRegions
    have count'' := reporting₆.moduleCount addressable nodes b₅ related sized.modules
    unfold multiboot2PrintBootInfo
    rw [Machine.bind_of_ok (reporting.loadLink rfl b₁ f₁), Machine.bind_of_ok run₁,
      Machine.bind_of_ok (reporting₁.loadLink at₄ b₂ f₂), Machine.bind_of_ok run₂,
      Machine.bind_of_ok (reporting₂.loadLink at₈ b₃ f₃), Machine.bind_of_ok size,
      Machine.bind_of_ok count, Machine.bind_of_ok run₃,
      Machine.bind_of_ok (reporting₃.loadLink at₈ b₃ f₃), Machine.bind_of_ok run₄,
      Machine.bind_of_ok (reporting₄.loadLink at₁₂ b₄ f₄), Machine.bind_of_ok size',
      Machine.bind_of_ok count', Machine.bind_of_ok run₅,
      Machine.bind_of_ok (reporting₅.loadLink at₁₂ b₄ f₄), Machine.bind_of_ok run₆,
      Machine.bind_of_ok (reporting₆.loadLink at₁₆ b₅ f₅), Machine.bind_of_ok count'',
      Machine.bind_of_ok run₇, Machine.bind_of_ok (reporting₇.loadLink at₁₆ b₅ f₅)]
    exact run₈
  · unfold BootInfo.report regionLines
    simp only [List.nil_append, List.append_assoc, List.cons_append] at reporting₈ ⊢
    exact reporting₈

end Printing

end ArkoiOs
