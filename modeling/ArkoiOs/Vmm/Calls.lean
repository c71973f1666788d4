import ArkoiOs.Vmm.Tables

/-!
# What the calls do to the tables

Under the assumption that kernel accesses reach the frame they are meant for
(`Reaching`) and that the allocator answers with a usable page (`Answers`), each
call of the memory manager returns, and one lemma says what it returns and how
the walk and the directory change.
-/

namespace ArkoiOs

/-! ## Accesses -/

/-- An access through `physical_to_virtual` reaches the intended frame. -/
def Reaching (access : Memory → UInt32 → Option ℕ) : Prop :=
  ∀ memory frame, frame < 2 ^ 20 →
    access memory (physicalToVirtual (frameAddress frame)) = some frame

theorem directAccess_reaching : Reaching directAccess :=
  fun memory _ bound => directAccess_physicalToVirtual memory bound

section Accesses

variable {σ : Type} {access : Memory → UInt32 → Option ℕ} {s : Vmm σ} {frame : ℕ}

theorem resolve_of_access {virtualAddress : UInt32}
    (h : access s.memory virtualAddress = some frame) :
    resolve access virtualAddress s = .ok frame s := by
  unfold resolve
  rw [Machine.bind_of_ok (Machine.get_run s)]
  simp only [h]
  rfl

theorem resolve_of_fault {virtualAddress : UInt32} (h : access s.memory virtualAddress = none) :
    resolve access virtualAddress s = .error (.pageFault virtualAddress) s := by
  unfold resolve
  rw [Machine.bind_of_ok (Machine.get_run s)]
  simp only [h]
  rfl

theorem loadEntry_of_access {pointer : EntryPointer}
    (h : access s.memory pointer.table = some frame) :
    loadEntry access pointer s = .ok (s.memory frame pointer.index) s := by
  unfold loadEntry
  rw [Machine.bind_of_ok (resolve_of_access h), Machine.bind_of_ok (Machine.get_run s)]
  rfl

theorem loadEntry_of_fault {pointer : EntryPointer} (h : access s.memory pointer.table = none) :
    loadEntry access pointer s = .error (.pageFault pointer.table) s := by
  unfold loadEntry
  rw [Machine.bind_of_error (resolve_of_fault h)]

theorem updateEntry_of_access {pointer : EntryPointer}
    (h : access s.memory pointer.table = some frame) (f : PageEntry → PageEntry) :
    updateEntry access pointer f s = .ok ()
      { s with
        memory := s.memory.write frame pointer.index (f (s.memory frame pointer.index)) } := by
  unfold updateEntry
  rw [Machine.bind_of_ok (resolve_of_access h), Machine.modify_run]

theorem updateEntry_of_fault {pointer : EntryPointer} (h : access s.memory pointer.table = none)
    (f : PageEntry → PageEntry) :
    updateEntry access pointer f s = .error (.pageFault pointer.table) s := by
  unfold updateEntry
  rw [Machine.bind_of_error (resolve_of_fault h)]

theorem zeroPage_of_access {virtualAddress : UInt32}
    (h : access s.memory virtualAddress = some frame) :
    zeroPage access virtualAddress s = .ok () { s with memory := s.memory.zeroFrame frame } := by
  unfold zeroPage
  rw [Machine.bind_of_ok (resolve_of_access h), Machine.modify_run]

theorem zeroPage_of_fault {virtualAddress : UInt32} (h : access s.memory virtualAddress = none) :
    zeroPage access virtualAddress s = .error (.pageFault virtualAddress) s := by
  unfold zeroPage
  rw [Machine.bind_of_error (resolve_of_fault h)]

theorem onAllocator_of_ok {α : Type} {x : KernelM σ α} {a : α} {allocator : σ}
    (h : x s.allocator = .ok a allocator) :
    onAllocator x s = .ok a { s with allocator := allocator } :=
  Machine.zoom_of_ok rfl h

theorem onAllocator_of_error {α : Type} {x : KernelM σ α} {fault : Fault} {allocator : σ}
    (h : x s.allocator = .error fault allocator) :
    onAllocator x s = .error fault { s with allocator := allocator } :=
  Machine.zoom_of_error rfl h

end Accesses

/-! ## The allocator -/

/-- The allocator answers with a page that is usable as a table: not null,
page-aligned, in a reserved frame. -/
structure Answers {σ : Type} (allocator : PageAllocator σ) (reserved : Set ℕ) (before : σ)
    (page : UInt32) (after : σ) : Prop where
  run : allocator.allocPage before = .ok page after
  nonzero : page ≠ 0
  aligned : page.toNat % 4096 = 0
  reserved : frameOf page ∈ reserved

/-! ## `get_or_create_pte` -/

namespace EntryPointer

variable {pointer pointer' : EntryPointer}

theorem orNull_of_null (null : pointer.IsNull) : pointer.orNull = none := if_pos null

theorem orNull_of_valid (valid : ¬ pointer.IsNull) : pointer.orNull = some pointer := if_neg valid

theorem eq_of_orNull (same : pointer.orNull = some pointer') : pointer = pointer' := by
  by_cases null : pointer.IsNull
  · rw [orNull_of_null null] at same
    cases same
  · rw [orNull_of_valid null] at same
    exact Option.some.inj same

end EntryPointer

/-- The frame at 1 GiB; a table there is at the null pointer. -/
def nullFrame : ℕ := 0x40000

theorem physicalToVirtual_eq_zero_iff {frame : ℕ} (bound : frame < 2 ^ 20) :
    physicalToVirtual (frameAddress frame) = 0 ↔ frame = nullFrame := by
  rw [← UInt32.toNat_inj, physicalToVirtual_toNat bound, nullFrame]
  change (frame * 4096 + 0xC0000000) % 2 ^ 32 = 0 ↔ _
  omega

section Specs

variable {σ : Type} {paging : Paging σ} {s : Vmm σ} {reserved : Set ℕ} {v p flags : UInt32}

theorem directory_reached (reach : Reaching paging.access) (memory : Memory) :
    paging.access memory (directoryEntry paging v).table = some paging.layout.directory :=
  reach memory _ (paging.layout.directory_lt.trans (by decide))

theorem loadEntry_directory (reach : Reaching paging.access) :
    loadEntry paging.access (directoryEntry paging v) s =
      .ok (pdeAt paging.layout s.memory v) s :=
  loadEntry_of_access (directory_reached reach s.memory)

/-- The pointer into the table of a present directory entry. -/
def tableEntry (layout : BootLayout) (memory : Memory) (v : UInt32) : EntryPointer :=
  ⟨physicalToVirtual (frameAddress (pdeAt layout memory v).address), pteIndex v⟩

theorem table_reached (reach : Reaching paging.access)
    (sound : TablesSound paging.layout s.memory reserved)
    (present : (pdeAt paging.layout s.memory v).present = true) :
    paging.access s.memory (tableEntry paging.layout s.memory v).table =
      some (pdeAt paging.layout s.memory v).address :=
  reach _ _ (sound.table_frame present).1

theorem loadEntry_table (reach : Reaching paging.access)
    (sound : TablesSound paging.layout s.memory reserved)
    (present : (pdeAt paging.layout s.memory v).present = true) :
    loadEntry paging.access (tableEntry paging.layout s.memory v) s =
      .ok (pteAt paging.layout s.memory v) s :=
  loadEntry_of_access (table_reached reach sound present)

/-- With a table in place the pointer leads into it. -/
theorem getOrCreatePte_of_present (reach : Reaching paging.access)
    (present : (pdeAt paging.layout s.memory v).present = true) :
    getOrCreatePte paging v flags s =
      .ok (tableEntry paging.layout s.memory v).orNull s := by
  unfold getOrCreatePte
  rw [Machine.bind_of_ok (loadEntry_directory reach)]
  simp only [present, if_true]
  rfl

/-- Without one, the next page of the allocator becomes the table. -/
theorem getOrCreatePte_of_answer (reach : Reaching paging.access)
    (sound : TablesSound paging.layout s.memory reserved)
    (absent : (pdeAt paging.layout s.memory v).present = false) {page : UInt32} {after : σ}
    (answer : Answers paging.allocator reserved s.allocator page after) :
    getOrCreatePte paging v flags s =
      .ok (EntryPointer.orNull ⟨physicalToVirtual page, pteIndex v⟩)
        ⟨createTable paging.layout s.memory v page flags, after⟩ := by
  have table := reach s.memory (frameOf page) (frameOf_lt page)
  rw [frameAddress_frameOf answer.aligned] at table
  have zeroed := zeroPage_of_access (s := ⟨s.memory, after⟩) table
  have directory := sound.zeroFrame_directory answer.reserved (pdeIndex v)
  unfold getOrCreatePte
  rw [Machine.bind_of_ok (loadEntry_directory reach)]
  simp only [absent, Bool.false_eq_true, if_false]
  rw [Machine.bind_of_ok (onAllocator_of_ok answer.run), if_neg answer.nonzero,
    Machine.bind_of_ok zeroed,
    Machine.bind_of_ok (updateEntry_of_access (directory_reached reach _) _)]
  unfold createTable pdeAt
  rw [← directory]
  rfl

/-! ## `vmm_map_page` -/

/-- What a `vmm_map_page` that returned true did: the page and its twins have
the new entry, every other walk is the same, and the directory entry of the page
was kept or, when it was absent, took its rights from the flags. -/
structure MapEffect (layout : BootLayout) (before after : Memory) (v p flags : UInt32) : Prop where
  unmapped : walk layout before v = none
  walk : ∀ u, walk layout after u =
    if SamePage u v ∨ Twins u v then
      (if hasFlag flags vmmFlagPresent then some (PageEntry.zero.mapTo p flags) else none)
    else walk layout before u
  kept : ∀ u, (pdeAt layout before u).present = true →
    pdeAt layout after u = pdeAt layout before u
  present : (pdeAt layout after v).present = true
  created : (pdeAt layout before v).present = false →
    (pdeAt layout after v).rw = hasFlag flags vmmFlagRw ∧
      (pdeAt layout after v).user = hasFlag flags vmmFlagUser

/-- What a `vmm_map_page` that returned false did to the tables: every walk is
the same, and so is every directory entry that was present. -/
structure RefusedEffect (layout : BootLayout) (before after : Memory) : Prop where
  walk : ∀ u, walk layout after u = walk layout before u
  kept : ∀ u, (pdeAt layout before u).present = true →
    pdeAt layout after u = pdeAt layout before u

theorem RefusedEffect.refl (layout : BootLayout) (memory : Memory) :
    RefusedEffect layout memory memory :=
  ⟨fun _ => rfl, fun _ _ => rfl⟩

/-- What a `vmm_map_page` of an aligned page that is not mapped returned and did
with a table: it mapped the page, unless the entry is at the null pointer. -/
inductive MapResult (layout : BootLayout) (before after : Memory) (v p flags : UInt32) :
    Bool → Prop
  | mapped : ¬ (tableEntry layout after v).IsNull → MapEffect layout before after v p flags →
      MapResult layout before after v p flags true
  | refused : (tableEntry layout after v).IsNull → (pdeAt layout after v).present = true →
      RefusedEffect layout before after → MapResult layout before after v p flags false

/-- The page that was mapped. -/
theorem MapEffect.walk_self {layout : BootLayout} {before after : Memory}
    (effect : MapEffect layout before after v p flags) :
    ArkoiOs.walk layout after v =
      if hasFlag flags vmmFlagPresent then some (PageEntry.zero.mapTo p flags) else none := by
  rw [effect.walk, if_pos (Or.inl (SamePage.refl v))]

/-- How a call used the allocator: not at all, or for one table. -/
inductive Consumed (allocator : PageAllocator σ) (before : σ) (reserved : Set ℕ) :
    σ → Set ℕ → Prop
  | nothing : Consumed allocator before reserved before reserved
  | table {page : UInt32} {after : σ} : Answers allocator reserved before page after →
      Consumed allocator before reserved after (reserved \ {frameOf page})

theorem aligned_test (aligned : v.toNat % 4096 = 0 ∧ p.toNat % 4096 = 0) :
    ¬ (v % pageSize ≠ 0 ∨ p % pageSize ≠ 0) := by
  simp only [ne_eq, mod_pageSize_eq_zero_iff]
  exact not_or.2 ⟨not_not.2 aligned.1, not_not.2 aligned.2⟩

/-- `vmm_map_page` of an unaligned page or to an unaligned frame. -/
theorem vmmMapPage_of_unaligned
    (unaligned : ¬ (v.toNat % 4096 = 0 ∧ p.toNat % 4096 = 0)) :
    vmmMapPage paging v p flags s = .ok false s := by
  unfold vmmMapPage
  rw [if_pos]
  · rfl
  · simp only [ne_eq, mod_pageSize_eq_zero_iff]
    exact not_and_or.1 unaligned

/-- A fault on the way to the table entry ends the call. -/
theorem vmmMapPage_of_error (aligned : v.toNat % 4096 = 0 ∧ p.toNat % 4096 = 0) {fault : Fault}
    {s' : Vmm σ} (table : getOrCreatePte paging v flags s = .error fault s') :
    vmmMapPage paging v p flags s = .error fault s' := by
  unfold vmmMapPage
  rw [if_neg (aligned_test aligned), Machine.bind_of_error table]

/-- Without an entry the call returns false. -/
theorem vmmMapPage_of_noEntry (aligned : v.toNat % 4096 = 0 ∧ p.toNat % 4096 = 0) {s' : Vmm σ}
    (table : getOrCreatePte paging v flags s = .ok none s') :
    vmmMapPage paging v p flags s = .ok false s' := by
  unfold vmmMapPage
  rw [if_neg (aligned_test aligned), Machine.bind_of_ok table]
  rfl

theorem vmmMapPage_of_aligned (aligned : v.toNat % 4096 = 0 ∧ p.toNat % 4096 = 0)
    {pointer : EntryPointer} {s₁ : Vmm σ} {frame : ℕ}
    (table : getOrCreatePte paging v flags s = .ok pointer.orNull s₁)
    (reached : paging.access s₁.memory pointer.table = some frame) :
    vmmMapPage paging v p flags s =
      if pointer.IsNull ∨ (s₁.memory frame pointer.index).present = true then .ok false s₁
      else .ok true
        { s₁ with
          memory := s₁.memory.write frame pointer.index
            ((s₁.memory frame pointer.index).mapTo p flags) } := by
  unfold vmmMapPage
  rw [if_neg (aligned_test aligned), Machine.bind_of_ok table]
  by_cases null : pointer.IsNull
  · rw [if_pos (Or.inl null), EntryPointer.orNull_of_null null]
    rfl
  rw [EntryPointer.orNull_of_valid null]
  simp only [null, false_or]
  rw [Machine.bind_of_ok (loadEntry_of_access reached)]
  cases (s₁.memory frame pointer.index).present with
  | true => rfl
  | false =>
      simp only [Bool.false_eq_true, if_false]
      rw [Machine.bind_of_ok (updateEntry_of_access reached _)]
      rfl

variable (paging)

/-- Without a table and without a page for one, the fault of the allocator ends
the call. -/
theorem vmmMapPage_of_exhausted (reach : Reaching paging.access)
    (aligned : v.toNat % 4096 = 0 ∧ p.toNat % 4096 = 0)
    (absent : (pdeAt paging.layout s.memory v).present = false) {fault : Fault} {after : σ}
    (exhausted : paging.allocator.allocPage s.allocator = .error fault after) :
    vmmMapPage paging v p flags s = .error fault { s with allocator := after } := by
  apply vmmMapPage_of_error aligned
  unfold getOrCreatePte
  rw [Machine.bind_of_ok (loadEntry_directory reach)]
  simp only [absent, Bool.false_eq_true, if_false]
  rw [Machine.bind_of_error (onAllocator_of_error exhausted)]

/-- A null answer leaves the page unmapped. -/
theorem vmmMapPage_of_null
    (reached : paging.access s.memory (directoryEntry paging v).table =
      some paging.layout.directory)
    (aligned : v.toNat % 4096 = 0 ∧ p.toNat % 4096 = 0)
    (absent : (pdeAt paging.layout s.memory v).present = false) {after : σ}
    (null : paging.allocator.allocPage s.allocator = .ok 0 after) :
    vmmMapPage paging v p flags s = .ok false { s with allocator := after } := by
  apply vmmMapPage_of_noEntry aligned
  have load : loadEntry paging.access (directoryEntry paging v) s =
      .ok (pdeAt paging.layout s.memory v) s := loadEntry_of_access reached
  unfold getOrCreatePte
  rw [Machine.bind_of_ok load]
  simp only [absent, Bool.false_eq_true, if_false]
  rw [Machine.bind_of_ok (onAllocator_of_ok null)]
  rfl

variable (flags)

/-- A page that is mapped already is refused, and nothing changes. -/
theorem vmmMapPage_of_mapped (reach : Reaching paging.access)
    (sound : TablesSound paging.layout s.memory reserved)
    (mapped : walk paging.layout s.memory v ≠ none) :
    vmmMapPage paging v p flags s = .ok false s := by
  by_cases aligned : v.toNat % 4096 = 0 ∧ p.toNat % 4096 = 0
  · obtain ⟨entry, found⟩ := Option.ne_none_iff_exists'.1 mapped
    obtain ⟨pde, pte, -⟩ := walk_eq_some_iff.1 found
    rw [vmmMapPage_of_aligned aligned (getOrCreatePte_of_present reach pde)
      (table_reached reach sound pde)]
    exact if_pos (Or.inr pte)
  · exact vmmMapPage_of_unaligned aligned

/-- The entry is written to a table that is there, unless it is at the null
pointer. -/
theorem vmmMapPage_writes (reach : Reaching paging.access)
    (sound : TablesSound paging.layout s.memory reserved)
    (aligned : v.toNat % 4096 = 0 ∧ p.toNat % 4096 = 0)
    (unmapped : walk paging.layout s.memory v = none)
    (pde : (pdeAt paging.layout s.memory v).present = true) :
    vmmMapPage paging v p flags s =
      if (tableEntry paging.layout s.memory v).IsNull then .ok false s
      else .ok true
        { s with
          memory := s.memory.write (pdeAt paging.layout s.memory v).address (pteIndex v)
            ((pteAt paging.layout s.memory v).mapTo p flags) } := by
  have pte : (pteAt paging.layout s.memory v).present = false := walk_eq_none_iff.1 unmapped pde
  change (s.memory (pdeAt paging.layout s.memory v).address
    (tableEntry paging.layout s.memory v).index).present = false at pte
  rw [vmmMapPage_of_aligned aligned (getOrCreatePte_of_present reach pde)
    (table_reached reach sound pde)]
  simp only [pte, Bool.false_eq_true, or_false]
  rfl

/-- Mapping behind a table that is there. -/
theorem vmmMapPage_of_present (reach : Reaching paging.access)
    (sound : TablesSound paging.layout s.memory reserved)
    (aligned : v.toNat % 4096 = 0 ∧ p.toNat % 4096 = 0)
    (unmapped : walk paging.layout s.memory v = none)
    (pde : (pdeAt paging.layout s.memory v).present = true) :
    ∃ result memory, vmmMapPage paging v p flags s = .ok result ⟨memory, s.allocator⟩ ∧
      TablesSound paging.layout memory reserved ∧
      MapResult paging.layout s.memory memory v p flags result := by
  have run := vmmMapPage_writes paging flags reach sound aligned unmapped pde
  by_cases null : (tableEntry paging.layout s.memory v).IsNull
  · rw [if_pos null] at run
    exact ⟨false, s.memory, run, sound, .refused null pde (.refl _ _)⟩
  rw [if_neg null] at run
  have directory : ∀ entry u, pdeAt paging.layout (s.memory.write
      (pdeAt paging.layout s.memory v).address (pteIndex v) entry) u =
        pdeAt paging.layout s.memory u := fun entry u => sound.write_directory pde _ entry _
  refine ⟨true, _, run, sound.write pde _ _, .mapped ?_ ⟨unmapped, sound.walk_write pde _,
    fun u _ => directory _ u, (congrArg PageEntry.present (directory _ v)).trans pde,
    fun absent => absurd (pde.symm.trans absent) (by decide)⟩⟩
  unfold tableEntry
  rw [directory]
  exact null

/-- Without a table one is created, and the entry is written to it unless it is
at the null pointer. -/
theorem vmmMapPage_creates (reach : Reaching paging.access)
    (sound : TablesSound paging.layout s.memory reserved)
    (aligned : v.toNat % 4096 = 0 ∧ p.toNat % 4096 = 0)
    (pde : (pdeAt paging.layout s.memory v).present = false) {page : UInt32} {after : σ}
    (answer : Answers paging.allocator reserved s.allocator page after) :
    vmmMapPage paging v p flags s =
      if (⟨physicalToVirtual page, pteIndex v⟩ : EntryPointer).IsNull then
        .ok false ⟨createTable paging.layout s.memory v page flags, after⟩
      else .ok true
        ⟨(createTable paging.layout s.memory v page flags).write (frameOf page) (pteIndex v)
          (PageEntry.zero.mapTo p flags), after⟩ := by
  have reached := reach (createTable paging.layout s.memory v page flags) (frameOf page)
    (frameOf_lt page)
  rw [frameAddress_frameOf answer.aligned] at reached
  have empty := sound.createTable_pteAt (v := v) flags answer.reserved rfl
  rw [pteAt, sound.createTable_pdeAt flags answer.reserved] at empty
  change createTable paging.layout s.memory v page flags (frameOf page) _ = _ at empty
  rw [vmmMapPage_of_aligned aligned (getOrCreatePte_of_answer reach sound pde answer) reached]
  have absent : PageEntry.zero.present = false := rfl
  simp only [empty, absent, Bool.false_eq_true, or_false]

/-- Mapping behind a table that is created first. -/
theorem vmmMapPage_of_absent (reach : Reaching paging.access)
    (sound : TablesSound paging.layout s.memory reserved)
    (aligned : v.toNat % 4096 = 0 ∧ p.toNat % 4096 = 0)
    (unmapped : walk paging.layout s.memory v = none)
    (pde : (pdeAt paging.layout s.memory v).present = false) {page : UInt32} {after : σ}
    (answer : Answers paging.allocator reserved s.allocator page after) :
    ∃ result memory, vmmMapPage paging v p flags s = .ok result ⟨memory, after⟩ ∧
      TablesSound paging.layout memory (reserved \ {frameOf page}) ∧
      MapResult paging.layout s.memory memory v p flags result := by
  have run : vmmMapPage paging v p flags s = _ :=
    vmmMapPage_creates paging flags reach sound aligned pde answer
  generalize table : createTable paging.layout s.memory v page flags = created at run
  have tables : TablesSound paging.layout created (reserved \ {frameOf page}) :=
    table ▸ sound.create flags answer.reserved pde
  have entry : pdeAt paging.layout created v =
      (pdeAt paging.layout s.memory v).pointTo page flags :=
    table ▸ sound.createTable_pdeAt flags answer.reserved
  have address : (pdeAt paging.layout created v).address = frameOf page := by
    rw [entry]
    rfl
  have present : (pdeAt paging.layout created v).present = true := by
    rw [entry]
    rfl
  have pointer : tableEntry paging.layout created v = ⟨physicalToVirtual page, pteIndex v⟩ := by
    rw [tableEntry, address, frameAddress_frameOf answer.aligned]
  have walks : ∀ u, walk paging.layout created u = walk paging.layout s.memory u :=
    fun u => table ▸ sound.walk_createTable flags answer.reserved pde u
  have keeps : ∀ u, (pdeAt paging.layout s.memory u).present = true →
      pdeAt paging.layout created u = pdeAt paging.layout s.memory u :=
    fun u kept => table ▸ sound.createTable_pdeAt_of_present flags answer.reserved pde kept
  rw [← pointer] at run
  by_cases null : (tableEntry paging.layout created v).IsNull
  · rw [if_pos null] at run
    exact ⟨false, created, run, tables, .refused null present ⟨walks, keeps⟩⟩
  rw [if_neg null] at run
  have pte := tables.write present (pteIndex v) (PageEntry.zero.mapTo p flags)
  have walked := tables.walk_write present (PageEntry.zero.mapTo p flags)
  have directory : ∀ u, pdeAt paging.layout (created.write (pdeAt paging.layout created v).address
      (pteIndex v) (PageEntry.zero.mapTo p flags)) u = pdeAt paging.layout created u :=
    fun u => tables.write_directory present _ _ _
  rw [address] at pte walked directory
  refine ⟨true, _, run, pte, .mapped ?_ ⟨unmapped, fun u => ?_, fun u kept => ?_, ?_, ?_⟩⟩
  · unfold tableEntry at null ⊢
    rw [directory]
    exact null
  · rw [walked, walks, PageEntry.mapping_mapTo]
    rfl
  · rw [directory, keeps u kept]
  · rw [directory, present]
  · rw [directory, entry]
    exact fun _ => ⟨rfl, rfl⟩

/-- An aligned page that is not mapped, as long as the allocator answers when a
table is missing. -/
theorem vmmMapPage_of_unmapped (reach : Reaching paging.access)
    (sound : TablesSound paging.layout s.memory reserved)
    (aligned : v.toNat % 4096 = 0 ∧ p.toNat % 4096 = 0)
    (unmapped : walk paging.layout s.memory v = none)
    (answers : (pdeAt paging.layout s.memory v).present = false →
      ∃ page after, Answers paging.allocator reserved s.allocator page after) :
    ∃ result s' reserved', vmmMapPage paging v p flags s = .ok result s' ∧
      TablesSound paging.layout s'.memory reserved' ∧
      Consumed paging.allocator s.allocator reserved s'.allocator reserved' ∧
      MapResult paging.layout s.memory s'.memory v p flags result := by
  cases pde : (pdeAt paging.layout s.memory v).present with
  | true =>
      obtain ⟨result, memory, run, tables, effect⟩ :=
        vmmMapPage_of_present paging flags reach sound aligned unmapped pde
      exact ⟨result, ⟨memory, s.allocator⟩, reserved, run, tables, .nothing, effect⟩
  | false =>
      obtain ⟨page, after, answer⟩ := answers pde
      obtain ⟨result, memory, run, tables, effect⟩ :=
        vmmMapPage_of_absent paging flags reach sound aligned unmapped pde answer
      exact ⟨result, ⟨memory, after⟩, reserved \ {frameOf page}, run, tables, .table answer, effect⟩

/-! ## `vmm_unmap_page` -/

/-- What a `vmm_unmap_page` that returned true did. -/
structure UnmapEffect (layout : BootLayout) (before after : Memory) (v : UInt32) : Prop where
  mapped : ArkoiOs.walk layout before v ≠ none
  walk : ∀ u, ArkoiOs.walk layout after u =
    if SamePage u v ∨ Twins u v then none else ArkoiOs.walk layout before u
  directory : ∀ u, pdeAt layout after u = pdeAt layout before u

/-- An unaligned page, or one that is not mapped, is refused. -/
theorem vmmUnmapPage_of_unmapped (reach : Reaching paging.access)
    (sound : TablesSound paging.layout s.memory reserved)
    (h : v.toNat % 4096 ≠ 0 ∨ walk paging.layout s.memory v = none) :
    vmmUnmapPage paging v s = .ok false s := by
  unfold vmmUnmapPage
  by_cases aligned : v.toNat % 4096 = 0
  case neg =>
    rw [if_pos (by rw [ne_eq, mod_pageSize_eq_zero_iff]; exact aligned)]
    rfl
  have unmapped : walk paging.layout s.memory v = none := h.resolve_left fun ne => ne aligned
  rw [if_neg (by rw [not_not, mod_pageSize_eq_zero_iff]; exact aligned),
    Machine.bind_of_ok (loadEntry_directory reach)]
  cases pde : (pdeAt paging.layout s.memory v).present with
  | false => rfl
  | true =>
      have pte : (pteAt paging.layout s.memory v).present = false :=
        walk_eq_none_iff.1 unmapped pde
      simp only [Bool.not_true, Bool.false_eq_true, if_false]
      change (loadEntry paging.access (tableEntry paging.layout s.memory v) >>= _) s = _
      rw [Machine.bind_of_ok (loadEntry_table reach sound pde)]
      simp only [pte]
      rfl

/-- An aligned page that is mapped is unmapped. -/
theorem vmmUnmapPage_of_mapped (reach : Reaching paging.access)
    (sound : TablesSound paging.layout s.memory reserved) (aligned : v.toNat % 4096 = 0)
    (mapped : walk paging.layout s.memory v ≠ none) :
    ∃ s', vmmUnmapPage paging v s = .ok true s' ∧
      TablesSound paging.layout s'.memory reserved ∧ s'.allocator = s.allocator ∧
      UnmapEffect paging.layout s.memory s'.memory v := by
  obtain ⟨entry, found⟩ := Option.ne_none_iff_exists'.1 mapped
  obtain ⟨pde, pte, -⟩ := walk_eq_some_iff.1 found
  refine ⟨⟨s.memory.write (pdeAt paging.layout s.memory v).address (pteIndex v) PageEntry.zero,
    s.allocator⟩, ?_, sound.write pde _ _, rfl, mapped, sound.walk_write pde _,
    fun u => sound.write_directory pde _ _ _⟩
  unfold vmmUnmapPage
  rw [if_neg (by rw [not_not, mod_pageSize_eq_zero_iff]; exact aligned),
    Machine.bind_of_ok (loadEntry_directory reach)]
  simp only [pde, Bool.not_true, Bool.false_eq_true, if_false]
  change (loadEntry paging.access (tableEntry paging.layout s.memory v) >>= _) s = _
  rw [Machine.bind_of_ok (loadEntry_table reach sound pde)]
  simp only [pte, Bool.not_true, Bool.false_eq_true, if_false]
  change (updateEntry paging.access (tableEntry paging.layout s.memory v) _ >>= _) s = _
  rw [Machine.bind_of_ok (updateEntry_of_access (table_reached reach sound pde) _)]
  rfl

/-- `vmm_unmap_page` always returns. -/
theorem vmmUnmapPage_returns (reach : Reaching paging.access)
    (sound : TablesSound paging.layout s.memory reserved) (v : UInt32) :
    ∃ result s', vmmUnmapPage paging v s = .ok result s' ∧
      TablesSound paging.layout s'.memory reserved ∧ s'.allocator = s.allocator ∧
      ((result = false ∧ s' = s ∧ (v.toNat % 4096 = 0 → walk paging.layout s.memory v = none)) ∨
        (result = true ∧ v.toNat % 4096 = 0 ∧
          UnmapEffect paging.layout s.memory s'.memory v)) := by
  by_cases refused : v.toNat % 4096 ≠ 0 ∨ walk paging.layout s.memory v = none
  · refine ⟨false, s, vmmUnmapPage_of_unmapped paging reach sound refused, sound, rfl,
      Or.inl ⟨rfl, rfl, fun aligned => ?_⟩⟩
    exact refused.resolve_left fun unaligned => unaligned aligned
  · rw [not_or, not_not] at refused
    obtain ⟨s', run, tables, same, effect⟩ :=
      vmmUnmapPage_of_mapped paging reach sound refused.1 refused.2
    exact ⟨true, s', run, tables, same, Or.inr ⟨rfl, refused.1, effect⟩⟩

end Specs

end ArkoiOs
