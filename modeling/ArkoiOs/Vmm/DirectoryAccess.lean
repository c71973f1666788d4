import ArkoiOs.Vmm.TableAccess

/-!
# The directory as the processor finds it

The code reads and writes the page directory through the kernel window, so
through entries of the directory and of the identity table.  With frames that
may hold anything (tables over tables, or over the directory itself) two states
are left: the window still leads to the directory, or an access to it faults.
Each call is followed from such a state, and what it does where it returns is
said once (`MapOutcome`, `UnmapOutcome`).
-/

namespace ArkoiOs

variable {layout : BootLayout} {memory memory' : Memory} {frame : ℕ} {u v : UInt32}

/-- An access reaches a frame through a present directory entry and a present
table entry. -/
theorem mmuAccess_eq_some_iff : mmuAccess layout memory v = some frame ↔
    (pdeAt layout memory v).present = true ∧ (pteAt layout memory v).present = true ∧
      (pteAt layout memory v).address = frame := by
  unfold mmuAccess
  rw [Option.map_eq_some_iff]
  constructor
  · rintro ⟨entry, walked, address⟩
    obtain ⟨pde, pte, rfl⟩ := walk_eq_some_iff.1 walked
    exact ⟨pde, pte, address⟩
  · rintro ⟨pde, pte, address⟩
    exact ⟨_, walk_eq_some_iff.2 ⟨pde, pte, rfl⟩, address⟩

/-- The kernel window leads to the directory. -/
structure DirectoryReached (layout : BootLayout) (memory : Memory) : Prop where
  window : (memory layout.directory 768).present = true
  table : (memory layout.directory 768).address = layout.identity
  entry : (memory layout.identity layout.directory).present = true
  frame : (memory layout.identity layout.directory).address = layout.directory

/-- An access to the directory faults. -/
def DirectoryLost (layout : BootLayout) (memory : Memory) : Prop :=
  mmuAccess layout memory (physicalToVirtual (frameAddress layout.directory)) = none

namespace DirectoryReached

theorem access (reached : DirectoryReached layout memory) :
    mmuAccess layout memory (physicalToVirtual (frameAddress layout.directory)) =
      some layout.directory := by
  obtain ⟨directory, index⟩ := indices_physicalToVirtual layout.directory_lt
  rw [mmuAccess_eq_some_iff, pteAt, pdeAt, directory, index, reached.table]
  exact ⟨reached.window, reached.entry, reached.frame⟩

/-- Only two entries are on the way to the directory. -/
theorem of_same (reached : DirectoryReached layout memory)
    (window : memory' layout.directory 768 = memory layout.directory 768)
    (identity : memory' layout.identity layout.directory =
      memory layout.identity layout.directory) : DirectoryReached layout memory' := by
  refine ⟨?_, ?_, ?_, ?_⟩
  · rw [window]
    exact reached.window
  · rw [window]
    exact reached.table
  · rw [identity]
    exact reached.entry
  · rw [identity]
    exact reached.frame

/-- Entries that are written stay on their way to the directory when they were
not present before. -/
theorem write (reached : DirectoryReached layout memory) {index : ℕ}
    (absent : (memory frame index).present = false) (entry : PageEntry) :
    DirectoryReached layout (memory.write frame index entry) := by
  have kept : ∀ f i, (memory f i).present = true →
      memory.write frame index entry f i = memory f i := by
    intro f i present
    rw [Memory.write_apply, if_neg]
    rintro ⟨rfl, rfl⟩
    rw [present] at absent
    cases absent
  exact reached.of_same (kept _ _ reached.window) (kept _ _ reached.entry)

/-- Where entries are only taken away, the directory is reached as before or it
is lost. -/
theorem reached_or_lost (reached : DirectoryReached layout memory)
    (taken : ∀ f i, memory' f i = memory f i ∨ (memory' f i).present = false) :
    DirectoryReached layout memory' ∨ DirectoryLost layout memory' := by
  obtain ⟨directory, index⟩ := indices_physicalToVirtual layout.directory_lt
  have lost : ((memory' layout.directory 768).present = true →
      (memory' (memory' layout.directory 768).address layout.directory).present = false) →
      DirectoryLost layout memory' := by
    intro absent
    have unmapped : walk layout memory' (physicalToVirtual (frameAddress layout.directory)) =
        none := by
      rw [walk_eq_none_iff, pteAt, pdeAt, directory, index]
      exact absent
    unfold DirectoryLost mmuAccess
    rw [unmapped]
    rfl
  rcases taken layout.directory 768 with window | gone
  · rcases taken layout.identity layout.directory with identity | gone
    · exact Or.inl (reached.of_same window identity)
    · refine Or.inr (lost fun _ => ?_)
      rw [window, reached.table]
      exact gone
  · refine Or.inr (lost fun present => ?_)
    rw [gone] at present
    cases present

theorem zeroFrame (reached : DirectoryReached layout memory) (frame : ℕ) :
    DirectoryReached layout (memory.zeroFrame frame) ∨
      DirectoryLost layout (memory.zeroFrame frame) := by
  refine reached.reached_or_lost fun f i => ?_
  rw [Memory.zeroFrame_apply]
  by_cases same : f = frame
  · rw [if_pos same]
    exact Or.inr rfl
  · rw [if_neg same]
    exact Or.inl rfl

theorem clear (reached : DirectoryReached layout memory) (frame index : ℕ) :
    DirectoryReached layout (memory.write frame index PageEntry.zero) ∨
      DirectoryLost layout (memory.write frame index PageEntry.zero) := by
  refine reached.reached_or_lost fun f i => ?_
  rw [Memory.write_apply]
  by_cases same : f = frame ∧ i = index
  · rw [if_pos same]
    exact Or.inr rfl
  · rw [if_neg same]
    exact Or.inl rfl

/-- A table that was zeroed without losing the directory is still empty behind
its directory entry, and an access to its page still leads to it. -/
theorem newTable_absent {zeroed : ℕ} {entry : PageEntry}
    (reached : DirectoryReached layout (memory.zeroFrame zeroed))
    (absent : (pdeAt layout memory v).present = false)
    (before : mmuAccess layout memory u = some zeroed)
    (after : mmuAccess layout ((memory.zeroFrame zeroed).write layout.directory (pdeIndex v) entry)
      u = some frame) (index : ℕ) :
    ((memory.zeroFrame zeroed).write layout.directory (pdeIndex v) entry frame index).present =
      false := by
  obtain ⟨pde, pte, address⟩ := mmuAccess_eq_some_iff.1 before
  obtain ⟨-, pte', address'⟩ := mmuAccess_eq_some_iff.1 after
  have apart : layout.directory ≠ zeroed := by
    intro same
    have window := reached.window
    rw [Memory.zeroFrame_apply, if_pos same] at window
    cases window
  -- the walk does not use the directory entry that is written
  have other : pdeIndex u ≠ pdeIndex v := by
    intro same
    unfold pdeAt at absent pde
    rw [← same, pde] at absent
    cases absent
  have sameDirectory : pdeAt layout
      ((memory.zeroFrame zeroed).write layout.directory (pdeIndex v) entry) u =
        pdeAt layout memory u := by
    unfold pdeAt
    rw [Memory.write_apply, if_neg fun h => other h.2, Memory.zeroFrame_apply, if_neg apart]
  have notWritten : ¬ ((pdeAt layout memory u).address = layout.directory ∧
      pteIndex u = pdeIndex v) := by
    rintro ⟨table, same⟩
    unfold pteAt at pte
    rw [table, same] at pte
    unfold pdeAt at absent
    rw [pte] at absent
    cases absent
  have written : pteAt layout
      ((memory.zeroFrame zeroed).write layout.directory (pdeIndex v) entry) u =
        memory.zeroFrame zeroed (pdeAt layout memory u).address (pteIndex u) := by
    unfold pteAt
    rw [sameDirectory, Memory.write_apply, if_neg notWritten]
  have notZeroed : (pdeAt layout memory u).address ≠ zeroed := by
    intro same
    rw [written, Memory.zeroFrame_apply, if_pos same] at pte'
    cases pte'
  rw [written, Memory.zeroFrame_apply, if_neg notZeroed] at address'
  have place : frame = zeroed := address'.symm.trans address
  rw [place, Memory.write_of_ne_frame _ _ _ _ apart.symm, Memory.zeroFrame_apply, if_pos rfl]
  rfl

end DirectoryReached

/-! ## Accesses that may fault -/

section Accesses

variable {σ : Type} {s : Vmm σ}

theorem loadEntry_ends (access : Memory → UInt32 → Option ℕ) (pointer : EntryPointer)
    (s : Vmm σ) :
    Machine.Ends (fun entry s' => s = s' ∧ ∃ frame, access s.memory pointer.table = some frame ∧
        s.memory frame pointer.index = entry) (fun _ => True) (loadEntry access pointer s) := by
  cases hit : access s.memory pointer.table with
  | none =>
      rw [loadEntry_of_fault hit]
      trivial
  | some frame =>
      rw [loadEntry_of_access hit]
      exact ⟨rfl, frame, rfl, rfl⟩

theorem updateEntry_ends (access : Memory → UInt32 → Option ℕ) (pointer : EntryPointer)
    (f : PageEntry → PageEntry) (s : Vmm σ) :
    Machine.Ends (fun _ s' => ∃ frame, access s.memory pointer.table = some frame ∧
        s' = { s with
          memory := s.memory.write frame pointer.index (f (s.memory frame pointer.index)) })
      (fun _ => True) (updateEntry access pointer f s) := by
  cases hit : access s.memory pointer.table with
  | none =>
      rw [updateEntry_of_fault hit]
      trivial
  | some frame =>
      rw [updateEntry_of_access hit]
      exact ⟨frame, rfl, rfl⟩

theorem zeroPage_ends (access : Memory → UInt32 → Option ℕ) (virtualAddress : UInt32)
    (s : Vmm σ) :
    Machine.Ends (fun _ s' => ∃ frame, access s.memory virtualAddress = some frame ∧
        s' = { s with memory := s.memory.zeroFrame frame })
      (fun _ => True) (zeroPage access virtualAddress s) := by
  cases hit : access s.memory virtualAddress with
  | none =>
      rw [zeroPage_of_fault hit]
      trivial
  | some frame =>
      rw [zeroPage_of_access hit]
      exact ⟨frame, rfl, rfl⟩

theorem onAllocator_ends {α : Type} (x : KernelM σ α) (s : Vmm σ) :
    Machine.Ends (fun a s' => ∃ after, x s.allocator = .ok a after ∧
        s' = { s with allocator := after }) (fun _ => True) (onAllocator x s) := by
  cases run : x s.allocator with
  | ok a after =>
      rw [onAllocator_of_ok run]
      exact ⟨after, rfl, rfl⟩
  | error fault after =>
      rw [onAllocator_of_error run]
      trivial

end Accesses

/-! ## Calls -/

/-- The directory is reached or lost. -/
def DirectoryInv (layout : BootLayout) (memory : Memory) : Prop :=
  DirectoryReached layout memory ∨ DirectoryLost layout memory

section Calls

variable {σ : Type} (layout) (allocator : PageAllocator σ)

/-- What a returning `get_or_create_pte` did: it found a table, or got no page,
or made a page a table, in which the entry it returns is not present. -/
inductive TableOutcome (s : Vmm σ) : Option EntryPointer → Vmm σ → Prop
  | found {pointer : EntryPointer} : TableOutcome s pointer.orNull s
  | noPage {after : σ} : allocator.allocPage s.allocator = .ok 0 after →
      TableOutcome s none ⟨s.memory, after⟩
  | created {pointer : EntryPointer} {page : UInt32} {s' : Vmm σ} : page ≠ 0 →
      pointer.table = physicalToVirtual page →
      allocator.allocPage s.allocator = .ok page s'.allocator →
      DirectoryReached layout s'.memory →
      (∀ frame, mmuAccess layout s'.memory pointer.table = some frame →
        (s'.memory frame pointer.index).present = false) → TableOutcome s pointer.orNull s'

/-- What a returning `vmm_map_page` did: nothing, or it got the null pointer for
a page or for the entry in the table it created, or it wrote an entry, behind a
table it may have created. -/
inductive MapOutcome (s : Vmm σ) : Bool → Vmm σ → Prop
  | refused : MapOutcome s false s
  | noPage {after : σ} : allocator.allocPage s.allocator = .ok 0 after →
      MapOutcome s false ⟨s.memory, after⟩
  | nullTable {page : UInt32} {s' : Vmm σ} : physicalToVirtual page = 0 →
      allocator.allocPage s.allocator = .ok page s'.allocator → MapOutcome s false s'
  | mapped {s' : Vmm σ} : DirectoryReached layout s'.memory → s'.allocator = s.allocator →
      MapOutcome s true s'
  | createdTable {page : UInt32} {s' : Vmm σ} : DirectoryReached layout s'.memory → page ≠ 0 →
      allocator.allocPage s.allocator = .ok page s'.allocator → MapOutcome s true s'

/-- What a returning `vmm_unmap_page` did: nothing, or it cleared an entry. -/
inductive UnmapOutcome (s : Vmm σ) : Bool → Vmm σ → Prop
  | refused : UnmapOutcome s false s
  | unmapped {s' : Vmm σ} : DirectoryInv layout s'.memory → s'.allocator = s.allocator →
      UnmapOutcome s true s'

variable {layout allocator} {s : Vmm σ}

theorem DirectoryReached.loadDirectory (reached : DirectoryReached layout s.memory) (v : UInt32) :
    loadEntry (mmuAccess layout) (directoryEntry ⟨layout, mmuAccess layout, allocator⟩ v) s =
      .ok (pdeAt layout s.memory v) s :=
  loadEntry_of_access reached.access

theorem DirectoryLost.loadDirectory (lost : DirectoryLost layout s.memory) (v : UInt32) :
    loadEntry (mmuAccess layout) (directoryEntry ⟨layout, mmuAccess layout, allocator⟩ v) s =
      .error (.pageFault (directoryEntry ⟨layout, mmuAccess layout, allocator⟩ v).table) s := by
  have fault : mmuAccess layout s.memory
      (directoryEntry ⟨layout, mmuAccess layout, allocator⟩ v).table = none := lost
  exact loadEntry_of_fault fault

theorem DirectoryReached.getOrCreatePte (reached : DirectoryReached layout s.memory)
    (v flags : UInt32) :
    Machine.Ends (TableOutcome layout allocator s) (fun _ => True)
      (getOrCreatePte ⟨layout, mmuAccess layout, allocator⟩ v flags s) := by
  unfold ArkoiOs.getOrCreatePte
  change Machine.Ends _ _ ((loadEntry (mmuAccess layout) _ >>= _) s)
  rw [Machine.bind_of_ok (reached.loadDirectory v)]
  cases pde : (pdeAt layout s.memory v).present with
  | true => exact .found
  | false =>
      simp only [Bool.false_eq_true, if_false]
      apply Machine.Ends.bind (onAllocator_ends _ s)
      rintro page _ ⟨after, answer, rfl⟩
      by_cases null : page = 0
      · subst null
        exact .noPage answer
      rw [if_neg null]
      apply Machine.Ends.bind (zeroPage_ends _ _ _)
      rintro _ _ ⟨zeroed, hit, rfl⟩
      apply Machine.Ends.bind (updateEntry_ends _ _ _ _)
      rintro _ _ ⟨directory, hit', rfl⟩
      rcases reached.zeroFrame zeroed with reached₁ | lost
      · have place : directory = layout.directory :=
          Option.some.inj (hit'.symm.trans reached₁.access)
        have absent : (s.memory.zeroFrame zeroed layout.directory (pdeIndex v)).present =
            false := by
          rw [Memory.zeroFrame_apply]
          split
          · rfl
          · exact pde
        subst place
        exact .created null rfl answer (reached₁.write absent _)
          fun frame after => reached₁.newTable_absent pde hit after _
      · cases hit'.symm.trans lost

/-- `vmm_map_page`. -/
theorem DirectoryInv.mapPage (inv : DirectoryInv layout s.memory) (v p flags : UInt32) :
    Machine.Ends (MapOutcome layout allocator s) (fun _ => True)
      (vmmMapPage ⟨layout, mmuAccess layout, allocator⟩ v p flags s) := by
  unfold vmmMapPage
  by_cases refused : v % pageSize ≠ 0 ∨ p % pageSize ≠ 0
  · rw [if_pos refused]
    exact .refused
  rw [if_neg refused]
  rcases inv with reached | lost
  case inr =>
    unfold ArkoiOs.getOrCreatePte
    rw [Machine.bind_of_error (Machine.bind_of_error (lost.loadDirectory v))]
    trivial
  apply Machine.Ends.bind (reached.getOrCreatePte v flags)
  intro result s₁ outcome
  cases outcome with
  | noPage answer => exact .noPage answer
  | @found pointer =>
      by_cases null : pointer.IsNull
      · rw [EntryPointer.orNull_of_null null]
        exact .refused
      rw [EntryPointer.orNull_of_valid null]
      apply Machine.Ends.bind (loadEntry_ends _ _ _)
      rintro entry _ ⟨rfl, frame, hit, rfl⟩
      cases pte : (s.memory frame pointer.index).present with
      | true => exact .refused
      | false =>
          apply Machine.Ends.bind (updateEntry_ends _ _ _ _)
          rintro _ _ ⟨frame', hit', rfl⟩
          have place : frame' = frame := Option.some.inj (hit'.symm.trans hit)
          subst place
          exact .mapped (reached.write pte _) rfl
  | @created pointer page _ nonzero table answer reached₁ empty =>
      by_cases null : pointer.IsNull
      · rw [EntryPointer.orNull_of_null null]
        exact .nullTable (table.symm.trans null.1) answer
      rw [EntryPointer.orNull_of_valid null]
      apply Machine.Ends.bind (loadEntry_ends _ _ _)
      rintro entry _ ⟨rfl, frame, hit, rfl⟩
      have pte := empty frame hit
      rw [if_neg (by rw [pte]; decide)]
      apply Machine.Ends.bind (updateEntry_ends _ _ _ _)
      rintro _ _ ⟨frame', hit', rfl⟩
      exact .createdTable (reached₁.write (empty frame' hit') _) nonzero answer

/-- `vmm_unmap_page`. -/
theorem DirectoryInv.unmapPage (inv : DirectoryInv layout s.memory) (v : UInt32) :
    Machine.Ends (UnmapOutcome layout s) (fun _ => True)
      (vmmUnmapPage ⟨layout, mmuAccess layout, allocator⟩ v s) := by
  unfold vmmUnmapPage
  by_cases refused : v % pageSize ≠ 0
  · rw [if_pos refused]
    exact .refused
  rw [if_neg refused]
  rcases inv with reached | lost
  case inr =>
    rw [Machine.bind_of_error (lost.loadDirectory v)]
    trivial
  change Machine.Ends _ _ ((loadEntry (mmuAccess layout) _ >>= _) s)
  rw [Machine.bind_of_ok (reached.loadDirectory v)]
  cases pde : (pdeAt layout s.memory v).present with
  | false => exact .refused
  | true =>
      simp only [Bool.not_true, Bool.false_eq_true, if_false]
      apply Machine.Ends.bind (loadEntry_ends _ _ _)
      rintro entry _ ⟨rfl, frame, hit, rfl⟩
      split
      · exact .refused
      apply Machine.Ends.bind (updateEntry_ends _ _ _ _)
      rintro _ _ ⟨frame', hit', rfl⟩
      exact .unmapped (reached.clear _ _) rfl

/-- `vmm_page_fault_handler` keeps what allocating pages keeps. -/
theorem DirectoryInv.pageFault {P : σ → Prop} (inv : DirectoryInv layout s.memory)
    (keeps : ∀ a page a', P a → allocator.allocPage a = .ok page a' → P a')
    (start : P s.allocator) (cr2 errCode : UInt32) :
    Machine.Ends (fun _ s' => DirectoryInv layout s'.memory ∧ P s'.allocator) (fun _ => True)
      (vmmPageFaultHandler ⟨layout, mmuAccess layout, allocator⟩ cr2 errCode s) := by
  unfold vmmPageFaultHandler
  by_cases notPresent : errCode &&& 0x1 = 0
  case neg =>
    rw [if_neg notPresent]
    trivial
  rw [if_pos notPresent]
  apply Machine.Ends.bind (onAllocator_ends _ s)
  rintro page _ ⟨after, answer, rfl⟩
  have taken := keeps _ _ _ start answer
  by_cases null : page = 0
  · rw [if_pos null]
    trivial
  rw [if_neg null]
  apply Machine.Ends.bind (DirectoryInv.mapPage (s := ⟨s.memory, after⟩) inv _ _ _)
  intro mapped s₁ outcome
  cases mapped with
  | false =>
      apply Machine.Ends.bind (onAllocator_ends _ _)
      rintro _ _ -
      trivial
  | true =>
      apply Machine.Ends.mono (zeroPage_ends _ _ s₁)
      rintro _ _ ⟨frame, -, rfl⟩
      cases outcome with
      | mapped reached same => exact ⟨reached.zeroFrame frame, same ▸ taken⟩
      | createdTable reached _ answer' =>
          exact ⟨reached.zeroFrame frame, keeps _ _ _ taken answer'⟩

end Calls

end ArkoiOs
