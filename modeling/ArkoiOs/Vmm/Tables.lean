import ArkoiOs.Vmm.Translation

/-!
# The page tables as a whole

`TablesSound` says how the tables hang together: the two boot windows share the
identity table, every other present directory entry has a table of its own, and
the frames of `reserved` are used by no table.  The writes of the memory manager
keep it, and each changes the walk of the pages of one table entry only.
-/

namespace ArkoiOs

/-- The shape of the page tables. -/
structure TablesSound (layout : BootLayout) (memory : Memory) (reserved : Set ℕ) : Prop where
  window : ∀ i, WindowIndex i → (memory layout.directory i).present = true ∧
    (memory layout.directory i).address = layout.identity
  table : ∀ i, ¬ WindowIndex i → (memory layout.directory i).present = true →
    (memory layout.directory i).address < 2 ^ 20 ∧
      (memory layout.directory i).address ≠ layout.directory ∧
      (memory layout.directory i).address ≠ layout.identity ∧
      (memory layout.directory i).address ∉ reserved
  apart : ∀ i j, ¬ WindowIndex i → ¬ WindowIndex j →
    (memory layout.directory i).present = true → (memory layout.directory j).present = true →
    (memory layout.directory i).address = (memory layout.directory j).address → i = j
  static : layout.directory ∉ reserved ∧ layout.identity ∉ reserved

/-- The tables `vmm_preinit` leaves. -/
theorem vmmPreinit_tablesSound (layout : BootLayout) (memory : Memory) {reserved : Set ℕ}
    (static : layout.directory ∉ reserved ∧ layout.identity ∉ reserved) :
    TablesSound layout (vmmPreinit layout memory) reserved := by
  have absent : ∀ i, ¬ WindowIndex i →
      (vmmPreinit layout memory layout.directory i).present = true → False := by
    intro i outside present
    rw [vmmPreinit_directory, if_neg outside] at present
    cases present
  refine ⟨fun i inside => ?_, fun i outside present => (absent i outside present).elim,
    fun i j outside _ present _ _ => (absent i outside present).elim, static⟩
  rw [vmmPreinit_directory, if_pos inside]
  exact ⟨rfl, rfl⟩

/-- The memory after `get_or_create_pte` took `page` as a new table. -/
def createTable (layout : BootLayout) (memory : Memory) (v page flags : UInt32) : Memory :=
  (memory.zeroFrame (frameOf page)).write layout.directory (pdeIndex v)
    ((pdeAt layout memory v).pointTo page flags)

namespace TablesSound

variable {layout : BootLayout} {memory memory' : Memory} {reserved : Set ℕ} {u v : UInt32}

theorem mono (sound : TablesSound layout memory reserved) {reserved' : Set ℕ}
    (sub : reserved' ⊆ reserved) : TablesSound layout memory reserved' where
  window := sound.window
  table i outside present := by
    obtain ⟨bound, directory, identity, fresh⟩ := sound.table i outside present
    exact ⟨bound, directory, identity, fun mem => fresh (sub mem)⟩
  apart := sound.apart
  static := ⟨fun mem => sound.static.1 (sub mem), fun mem => sound.static.2 (sub mem)⟩

/-- The invariant only looks at the directory. -/
theorem congr (sound : TablesSound layout memory reserved)
    (same : ∀ i, memory' layout.directory i = memory layout.directory i) :
    TablesSound layout memory' reserved where
  window i inside := by
    rw [same]
    exact sound.window i inside
  table i outside present := by
    rw [same] at present ⊢
    exact sound.table i outside present
  apart i j outside outside' present present' eq := by
    rw [same] at present eq
    rw [same] at present' eq
    exact sound.apart i j outside outside' present present' eq
  static := sound.static

/-- The table a present directory entry points to. -/
theorem table_frame (sound : TablesSound layout memory reserved)
    (present : (pdeAt layout memory v).present = true) :
    (pdeAt layout memory v).address < 2 ^ 20 ∧
      (pdeAt layout memory v).address ≠ layout.directory ∧
      (pdeAt layout memory v).address ∉ reserved := by
  by_cases inside : WindowIndex (pdeIndex v)
  · have address : (pdeAt layout memory v).address = layout.identity :=
      (sound.window _ inside).2
    rw [address]
    have bound := layout.identity_lt
    unfold pageEntries at bound
    exact ⟨by omega, layout.ne.symm, sound.static.2⟩
  · obtain ⟨bound, directory, -, fresh⟩ := sound.table _ inside present
    exact ⟨bound, directory, fresh⟩

/-- Two pages are translated by one table entry when they are one page or twins
of the windows. -/
theorem sameEntry_iff (sound : TablesSound layout memory reserved)
    (present : (pdeAt layout memory v).present = true) :
    ((pdeAt layout memory u).present = true ∧
        (pdeAt layout memory u).address = (pdeAt layout memory v).address ∧
        pteIndex u = pteIndex v) ↔ SamePage u v ∨ Twins u v := by
  rw [samePage_iff]
  refine ⟨fun ⟨present', address, index⟩ => ?_, fun h => ?_⟩
  · by_cases inside : WindowIndex (pdeIndex u) <;> by_cases inside' : WindowIndex (pdeIndex v)
    · exact Or.inr ⟨inside, inside', index⟩
    · have identity : (pdeAt layout memory u).address = layout.identity :=
        (sound.window _ inside).2
      exact ((sound.table _ inside' present).2.2.1 (address.symm.trans identity)).elim
    · have identity : (pdeAt layout memory v).address = layout.identity :=
        (sound.window _ inside').2
      exact ((sound.table _ inside present').2.2.1 (address.trans identity)).elim
    · exact Or.inl ⟨sound.apart _ _ inside inside' present' present address, index⟩
  · rcases h with ⟨same, index⟩ | ⟨inside, inside', index⟩
    · have same' : pdeAt layout memory u = pdeAt layout memory v := by
        unfold pdeAt
        rw [same]
      rw [same']
      exact ⟨present, rfl, index⟩
    · have here := sound.window _ inside
      have there := sound.window _ inside'
      exact ⟨here.1, here.2.trans there.2.symm, index⟩

/-- Twins are translated by one table entry. -/
theorem walk_twins (sound : TablesSound layout memory reserved) (twins : Twins u v) :
    walk layout memory u = walk layout memory v := by
  rcases twins with ⟨inside, inside', index⟩
  have pde := sound.window _ inside
  have pde' := sound.window _ inside'
  have pte : pteAt layout memory u = pteAt layout memory v := by
    unfold pteAt pdeAt
    rw [pde.2, pde'.2, index]
  unfold walk
  rw [pte]
  unfold pdeAt
  rw [pde.1, pde'.1]

/-- Pages translated by one table entry have one walk. -/
theorem walk_related (sound : TablesSound layout memory reserved)
    (related : SamePage u v ∨ Twins u v) : walk layout memory u = walk layout memory v :=
  related.elim walk_samePage sound.walk_twins

/-! ## Writing a table entry -/

/-- The directory is not changed by a write to a table. -/
theorem write_directory (sound : TablesSound layout memory reserved)
    (present : (pdeAt layout memory v).present = true) (index : ℕ) (entry : PageEntry) (i : ℕ) :
    memory.write (pdeAt layout memory v).address index entry layout.directory i =
      memory layout.directory i :=
  Memory.write_of_ne_frame _ _ _ _ (sound.table_frame present).2.1.symm _

theorem write (sound : TablesSound layout memory reserved)
    (present : (pdeAt layout memory v).present = true) (index : ℕ) (entry : PageEntry) :
    TablesSound layout (memory.write (pdeAt layout memory v).address index entry) reserved :=
  sound.congr (sound.write_directory present index entry)

/-- A write to the table entry of a page changes the walk of that page and of
its twins. -/
theorem walk_write (sound : TablesSound layout memory reserved)
    (present : (pdeAt layout memory v).present = true) (entry : PageEntry) (u : UInt32) :
    walk layout (memory.write (pdeAt layout memory v).address (pteIndex v) entry) u =
      if SamePage u v ∨ Twins u v then (if entry.present then some entry.mapping else none)
      else walk layout memory u := by
  have pde : pdeAt layout (memory.write (pdeAt layout memory v).address (pteIndex v) entry) u =
      pdeAt layout memory u := sound.write_directory present _ _ _
  by_cases same : SamePage u v ∨ Twins u v
  · obtain ⟨present', address, index⟩ := (sound.sameEntry_iff present).2 same
    have pte : pteAt layout (memory.write (pdeAt layout memory v).address (pteIndex v) entry) u =
        entry := by
      unfold pteAt
      rw [pde, address, index, Memory.write_self]
    unfold walk
    rw [pde, pte, present', if_pos same]
    rfl
  · rw [if_neg same]
    apply walk_congr pde
    intro present'
    unfold pteAt
    rw [pde, Memory.write_apply, if_neg]
    exact fun ⟨address, index⟩ => same ((sound.sameEntry_iff present).1 ⟨present', address, index⟩)

/-! ## Zeroing a reserved frame -/

theorem zeroFrame_directory (sound : TablesSound layout memory reserved) {frame : ℕ}
    (mem : frame ∈ reserved) (i : ℕ) :
    memory.zeroFrame frame layout.directory i = memory layout.directory i := by
  rw [Memory.zeroFrame_apply, if_neg]
  intro same
  exact sound.static.1 (same ▸ mem)

theorem zeroFrame (sound : TablesSound layout memory reserved) {frame : ℕ}
    (mem : frame ∈ reserved) : TablesSound layout (memory.zeroFrame frame) reserved :=
  sound.congr (sound.zeroFrame_directory mem)

/-- No table is in a reserved frame, so zeroing one changes no walk. -/
theorem walk_zeroFrame (sound : TablesSound layout memory reserved) {frame : ℕ}
    (mem : frame ∈ reserved) (u : UInt32) :
    walk layout (memory.zeroFrame frame) u = walk layout memory u := by
  have pde : pdeAt layout (memory.zeroFrame frame) u = pdeAt layout memory u :=
    sound.zeroFrame_directory mem _
  apply walk_congr pde
  intro present
  unfold pteAt
  rw [pde, Memory.zeroFrame_apply, if_neg]
  intro same
  exact (sound.table_frame present).2.2 (same ▸ mem)

/-! ## Creating a table -/

variable {page : UInt32} (flags : UInt32)

theorem createTable_directory (sound : TablesSound layout memory reserved)
    (mem : frameOf page ∈ reserved) (i : ℕ) :
    createTable layout memory v page flags layout.directory i =
      if i = pdeIndex v then (pdeAt layout memory v).pointTo page flags
      else memory layout.directory i := by
  rw [createTable, Memory.write_apply]
  simp only [true_and]
  split
  · rfl
  · exact sound.zeroFrame_directory mem i

theorem createTable_pdeAt (sound : TablesSound layout memory reserved)
    (mem : frameOf page ∈ reserved) :
    pdeAt layout (createTable layout memory v page flags) v =
      (pdeAt layout memory v).pointTo page flags := by
  rw [pdeAt, sound.createTable_directory flags mem, if_pos rfl]

/-- The new table is empty. -/
theorem createTable_pteAt (sound : TablesSound layout memory reserved)
    (mem : frameOf page ∈ reserved) (same : pdeIndex u = pdeIndex v) :
    pteAt layout (createTable layout memory v page flags) u = PageEntry.zero := by
  have ne : frameOf page ≠ layout.directory := fun eq => sound.static.1 (eq ▸ mem)
  have pde : pdeAt layout (createTable layout memory v page flags) u =
      (pdeAt layout memory v).pointTo page flags := by
    rw [← sound.createTable_pdeAt flags mem, pdeAt, same]
    rfl
  rw [pteAt, pde]
  change createTable layout memory v page flags (frameOf page) _ = _
  rw [createTable, Memory.write_of_ne_frame _ _ _ _ ne, Memory.zeroFrame_apply, if_pos rfl]

/-- A directory entry that was present stays as it was. -/
theorem createTable_pdeAt_of_present (sound : TablesSound layout memory reserved)
    (mem : frameOf page ∈ reserved) (absent : (pdeAt layout memory v).present = false)
    (present : (pdeAt layout memory u).present = true) :
    pdeAt layout (createTable layout memory v page flags) u = pdeAt layout memory u := by
  rw [pdeAt, sound.createTable_directory flags mem, if_neg]
  · rfl
  · intro same
    unfold pdeAt at present absent
    rw [same, absent] at present
    cases present

/-- The new table uses up a reserved frame. -/
theorem create (sound : TablesSound layout memory reserved)
    (mem : frameOf page ∈ reserved) (absent : (pdeAt layout memory v).present = false) :
    TablesSound layout (createTable layout memory v page flags) (reserved \ {frameOf page}) := by
  have entry : ∀ i, createTable layout memory v page flags layout.directory i =
      if i = pdeIndex v then (pdeAt layout memory v).pointTo page flags
      else memory layout.directory i := sound.createTable_directory flags mem
  have outside : ¬ WindowIndex (pdeIndex v) := by
    intro inside
    have present := (sound.window _ inside).1
    unfold pdeAt at absent
    rw [absent] at present
    cases present
  -- a frame in use by another table was not reserved
  have fresh : ∀ j, ¬ WindowIndex j → (memory layout.directory j).present = true →
      (memory layout.directory j).address ≠ frameOf page := by
    intro j outside' present same
    exact (sound.table j outside' present).2.2.2 (same ▸ mem)
  refine ⟨fun i inside => ?_, fun i outside' present => ?_, fun i j oi oj pi pj same => ?_, ?_⟩
  · have ne : i ≠ pdeIndex v := fun same => outside (same ▸ inside)
    rw [entry, if_neg ne]
    exact sound.window i inside
  · rw [entry] at present ⊢
    by_cases here : i = pdeIndex v
    · rw [if_pos here]
      exact ⟨frameOf_lt page, fun same => sound.static.1 (same ▸ mem),
        fun same => sound.static.2 (same ▸ mem), fun h => h.2 rfl⟩
    · rw [if_neg here] at present ⊢
      obtain ⟨bound, directory, identity, unreserved⟩ := sound.table i outside' present
      exact ⟨bound, directory, identity, fun h => unreserved h.1⟩
  · rw [entry] at pi same
    rw [entry] at pj same
    by_cases hi : i = pdeIndex v <;> by_cases hj : j = pdeIndex v
    · rw [hi, hj]
    · rw [if_pos hi, if_neg hj] at same
      rw [if_neg hj] at pj
      exact (fresh j oj pj same.symm).elim
    · rw [if_neg hi, if_pos hj] at same
      rw [if_neg hi] at pi
      exact (fresh i oi pi same).elim
    · rw [if_neg hi] at pi same
      rw [if_neg hj] at pj same
      exact sound.apart i j oi oj pi pj same
  · exact ⟨fun h => sound.static.1 h.1, fun h => sound.static.2 h.1⟩

/-- A new table is empty, so no walk changes. -/
theorem walk_createTable (sound : TablesSound layout memory reserved)
    (mem : frameOf page ∈ reserved) (absent : (pdeAt layout memory v).present = false)
    (u : UInt32) :
    walk layout (createTable layout memory v page flags) u = walk layout memory u := by
  by_cases same : pdeIndex u = pdeIndex v
  · have before : walk layout memory u = none := by
      rw [walk_eq_none_iff, pdeAt, same]
      intro present
      rw [pdeAt, present] at absent
      cases absent
    rw [before, walk_eq_none_iff, sound.createTable_pteAt flags mem same]
    exact fun _ => rfl
  · have pde : pdeAt layout (createTable layout memory v page flags) u = pdeAt layout memory u := by
      rw [pdeAt, sound.createTable_directory flags mem, if_neg same]
      rfl
    apply walk_congr pde
    intro present
    obtain ⟨-, directory, fresh⟩ := sound.table_frame present
    have ne : (pdeAt layout memory u).address ≠ frameOf page := fun eq => fresh (eq ▸ mem)
    unfold pteAt
    rw [pde, createTable, Memory.write_of_ne_frame _ _ _ _ directory, Memory.zeroFrame_apply,
      if_neg ne]

end TablesSound

end ArkoiOs
