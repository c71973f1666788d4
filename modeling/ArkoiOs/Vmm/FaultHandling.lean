import ArkoiOs.Vmm.DemandPaging
import ArkoiOs.Vmm.Refinement
import ArkoiOs.Vmm.TableAccess

/-!
# Serving a page fault

`vmm_page_fault_handler` from the states it can meet outside the boot windows: with pages of
the first 4 MiB left it returns, it maps the page of the fault to a frame that is zeroed, and it
leaves the contents of the frames in use.
-/

namespace ArkoiOs

/-! ## The fault handler -/

/-- What a mapping leaves of the other reserved frames: their contents. -/
theorem vmmMapPage_keeps {σ : Type} (paging : Paging σ) {s s' : Vmm σ} {reserved : Set ℕ}
    {v p flags : UInt32} {result : Bool} {frame : ℕ} (reach : Reaching paging.access)
    (sound : TablesSound paging.layout s.memory reserved) (aligned : Aligned v p)
    (unmapped : walk paging.layout s.memory v = none)
    (answers : (pdeAt paging.layout s.memory v).present = false →
      ∃ page after, Answers paging.allocator reserved s.allocator page after ∧
        frame ≠ frameOf page)
    (run : vmmMapPage paging v p flags s = .ok result s') (mem : frame ∈ reserved) :
    s'.memory frame = s.memory frame := by
  cases pde : (pdeAt paging.layout s.memory v).present with
  | true =>
      have other : frame ≠ (pdeAt paging.layout s.memory v).address :=
        fun same => (sound.table_frame pde).2.2 (same ▸ mem)
      rw [vmmMapPage_writes paging flags reach sound aligned unmapped pde] at run
      split at run
      · cases run
        rfl
      · cases run
        exact Function.update_of_ne other _ _
  | false =>
      obtain ⟨page, after, answer, fresh⟩ := answers pde
      have other : frame ≠ paging.layout.directory := fun same => sound.static.1 (same ▸ mem)
      have created : createTable paging.layout s.memory v page flags frame = s.memory frame :=
        (Function.update_of_ne other _ _).trans (Function.update_of_ne fresh _ _)
      rw [vmmMapPage_creates paging flags reach sound aligned pde answer] at run
      split at run
      · cases run
        exact created
      · cases run
        exact (Function.update_of_ne fresh _ _).trans created

/-- Frames in use are in no table, and neither is an answer still to come, which is none of
them; no table is, or will be, at the null pointer. -/
structure Backed (layout : BootLayout) (held : Set ℕ) (s : Vmm (List UInt32)) : Prop where
  tables : TablesSound layout s.memory (answerFrames s.allocator ∪ ({nullFrame} ∪ held))
  answers : UsableAnswers layout s.allocator
  fresh : ∀ page ∈ s.allocator, frameOf page ∉ ({nullFrame} ∪ held : Set ℕ)

/-- What a served fault on `v` did: it mapped `page`, which is zeroed, and nothing held was
changed. -/
structure FaultEffect (layout : BootLayout) (held : Set ℕ) (before after : Memory)
    (v page : UInt32) : Prop where
  walk : ∀ u, walk layout after u =
    if SamePage u v ∨ Twins u v then some (PageEntry.zero.mapTo page faultFlags)
    else walk layout before u
  zero : ∀ i, after (frameOf page) i = PageEntry.zero
  kept : ∀ frame ∈ held, after frame = before frame

section Handler

variable {layout : BootLayout} {access : Memory → UInt32 → Option ℕ} {s s' : Vmm (List UInt32)}
  {held : Set ℕ} {u v errCode : UInt32} {n : ℕ}

/-- What is said of the start of a page is said of its addresses. -/
theorem related_kalignDown (u v : UInt32) :
    SamePage u (kalignDown v pageSize) ∨ Twins u (kalignDown v pageSize) ↔
      SamePage u v ∨ Twins u v := by
  have start := (samePage_kalignDown v).symm
  have indices := (samePage_iff _ _).1 start
  have same : SamePage u (kalignDown v pageSize) ↔ SamePage u v := by
    unfold SamePage at start ⊢
    rw [start]
  have twins : Twins u (kalignDown v pageSize) ↔ Twins u v := by
    unfold Twins InWindow
    rw [indices.1, indices.2]
  rw [same, twins]

/-- Without its first answer, which is held from now on. -/
theorem Backed.take {memory : Memory} {page : UInt32} {rest : List UInt32}
    (backed : Backed layout held ⟨memory, page :: rest⟩) :
    Backed layout (insert (frameOf page) held) ⟨memory, rest⟩ := by
  refine ⟨backed.tables.mono ?_, backed.answers.tail, ?_⟩
  · rintro frame (⟨page', mem, same⟩ | null | same | kept)
    · exact Or.inl ⟨page', List.mem_cons_of_mem _ mem, same⟩
    · exact Or.inr (Or.inl null)
    · exact Or.inl ⟨page, List.mem_cons_self, same.symm⟩
    · exact Or.inr (Or.inr kept)
  · rintro page' mem (null | same | kept)
    · exact backed.fresh page' (List.mem_cons_of_mem _ mem) (Or.inl null)
    · exact backed.answers.head_fresh ⟨page', mem, same⟩
    · exact backed.fresh page' (List.mem_cons_of_mem _ mem) (Or.inr kept)

/-- Mapping a page that is not mapped, to any aligned frame. -/
theorem Backed.mapPage (backed : Backed layout held s) (reach : Reaching access)
    {p : UInt32} (flags : UInt32) (aligned : Aligned v p) (supply : Supplies (n + 1) s.allocator)
    (unmapped : walk layout s.memory v = none) :
    ∃ s', vmmMapPage ⟨layout, access, scripted⟩ v p flags s = .ok true s' ∧
      Backed layout held s' ∧ Supplies n s'.allocator ∧
      MapEffect layout s.memory s'.memory v p flags ∧
      ∀ frame ∈ held, s'.memory frame = s.memory frame := by
  have fresh : ∀ page ∈ s.allocator.head?, frameOf page ∉ ({nullFrame} ∪ held : Set ℕ) :=
    fun page mem => backed.fresh page (List.mem_of_mem_head? mem)
  obtain ⟨result, s', reserved, run, tables, consumed, effect⟩ :=
    vmmMapPage_of_unmapped ⟨layout, access, scripted⟩ flags reach backed.tables aligned unmapped
      fun _ => VmmInv.answer_of_next backed.answers Set.subset_union_left supply.nextUsable
  obtain ⟨tables', answers', supplies⟩ := VmmInv.of_consumed backed.answers fresh tables consumed
  have fresh' : ∀ page ∈ s'.allocator, frameOf page ∉ ({nullFrame} ∪ held : Set ℕ) := by
    intro page mem
    refine backed.fresh page ?_
    rcases consumed.scripted backed.answers with ⟨same, -⟩ | ⟨table, more, -⟩
    · exact same ▸ mem
    · exact more ▸ List.mem_cons_of_mem _ mem
  have kept : ∀ frame ∈ held, s'.memory frame = s.memory frame := by
    intro frame mem
    refine vmmMapPage_keeps ⟨layout, access, scripted⟩ reach backed.tables aligned
      unmapped (fun absent => ?_) run (Or.inr (Or.inr mem))
    obtain ⟨page, after, answer⟩ :=
      VmmInv.answer_of_next backed.answers Set.subset_union_left supply.nextUsable
    refine ⟨page, after, answer, fun same => ?_⟩
    have answered : page ∈ s.allocator := mem_of_newTables ⟨absent, after, answer.run⟩
    exact backed.fresh page answered (Or.inr (same ▸ mem))
  have backed' : Backed layout held s' := ⟨tables', answers', fresh'⟩
  cases effect with
  | refused null present =>
      obtain ⟨bound, -, apart⟩ := tables'.table_frame present
      exact (apart (Or.inr (Or.inl ((physicalToVirtual_eq_zero_iff bound).1 null.1)))).elim
  | mapped _ effect => exact ⟨s', run, backed', supplies n supply, effect, kept⟩

/-- A fault on a page that is not mapped is served: the first answer is mapped there. -/
theorem Backed.pageFault (backed : Backed layout held s) (reach : Reaching access)
    (notPresent : errCode &&& 0x1 = 0) (supply : Supplies (n + 2) s.allocator)
    (unmapped : walk layout s.memory v = none) :
    ∃ s' page, vmmPageFaultHandler ⟨layout, access, scripted⟩ v errCode s = .ok () s' ∧
      Backed layout (insert (frameOf page) held) s' ∧ Supplies n s'.allocator ∧
      frameOf page ∉ held ∧ FaultEffect layout held s.memory s'.memory v page := by
  rcases s with ⟨memory, answers⟩
  cases answers with
  | nil => cases supply.enough
  | cons page rest =>
      have usable := backed.answers.usable page List.mem_cons_self
      have nonzero : page ≠ 0 := supply.nonzero page List.mem_cons_self
      have start : walk layout memory (kalignDown v pageSize) = none := by
        rw [walk_samePage (samePage_kalignDown v).symm]
        exact unmapped
      obtain ⟨s₁, map, backed₁, supply₁, effect, kept⟩ := backed.take.mapPage reach faultFlags
        ⟨kalignDown_aligned v, usable.1⟩ supply.tail start
      have reached : mmuAccess layout s₁.memory (kalignDown v pageSize) = some (frameOf page) := by
        rw [mmuAccess, effect.walk_self]
        rfl
      have taken : frameOf page ∈
          answerFrames s₁.allocator ∪ ({nullFrame} ∪ insert (frameOf page) held) :=
        Or.inr (Or.inr (Or.inl rfl))
      have run : vmmPageFaultHandler ⟨layout, access, scripted⟩ v errCode ⟨memory, page :: rest⟩ =
          .ok () { s₁ with memory := s₁.memory.zeroFrame (frameOf page) } := by
        unfold vmmPageFaultHandler
        rw [if_pos notPresent, Machine.bind_of_ok (onAllocator_of_ok (scripted_cons page rest)),
          if_neg nonzero]
        exact (Machine.bind_of_ok map).trans (zeroPage_of_access reached)
      have unheld : frameOf page ∉ held :=
        fun kept => backed.fresh page List.mem_cons_self (Or.inr kept)
      refine ⟨_, page, run, ⟨backed₁.tables.zeroFrame taken, backed₁.answers, backed₁.fresh⟩,
        supply₁, unheld, ⟨fun u => ?_, fun i => ?_, fun frame mem => ?_⟩⟩
      · have related := related_kalignDown u v
        rw [backed₁.tables.walk_zeroFrame taken, effect.walk u]
        simp only [related]
        rfl
      · exact (Memory.zeroFrame_apply _ _ _ _).trans (if_pos rfl)
      · have other : frame ≠ frameOf page := fun same => unheld (same ▸ mem)
        exact (Function.update_of_ne other _ _).trans (kept frame (Or.inr mem))

end Handler

/-! ## The handler on the machine -/

section OnMachine

variable {layout : BootLayout} {s : Vmm (List UInt32)} {v errCode : UInt32}

/-- With a page for a table `get_or_create_pte` returns. -/
theorem getOrCreatePte_of_next (inv : MmuInv layout s) (next : NextUsable s.allocator)
    (v flags : UInt32) :
    ∃ result s', getOrCreatePte (mmuPaging layout) v flags s = .ok result s' := by
  rcases s with ⟨memory, answers⟩
  obtain ⟨page, head, nonzero⟩ := next
  obtain ⟨rest, rfl⟩ := List.head?_eq_some_iff.1 head
  obtain ⟨aligned, usable⟩ := inv.answers page List.mem_cons_self
  unfold getOrCreatePte
  change ∃ result s', (loadEntry (mmuAccess layout) _ >>= _) _ = _
  rw [Machine.bind_of_ok (inv.loadDirectory v)]
  cases pde : (pdeAt layout memory v).present with
  | true => exact ⟨_, _, rfl⟩
  | false =>
      simp only [Bool.false_eq_true, if_false]
      rw [Machine.bind_of_ok (onAllocator_of_ok (scripted_cons page rest)), if_neg nonzero]
      have table := inv.intact.reached (usable nonzero).1
      rw [frameAddress_frameOf aligned] at table
      have zeroed := inv.intact.zeroFrame (usable nonzero)
      have directory : mmuAccess layout (memory.zeroFrame (frameOf page))
          (directoryEntry (mmuPaging layout) v).table = some layout.directory :=
        zeroed.reached layout.directory_lt
      change ∃ result s', (zeroPage (mmuAccess layout) _ >>= _) _ = _
      rw [Machine.bind_of_ok (zeroPage_of_access (s := ⟨memory, rest⟩) table)]
      change ∃ result s', (updateEntry (mmuAccess layout) _ _ >>= _) _ = _
      rw [Machine.bind_of_ok (updateEntry_of_access
        (s := ⟨memory.zeroFrame (frameOf page), rest⟩) directory _)]
      exact ⟨_, _, rfl⟩

/-- So does `vmm_map_page`. -/
theorem vmmMapPage_of_next (inv : MmuInv layout s) (outside : ¬ InWindow v)
    (next : NextUsable s.allocator) (p flags : UInt32) :
    ∃ result s', vmmMapPage (mmuPaging layout) v p flags s = .ok result s' := by
  unfold vmmMapPage
  by_cases refused : v % pageSize ≠ 0 ∨ p % pageSize ≠ 0
  · rw [if_pos refused]
    exact ⟨_, _, rfl⟩
  rw [if_neg refused]
  obtain ⟨result, s₁, table⟩ := getOrCreatePte_of_next inv next v flags
  have ends : Machine.Ends _ _ (getOrCreatePte (mmuPaging layout) v flags s) :=
    inv.getOrCreatePte outside
  rw [table] at ends
  obtain ⟨inv₁, points⟩ := ends
  rw [Machine.bind_of_ok table]
  cases result with
  | none => exact ⟨_, _, rfl⟩
  | some pointer =>
      have reached := (points pointer rfl).reached inv₁.intact
      change ∃ result s', (loadEntry (mmuAccess layout) pointer >>= _) s₁ = _
      rw [Machine.bind_of_ok (loadEntry_of_access reached)]
      cases (s₁.memory (pdeAt layout s₁.memory v).address pointer.index).present with
      | true => exact ⟨_, _, rfl⟩
      | false =>
          change ∃ result s', (updateEntry (mmuAccess layout) pointer _ >>= _) s₁ = _
          rw [Machine.bind_of_ok (updateEntry_of_access reached _)]
          exact ⟨_, _, rfl⟩

/-- A fault on a page that is not mapped is served on the machine, too. -/
theorem Backed.serves {held : Set ℕ} {n : ℕ} (backed : Backed layout held s)
    (inv : MmuInv layout s) (outside : ¬ InWindow v) (notPresent : errCode &&& 0x1 = 0)
    (supply : Supplies (n + 2) s.allocator) (unmapped : walk layout s.memory v = none) :
    ∃ s' page, vmmPageFaultHandler (mmuPaging layout) v errCode s = .ok () s' ∧
      MmuInv layout s' ∧ Backed layout (insert (frameOf page) held) s' ∧
      Supplies n s'.allocator ∧ frameOf page ∉ held ∧
      FaultEffect layout held s.memory s'.memory v page := by
  obtain ⟨s', page, direct, backed', supply', fresh, effect⟩ :=
    backed.pageFault directAccess_reaching notPresent supply unmapped
  have same : vmmPageFaultHandler (mmuPaging layout) v errCode s =
      vmmPageFaultHandler (directPaging layout) v errCode s := by
    rcases s with ⟨memory, answers⟩
    cases answers with
    | nil => cases supply.enough
    | cons first rest =>
        have inv₁ : MmuInv layout ⟨memory, rest⟩ :=
          ⟨inv.intact, fun page' mem => inv.answers page' (List.mem_cons_of_mem _ mem)⟩
        have tables : TablesSound layout memory (answerFrames rest) :=
          backed.take.tables.mono Set.subset_union_left
        obtain ⟨result, s₁, map⟩ := vmmMapPage_of_next inv₁ (kalignDown_outside outside)
          supply.tail.nextUsable first faultFlags
        obtain ⟨map', -⟩ := (inv₁.directed _).mapPage tables (fun page mem =>
          ⟨(backed.answers.tail.usable page (mem_of_newTables mem)).1, page,
            mem_of_newTables mem, rfl⟩) _ _ result s₁ map
        unfold vmmPageFaultHandler
        rw [if_pos notPresent, if_pos notPresent,
          Machine.bind_of_ok (onAllocator_of_ok (scripted_cons first rest)),
          Machine.bind_of_ok (onAllocator_of_ok (scripted_cons first rest)),
          if_neg (supply.nonzero first List.mem_cons_self),
          if_neg (supply.nonzero first List.mem_cons_self)]
        refine (Machine.bind_of_ok map).trans ?_
        symm
        exact Machine.bind_of_ok map'
  have run : vmmPageFaultHandler (mmuPaging layout) v errCode s = .ok () s' := same.trans direct
  have ends : Machine.Ends _ _ (vmmPageFaultHandler (mmuPaging layout) v errCode s) :=
    inv.pageFault outside
  rw [run] at ends
  exact ⟨s', page, run, ends, backed', supply', fresh, effect⟩

end OnMachine

end ArkoiOs
