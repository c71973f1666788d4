import ArkoiOs.Pmm.Guarantees

/-!
# The memory reported at boot

`pmm_init` narrows the 64-bit base and length of each RAM entry to 32 bits and
adds the range they give.  What is managed afterwards is compared here with the
whole pages below 4 GiB that the entries report.
-/

namespace ArkoiOs

/-- The page frames a region manages. -/
def PmmRegion.frames (region : PmmRegion) : Set ℕ :=
  {page | region.start.toNat ≤ page * 4096 ∧ (page + 1) * 4096 ≤ region.end_.toNat}

/-- The page frames all regions manage. -/
def Pmm.managedFrames (pmm : Pmm) : Set ℕ :=
  {page | ∃ region ∈ pmm.regions, page ∈ region.frames}

namespace BootMemoryRegion

/-- Two entries report different bytes. -/
def Apart (entry entry' : BootMemoryRegion) : Prop :=
  entry.baseAddress.toNat + entry.length.toNat ≤ entry'.baseAddress.toNat ∨
    entry'.baseAddress.toNat + entry'.length.toNat ≤ entry.baseAddress.toNat

/-- The whole pages below 4 GiB inside the entry, in 64-bit arithmetic. -/
def reportedFrames (entry : BootMemoryRegion) : Set ℕ :=
  {page | page < 2 ^ 20 ∧ entry.baseAddress.toNat ≤ page * 4096 ∧
    (page + 1) * 4096 ≤ entry.baseAddress.toNat + entry.length.toNat}

/-- The first page boundary of the narrowed entry. -/
def narrowStart (entry : BootMemoryRegion) : UInt32 := alignedStart entry.baseAddress.toUInt32

/-- The last page boundary of the narrowed entry. -/
def narrowEnd (entry : BootMemoryRegion) : UInt32 :=
  alignedEnd entry.baseAddress.toUInt32 entry.length.toUInt32

/-- The page frames between the boundaries of the narrowed entry. -/
def narrowFrames (entry : BootMemoryRegion) : Set ℕ :=
  {page | entry.narrowStart.toNat ≤ page * 4096 ∧ (page + 1) * 4096 ≤ entry.narrowEnd.toNat}

/-- The narrowed range is not empty and does not wrap: `pmm_add_region` takes it. -/
def Accepted (entry : BootMemoryRegion) : Prop :=
  entry.baseAddress.toUInt32 < entry.baseAddress.toUInt32 + entry.length.toUInt32

/-- The entry starts at most at the last page below 4 GiB and ends below 4 GiB. -/
def FitsBelow (entry : BootMemoryRegion) : Prop :=
  entry.baseAddress.toNat ≤ 0xFFFFF000 ∧
    entry.baseAddress.toNat + entry.length.toNat < 2 ^ 32

/-- The entry starts at or above 4 GiB, and the low halves of its base and
length describe a range without a whole page. -/
def VanishesAbove (entry : BootMemoryRegion) : Prop :=
  2 ^ 32 ≤ entry.baseAddress.toNat ∧ entry.baseAddress.toNat % 2 ^ 32 ≤ 0xFFFFF000 ∧
    (entry.baseAddress.toNat % 2 ^ 32 + entry.length.toNat % 2 ^ 32) / 4096 ≤
      (entry.baseAddress.toNat % 2 ^ 32 + 4095) / 4096

/-- The narrowed entries share no page. -/
def NarrowApart (entry entry' : BootMemoryRegion) : Prop :=
  ∀ page ∈ entry.narrowFrames, page ∉ entry'.narrowFrames

instance : Std.Symm NarrowApart := ⟨fun _ _ apart page h h' => apart page h' h⟩

/-- The narrowed base and length, and their sum, of an accepted entry. -/
theorem Accepted.narrow_toNat {entry : BootMemoryRegion} (accepted : entry.Accepted) :
    entry.baseAddress.toUInt32.toNat = entry.baseAddress.toNat % 2 ^ 32 ∧
      (entry.baseAddress.toUInt32 + entry.length.toUInt32).toNat =
        entry.baseAddress.toNat % 2 ^ 32 + entry.length.toNat % 2 ^ 32 := by
  have base := UInt64.toNat_toUInt32 entry.baseAddress
  have length := UInt64.toNat_toUInt32 entry.length
  refine ⟨base, ?_⟩
  have less := UInt32.lt_iff_toNat_lt.1 accepted
  rw [UInt32.toNat_add, base, length] at less ⊢
  omega

/-- The boundaries of an accepted entry. -/
theorem Accepted.narrowEnd_toNat {entry : BootMemoryRegion} (accepted : entry.Accepted) :
    entry.narrowEnd.toNat =
      (entry.baseAddress.toNat % 2 ^ 32 + entry.length.toNat % 2 ^ 32) / 4096 * 4096 := by
  rw [narrowEnd, alignedEnd, kalignDown_toNat, accepted.narrow_toNat.2]

theorem Accepted.narrowStart_toNat {entry : BootMemoryRegion} (accepted : entry.Accepted)
    (low : entry.baseAddress.toNat % 2 ^ 32 ≤ 0xFFFFF000) :
    entry.narrowStart.toNat = (entry.baseAddress.toNat % 2 ^ 32 + 4095) / 4096 * 4096 := by
  have base := accepted.narrow_toNat.1
  rw [narrowStart, alignedStart, kalignUp_toNat (by rw [base]; exact low), base]

/-- The last page below 4 GiB is never managed. -/
theorem last_not_mem_narrowFrames (entry : BootMemoryRegion) :
    0xFFFFF ∉ entry.narrowFrames := by
  intro h
  have bound := entry.narrowEnd.toNat_lt
  have := h.2
  omega

/-- An entry that fits, or vanishes, is managed as reported. -/
theorem narrowFrames_eq {entry : BootMemoryRegion} (accepted : entry.Accepted)
    (good : entry.FitsBelow ∨ entry.VanishesAbove) :
    entry.narrowFrames = entry.reportedFrames := by
  apply Set.ext
  intro page
  unfold narrowFrames reportedFrames
  simp only [Set.mem_ofPred_eq, accepted.narrowEnd_toNat]
  rcases good with ⟨low, below⟩ | ⟨above, low, empty⟩
  · rw [accepted.narrowStart_toNat (by omega)]
    omega
  · rw [accepted.narrowStart_toNat low]
    omega

/-- Any other entry reports the last page below 4 GiB, or reports nothing and
yet makes some page managed. -/
theorem misreported {entry : BootMemoryRegion} (accepted : entry.Accepted)
    (bad : ¬ (entry.FitsBelow ∨ entry.VanishesAbove)) :
    0xFFFFF ∈ entry.reportedFrames ∨
      (entry.reportedFrames = ∅ ∧ ∃ page, page ∈ entry.narrowFrames) := by
  rcases accepted.narrow_toNat with ⟨base, sum⟩
  have less := UInt32.lt_iff_toNat_lt.1 accepted
  have wraps := (entry.baseAddress.toUInt32 + entry.length.toUInt32).toNat_lt
  rw [base, sum] at less
  rw [sum] at wraps
  unfold FitsBelow VanishesAbove at bad
  have empty : (∀ page, page < 2 ^ 20 → entry.baseAddress.toNat ≤ page * 4096 →
      ¬ (page + 1) * 4096 ≤ entry.baseAddress.toNat + entry.length.toNat) →
        entry.reportedFrames = ∅ := by
    intro none
    exact Set.eq_empty_of_forall_notMem fun page h => none page h.1 h.2.1 h.2.2
  by_cases low : entry.baseAddress.toNat % 2 ^ 32 ≤ 0xFFFFF000
  · by_cases above : 2 ^ 32 ≤ entry.baseAddress.toNat
    · refine Or.inr ⟨empty fun page h h' => by omega,
        (entry.baseAddress.toNat % 2 ^ 32 + 4095) / 4096, ?_⟩
      unfold narrowFrames
      simp only [Set.mem_ofPred_eq, accepted.narrowEnd_toNat, accepted.narrowStart_toNat low]
      omega
    · exact Or.inl ⟨by omega, by omega, by omega⟩
  · -- the start wraps to page 0
    refine Or.inr ⟨empty fun page h h' => by omega, 0, ?_⟩
    have start : entry.narrowStart = 0 := kalignUp_eq_zero (by rw [base]; omega)
    unfold narrowFrames
    simp only [Set.mem_ofPred_eq, accepted.narrowEnd_toNat, start]
    exact ⟨Nat.zero_le _, by omega⟩

end BootMemoryRegion

/-! ## What `pmm_init` adds -/

/-- The regions that accepted entries add, in order. -/
inductive Narrowed : List BootMemoryRegion → List PmmRegion → Prop
  | nil : Narrowed [] []
  | skip {entry : BootMemoryRegion} {entries : List BootMemoryRegion} {regions : List PmmRegion} :
      entry.Accepted → entry.narrowEnd ≤ entry.narrowStart → Narrowed entries regions →
      Narrowed (entry :: entries) regions
  | add {entry : BootMemoryRegion} {entries : List BootMemoryRegion} {region : PmmRegion}
      {regions : List PmmRegion} :
      entry.Accepted → entry.narrowStart < entry.narrowEnd →
      FreshRegion region entry.baseAddress.toUInt32 entry.length.toUInt32 →
      Narrowed entries regions → Narrowed (entry :: entries) (region :: regions)

/-- The loop of `pmm_init` appends what the entries add. -/
theorem forM_pmmAddRegion_ok :
    ∀ {entries : List BootMemoryRegion} {pmm pmm' : Pmm},
      (entries.forM fun region =>
        pmmAddRegion region.baseAddress.toUInt32 region.length.toUInt32) pmm = .ok () pmm' →
      ∃ added, pmm'.regions = pmm.regions ++ added ∧ Narrowed entries added
  | [], pmm, pmm', run => by
      cases run
      exact ⟨[], (List.append_nil _).symm, .nil⟩
  | entry :: entries, pmm, pmm', run => by
      change (pmmAddRegion entry.baseAddress.toUInt32 entry.length.toUInt32 >>= fun _ =>
        entries.forM fun region =>
          pmmAddRegion region.baseAddress.toUInt32 region.length.toUInt32) pmm = _ at run
      obtain ⟨_, pmm₁, first, rest⟩ := Machine.bind_eq_ok.1 run
      obtain ⟨added, regions, narrowed⟩ := forM_pmmAddRegion_ok rest
      obtain ⟨accepted, ⟨empty, rfl⟩ | ⟨nonempty, region, fresh, regions₁⟩⟩ :=
        pmmAddRegion_ok first
      · exact ⟨added, regions, .skip accepted empty narrowed⟩
      · refine ⟨region :: added, ?_, .add accepted nonempty fresh narrowed⟩
        rw [regions, regions₁, List.append_assoc]
        rfl

theorem pmmInit_ok {bootInfo : BootInfo} {emm : Emm} {pmm : Pmm}
    (run : pmmInit bootInfo (Pmm.boot emm) = .ok () pmm) :
    Narrowed bootInfo.ramRegions pmm.regions := by
  obtain ⟨added, regions, narrowed⟩ := forM_pmmAddRegion_ok run
  rw [regions]
  exact narrowed

theorem FreshRegion.geometry {region : PmmRegion} {start size : UInt32}
    (fresh : FreshRegion region start size) : region.Geometry := by
  rcases fresh.sound with ⟨_, sound⟩
  exact sound.geometry

/-- Regions are apart when they share no page frame. -/
theorem PmmRegion.Geometry.apart_iff {region region' : PmmRegion} (geometry : region.Geometry)
    (geometry' : region'.Geometry) :
    region.Apart region' ↔ ∀ page ∈ region.frames, page ∉ region'.frames := by
  have span := geometry.span
  have span' := geometry'.span
  have aligned := geometry.aligned
  have aligned' := geometry'.aligned
  have nonempty := geometry.nonempty
  have nonempty' := geometry'.nonempty
  unfold PmmRegion.Apart
  rw [UInt32.le_iff_toNat_le, UInt32.le_iff_toNat_le]
  refine ⟨fun apart page h h' => ?_, fun apart => ?_⟩
  · have lower := h.1
    have upper := h.2
    have lower' := h'.1
    have upper' := h'.2
    omega
  · -- otherwise they share the first page of the one that starts later
    by_contra meet
    refine apart (max (region.start.toNat / 4096) (region'.start.toNat / 4096)) ⟨?_, ?_⟩
      ⟨?_, ?_⟩ <;> omega

namespace Narrowed

variable {entries : List BootMemoryRegion} {regions : List PmmRegion}

theorem accepted (h : Narrowed entries regions) : ∀ entry ∈ entries, entry.Accepted := by
  induction h with
  | nil => exact fun entry mem => (List.not_mem_nil mem).elim
  | skip accepted _ _ ih | add accepted _ _ _ ih =>
      intro entry mem
      rcases List.mem_cons.1 mem with rfl | mem
      · exact accepted
      · exact ih entry mem

theorem geometry (h : Narrowed entries regions) : ∀ region ∈ regions, region.Geometry := by
  induction h with
  | nil => exact fun region mem => (List.not_mem_nil mem).elim
  | skip _ _ _ ih => exact ih
  | add _ _ fresh _ ih =>
      intro region mem
      rcases List.mem_cons.1 mem with rfl | mem
      · exact fresh.geometry
      · exact ih region mem

/-- The regions manage the pages of the narrowed entries. -/
theorem frames_iff (h : Narrowed entries regions) (page : ℕ) :
    (∃ region ∈ regions, page ∈ region.frames) ↔
      ∃ entry ∈ entries, page ∈ entry.narrowFrames := by
  induction h with
  | nil =>
      exact ⟨fun ⟨_, mem, _⟩ => (List.not_mem_nil mem).elim,
        fun ⟨_, mem, _⟩ => (List.not_mem_nil mem).elim⟩
  | @skip entry entries regions _ empty _ ih =>
      have none : page ∉ entry.narrowFrames := by
        intro h
        have lower := h.1
        have upper := h.2
        have := UInt32.le_iff_toNat_le.1 empty
        omega
      rw [ih]
      simp only [List.mem_cons, exists_eq_or_imp, none, false_or]
  | @add entry entries region regions _ _ fresh _ ih =>
      have same : region.frames = entry.narrowFrames := by
        unfold PmmRegion.frames
        rw [fresh.start_eq, fresh.end_eq]
        rfl
      simp only [List.mem_cons, exists_eq_or_imp, ih, same]

/-- The regions are pairwise apart when no two narrowed entries share a page. -/
theorem disjoint_iff (h : Narrowed entries regions) :
    regions.Pairwise PmmRegion.Apart ↔ entries.Pairwise BootMemoryRegion.NarrowApart := by
  induction h with
  | nil => exact ⟨fun _ => .nil, fun _ => .nil⟩
  | @skip entry entries regions _ empty narrowed ih =>
      rw [List.pairwise_cons, ih]
      refine (and_iff_right fun entry' _ page h => ?_).symm
      have lower := h.1
      have upper := h.2
      have := UInt32.le_iff_toNat_le.1 empty
      omega
  | @add entry entries region regions _ _ fresh narrowed ih =>
      rw [List.pairwise_cons, List.pairwise_cons, ih]
      apply and_congr_left
      intro _
      have same : region.frames = entry.narrowFrames := by
        unfold PmmRegion.frames
        rw [fresh.start_eq, fresh.end_eq]
        rfl
      refine ⟨fun apart entry' mem page h h' => ?_, fun apart other mem => ?_⟩
      · obtain ⟨other, mem', shared⟩ := (narrowed.frames_iff page).2 ⟨entry', mem, h'⟩
        exact (fresh.geometry.apart_iff (narrowed.geometry other mem')).1 (apart other mem') page
          (same ▸ h) shared
      · apply (fresh.geometry.apart_iff (narrowed.geometry other mem)).2
        intro page h shared
        obtain ⟨entry', mem', h'⟩ := (narrowed.frames_iff page).1 ⟨other, mem, shared⟩
        exact apart entry' mem' page (same ▸ h) h'

end Narrowed

/-- The whole pages below 4 GiB that some entry reports. -/
def reportedFrames (entries : List BootMemoryRegion) : Set ℕ :=
  {page | ∃ entry ∈ entries, page ∈ entry.reportedFrames}

/-- The managed memory is the reported memory, without a page owned twice. -/
def ManagesReported (entries : List BootMemoryRegion) (pmm : Pmm) : Prop :=
  pmm.managedFrames = reportedFrames entries ∧ pmm.Disjoint

/-- For disjoint RAM entries, a returning `pmm_init` manages exactly the memory
they report if and only if every entry either fits below 4 GiB or lies above it
and narrows to a range without a whole page. -/
theorem pmmInit_managesReported_iff {bootInfo : BootInfo} {emm : Emm} {pmm : Pmm}
    (disjoint : bootInfo.ramRegions.Pairwise BootMemoryRegion.Apart)
    (run : pmmInit bootInfo (Pmm.boot emm) = .ok () pmm) :
    ManagesReported bootInfo.ramRegions pmm ↔
      ∀ entry ∈ bootInfo.ramRegions, entry.FitsBelow ∨ entry.VanishesAbove := by
  have narrowed := pmmInit_ok run
  have accepted := narrowed.accepted
  have managed : ∀ page, page ∈ pmm.managedFrames ↔
      ∃ entry ∈ bootInfo.ramRegions, page ∈ entry.narrowFrames := narrowed.frames_iff
  unfold ManagesReported Pmm.Disjoint
  rw [narrowed.disjoint_iff]
  refine ⟨fun ⟨same, apart⟩ => ?_, fun good => ⟨?_, ?_⟩⟩
  · -- the last page below 4 GiB is not managed, so no entry reports it
    have notLast : ∀ entry ∈ bootInfo.ramRegions, 0xFFFFF ∉ entry.reportedFrames := by
      intro entry mem reported
      have managedLast : 0xFFFFF ∈ pmm.managedFrames := by
        rw [same]
        exact ⟨entry, mem, reported⟩
      obtain ⟨entry', -, last⟩ := (managed _).1 managedLast
      exact entry'.last_not_mem_narrowFrames last
    intro entry mem
    by_contra bad
    rcases BootMemoryRegion.misreported (accepted entry mem) bad with last | ⟨empty, page, h⟩
    · exact notLast entry mem last
    -- the page is reported by another entry, which manages it as well
    have reported : page ∈ reportedFrames bootInfo.ramRegions := by
      rw [← same]
      exact (managed page).2 ⟨entry, mem, h⟩
    rcases reported with ⟨entry', mem', h'⟩
    have ne : entry ≠ entry' := by
      intro eq
      rw [← eq, empty] at h'
      exact h'
    have good : entry'.FitsBelow ∨ entry'.VanishesAbove := by
      by_contra bad'
      rcases BootMemoryRegion.misreported (accepted entry' mem') bad' with last | ⟨empty', -⟩
      · exact notLast entry' mem' last
      · rw [empty'] at h'
        exact h'
    rw [← BootMemoryRegion.narrowFrames_eq (accepted entry' mem') good] at h'
    exact apart.forall mem mem' ne page h h'
  · refine Set.ext fun page => (managed page).trans ?_
    refine exists_congr fun entry => and_congr_right fun mem => ?_
    rw [BootMemoryRegion.narrowFrames_eq (accepted entry mem) (good entry mem)]
  · refine disjoint.imp_of_mem fun {entry entry'} mem mem' apart page h h' => ?_
    rw [BootMemoryRegion.narrowFrames_eq (accepted entry mem) (good entry mem)] at h
    rw [BootMemoryRegion.narrowFrames_eq (accepted entry' mem') (good entry' mem')] at h'
    have lower := h.2.1
    have upper := h.2.2
    have lower' := h'.2.1
    have upper' := h'.2.2
    rcases apart with apart | apart <;> omega

/-- Boot information with RAM entries only. -/
def BootInfo.ofRam (ramRegions : List BootMemoryRegion) : BootInfo :=
  ⟨none, none, ramRegions, [], []⟩

theorem lowPages_managesReported_iff :
    ∃ pmm, pmmInit (.ofRam [⟨0x1000, 0x2000⟩]) (Pmm.boot kernelHeap) = .ok () pmm ∧
      (ManagesReported [⟨0x1000, 0x2000⟩] pmm ↔
        ∀ entry ∈ [(⟨0x1000, 0x2000⟩ : BootMemoryRegion)],
          entry.FitsBelow ∨ entry.VanishesAbove) := by
  have run := Machine.eq_ok_of_value (show Machine.value? (pmmInit (.ofRam [⟨0x1000, 0x2000⟩])
    (Pmm.boot kernelHeap)) = some () by decide +kernel)
  exact ⟨_, run, pmmInit_managesReported_iff (List.pairwise_singleton _ _) run⟩

/-- An entry above 4 GiB is managed at its low address, where another entry is
managed already. -/
theorem highEntry_managed_twice :
    let entries : List BootMemoryRegion := [⟨0x1000, 0x2000⟩, ⟨0x100001000, 0x1000⟩]
    entries.Pairwise BootMemoryRegion.Apart ∧
      (∀ entry ∈ entries, entry.baseAddress.toNat + entry.length.toNat < 2 ^ 64) ∧
      ∃ pmm, pmmInit (.ofRam entries) (Pmm.boot kernelHeap) = .ok () pmm ∧
        ¬ ManagesReported entries pmm := by
  intro entries
  have run := Machine.eq_ok_of_value (show Machine.value? (pmmInit (.ofRam entries)
    (Pmm.boot kernelHeap)) = some () by decide +kernel)
  have twice : ¬ (Machine.final (pmmInit (.ofRam entries) (Pmm.boot kernelHeap))).Disjoint := by
    decide +kernel
  refine ⟨?_, by decide +kernel, _, run, fun managed => twice managed.2⟩
  refine List.pairwise_pair.2 (Or.inl ?_)
  decide +kernel

end ArkoiOs
