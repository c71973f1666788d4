import ArkoiOs.Vmm.Mmu

/-!
# The two boot windows

`vmm_preinit` points both windows at the one identity table, on purpose.  So
they always translate alike: a call about a page of one window changes the page
at the same place of the other window in the same way, and no other page of it.
-/

namespace ArkoiOs

variable {layout : BootLayout} {access : Memory → UInt32 → Option ℕ} {s s' : Vmm (List UInt32)}

/-- Offsets in the first 4 MiB address twins in the two windows. -/
theorem twins_of_offset {x : UInt32} (bound : x.toNat < 0x400000) :
    Twins x (kernelVirtualBase + x) := by
  have high : (kernelVirtualBase + x).toNat = 0xC0000000 + x.toNat := by
    rw [UInt32.toNat_add]
    change (0xC0000000 + x.toNat) % 2 ^ 32 = _
    omega
  refine ⟨Or.inl ?_, Or.inr ?_, ?_⟩
  · rw [pdeIndex_eq]
    omega
  · rw [pdeIndex_eq, high]
    omega
  · rw [pteIndex_eq, pteIndex_eq, high]
    omega

/-- A request about `v` changes the walk of a page only if it is on the page of
`v` or a twin of it. -/
theorem VmmInv.request_frame (inv : VmmInv layout s) (reach : Reaching access) {r : MapRequest}
    {result : Bool} (run : r.run ⟨layout, access, scripted⟩ s = .ok result s') {u : UInt32}
    (other : ¬ (SamePage u r.address ∨ Twins u r.address)) :
    walk layout s'.memory u = walk layout s.memory u := by
  cases r with
  | map v p flags =>
      obtain ⟨-, ⟨-, effect⟩ | ⟨-, -, effect⟩⟩ := inv.map reach run
      · exact effect.walk u
      · exact (effect.walk u).trans (if_neg other)
  | unmap v =>
      obtain ⟨_, _, run', -, -, effect⟩ := inv.unmap reach v
      have same := run'.symm.trans run
      cases same
      rcases effect with ⟨-, rfl, -⟩ | ⟨-, -, effect⟩
      · rfl
      · exact (effect.walk u).trans (if_neg other)

/-- What a request about an address of one window does to a page of the other:
the twin translates afterwards as the address does, and any other page as
before. -/
theorem VmmInv.request_twin (inv : VmmInv layout s) (reach : Reaching access) {r : MapRequest}
    {result : Bool} (run : r.run ⟨layout, access, scripted⟩ s = .ok result s')
    (inv' : VmmInv layout s') {u : UInt32} (inside : InWindow u) (inside' : InWindow r.address) :
    walk layout s'.memory u =
      if pteIndex u = pteIndex r.address then walk layout s'.memory r.address
      else walk layout s.memory u := by
  by_cases index : pteIndex u = pteIndex r.address
  · rw [if_pos index]
    exact inv'.tables.walk_twins ⟨inside, inside', index⟩
  · rw [if_neg index]
    apply inv.request_frame reach run
    intro related
    rcases related with same | twins
    · exact index ((samePage_iff _ _).1 same).2
    · exact index twins.2.2

/-- A request about a page of one window leaves the other window as it is but
for the page at the same place, which it changes in the same way. -/
theorem VmmInv.request_alike (inv : VmmInv layout s) (reach : Reaching access)
    {x y : UInt32} (hx : x.toNat < 0x400000) (hy : y.toNat < 0x400000) {r : MapRequest}
    {result : Bool} (call : r.run ⟨layout, access, scripted⟩ s = .ok result s') :
    (r.address = x → walk layout s'.memory (kernelVirtualBase + y) =
        if SamePage y x then walk layout s'.memory x
        else walk layout s.memory (kernelVirtualBase + y)) ∧
      (r.address = kernelVirtualBase + x → walk layout s'.memory y =
        if SamePage y x then walk layout s'.memory (kernelVirtualBase + x)
        else walk layout s.memory y) := by
  have step : VmmStep ⟨layout, access, scripted⟩ (fun _ => True) s s' :=
    ⟨.request r, trivial, result, call⟩
  have inv' := (inv.step reach step).1
  have twinX := twins_of_offset hx
  have twinY := twins_of_offset hy
  have place : SamePage y x ↔ pteIndex y = pteIndex x := by
    rw [samePage_iff, pdeIndex_eq, pdeIndex_eq, pteIndex_eq, pteIndex_eq]
    omega
  refine ⟨fun low => ?_, fun high => ?_⟩
  · have inside : InWindow r.address := low ▸ twinX.1
    rw [inv.request_twin reach call inv' twinY.2.1 inside, low, ← twinY.2.2]
    simp only [place]
  · have inside : InWindow r.address := high ▸ twinX.2.1
    rw [inv.request_twin reach call inv' twinY.1 inside, high, ← twinX.2.2]
    simp only [place]

/-- In every state the machine reaches by calls whose accesses to tables hit, the windows
translate alike, and such a request about a page of one window changes the page at the same
place of the other window in the same way, and no other page of it. -/
theorem windows_change_alike (memory : Memory) {answers : List UInt32}
    (usable : UsableAnswers layout answers)
    (run : ExactRun layout (Vmm.preinit layout memory answers) s)
    {x y : UInt32} (hx : x.toNat < 0x400000) (hy : y.toNat < 0x400000) (r : MapRequest)
    {result : Bool} (call : r.run (exactPaging layout) s = .ok result s') :
    VmmRun (mmuPaging layout) (fun _ => True) (Vmm.preinit layout memory answers) s ∧
      walk layout s.memory (kernelVirtualBase + y) = walk layout s.memory y ∧
      r.run (mmuPaging layout) s = .ok result s' ∧
      (r.address = x → walk layout s'.memory (kernelVirtualBase + y) =
        if SamePage y x then walk layout s'.memory x
        else walk layout s.memory (kernelVirtualBase + y)) ∧
      (r.address = kernelVirtualBase + x → walk layout s'.memory y =
        if SamePage y x then walk layout s'.memory (kernelVirtualBase + x)
        else walk layout s.memory y) := by
  have inv := run.inv usable
  have direct := ((exactAccess_narrows_direct layout).request scripted r).of_ok call
  exact ⟨run.machine, (inv.tables.walk_twins (twins_of_offset hy)).symm,
    ((exactAccess_narrows_mmu layout).request scripted r).of_ok call,
    inv.request_alike directAccess_reaching hx hy direct⟩

theorem sample_windows_change_alike : ∃ s',
    vmmUnmapPage (mmuPaging sampleLayout) 0x1000
        (Vmm.preinit sampleLayout zeroMemory [0x200000, 0x201000]) = .ok true s' ∧
      walk sampleLayout s'.memory (kernelVirtualBase + 0x2000) =
        walk sampleLayout (Vmm.preinit sampleLayout zeroMemory [0x200000, 0x201000]).memory
          (kernelVirtualBase + 0x2000) := by
  have unmapped : Machine.value? (vmmUnmapPage (exactPaging sampleLayout) 0x1000
      (Vmm.preinit sampleLayout zeroMemory [0x200000, 0x201000])) = some true := by
    decide +kernel
  obtain ⟨-, -, run, low, -⟩ := windows_change_alike zeroMemory sampleAnswers_usable .refl
    (x := 0x1000) (y := 0x2000) (by decide) (by decide) (.unmap 0x1000)
    (Machine.eq_ok_of_value unmapped)
  have other := low rfl
  rw [if_neg (by decide)] at other
  exact ⟨_, run, other⟩

/-- Unmapping a page of the low window, with kernel accesses translated by the
tables, takes the kernel page at the same place out as well. -/
theorem lowUnmap_unmaps_kernel : ∃ s',
    vmmUnmapPage ⟨sampleLayout, mmuAccess sampleLayout, scripted⟩ 0x1000
        (Vmm.preinit sampleLayout zeroMemory []) = .ok true s' ∧
      (walk sampleLayout (Vmm.preinit sampleLayout zeroMemory []).memory
        (kernelVirtualBase + 0x1000)).isSome ∧
      walk sampleLayout s'.memory (kernelVirtualBase + 0x1000) = none := by
  refine ⟨_, Machine.eq_ok_of_value ?_, ?_, ?_⟩ <;> decide +kernel

end ArkoiOs
