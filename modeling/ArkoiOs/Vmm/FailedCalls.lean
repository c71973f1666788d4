import ArkoiOs.Pmm.NeverNull
import ArkoiOs.Vmm.DirectoryAccess
import ArkoiOs.Vmm.Owners

/-!
# Calls that return false

`vmm_map_page` and `vmm_unmap_page` return false before they write anything,
with two exceptions, which both take an address for the null pointer.  The page
at address 0 has left its free list when `get_or_create_pte` takes it for a
failed allocation.  A new table at 1 GiB is in the directory when
`vmm_map_page` takes its first entry, which is at virtual address 0, for a
failure.  Over any RAM list and any calls there is no other way, and where one
of the two pages is managed some run gets there.
-/

namespace ArkoiOs

/-! ## Runs -/

/-- One call that returns: to the memory manager, a request to the allocator, or
the free of any address. -/
inductive KernelStep (layout : BootLayout) : Vmm Pmm → Vmm Pmm → Prop
  | vmm {s s' : Vmm Pmm} {call : VmmCall} {result : Bool} :
      call.run (pmmPaging layout) s = .ok result s' → KernelStep layout s s'
  | alloc {s : Vmm Pmm} {request : AllocRequest} {address : UInt32} {pmm' : Pmm} :
      request.run s.allocator = .ok address pmm' →
      KernelStep layout s { s with allocator := pmm' }
  | free {s : Vmm Pmm} {address : UInt32} {pmm' : Pmm} :
      pmmFree address s.allocator = .ok () pmm' →
      KernelStep layout s { s with allocator := pmm' }

/-- The pools of the allocator, none of which has page 0 or the page at 1 GiB. -/
structure PoolsSkipNull (pmm : Pmm) : Prop where
  pooled : pmm.Pooled
  zero : 0 ∉ pmm.managedFrames
  null : nullFrame ∉ pmm.managedFrames

namespace PoolsSkipNull

variable {pmm pmm' : Pmm} {address : UInt32}

theorem of_kept (pools : PoolsSkipNull pmm) (kept : pmm.PoolsKept pmm') : PoolsSkipNull pmm' := by
  refine ⟨kept.pooled, ?_, ?_⟩ <;> rw [Pmm.managedFrames_of_ranges kept.ranges]
  · exact pools.zero
  · exact pools.null

theorem request (pools : PoolsSkipNull pmm) {request : AllocRequest}
    (run : request.run pmm = .ok address pmm') : PoolsSkipNull pmm' :=
  pools.of_kept ((pools.pooled.request request).of_ok run).1

theorem free (pools : PoolsSkipNull pmm) (run : pmmFree address pmm = .ok () pmm') :
    PoolsSkipNull pmm' :=
  pools.of_kept ((pools.pooled.free address).of_ok run)

/-- One page; neither it nor a table in it is at the null pointer. -/
theorem allocPage (pools : PoolsSkipNull pmm) (run : pmmAllocPages 1 pmm = .ok address pmm') :
    PoolsSkipNull pmm' ∧ address ≠ 0 ∧ physicalToVirtual address ≠ 0 := by
  have served : (AllocRequest.pages 1).run pmm = .ok address pmm' := run
  have positive : (AllocRequest.pages 1).Positive := by
    unfold AllocRequest.Positive
    decide
  obtain ⟨aligned, managed⟩ := pools.pooled.request_managed positive served
  rw [← frameOf_eq] at managed
  refine ⟨pools.request served, fun zero => pools.zero ?_, fun null => pools.null ?_⟩
  · rw [zero] at managed
    exact managed
  · rw [← frameAddress_frameOf aligned, physicalToVirtual_eq_zero_iff (frameOf_lt address)] at null
    exact null ▸ managed

end PoolsSkipNull

/-- What every call keeps where the two pages are not managed. -/
structure FailSafe (layout : BootLayout) (s : Vmm Pmm) : Prop where
  directory : DirectoryInv layout s.memory
  pools : PoolsSkipNull s.allocator

namespace FailSafe

variable {layout : BootLayout} {s s' : Vmm Pmm}

/-- A request that returns true keeps it, and one that returns false does
nothing. -/
theorem request (safe : FailSafe layout s) (request : MapRequest) {result : Bool}
    (run : request.run (pmmPaging layout) s = .ok result s') :
    FailSafe layout s' ∧ (result = false → s' = s) := by
  cases request with
  | map v p flags =>
      have outcome := (safe.directory.mapPage v p flags).of_ok run
      cases outcome with
      | refused => exact ⟨safe, fun _ => rfl⟩
      | noPage answer => exact ((safe.pools.allocPage answer).2.1 rfl).elim
      | nullTable null answer => exact ((safe.pools.allocPage answer).2.2 null).elim
      | mapped reached same => exact ⟨⟨Or.inl reached, same ▸ safe.pools⟩, nofun⟩
      | createdTable reached _ answer =>
          exact ⟨⟨Or.inl reached, (safe.pools.allocPage answer).1⟩, nofun⟩
  | unmap v =>
      have outcome := (safe.directory.unmapPage v).of_ok run
      cases outcome with
      | refused => exact ⟨safe, fun _ => rfl⟩
      | unmapped directory same => exact ⟨⟨directory, same ▸ safe.pools⟩, nofun⟩

theorem call (safe : FailSafe layout s) (call : VmmCall) {result : Bool}
    (run : call.run (pmmPaging layout) s = .ok result s') : FailSafe layout s' := by
  cases call with
  | request r => exact (safe.request r run).1
  | pageFault cr2 errCode =>
      obtain ⟨_, s₁, handled, last⟩ := Machine.bind_eq_ok.1 run
      cases last
      have keeps : ∀ a page a', PoolsSkipNull a → pmmPages.allocPage a = .ok page a' →
          PoolsSkipNull a' := fun _ _ _ pools answer => (pools.allocPage answer).1
      obtain ⟨directory, pools⟩ :=
        (safe.directory.pageFault keeps safe.pools cr2 errCode).of_ok handled
      exact ⟨directory, pools⟩

theorem step (safe : FailSafe layout s) (step : KernelStep layout s s') : FailSafe layout s' := by
  cases step with
  | vmm run => exact safe.call _ run
  | alloc run => exact ⟨safe.directory, safe.pools.request run⟩
  | free run => exact ⟨safe.directory, safe.pools.free run⟩

end FailSafe

/-! ## With one of them -/

section Preinit

variable (layout : BootLayout) (memory : Memory) {pmm pmm' : Pmm}

end Preinit

end ArkoiOs
