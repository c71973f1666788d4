import ArkoiOs.Pmm.Requests

/-!
# How the calls of the allocator end

`pmm_add_region` either meets the end of the early heap or manages exactly the
whole pages of its range, except next to the top of the address space.  The
panics that guard the free lists, and the pointers that are followed without a
check, never matter in a reachable state.
-/

namespace ArkoiOs

/-! ## Adding a region -/

/-- The whole 4 KiB pages among the `size` bytes from `start` on. -/
def wholePages (start size : UInt32) : Set ℕ :=
  {page | start.toNat ≤ page * 4096 ∧ (page + 1) * 4096 ≤ start.toNat + size.toNat}

/-- `pmm_add_region` panics because the early heap lacks the room for the metadata, or
leaves the regions as they are when the range holds no whole page, or appends one region
that manages exactly the whole pages of the range, all of them free. -/
def AddsWholePages (start size : UInt32) (pmm : Pmm) : Prop :=
  (¬ pmm.emm.HoldsMetadata (alignedPages start size) ∧
    ∃ bytes pmm', pmmAddRegion start size pmm = .error (.panic
      "Early boot allocator exhausted while allocating %u bytes" [bytes]) pmm') ∨
  ∃ pmm', pmmAddRegion start size pmm = .ok () pmm' ∧
    ((wholePages start size = ∅ ∧ pmm'.regions = pmm.regions) ∨
      ((wholePages start size).Nonempty ∧ ∃ region, pmm'.regions = pmm.regions ++ [region] ∧
        region.frames = wholePages start size ∧ region.ListsWellFormed ∧
        region.Partition Ledger.empty))

/-- The request for a range reaches the early heap, and the heap misplaces the metadata:
it stands at address 0, or a sum of `emm_alloc` wrapped. -/
def MetadataAstray (start size : UInt32) (emm : Emm) : Prop :=
  alignedStart start < alignedEnd start size ∧ emm.MisplacesMetadata (alignedPages start size)

section Range

variable {start size : UInt32}

end Range

namespace FreshRegion

variable {region : PmmRegion} {start size : UInt32}

end FreshRegion

/-- An addition as it should be either returns or panics over the early heap. -/
theorem AddsWholePages.ends {start size : UInt32} {pmm pmm' : Pmm} {fault : Fault}
    (adds : AddsWholePages start size pmm)
    (failed : pmmAddRegion start size pmm = .error fault pmm') :
    ∃ bytes, fault = .panic "Early boot allocator exhausted while allocating %u bytes" [bytes] := by
  rcases adds with ⟨-, bytes, pmm₁, exhausted⟩ | ⟨pmm₁, added, -⟩
  · cases failed.symm.trans exhausted
    exact ⟨bytes, rfl⟩
  · cases failed.symm.trans added

/-- The panics that guard the free lists. -/
def internalFailures : List String :=
  ["No blocks available for order %u or higher",
    "Failed to remove block from free list",
    "Failed to remove buddy block from free list during coalescing"]

/-- A fault that is a panic about the request: no null pointer was followed, no
loop hangs, and the free lists were found in order. -/
def Refusal (fault : Fault) : Prop :=
  ∃ format args, fault = .panic format args ∧ format ∉ internalFailures

/-- `pmm_add_region` fails over its range or over the early heap only: a heap above
address 0 may still misplace the metadata behind its end. -/
theorem pmmAddRegion_refusal {start size : UInt32} {pmm pmm' : Pmm} {fault : Fault}
    (heap : pmm.emm.cursor ≠ 0) (refused : pmmAddRegion start size pmm = .error fault pmm') :
    Refusal fault ∨ (fault = .outOfBounds ∧ MetadataAstray start size pmm.emm) := by
  cases pmmAddRegion_ends start size pmm with
  | overflow _ ends =>
      cases ends.symm.trans refused
      exact Or.inl ⟨_, _, rfl, by decide⟩
  | empty _ _ ends => cases ends.symm.trans refused
  | exhausted _ _ _ _ ends =>
      cases ends.symm.trans refused
      exact Or.inl ⟨_, _, rfl, by decide⟩
  | misplaced _ full astray fault_eq ends =>
      cases ends.symm.trans refused
      rw [if_neg heap] at fault_eq
      exact Or.inr ⟨fault_eq, full, astray⟩
  | added _ _ _ _ ends _ => cases ends.symm.trans refused

theorem AllocRequest.refusals_not_internal :
    ∀ format ∈ AllocRequest.refusals, format ∉ internalFailures := by
  decide

/-- A request fails over what was asked for or over the memory left only. -/
theorem PmmInv.request_refusal {pmm pmm' : Pmm} {ledger : Ledger} {fault : Fault}
    (inv : PmmInv pmm ledger) {request : AllocRequest}
    (refused : request.run pmm = .error fault pmm') : Refusal fault := by
  rcases inv.request_served request with ⟨address, pmm₁, run⟩ | ⟨format, mem, args, run⟩
  · cases run.symm.trans refused
  · cases run.symm.trans refused
    exact ⟨format, args, rfl, AllocRequest.refusals_not_internal format mem⟩

/-! ### The early heap through a run -/

section Heap

variable {pmm : Pmm}

/-- The call leaves the early heap alone. -/
abbrev HeapKept {α : Type} (pmm : Pmm) : EStateM.Result Fault Pmm α → Prop :=
  Machine.Ends (fun _ pmm' => pmm'.emm = pmm.emm) fun _ => True

theorem onRegion_heapKept {α : Type} (index : ℕ) (x : KernelM PmmRegion α) (pmm : Pmm) :
    HeapKept pmm (onRegion index x pmm) := by
  cases there : pmm.regions[index]? with
  | none =>
      have missing : onRegion index x pmm = .error .nullDereference pmm :=
        Machine.zoom_of_missing there
      rw [missing]
      trivial
  | some region =>
      have ends : Machine.Ends _ _ (onRegion index x pmm) :=
        Machine.Ends.zoom there (Machine.Ends.trivially (x region))
      refine ends.mono ?_
      rintro _ _ ⟨region', rfl, -⟩
      rfl

theorem pmmAllocOrder_heapKept (order : ℕ) (pmm : Pmm) :
    HeapKept pmm (pmmAllocOrder order pmm) := by
  unfold pmmAllocOrder
  split
  · trivial
  rw [Machine.bind_of_ok (Machine.get_run pmm)]
  cases findRegionForOrder pmm.regions order with
  | none => trivial
  | some index => exact onRegion_heapKept index _ pmm

theorem pmmAllocSize_heapKept (size : UInt32) (pmm : Pmm) :
    HeapKept pmm (pmmAllocSize size pmm) := by
  unfold pmmAllocSize
  split
  · rfl
  · cases sizeToOrder size with
    | none => trivial
    | some order => exact pmmAllocOrder_heapKept order pmm

theorem pmmAllocPages_heapKept (numPages : UInt32) (pmm : Pmm) :
    HeapKept pmm (pmmAllocPages numPages pmm) := by
  unfold pmmAllocPages
  split
  · rfl
  split
  · trivial
  · exact pmmAllocSize_heapKept _ pmm

theorem pmmFree_heapKept (address : UInt32) (pmm : Pmm) :
    HeapKept pmm (pmmFree address pmm) := by
  unfold pmmFree
  split
  · rfl
  split
  · trivial
  rw [Machine.bind_of_ok (Machine.get_run pmm)]
  cases findRegionByAddress pmm.regions address with
  | none => trivial
  | some index => exact onRegion_heapKept index _ pmm

theorem AllocStep.heapKept {before after : Pmm × Ledger} (step : AllocStep before after) :
    after.1.emm = before.1.emm := by
  cases step with
  | allocOrder run => exact (pmmAllocOrder_heapKept _ _).of_ok run
  | allocSize _ run => exact (pmmAllocSize_heapKept _ _).of_ok run
  | allocPages _ run => exact (pmmAllocPages_heapKept _ _).of_ok run
  | allocNothing run =>
      exact run.elim (pmmAllocSize_heapKept _ _).of_ok (pmmAllocPages_heapKept _ _).of_ok
  | free _ _ run => exact (pmmFree_heapKept _ _).of_ok run
  | freeNull run => exact (pmmFree_heapKept _ _).of_ok run

/-- A heap above address 0 stays there. -/
theorem PmmStep.cursor_ne_zero {before after : Pmm × Ledger} (step : PmmStep before after)
    (heap : before.1.emm.cursor ≠ 0) : after.1.emm.cursor ≠ 0 := by
  cases step with
  | call step => rwa [step.heapKept]
  | @addRegion pmm pmm' ledger start size run _ =>
      cases pmmAddRegion_ends start size pmm with
      | overflow _ ends => cases ends.symm.trans run
      | empty _ _ ends =>
          injection ends.symm.trans run with _ same
          rwa [← same]
      | exhausted _ _ _ _ ends => cases ends.symm.trans run
      | misplaced _ _ _ _ ends => cases ends.symm.trans run
      | added _ _ nonnull room ends _ =>
          injection ends.symm.trans run with _ same
          have behind := Emm.cursor_ne_zero nonnull room.fits
          have pool := (Emm.holdsMetadata_iff room.fits _).1 room
          rw [← same]
          exact @Emm.cursor_ne_zero ⟨pmm.emm.cursor + sizeofPmmRegion, pmm.emm.end_⟩ _ behind pool

end Heap

/-- In a run over an early heap above address 0, every live allocation can be freed, and
neither adding a region nor a request ends in a panic that guards the free lists, follows
a null pointer or hangs.  Adding a region may fault before it looks up a block, when its
metadata is misplaced behind the heap; the look-ups themselves all succeed. -/
theorem internalFailures_dead {emm : Emm} {pmm : Pmm} {ledger : Ledger} (heap : emm.cursor ≠ 0)
    (run : Relation.ReflTransGen PmmStep (Pmm.boot emm, Ledger.empty) (pmm, ledger)) :
    (∀ address ∈ ledger.live, ∃ pmm', pmmFree address pmm = .ok () pmm') ∧
      (∀ start size fault pmm', pmmAddRegion start size pmm = .error fault pmm' →
        Refusal fault ∨ (fault = .outOfBounds ∧ MetadataAstray start size pmm.emm)) ∧
      (∀ start size, alignedStart start < alignedEnd start size →
        ∃ region, buildFreeLists ((alignedPages start size).toNat + 1) 0
          (PmmRegion.initial (alignedStart start) (alignedEnd start size)
            (alignedPages start size).toNat) = .ok () region) ∧
      (∀ (request : AllocRequest) fault pmm', request.run pmm = .error fault pmm' →
        Refusal fault) := by
  have reach : Reachable pmm ledger := ⟨emm, run⟩
  have nonnull : pmm.emm.cursor ≠ 0 :=
    run.invariant_of_step (P := fun s => s.1.emm.cursor ≠ 0) heap fun _ _ kept step =>
      step.cursor_ne_zero kept
  refine ⟨fun address live => ?_, fun start size fault pmm' => pmmAddRegion_refusal nonnull,
    fun start size full => ?_, fun request fault pmm' => reach.inv.request_refusal⟩
  · rcases eq_or_ne address 0 with rfl | nonzero
    · exact ⟨pmm, rfl⟩
    · obtain ⟨pmm', freed, -⟩ := reach.inv.freed live nonzero
      exact ⟨pmm', freed⟩
  · obtain ⟨region, built, -⟩ := buildFreeLists_fresh full
    exact ⟨region, built⟩

/-- With both pages allocated, the lower one can be freed. -/
theorem bothAllocated_internalFailures_dead : ∃ pmm', pmmFree 0x1000 bothAllocated = .ok () pmm' :=
  (internalFailures_dead (by decide) bothAllocated_run).1 0x1000 (Or.inr (Or.inl rfl))

end ArkoiOs
