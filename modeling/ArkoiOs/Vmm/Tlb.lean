import Mathlib.Data.List.Induction
import ArkoiOs.Vmm.Mmu

/-!
# Translations that the processor keeps

The memory manager next to the translations that the processor has kept since it
walked the tables.  `flush_tlb_entry` drops one of them; `vmm_map_page` and
`vmm_unmap_page` call it right before they return true.  In between the processor may
walk and keep, or drop, the translation of any page.
-/

namespace ArkoiOs

/-! ## The model -/

/-- The directory entry and the table entry of a page. -/
abbrev Translation : Type := PageEntry × PageEntry

/-- The translation of an address by the tables. -/
def translate (layout : BootLayout) (memory : Memory) (virtualAddress : UInt32) :
    Option Translation :=
  (walk layout memory virtualAddress).map fun entry => (pdeAt layout memory virtualAddress, entry)

/-- The memory manager, and the translations that are kept, by page. -/
structure CachedVmm where
  vmm : Vmm (List UInt32)
  tlb : ℕ → Option Translation

/-- `flush_tlb_entry`. -/
def flushTlbEntry (virtualAddress : UInt32) : KernelM CachedVmm Unit :=
  modify fun s => { s with tlb := Function.update s.tlb (virtualAddress.toNat / 4096) none }

/-- The processor keeps the translation of an address, if there is one. -/
def CachedVmm.keep (layout : BootLayout) (virtualAddress : UInt32) (s : CachedVmm) : CachedVmm :=
  match translate layout s.vmm.memory virtualAddress with
  | some translation =>
      { s with tlb := Function.update s.tlb (virtualAddress.toNat / 4096) (some translation) }
  | none => s

/-- Run code of the memory manager. -/
def onVmm {α : Type} (x : KernelM (Vmm (List UInt32)) α) : KernelM CachedVmm α :=
  Machine.zoom (fun s => some s.vmm) (fun s vmm => { s with vmm := vmm }) .nullDereference x

section Model

variable (paging : Paging (List UInt32))

/-- The call with its flush.  The fault handler maps the page of the fault, and zeroes it
behind the flush. -/
def VmmCall.runFlushing : VmmCall → KernelM CachedVmm Bool
  | request r => do
      let result ← onVmm (r.run paging)
      if result then flushTlbEntry r.address
      pure result
  | pageFault cr2 errCode => do
      let result ← onVmm ((pageFault cr2 errCode).run paging)
      flushTlbEntry (kalignDown cr2 pageSize)
      pure result

/-- What happens to the translations that are kept. -/
inductive TlbEvent
  | call (c : VmmCall)
  | keep (virtualAddress : UInt32)
  | drop (virtualAddress : UInt32)
  deriving DecidableEq, Repr

/-- Let it happen. -/
def TlbEvent.run : TlbEvent → KernelM CachedVmm Unit
  | call c => do
      let _ ← c.runFlushing paging
      pure ()
  | keep virtualAddress => modify (CachedVmm.keep paging.layout virtualAddress)
  | drop virtualAddress => flushTlbEntry virtualAddress

/-- Let events happen in their order. -/
def runTlbEvents (events : List TlbEvent) : KernelM CachedVmm Unit :=
  events.forM (TlbEvent.run paging)

end Model

/-- The state when `vmm_preinit` has turned paging on. -/
def CachedVmm.preinit (layout : BootLayout) (memory : Memory) (answers : List UInt32) :
    CachedVmm := ⟨Vmm.preinit layout memory answers, fun _ => none⟩

namespace CachedVmm

variable (layout : BootLayout) (s : CachedVmm)

/-- The translation that an access uses. -/
def used (virtualAddress : UInt32) : Option Translation :=
  match s.tlb (virtualAddress.toNat / 4096) with
  | some translation => some translation
  | none => translate layout s.vmm.memory virtualAddress

/-- Every access is translated as by the tables. -/
def Current : Prop := ∀ v, s.used layout v = translate layout s.vmm.memory v

/-- The event takes away a page whose twin in the other window is kept. -/
def LeavesStale : TlbEvent → Prop
  | .call (.request (.unmap v)) =>
      v.toNat % 4096 = 0 ∧ walk layout s.vmm.memory v ≠ none ∧
        ∃ u, Twins u v ∧ ¬ SamePage u v ∧ s.tlb (u.toNat / 4096) ≠ none
  | _ => False

end CachedVmm

/-! ## Steps -/

section Steps

variable {layout : BootLayout} {s s' : CachedVmm} {u v : UInt32} {translation : Translation}

/-- What is kept is what the tables say. -/
theorem CachedVmm.current_iff : s.Current layout ↔ ∀ v translation,
    s.tlb (v.toNat / 4096) = some translation →
      translate layout s.vmm.memory v = some translation := by
  unfold Current used
  constructor
  · intro current v translation kept
    have same := current v
    rw [kept] at same
    exact same.symm
  · intro kept v
    cases entry : s.tlb (v.toNat / 4096) with
    | none => rfl
    | some translation => exact (kept v translation entry).symm

theorem walk_of_translate (h : translate layout s.vmm.memory v = some translation) :
    walk layout s.vmm.memory v = some translation.2 ∧
      pdeAt layout s.vmm.memory v = translation.1 ∧
      (pdeAt layout s.vmm.memory v).present = true := by
  obtain ⟨entry, walked, rfl⟩ := Option.map_eq_some_iff.1 h
  exact ⟨walked, rfl, ((walk_eq_some_iff ..).1 walked).1⟩

theorem onVmm_eq_ok {α : Type} {x : KernelM (Vmm (List UInt32)) α} {a : α}
    (run : onVmm x s = .ok a s') : ∃ vmm, x s.vmm = .ok a vmm ∧ s' = { s with vmm := vmm } := by
  cases here : x s.vmm with
  | ok b vmm =>
      have ran : onVmm x s = .ok b { s with vmm := vmm } := Machine.zoom_of_ok rfl here
      rw [ran] at run
      cases run
      exact ⟨vmm, rfl, rfl⟩
  | error fault vmm =>
      have ran : onVmm x s = .error fault { s with vmm := vmm } := Machine.zoom_of_error rfl here
      rw [ran] at run
      cases run

/-- The tables may change where nothing is kept. -/
theorem CachedVmm.Current.change (current : s.Current layout) {vmm : Vmm (List UInt32)}
    {tlb : ℕ → Option Translation}
    (left : ∀ v translation, tlb (v.toNat / 4096) = some translation →
      s.tlb (v.toNat / 4096) = some translation ∧
        walk layout vmm.memory v = walk layout s.vmm.memory v ∧
        ((pdeAt layout s.vmm.memory v).present = true →
          pdeAt layout vmm.memory v = pdeAt layout s.vmm.memory v)) :
    CachedVmm.Current layout ⟨vmm, tlb⟩ := by
  rw [CachedVmm.current_iff] at current ⊢
  intro v translation kept
  obtain ⟨before, walked, directory⟩ := left v translation kept
  have translated := current v translation before
  have present := (walk_of_translate translated).2.2
  rw [← translated]
  unfold translate
  simp only
  rw [walked, directory present]

/-- Dropping translations. -/
theorem flushed_kept {page : ℕ}
    (kept : Function.update s.tlb page none (v.toNat / 4096) = some translation) :
    v.toNat / 4096 ≠ page ∧ s.tlb (v.toNat / 4096) = some translation := by
  rw [Function.update_apply] at kept
  by_cases same : v.toNat / 4096 = page
  · rw [if_pos same] at kept
    cases kept
  · rw [if_neg same] at kept
    exact ⟨same, kept⟩

theorem CachedVmm.Current.flush (current : s.Current layout) (page : ℕ) :
    CachedVmm.Current layout { s with tlb := Function.update s.tlb page none } :=
  current.change fun _ _ kept => ⟨(flushed_kept kept).2, rfl, fun _ => rfl⟩

/-- Keeping what the tables say. -/
theorem CachedVmm.Current.keep (current : s.Current layout) (v : UInt32) :
    (s.keep layout v).Current layout := by
  unfold CachedVmm.keep
  cases translated : translate layout s.vmm.memory v with
  | none => exact current
  | some translation =>
      rw [CachedVmm.current_iff] at current ⊢
      intro u kept entry
      simp only [Function.update_apply] at entry ⊢
      by_cases same : u.toNat / 4096 = v.toNat / 4096
      · rw [if_pos same] at entry
        cases entry
        have page : SamePage u v := same
        have directory : pdeAt layout s.vmm.memory u = pdeAt layout s.vmm.memory v := by
          unfold pdeAt
          rw [((samePage_iff u v).1 page).1]
        unfold translate at translated ⊢
        rw [walk_samePage page, directory]
        exact translated
      · rw [if_neg same] at entry
        exact current u kept entry

theorem keep_vmm (layout : BootLayout) (v : UInt32) (s : CachedVmm) :
    (s.keep layout v).vmm = s.vmm := by
  unfold CachedVmm.keep
  split
  · rfl
  · rfl

/-- A refused call. -/
theorem CachedVmm.Current.refused (current : s.Current layout) {vmm : Vmm (List UInt32)}
    (effect : RefusedEffect layout s.vmm.memory vmm.memory) :
    CachedVmm.Current layout { s with vmm := vmm } :=
  current.change fun v _ kept => ⟨kept, effect.walk v, effect.kept v⟩

/-- A page that was mapped was translated by nothing before. -/
theorem CachedVmm.Current.mapped (current : s.Current layout) (inv : VmmInv layout s.vmm)
    {vmm : Vmm (List UInt32)} {p flags : UInt32}
    (effect : MapEffect layout s.vmm.memory vmm.memory v p flags) :
    CachedVmm.Current layout { s with vmm := vmm } := by
  refine current.change fun u translation kept => ⟨kept, ?_, effect.kept u⟩
  have walked := (walk_of_translate (CachedVmm.current_iff.1 current u translation kept)).1
  have apart : ¬ (SamePage u v ∨ Twins u v) := by
    intro related
    rw [inv.tables.walk_related related, effect.unmapped] at walked
    cases walked
  rw [effect.walk u, if_neg apart]

/-- A page that was unmapped is flushed, and its twins must not be kept. -/
theorem CachedVmm.Current.unmapped (current : s.Current layout) {vmm : Vmm (List UInt32)}
    (effect : UnmapEffect layout s.vmm.memory vmm.memory v)
    (twins : ∀ u, Twins u v → ¬ SamePage u v → s.tlb (u.toNat / 4096) = none) :
    CachedVmm.Current layout ⟨vmm, Function.update s.tlb (v.toNat / 4096) none⟩ := by
  refine current.change fun u translation kept => ?_
  obtain ⟨other, before⟩ := flushed_kept kept
  refine ⟨before, ?_, fun _ => effect.directory u⟩
  have apart : ¬ (SamePage u v ∨ Twins u v) := by
    rintro (same | twin)
    · exact other same
    · rw [twins u twin other] at before
      cases before
  rw [effect.walk u, if_neg apart]

/-- A request that returned, and its flush. -/
theorem request_eq_ok {paging : Paging (List UInt32)} {r : MapRequest}
    (run : TlbEvent.run paging (.call (.request r)) s = .ok () s') :
    ∃ result vmm, r.run paging s.vmm = .ok result vmm ∧ s' = ⟨vmm,
      if result then Function.update s.tlb (r.address.toNat / 4096) none else s.tlb⟩ := by
  obtain ⟨answer, s₁, called, rest⟩ := Machine.bind_eq_ok.1 run
  cases rest
  obtain ⟨result, s₂, ran, flushed⟩ := Machine.bind_eq_ok.1 called
  obtain ⟨vmm, ok, rfl⟩ := onVmm_eq_ok ran
  refine ⟨result, vmm, ok, ?_⟩
  cases result with
  | true =>
      cases flushed
      rfl
  | false =>
      cases flushed
      rfl

/-- A page fault that was served, and its flush. -/
theorem pageFault_eq_ok {paging : Paging (List UInt32)} {cr2 errCode : UInt32}
    (run : TlbEvent.run paging (.call (.pageFault cr2 errCode)) s = .ok () s') :
    ∃ vmm, vmmPageFaultHandler paging cr2 errCode s.vmm = .ok () vmm ∧ s' = ⟨vmm,
      Function.update s.tlb ((kalignDown cr2 pageSize).toNat / 4096) none⟩ := by
  obtain ⟨answer, s₁, called, rest⟩ := Machine.bind_eq_ok.1 run
  cases rest
  obtain ⟨result, s₂, ran, flushed⟩ := Machine.bind_eq_ok.1 called
  cases flushed
  obtain ⟨vmm, ok, rfl⟩ := onVmm_eq_ok ran
  obtain ⟨_, vmm', served, returned⟩ := Machine.bind_eq_ok.1 ok
  cases returned
  exact ⟨vmm, served, rfl⟩

/-- An unmapped page leaves what is kept current exactly if no twin of it is kept. -/
theorem CachedVmm.Current.unmapped_iff (current : s.Current layout)
    {vmm : Vmm (List UInt32)} (aligned : v.toNat % 4096 = 0)
    (effect : UnmapEffect layout s.vmm.memory vmm.memory v) :
    CachedVmm.Current layout ⟨vmm, Function.update s.tlb (v.toNat / 4096) none⟩ ↔
      ¬ s.LeavesStale layout (.call (.request (.unmap v))) := by
  constructor
  · rintro after ⟨-, -, u, twins, other, kept⟩
    obtain ⟨translation, entry⟩ := Option.ne_none_iff_exists'.1 kept
    have still : Function.update s.tlb (v.toNat / 4096) none (u.toNat / 4096) =
        some translation := by
      rw [Function.update_of_ne other]
      exact entry
    have walked := (walk_of_translate (s := ⟨vmm, s.tlb⟩)
      (CachedVmm.current_iff.1 after u translation still)).1
    rw [effect.walk u, if_pos (Or.inr twins)] at walked
    cases walked
  · intro fresh
    refine current.unmapped effect fun u twins other => ?_
    by_contra kept
    exact fresh ⟨aligned, effect.mapped, u, twins, other, kept⟩

/-- An event with fewer accesses does the same, unless it faults. -/
theorem Narrows.tlbEvent {access access' : Memory → UInt32 → Option ℕ}
    (narrow : Narrows access access') (event : TlbEvent) :
    Machine.StopsOr IsPageFault (event.run ⟨layout, access, scripted⟩)
      (event.run ⟨layout, access', scripted⟩) := by
  cases event with
  | call c =>
      refine Machine.StopsOr.bind ?_ fun _ => .same _
      cases c with
      | request r =>
          exact (Machine.StopsOr.zoom (narrow.request scripted r)).bind fun _ => .same _
      | pageFault cr2 errCode =>
          exact (Machine.StopsOr.zoom (narrow.call scripted (.pageFault cr2 errCode))).bind
            fun _ => .same _
  | keep v => exact .same _
  | drop v => exact .same _

/-- An event keeps what is kept current exactly if it leaves nothing stale. -/
theorem TlbEvent.step (inv : VmmInv layout s.vmm) {event : TlbEvent}
    (run : event.run (exactPaging layout) s = .ok () s') :
    VmmInv layout s'.vmm ∧
      (s.Current layout → (s'.Current layout ↔ ¬ s.LeavesStale layout event)) := by
  have reach := directAccess_reaching
  replace run := ((exactAccess_narrows_direct layout).tlbEvent event).of_ok run
  cases event with
  | call c =>
      cases c with
      | request r =>
          obtain ⟨result, vmm, ran, rfl⟩ := request_eq_ok run
          cases r with
          | map v p flags =>
              obtain ⟨inv', ⟨rfl, effect⟩ | ⟨rfl, -, effect⟩⟩ := inv.map reach ran
              · exact ⟨inv', fun current => iff_of_true (current.refused effect) id⟩
              · exact ⟨inv', fun current => iff_of_true ((current.mapped inv effect).flush _) id⟩
          | unmap v =>
              obtain ⟨result', vmm', ran', inv', -, effect⟩ := inv.unmap reach v
              rw [MapRequest.run, ran'] at ran
              cases ran
              rcases effect with ⟨rfl, rfl, unmapped⟩ | ⟨rfl, aligned, effect⟩
              · refine ⟨inv, fun current => iff_of_true current fun stale => ?_⟩
                exact stale.2.1 (unmapped stale.1)
              · exact ⟨inv', fun current => current.unmapped_iff aligned effect⟩
      | pageFault cr2 errCode =>
          obtain ⟨vmm, served, rfl⟩ := pageFault_eq_ok run
          obtain ⟨inv', page, -, effect⟩ := inv.pageFault reach served
          exact ⟨inv', fun current => iff_of_true ((current.mapped inv effect).flush _) id⟩
  | keep v =>
      cases run
      refine ⟨?_, fun current => iff_of_true (current.keep v) id⟩
      rw [keep_vmm]
      exact inv
  | drop v =>
      cases run
      exact ⟨inv, fun current => iff_of_true (current.flush _) id⟩

end Steps

/-! ## Runs -/

section Runs

variable {layout : BootLayout} {s s' : CachedVmm} {events : List TlbEvent}

theorem current_preinit (layout : BootLayout) (memory : Memory) (answers : List UInt32) :
    (CachedVmm.preinit layout memory answers).Current layout := fun _ => rfl

/-- Events that returned, up to the last one. -/
theorem runTlbEvents_concat {paging : Paging (List UInt32)} {event : TlbEvent} :
    runTlbEvents paging (events ++ [event]) s = .ok () s' ↔
      ∃ t, runTlbEvents paging events s = .ok () t ∧ event.run paging t = .ok () s' := by
  have split : runTlbEvents paging (events ++ [event]) =
      (do
        runTlbEvents paging events
        runTlbEvents paging [event]) := List.forM_append
  rw [split, Machine.bind_eq_ok]
  constructor
  · rintro ⟨_, t, front, last⟩
    obtain ⟨_, t', ran, rest⟩ := Machine.bind_eq_ok.1 last
    cases rest
    exact ⟨t, front, ran⟩
  · rintro ⟨t, front, ran⟩
    exact ⟨(), t, front, (Machine.bind_of_ok ran).trans rfl⟩

/-- Events that returned did so up to each of them. -/
theorem runTlbEvents_prefix {paging : Paging (List UInt32)} {front : List TlbEvent}
    (initial : front <+: events) (run : runTlbEvents paging events s = .ok () s') :
    ∃ t, runTlbEvents paging front s = .ok () t := by
  obtain ⟨rest, rfl⟩ := initial
  have split : runTlbEvents paging (front ++ rest) =
      (do
        runTlbEvents paging front
        runTlbEvents paging rest) := List.forM_append
  rw [split] at run
  obtain ⟨_, t, ran, -⟩ := Machine.bind_eq_ok.1 run
  exact ⟨t, ran⟩

theorem Narrows.tlbEvents {access access' : Memory → UInt32 → Option ℕ}
    (narrow : Narrows access access') (events : List TlbEvent) :
    Machine.StopsOr IsPageFault (runTlbEvents ⟨layout, access, scripted⟩ events)
      (runTlbEvents ⟨layout, access', scripted⟩ events) := by
  induction events with
  | nil => exact .same _
  | cons event events ih => exact (narrow.tlbEvent event).bind fun _ => ih

theorem vmmInv_of_events (memory : Memory) {answers : List UInt32}
    (usable : UsableAnswers layout answers)
    (run : runTlbEvents (exactPaging layout) events (.preinit layout memory answers) =
      .ok () s) : VmmInv layout s.vmm := by
  induction events using List.reverseRecOn generalizing s with
  | nil =>
      cases run
      exact .preinit usable memory
  | append_singleton events event ih =>
      obtain ⟨t, front, last⟩ := runTlbEvents_concat.1 run
      exact (TlbEvent.step (ih front) last).1

/-- No event leaves anything stale. -/
def NothingStale (paging : Paging (List UInt32)) (start : CachedVmm) (events : List TlbEvent) :
    Prop :=
  ∀ front event, front ++ [event] <+: events → ∀ t, runTlbEvents paging front start = .ok () t →
    ¬ t.LeavesStale paging.layout event

/-- While nothing is left stale, what is kept is current. -/
theorem current_of_nothingStale (memory : Memory) {answers : List UInt32}
    (usable : UsableAnswers layout answers)
    (fresh : NothingStale (exactPaging layout) (.preinit layout memory answers) events)
    (run : runTlbEvents (exactPaging layout) events (.preinit layout memory answers) =
      .ok () s) : s.Current layout := by
  induction events using List.reverseRecOn generalizing s with
  | nil =>
      cases run
      exact current_preinit layout memory answers
  | append_singleton events event ih =>
      obtain ⟨t, front, last⟩ := runTlbEvents_concat.1 run
      have before := ih (fun front' event' here =>
        fresh front' event' (here.trans (List.prefix_append _ _))) front
      have inv := vmmInv_of_events memory usable front
      exact ((TlbEvent.step inv last).2 before).2
        (fresh events event (List.prefix_refl _) t front)

/-- Along every run of calls of the machine from `vmm_preinit` whose accesses to tables hit,
with translations kept and dropped at any time, each access is translated as by the tables
exactly if no call unmaps a page of one boot window while the page at the same place of the
other one is kept. -/
theorem accesses_current_iff (memory : Memory) {answers : List UInt32}
    (usable : UsableAnswers layout answers)
    (run : runTlbEvents (exactPaging layout) events (.preinit layout memory answers) = .ok () s) :
    runTlbEvents (mmuPaging layout) events (.preinit layout memory answers) = .ok () s ∧
      ((∀ front, front <+: events → ∀ t, runTlbEvents (exactPaging layout) front
          (.preinit layout memory answers) = .ok () t → t.Current layout) ↔
        NothingStale (exactPaging layout) (.preinit layout memory answers) events) := by
  refine ⟨((exactAccess_narrows_mmu layout).tlbEvents events).of_ok run, ?_, ?_⟩
  · intro current front event initial t here
    obtain ⟨t', whole⟩ := runTlbEvents_prefix initial run
    obtain ⟨t₀, before, last⟩ := runTlbEvents_concat.1 whole
    rw [here] at before
    cases before
    have inv := vmmInv_of_events memory usable here
    have earlier := current front ((List.prefix_append _ _).trans initial) t here
    exact ((TlbEvent.step inv last).2 earlier).1 (current _ initial t' whole)
  · intro fresh front initial t here
    exact current_of_nothingStale memory usable
      (fun front' event' inside => fresh front' event' (inside.trans initial)) here

/-- The translation of a kernel page is kept, and the page at the same place of the low window
is unmapped. -/
theorem keptTwin_current_iff : ∃ s,
    runTlbEvents (mmuPaging sampleLayout) [.keep 0xC0001000, .call (.request (.unmap 0x1000))]
        (.preinit sampleLayout zeroMemory [0x200000, 0x201000]) = .ok () s ∧
      ((∀ front, front <+: [.keep 0xC0001000, .call (.request (.unmap 0x1000))] → ∀ t,
          runTlbEvents (exactPaging sampleLayout) front
            (.preinit sampleLayout zeroMemory [0x200000, 0x201000]) = .ok () t →
          t.Current sampleLayout) ↔
        NothingStale (exactPaging sampleLayout)
          (.preinit sampleLayout zeroMemory [0x200000, 0x201000])
          [.keep 0xC0001000, .call (.request (.unmap 0x1000))]) := by
  have ran : Machine.value? (runTlbEvents (exactPaging sampleLayout)
      [.keep 0xC0001000, .call (.request (.unmap 0x1000))]
      (.preinit sampleLayout zeroMemory [0x200000, 0x201000])) = some () := by
    decide +kernel
  exact ⟨_, accesses_current_iff zeroMemory sampleAnswers_usable (Machine.eq_ok_of_value ran)⟩

end Runs

end ArkoiOs
