import Mathlib.Logic.Relation
import ArkoiOs.Vmm.Calls

/-!
# Runs of the memory manager

A run is a sequence of mapping requests and page faults.  The physical allocator
is played by the list of pages it is going to answer with: `scripted` hands them
out in order and panics when there are none left, as `pmm_alloc_pages` does.
`VmmInv` is kept by every call that returns.
-/

namespace ArkoiOs

/-! ## Calls -/

/-- A request to map or to unmap a page. -/
inductive MapRequest
  | map (virtualAddress physicalAddress flags : UInt32)
  | unmap (virtualAddress : UInt32)
  deriving DecidableEq, Repr

/-- A request, or a page fault with `cr2` and its error code. -/
inductive VmmCall
  | request (r : MapRequest)
  | pageFault (cr2 errCode : UInt32)
  deriving DecidableEq, Repr

/-- The virtual address a request is about. -/
def MapRequest.address : MapRequest → UInt32
  | .map virtualAddress _ _ => virtualAddress
  | .unmap virtualAddress => virtualAddress

/-- The virtual address a call is about. -/
def VmmCall.address : VmmCall → UInt32
  | .request r => r.address
  | .pageFault cr2 _ => cr2

section Run

variable {σ : Type} (paging : Paging σ)

/-- Make the request; the result is what the function returns. -/
def MapRequest.run : MapRequest → KernelM (Vmm σ) Bool
  | .map virtualAddress physicalAddress flags =>
      vmmMapPage paging virtualAddress physicalAddress flags
  | .unmap virtualAddress => vmmUnmapPage paging virtualAddress

/-- Make the call; the fault handler returns nothing. -/
def VmmCall.run : VmmCall → KernelM (Vmm σ) Bool
  | .request r => r.run paging
  | .pageFault cr2 errCode => do
      vmmPageFaultHandler paging cr2 errCode
      pure true

/-- One call that returns, about an allowed address. -/
def VmmStep (allowed : UInt32 → Prop) (s s' : Vmm σ) : Prop :=
  ∃ call : VmmCall, allowed call.address ∧ ∃ result, call.run paging s = .ok result s'

/-- Runs of such calls. -/
abbrev VmmRun (allowed : UInt32 → Prop) : Vmm σ → Vmm σ → Prop :=
  Relation.ReflTransGen (VmmStep paging allowed)

end Run

/-! ## The scripted allocator -/

/-- An allocator that answers with the pages of a list. -/
def scripted : PageAllocator (List UInt32) where
  allocPage := do
    match ← get with
    | [] => kpanic "No free blocks available for order %u" [0]
    | page :: rest => do
        set rest
        pure page
  free _ := pure ()

theorem scripted_cons (page : UInt32) (rest : List UInt32) :
    scripted.allocPage (page :: rest) = .ok page rest := rfl

theorem scripted_nil : scripted.allocPage [] =
    .error (.panic "No free blocks available for order %u" [0]) [] := rfl

/-- The pages an allocator may answer with: each once, page-aligned, none of the
two static tables. -/
structure UsableAnswers (layout : BootLayout) (answers : List UInt32) : Prop where
  nodup : answers.Nodup
  usable : ∀ page ∈ answers, page.toNat % 4096 = 0 ∧
    frameOf page ≠ layout.directory ∧ frameOf page ≠ layout.identity

/-- The next answer is not null. -/
def NextUsable (answers : List UInt32) : Prop := ∃ page ∈ answers.head?, page ≠ 0

/-- At least `n` answers, and no null answer. -/
structure Supplies (n : ℕ) (answers : List UInt32) : Prop where
  enough : n ≤ answers.length
  nonzero : ∀ page ∈ answers, page ≠ 0

theorem Supplies.nextUsable {n : ℕ} {answers : List UInt32} (h : Supplies (n + 1) answers) :
    NextUsable answers := by
  cases answers with
  | nil => cases h.enough
  | cons page rest => exact ⟨page, rfl, h.nonzero page List.mem_cons_self⟩

theorem Supplies.pred {n : ℕ} {answers : List UInt32} (h : Supplies (n + 1) answers) :
    Supplies n answers := ⟨(Nat.le_succ n).trans h.enough, h.nonzero⟩

theorem Supplies.tail {n : ℕ} {page : UInt32} {rest : List UInt32}
    (h : Supplies (n + 1) (page :: rest)) : Supplies n rest :=
  ⟨Nat.le_of_succ_le_succ h.enough, fun page' mem => h.nonzero page' (List.mem_cons_of_mem _ mem)⟩

/-- The frames of the answers. -/
def answerFrames (answers : List UInt32) : Set ℕ := {frame | ∃ page ∈ answers, frameOf page = frame}

namespace UsableAnswers

variable {layout : BootLayout} {page : UInt32} {answers rest : List UInt32}

theorem tail (h : UsableAnswers layout (page :: rest)) : UsableAnswers layout rest :=
  ⟨(List.nodup_cons.1 h.nodup).2, fun page' mem => h.usable page' (List.mem_cons_of_mem _ mem)⟩

theorem static (h : UsableAnswers layout answers) :
    layout.directory ∉ answerFrames answers ∧ layout.identity ∉ answerFrames answers := by
  refine ⟨fun ⟨page, mem, same⟩ => ?_, fun ⟨page, mem, same⟩ => ?_⟩
  · exact (h.usable page mem).2.1 same
  · exact (h.usable page mem).2.2 same

/-- The first answer's frame is not the frame of a later answer. -/
theorem head_fresh (h : UsableAnswers layout (page :: rest)) :
    frameOf page ∉ answerFrames rest := by
  intro ⟨page', mem, same⟩
  have aligned := (h.usable page List.mem_cons_self).1
  have aligned' := (h.usable page' (List.mem_cons_of_mem _ mem)).1
  rw [← frameAddress_frameOf aligned', same, frameAddress_frameOf aligned] at mem
  exact (List.nodup_cons.1 h.nodup).1 mem

/-- The next answer, for any set of reserved frames that holds it. -/
theorem answer (h : UsableAnswers layout (page :: rest)) {reserved : Set ℕ}
    (nonzero : page ≠ 0) (mem : frameOf page ∈ reserved) :
    Answers scripted reserved (page :: rest) page rest :=
  ⟨scripted_cons page rest, nonzero, (h.usable page List.mem_cons_self).1, mem⟩

end UsableAnswers

/-- The frames left when the scripted allocator was used. -/
theorem Consumed.scripted {layout : BootLayout} {before after : List UInt32}
    {reserved reserved' : Set ℕ} (consumed : Consumed scripted before reserved after reserved')
    (usable : UsableAnswers layout before) :
    (after = before ∧ reserved' = reserved) ∨
      ∃ page, before = page :: after ∧ reserved' = reserved \ {frameOf page} := by
  cases consumed with
  | nothing => exact Or.inl ⟨rfl, rfl⟩
  | @table page after answer =>
      refine Or.inr ⟨page, ?_, rfl⟩
      have run := answer.run
      cases before with
      | nil => cases run
      | cons first rest =>
          cases run
          rfl

/-! ## The invariant -/

/-- The tables are sound, and no answer still to come is used by a table. -/
structure VmmInv (layout : BootLayout) (s : Vmm (List UInt32)) : Prop where
  tables : TablesSound layout s.memory (answerFrames s.allocator)
  answers : UsableAnswers layout s.allocator

/-- The state after `vmm_preinit`. -/
def Vmm.preinit (layout : BootLayout) (memory : Memory) (answers : List UInt32) :
    Vmm (List UInt32) := ⟨vmmPreinit layout memory, answers⟩

theorem VmmInv.preinit {layout : BootLayout} {answers : List UInt32}
    (usable : UsableAnswers layout answers) (memory : Memory) :
    VmmInv layout (Vmm.preinit layout memory answers) :=
  ⟨vmmPreinit_tablesSound layout memory usable.static, usable⟩

/-- The page an aligned address to be mapped and the frame it is mapped to. -/
def Aligned (v p : UInt32) : Prop := v.toNat % 4096 = 0 ∧ p.toNat % 4096 = 0

instance (v p : UInt32) : Decidable (Aligned v p) := by
  unfold Aligned; infer_instance

namespace VmmInv

variable {layout : BootLayout} {access : Memory → UInt32 → Option ℕ} {s s' : Vmm (List UInt32)}
  {v p flags cr2 errCode : UInt32} {result : Bool}

/-- The next answer as a table for a page without one. -/
theorem answer_of_next (usable : UsableAnswers layout s.allocator) {reserved : Set ℕ}
    (sub : answerFrames s.allocator ⊆ reserved) (next : NextUsable s.allocator) :
    ∃ page after, Answers scripted reserved s.allocator page after := by
  rcases next with ⟨page, head, nonzero⟩
  obtain ⟨rest, eq⟩ := List.head?_eq_some_iff.1 head
  rw [eq] at usable sub ⊢
  exact ⟨page, rest, usable.answer nonzero (sub ⟨page, List.mem_cons_self, rfl⟩)⟩

/-- What is left of the answers is usable, and in no table; neither are the
frames of `apart`, of which the first answer is none. -/
theorem of_consumed {memory : Memory} {before after : List UInt32} {apart reserved' : Set ℕ}
    (usable : UsableAnswers layout before) (fresh : ∀ page ∈ before.head?, frameOf page ∉ apart)
    (tables : TablesSound layout memory reserved')
    (consumed : Consumed scripted before (answerFrames before ∪ apart) after reserved') :
    TablesSound layout memory (answerFrames after ∪ apart) ∧ UsableAnswers layout after ∧
      ∀ n, Supplies (n + 1) before → Supplies n after := by
  rcases consumed.scripted usable with ⟨rfl, rfl⟩ | ⟨page, rfl, rfl⟩
  · exact ⟨tables, usable, fun _ supply => supply.pred⟩
  · refine ⟨tables.mono ?_, usable.tail, fun _ supply => supply.tail⟩
    rintro frame (⟨page', mem, same⟩ | mem)
    · refine ⟨Or.inl ⟨page', List.mem_cons_of_mem _ mem, same⟩, fun eq => usable.head_fresh ?_⟩
      exact ⟨page', mem, same.trans eq⟩
    · exact ⟨Or.inr mem, fun eq => fresh page rfl (eq ▸ mem)⟩

/-- The invariant after an answer that became no table. -/
theorem dropAnswer (inv : VmmInv layout s) :
    VmmInv layout { s with allocator := s.allocator.tail } := by
  rcases s with ⟨memory, answers⟩
  cases answers with
  | nil => exact inv
  | cons page rest =>
      refine ⟨inv.tables.mono ?_, inv.answers.tail⟩
      intro frame ⟨page', mem, same⟩
      exact ⟨page', List.mem_cons_of_mem _ mem, same⟩

/-- Mapping a page that is aligned and not mapped, with a page for a table. -/
theorem map_of_unmapped (flags : UInt32) {apart : Set ℕ}
    (tables : TablesSound layout s.memory (answerFrames s.allocator ∪ apart))
    (usable : UsableAnswers layout s.allocator)
    (fresh : (pdeAt layout s.memory v).present = false →
      ∀ page ∈ s.allocator.head?, frameOf page ∉ apart) (reach : Reaching access)
    (aligned : Aligned v p) (unmapped : walk layout s.memory v = none)
    (next : (pdeAt layout s.memory v).present = false → NextUsable s.allocator) :
    ∃ result s', vmmMapPage ⟨layout, access, scripted⟩ v p flags s = .ok result s' ∧
      TablesSound layout s'.memory (answerFrames s'.allocator ∪ apart) ∧
      UsableAnswers layout s'.allocator ∧
      (∀ n, Supplies (n + 1) s.allocator → Supplies n s'.allocator) ∧
      MapResult layout s.memory s'.memory v p flags result := by
  cases pde : (pdeAt layout s.memory v).present with
  | true =>
      obtain ⟨result, memory, run, tables', effect⟩ :=
        vmmMapPage_of_present ⟨layout, access, scripted⟩ flags reach tables aligned unmapped pde
      exact ⟨result, _, run, tables', usable, fun _ supply => supply.pred, effect⟩
  | false =>
      obtain ⟨page, after, answer⟩ := answer_of_next usable Set.subset_union_left (next pde)
      obtain ⟨result, memory, run, tables', effect⟩ :=
        vmmMapPage_of_absent ⟨layout, access, scripted⟩ flags reach tables aligned unmapped pde
          answer
      obtain ⟨tables'', usable', supply⟩ :=
        of_consumed usable (fresh pde) tables' (Consumed.table answer)
      exact ⟨result, _, run, tables'', usable', supply, effect⟩

/-- Without a page for a table a returning call refuses, and uses up a null
answer. -/
theorem map_of_unusable (reach : Reaching access) (aligned : Aligned v p)
    (absent : (pdeAt layout s.memory v).present = false) (unusable : ¬ NextUsable s.allocator)
    (run : vmmMapPage ⟨layout, access, scripted⟩ v p flags s = .ok result s') :
    result = false ∧ s' = { s with allocator := s.allocator.tail } := by
  rcases s with ⟨memory, answers⟩
  cases answers with
  | nil =>
      rw [vmmMapPage_of_exhausted ⟨layout, access, scripted⟩ (s := ⟨memory, []⟩) reach aligned
        absent scripted_nil] at run
      cases run
  | cons page rest =>
      have null : page = 0 := by
        by_contra nonzero
        exact unusable ⟨page, rfl, nonzero⟩
      have answer := scripted_cons page rest
      rw [null] at answer run
      rw [vmmMapPage_of_null ⟨layout, access, scripted⟩ (s := ⟨memory, 0 :: rest⟩)
        (directory_reached reach _) aligned absent answer] at run
      cases run
      exact ⟨rfl, rfl⟩

/-- What a returning `vmm_map_page` did: it refused, and no walk changed, or it
mapped the page. -/
theorem map (inv : VmmInv layout s) (reach : Reaching access)
    (run : vmmMapPage ⟨layout, access, scripted⟩ v p flags s = .ok result s') :
    VmmInv layout s' ∧ ((result = false ∧ RefusedEffect layout s.memory s'.memory) ∨
        (result = true ∧ Aligned v p ∧ MapEffect layout s.memory s'.memory v p flags)) := by
  by_cases aligned : Aligned v p
  case neg =>
    rw [vmmMapPage_of_unaligned aligned] at run
    cases run
    exact ⟨inv, Or.inl ⟨rfl, .refl _ _⟩⟩
  by_cases unmapped : walk layout s.memory v = none
  case neg =>
    rw [vmmMapPage_of_mapped ⟨layout, access, scripted⟩ flags reach inv.tables unmapped] at run
    cases run
    exact ⟨inv, Or.inl ⟨rfl, .refl _ _⟩⟩
  by_cases next : (pdeAt layout s.memory v).present = false → NextUsable s.allocator
  case pos =>
    have tables : TablesSound layout s.memory (answerFrames s.allocator ∪ ∅) :=
      (Set.union_empty _).symm ▸ inv.tables
    obtain ⟨result', s'', run', tables', usable, -, effect⟩ :=
      map_of_unmapped flags tables inv.answers (fun _ _ _ => id) reach aligned unmapped next
    rw [run'] at run
    cases run
    refine ⟨⟨tables'.mono Set.subset_union_left, usable⟩, ?_⟩
    cases effect with
    | mapped _ effect => exact Or.inr ⟨rfl, aligned, effect⟩
    | refused _ _ effect => exact Or.inl ⟨rfl, effect⟩
  obtain ⟨absent, unusable⟩ := Classical.not_imp.1 next
  obtain ⟨refused, rfl⟩ := map_of_unusable reach aligned (Bool.not_eq_true _ ▸ absent) unusable run
  exact ⟨inv.dropAnswer, Or.inl ⟨refused, .refl _ _⟩⟩

/-- What a `vmm_unmap_page` does; it always returns. -/
theorem unmap (inv : VmmInv layout s) (reach : Reaching access) (v : UInt32) :
    ∃ result s', vmmUnmapPage ⟨layout, access, scripted⟩ v s = .ok result s' ∧
      VmmInv layout s' ∧ s'.allocator = s.allocator ∧
      ((result = false ∧ s' = s ∧ (v.toNat % 4096 = 0 → walk layout s.memory v = none)) ∨
        (result = true ∧ v.toNat % 4096 = 0 ∧ UnmapEffect layout s.memory s'.memory v)) := by
  obtain ⟨result, s', run, tables, same, effect⟩ :=
    vmmUnmapPage_returns ⟨layout, access, scripted⟩ reach inv.tables v
  have answers : s'.allocator = s.allocator := same
  refine ⟨result, s', run, ⟨?_, ?_⟩, answers, effect⟩
  · rw [answers]
    exact tables
  · rw [answers]
    exact inv.answers

end VmmInv

/-! ## Page faults -/

/-- The page of an address. -/
theorem kalignDown_aligned (address : UInt32) :
    (kalignDown address pageSize).toNat % 4096 = 0 := by
  rw [kalignDown_toNat]
  exact Nat.mul_mod_left _ _

/-- The flags the fault handler maps with. -/
def faultFlags : UInt32 := vmmFlagRw ||| vmmFlagPresent

/-- A page fault that is served has a page that is mapped and cleared. -/
theorem vmmPageFaultHandler_ok {σ : Type} {paging : Paging σ} {s s' : Vmm σ}
    {cr2 errCode : UInt32} (run : vmmPageFaultHandler paging cr2 errCode s = .ok () s') :
    ∃ page after s₁, paging.allocator.allocPage s.allocator = .ok page after ∧ page ≠ 0 ∧
      vmmMapPage paging (kalignDown cr2 pageSize) page faultFlags ⟨s.memory, after⟩ =
        .ok true s₁ ∧
      zeroPage (mmuAccess paging.layout) (kalignDown cr2 pageSize) s₁ = .ok () s' := by
  unfold vmmPageFaultHandler at run
  by_cases notPresent : errCode &&& 0x1 = 0
  case neg =>
    rw [if_neg notPresent] at run
    cases run
  rw [if_pos notPresent] at run
  cases answer : paging.allocator.allocPage s.allocator with
  | error fault after =>
      rw [Machine.bind_of_error (onAllocator_of_error answer)] at run
      cases run
  | ok page after =>
      rw [Machine.bind_of_ok (onAllocator_of_ok answer)] at run
      by_cases null : page = 0
      case pos =>
        rw [if_pos null] at run
        cases run
      rw [if_neg null] at run
      obtain ⟨mapped, s₁, map, rest⟩ := Machine.bind_eq_ok.1 run
      cases mapped with
      | false =>
          obtain ⟨_, _, -, panic⟩ := Machine.bind_eq_ok.1 rest
          cases panic
      | true => exact ⟨page, after, s₁, rfl, null, map, rest⟩

/-- Zeroing a reserved frame after a mapping changes nothing of its effect. -/
theorem MapEffect.zeroFrame {layout : BootLayout} {before after : Memory} {v p flags : UInt32}
    (effect : MapEffect layout before after v p flags) {reserved : Set ℕ}
    (tables : TablesSound layout after reserved) {frame : ℕ} (mem : frame ∈ reserved) :
    MapEffect layout before (after.zeroFrame frame) v p flags := by
  have pde : ∀ u, pdeAt layout (after.zeroFrame frame) u = pdeAt layout after u :=
    fun u => tables.zeroFrame_directory mem _
  refine ⟨effect.unmapped, fun u => ?_, fun u present => ?_, ?_, ?_⟩
  · rw [tables.walk_zeroFrame mem]
    exact effect.walk u
  · rw [pde]
    exact effect.kept u present
  · rw [pde]
    exact effect.present
  · rw [pde]
    exact effect.created

/-- The mapping of the fault handler, with `page` taken from the allocator: the
frame of the page is still in no table afterwards, and neither are the answers
left. -/
theorem VmmInv.faultMapping {layout : BootLayout} {access : Memory → UInt32 → Option ℕ}
    {memory : Memory} {page v : UInt32} {rest : List UInt32} {s' : Vmm (List UInt32)}
    (inv : VmmInv layout ⟨memory, page :: rest⟩) (reach : Reaching access)
    (aligned : v.toNat % 4096 = 0)
    (map : vmmMapPage ⟨layout, access, scripted⟩ v page faultFlags ⟨memory, rest⟩ = .ok true s') :
    TablesSound layout s'.memory (answerFrames s'.allocator ∪ {frameOf page}) ∧
      MapEffect layout memory s'.memory v page faultFlags ∧
      UsableAnswers layout s'.allocator := by
  have usable := inv.answers.usable page List.mem_cons_self
  have rest_usable : UsableAnswers layout rest := inv.answers.tail
  have tables : TablesSound layout memory (answerFrames rest ∪ {frameOf page}) := by
    refine inv.tables.mono ?_
    rintro frame (⟨page', mem, same⟩ | same)
    · exact ⟨page', List.mem_cons_of_mem _ mem, same⟩
    · exact ⟨page, List.mem_cons_self, same.symm⟩
  have fresh : ∀ page' ∈ rest.head?, frameOf page' ∉ ({frameOf page} : Set ℕ) :=
    fun page' mem same => inv.answers.head_fresh ⟨page', List.mem_of_mem_head? mem, same⟩
  have unmapped : walk layout memory v = none := by
    by_contra mapped
    rw [vmmMapPage_of_mapped ⟨layout, access, scripted⟩ faultFlags reach (s := ⟨memory, rest⟩)
      tables mapped] at map
    cases map
  have next : (pdeAt layout memory v).present = false → NextUsable rest := by
    intro absent
    by_contra unusable
    cases (VmmInv.map_of_unusable (s := ⟨memory, rest⟩) reach ⟨aligned, usable.1⟩ absent unusable
      map).1
  obtain ⟨result, s'', run, tables', usable', -, effect⟩ :=
    VmmInv.map_of_unmapped (s := ⟨memory, rest⟩) faultFlags tables rest_usable (fun _ => fresh)
      reach ⟨aligned, usable.1⟩ unmapped next
  rw [run] at map
  cases map
  cases effect with
  | mapped _ effect => exact ⟨tables', effect, usable'⟩

/-- A returning fault handler mapped the page of the fault, writable, to the
first page the allocator answered with. -/
theorem VmmInv.pageFault {layout : BootLayout} {access : Memory → UInt32 → Option ℕ}
    {s s' : Vmm (List UInt32)} {cr2 errCode : UInt32} (inv : VmmInv layout s)
    (reach : Reaching access)
    (run : vmmPageFaultHandler ⟨layout, access, scripted⟩ cr2 errCode s = .ok () s') :
    VmmInv layout s' ∧ ∃ page ∈ s.allocator,
      MapEffect layout s.memory s'.memory (kalignDown cr2 pageSize) page faultFlags := by
  obtain ⟨page, rest, s₁, answer, -, map, cleared⟩ := vmmPageFaultHandler_ok run
  rcases s with ⟨memory, allocator⟩
  cases allocator with
  | nil =>
      rw [scripted_nil] at answer
      cases answer
  | cons page' rest' =>
      rw [scripted_cons] at answer
      cases answer
      obtain ⟨tables, effect, left⟩ := inv.faultMapping reach (kalignDown_aligned cr2) map
      have kept : frameOf page ∈ answerFrames s₁.allocator ∪ {frameOf page} := Or.inr rfl
      have reached : mmuAccess layout s₁.memory (kalignDown cr2 pageSize) =
          some (frameOf page) := by
        rw [mmuAccess, effect.walk_self]
        rfl
      rw [zeroPage_of_access reached] at cleared
      cases cleared
      exact ⟨⟨(tables.zeroFrame kept).mono Set.subset_union_left, left⟩, page,
        List.mem_cons_self, effect.zeroFrame tables kept⟩

/-! ## Steps and runs -/

/-- What a call does to the tables: it changes no walk, maps one page or unmaps
one page. -/
inductive CallEffect (layout : BootLayout) (before after : Memory) : Prop
  | refused : RefusedEffect layout before after → CallEffect layout before after
  | mapped {v p flags : UInt32} : MapEffect layout before after v p flags →
      CallEffect layout before after
  | unmapped {v : UInt32} : UnmapEffect layout before after v → CallEffect layout before after

section Runs

variable {layout : BootLayout} {access : Memory → UInt32 → Option ℕ}
  {allowed : UInt32 → Prop} {s s' : Vmm (List UInt32)}

/-- Every call that returns keeps the invariant and has one of the effects. -/
theorem VmmInv.step (inv : VmmInv layout s) (reach : Reaching access)
    (step : VmmStep ⟨layout, access, scripted⟩ allowed s s') :
    VmmInv layout s' ∧ CallEffect layout s.memory s'.memory := by
  rcases step with ⟨call, -, result, run⟩
  cases call with
  | request r =>
      cases r with
      | map v p flags =>
          obtain ⟨inv', ⟨-, effect⟩ | ⟨-, -, effect⟩⟩ := inv.map reach run
          · exact ⟨inv', .refused effect⟩
          · exact ⟨inv', .mapped effect⟩
      | unmap v =>
          obtain ⟨result', s'', run', inv', -, effect⟩ := inv.unmap reach v
          have same := run'.symm.trans run
          cases same
          rcases effect with ⟨-, rfl, -⟩ | ⟨-, -, effect⟩
          · exact ⟨inv', .refused (.refl _ _)⟩
          · exact ⟨inv', .unmapped effect⟩
  | pageFault cr2 errCode =>
      obtain ⟨_, s'', run', rest⟩ := Machine.bind_eq_ok.1 run
      cases rest
      obtain ⟨inv', page, -, effect⟩ := inv.pageFault reach run'
      exact ⟨inv', .mapped effect⟩

/-- The invariant holds along every run from `vmm_preinit`. -/
theorem VmmInv.run {memory : Memory} {answers : List UInt32} (reach : Reaching access)
    (usable : UsableAnswers layout answers)
    (run : VmmRun ⟨layout, access, scripted⟩ allowed (Vmm.preinit layout memory answers) s) :
    VmmInv layout s :=
  run.invariant_of_step (.preinit usable memory) fun _ _ inv step => (inv.step reach step).1

end Runs

/-- Static tables at 1 MiB and right behind. -/
def sampleLayout : BootLayout := ⟨0x100, 0x101, by decide, by decide, by decide⟩

/-- Physical memory of zero bytes. -/
def zeroMemory : Memory := fun _ _ => PageEntry.zero

theorem sampleAnswers_usable : UsableAnswers sampleLayout [0x200000, 0x201000] :=
  ⟨by decide, List.forall_mem_cons.2 ⟨by decide, List.forall_mem_singleton.2 (by decide)⟩⟩

end ArkoiOs
