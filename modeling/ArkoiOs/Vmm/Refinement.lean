import ArkoiOs.Vmm.Mmu

/-!
# The page tables refine a partial map

The abstract state is a partial map from virtual pages to mappings, and a
request maps or unmaps one page of it.  Outside the boot windows, and as long as
every access to a table hits its frame, the two-level tables simulate it: they
answer the same, and the walk of every page is the mapping of that page.
-/

namespace ArkoiOs

/-! ## The abstract map -/

/-- What a virtual page is mapped to: a frame, and the flags of the entry. -/
structure Mapping where
  frame : ℕ
  rw : Bool
  user : Bool
  writeThrough : Bool
  cacheDisabled : Bool
  global : Bool
  deriving DecidableEq, Repr

/-- A mapping to a physical address with flags. -/
def Mapping.ofFlags (physicalAddress flags : UInt32) : Mapping where
  frame := physicalAddress.toNat / 4096
  rw := hasFlag flags vmmFlagRw
  user := hasFlag flags vmmFlagUser
  writeThrough := hasFlag flags vmmFlagWriteThrough
  cacheDisabled := hasFlag flags vmmFlagCacheDisabled
  global := hasFlag flags vmmFlagGlobal

/-- The mapping of a window page: writable, nothing else. -/
def Mapping.window (frame : ℕ) : Mapping := ⟨frame, true, false, false, false, false⟩

/-- The table entry that stands for a mapping. -/
def Mapping.entry (mapping : Mapping) : PageEntry :=
  { PageEntry.zero with
    present := true
    rw := mapping.rw
    user := mapping.user
    writeThrough := mapping.writeThrough
    cacheDisabled := mapping.cacheDisabled
    global := mapping.global
    address := mapping.frame }

theorem Mapping.ofFlags_entry {p flags : UInt32} (present : hasFlag flags vmmFlagPresent = true) :
    (Mapping.ofFlags p flags).entry = PageEntry.zero.mapTo p flags := by
  unfold PageEntry.mapTo
  rw [present, frameOf_eq]
  rfl

/-- Virtual pages and their mappings. -/
abbrev PageMap : Type := ℕ → Option Mapping

/-- The map at boot: the first 4 MiB, at address 0 and at `KERNEL_VIRTUAL_BASE`. -/
def PageMap.boot : PageMap := fun page =>
  if page < 1024 then some (.window page)
  else if 0xC0000 ≤ page ∧ page < 0xC0000 + 1024 then some (.window (page - 0xC0000))
  else none

/-- Map a page that is aligned, to an aligned frame, and not mapped; without the
present flag it stays unmapped. -/
def PageMap.map (m : PageMap) (v p flags : UInt32) : Bool × PageMap :=
  if v.toNat % 4096 = 0 ∧ p.toNat % 4096 = 0 ∧ m (v.toNat / 4096) = none then
    (true, Function.update m (v.toNat / 4096)
      (if hasFlag flags vmmFlagPresent then some (.ofFlags p flags) else none))
  else (false, m)

/-- Unmap a page that is aligned and mapped. -/
def PageMap.unmap (m : PageMap) (v : UInt32) : Bool × PageMap :=
  if v.toNat % 4096 = 0 ∧ m (v.toNat / 4096) ≠ none then
    (true, Function.update m (v.toNat / 4096) none)
  else (false, m)

/-- What a request does to the map, and its answer. -/
def MapRequest.abstract : MapRequest → PageMap → Bool × PageMap
  | .map v p flags, m => m.map v p flags
  | .unmap v, m => m.unmap v

/-- A sequence of requests on the map. -/
def abstractRequests : List MapRequest → PageMap → List Bool × PageMap
  | [], m => ([], m)
  | r :: requests, m =>
      let (result, m) := r.abstract m
      let (results, m) := abstractRequests requests m
      (result :: results, m)

/-- A sequence of requests on the tables. -/
def runRequests {σ : Type} (paging : Paging σ) : List MapRequest → KernelM (Vmm σ) (List Bool)
  | [] => pure []
  | r :: requests => do
      let result ← r.run paging
      let results ← runRequests paging requests
      pure (result :: results)

/-! ## The simulation -/

/-- The walk of every page is its mapping. -/
def Refines (layout : BootLayout) (memory : Memory) (m : PageMap) : Prop :=
  ∀ v, walk layout memory v = (m (v.toNat / 4096)).map Mapping.entry

section Simulation

variable {layout : BootLayout} {s : Vmm (List UInt32)} {m : PageMap} {v p flags : UInt32}

/-- The map at boot in terms of the indices of an address. -/
theorem PageMap.boot_of_window (inside : WindowIndex (pdeIndex v)) :
    PageMap.boot (v.toNat / 4096) = some (.window (pteIndex v)) := by
  have directory : pdeIndex v = v.toNat / 4096 / 1024 := by
    rw [pdeIndex_eq, Nat.div_div_eq_div_mul]
  rw [directory] at inside
  rw [pteIndex_eq]
  generalize v.toNat / 4096 = page at inside
  unfold PageMap.boot
  rcases inside with low | high
  · have inLow : page < 1024 := by omega
    rw [if_pos inLow, Nat.mod_eq_of_lt inLow]
  · have notLow : ¬ page < 1024 := by omega
    have inHigh : 0xC0000 ≤ page ∧ page < 0xC0000 + 1024 := by omega
    have place : page - 0xC0000 = page % 1024 := by omega
    rw [if_neg notLow, if_pos inHigh, place]

theorem PageMap.boot_of_not_window (outside : ¬ WindowIndex (pdeIndex v)) :
    PageMap.boot (v.toNat / 4096) = none := by
  have directory : pdeIndex v = v.toNat / 4096 / 1024 := by
    rw [pdeIndex_eq, Nat.div_div_eq_div_mul]
  rw [directory] at outside
  generalize v.toNat / 4096 = page at outside
  unfold WindowIndex at outside
  unfold PageMap.boot
  have notLow : ¬ page < 1024 := by omega
  have notHigh : ¬ (0xC0000 ≤ page ∧ page < 0xC0000 + 1024) := by omega
  rw [if_neg notLow, if_neg notHigh]

/-- `vmm_preinit` leaves the map at boot. -/
theorem Refines.preinit (layout : BootLayout) (memory : Memory) :
    Refines layout (vmmPreinit layout memory) PageMap.boot := by
  intro v
  have pde := vmmPreinit_directory layout memory (pdeIndex v)
  by_cases inside : WindowIndex (pdeIndex v)
  · rw [if_pos inside] at pde
    have index : pteIndex v < pageEntries := by
      rw [pteIndex_eq]
      exact Nat.mod_lt _ (by omega)
    have pte : pteAt layout (vmmPreinit layout memory) v = windowEntry (pteIndex v) := by
      rw [pteAt, pdeAt, pde]
      exact vmmPreinit_identity layout memory index
    have walked : walk layout (vmmPreinit layout memory) v = some (windowEntry (pteIndex v)) := by
      rw [walk_eq_some_iff, pdeAt, pde, pte]
      exact ⟨rfl, rfl, rfl⟩
    rw [walked, PageMap.boot_of_window inside]
    rfl
  · rw [if_neg inside] at pde
    rw [PageMap.boot_of_not_window inside, Option.map_none, walk_eq_none_iff, pdeAt, pde]
    intro present
    cases present

theorem Refines.eq_none_iff (h : Refines layout s.memory m) (v : UInt32) :
    walk layout s.memory v = none ↔ m (v.toNat / 4096) = none := by
  rw [h v, Option.map_eq_none_iff]

/-- Changing the walk of one page outside the windows is updating the map there. -/
theorem Refines.update {after : Memory} {mapping : Option Mapping}
    (h : Refines layout s.memory m) (outside : ¬ InWindow v)
    (effect : ∀ u, walk layout after u =
      if SamePage u v ∨ Twins u v then mapping.map Mapping.entry
      else walk layout s.memory u) :
    Refines layout after (Function.update m (v.toNat / 4096) mapping) := by
  intro u
  have alone : SamePage u v ∨ Twins u v ↔ u.toNat / 4096 = v.toNat / 4096 :=
    or_iff_left fun twins => outside twins.2.1
  rw [effect u, Function.update_apply]
  by_cases same : u.toNat / 4096 = v.toNat / 4096
  · rw [if_pos (alone.2 same), if_pos same]
  · rw [if_neg (mt alone.1 same), if_neg same, h u]

/-- The tables are sound, and none is in the frame of an answer still to come or
at the null pointer. -/
structure MapInv (layout : BootLayout) (s : Vmm (List UInt32)) : Prop where
  tables : TablesSound layout s.memory (answerFrames s.allocator ∪ {nullFrame})
  answers : UsableAnswers layout s.allocator

theorem MapInv.preinit {answers : List UInt32} (usable : UsableAnswers layout answers)
    (memory : Memory) : MapInv layout (Vmm.preinit layout memory answers) := by
  refine ⟨vmmPreinit_tablesSound layout memory ⟨?_, ?_⟩, usable⟩
  · exact fun mem => mem.elim usable.static.1 fun same =>
      absurd layout.directory_lt (by rw [same]; decide)
  · exact fun mem => mem.elim usable.static.2 fun same =>
      absurd layout.identity_lt (by rw [same]; decide)

/-- The pointer to a table entry is not null. -/
theorem MapInv.valid (inv : MapInv layout s) (present : (pdeAt layout s.memory v).present = true) :
    ¬ (tableEntry layout s.memory v).IsNull := by
  obtain ⟨bound, -, fresh⟩ := inv.tables.table_frame present
  exact fun null => fresh (Or.inr ((physicalToVirtual_eq_zero_iff bound).1 null.1))

/-- Virtual address 0 is mapped to frame 0, so the frame at 1 GiB, whose
`physical_to_virtual` address it is, is not hit. -/
theorem exactAccess_null (h : Refines layout s.memory m) (window : m 0 = PageMap.boot 0) :
    exactAccess layout s.memory 0 = none := by
  have walked : walk layout s.memory 0 = some (Mapping.window 0).entry := by
    rw [h 0]
    exact congrArg (Option.map Mapping.entry) window
  have mmu : mmuAccess layout s.memory 0 = some 0 := congrArg (Option.map PageEntry.address) walked
  have direct : directAccess s.memory 0 = some nullFrame := by
    unfold directAccess
    decide
  unfold exactAccess
  rw [if_neg]
  rw [mmu, direct]
  decide

/-- So the page a mapping takes for a table is not the one at 1 GiB. -/
theorem Refines.next_fresh (h : Refines layout s.memory m) (window : m 0 = PageMap.boot 0)
    (inv : MapInv layout s) (aligned : Aligned v p)
    (absent : (pdeAt layout s.memory v).present = false) {n : ℕ}
    (supply : Supplies (n + 1) s.allocator)
    (hits : NoPageFault (vmmMapPage (exactPaging layout) v p flags) s) :
    ∀ page ∈ s.allocator.head?, frameOf page ∉ ({nullFrame} : Set ℕ) := by
  intro page head same
  obtain ⟨rest, answers⟩ := List.head?_eq_some_iff.1 head
  have mem : page ∈ s.allocator := List.mem_of_mem_head? head
  have null : physicalToVirtual page = 0 := by
    rw [← frameAddress_frameOf (inv.answers.usable page mem).1]
    exact (physicalToVirtual_eq_zero_iff (frameOf_lt page)).2 same
  have table : NoPageFault (getOrCreatePte (exactPaging layout) v flags) s :=
    fun fault s' failed => hits fault s' (vmmMapPage_of_error aligned failed)
  unfold getOrCreatePte at table
  have direct : loadEntry directAccess (directoryEntry (directPaging layout) v) s =
      .ok (pdeAt layout s.memory v) s :=
    @loadEntry_directory _ (directPaging layout) s v directAccess_reaching
  have load : loadEntry (exactPaging layout).access (directoryEntry (exactPaging layout) v) s =
      .ok (pdeAt layout s.memory v) s :=
    (table.first.eq ((exactAccess_narrows_direct layout).loadEntry _)).trans direct
  have created := table.rest load
  rw [absent] at created
  have answer : onAllocator scripted.allocPage s = .ok page { s with allocator := rest } := by
    apply onAllocator_of_ok
    rw [answers]
    exact scripted_cons page rest
  have zeroing := created.rest answer
  rw [if_neg (supply.nonzero page mem), null] at zeroing
  exact zeroing.first _ _ (zeroPage_of_fault (exactAccess_null h window)) ⟨0, rfl⟩

/-- Mapping a page outside the windows: the tables answer as the map does, and
refine it again. -/
theorem Refines.map (h : Refines layout s.memory m) (window : m 0 = PageMap.boot 0)
    (inv : MapInv layout s) (outside : ¬ InWindow v) {n : ℕ}
    (supply : Supplies (n + 1) s.allocator) (p flags : UInt32)
    (hits : NoPageFault (vmmMapPage (exactPaging layout) v p flags) s) :
    ∃ s', vmmMapPage (exactPaging layout) v p flags s = .ok (m.map v p flags).1 s' ∧
      MapInv layout s' ∧ Refines layout s'.memory (m.map v p flags).2 ∧
      Supplies n s'.allocator := by
  have direct := hits.eq ((exactAccess_narrows_direct layout).mapPage scripted v p flags)
  unfold PageMap.map
  by_cases accepted : v.toNat % 4096 = 0 ∧ p.toNat % 4096 = 0 ∧ m (v.toNat / 4096) = none
  · rw [if_pos accepted]
    obtain ⟨result, s', run, tables, usable, supplies, effect⟩ :=
      VmmInv.map_of_unmapped flags inv.tables inv.answers
        (fun absent => h.next_fresh window inv ⟨accepted.1, accepted.2.1⟩ absent supply hits)
        directAccess_reaching ⟨accepted.1, accepted.2.1⟩ ((h.eq_none_iff v).2 accepted.2.2)
        fun _ => supply.nextUsable
    have inv' : MapInv layout s' := ⟨tables, usable⟩
    cases effect with
    | refused null present => exact (inv'.valid present null).elim
    | mapped _ effect =>
        refine ⟨s', direct.trans run, inv', h.update outside fun u => ?_, supplies n supply⟩
        rw [effect.walk u]
        cases present : hasFlag flags vmmFlagPresent with
        | true => rw [if_pos rfl, if_pos rfl, Option.map_some, Mapping.ofFlags_entry present]
        | false => rfl
  · rw [if_neg accepted]
    refine ⟨s, direct.trans ?_, inv, h, supply.pred⟩
    by_cases aligned : Aligned v p
    · have mapped : walk layout s.memory v ≠ none := fun unmapped =>
        accepted ⟨aligned.1, aligned.2, (h.eq_none_iff v).1 unmapped⟩
      exact vmmMapPage_of_mapped (directPaging layout) flags directAccess_reaching inv.tables mapped
    · exact vmmMapPage_of_unaligned aligned

/-- Unmapping a page outside the windows. -/
theorem Refines.unmap (h : Refines layout s.memory m) (inv : MapInv layout s)
    (outside : ¬ InWindow v) {n : ℕ} (supply : Supplies (n + 1) s.allocator)
    (hits : NoPageFault (vmmUnmapPage (exactPaging layout) v) s) :
    ∃ s', vmmUnmapPage (exactPaging layout) v s = .ok (m.unmap v).1 s' ∧
      MapInv layout s' ∧ Refines layout s'.memory (m.unmap v).2 ∧ Supplies n s'.allocator := by
  obtain ⟨result, s', run, tables, same, effect⟩ :=
    vmmUnmapPage_returns (directPaging layout) directAccess_reaching inv.tables v
  have run' := (hits.eq ((exactAccess_narrows_direct layout).unmapPage scripted v)).trans run
  have answers : s'.allocator = s.allocator := same
  have inv' : MapInv layout s' := ⟨answers ▸ tables, answers ▸ inv.answers⟩
  have supply' : Supplies n s'.allocator := answers ▸ supply.pred
  unfold PageMap.unmap
  rcases effect with ⟨rfl, rfl, unmapped⟩ | ⟨rfl, aligned, effect⟩
  · rw [if_neg fun accepted => accepted.2 ((h.eq_none_iff v).1 (unmapped accepted.1))]
    exact ⟨s', run', inv', h, supply'⟩
  · rw [if_pos ⟨aligned, mt (h.eq_none_iff v).2 effect.mapped⟩]
    exact ⟨s', run', inv', h.update outside effect.walk, supply'⟩

/-- A request outside the windows leaves page 0 as it is. -/
theorem MapRequest.abstract_zero {r : MapRequest} (outside : ¬ InWindow r.address)
    (m : PageMap) : (r.abstract m).2 0 = m 0 := by
  have page : 0 ≠ r.address.toNat / 4096 := by
    intro same
    apply outside
    left
    rw [pdeIndex_eq]
    omega
  have kept (mapping : Option Mapping) :
      Function.update m (r.address.toNat / 4096) mapping 0 = m 0 := Function.update_of_ne page _ _
  cases r with
  | map v p flags =>
      change (m.map v p flags).2 0 = m 0
      unfold PageMap.map
      split
      · exact kept _
      · rfl
  | unmap v =>
      change (m.unmap v).2 0 = m 0
      unfold PageMap.unmap
      split
      · exact kept _
      · rfl

/-- One request outside the windows. -/
theorem Refines.request (h : Refines layout s.memory m) (window : m 0 = PageMap.boot 0)
    (inv : MapInv layout s) (r : MapRequest) (outside : ¬ InWindow r.address) {n : ℕ}
    (supply : Supplies (n + 1) s.allocator) (hits : NoPageFault (r.run (exactPaging layout)) s) :
    ∃ s', r.run (exactPaging layout) s = .ok (r.abstract m).1 s' ∧ MapInv layout s' ∧
      Refines layout s'.memory (r.abstract m).2 ∧ Supplies n s'.allocator := by
  cases r with
  | map v p flags => exact h.map window inv outside supply p flags hits
  | unmap v => exact h.unmap inv outside supply hits

/-- A sequence of requests outside the windows. -/
theorem Refines.requests :
    ∀ {requests : List MapRequest} {s : Vmm (List UInt32)} {m : PageMap},
      Refines layout s.memory m → m 0 = PageMap.boot 0 → MapInv layout s →
      (∀ r ∈ requests, ¬ InWindow r.address) → Supplies requests.length s.allocator →
      NoPageFault (runRequests (exactPaging layout) requests) s →
      ∃ s', runRequests (exactPaging layout) requests s = .ok (abstractRequests requests m).1 s' ∧
        Refines layout s'.memory (abstractRequests requests m).2
  | [], s, m, h, _, _, _, _, _ => ⟨s, rfl, h⟩
  | r :: requests, s, m, h, window, inv, outside, enough, hits => by
      have here := outside r List.mem_cons_self
      rw [runRequests] at hits
      obtain ⟨s₁, run, inv₁, h₁, supply⟩ := h.request window inv r here enough hits.first
      obtain ⟨s', runs, h'⟩ := Refines.requests h₁
        ((MapRequest.abstract_zero here m).trans window) inv₁
        (fun r' mem => outside r' (List.mem_cons_of_mem _ mem)) supply (hits.rest run).first
      refine ⟨s', ?_, h'⟩
      rw [runRequests, Machine.bind_of_ok run, Machine.bind_of_ok runs]
      rfl

end Simulation

end ArkoiOs
