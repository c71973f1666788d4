import Mathlib.Data.Finset.Card
import Mathlib.Data.Finset.Range
import ArkoiOs.Library.Chain
import ArkoiOs.Pmm.Geometry

/-!
# The intrusive free lists

`Lists region lists` says that following the `next` fields from the head of each
free list visits the pool entries `lists order`.  Adding a block that is on no
list and removing a block that is on its list are the two operations; both only
touch heads and links (`Relinked`).
-/

namespace ArkoiOs

namespace PmmRegion

/-! ## Field updates -/

section Fields

variable (region : PmmRegion) (block i : ℕ) (f : PmmBlock → PmmBlock)

@[simp] theorem setBlock_self :
    (region.setBlock block f).blockPool block = f (region.blockPool block) :=
  Function.update_self ..

theorem setBlock_of_ne {block i : ℕ} (h : i ≠ block) :
    (region.setBlock block f).blockPool i = region.blockPool i :=
  Function.update_of_ne h ..

@[simp] theorem setHead_freeLists (k : ℕ) (head : Option ℕ) :
    (region.setHead k head).freeLists = Function.update region.freeLists k head := rfl

/-- A write reads back at the entry it was made to. -/
theorem setBlock_apply :
    (region.setBlock block f).blockPool i =
      if i = block then f (region.blockPool block) else region.blockPool i :=
  Function.update_apply ..

variable (order k : ℕ) (isFree : Bool) (next : Option ℕ)

@[simp] theorem setOrder_order :
    ((region.setOrder block k).blockPool i).order =
      if i = block then k else (region.blockPool i).order := by
  rw [setOrder, setBlock_apply]
  split <;> rfl

@[simp] theorem setOrder_isFree :
    ((region.setOrder block k).blockPool i).isFree = (region.blockPool i).isFree := by
  rw [setOrder, setBlock_apply]
  split
  · rename_i same
    rw [same]
  · rfl

@[simp] theorem setFree_order :
    ((region.setFree block isFree).blockPool i).order = (region.blockPool i).order := by
  rw [setFree, setBlock_apply]
  split
  · rename_i same
    rw [same]
  · rfl

@[simp] theorem setFree_isFree :
    ((region.setFree block isFree).blockPool i).isFree =
      if i = block then isFree else (region.blockPool i).isFree := by
  rw [setFree, setBlock_apply]
  split <;> rfl

@[simp] theorem setNext_order :
    ((region.setNext block next).blockPool i).order = (region.blockPool i).order := by
  rw [setNext, setBlock_apply]
  split
  · rename_i same
    rw [same]
  · rfl

@[simp] theorem setNext_isFree :
    ((region.setNext block next).blockPool i).isFree = (region.blockPool i).isFree := by
  rw [setNext, setBlock_apply]
  split
  · rename_i same
    rw [same]
  · rfl

@[simp] theorem addToRegionFreelist_order :
    ((addToRegionFreelist region block k).blockPool i).order = (region.blockPool i).order :=
  setNext_order ..

@[simp] theorem addToRegionFreelist_isFree :
    ((addToRegionFreelist region block k).blockPool i).isFree = (region.blockPool i).isFree :=
  setNext_isFree ..

end Fields

/-- The link of each pool entry. -/
def links (region : PmmRegion) (i : ℕ) : Option ℕ := (region.blockPool i).next

theorem links_setNext (region : PmmRegion) (block : ℕ) (next : Option ℕ) :
    (region.setNext block next).links = Function.update region.links block next := by
  funext i
  by_cases h : i = block
  · subst h
    simp [links, setNext]
  · rw [links, setNext, setBlock_of_ne _ _ h, Function.update_of_ne h, links]

/-- A write that keeps the link of an entry keeps all links. -/
theorem links_setBlock (region : PmmRegion) (block : ℕ) {f : PmmBlock → PmmBlock}
    (h : ∀ entry, (f entry).next = entry.next) :
    (region.setBlock block f).links = region.links := by
  funext i
  by_cases same : i = block
  · subst same
    simp [links, h]
  · rw [links, setBlock_of_ne _ _ same, links]

@[simp] theorem links_setOrder (region : PmmRegion) (block order : ℕ) :
    (region.setOrder block order).links = region.links :=
  links_setBlock _ _ fun _ => rfl

@[simp] theorem links_setFree (region : PmmRegion) (block : ℕ) (isFree : Bool) :
    (region.setFree block isFree).links = region.links :=
  links_setBlock _ _ fun _ => rfl

@[simp] theorem links_setHead (region : PmmRegion) (order : ℕ) (head : Option ℕ) :
    (region.setHead order head).links = region.links := rfl

/-- Only the heads and links of the free lists differ. -/
structure Relinked (region region' : PmmRegion) : Prop where
  size : region'.blockPoolSize = region.blockPoolSize
  start : region'.start = region.start
  end_ : region'.end_ = region.end_
  address : ∀ i, (region'.blockPool i).address = (region.blockPool i).address
  order : ∀ i, (region'.blockPool i).order = (region.blockPool i).order
  isFree : ∀ i, (region'.blockPool i).isFree = (region.blockPool i).isFree

theorem Relinked.refl (region : PmmRegion) : Relinked region region :=
  ⟨rfl, rfl, rfl, fun _ => rfl, fun _ => rfl, fun _ => rfl⟩

theorem Relinked.trans {a b c : PmmRegion} (h : Relinked a b) (h' : Relinked b c) :
    Relinked a c :=
  ⟨h'.size.trans h.size, h'.start.trans h.start, h'.end_.trans h.end_,
    fun i => (h'.address i).trans (h.address i), fun i => (h'.order i).trans (h.order i),
    fun i => (h'.isFree i).trans (h.isFree i)⟩

theorem Relinked.setNext (region : PmmRegion) (block : ℕ) (next : Option ℕ) :
    Relinked region (region.setNext block next) := by
  refine ⟨rfl, rfl, rfl, fun i => ?_, fun i => setNext_order .., fun i => setNext_isFree ..⟩
  rw [PmmRegion.setNext, setBlock_apply]
  split
  · rename_i same
    rw [same]
  · rfl

theorem Relinked.setHead (region : PmmRegion) (order : ℕ) (head : Option ℕ) :
    Relinked region (region.setHead order head) :=
  ⟨rfl, rfl, rfl, fun _ => rfl, fun _ => rfl, fun _ => rfl⟩

theorem Relinked.assign (region : PmmRegion) (value : Option ℕ) (slot : Slot) :
    Relinked region (region.assign value slot) := by
  cases slot with
  | head order => exact .setHead region order value
  | next block => exact .setNext region block value

theorem Relinked.addToRegionFreelist (region : PmmRegion) (block order : ℕ) :
    Relinked region (addToRegionFreelist region block order) :=
  (Relinked.setNext region block _).trans (.setHead _ _ _)

theorem Geometry.of_relinked {region region' : PmmRegion} (geometry : region.Geometry)
    (h : Relinked region region') : region'.Geometry where
  aligned := by rw [h.start]; exact geometry.aligned
  span := by rw [h.start, h.size, h.end_]; exact geometry.span
  nonempty := by rw [h.size]; exact geometry.nonempty
  address i hi := by
    rw [h.size] at hi
    rw [h.address, geometry.address i hi, pageAddress, pageAddress, h.start]

/-- Entry writes that keep the address keep the geometry. -/
theorem Geometry.setBlock {region : PmmRegion} (geometry : region.Geometry) (block : ℕ)
    {f : PmmBlock → PmmBlock} (h : ∀ entry, (f entry).address = entry.address) :
    (region.setBlock block f).Geometry where
  aligned := geometry.aligned
  span := geometry.span
  nonempty := geometry.nonempty
  address i hi := by
    have address := geometry.address i hi
    by_cases same : i = block
    · subst same
      rw [setBlock_self, h]
      exact address
    · rw [setBlock_of_ne _ _ same]
      exact address

theorem Geometry.setOrder {region : PmmRegion} (geometry : region.Geometry) (block order : ℕ) :
    (region.setOrder block order).Geometry :=
  geometry.setBlock block fun _ => rfl

theorem Geometry.setFree {region : PmmRegion} (geometry : region.Geometry) (block : ℕ)
    (isFree : Bool) : (region.setFree block isFree).Geometry :=
  geometry.setBlock block fun _ => rfl

/-! ## The lists -/

/-- The free lists of the region visit the entries `lists order`. -/
structure Lists (region : PmmRegion) (lists : ℕ → List ℕ) : Prop where
  chain : ∀ k, Chain region.links (region.freeLists k) (lists k)
  apart : ∀ i j k, i ∈ lists j → i ∈ lists k → j = k

namespace Lists

variable {region : PmmRegion} {lists : ℕ → List ℕ}

/-- Writes that keep heads and links keep the lists. -/
theorem congr (h : Lists region lists) {region' : PmmRegion}
    (heads : region'.freeLists = region.freeLists) (links : region'.links = region.links) :
    Lists region' lists :=
  ⟨fun k => by rw [heads, links]; exact h.chain k, h.apart⟩

/-- The link of an entry on no list may be written. -/
theorem setNext (h : Lists region lists) {block : ℕ} (fresh : ∀ k, block ∉ lists k)
    (next : Option ℕ) : Lists (region.setNext block next) lists :=
  ⟨fun k => by
    rw [links_setNext]
    exact (h.chain k).update_of_notMem next (fresh k), h.apart⟩

/-- What is on the lists after a block was put in front of one. -/
theorem mem_add_iff (lists : ℕ → List ℕ) (block order i k : ℕ) :
    i ∈ Function.update lists order (block :: lists order) k ↔
      (i = block ∧ k = order) ∨ i ∈ lists k := by
  by_cases same : k = order
  · subst same
    simp [Function.update_self]
  · simp [same]

/-- `add_to_region_freelist` puts a block that is on no list in front of one. -/
theorem add (h : Lists region lists) {block : ℕ} (fresh : ∀ k, block ∉ lists k) (order : ℕ) :
    Lists (addToRegionFreelist region block order)
      (Function.update lists order (block :: lists order)) where
  chain k := by
    unfold addToRegionFreelist
    rw [links_setHead, links_setNext]
    by_cases same : k = order
    · subst same
      rw [setHead_freeLists, Function.update_self, Function.update_self]
      exact (h.chain k).push (fresh k)
    · rw [setHead_freeLists, Function.update_of_ne same, Function.update_of_ne same]
      exact (h.chain k).update_of_notMem _ (fresh k)
  apart i j k hj hk := by
    rcases (mem_add_iff lists block order i j).1 hj with ⟨eq, hj'⟩ | hj' <;>
      rcases (mem_add_iff lists block order i k).1 hk with ⟨eq', hk'⟩ | hk'
    · rw [hj', hk']
    · exact absurd (eq ▸ hk') (fresh k)
    · exact absurd (eq' ▸ hj') (fresh j)
    · exact h.apart i j k hj' hk'

/-- The walk ends at the slot that holds the block: the slot it started from,
or the link of the entry before it. -/
theorem findSlot_eq {block : ℕ} :
    ∀ {xs : List ℕ} {slot : Slot} {fuel : ℕ},
      Chain region.links (region.deref slot) xs → block ∈ xs → xs.length ≤ fuel →
      ∃ before after found, xs = before ++ block :: after ∧ block ∉ before ∧
        findSlot region block fuel slot = some found ∧ region.deref found = some block ∧
        ((before = [] ∧ found = slot) ∨ ∃ init last, before = init ++ [last] ∧
          found = .next last)
  | [], _, _, _, mem, _ => by cases mem
  | x :: xs, slot, 0, _, _, len => by cases len
  | x :: xs, slot, fuel + 1, chain, mem, len => by
      have head : region.deref slot = some x := chain.head_eq
      rw [head, Chain.some_iff] at chain
      rcases chain with ⟨_, same, rest⟩
      cases same
      by_cases here : x = block
      · subst here
        refine ⟨[], xs, slot, rfl, List.not_mem_nil, ?_, head, Or.inl ⟨rfl, rfl⟩⟩
        simp only [findSlot, head, if_true]
      · have later : block ∈ xs := (List.mem_cons.1 mem).resolve_left fun eq => here eq.symm
        have behind : Chain region.links (region.deref (.next x)) xs := rest
        obtain ⟨before, after, found, split, notBefore, walk, deref, shape⟩ :=
          findSlot_eq behind later (Nat.le_of_succ_le_succ len)
        refine ⟨x :: before, after, found, by rw [split]; rfl, ?_, ?_, deref, Or.inr ?_⟩
        · exact fun again => (List.mem_cons.1 again).elim (fun eq => here eq.symm) notBefore
        · simp only [findSlot, head, if_neg here, walk]
        · rcases shape with ⟨empty, same⟩ | ⟨init, last, split', same⟩
          · exact ⟨[], x, by rw [empty]; rfl, same⟩
          · exact ⟨x :: init, last, by rw [split']; rfl, same⟩

/-- The entries on a list of pool entries are at most as many as the pool has. -/
theorem length_le (h : Lists region lists) {k : ℕ}
    (bound : ∀ i ∈ lists k, i < region.blockPoolSize) :
    (lists k).length ≤ region.blockPoolSize := by
  have distinct := (h.chain k).nodup
  rw [← List.toFinset_card_of_nodup distinct, ← Finset.card_range region.blockPoolSize]
  apply Finset.card_le_card
  intro i hi
  exact Finset.mem_range.2 (bound i (List.mem_toFinset.1 hi))

/-- `remove_from_region_freelist` finds a block that is on the list and unlinks
it; nothing else changes. -/
theorem remove (h : Lists region lists) {block order : ℕ} (mem : block ∈ lists order)
    (bound : ∀ i ∈ lists order, i < region.blockPoolSize) :
    ∃ region', removeFromRegionFreelist block order region = .ok true region' ∧
      Relinked region region' ∧
      Lists region' (Function.update lists order ((lists order).erase block)) := by
  have len : (lists order).length ≤ region.blockPoolSize + 1 :=
    (h.length_le bound).trans (Nat.le_succ _)
  have start : Chain region.links (region.deref (.head order)) (lists order) := h.chain order
  obtain ⟨before, after, found, split, notBefore, walk, deref, shape⟩ :=
    findSlot_eq start mem len
  have erased : (lists order).erase block = before ++ after := by
    rw [split, List.erase_append_right _ notBefore, List.erase_cons_head]
  refine ⟨(region.assign (region.blockPool block).next found).setNext block none, ?_,
    (Relinked.assign region _ found).trans (.setNext _ block none), ?_, ?_⟩
  · unfold removeFromRegionFreelist
    rw [Machine.bind_of_ok (Machine.get_run region)]
    simp only [walk, deref, reduceCtorEq, if_false]
    rfl
  · intro k
    have others : k ≠ order → ∀ i ∈ lists order, i ∉ lists k :=
      fun ne i hi hk => ne (h.apart i k order hk hi)
    rw [links_setNext]
    rcases shape with ⟨empty, same⟩ | ⟨init, last, split', same⟩
    · subst empty same
      rw [List.nil_append] at erased split
      by_cases eq : k = order
      · subst eq
        rw [Function.update_self, erased]
        have chain := h.chain k
        rw [split] at chain
        change Chain (Function.update region.links block none)
          ((region.setHead k _).freeLists k) after
        rw [setHead_freeLists, Function.update_self]
        exact chain.pop none
      · rw [Function.update_of_ne eq]
        change Chain (Function.update region.links block none)
          ((region.setHead order _).freeLists k) (lists k)
        rw [setHead_freeLists, Function.update_of_ne eq]
        exact (h.chain k).update_of_notMem none (others eq block mem)
    · subst split' same
      change Chain (Function.update (region.setNext last _).links block none)
        (region.freeLists k) _
      rw [links_setNext]
      by_cases eq : k = order
      · subst eq
        rw [Function.update_self, erased]
        have chain := h.chain k
        rw [split, List.append_assoc] at chain
        rw [List.append_assoc]
        exact chain.unlink none
      · rw [Function.update_of_ne eq]
        have lastMem : last ∈ lists order := by rw [split]; simp
        exact ((h.chain k).update_of_notMem _ (others eq last lastMem)).update_of_notMem _
          (others eq block mem)
  · intro i j k hj hk
    have sub : ∀ l, i ∈ Function.update lists order ((lists order).erase block) l →
        i ∈ lists l := by
      intro l hl
      by_cases eq : l = order
      · subst eq
        rw [Function.update_self] at hl
        exact List.mem_of_mem_erase hl
      · rwa [Function.update_of_ne eq] at hl
    exact h.apart i j k (sub j hj) (sub k hk)

/-- What is left on the list after a block was removed from it. -/
theorem mem_erase_iff (h : Lists region lists) {block order : ℕ} (i k : ℕ)
    (mem : block ∈ lists order) :
    i ∈ Function.update lists order ((lists order).erase block) k ↔
      i ∈ lists k ∧ i ≠ block := by
  by_cases eq : k = order
  · subst eq
    rw [Function.update_self, (h.chain k).nodup.mem_erase_iff, and_comm]
  · rw [Function.update_of_ne eq]
    refine ⟨fun hi => ⟨hi, ?_⟩, And.left⟩
    intro same
    exact eq (h.apart block k order (same ▸ hi) mem)

end Lists

end PmmRegion

end ArkoiOs
