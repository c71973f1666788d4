import ArkoiOs.Vmm.Model

/-!
# Addresses, tables and the walk

What the index arithmetic computes, what `vmm_preinit` leaves in the two static
tables, and what one write to a directory or table entry does to the walk of
every page.
-/

namespace ArkoiOs

/-! ## Index arithmetic -/

/-- A mask keeps the ten bits of an index. -/
theorem toNat_indexBits (x : UInt32) : (x &&& 0x3FF).toNat = x.toNat % 2 ^ 10 := by
  have mask : UInt32.toNat 0x3FF = 2 ^ 10 - 1 := by decide
  rw [UInt32.toNat_and, mask, Nat.and_two_pow_sub_one_eq_mod]

theorem pdeIndex_eq (virtualAddress : UInt32) :
    pdeIndex virtualAddress = virtualAddress.toNat / 4194304 := by
  have bound := virtualAddress.toNat_lt
  rw [pdeIndex, toNat_indexBits, UInt32.toNat_shiftRight, Nat.shiftRight_eq_div_pow]
  simp only [UInt32.reduceToNat, Nat.reduceMod, Nat.reducePow]
  omega

theorem pteIndex_eq (virtualAddress : UInt32) :
    pteIndex virtualAddress = virtualAddress.toNat / 4096 % 1024 := by
  rw [pteIndex, toNat_indexBits, UInt32.toNat_shiftRight, Nat.shiftRight_eq_div_pow]
  rfl

theorem frameOf_eq (address : UInt32) : frameOf address = address.toNat / 4096 := by
  rw [frameOf, UInt32.toNat_shiftRight, Nat.shiftRight_eq_div_pow]
  rfl

theorem frameOf_lt (address : UInt32) : frameOf address < 2 ^ 20 := by
  have bound := address.toNat_lt
  rw [frameOf_eq]
  omega

theorem frameAddress_toNat {frame : ℕ} (bound : frame < 2 ^ 20) :
    (frameAddress frame).toNat = frame * 4096 := by
  rw [frameAddress, UInt32.toNat_shiftLeft, UInt32.toNat_ofNat', Nat.shiftLeft_eq]
  simp only [UInt32.reduceToNat, Nat.reduceMod, Nat.reducePow]
  omega

/-- A page-aligned address is the address of its frame. -/
theorem frameAddress_frameOf {address : UInt32} (aligned : address.toNat % 4096 = 0) :
    frameAddress (frameOf address) = address := by
  apply UInt32.toNat_inj.1
  rw [frameAddress_toNat (frameOf_lt address), frameOf_eq]
  omega

theorem mod_pageSize_eq_zero_iff (address : UInt32) :
    address % pageSize = 0 ↔ address.toNat % 4096 = 0 := by
  rw [← UInt32.toNat_inj, UInt32.toNat_mod, pageSize_toNat]
  rfl

theorem physicalToVirtual_toNat {frame : ℕ} (bound : frame < 2 ^ 20) :
    (physicalToVirtual (frameAddress frame)).toNat = (frame * 4096 + 0xC0000000) % 2 ^ 32 := by
  rw [physicalToVirtual, UInt32.toNat_add, frameAddress_toNat bound]
  rfl

/-- The direct access inverts `physical_to_virtual`, whether the sum wraps or
not. -/
theorem directAccess_physicalToVirtual (memory : Memory) {frame : ℕ} (bound : frame < 2 ^ 20) :
    directAccess memory (physicalToVirtual (frameAddress frame)) = some frame := by
  have back : virtualToPhysical (physicalToVirtual (frameAddress frame)) = frameAddress frame :=
    UInt32.add_sub_cancel _ _
  rw [directAccess, back, frameOf_eq, frameAddress_toNat bound]
  congr 1
  omega

/-! ## Memory -/

namespace Memory

variable (memory : Memory) (frame index : ℕ) (entry : PageEntry)

theorem write_apply (f i : ℕ) :
    memory.write frame index entry f i =
      if f = frame ∧ i = index then entry else memory f i := by
  unfold write
  by_cases hf : f = frame
  · subst hf
    rw [Function.update_self, Function.update_apply]
    simp only [true_and]
  · rw [Function.update_of_ne hf, if_neg fun h => hf h.1]

@[simp] theorem write_self : memory.write frame index entry frame index = entry := by
  rw [write_apply, if_pos ⟨rfl, rfl⟩]

theorem write_of_ne_frame {f : ℕ} (h : f ≠ frame) (i : ℕ) :
    memory.write frame index entry f i = memory f i := by
  rw [write_apply, if_neg fun same => h same.1]

theorem zeroFrame_apply (f i : ℕ) :
    memory.zeroFrame frame f i = if f = frame then PageEntry.zero else memory f i := by
  unfold zeroFrame
  rw [Function.update_apply]
  split <;> rfl

end Memory

/-! ## What `vmm_preinit` leaves -/

/-- The directory entries of the two windows. -/
def WindowIndex (index : ℕ) : Prop := index = 0 ∨ index = 768

instance (index : ℕ) : Decidable (WindowIndex index) := by
  unfold WindowIndex; infer_instance

/-- The entries `vmm_preinit` writes: present and writable. -/
def windowEntry (frame : ℕ) : PageEntry :=
  { PageEntry.zero with address := frame, present := true, rw := true }

/-- The first `count` rounds of the identity loop on a zeroed table. -/
theorem identityMap_rounds (layout : BootLayout) (memory : Memory)
    (zeroed : ∀ i, memory layout.identity i = PageEntry.zero) (count f i : ℕ) :
    (List.range count).foldl
        (fun memory index =>
          let entry := memory layout.identity index
          memory.write layout.identity index
            { entry with address := index, present := true, rw := true }) memory f i =
      if f = layout.identity ∧ i < count then windowEntry i else memory f i := by
  induction count generalizing f i with
  | zero =>
      rw [if_neg fun h => Nat.not_lt_zero i h.2]
      rfl
  | succ count ih =>
      rw [List.range_succ, List.foldl_append]
      simp only [List.foldl_cons, List.foldl_nil, Memory.write_apply, ih]
      by_cases frame : f = layout.identity
      · by_cases last : i = count
        · subst last
          simp only [frame, true_and, lt_irrefl, and_false, if_false, zeroed, Nat.lt_succ_self,
            if_true]
          rfl
        · have rounds : i < count + 1 ↔ i < count := by omega
          simp only [frame, last, and_false, if_false, true_and, rounds]
      · simp only [frame, false_and, if_false]

theorem vmmPreinit_directory (layout : BootLayout) (memory : Memory) (i : ℕ) :
    vmmPreinit layout memory layout.directory i =
      if WindowIndex i then windowEntry layout.identity else PageEntry.zero := by
  have base : (kernelVirtualBase >>> 22).toNat = 768 := by decide
  have zeroed : ∀ j, ((memory.zeroFrame layout.directory).zeroFrame layout.identity)
      layout.identity j = PageEntry.zero := by
    intro j
    rw [Memory.zeroFrame_apply, if_pos rfl]
  have table : ∀ j, identityMap layout ((memory.zeroFrame layout.directory).zeroFrame
      layout.identity) layout.directory j = PageEntry.zero := by
    intro j
    rw [identityMap, identityMap_rounds layout _ zeroed, if_neg fun h => layout.ne h.1,
      Memory.zeroFrame_apply, if_neg layout.ne, Memory.zeroFrame_apply, if_pos rfl]
  unfold vmmPreinit pointToIdentity WindowIndex
  simp only [base, Memory.write_apply, table, true_and]
  by_cases high : i = 768
  · subst high
    simp only [if_true, or_true]
    rfl
  · by_cases low : i = 0
    · subst low
      simp only [if_true, true_or]
      rfl
    · simp only [high, low, if_false, or_self]

theorem vmmPreinit_identity (layout : BootLayout) (memory : Memory) {i : ℕ}
    (bound : i < pageEntries) :
    vmmPreinit layout memory layout.identity i = windowEntry i := by
  have ne : layout.identity ≠ layout.directory := layout.ne.symm
  have zeroed : ∀ j, ((memory.zeroFrame layout.directory).zeroFrame layout.identity)
      layout.identity j = PageEntry.zero := by
    intro j
    rw [Memory.zeroFrame_apply, if_pos rfl]
  unfold vmmPreinit pointToIdentity
  rw [Memory.write_of_ne_frame _ _ _ _ ne, Memory.write_of_ne_frame _ _ _ _ ne, identityMap,
    identityMap_rounds layout _ zeroed, if_pos ⟨rfl, bound⟩]

/-! ## The two windows -/

/-- The address lies in one of the two boot windows. -/
def InWindow (virtualAddress : UInt32) : Prop := WindowIndex (pdeIndex virtualAddress)

instance (virtualAddress : UInt32) : Decidable (InWindow virtualAddress) := by
  unfold InWindow; infer_instance

/-- The addresses lie on one virtual page. -/
def SamePage (u v : UInt32) : Prop := u.toNat / 4096 = v.toNat / 4096

instance (u v : UInt32) : Decidable (SamePage u v) := by
  unfold SamePage; infer_instance

theorem SamePage.refl (v : UInt32) : SamePage v v := rfl

/-- Pages at the same place of the two windows, or of one window. -/
def Twins (u v : UInt32) : Prop := InWindow u ∧ InWindow v ∧ pteIndex u = pteIndex v

instance (u v : UInt32) : Decidable (Twins u v) := by
  unfold Twins; infer_instance

/-- One page has one pair of indices. -/
theorem samePage_iff (u v : UInt32) :
    SamePage u v ↔ pdeIndex u = pdeIndex v ∧ pteIndex u = pteIndex v := by
  unfold SamePage
  simp only [pdeIndex_eq, pteIndex_eq]
  omega

/-- The `physical_to_virtual` address of a frame of the first 4 MiB lies in the
kernel window, at the place of the frame. -/
theorem indices_physicalToVirtual {frame : ℕ} (bound : frame < pageEntries) :
    pdeIndex (physicalToVirtual (frameAddress frame)) = 768 ∧
      pteIndex (physicalToVirtual (frameAddress frame)) = frame := by
  unfold pageEntries at bound
  rw [pdeIndex_eq, pteIndex_eq, physicalToVirtual_toNat (by omega)]
  omega

/-! ## The walk -/

/-- What a written entry maps to does not depend on the entry there before. -/
@[simp] theorem PageEntry.mapping_mapTo (entry : PageEntry) (p flags : UInt32) :
    (entry.mapTo p flags).mapping = PageEntry.zero.mapTo p flags := rfl

@[simp] theorem PageEntry.mapping_address (entry : PageEntry) :
    entry.mapping.address = entry.address := rfl

@[simp] theorem mapping_windowEntry (frame : ℕ) :
    (windowEntry frame).mapping = windowEntry frame := rfl

section Walk

variable {layout : BootLayout} {memory memory' : Memory} {u v : UInt32}

theorem walk_eq_none_iff : walk layout memory v = none ↔
    ((pdeAt layout memory v).present = true → (pteAt layout memory v).present = false) := by
  unfold walk
  cases (pdeAt layout memory v).present <;> cases (pteAt layout memory v).present <;> simp

theorem walk_eq_some_iff {entry : PageEntry} : walk layout memory v = some entry ↔
    (pdeAt layout memory v).present = true ∧ (pteAt layout memory v).present = true ∧
      (pteAt layout memory v).mapping = entry := by
  unfold walk
  cases (pdeAt layout memory v).present <;> cases (pteAt layout memory v).present <;> simp

/-- The walk only depends on the two entries it reads. -/
theorem walk_congr (pde : pdeAt layout memory' u = pdeAt layout memory u)
    (pte : (pdeAt layout memory u).present = true →
      pteAt layout memory' u = pteAt layout memory u) :
    walk layout memory' u = walk layout memory u := by
  unfold walk
  rw [pde]
  cases present : (pdeAt layout memory u).present with
  | false => rfl
  | true => rw [pte present]

/-- The walk of pages on one virtual page is the same. -/
theorem walk_samePage (same : SamePage u v) : walk layout memory u = walk layout memory v := by
  obtain ⟨pde, pte⟩ := (samePage_iff u v).1 same
  unfold walk pteAt pdeAt
  rw [pde, pte]

end Walk

end ArkoiOs
