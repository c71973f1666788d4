import ArkoiOs.Vmm.Mmu

/-!
# Access rights

The processor allows an access when both the directory entry and the table entry
do.  `get_or_create_pte` sets the rights of a directory entry from the flags of
the first mapping in its 4 MiB and never touches them again, so a later mapping
gets what it asks for only as far as that first one asked for it too.
-/

namespace ArkoiOs

/-- Writable for the processor. -/
def effectiveRw (layout : BootLayout) (memory : Memory) (v : UInt32) : Bool :=
  (pdeAt layout memory v).rw && (pteAt layout memory v).rw

/-- Accessible in user mode. -/
def effectiveUser (layout : BootLayout) (memory : Memory) (v : UInt32) : Bool :=
  (pdeAt layout memory v).user && (pteAt layout memory v).user

/-- The effective rights of the page are the ones the flags ask for. -/
def RightsGranted (layout : BootLayout) (memory : Memory) (v flags : UInt32) : Prop :=
  effectiveRw layout memory v = hasFlag flags vmmFlagRw ∧
    effectiveUser layout memory v = hasFlag flags vmmFlagUser

/-- A directory entry that is present already allows what the flags ask for. -/
def DirectoryAllows (layout : BootLayout) (memory : Memory) (v flags : UInt32) : Prop :=
  (pdeAt layout memory v).present = true →
    (hasFlag flags vmmFlagRw = true → (pdeAt layout memory v).rw = true) ∧
      (hasFlag flags vmmFlagUser = true → (pdeAt layout memory v).user = true)

/-- Runs of the machine in which every access to a table hits and every call leaves the
page mapped. -/
def RunsMapped (layout : BootLayout) (v : UInt32) :
    Vmm (List UInt32) → Vmm (List UInt32) → Prop :=
  Relation.ReflTransGen fun s s' =>
    VmmStep (exactPaging layout) (fun _ => True) s s' ∧ walk layout s'.memory v ≠ none

section Rights

variable {layout : BootLayout} {before after : Memory} {v p flags : UInt32}

/-- The rights in the table entry of a page mapped with flags. -/
theorem pte_rights {memory : Memory}
    (walked : walk layout memory v = some (PageEntry.zero.mapTo p flags)) :
    (pteAt layout memory v).rw = hasFlag flags vmmFlagRw ∧
      (pteAt layout memory v).user = hasFlag flags vmmFlagUser := by
  have pte := (walk_eq_some_iff.1 walked).2.2
  exact ⟨congrArg PageEntry.rw pte, congrArg PageEntry.user pte⟩

/-- Right after a mapping the rights are granted exactly when the directory
entry the code found, if any, allowed them. -/
theorem MapEffect.rightsGranted_iff (effect : MapEffect layout before after v p flags)
    (present : hasFlag flags vmmFlagPresent = true) :
    RightsGranted layout after v flags ↔ DirectoryAllows layout before v flags := by
  have walked := effect.walk_self
  rw [present, if_pos rfl] at walked
  obtain ⟨rw, user⟩ := pte_rights walked
  unfold RightsGranted effectiveRw effectiveUser DirectoryAllows
  rw [rw, user]
  cases pde : (pdeAt layout before v).present with
  | true =>
      rw [effect.kept v pde]
      change ((pdeAt layout before v).rw && hasFlag flags vmmFlagRw) = hasFlag flags vmmFlagRw ∧
        ((pdeAt layout before v).user && hasFlag flags vmmFlagUser) = hasFlag flags vmmFlagUser ↔ _
      rw [Bool.and_eq_right_iff_imp, Bool.and_eq_right_iff_imp]
      exact ⟨fun h _ => h, fun h => h rfl⟩
  | false =>
      obtain ⟨rw', user⟩ := effect.created pde
      rw [rw', user]
      exact ⟨fun _ => nofun, fun _ => ⟨Bool.and_self _, Bool.and_self _⟩⟩

/-- A call that leaves a mapped page mapped keeps the directory entry of the page and its
mapping: `vmm_map_page` does not touch a page that is mapped, and an unmapping that touches it
unmaps it. -/
theorem CallEffect.entries_kept (effect : CallEffect layout before after) {reserved : Set ℕ}
    (tables : TablesSound layout before reserved)
    (mapped : walk layout before v ≠ none) (mapped' : walk layout after v ≠ none) :
    pdeAt layout after v = pdeAt layout before v ∧
      walk layout after v = walk layout before v := by
  obtain ⟨entry, found⟩ := Option.ne_none_iff_exists'.1 mapped
  have pde := (walk_eq_some_iff.1 found).1
  cases effect with
  | refused effect => exact ⟨effect.kept v pde, effect.walk v⟩
  | mapped effect =>
      refine ⟨effect.kept v pde, (effect.walk v).trans (if_neg fun related => ?_)⟩
      exact mapped ((tables.walk_related related).trans effect.unmapped)
  | unmapped effect =>
      refine ⟨effect.directory v, (effect.walk v).trans (if_neg fun related => ?_)⟩
      exact mapped' ((effect.walk v).trans (if_pos related))

end Rights

/-! ## Along runs -/

section Runs

variable {layout : BootLayout} {s s' : Vmm (List UInt32)} {v p flags : UInt32}

/-- While a page stays mapped its directory entry and its mapping stay as they are. -/
theorem RunsMapped.entries_kept (run : RunsMapped layout v s s') (inv : VmmInv layout s)
    (mapped : walk layout s.memory v ≠ none) :
    pdeAt layout s'.memory v = pdeAt layout s.memory v ∧
      walk layout s'.memory v = walk layout s.memory v := by
  have whole : VmmInv layout s' ∧ walk layout s'.memory v ≠ none ∧
      pdeAt layout s'.memory v = pdeAt layout s.memory v ∧
      walk layout s'.memory v = walk layout s.memory v := by
    induction run with
    | refl => exact ⟨inv, mapped, rfl, rfl⟩
    | tail _ last ih =>
        rcases ih with ⟨inv₁, mapped₁, pde₁, walk₁⟩
        rcases last with ⟨step, mapped₂⟩
        obtain ⟨inv₂, effect⟩ := inv₁.step directAccess_reaching
          ((exactAccess_narrows_direct layout).step scripted step)
        obtain ⟨pde₂, walk₂⟩ := effect.entries_kept inv₁.tables mapped₁ mapped₂
        exact ⟨inv₂, mapped₂, pde₂.trans pde₁, walk₂.trans walk₁⟩
  exact whole.2.2

/-- A mapping of the machine whose accesses to tables hit, as in the run before it, grants
exactly the rights its flags ask for, right afterwards and for as long as the page stays
mapped, if and only if the directory entry it found was absent or allowed them. -/
theorem vmmMapPage_grants_iff (memory : Memory) {answers : List UInt32}
    (usable : UsableAnswers layout answers)
    (run : ExactRun layout (Vmm.preinit layout memory answers) s)
    (present : hasFlag flags vmmFlagPresent = true)
    (call : vmmMapPage (exactPaging layout) v p flags s = .ok true s') :
    VmmRun (mmuPaging layout) (fun _ => True) (Vmm.preinit layout memory answers) s ∧
      vmmMapPage (mmuPaging layout) v p flags s = .ok true s' ∧
      ((∀ s'', RunsMapped layout v s' s'' → RightsGranted layout s''.memory v flags) ↔
        DirectoryAllows layout s.memory v flags) := by
  have inv := run.inv usable
  have direct := ((exactAccess_narrows_direct layout).mapPage scripted v p flags).of_ok call
  obtain ⟨inv', ⟨refused, -⟩ | ⟨-, -, effect⟩⟩ := inv.map directAccess_reaching direct
  · cases refused
  have granted := effect.rightsGranted_iff present
  refine ⟨run.machine, ((exactAccess_narrows_mmu layout).mapPage scripted v p flags).of_ok call,
    fun always => granted.1 (always s' .refl), fun allows s'' run' => ?_⟩
  have walked := effect.walk_self
  rw [present, if_pos rfl] at walked
  obtain ⟨pde, kept⟩ := run'.entries_kept inv' (Option.ne_none_iff_exists'.2 ⟨_, walked⟩)
  obtain ⟨rw, user⟩ := pte_rights walked
  obtain ⟨rw', user'⟩ := pte_rights (kept.trans walked)
  have now := granted.2 allows
  unfold RightsGranted effectiveRw effectiveUser at now ⊢
  rw [rw, user] at now
  rw [pde, rw', user']
  exact now

end Runs

/-- A first page of its 4 MiB. -/
theorem sample_grants_iff : ∃ s',
    vmmMapPage (mmuPaging sampleLayout) 0x400000 0x5000 3
        (Vmm.preinit sampleLayout zeroMemory [0x200000, 0x201000]) = .ok true s' ∧
      ((∀ s'', RunsMapped sampleLayout 0x400000 s' s'' →
          RightsGranted sampleLayout s''.memory 0x400000 3) ↔
        DirectoryAllows sampleLayout
          (Vmm.preinit sampleLayout zeroMemory [0x200000, 0x201000]).memory 0x400000 3) := by
  have call : Machine.value? (vmmMapPage (exactPaging sampleLayout) 0x400000 0x5000 3
      (Vmm.preinit sampleLayout zeroMemory [0x200000, 0x201000])) = some true := by
    decide +kernel
  exact ⟨_, (vmmMapPage_grants_iff zeroMemory sampleAnswers_usable .refl (by decide)
    (Machine.eq_ok_of_value call)).2⟩

/-- Two pages of one 4 MiB are mapped, the first read-only and the second
writable, with kernel accesses translated by the tables.  The second mapping
returns true, and the page is not writable. -/
theorem writableMapping_not_writable :
    let paging : Paging (List UInt32) := ⟨sampleLayout, mmuAccess sampleLayout, scripted⟩
    let mapped := (do
      let first ← vmmMapPage paging 0x400000 0x5000 vmmFlagPresent
      let second ← vmmMapPage paging 0x401000 0x6000 (vmmFlagRw ||| vmmFlagPresent)
      pure (first, second)) (Vmm.preinit sampleLayout zeroMemory [0x200000])
    Machine.value? mapped = some (true, true) ∧
      effectiveRw sampleLayout (Machine.final mapped).memory 0x401000 = false ∧
      ¬ RightsGranted sampleLayout (Machine.final mapped).memory 0x401000
        (vmmFlagRw ||| vmmFlagPresent) := by
  intro paging mapped
  have notWritable : effectiveRw sampleLayout (Machine.final mapped).memory 0x401000 = false := by
    decide +kernel
  refine ⟨by decide +kernel, notWritable, fun granted => ?_⟩
  have wanted := granted.1
  rw [notWritable] at wanted
  revert wanted
  decide

end ArkoiOs
