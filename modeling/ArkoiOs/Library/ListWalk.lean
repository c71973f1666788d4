import ArkoiOs.Library.LinkedArena
import ArkoiOs.Library.Machine

/-!
# Walking a linked list

Code walks the list at an address by its links, with an accumulator that it takes from node to
node.  `walkList_ends` is the rule for such a walk: what the visit of one node adds to an
invariant, the walk adds for all of them.

`without` is a memory that misses the bytes of a window.  What stands in it stands apart from
the window, and no write to the window changes it, so a list in it outlives them.
-/

namespace ByteMemory

variable {ι : Type} {memory memory' : ByteMemory ι} {p q : Pointer ι} {bytes : List UInt8} {n : ℕ}

/-- Every byte has an address of 32 bits. -/
def Addressable (memory : ByteMemory ι) : Prop :=
  ∀ p, (memory.byte p).isSome → p.offset < 2 ^ 32

theorem Addressable.holds (addressable : memory.Addressable) (h : memory.Holds p bytes) :
    bytes = [] ∨ p.offset + bytes.length ≤ 2 ^ 32 := by
  rcases Nat.eq_zero_or_pos bytes.length with empty | positive
  · exact Or.inl (List.length_eq_zero_iff.1 empty)
  · have last := addressable _ (h.room (bytes.length - 1) (by omega))
    rw [Pointer.advance_offset] at last
    exact Or.inr (by omega)

/-! ## A window left out -/

variable [DecidableEq ι]

theorem Addressable.only (addressable : memory.Addressable) {windows : List (Pointer ι × ℕ)} :
    (memory.only windows).Addressable := by
  intro p there
  obtain ⟨b, there⟩ := Option.isSome_iff_exists.1 there
  exact addressable p (byte_of_only there ▸ rfl)

/-- The memory without the bytes of a window. -/
def without (memory : ByteMemory ι) (p : Pointer ι) (n : ℕ) : ByteMemory ι :=
  fun object offset =>
    if object = p.object ∧ p.offset ≤ offset ∧ offset < p.offset + n then none
    else memory object offset

theorem byte_without_of_apart (apart : q.Apart 1 p n) :
    (memory.without p n).byte q = memory.byte q := by
  refine if_neg ?_
  rintro ⟨object, lower, upper⟩
  rcases apart with other | before | behind
  · exact other object
  · omega
  · omega

theorem byte_without_of_inside {i : ℕ} (inside : i < n) :
    (memory.without p n).byte (p.advance i) = none :=
  if_pos ⟨rfl, Nat.le_add_right _ _, Nat.add_lt_add_left inside _⟩

/-- What is there without the window is there with it. -/
theorem byte_of_without {b : UInt8} (there : (memory.without p n).byte q = some b) :
    memory.byte q = some b := by
  rcases Pointer.inside_or_apart p q n with ⟨i, inside, rfl⟩ | apart
  · rw [byte_without_of_inside inside] at there
    cases there
  · rw [byte_without_of_apart apart] at there
    exact there

theorem Addressable.without (addressable : memory.Addressable) :
    (memory.without p n).Addressable := by
  intro q there
  obtain ⟨b, byte⟩ := Option.isSome_iff_exists.1 there
  exact addressable q (Option.isSome_iff_exists.2 ⟨b, byte_of_without byte⟩)

theorem Holds.of_without (h : (memory.without p n).Holds q bytes) : memory.Holds q bytes := by
  intro i inside
  have there := h i inside
  rw [List.getElem?_eq_getElem inside] at there ⊢
  exact byte_of_without there

theorem Holds.without (h : memory.Holds q bytes) (apart : q.Apart bytes.length p n) :
    (memory.without p n).Holds q bytes := by
  intro i inside
  have byte : (q.advance i).Apart 1 p n :=
    apart.part (j := 0) inside (Nat.zero_add n).le
  rw [byte_without_of_apart byte]
  exact h i inside

theorem Room.without {m : ℕ} (h : memory.Room q m) (apart : q.Apart m p n) :
    (memory.without p n).Room q m := by
  obtain ⟨bytes, rfl, holds⟩ := h.exists_holds
  exact (holds.without apart).room

/-- What stands in the memory without the window is apart from the window. -/
theorem Holds.apart_of_without (h : (memory.without p n).Holds q bytes)
    (nonempty : 0 < bytes.length) (window : 0 < n) : q.Apart bytes.length p n := by
  have missing : ∀ i < bytes.length, ∀ j < n, q.advance i ≠ p.advance j := by
    intro i inside j inside' same
    have there := h.room i inside
    rw [same, byte_without_of_inside inside'] at there
    cases there
  by_contra meet
  unfold Pointer.Apart at meet
  simp only [not_or, not_not, Nat.not_le] at meet
  obtain ⟨object, before, behind⟩ := meet
  -- the later of the two starts lies in both
  rcases Nat.le_total q.offset p.offset with first | first
  · refine missing (p.offset - q.offset) (by omega) 0 window ?_
    rw [Pointer.advance_zero]
    exact (Pointer.eq_advance object.symm first).symm
  · refine missing 0 nonempty (q.offset - p.offset) (by omega) ?_
    rw [Pointer.advance_zero]
    exact Pointer.eq_advance object first

/-- Memories that differ in the window only are the same without it. -/
theorem without_congr (same : ∀ q : Pointer ι, q.Apart 1 p n → memory'.byte q = memory.byte q) :
    memory'.without p n = memory.without p n := by
  refine ext_byte fun q => ?_
  rcases Pointer.inside_or_apart p q n with ⟨i, inside, rfl⟩ | apart
  · rw [byte_without_of_inside inside, byte_without_of_inside inside]
  · rw [byte_without_of_apart apart, byte_without_of_apart apart, same q apart]

end ByteMemory

/-- What cannot fail returns. -/
theorem Machine.Ends.returns {ε σ α : Type} {Q : α → σ → Prop} {r : EStateM.Result ε σ α}
    (h : Machine.Ends Q (fun _ => False) r) : ∃ a s, r = .ok a s ∧ Q a s := by
  cases r with
  | ok a s => exact ⟨a, s, rfl, h⟩
  | error e s => exact h.elim

/-! ## The walk -/

/-- Visit the nodes of the list at an address, each with its link at the offset:
`while (current != NULL) { …; current = current->next; }`. -/
def walkList {ε σ α : Type} (load : UInt32 → EStateM ε σ UInt32) (endless : ε)
    (nextOffset : UInt32) (visit : α → UInt32 → EStateM ε σ α) : ℕ → α → UInt32 → EStateM ε σ α
  | 0, _, _ => throw endless
  | fuel + 1, a, current =>
      if current ≠ 0 then do
        let a ← visit a current
        let next ← load (current + nextOffset)
        walkList load endless nextOffset visit fuel a next
      else pure a

section Walk

open ByteMemory Piece

variable {ι ε σ α β : Type} {memory : ByteMemory ι} {arena : ι}
  {load : UInt32 → EStateM ε σ UInt32} {endless : ε} {nextOffset : UInt32}
  {visit : α → UInt32 → EStateM ε σ α} {R : List UInt8 → β → Prop}
  {Inv : List β → α → σ → Prop} {E : ε → Prop} {items : List β}

/-- A visit of a node that goes on with the invariant for the items of the nodes in front of
it ends with the one that has its own item as well. -/
def Visits (memory : ByteMemory ι) (arena : ι) (items : List β)
    (visit : α → UInt32 → EStateM ε σ α) (R : List UInt8 → β → Prop)
    (Inv : List β → α → σ → Prop) (E : ε → Prop) : Prop :=
  ∀ (content : List UInt8) (item : β) (front back : List β) (a : α) (s : σ) (current : UInt32),
    front ++ item :: back = items → R content item →
      memory.Holds ⟨arena, current.toNat⟩ content → Inv front a s →
        Machine.Ends (fun a' s' => Inv (front ++ [item]) a' s') E (visit a current s)

/-- Wherever the invariant holds, a load returns the link in memory and changes nothing. -/
def Loads (memory : ByteMemory ι) (arena : ι) (load : UInt32 → EStateM ε σ UInt32)
    (Inv : List β → α → σ → Prop) : Prop :=
  ∀ (front : List β) (a : α) (s : σ) (address value : UInt32), Inv front a s →
    memory.Holds ⟨arena, address.toNat⟩ (link value.toNat) → load address s = .ok value s

/-- From any node on, the walk ends with the invariant for the items of all nodes. -/
theorem walkList_ends_from (addressable : memory.Addressable) (loads : Loads memory arena load Inv)
    (visits : Visits memory arena items visit R Inv E) {address fuel : ℕ}
    {contents : List (List UInt8)} {front back : List β} {a : α} {s : σ}
    (list : memory.LinkedList arena address contents) (bound : address < 256 ^ 4)
    (related : List.Forall₂ R contents back) (whole : front ++ back = items)
    (wide : ∀ content ∈ contents, content.length = nextOffset.toNat)
    (enough : contents.length < fuel) (start : Inv front a s) :
    Machine.Ends (Inv items) E
      (walkList load endless nextOffset visit fuel a (UInt32.ofNat address) s) := by
  induction list generalizing fuel back front a s with
  | nil =>
      cases related
      rw [List.append_nil] at whole
      cases fuel with
      | zero => exact absurd enough (Nat.not_lt_zero _)
      | succ fuel =>
          have stop : ¬ UInt32.ofNat 0 ≠ 0 := not_not.2 rfl
          rw [walkList, if_neg stop, ← whole]
          exact start
  | @cons address next content contents nonzero nextBound holds rest ih =>
      cases related with
      | @cons _ item _ back first others =>
      cases fuel with
      | zero => exact absurd enough (Nat.not_lt_zero _)
      | succ fuel =>
          have word : (UInt32.ofNat address).toNat = address := Nat.mod_eq_of_lt bound
          have more : UInt32.ofNat address ≠ 0 := by
            intro zero
            rw [zero] at word
            exact nonzero word.symm
          have nonempty : content ++ link next ≠ [] := by
            intro empty
            have length := congrArg List.length empty
            rw [List.length_append, length_link] at length
            cases length
          have below : address + (content ++ link next).length ≤ 2 ^ 32 :=
            (addressable.holds holds).resolve_left nonempty
          rw [List.length_append, length_link] at below
          have width := wide content List.mem_cons_self
          obtain ⟨fields, last⟩ := holds_append.1 holds
          have slot : (UInt32.ofNat address + nextOffset).toNat = address + content.length := by
            rw [UInt32.toNat_add, word, ← width]
            exact Nat.mod_eq_of_lt (by omega)
          have here : memory.Holds ⟨arena, (UInt32.ofNat address).toNat⟩ content := by
            rw [word]
            exact fields
          have link_ : memory.Holds ⟨arena, (UInt32.ofNat address + nextOffset).toNat⟩
              (link (UInt32.ofNat next).toNat) := by
            rw [slot, UInt32.toNat_ofNat_of_lt' nextBound]
            exact last
          rw [walkList, if_pos more]
          refine (visits _ _ _ _ _ _ _ whole first here start).bind fun a' s' visited => ?_
          rw [Machine.bind_of_ok (loads _ _ _ _ _ visited link_)]
          rw [List.append_cons] at whole
          exact ih nextBound others whole (fun c mem => wide c (List.mem_cons_of_mem _ mem))
            (Nat.lt_of_succ_lt_succ enough) visited

/-- The walk ends with the invariant for the items of all nodes. -/
theorem walkList_ends (addressable : memory.Addressable) (loads : Loads memory arena load Inv)
    (visits : Visits memory arena items visit R Inv E) {address fuel : ℕ}
    {contents : List (List UInt8)} {a : α} {s : σ}
    (list : memory.LinkedList arena address contents) (bound : address < 256 ^ 4)
    (related : List.Forall₂ R contents items)
    (wide : ∀ content ∈ contents, content.length = nextOffset.toNat)
    (enough : contents.length < fuel) (start : Inv [] a s) :
    Machine.Ends (Inv items) E
      (walkList load endless nextOffset visit fuel a (UInt32.ofNat address) s) :=
  walkList_ends_from addressable loads visits list bound related (List.nil_append items) wide
    enough start

end Walk
