import ArkoiOs.Library.ByteMemory
import ArkoiOs.Library.LittleEndian

/-!
# Linked lists in an arena

An arena is filled from one end with pieces, one behind the other.  A piece is
loose, or it is a node of one of several singly linked lists: its content is
followed by the address of the next node of its list, or by zero.  A list starts
in a slot outside the arena and grows at its end: `lastSlot` is where the zero
stands that a new node is linked to.

`image` are the bytes of the pieces, and `Holds.thread` says what linking one
more node does to them.
-/

/-- A piece of the arena. -/
inductive Piece (κ : Type)
  | node (list : κ) (content : List UInt8)
  | loose (bytes : List UInt8)

namespace Piece

variable {κ : Type}

/-- An address as it is stored. -/
def link (address : ℕ) : List UInt8 := LittleEndian.encode 4 address

@[simp] theorem length_link (address : ℕ) : (link address).length = 4 :=
  LittleEndian.length_encode 4 address

theorem link_inj {a b : ℕ} (ha : a < 256 ^ 4) (hb : b < 256 ^ 4) (same : link a = link b) : a = b :=
  LittleEndian.encode_inj ha hb same

/-- The bytes a piece takes. -/
def size : Piece κ → ℕ
  | node _ content => content.length + 4
  | loose bytes => bytes.length

/-- The bytes the pieces take. -/
def extent (pieces : List (Piece κ)) : ℕ := (pieces.map size).sum

@[simp] theorem extent_nil : extent ([] : List (Piece κ)) = 0 := rfl

@[simp] theorem extent_cons (piece : Piece κ) (pieces : List (Piece κ)) :
    extent (piece :: pieces) = piece.size + extent pieces := rfl

@[simp] theorem extent_append (front back : List (Piece κ)) :
    extent (front ++ back) = extent front + extent back := by
  rw [extent, List.map_append, List.sum_append]
  rfl

variable [DecidableEq κ]

/-! ## The bytes -/

/-- The address of the first node of the list among pieces from `start` on, or
zero. -/
def next (list : κ) : ℕ → List (Piece κ) → ℕ
  | _, [] => 0
  | start, node list' content :: pieces =>
      if list' = list then start else next list (start + (content.length + 4)) pieces
  | start, loose bytes :: pieces => next list (start + bytes.length) pieces

/-- The bytes of the pieces from `start` on when `tail` comes behind them. -/
def image (tail : List (Piece κ)) : ℕ → List (Piece κ) → List UInt8
  | _, [] => []
  | start, node list content :: pieces =>
      (content ++ link (next list (start + (content.length + 4)) (pieces ++ tail))) ++
        image tail (start + (content.length + 4)) pieces
  | start, loose bytes :: pieces => bytes ++ image tail (start + bytes.length) pieces

/-- Where the zero stands that ends the list, when `slot` is where it starts. -/
def lastSlot (list : κ) : ℕ → ℕ → List (Piece κ) → ℕ
  | slot, _, [] => slot
  | slot, start, node list' content :: pieces =>
      lastSlot list (if list' = list then start + content.length else slot)
        (start + (content.length + 4)) pieces
  | slot, start, loose bytes :: pieces => lastSlot list slot (start + bytes.length) pieces

/-- The contents of the nodes of the list. -/
def contents (list : κ) : List (Piece κ) → List (List UInt8)
  | [] => []
  | node list' content :: pieces =>
      if list' = list then content :: contents list pieces else contents list pieces
  | loose _ :: pieces => contents list pieces

variable {list : κ} {tail : List (Piece κ)}

theorem length_image (start : ℕ) (pieces : List (Piece κ)) :
    (image tail start pieces).length = extent pieces := by
  induction pieces generalizing start with
  | nil => rfl
  | cons piece pieces ih =>
      cases piece with
      | node list content =>
          rw [image, List.length_append, List.length_append, length_link, ih, extent_cons, size]
      | loose bytes => rw [image, List.length_append, ih, extent_cons, size]

theorem image_append (start : ℕ) (front back : List (Piece κ)) :
    image tail start (front ++ back) =
      image (back ++ tail) start front ++ image tail (start + extent front) back := by
  induction front generalizing start with
  | nil => rfl
  | cons piece front ih =>
      cases piece with
      | node list content =>
          rw [List.cons_append, image, image, ih, extent_cons, size, ← List.append_assoc,
            ← List.append_assoc, List.append_assoc front, Nat.add_assoc start]
      | loose bytes =>
          rw [List.cons_append, image, image, ih, extent_cons, size, List.append_assoc,
            Nat.add_assoc start]

/-- Loose pieces and nodes of other lists behind do not change the next node. -/
theorem next_append_of_none (start : ℕ) (pieces : List (Piece κ)) (none : contents list tail = []) :
    next list start (pieces ++ tail) = next list start pieces := by
  have last : ∀ start, next list start tail = 0 := by
    induction tail with
    | nil => exact fun _ => rfl
    | cons piece tail ih =>
        intro start
        cases piece with
        | node list' content =>
            rw [contents] at none
            rw [next]
            split at none
            · cases none
            · rename_i other
              rw [if_neg other]
              exact ih none _
        | loose bytes => exact ih none _
  induction pieces generalizing start with
  | nil => exact last start
  | cons piece pieces ih =>
      cases piece with
      | node list' content => rw [List.cons_append, next, next, ih]
      | loose bytes => rw [List.cons_append, next, next, ih]

theorem image_loose (tail : List (Piece κ)) (start : ℕ) (bytes : List UInt8) :
    image tail start [.loose bytes] = bytes := by
  rw [image, image, List.append_nil]

theorem image_node (start : ℕ) (content : List UInt8) :
    image [] start [.node list content] = content ++ link 0 := by
  rw [image, image, List.append_nil]
  rfl

/-- What holds no node behind changes no byte. -/
theorem image_of_none (start : ℕ) (pieces : List (Piece κ))
    (none : ∀ list, contents list tail = []) :
    image tail start pieces = image [] start pieces := by
  induction pieces generalizing start with
  | nil => rfl
  | cons piece pieces ih =>
      cases piece with
      | node list content =>
          rw [image, image, ih, next_append_of_none _ _ (none list), List.append_nil]
      | loose bytes => rw [image, image, ih]

theorem contents_append (front back : List (Piece κ)) :
    contents list (front ++ back) = contents list front ++ contents list back := by
  induction front with
  | nil => rfl
  | cons piece front ih =>
      cases piece with
      | node list' content =>
          rw [List.cons_append, contents, contents, ih]
          split <;> rfl
      | loose bytes => exact ih

variable (list) in
/-- Nodes of the list are in the arena. -/
theorem next_le (start : ℕ) (pieces : List (Piece κ)) :
    next list start pieces ≤ start + extent pieces := by
  induction pieces generalizing start with
  | nil => exact Nat.zero_le _
  | cons piece pieces ih =>
      cases piece with
      | node list' content =>
          rw [next, extent_cons, size]
          split
          · exact Nat.le_add_right _ _
          · have rest := ih (start + (content.length + 4))
            omega
      | loose bytes =>
          rw [next, extent_cons, size, ← Nat.add_assoc]
          exact ih _

variable (list) in
/-- The end of a list is where it starts or in one of the pieces. -/
theorem lastSlot_cases (slot start : ℕ) (pieces : List (Piece κ)) :
    lastSlot list slot start pieces = slot ∨ (start ≤ lastSlot list slot start pieces ∧
      lastSlot list slot start pieces + 4 ≤ start + extent pieces) := by
  induction pieces generalizing slot start with
  | nil => exact Or.inl rfl
  | cons piece pieces ih =>
      cases piece with
      | node list' content =>
          have rest := ih (if list' = list then start + content.length else slot)
            (start + (content.length + 4))
          rw [lastSlot, extent_cons, size]
          rcases rest with same | inside
          · rw [same]
            split
            · exact Or.inr ⟨Nat.le_add_right _ _, by omega⟩
            · exact Or.inl rfl
          · exact Or.inr ⟨by omega, by omega⟩
      | loose bytes =>
          rw [lastSlot, extent_cons, size]
          rcases ih slot (start + bytes.length) with same | inside
          · exact Or.inl same
          · exact Or.inr ⟨by omega, by omega⟩

end Piece

namespace ByteMemory

open Piece

variable {ι κ : Type} [DecidableEq ι] [DecidableEq κ] {memory : ByteMemory ι} {arena : ι}
  {list : κ} {content : List UInt8} {slot start address : ℕ} {pieces tail : List (Piece κ)}

/-! ## Linking a node -/

/-- Bytes that stay when the end of a list is overwritten: they are apart from
the slot and in front of the pieces. -/
theorem Holds.overwrite_lastSlot {bytes : List UInt8} {position : ℕ}
    (holds : memory.Holds ⟨arena, position⟩ bytes)
    (slotApart : position + bytes.length ≤ slot ∨ slot + 4 ≤ position)
    (apart : position + bytes.length ≤ start ∨ start + extent pieces ≤ position) :
    (memory.overwrite ⟨arena, lastSlot list slot start pieces⟩ (link address)).Holds
      ⟨arena, position⟩ bytes := by
  apply holds.overwrite
  rw [length_link]
  rcases lastSlot_cases list slot start pieces with same | inside
  · rw [same]
    exact Or.inr slotApart
  · exact Or.inr (apart.imp (fun before => before.trans inside.1) fun behind =>
      inside.2.trans behind)

/-- Linking the node that comes behind the pieces: its address goes where the
zero of its list stands. -/
theorem Holds.thread (content : List UInt8)
    (image_ : memory.Holds ⟨arena, start⟩ (image [] start pieces))
    (head : memory.Holds ⟨arena, slot⟩ (link (next list start pieces)))
    (apart : slot + 4 ≤ start ∨ start + extent pieces ≤ slot) :
    (memory.overwrite ⟨arena, lastSlot list slot start pieces⟩
        (link (start + extent pieces))).Holds ⟨arena, start⟩
        (image [.node list content] start pieces) ∧
      (memory.overwrite ⟨arena, lastSlot list slot start pieces⟩
        (link (start + extent pieces))).Holds ⟨arena, slot⟩
        (link (next list start (pieces ++ [.node list content]))) := by
  induction pieces generalizing slot start with
  | nil =>
      refine ⟨holds_nil _ _, ?_⟩
      rw [List.nil_append, next, if_pos rfl]
      exact holds_overwrite _ _ _
  | cons piece pieces ih =>
      cases piece with
      | node list' content' =>
          have total : start + (content'.length + 4) + extent pieces =
              start + extent (.node list' content' :: pieces) := Nat.add_assoc _ _ _
          rw [image] at image_
          rw [next] at head
          rw [← total] at apart ⊢
          obtain ⟨whole, behind⟩ := holds_append.1 image_
          obtain ⟨first, last⟩ := holds_append.1 whole
          rw [List.length_append, length_link] at behind
          have rest : memory.Holds ⟨arena, start + (content'.length + 4)⟩
              (image [] (start + (content'.length + 4)) pieces) := behind
          rw [image, lastSlot, List.cons_append, next, holds_append, holds_append,
            List.length_append, length_link]
          by_cases same : list' = list
          · -- the list goes on in this node
            subst same
            rw [if_pos rfl] at head ⊢
            rw [List.append_nil] at last
            have last : memory.Holds ⟨arena, start + content'.length⟩
                (link (next list' (start + (content'.length + 4)) pieces)) := last
            obtain ⟨rest', last'⟩ := ih rest last (Or.inl (Nat.add_assoc _ _ _).le)
            refine ⟨⟨⟨?_, last'⟩, rest'⟩, ?_⟩
            · exact first.overwrite_lastSlot (Or.inl le_rfl) (Or.inl (by omega))
            · rw [if_pos rfl]
              apply head.overwrite_lastSlot <;> rw [length_link] <;> omega
          · rw [if_neg same] at head ⊢
            obtain ⟨rest', head'⟩ := ih rest head (by omega)
            have other : contents list' [.node list content] = [] := if_neg (Ne.symm same)
            rw [if_neg same, next_append_of_none _ _ other, ← holds_append]
            rw [List.append_nil] at whole
            refine ⟨⟨?_, rest'⟩, head'⟩
            apply whole.overwrite_lastSlot <;> rw [List.length_append, length_link] <;> omega
      | loose bytes =>
          have total : start + bytes.length + extent pieces =
              start + extent (.loose (κ := κ) bytes :: pieces) := Nat.add_assoc _ _ _
          rw [image] at image_
          rw [← total] at apart ⊢
          obtain ⟨first, behind⟩ := holds_append.1 image_
          have rest : memory.Holds ⟨arena, start + bytes.length⟩
              (image [] (start + bytes.length) pieces) := behind
          rw [image, lastSlot, List.cons_append, next, holds_append]
          obtain ⟨rest', head'⟩ := ih rest head (by omega)
          refine ⟨⟨?_, rest'⟩, head'⟩
          apply first.overwrite_lastSlot <;> omega

/-! ## Reading a list -/

/-- The list whose first node is at the address, zero for none: each node holds
its content and the address of the next node. -/
inductive LinkedList (memory : ByteMemory ι) (arena : ι) : ℕ → List (List UInt8) → Prop
  | nil : LinkedList memory arena 0 []
  | cons {address next : ℕ} {content : List UInt8} {contents : List (List UInt8)} :
      address ≠ 0 → next < 256 ^ 4 → memory.Holds ⟨arena, address⟩ (content ++ link next) →
      LinkedList memory arena next contents →
      LinkedList memory arena address (content :: contents)

omit [DecidableEq ι] in
/-- The nodes of a list in an arena are linked. -/
theorem Holds.linkedList (image_ : memory.Holds ⟨arena, start⟩ (image [] start pieces))
    (positive : 0 < start) (bound : start + extent pieces < 256 ^ 4) :
    LinkedList memory arena (next list start pieces) (contents list pieces) := by
  induction pieces generalizing start with
  | nil => exact .nil
  | cons piece pieces ih =>
      cases piece with
      | node list' content =>
          rw [extent_cons, size, ← Nat.add_assoc] at bound
          rw [image, holds_append, List.length_append, length_link, List.append_nil] at image_
          have rest := ih image_.2 (by omega) bound
          rw [next, contents]
          split
          · rename_i same
            subst same
            exact .cons (Nat.ne_of_gt positive) ((next_le _ _ _).trans_lt bound) image_.1 rest
          · exact rest
      | loose bytes =>
          rw [extent_cons, size, ← Nat.add_assoc] at bound
          rw [image, holds_append] at image_
          exact ih image_.2 (by omega) bound

omit [DecidableEq ι] in
/-- A list that is not empty ends with a zero in memory. -/
theorem LinkedList.exists_end {contents : List (List UInt8)}
    (h : LinkedList memory arena address contents) :
    address = 0 ∨ ∃ position, memory.Holds ⟨arena, position⟩ (link 0) := by
  induction h with
  | nil => exact Or.inl rfl
  | cons _ _ holds _ ih =>
      rcases ih with rfl | last
      · exact Or.inr ⟨_, (holds_append.1 holds).2⟩
      · exact Or.inr last

omit [DecidableEq ι] in
/-- Memory holds one list of nodes of a given size from an address on. -/
theorem LinkedList.unique {width : ℕ} {contents contents' : List (List UInt8)}
    (h : LinkedList memory arena address contents) (h' : LinkedList memory arena address contents')
    (wide : ∀ content ∈ contents, content.length = width)
    (wide' : ∀ content ∈ contents', content.length = width) : contents = contents' := by
  induction h generalizing contents' with
  | nil =>
      cases h' with
      | nil => rfl
      | cons nonzero _ _ _ => exact absurd rfl nonzero
  | cons nonzero bound holds _ ih =>
      cases h' with
      | nil => exact absurd rfl nonzero
      | cons _ bound' holds' rest' =>
          have same := (wide _ List.mem_cons_self).trans (wide' _ List.mem_cons_self).symm
          have node := holds.unique holds' (by
            rw [List.length_append, List.length_append, length_link, length_link, same])
          obtain ⟨content, next⟩ := List.append_inj node same
          rw [← link_inj bound bound' next] at rest'
          rw [content, ih rest' (fun content' mem => wide content' (List.mem_cons_of_mem _ mem))
            fun content' mem => wide' content' (List.mem_cons_of_mem _ mem)]

end ByteMemory
