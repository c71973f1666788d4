import ArkoiOs.Library.LinkedArena
import ArkoiOs.Multiboot2.Parser

/-!
# What the accesses of the parser do

Loads return what memory holds and stores overwrite it.  The walk over slots
ends where the list ends, and `copyString` leaves the string in fresh memory and
its address in the field.
-/

namespace ArkoiOs

open Piece (link)

/-! ## Addresses -/

theorem pointerTo_of_toNat {address : UInt32} {n : ℕ} (same : address.toNat = n) :
    pointerTo address = ⟨(), n⟩ :=
  congrArg (Pointer.mk ()) same

theorem nullable_of_pos {address : UInt32} {n : ℕ} (same : address.toNat = n) (positive : 0 < n) :
    nullable address = some ⟨(), n⟩ := by
  have nonzero : address ≠ 0 := by
    rintro rfl
    exact absurd same (Nat.ne_of_lt positive)
  rw [nullable, if_neg nonzero, pointerTo_of_toNat same]

theorem length_bytes32 (value : UInt32) : (bytes32 value).length = 4 :=
  LittleEndian.length_encode 4 _

theorem length_bytes64 (value : UInt64) : (bytes64 value).length = 8 :=
  LittleEndian.length_encode 8 _

/-- The bytes of an address are its link. -/
theorem bytes32_eq_link {value : UInt32} {n : ℕ} (same : value.toNat = n) :
    bytes32 value = link n :=
  congrArg (LittleEndian.encode 4) same

/-! ## Loads and stores -/

section Accesses

variable {s : BootState} {address value : UInt32} {n : ℕ}

theorem onMemory_of_ok {α : Type} {x : KernelM (ByteMemory Unit) α} {a : α}
    {memory : ByteMemory Unit} (h : x s.memory = .ok a memory) :
    onMemory x s = .ok a { s with memory := memory } :=
  Machine.zoom_of_ok rfl h

theorem onMemory_ends {α : Type} {x : KernelM (ByteMemory Unit) α} {E : Fault → Prop}
    {Q : α → ByteMemory Unit → Prop} (h : Machine.Ends Q E (x s.memory)) :
    Machine.Ends (fun a s' => ∃ memory, s' = { s with memory := memory } ∧ Q a memory) E
      (onMemory x s) :=
  Machine.Ends.zoom rfl h

theorem load32_of_holds (same : address.toNat = n)
    (holds : s.memory.Holds ⟨(), n⟩ (bytes32 value)) : load32 address s = .ok value s := by
  have read := loadBytes_of_holds holds
  rw [length_bytes32, ← pointerTo_of_toNat same] at read
  unfold load32
  rw [Machine.bind_of_ok (onMemory_of_ok read), bytes32,
    LittleEndian.decode_encode_of_lt value.toNat_lt, UInt32.ofNat_toNat]
  rfl

theorem load64_of_holds {value : UInt64} (same : address.toNat = n)
    (holds : s.memory.Holds ⟨(), n⟩ (bytes64 value)) : load64 address s = .ok value s := by
  have read := loadBytes_of_holds holds
  rw [length_bytes64, ← pointerTo_of_toNat same] at read
  unfold load64
  rw [Machine.bind_of_ok (onMemory_of_ok read), bytes64,
    LittleEndian.decode_encode_of_lt value.toNat_lt, UInt64.ofNat_toNat]
  rfl

theorem storeBytes_at {bytes : List UInt8} (same : address.toNat = n)
    (room : s.memory.Room ⟨(), n⟩ bytes.length) :
    onMemory (storeBytes bytes (pointerTo address)) s =
      .ok () { s with memory := s.memory.overwrite ⟨(), n⟩ bytes } := by
  rw [pointerTo_of_toNat same]
  exact onMemory_of_ok (storeBytes_of_room room)

theorem store32_of_room (value : UInt32) (same : address.toNat = n)
    (room : s.memory.Room ⟨(), n⟩ 4) :
    store32 address value s =
      .ok () { s with memory := s.memory.overwrite ⟨(), n⟩ (bytes32 value) } :=
  storeBytes_at same ((length_bytes32 value).symm ▸ room)

theorem store64_of_room (value : UInt64) (same : address.toNat = n)
    (room : s.memory.Room ⟨(), n⟩ 8) :
    store64 address value s =
      .ok () { s with memory := s.memory.overwrite ⟨(), n⟩ (bytes64 value) } :=
  storeBytes_at same ((length_bytes64 value).symm ▸ room)

theorem storeByte_at (byte : UInt8) (same : address.toNat = n)
    (room : s.memory.Room ⟨(), n⟩ 1) :
    onMemory (storeByte (pointerTo address) byte) s =
      .ok () { s with memory := s.memory.overwrite ⟨(), n⟩ [byte] } := by
  rw [pointerTo_of_toNat same]
  exact onMemory_of_ok (storeByte_of_room (ByteMemory.room_one.1 room) byte)

/-- Writing the next field behind the fields that are written. -/
theorem storeBytes_behind (memory : ByteMemory Unit) (emm : Emm) (front : List UInt8)
    {bytes : List UInt8} (same : address.toNat = n + front.length)
    (room : memory.Room ⟨(), n⟩ (front.length + bytes.length)) :
    onMemory (storeBytes bytes (pointerTo address)) ⟨memory.overwrite ⟨(), n⟩ front, emm⟩ =
      .ok () ⟨memory.overwrite ⟨(), n⟩ (front ++ bytes), emm⟩ := by
  have frontRoom : memory.Room ⟨(), n⟩ front.length :=
    room.part (i := 0) ((Nat.zero_add _).trans_le (Nat.le_add_right _ _))
  have here : (memory.overwrite ⟨(), n⟩ front).Room ⟨(), n + front.length⟩ bytes.length :=
    (ByteMemory.room_overwrite frontRoom).2 (room.part le_rfl)
  rw [← ByteMemory.overwrite_append]
  exact storeBytes_at (s := ⟨memory.overwrite ⟨(), n⟩ front, emm⟩) same here

theorem store32_behind (memory : ByteMemory Unit) (emm : Emm) (front : List UInt8)
    (value : UInt32) (same : address.toNat = n + front.length)
    (room : memory.Room ⟨(), n⟩ (front.length + 4)) :
    store32 address value ⟨memory.overwrite ⟨(), n⟩ front, emm⟩ =
      .ok () ⟨memory.overwrite ⟨(), n⟩ (front ++ bytes32 value), emm⟩ :=
  storeBytes_behind memory emm front same ((length_bytes32 value).symm ▸ room)

theorem store64_behind (memory : ByteMemory Unit) (emm : Emm) (front : List UInt8)
    (value : UInt64) (same : address.toNat = n + front.length)
    (room : memory.Room ⟨(), n⟩ (front.length + 8)) :
    store64 address value ⟨memory.overwrite ⟨(), n⟩ front, emm⟩ =
      .ok () ⟨memory.overwrite ⟨(), n⟩ (front ++ bytes64 value), emm⟩ :=
  storeBytes_behind memory emm front same ((length_bytes64 value).symm ▸ room)

/-- An allocation of the early heap with room for it. -/
theorem onEarlyHeap_of_room {size : UInt32} {cursor amount : ℕ} (here : s.emm.cursor.toNat = cursor)
    (bytes : size.toNat = amount) (room : cursor + amount ≤ s.emm.end_.toNat) :
    ∃ emm, onEarlyHeap (emmAlloc size) s = .ok s.emm.cursor { s with emm := emm } ∧
      emm.cursor.toNat = cursor + amount ∧ emm.end_ = s.emm.end_ := by
  have moved : (s.emm.cursor + size).toNat = cursor + amount :=
    toNat_add_of_lt here bytes (room.trans_lt s.emm.end_.toNat_lt)
  have fits : s.emm.cursor + size ≤ s.emm.end_ := by
    rw [UInt32.le_iff_toNat_le, moved]
    exact room
  exact ⟨_, Machine.zoom_of_ok rfl (emmAlloc_of_room fits), moved, rfl⟩

end Accesses

/-! ## The walk over slots -/

/-- The nodes of the list have their link at the offset. -/
def LinksAt {κ : Type} (list : κ) (offset : ℕ) (pieces : List (Piece κ)) : Prop :=
  ∀ content, .node list content ∈ pieces → content.length = offset

open Piece in
/-- The walk ends at the slot that ends the list. -/
theorem walkSlots_eq {κ : Type} [DecidableEq κ] {s : BootState} {list : κ}
    {nextOffset slot : UInt32} {start fuel : ℕ} {pieces : List (Piece κ)}
    (image_ : s.memory.Holds ⟨(), start⟩ (image [] start pieces))
    (head : s.memory.Holds ⟨(), slot.toNat⟩ (link (next list start pieces)))
    (links : LinksAt list nextOffset.toNat pieces) (positive : 0 < start)
    (bound : start + extent pieces < 2 ^ 32) (enough : pieces.length < fuel) :
    ∃ last, walkSlots nextOffset fuel slot s = .ok last s ∧
      last.toNat = lastSlot list slot.toNat start pieces := by
  induction pieces generalizing start slot fuel with
  | nil =>
      cases fuel with
      | zero => exact absurd enough (Nat.not_lt_zero _)
      | succ fuel =>
          have zero : s.memory.Holds ⟨(), slot.toNat⟩ (bytes32 0) := head
          refine ⟨slot, ?_, rfl⟩
          rw [walkSlots, Machine.bind_of_ok (load32_of_holds rfl zero), if_neg (not_not.2 rfl)]
          rfl
  | cons piece pieces ih =>
      have links' : LinksAt list nextOffset.toNat pieces :=
        fun content mem => links content (List.mem_cons_of_mem _ mem)
      rw [List.length_cons] at enough
      cases piece with
      | node list' content =>
          rw [extent_cons, size, ← Nat.add_assoc] at bound
          rw [image, ByteMemory.holds_append, List.length_append, length_link, List.append_nil,
            ByteMemory.holds_append] at image_
          rw [next] at head
          rw [lastSlot]
          by_cases same : list' = list
          · subst same
            rw [if_pos rfl] at head ⊢
            have offset := links content List.mem_cons_self
            cases fuel with
            | zero => exact absurd enough (Nat.not_lt_zero _)
            | succ fuel =>
                have node : (UInt32.ofNat start).toNat = start :=
                  Nat.mod_eq_of_lt (by omega)
                have there : s.memory.Holds ⟨(), slot.toNat⟩ (bytes32 (UInt32.ofNat start)) := by
                  rw [bytes32_eq_link node]
                  exact head
                have nonzero : UInt32.ofNat start ≠ 0 := by
                  intro zero
                  rw [zero] at node
                  exact absurd node (Nat.ne_of_lt positive)
                have slot' : (UInt32.ofNat start + nextOffset).toNat = start + content.length :=
                  toNat_add_of_lt node offset.symm (by omega)
                have head' : s.memory.Holds ⟨(), (UInt32.ofNat start + nextOffset).toNat⟩
                    (link (next list' (start + (content.length + 4)) pieces)) := by
                  rw [slot']
                  exact image_.1.2
                obtain ⟨last, run, place⟩ := ih image_.2 head' links' (by omega) bound
                  (Nat.lt_of_succ_lt_succ enough)
                refine ⟨last, ?_, place.trans (by rw [slot'])⟩
                rw [walkSlots, Machine.bind_of_ok (load32_of_holds rfl there), if_pos nonzero]
                exact run
          · rw [if_neg same] at head ⊢
            exact ih image_.2 head links' (by omega) bound (by omega)
      | loose bytes =>
          rw [extent_cons, size, ← Nat.add_assoc] at bound
          rw [image, ByteMemory.holds_append] at image_
          exact ih image_.2 head links' (by omega) bound (by omega)

/-! ## Strings -/

/-- Windows of one memory are apart. -/
theorem apart_of {a b n m : ℕ} (apart : a + n ≤ b ∨ b + m ≤ a) :
    (⟨(), a⟩ : Pointer Unit).Apart n ⟨(), b⟩ m :=
  Or.inr apart

/-- The string is copied to fresh memory, and the field points there. -/
theorem copyString_eq {s : BootState} {field source : UInt32} {f src c fuel : ℕ}
    {string : List UInt8} (hf : field.toNat = f) (hsrc : source.toNat = src)
    (hc : s.emm.cursor.toNat = c) (srcPos : 0 < src) (cPos : 0 < c)
    (fits : c + (string.length + 1) ≤ s.emm.end_.toNat) (noZero : 0 ∉ string)
    (enough : string.length < fuel) (holds : s.memory.Holds ⟨(), src⟩ (string ++ [0]))
    (fieldRoom : s.memory.Room ⟨(), f⟩ 4)
    (copyRoom : s.memory.Room ⟨(), c⟩ (string.length + 1))
    (fieldCopy : f + 4 ≤ c ∨ c + (string.length + 1) ≤ f)
    (fieldSource : f + 4 ≤ src ∨ src + (string.length + 1) ≤ f)
    (copySource : src + (string.length + 1) ≤ c ∨ c + (string.length + 1) ≤ src) :
    ∃ emm, copyString fuel field source s = .ok ()
        ⟨(s.memory.overwrite ⟨(), f⟩ (link c)).overwrite ⟨(), c⟩ (string ++ [0]), emm⟩ ∧
      emm.cursor.toNat = c + (string.length + 1) ∧ emm.end_ = s.emm.end_ := by
  have limit := s.emm.end_.toNat_lt
  have length : (UInt32.ofNat string.length).toNat = string.length :=
    Nat.mod_eq_of_lt (by omega)
  have amount : (UInt32.ofNat string.length + 1).toNat = string.length + 1 :=
    toNat_add_of_lt length rfl (by omega)
  have counted := kstrlen_eq holds noZero (by omega) enough
  rw [← pointerTo_of_toNat hsrc] at counted
  obtain ⟨emm, alloc, cursor, kept⟩ := onEarlyHeap_of_room hc amount fits
  refine ⟨emm, ?_, cursor, kept⟩
  have stored := store32_of_room (s := ⟨s.memory, emm⟩) s.emm.cursor hf fieldRoom
  rw [bytes32_eq_link hc] at stored
  have pointer := ByteMemory.holds_overwrite s.memory ⟨(), f⟩ (link c)
  have room₁ : ∀ n, (s.memory.overwrite ⟨(), f⟩ (link c)).Room ⟨(), c⟩ n ↔
      s.memory.Room ⟨(), c⟩ n := fun n => ByteMemory.room_overwrite (by
    rw [Piece.length_link]
    exact fieldRoom)
  have source₁ : (s.memory.overwrite ⟨(), f⟩ (link c)).Holds ⟨(), src⟩ (string ++ [0]) := by
    refine holds.overwrite (apart_of ?_)
    rw [List.length_append, Piece.length_link]
    exact fieldSource.symm
  generalize s.memory.overwrite ⟨(), f⟩ (link c) = memory₁ at *
  have field₁ : memory₁.Holds ⟨(), f⟩ (bytes32 s.emm.cursor) := by
    rw [bytes32_eq_link hc]
    exact pointer
  have copyFits : memory₁.Room ⟨(), c⟩ string.length :=
    (room₁ _).2 (copyRoom.part (i := 0) (by omega))
  have copied := kmemcpy_eq (ByteMemory.holds_append.1 source₁).1 copyFits
    (apart_of (by omega)) length
  rw [← nullable_of_pos hc cPos, ← nullable_of_pos hsrc srcPos] at copied
  have field₂ : (memory₁.overwrite ⟨(), c⟩ string).Holds ⟨(), f⟩ (bytes32 s.emm.cursor) := by
    refine field₁.overwrite (apart_of ?_)
    rw [length_bytes32]
    omega
  have last : (s.emm.cursor + UInt32.ofNat string.length).toNat = c + string.length :=
    toNat_add_of_lt hc length (by omega)
  have room₂ : (memory₁.overwrite ⟨(), c⟩ string).Room ⟨(), c + string.length⟩ 1 :=
    (ByteMemory.room_overwrite copyFits).2 (((room₁ _).2 copyRoom).part (i := string.length) le_rfl)
  have whole := ByteMemory.overwrite_append memory₁ ⟨(), c⟩ string [0]
  rw [← whole]
  have ended := storeByte_at (s := ⟨memory₁.overwrite ⟨(), c⟩ string, emm⟩) 0 last room₂
  -- the field is read back before and after the copy
  have load₁ := load32_of_holds (s := ⟨memory₁, emm⟩) hf field₁
  have load₂ := load32_of_holds (s := ⟨memory₁.overwrite ⟨(), c⟩ string, emm⟩) hf field₂
  have copied' := onMemory_of_ok (s := ⟨memory₁, emm⟩) copied
  unfold copyString
  rw [Machine.bind_of_ok (onMemory_of_ok counted), Machine.bind_of_ok alloc,
    Machine.bind_of_ok stored, Machine.bind_of_ok load₁, Machine.bind_of_ok copied',
    Machine.bind_of_ok load₂]
  exact ended

end ArkoiOs
