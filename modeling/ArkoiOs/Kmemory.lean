import Mathlib.Data.Nat.Bitwise
import Mathlib.Tactic.Ring
import ArkoiOs.Kpanic
import ArkoiOs.Library.ByteMemory

/-!
# Alignment and copying

`kalign_up` and `kalign_down` of `lib/kmemory.c` on 32-bit words, and what they
compute for the page size; `kmemcpy` and `kmemset` on a memory of objects, where
a byte outside its object can neither be read nor written.
-/

namespace ArkoiOs

/-- `PAGE_SIZE`, 4 KiB. -/
def pageSize : UInt32 := 4096

@[simp] theorem pageSize_toNat : pageSize.toNat = 4096 := rfl

/-- Two words are in order one way or the other. -/
theorem word_lt_or_le (a b : UInt32) : a < b ∨ b ≤ a :=
  (Nat.lt_or_ge a.toNat b.toNat).imp UInt32.lt_iff_toNat_lt.2 UInt32.le_iff_toNat_le.2

/-- Sums that do not wrap. -/
theorem toNat_add_of_lt {a b : UInt32} {n m : ℕ} (ha : a.toNat = n) (hb : b.toNat = m)
    (bound : n + m < 2 ^ 32) : (a + b).toNat = n + m := by
  rw [UInt32.toNat_add, ha, hb]
  exact Nat.mod_eq_of_lt bound

/-- `kalign_up`; the sum wraps at 2^32. -/
def kalignUp (value alignment : UInt32) : UInt32 :=
  (value + alignment - 1) &&& ~~~(alignment - 1)

/-- `kalign_down`. -/
def kalignDown (value alignment : UInt32) : UInt32 :=
  value &&& ~~~(alignment - 1)

/-- A mask of the high bits rounds down. -/
theorem and_high_mask (value : UInt32) (low high : ℕ) {mask : UInt32} (width : low + high = 32)
    (shape : mask.toNat = 2 ^ low * (2 ^ high - 1)) :
    (value &&& mask).toNat = value.toNat / 2 ^ low * 2 ^ low := by
  have bound := value.toNat_lt
  rw [UInt32.toNat_and, shape]
  apply Nat.eq_of_testBit_eq
  intro i
  rw [Nat.mul_comm (value.toNat / 2 ^ low), Nat.testBit_and, Nat.testBit_two_pow_mul,
    Nat.testBit_two_pow_mul, Nat.testBit_two_pow_sub_one, Nat.testBit_div_two_pow]
  rcases Nat.lt_or_ge i low with below | above
  · simp [Nat.not_le.2 below]
  · rcases Nat.lt_or_ge i 32 with inside | beyond
    · have : i - low < high := by omega
      simp [above, this]
    · have : value.toNat.testBit i = false :=
        Nat.testBit_lt_two_pow (lt_of_lt_of_le bound (Nat.pow_le_pow_right (by norm_num) beyond))
      simp [above, this]

/-- Clearing the low 12 bits of a word is rounding down to a page. -/
theorem and_not_page_mask (value : UInt32) :
    (value &&& ~~~(pageSize - 1)).toNat = value.toNat / 4096 * 4096 :=
  and_high_mask value 12 20 rfl rfl

theorem kalignDown_toNat (value : UInt32) :
    (kalignDown value pageSize).toNat = value.toNat / 4096 * 4096 :=
  and_not_page_mask value

/-- Rounding up to a page, as long as the sum does not wrap. -/
theorem kalignUp_toNat {value : UInt32} (h : value.toNat ≤ 0xFFFFF000) :
    (kalignUp value pageSize).toNat = (value.toNat + 4095) / 4096 * 4096 := by
  rw [kalignUp, and_not_page_mask]
  have sum : (value + pageSize - 1).toNat = value.toNat + 4095 := by
    rw [UInt32.toNat_sub, UInt32.toNat_add, pageSize_toNat]
    simp only [UInt32.reduceToNat]
    omega
  rw [sum]

/-- Past the last page boundary the sum wraps and the result is page 0. -/
theorem kalignUp_eq_zero {value : UInt32} (h : 0xFFFFF000 < value.toNat) :
    kalignUp value pageSize = 0 := by
  apply UInt32.toNat_inj.1
  rw [kalignUp, and_not_page_mask]
  have bound := value.toNat_lt
  have sum : (value + pageSize - 1).toNat = value.toNat + 4095 - 2 ^ 32 := by
    rw [UInt32.toNat_sub, UInt32.toNat_add, pageSize_toNat]
    simp only [UInt32.reduceToNat]
    omega
  rw [sum]
  simp only [UInt32.reduceToNat]
  omega

/-- Masking with `PAGE_SIZE - 1` is the remainder modulo a page. -/
theorem and_page_mask (value : UInt32) :
    (value &&& (pageSize - 1)).toNat = value.toNat % 4096 := by
  have mask : (pageSize - 1).toNat = 2 ^ 12 - 1 := by decide
  rw [UInt32.toNat_and, mask, Nat.and_two_pow_sub_one_eq_mod]

/-! ## Copying -/

section Copy

variable {ι : Type}

/-- Read a byte through a pointer. -/
def loadByte (p : Pointer ι) : KernelM (ByteMemory ι) UInt8 := do
  let memory ← get
  match memory.byte p with
  | none => throw .outOfBounds
  | some byte => pure byte

variable [DecidableEq ι]

/-- Write a byte through a pointer. -/
def storeByte (p : Pointer ι) (byte : UInt8) : KernelM (ByteMemory ι) Unit := do
  let memory ← get
  if (memory.byte p).isSome then set (memory.overwrite p [byte]) else throw .outOfBounds

/-- Read a value of some bytes. -/
def loadBytes : ℕ → Pointer ι → KernelM (ByteMemory ι) (List UInt8)
  | 0, _ => pure []
  | width + 1, p => do
      let byte ← loadByte p
      let bytes ← loadBytes width (p.advance 1)
      pure (byte :: bytes)

/-- Write a value of some bytes. -/
def storeBytes : List UInt8 → Pointer ι → KernelM (ByteMemory ι) Unit
  | [], _ => pure ()
  | byte :: bytes, p => do
      storeByte p byte
      storeBytes bytes (p.advance 1)

/-- The loop of `kmemcpy`. -/
def kmemcpyLoop : ℕ → Pointer ι → Pointer ι → KernelM (ByteMemory ι) Unit
  | 0, _, _ => pure ()
  | size + 1, dest, src => do
      let byte ← loadByte src
      storeByte dest byte
      kmemcpyLoop size (dest.advance 1) (src.advance 1)

/-- `kmemcpy`; a null pointer is `none`. -/
def kmemcpy (destination source : Option (Pointer ι)) (size : UInt32) :
    KernelM (ByteMemory ι) (Option (Pointer ι)) :=
  match destination, source with
  | some dest, some src =>
      if dest = src ∨ size = 0 then pure (some dest)
      else do
        kmemcpyLoop size.toNat dest src
        pure (some dest)
  | _, _ => pure none

/-- The loop of `kmemset`. -/
def kmemsetLoop (value : UInt8) : ℕ → Pointer ι → KernelM (ByteMemory ι) Unit
  | 0, _ => pure ()
  | size + 1, dest => do
      storeByte dest value
      kmemsetLoop value size (dest.advance 1)

/-- `kmemset`; a null pointer is `none`. -/
def kmemset (destination : Option (Pointer ι)) (value : UInt8) (size : UInt32) :
    KernelM (ByteMemory ι) (Option (Pointer ι)) :=
  match destination with
  | some dest =>
      if size = 0 then pure (some dest)
      else do
        kmemsetLoop value size.toNat dest
        pure (some dest)
  | none => pure none

variable {memory : ByteMemory ι} {p dest src : Pointer ι} {bytes : List UInt8}

omit [DecidableEq ι] in
theorem loadByte_of_some {byte : UInt8} (there : memory.byte p = some byte) :
    loadByte p memory = .ok byte memory := by
  unfold loadByte
  rw [Machine.bind_of_ok (Machine.get_run memory)]
  simp only [there]
  rfl

theorem storeByte_of_room (there : (memory.byte p).isSome) (byte : UInt8) :
    storeByte p byte memory = .ok () (memory.overwrite p [byte]) := by
  unfold storeByte
  rw [Machine.bind_of_ok (Machine.get_run memory), if_pos there]
  rfl

omit [DecidableEq ι] in
theorem loadBytes_of_holds (holds : memory.Holds p bytes) :
    loadBytes bytes.length p memory = .ok bytes memory := by
  induction bytes generalizing p with
  | nil => rfl
  | cons b bytes ih =>
      obtain ⟨first, rest⟩ := ByteMemory.holds_cons.1 holds
      rw [List.length_cons, loadBytes, Machine.bind_of_ok (loadByte_of_some first),
        Machine.bind_of_ok (ih rest)]
      rfl

section AnyBytes

variable {E : Fault → Prop} {size : ℕ}

omit [DecidableEq ι] in
/-- A load that may miss its byte. -/
theorem loadByte_ends (reads : E .outOfBounds ∨ (memory.byte p).isSome) :
    Machine.Ends (fun byte memory' => memory = memory' ∧ memory.byte p = some byte) E
      (loadByte p memory) := by
  cases there : memory.byte p with
  | some byte =>
      rw [loadByte_of_some there]
      exact ⟨rfl, rfl⟩
  | none =>
      have missing : loadByte p memory = .error .outOfBounds memory := by
        unfold loadByte
        rw [Machine.bind_of_ok (Machine.get_run memory)]
        simp only [there]
        rfl
      rw [missing]
      refine reads.resolve_right fun there' => ?_
      rw [there] at there'
      exact absurd there' (by decide)

omit [DecidableEq ι] in
theorem loadBytes_ends (reads : E .outOfBounds ∨ memory.Room p size) :
    Machine.Ends (fun bytes memory' => memory = memory' ∧ bytes.length = size ∧
      memory.Holds p bytes) E (loadBytes size p memory) := by
  induction size generalizing p with
  | zero => exact ⟨rfl, rfl, ByteMemory.holds_nil _ _⟩
  | succ size ih =>
      rw [ByteMemory.room_succ] at reads
      refine (loadByte_ends (reads.imp_right And.left)).bind fun byte _ ⟨same, first⟩ => ?_
      subst same
      refine (ih (reads.imp_right And.right)).bind fun bytes _ ⟨same, length, rest⟩ => ?_
      subst same
      exact ⟨rfl, congrArg (· + 1) length, ByteMemory.holds_cons.2 ⟨first, rest⟩⟩

/-- The loop of `kmemcpy` from anywhere, the destination itself included. -/
theorem kmemcpyLoop_ends (room : memory.Room dest size)
    (reads : E .outOfBounds ∨ memory.Room src size) :
    Machine.Ends (fun _ memory' => ∃ bytes, bytes.length = size ∧
      memory' = memory.overwrite dest bytes) E (kmemcpyLoop size dest src memory) := by
  induction size generalizing memory dest src with
  | zero => exact ⟨[], rfl, (ByteMemory.overwrite_nil memory dest).symm⟩
  | succ size ih =>
      rw [ByteMemory.room_succ] at room reads
      refine (loadByte_ends (reads.imp_right And.left)).bind fun byte _ ⟨same, _⟩ => ?_
      subst same
      have single : memory.Room dest [byte].length := ByteMemory.room_one.2 room.1
      rw [Machine.bind_of_ok (storeByte_of_room room.1 byte)]
      have reads' := reads.imp_right fun h => (ByteMemory.room_overwrite single).2 h.2
      refine (ih ((ByteMemory.room_overwrite single).2 room.2) reads').mono ?_
      rintro _ _ ⟨bytes, length, rfl⟩
      exact ⟨byte :: bytes, congrArg (· + 1) length,
        ByteMemory.overwrite_cons memory dest byte bytes⟩

/-- `kmemcpy` from anywhere, the null pointer included. -/
theorem kmemcpy_ends {source : Option (Pointer ι)} {amount : UInt32}
    (room : memory.Room dest amount.toNat)
    (reads : E .outOfBounds ∨ ∀ src, source = some src → memory.Room src amount.toNat) :
    Machine.Ends (fun _ memory' => ∃ bytes, bytes.length = amount.toNat ∧
      memory' = memory.overwrite dest bytes) E (kmemcpy (some dest) source amount memory) := by
  obtain ⟨bytes, length, holds⟩ := room.exists_holds
  have nothing : ∃ bytes, bytes.length = amount.toNat ∧
      memory = memory.overwrite dest bytes := ⟨bytes, length, holds.overwrite_self.symm⟩
  unfold kmemcpy
  cases source with
  | none => exact nothing
  | some src =>
      simp only
      split
      · exact nothing
      · exact (kmemcpyLoop_ends room (reads.imp_right fun h => h src rfl)).bind fun _ _ h => h

end AnyBytes

/-- Writing byte by byte overwrites the bytes. -/
theorem storeBytes_of_room (room : memory.Room p bytes.length) :
    storeBytes bytes p memory = .ok () (memory.overwrite p bytes) := by
  induction bytes generalizing p memory with
  | nil => exact congrArg (EStateM.Result.ok ()) (ByteMemory.overwrite_nil memory p).symm
  | cons b bytes ih =>
      obtain ⟨there, rest⟩ := ByteMemory.room_succ.1 room
      have single : memory.Room p [b].length := ByteMemory.room_one.2 there
      rw [storeBytes, Machine.bind_of_ok (storeByte_of_room there b),
        ih ((ByteMemory.room_overwrite single).2 rest), ByteMemory.overwrite_cons]

/-- `kmemset` writes the same byte everywhere. -/
theorem kmemsetLoop_eq (value : UInt8) (size : ℕ) :
    kmemsetLoop value size dest = storeBytes (List.replicate size value) dest := by
  induction size generalizing dest with
  | zero => rfl
  | succ size ih => rw [kmemsetLoop, List.replicate_succ, storeBytes, ih]

theorem kmemset_eq {value : UInt8} {size : UInt32} (room : memory.Room dest size.toNat) :
    kmemset (some dest) value size memory =
      .ok (some dest) (memory.overwrite dest (List.replicate size.toNat value)) := by
  unfold kmemset
  simp only
  split
  · rename_i zero
    rw [zero]
    exact congrArg (EStateM.Result.ok (some dest)) (ByteMemory.overwrite_nil memory dest).symm
  · have room : memory.Room dest (List.replicate size.toNat value).length := by
      rw [List.length_replicate]
      exact room
    rw [kmemsetLoop_eq, Machine.bind_of_ok (storeBytes_of_room room)]
    rfl

/-- The loop copies bytes between windows apart. -/
theorem kmemcpyLoop_eq (holds : memory.Holds src bytes) (room : memory.Room dest bytes.length)
    (apart : src.Apart bytes.length dest bytes.length) :
    kmemcpyLoop bytes.length dest src memory = .ok () (memory.overwrite dest bytes) := by
  induction bytes generalizing memory dest src with
  | nil => exact congrArg (EStateM.Result.ok ()) (ByteMemory.overwrite_nil memory dest).symm
  | cons b bytes ih =>
      obtain ⟨first, rest⟩ := ByteMemory.holds_cons.1 holds
      obtain ⟨there, room⟩ := ByteMemory.room_succ.1 room
      have single : memory.Room dest [b].length := ByteMemory.room_one.2 there
      rw [List.length_cons] at apart
      have restHolds : (memory.overwrite dest [b]).Holds (src.advance 1) bytes :=
        rest.overwrite (apart.part (j := 0) (Nat.add_comm _ _).le (Nat.le_add_left _ _))
      have restRoom := (ByteMemory.room_overwrite single).2 room
      have restApart : (src.advance 1).Apart bytes.length (dest.advance 1) bytes.length :=
        apart.part (Nat.add_comm _ _).le (Nat.add_comm _ _).le
      rw [List.length_cons, kmemcpyLoop, Machine.bind_of_ok (loadByte_of_some first),
        Machine.bind_of_ok (storeByte_of_room there b), ih restHolds restRoom restApart,
        ByteMemory.overwrite_cons]

/-- `kmemcpy` copies bytes between windows apart. -/
theorem kmemcpy_eq {size : UInt32} (holds : memory.Holds src bytes)
    (room : memory.Room dest bytes.length) (apart : src.Apart bytes.length dest bytes.length)
    (length : size.toNat = bytes.length) :
    kmemcpy (some dest) (some src) size memory =
      .ok (some dest) (memory.overwrite dest bytes) := by
  unfold kmemcpy
  simp only
  split
  · rename_i trivial_
    have empty : bytes = [] := by
      apply List.eq_nil_of_length_eq_zero
      rcases trivial_ with rfl | rfl
      · rcases apart with other | overlap | overlap
        · exact (other rfl).elim
        · omega
        · omega
      · exact length.symm
    rw [empty, ByteMemory.overwrite_nil]
    rfl
  · rw [length, Machine.bind_of_ok (kmemcpyLoop_eq holds room apart)]
    rfl

/-! ## Parts of memory -/

section Parts

open ByteMemory Machine

/-- The code does in a part of memory what it does in all of it, or misses a byte. -/
abbrev InPart {α : Type} (windows : List (Pointer ι × ℕ)) (x : KernelM (ByteMemory ι) α) : Prop :=
  Mirrors (fun memory => memory.only windows) .outOfBounds x

variable {windows : List (Pointer ι × ℕ)}

theorem loadByte_inPart (p : Pointer ι) : InPart windows (loadByte p) := by
  intro memory
  unfold loadByte
  simp only [bind_of_ok (get_run _)]
  by_cases within : Within windows p
  · rw [byte_only_of_within within]
    right
    cases memory.byte p <;> rfl
  · rw [byte_only_of_outside within]
    exact Or.inl ⟨_, rfl⟩

theorem storeByte_inPart (p : Pointer ι) (byte : UInt8) : InPart windows (storeByte p byte) := by
  intro memory
  unfold storeByte
  simp only [bind_of_ok (get_run _)]
  by_cases within : Within windows p
  · rw [byte_only_of_within within]
    right
    split
    · refine congrArg (EStateM.Result.ok ()) (only_overwrite memory fun i hi => ?_)
      obtain rfl : i = 0 := Nat.lt_one_iff.1 hi
      exact within
    · rfl
  · rw [byte_only_of_outside within]
    exact Or.inl ⟨_, rfl⟩

theorem loadBytes_inPart (width : ℕ) (p : Pointer ι) : InPart windows (loadBytes width p) := by
  induction width generalizing p with
  | zero => exact .pure _
  | succ width ih => exact (loadByte_inPart p).bind fun _ => (ih _).bind fun _ => .pure _

theorem storeBytes_inPart (bytes : List UInt8) (p : Pointer ι) :
    InPart windows (storeBytes bytes p) := by
  induction bytes generalizing p with
  | nil => exact .pure _
  | cons byte bytes ih => exact (storeByte_inPart p byte).bind fun _ => ih _

theorem kmemcpyLoop_inPart (size : ℕ) (dest src : Pointer ι) :
    InPart windows (kmemcpyLoop size dest src) := by
  induction size generalizing dest src with
  | zero => exact .pure _
  | succ size ih =>
      exact (loadByte_inPart src).bind fun _ => (storeByte_inPart dest _).bind fun _ => ih _ _

theorem kmemcpy_inPart (destination source : Option (Pointer ι)) (size : UInt32) :
    InPart windows (kmemcpy destination source size) := by
  unfold kmemcpy
  split
  · exact .ite (.pure _) ((kmemcpyLoop_inPart _ _ _).bind fun _ => .pure _)
  · exact .pure _

theorem kmemset_inPart (destination : Option (Pointer ι)) (value : UInt8) (size : UInt32) :
    InPart windows (kmemset destination value size) := by
  unfold kmemset
  split
  · refine .ite (.pure _) (.bind ?_ fun _ => .pure _)
    rw [kmemsetLoop_eq]
    exact storeBytes_inPart _ _
  · exact .pure _

end Parts

end Copy

end ArkoiOs
