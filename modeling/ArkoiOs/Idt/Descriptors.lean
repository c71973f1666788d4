import Mathlib.Data.Nat.Bitwise
import ArkoiOs.Library.LittleEndian

/-!
# Descriptors

The entries of the descriptor tables: how `arch/x86/gdt/gdt.c` and
`arch/x86/idt/idt.c` make them, how they lie in memory, and what the processor
reads in their eight bytes.
-/

namespace ArkoiOs

/-! ## Entries -/

/-- `gdt_entry_t`. -/
structure GdtEntry where
  segmentLimit : UInt16
  baseLow : UInt16
  baseMiddle : UInt8
  access : UInt8
  granularity : UInt8
  baseHigh : UInt8
  deriving DecidableEq, Repr

/-- The entry in memory. -/
def GdtEntry.bytes (entry : GdtEntry) : List UInt8 :=
  LittleEndian.encode 2 entry.segmentLimit.toNat ++ LittleEndian.encode 2 entry.baseLow.toNat ++
    [entry.baseMiddle, entry.access, entry.granularity, entry.baseHigh]

/-- `gdt_create_entry`. -/
def gdtCreateEntry (base limit : UInt32) (flags : UInt16) : GdtEntry where
  segmentLimit := (limit &&& 0x0000FFFF).toUInt16
  baseLow := (base &&& 0x0000FFFF).toUInt16
  baseMiddle := ((base &&& 0x00FF0000) >>> 16).toUInt8
  access := (flags &&& 0x00FF).toUInt8
  granularity :=
    ((flags &&& 0xF000).toUInt32 >>> 8 ||| (limit &&& 0x000F0000) >>> 16).toUInt8
  baseHigh := ((base &&& 0xFF000000) >>> 24).toUInt8

/-- `idt_entry_t`. -/
structure IdtEntry where
  isrLow : UInt16
  selector : UInt16
  zero : UInt8
  attributes : UInt8
  isrHigh : UInt16
  deriving DecidableEq, Repr

/-- The entry in memory. -/
def IdtEntry.bytes (entry : IdtEntry) : List UInt8 :=
  LittleEndian.encode 2 entry.isrLow.toNat ++ LittleEndian.encode 2 entry.selector.toNat ++
    [entry.zero, entry.attributes] ++ LittleEndian.encode 2 entry.isrHigh.toNat

/-- The second entry. -/
def gdtKernelCodeSelector : UInt16 := (1 : UInt16) <<< 3

/-- `idt_create_entry`. -/
def idtCreateEntry (isr : UInt32) (attributes : UInt8) : IdtEntry where
  isrLow := (isr &&& 0x0000FFFF).toUInt16
  selector := gdtKernelCodeSelector
  zero := 0
  attributes := attributes
  isrHigh := ((isr &&& 0xFFFF0000) >>> 16).toUInt16

/-- `gdt_ptr_t` and `idt_ptr_t`. -/
structure TablePtr where
  limit : UInt16
  base : UInt32
  deriving DecidableEq, Repr

/-- The pointer in memory. -/
def TablePtr.bytes (ptr : TablePtr) : List UInt8 :=
  LittleEndian.encode 2 ptr.limit.toNat ++ LittleEndian.encode 4 ptr.base.toNat

/-- `gdt_create_ptr`. -/
def gdtCreatePtr (segments : UInt16) (base : UInt32) : TablePtr where
  limit := (segments.toUInt32 * 8 - 1).toUInt16
  base := base

/-- `idt_create_ptr`. -/
def idtCreatePtr (entries : UInt16) (base : UInt32) : TablePtr where
  limit := (entries.toUInt32 * 8 - 1).toUInt16
  base := base

/-! ## What the processor reads -/

/-- A segment. -/
structure SegmentDescriptor where
  base : ℕ
  limit : ℕ
  access : ℕ
  flags : ℕ
  deriving DecidableEq, Repr

namespace SegmentDescriptor

def ofBytes (bytes : List UInt8) : SegmentDescriptor :=
  let word := LittleEndian.decode bytes
  { base := word / 2 ^ 16 % 2 ^ 24 + word / 2 ^ 56 * 2 ^ 24
    limit := word % 2 ^ 16 + word / 2 ^ 48 % 2 ^ 4 * 2 ^ 16
    access := word / 2 ^ 40 % 2 ^ 8
    flags := word / 2 ^ 52 % 2 ^ 4 }

variable (descriptor : SegmentDescriptor)

def present : Bool := descriptor.access.testBit 7
def privilege : ℕ := descriptor.access / 2 ^ 5 % 4
def codeOrData : Bool := descriptor.access.testBit 4
def code : Bool := descriptor.access.testBit 3
/-- Code can be read, or data can be written. -/
def readWrite : Bool := descriptor.access.testBit 1

/-- The last offset in the segment; the limit may count pages. -/
def lastOffset : ℕ :=
  if descriptor.flags.testBit 3 then descriptor.limit * 4096 + 4095 else descriptor.limit

end SegmentDescriptor

/-- An interrupt gate. -/
structure Gate where
  offset : ℕ
  selector : ℕ
  reserved : ℕ
  attributes : ℕ
  deriving DecidableEq, Repr

namespace Gate

def ofBytes (bytes : List UInt8) : Gate :=
  let word := LittleEndian.decode bytes
  { offset := word % 2 ^ 16 + word / 2 ^ 48 * 2 ^ 16
    selector := word / 2 ^ 16 % 2 ^ 16
    reserved := word / 2 ^ 32 % 2 ^ 8
    attributes := word / 2 ^ 40 % 2 ^ 8 }

variable (gate : Gate)

def present : Bool := gate.attributes.testBit 7

/-- The gate is one for interrupts in 32-bit code. -/
def interrupt32 : Bool := gate.attributes % 2 ^ 5 == 0xE

end Gate

/-! ## Round trips -/

section Fields

variable {x n k : ℕ}

/-- The bits of a mask that starts at bit `k`. -/
theorem and_mask (x n k : ℕ) : x &&& (2 ^ n - 1) * 2 ^ k = x / 2 ^ k % 2 ^ n * 2 ^ k := by
  apply Nat.eq_of_testBit_eq
  intro i
  rw [Nat.testBit_and, Nat.testBit_mul_two_pow, Nat.testBit_mul_two_pow, Nat.testBit_two_pow_sub_one,
    Nat.testBit_mod_two_pow, Nat.testBit_div_two_pow]
  by_cases inside : k ≤ i
  · rw [Nat.sub_add_cancel inside, decide_eq_true inside]
    simp [Bool.and_comm]
  · simp [inside]

theorem and_mask_shiftRight (x n k : ℕ) :
    (x &&& (2 ^ n - 1) * 2 ^ k) >>> k = x / 2 ^ k % 2 ^ n := by
  rw [and_mask, Nat.shiftRight_eq_div_pow, Nat.mul_div_cancel _ (Nat.two_pow_pos k)]

/-- The low half of a word. -/
theorem lowHalf_toNat (x : UInt32) : (x &&& 0x0000FFFF).toUInt16.toNat = x.toNat % 2 ^ 16 := by
  have mask := and_mask x.toNat 16 0
  rw [UInt32.toNat_toUInt16, UInt32.toNat_and]
  change (x.toNat &&& (2 ^ 16 - 1) * 2 ^ 0) % 2 ^ 16 = _
  omega

/-- The high half of a word. -/
theorem highHalf_toNat (x : UInt32) :
    ((x &&& 0xFFFF0000) >>> 16).toUInt16.toNat = x.toNat / 2 ^ 16 := by
  have field := and_mask_shiftRight x.toNat 16 16
  have bound := x.toNat_lt
  rw [UInt32.toNat_toUInt16, UInt32.toNat_shiftRight, UInt32.toNat_and]
  change ((x.toNat &&& (2 ^ 16 - 1) * 2 ^ 16) >>> 16) % 2 ^ 16 = _
  omega

theorem middleByte_toNat (x : UInt32) :
    ((x &&& 0x00FF0000) >>> 16).toUInt8.toNat = x.toNat / 2 ^ 16 % 2 ^ 8 := by
  have field := and_mask_shiftRight x.toNat 8 16
  rw [UInt32.toNat_toUInt8, UInt32.toNat_shiftRight, UInt32.toNat_and]
  change ((x.toNat &&& (2 ^ 8 - 1) * 2 ^ 16) >>> 16) % 2 ^ 8 = _
  omega

theorem highByte_toNat (x : UInt32) :
    ((x &&& 0xFF000000) >>> 24).toUInt8.toNat = x.toNat / 2 ^ 24 := by
  have field := and_mask_shiftRight x.toNat 8 24
  have bound := x.toNat_lt
  rw [UInt32.toNat_toUInt8, UInt32.toNat_shiftRight, UInt32.toNat_and]
  change ((x.toNat &&& (2 ^ 8 - 1) * 2 ^ 24) >>> 24) % 2 ^ 8 = _
  omega

/-- The high flags and the high part of the limit share a byte. -/
theorem granularity_toNat (base limit : UInt32) (flags : UInt16) :
    (gdtCreateEntry base limit flags).granularity.toNat =
      flags.toNat / 2 ^ 12 * 2 ^ 4 + limit.toNat / 2 ^ 16 % 2 ^ 4 := by
  have high := and_mask flags.toNat 4 12
  have low := and_mask_shiftRight limit.toNat 4 16
  have bound := flags.toNat_lt
  change ((flags &&& 0xF000).toUInt32 >>> 8 ||| (limit &&& 0x000F0000) >>> 16).toUInt8.toNat = _
  rw [UInt32.toNat_toUInt8, UInt32.toNat_or, UInt32.toNat_shiftRight, UInt32.toNat_shiftRight,
    UInt16.toNat_toUInt32, UInt16.toNat_and, UInt32.toNat_and]
  change ((flags.toNat &&& (2 ^ 4 - 1) * 2 ^ 12) >>> 8 |||
    (limit.toNat &&& (2 ^ 4 - 1) * 2 ^ 16) >>> 16) % 2 ^ 8 = _
  have shifted : (flags.toNat / 2 ^ 12 % 2 ^ 4 * 2 ^ 12) >>> 8 =
      (flags.toNat / 2 ^ 12) <<< 4 := by
    rw [Nat.shiftRight_eq_div_pow, Nat.shiftLeft_eq]
    omega
  rw [high, low, shifted, ← Nat.shiftLeft_add_eq_or_of_lt (Nat.mod_lt _ (Nat.two_pow_pos 4)),
    Nat.shiftLeft_eq]
  omega

end Fields

/-- The word that a segment's entry is. -/
theorem GdtEntry.decode_bytes (entry : GdtEntry) :
    LittleEndian.decode entry.bytes = entry.segmentLimit.toNat +
      2 ^ 16 * (entry.baseLow.toNat + 2 ^ 16 * (entry.baseMiddle.toNat + 2 ^ 8 *
        (entry.access.toNat + 2 ^ 8 * (entry.granularity.toNat + 2 ^ 8 *
          entry.baseHigh.toNat)))) := by
  unfold bytes
  rw [List.append_assoc, LittleEndian.decode_append, LittleEndian.decode_append,
    LittleEndian.decode_encode_of_lt entry.segmentLimit.toNat_lt,
    LittleEndian.decode_encode_of_lt entry.baseLow.toNat_lt]
  simp only [LittleEndian.length_encode, LittleEndian.decode]
  omega

/-- What the processor reads in a segment's entry. -/
theorem GdtEntry.descriptor (entry : GdtEntry) :
    SegmentDescriptor.ofBytes entry.bytes =
      { base := entry.baseLow.toNat + 2 ^ 16 * entry.baseMiddle.toNat + 2 ^ 24 * entry.baseHigh.toNat
        limit := entry.segmentLimit.toNat + entry.granularity.toNat % 2 ^ 4 * 2 ^ 16
        access := entry.access.toNat
        flags := entry.granularity.toNat / 2 ^ 4 } := by
  have segmentLimit := entry.segmentLimit.toNat_lt
  have baseLow := entry.baseLow.toNat_lt
  have baseMiddle := entry.baseMiddle.toNat_lt
  have access := entry.access.toNat_lt
  have granularity := entry.granularity.toNat_lt
  have word := entry.decode_bytes
  unfold SegmentDescriptor.ofBytes
  simp only [SegmentDescriptor.mk.injEq]
  refine ⟨?base, ?limit, ?access, ?flags⟩
  case base =>
    have low : LittleEndian.decode entry.bytes / 2 ^ 16 % 2 ^ 24 =
        entry.baseLow.toNat + 2 ^ 16 * entry.baseMiddle.toNat := by omega
    have high : LittleEndian.decode entry.bytes / 2 ^ 56 = entry.baseHigh.toNat := by omega
    omega
  case limit =>
    have low : LittleEndian.decode entry.bytes % 2 ^ 16 = entry.segmentLimit.toNat := by omega
    have high : LittleEndian.decode entry.bytes / 2 ^ 48 % 2 ^ 4 =
        entry.granularity.toNat % 2 ^ 4 := by omega
    omega
  case access => omega
  case flags => omega

/-- The word that a gate's entry is. -/
theorem IdtEntry.decode_bytes (entry : IdtEntry) :
    LittleEndian.decode entry.bytes = entry.isrLow.toNat +
      2 ^ 16 * (entry.selector.toNat + 2 ^ 16 * (entry.zero.toNat + 2 ^ 8 *
        (entry.attributes.toNat + 2 ^ 8 * entry.isrHigh.toNat))) := by
  unfold bytes
  rw [List.append_assoc, List.append_assoc, LittleEndian.decode_append, LittleEndian.decode_append,
    LittleEndian.decode_append, LittleEndian.decode_encode_of_lt entry.isrLow.toNat_lt,
    LittleEndian.decode_encode_of_lt entry.selector.toNat_lt,
    LittleEndian.decode_encode_of_lt entry.isrHigh.toNat_lt]
  simp only [LittleEndian.length_encode, List.length_cons, List.length_nil, LittleEndian.decode]
  omega

/-- What the processor reads in a gate's entry. -/
theorem IdtEntry.gate (entry : IdtEntry) :
    Gate.ofBytes entry.bytes =
      { offset := entry.isrLow.toNat + 2 ^ 16 * entry.isrHigh.toNat
        selector := entry.selector.toNat
        reserved := entry.zero.toNat
        attributes := entry.attributes.toNat } := by
  have isrLow := entry.isrLow.toNat_lt
  have selector := entry.selector.toNat_lt
  have zero := entry.zero.toNat_lt
  have attributes := entry.attributes.toNat_lt
  have word := entry.decode_bytes
  unfold Gate.ofBytes
  simp only [Gate.mk.injEq]
  refine ⟨?offset, ?selector, ?reserved, ?attributes⟩
  case offset =>
    have low : LittleEndian.decode entry.bytes % 2 ^ 16 = entry.isrLow.toNat := by omega
    have high : LittleEndian.decode entry.bytes / 2 ^ 48 = entry.isrHigh.toNat := by omega
    omega
  case selector => omega
  case reserved => omega
  case attributes => omega

/-- The processor reads the base that the entry was made with, the low twenty bits of the
limit, and the flags but for bits 8 to 11. -/
theorem segmentDescriptor_gdtCreateEntry (base limit : UInt32) (flags : UInt16) :
    SegmentDescriptor.ofBytes (gdtCreateEntry base limit flags).bytes =
      { base := base.toNat
        limit := limit.toNat % 2 ^ 20
        access := flags.toNat % 2 ^ 8
        flags := flags.toNat / 2 ^ 12 } := by
  have segmentLimit : (gdtCreateEntry base limit flags).segmentLimit.toNat = limit.toNat % 2 ^ 16 :=
    lowHalf_toNat limit
  have baseLow : (gdtCreateEntry base limit flags).baseLow.toNat = base.toNat % 2 ^ 16 :=
    lowHalf_toNat base
  have baseMiddle : (gdtCreateEntry base limit flags).baseMiddle.toNat =
      base.toNat / 2 ^ 16 % 2 ^ 8 := middleByte_toNat base
  have baseHigh : (gdtCreateEntry base limit flags).baseHigh.toNat = base.toNat / 2 ^ 24 :=
    highByte_toNat base
  have access : (gdtCreateEntry base limit flags).access.toNat = flags.toNat % 2 ^ 8 := by
    have mask := and_mask flags.toNat 8 0
    change (flags &&& 0x00FF).toUInt8.toNat = _
    rw [UInt16.toNat_toUInt8, UInt16.toNat_and]
    change (flags.toNat &&& (2 ^ 8 - 1) * 2 ^ 0) % 2 ^ 8 = _
    omega
  have top : base.toNat / 2 ^ 16 / 2 ^ 8 = base.toNat / 2 ^ 24 := Nat.div_div_eq_div_mul _ _ _
  have above : limit.toNat / 2 ^ 16 / 2 ^ 4 = limit.toNat / 2 ^ 20 := Nat.div_div_eq_div_mul _ _ _
  have shared : (flags.toNat / 2 ^ 12 * 2 ^ 4 + limit.toNat / 2 ^ 16 % 2 ^ 4) % 2 ^ 4 =
      limit.toNat / 2 ^ 16 % 2 ^ 4 := by omega
  have own : (flags.toNat / 2 ^ 12 * 2 ^ 4 + limit.toNat / 2 ^ 16 % 2 ^ 4) / 2 ^ 4 =
      flags.toNat / 2 ^ 12 := by
    rw [Nat.mul_comm, Nat.mul_add_div (Nat.two_pow_pos 4),
      Nat.div_eq_of_lt (Nat.mod_lt _ (Nat.two_pow_pos 4)), add_zero]
  rw [GdtEntry.descriptor, segmentLimit, baseLow, baseMiddle, baseHigh, access, granularity_toNat,
    shared, own, SegmentDescriptor.mk.injEq]
  exact ⟨by omega, by omega, rfl, rfl⟩

/-- The segment is the one asked for exactly if the limit has at most twenty bits and no flag
stands where the entry keeps the limit. -/
theorem gdtCreateEntry_exact_iff (base limit : UInt32) (flags : UInt16) :
    SegmentDescriptor.ofBytes (gdtCreateEntry base limit flags).bytes =
        ⟨base.toNat, limit.toNat, flags.toNat % 2 ^ 8, flags.toNat / 2 ^ 12⟩ ∧
      (SegmentDescriptor.ofBytes (gdtCreateEntry base limit flags).bytes).flags * 2 ^ 12 +
        (SegmentDescriptor.ofBytes (gdtCreateEntry base limit flags).bytes).access =
          flags.toNat ↔
    limit.toNat < 2 ^ 20 ∧ flags.toNat / 2 ^ 8 % 2 ^ 4 = 0 := by
  rw [segmentDescriptor_gdtCreateEntry]
  constructor
  · rintro ⟨same, whole⟩
    have limited : limit.toNat % 2 ^ 20 = limit.toNat := congrArg SegmentDescriptor.limit same
    have bits : flags.toNat / 2 ^ 12 * 2 ^ 12 + flags.toNat % 2 ^ 8 = flags.toNat := whole
    exact ⟨by omega, by omega⟩
  · rintro ⟨limited, clear⟩
    rw [Nat.mod_eq_of_lt limited]
    have bits : flags.toNat / 2 ^ 12 * 2 ^ 12 + flags.toNat % 2 ^ 8 = flags.toNat := by omega
    exact ⟨rfl, bits⟩

/-- The processor reads the address and the attributes that the gate was made with, and the
selector of the kernel code. -/
theorem gate_idtCreateEntry (isr : UInt32) (attributes : UInt8) :
    Gate.ofBytes (idtCreateEntry isr attributes).bytes =
      { offset := isr.toNat
        selector := gdtKernelCodeSelector.toNat
        reserved := 0
        attributes := attributes.toNat } := by
  have low : (idtCreateEntry isr attributes).isrLow.toNat = isr.toNat % 2 ^ 16 := lowHalf_toNat isr
  have high : (idtCreateEntry isr attributes).isrHigh.toNat = isr.toNat / 2 ^ 16 :=
    highHalf_toNat isr
  rw [IdtEntry.gate, low, high, Nat.mod_add_div]
  rfl

end ArkoiOs
