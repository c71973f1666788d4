import ArkoiOs.Kmemory
import ArkoiOs.Library.BoundedQueue

/-!
# The ring buffer

`lib/kbuffer.c`, function by function.  The storage, the element pushed and the
destination of a pop are three objects of bytes; a copy that leaves one of them
ends in `outOfBounds`.  `Represents` relates a buffer to the queue of its
elements, and every call refines the queue that drops its oldest element.
-/

namespace ArkoiOs

/-- An object: the byte at each of its offsets. -/
abbrev ByteObject : Type := ℕ → Option UInt8

namespace ByteObject

/-- The object of exactly these bytes. -/
def ofBytes (bytes : List UInt8) : ByteObject := fun i => bytes[i]?

/-- The bytes stand at the offset. -/
def HoldsAt (object : ByteObject) (offset : ℕ) (bytes : List UInt8) : Prop :=
  ∀ i < bytes.length, object (offset + i) = bytes[i]?

/-- Replace the bytes at the offset. -/
def overwrite (object : ByteObject) (offset : ℕ) (bytes : List UInt8) : ByteObject := fun i =>
  if offset ≤ i ∧ i < offset + bytes.length then bytes[i - offset]? else object i

end ByteObject

/-- The object a copy writes and the one it reads. -/
inductive CopyEnd
  | destination
  | source
  deriving DecidableEq, Repr

/-- Two objects as a memory. -/
def copyMemory (destination source : ByteObject) : ByteMemory CopyEnd
  | .destination => destination
  | .source => source

/-- `kmemcpy` from one object to another; the result is the written object. -/
def copyObject {σ : Type} (destination : ByteObject) (destinationOffset : ℕ) (source : ByteObject)
    (sourceOffset : ℕ) (size : UInt32) : KernelM σ ByteObject :=
  match kmemcpy (some ⟨.destination, destinationOffset⟩) (some ⟨.source, sourceOffset⟩) size
    (copyMemory destination source) with
  | .error fault _ => throw fault
  | .ok _ memory => pure (memory .destination)

/-- `cyclic_buffer_t`; `buffer` is the object the field points to. -/
structure CyclicBuffer where
  buffer : ByteObject
  head : UInt32
  tail : UInt32
  capacity : UInt32
  elementSize : UInt32

/-- `cyclic_buffer_init`.  The state is what `cb` points to, and a null pointer
is `none`. -/
def cyclicBufferInit (buffer : Option ByteObject) (capacity elementSize : UInt32) :
    KernelM (Option CyclicBuffer) Bool := do
  let cb ← get
  match cb, buffer with
  | some _, some buffer =>
      if capacity = 0 ∨ elementSize = 0 then pure false
      else do
        set (some (CyclicBuffer.mk buffer 0 0 capacity elementSize))
        pure true
  | _, _ => pure false

/-- `cyclic_buffer_size`. -/
def cyclicBufferSize : Option CyclicBuffer → UInt32
  | none => 0
  | some cb => ((cb.head + cb.capacity) - cb.tail) % cb.capacity

/-- `cyclic_buffer_is_full`. -/
def cyclicBufferIsFull : Option CyclicBuffer → Bool
  | none => false
  | some cb => (cb.head + 1) % cb.capacity == cb.tail

/-- `cyclic_buffer_is_empty`. -/
def cyclicBufferIsEmpty : Option CyclicBuffer → Bool
  | none => false
  | some cb => cb.head == cb.tail

/-- `cb->tail = (cb->tail + 1) % cb->capacity`. -/
def CyclicBuffer.advanceTail (cb : CyclicBuffer) : CyclicBuffer :=
  { cb with tail := (cb.tail + 1) % cb.capacity }

/-- `cyclic_buffer_push`. -/
def cyclicBufferPush (source : Option ByteObject) : KernelM (Option CyclicBuffer) Bool := do
  let cb ← get
  match cb, source with
  | some cb, some source => do
      let wasFull := cyclicBufferIsFull (some cb)
      let buffer ← copyObject cb.buffer (cb.head * cb.elementSize).toNat source 0 cb.elementSize
      let cb := { cb with buffer := buffer, head := (cb.head + 1) % cb.capacity }
      set (some (if wasFull then cb.advanceTail else cb))
      pure true
  | _, _ => pure false

/-- The copy in `cyclic_buffer_pop`, of the element at `tail`. -/
def CyclicBuffer.copyTail {σ : Type} (cb : CyclicBuffer) (destination : ByteObject) :
    KernelM σ ByteObject :=
  copyObject destination 0 cb.buffer (cb.tail * cb.elementSize).toNat cb.elementSize

/-- `cyclic_buffer_pop`; it also returns what `destination` points to afterwards. -/
def cyclicBufferPop (destination : Option ByteObject) :
    KernelM (Option CyclicBuffer) (Bool × Option ByteObject) := do
  let cb ← get
  match cb, destination with
  | some cb, some destination =>
      if cyclicBufferIsEmpty (some cb) then pure (false, some destination)
      else do
        let destination ← cb.copyTail destination
        set (some cb.advanceTail)
        pure (true, some destination)
  | _, destination => pure (false, destination)

/-! ## Copying between objects -/

/-- A copy between two objects overwrites one with bytes of the other. -/
theorem copyObject_eq {σ : Type} {destination source : ByteObject}
    {destinationOffset sourceOffset : ℕ} {bytes : List UInt8} {size : UInt32}
    (holds : source.HoldsAt sourceOffset bytes)
    (room : ∀ i < bytes.length, (destination (destinationOffset + i)).isSome)
    (length : size.toNat = bytes.length) :
    (copyObject destination destinationOffset source sourceOffset size : KernelM σ ByteObject) =
      pure (destination.overwrite destinationOffset bytes) := by
  have copied : kmemcpy (some ⟨.destination, destinationOffset⟩) (some ⟨.source, sourceOffset⟩)
      size (copyMemory destination source) = _ :=
    kmemcpy_eq holds room (Or.inl CopyEnd.noConfusion) length
  unfold copyObject
  rw [copied]
  refine congrArg pure (funext fun i => ?_)
  simp only [ByteMemory.overwrite, true_and]
  rfl

namespace CyclicBuffer

variable {cb : CyclicBuffer} {q : List (List UInt8)} {x y : List UInt8} {index i : ℕ}

/-- The bytes of the element at an index. -/
def Slot (cb : CyclicBuffer) (index : ℕ) (x : List UInt8) : Prop :=
  cb.buffer.HoldsAt (index * cb.elementSize.toNat) x

/-- The slots from `tail` on hold the elements of the queue, and the storage is
one object of `capacity` elements. -/
structure HoldsFrom (cb : CyclicBuffer) (q : List (List UInt8)) : Prop where
  width : 0 < cb.elementSize.toNat
  fits : cb.capacity.toNat * cb.elementSize.toNat ≤ 2 ^ 31 - 1
  storage : ∀ i, (cb.buffer i).isSome ↔ i < cb.capacity.toNat * cb.elementSize.toNat
  tail_lt : cb.tail.toNat < cb.capacity.toNat
  widths : ∀ x ∈ q, x.length = cb.elementSize.toNat
  slots : ∀ i (h : i < q.length), cb.Slot ((cb.tail.toNat + i) % cb.capacity.toNat) q[i]

/-- The buffer is the queue: one slot is left over, and `head` is the slot
behind the last element. -/
structure Represents (cb : CyclicBuffer) (q : List (List UInt8)) : Prop extends
    HoldsFrom cb q where
  short : q.length < cb.capacity.toNat
  head_eq : cb.head.toNat = (cb.tail.toNat + q.length) % cb.capacity.toNat

/-! ### Slots -/

/-- The slots below the capacity lie inside the storage. -/
theorem slot_end_le {index size : ℕ} (width : ℕ) (h : index < size) :
    index * width + width ≤ size * width := by
  rw [← Nat.succ_mul]
  exact Nat.mul_le_mul_right width h

/-- Different slots share no byte. -/
theorem slots_apart {i j : ℕ} (width : ℕ) (ne : i ≠ j) :
    i * width + width ≤ j * width ∨ j * width + width ≤ i * width :=
  (Nat.lt_or_gt_of_ne ne).imp (slot_end_le width) (slot_end_le width)

/-- Write an element into a slot. -/
def writeSlot (cb : CyclicBuffer) (index : ℕ) (x : List UInt8) : CyclicBuffer :=
  { cb with buffer := cb.buffer.overwrite (index * cb.elementSize.toNat) x }

theorem writeSlot_slot (cb : CyclicBuffer) (index : ℕ) (x : List UInt8) :
    (cb.writeSlot index x).Slot index x := by
  intro j hj
  change (cb.buffer.overwrite (index * cb.elementSize.toNat) x)
    (index * cb.elementSize.toNat + j) = _
  rw [ByteObject.overwrite, if_pos ⟨Nat.le_add_right _ _, Nat.add_lt_add_left hj _⟩,
    Nat.add_sub_cancel_left]

theorem Slot.writeSlot (slot : cb.Slot i y) (width : y.length = cb.elementSize.toNat)
    (width' : x.length = cb.elementSize.toNat) (ne : i ≠ index) :
    (cb.writeSlot index x).Slot i y := by
  intro j hj
  have apart := slots_apart cb.elementSize.toNat ne
  change (cb.buffer.overwrite (index * cb.elementSize.toNat) x)
    (i * cb.elementSize.toNat + j) = _
  rw [ByteObject.overwrite, if_neg (by omega)]
  exact slot j hj

/-- Writing a slot inside the storage leaves its extent. -/
theorem isSome_writeSlot (cb : CyclicBuffer) (width : x.length = cb.elementSize.toNat)
    (inside : ∀ j < cb.elementSize.toNat, (cb.buffer (index * cb.elementSize.toNat + j)).isSome)
    (i : ℕ) : ((cb.writeSlot index x).buffer i).isSome = (cb.buffer i).isSome := by
  change (if _ then _ else _ : Option UInt8).isSome = _
  split
  · rename_i within_
    obtain ⟨j, rfl⟩ := Nat.exists_eq_add_of_le within_.1
    rw [Nat.add_sub_cancel_left, List.getElem?_eq_getElem (by omega), inside j (by omega)]
    rfl
  · rfl

namespace HoldsFrom

/-! ### Indices in words -/

theorem capacity_le (h : cb.HoldsFrom q) : cb.capacity.toNat ≤ 2 ^ 31 - 1 :=
  (Nat.le_mul_of_pos_right _ h.width).trans h.fits

/-- Stepping an index below the capacity does not wrap in words. -/
theorem step_toNat (h : cb.HoldsFrom q) {index : UInt32} (below : index.toNat < cb.capacity.toNat) :
    ((index + 1) % cb.capacity).toNat = (index.toNat + 1) % cb.capacity.toNat := by
  have bound := h.capacity_le
  rw [UInt32.toNat_mod, UInt32.toNat_add, UInt32.toNat_one,
    Nat.mod_eq_of_lt (a := index.toNat + 1) (by omega)]

/-- The offset of a slot does not wrap in words. -/
theorem offset_toNat (h : cb.HoldsFrom q) {index : UInt32}
    (below : index.toNat < cb.capacity.toNat) :
    (index * cb.elementSize).toNat = index.toNat * cb.elementSize.toNat := by
  have inside := slot_end_le cb.elementSize.toNat below
  have bound := h.fits
  rw [UInt32.toNat_mul]
  exact Nat.mod_eq_of_lt (by omega)

/-- Every byte of a slot below the capacity is in the storage. -/
theorem slot_inside (h : cb.HoldsFrom q) (below : index < cb.capacity.toNat) :
    ∀ j < cb.elementSize.toNat, (cb.buffer (index * cb.elementSize.toNat + j)).isSome := by
  intro j hj
  have inside := slot_end_le cb.elementSize.toNat below
  exact (h.storage _).2 (by omega)

/-- Without its front the queue starts one slot later. -/
theorem advanceTail {rest : List (List UInt8)} (h : cb.HoldsFrom (x :: rest)) :
    cb.advanceTail.HoldsFrom rest where
  width := h.width
  fits := h.fits
  storage := h.storage
  tail_lt := by
    change ((cb.tail + 1) % cb.capacity).toNat < _
    rw [h.step_toNat h.tail_lt]
    exact Nat.mod_lt _ (Nat.zero_lt_of_lt h.tail_lt)
  widths y mem := h.widths y (List.mem_cons_of_mem x mem)
  slots i hi := by
    change cb.Slot ((((cb.tail + 1) % cb.capacity).toNat + i) % cb.capacity.toNat) _
    rw [h.step_toNat h.tail_lt, BoundedQueue.index_succ]
    exact h.slots (i + 1) (Nat.succ_lt_succ hi)

end HoldsFrom

namespace Represents

theorem head_lt (h : cb.Represents q) : cb.head.toNat < cb.capacity.toNat := by
  rw [h.head_eq]
  exact Nat.mod_lt _ (Nat.zero_lt_of_lt h.tail_lt)

/-! ### Questions -/

/-- The buffer is full when the next head is the tail. -/
theorem next_head_eq_iff (h : cb.Represents q) :
    (cb.head.toNat + 1) % cb.capacity.toNat = cb.tail.toNat ↔
      q.length = cb.capacity.toNat - 1 := by
  have short := h.short
  have tail := h.tail_lt
  rw [h.head_eq, Nat.mod_add_mod, Nat.add_assoc]
  constructor
  · intro wraps
    by_contra room
    have same : (cb.tail.toNat + (q.length + 1)) % cb.capacity.toNat =
        (cb.tail.toNat + 0) % cb.capacity.toNat := by
      rw [wraps, Nat.add_zero, Nat.mod_eq_of_lt tail]
    have zero := BoundedQueue.index_inj (by omega) (by omega) same
    omega
  · intro full
    have sum : q.length + 1 = cb.capacity.toNat := by omega
    rw [sum, Nat.add_mod_right, Nat.mod_eq_of_lt tail]

theorem isFull_iff (h : cb.Represents q) :
    cyclicBufferIsFull (some cb) = true ↔ q.length = cb.capacity.toNat - 1 := by
  rw [← h.next_head_eq_iff, ← h.step_toNat h.head_lt, UInt32.toNat_inj]
  exact beq_iff_eq

theorem isEmpty_iff (h : cb.Represents q) : cyclicBufferIsEmpty (some cb) = true ↔ q = [] := by
  have tail := h.tail_lt
  refine beq_iff_eq.trans ?_
  rw [← UInt32.toNat_inj, h.head_eq]
  constructor
  · intro same
    have start : (cb.tail.toNat + q.length) % cb.capacity.toNat =
        (cb.tail.toNat + 0) % cb.capacity.toNat := by
      rw [same, Nat.add_zero, Nat.mod_eq_of_lt tail]
    exact List.eq_nil_of_length_eq_zero
      (BoundedQueue.index_inj h.short (Nat.zero_lt_of_lt tail) start)
  · intro empty
    rw [empty]
    exact Nat.mod_eq_of_lt tail

theorem size_toNat (h : cb.Represents q) :
    (cyclicBufferSize (some cb)).toNat = q.length := by
  have bound := h.capacity_le
  have head := h.head_lt
  have tail := h.tail_lt
  have sum : (cb.head + cb.capacity).toNat = cb.head.toNat + cb.capacity.toNat :=
    toNat_add_of_lt rfl rfl (by omega)
  change ((cb.head + cb.capacity - cb.tail) % cb.capacity).toNat = _
  rw [UInt32.toNat_mod, UInt32.toNat_sub_of_le _ _ (by rw [UInt32.le_iff_toNat_le, sum]; omega),
    sum, h.head_eq]
  exact BoundedQueue.index_sub tail h.short

/-! ### Pushing -/

/-- With an element written behind the last one, the slots from `tail` on hold
the queue and the element. -/
theorem writeHead (h : cb.Represents q) (width : x.length = cb.elementSize.toNat) :
    (cb.writeSlot cb.head.toNat x).HoldsFrom (q ++ [x]) where
  width := h.width
  fits := h.fits
  storage i := by
    rw [isSome_writeSlot cb width (h.slot_inside h.head_lt)]
    exact h.storage i
  tail_lt := h.tail_lt
  widths y mem := by
    rcases List.mem_append.1 mem with old | new
    · exact h.widths y old
    · rw [List.mem_singleton.1 new]
      exact width
  slots i hi := by
    change (cb.writeSlot cb.head.toNat x).Slot ((cb.tail.toNat + i) % cb.capacity.toNat) _
    rw [List.length_append, List.length_singleton] at hi
    rw [h.head_eq]
    rcases Nat.lt_succ_iff_lt_or_eq.1 hi with old | rfl
    · rw [List.getElem_append_left old]
      refine (h.slots i old).writeSlot (h.widths _ (List.getElem_mem old)) width fun same => ?_
      have := BoundedQueue.index_inj (old.trans h.short) h.short same
      omega
    · rw [List.getElem_append_right (Nat.le_refl _)]
      simp only [Nat.sub_self, List.getElem_singleton]
      exact cb.writeSlot_slot _ x

/-- `cyclic_buffer_push` appends the element and drops the oldest one of a full
buffer. -/
theorem push (h : cb.Represents q) {source : ByteObject} (holds : source.HoldsAt 0 x)
    (width : x.length = cb.elementSize.toNat) :
    ∃ cb', cyclicBufferPush (some source) (some cb) = .ok true (some cb') ∧
      cb'.capacity = cb.capacity ∧ cb'.elementSize = cb.elementSize ∧
      cb'.Represents (BoundedQueue.push (cb.capacity.toNat - 1) q x) := by
  have written := h.writeHead width
  have next := h.step_toNat h.head_lt
  have short := h.short
  have copied : (copyObject cb.buffer (cb.head.toNat * cb.elementSize.toNat) source 0
      cb.elementSize : KernelM (Option CyclicBuffer) ByteObject) = _ :=
    copyObject_eq holds (by rw [width]; exact h.slot_inside h.head_lt) width.symm
  have run : cyclicBufferPush (some source) (some cb) =
      .ok true (some (if cyclicBufferIsFull (some cb) then
        ({ cb.writeSlot cb.head.toNat x with
          head := (cb.head + 1) % cb.capacity } : CyclicBuffer).advanceTail
        else { cb.writeSlot cb.head.toNat x with head := (cb.head + 1) % cb.capacity })) := by
    unfold cyclicBufferPush
    rw [Machine.bind_of_ok (Machine.get_run _)]
    simp only [h.offset_toNat h.head_lt, copied]
    rfl
  refine ⟨_, run, ?_⟩
  rcases Nat.lt_or_ge q.length (cb.capacity.toNat - 1) with room | full
  · -- the next head is not the tail
    have notFull : cyclicBufferIsFull (some cb) = false := by
      rw [← Bool.not_eq_true, h.isFull_iff]
      omega
    rw [notFull, BoundedQueue.push_of_lt room]
    refine ⟨rfl, rfl, { written with short := ?_, head_eq := ?_ }⟩
    · rw [List.length_append, List.length_singleton]
      change _ < cb.capacity.toNat
      omega
    · change ((cb.head + 1) % cb.capacity).toNat = _
      rw [next, h.head_eq, Nat.mod_add_mod, List.length_append]
      rfl
  · have length : q.length = cb.capacity.toNat - 1 := by omega
    rw [h.isFull_iff.2 length, BoundedQueue.push_of_full length]
    cases appended : q ++ [x] with
    | nil => exact absurd appended (List.append_ne_nil_of_right_ne_nil q (List.cons_ne_nil x []))
    | cons front rest =>
        rw [appended] at written
        have lengths := congrArg List.length appended
        rw [List.length_append, List.length_singleton, List.length_cons] at lengths
        have advanced := written.advanceTail
        refine ⟨rfl, rfl, { advanced with short := ?_, head_eq := ?_ }⟩
        · change rest.length < cb.capacity.toNat
          omega
        · change ((cb.head + 1) % cb.capacity).toNat =
            (((cb.tail + 1) % cb.capacity).toNat + rest.length) % cb.capacity.toNat
          have same : rest.length = q.length := by omega
          rw [next, h.step_toNat h.tail_lt, BoundedQueue.index_succ, h.head_eq, Nat.mod_add_mod,
            same]
          rfl

/-! ### Popping -/

/-- The copy of a pop reads the front of the queue. -/
theorem copyTail {σ : Type} {rest : List (List UInt8)} (h : cb.Represents (x :: rest))
    {destination : ByteObject} (room : ∀ i < cb.elementSize.toNat, (destination i).isSome) :
    (cb.copyTail destination : KernelM σ ByteObject) = pure (destination.overwrite 0 x) := by
  have width := h.widths x List.mem_cons_self
  have front := h.slots 0 (Nat.succ_pos _)
  rw [Nat.add_zero, Nat.mod_eq_of_lt h.tail_lt] at front
  unfold CyclicBuffer.copyTail
  rw [h.offset_toNat h.tail_lt]
  refine copyObject_eq front (fun i hi => ?_) width.symm
  rw [Nat.zero_add]
  exact room i (width ▸ hi)

theorem drop_front {rest : List (List UInt8)} (h : cb.Represents (x :: rest)) :
    cb.advanceTail.Represents rest := by
  have short := h.short
  rw [List.length_cons] at short
  refine { h.toHoldsFrom.advanceTail with short := Nat.lt_of_succ_lt short, head_eq := ?_ }
  change cb.head.toNat = (((cb.tail + 1) % cb.capacity).toNat + rest.length) % cb.capacity.toNat
  rw [h.step_toNat h.tail_lt, BoundedQueue.index_succ, h.head_eq]
  rfl

/-- `cyclic_buffer_pop` of a buffer that is not empty copies and drops the
front. -/
theorem pop_cons {rest : List (List UInt8)} (h : cb.Represents (x :: rest))
    {destination : ByteObject} (room : ∀ i < cb.elementSize.toNat, (destination i).isSome) :
    cyclicBufferPop (some destination) (some cb) =
      .ok (true, some (destination.overwrite 0 x)) (some cb.advanceTail) := by
  have some_ : cyclicBufferIsEmpty (some cb) = false := by
    rw [← Bool.not_eq_true, h.isEmpty_iff]
    exact List.cons_ne_nil x rest
  unfold cyclicBufferPop
  rw [Machine.bind_of_ok (Machine.get_run _)]
  simp only [some_, Bool.false_eq_true, if_false, h.copyTail room]
  rfl

/-- An empty buffer leaves the destination untouched. -/
theorem pop_nil (h : cb.Represents []) (destination : ByteObject) :
    cyclicBufferPop (some destination) (some cb) = .ok (false, some destination) (some cb) := by
  unfold cyclicBufferPop
  rw [Machine.bind_of_ok (Machine.get_run _)]
  simp only [h.isEmpty_iff.2, if_true]
  rfl

end Represents

end CyclicBuffer

/-- A buffer that `cyclic_buffer_init` has just set up is the empty queue. -/
theorem CyclicBuffer.represents_nil {storage : ByteObject} {capacity elementSize : UInt32}
    (some_ : capacity ≠ 0) (wide : elementSize ≠ 0)
    (fits : capacity.toNat * elementSize.toNat ≤ 2 ^ 31 - 1)
    (object : ∀ i, (storage i).isSome ↔ i < capacity.toNat * elementSize.toNat) :
    (CyclicBuffer.mk storage 0 0 capacity elementSize).Represents [] where
  width := Nat.pos_of_ne_zero fun zero => wide (UInt32.toNat_inj.1 zero)
  fits := fits
  storage := object
  tail_lt := Nat.pos_of_ne_zero fun zero => some_ (UInt32.toNat_inj.1 zero)
  widths _ mem := (List.not_mem_nil mem).elim
  slots _ h := absurd h (Nat.not_lt_zero _)
  short := Nat.pos_of_ne_zero fun zero => some_ (UInt32.toNat_inj.1 zero)
  head_eq := (Nat.zero_mod _).symm

/-- The elements from `tail` on, read byte by byte. -/
def CyclicBuffer.contents (cb : CyclicBuffer) : List (List UInt8) :=
  (List.range (cyclicBufferSize (some cb)).toNat).map fun i =>
    (List.range cb.elementSize.toNat).map fun j =>
      (cb.buffer ((cb.tail.toNat + i) % cb.capacity.toNat * cb.elementSize.toNat + j)).getD 0

theorem CyclicBuffer.Represents.contents_eq {cb : CyclicBuffer} {q : List (List UInt8)}
    (h : cb.Represents q) : cb.contents = q := by
  refine List.ext_getElem (by rw [contents, List.length_map, List.length_range, h.size_toNat])
    fun i _ hi => ?_
  have width := h.widths q[i] (List.getElem_mem hi)
  simp only [contents, List.getElem_map, List.getElem_range]
  refine List.ext_getElem (by rw [List.length_map, List.length_range, width]) fun j _ hj => ?_
  rw [List.getElem_map, List.getElem_range, h.slots i hi j hj, List.getElem?_eq_getElem hj]
  rfl

/-! ## Runs of calls -/

/-- A call on a buffer, with the object its pointer refers to. -/
inductive BufferCall
  | push (source : List UInt8)
  | pop (destination : List UInt8)

/-- What a call returns; a pop also leaves its destination. -/
inductive BufferResult
  | pushed (ok : Bool)
  | popped (ok : Bool) (destination : Option ByteObject)

namespace BufferCall

/-- The object of the call has room for an element. -/
def Valid (width : ℕ) : BufferCall → Prop
  | push source => width ≤ source.length
  | pop destination => width ≤ destination.length

/-- The call as the code makes it. -/
def run : BufferCall → KernelM (Option CyclicBuffer) BufferResult
  | push source => do
      let ok ← cyclicBufferPush (some (.ofBytes source))
      pure (.pushed ok)
  | pop destination => do
      let (ok, destination) ← cyclicBufferPop (some (.ofBytes destination))
      pure (.popped ok destination)

/-- The call on a queue of at most `bound` elements. -/
def onQueue (bound width : ℕ) : BufferCall → List (List UInt8) → BufferResult × List (List UInt8)
  | push source, q => (.pushed true, BoundedQueue.push bound q (source.take width))
  | pop destination, [] => (.popped false (some (.ofBytes destination)), [])
  | pop destination, front :: q =>
      (.popped true (some (.ofBytes (front ++ destination.drop width))), q)

/-- A sequence of calls on a queue: what they return and the queue they leave. -/
def allOnQueue (bound width : ℕ) :
    List BufferCall → List (List UInt8) → List BufferResult × List (List UInt8)
  | [], q => ([], q)
  | call :: calls, q =>
      let (result, q) := call.onQueue bound width q
      let (results, q) := allOnQueue bound width calls q
      (result :: results, q)

end BufferCall

namespace ByteObject

theorem holdsAt_take (bytes : List UInt8) (width : ℕ) :
    (ofBytes bytes).HoldsAt 0 (bytes.take width) := by
  intro i hi
  rw [List.length_take] at hi
  rw [Nat.zero_add, List.getElem?_take_of_lt (by omega)]
  rfl

/-- Replacing the first bytes of an object. -/
theorem overwrite_ofBytes (bytes x : List UInt8) :
    (ofBytes bytes).overwrite 0 x = ofBytes (x ++ bytes.drop x.length) := by
  funext i
  change (if 0 ≤ i ∧ i < 0 + x.length then x[i - 0]? else bytes[i]?) = (x ++ _)[i]?
  rcases Nat.lt_or_ge i x.length with inside | outside
  · rw [if_pos ⟨Nat.zero_le i, by omega⟩, List.getElem?_append_left inside, Nat.sub_zero]
  · rw [if_neg (by omega), List.getElem?_append_right outside, List.getElem?_drop]
    congr 1
    omega

end ByteObject

/-- Bytes written over an object can be read back. -/
theorem ByteObject.overwrite_inj {object : ByteObject} {offset : ℕ} {x y : List UInt8}
    (width : x.length = y.length) (same : object.overwrite offset x = object.overwrite offset y) :
    x = y := by
  refine List.ext_getElem? fun i => ?_
  rcases Nat.lt_or_ge i x.length with inside | outside
  · have at_ := congrFun same (offset + i)
    rw [overwrite, overwrite, if_pos ⟨Nat.le_add_right _ _, by omega⟩,
      if_pos ⟨Nat.le_add_right _ _, by omega⟩, Nat.add_sub_cancel_left] at at_
    exact at_
  · rw [List.getElem?_eq_none outside, List.getElem?_eq_none (width ▸ outside)]

namespace CyclicBuffer.Represents

variable {cb : CyclicBuffer} {q : List (List UInt8)}

/-- Every call on the buffer does what it does on the queue. -/
theorem call (h : cb.Represents q) {call : BufferCall} (valid : call.Valid cb.elementSize.toNat) :
    ∃ cb', call.run (some cb) = .ok (call.onQueue (cb.capacity.toNat - 1)
        cb.elementSize.toNat q).1 (some cb') ∧
      cb'.capacity = cb.capacity ∧ cb'.elementSize = cb.elementSize ∧
      cb'.Represents (call.onQueue (cb.capacity.toNat - 1) cb.elementSize.toNat q).2 := by
  cases call with
  | push source =>
      have width : (source.take cb.elementSize.toNat).length = cb.elementSize.toNat := by
        rw [List.length_take, Nat.min_eq_left valid]
      obtain ⟨cb', run, capacity, elementSize, represents⟩ :=
        h.push (ByteObject.holdsAt_take source cb.elementSize.toNat) width
      exact ⟨cb', (Machine.bind_of_ok run).trans rfl, capacity, elementSize, represents⟩
  | pop destination =>
      cases q with
      | nil => exact ⟨cb, (Machine.bind_of_ok (h.pop_nil _)).trans rfl, rfl, rfl, h⟩
      | cons front rest =>
          have width := h.widths front List.mem_cons_self
          have enough : cb.elementSize.toNat ≤ destination.length := valid
          have room : ∀ i < cb.elementSize.toNat,
              (ByteObject.ofBytes destination i).isSome := by
            intro i hi
            rw [ByteObject.ofBytes, List.getElem?_eq_getElem (by omega)]
            rfl
          have popped := h.pop_cons room
          rw [ByteObject.overwrite_ofBytes, width] at popped
          exact ⟨cb.advanceTail, (Machine.bind_of_ok popped).trans rfl, rfl, rfl, h.drop_front⟩

/-- So does every sequence of calls. -/
theorem calls {calls : List BufferCall} (h : cb.Represents q)
    (valid : ∀ call ∈ calls, call.Valid cb.elementSize.toNat) :
    ∃ cb', calls.mapM BufferCall.run (some cb) = .ok (BufferCall.allOnQueue
        (cb.capacity.toNat - 1) cb.elementSize.toNat calls q).1 (some cb') ∧
      cb'.capacity = cb.capacity ∧ cb'.elementSize = cb.elementSize ∧
      cb'.Represents (BufferCall.allOnQueue (cb.capacity.toNat - 1) cb.elementSize.toNat
        calls q).2 := by
  induction calls generalizing cb q with
  | nil => exact ⟨cb, rfl, rfl, rfl, h⟩
  | cons call calls ih =>
      obtain ⟨cb₁, first, capacity, elementSize, represents⟩ :=
        h.call (valid call List.mem_cons_self)
      rw [← elementSize] at valid
      obtain ⟨cb', rest, capacity', elementSize', represents'⟩ :=
        ih represents fun call mem => valid call (List.mem_cons_of_mem _ mem)
      rw [capacity, elementSize] at rest represents'
      refine ⟨cb', ?_, capacity'.trans capacity, elementSize'.trans elementSize, represents'⟩
      rw [List.mapM_cons, Machine.bind_of_ok first, Machine.bind_of_ok rest]
      rfl

end CyclicBuffer.Represents

/-- After `cyclic_buffer_init` on a storage of exactly `capacity` elements, any
sequence of pushes and pops behaves as a queue that keeps the last
`capacity - 1` elements.  The calls return, so no copy leaves the storage. -/
theorem cyclicBuffer_is_queue {storage : ByteObject} {capacity elementSize : UInt32}
    (some_ : capacity ≠ 0) (wide : elementSize ≠ 0)
    (fits : capacity.toNat * elementSize.toNat ≤ 2 ^ 31 - 1)
    (object : ∀ i, (storage i).isSome ↔ i < capacity.toNat * elementSize.toNat)
    (cb₀ : CyclicBuffer) {calls : List BufferCall}
    (valid : ∀ call ∈ calls, call.Valid elementSize.toNat) :
    ∃ cb, (do
          let ok ← cyclicBufferInit (some storage) capacity elementSize
          let results ← calls.mapM BufferCall.run
          pure (ok, results)) (some cb₀) =
        .ok (true, (BufferCall.allOnQueue (capacity.toNat - 1) elementSize.toNat calls []).1)
          (some cb) ∧
      (cyclicBufferSize (some cb)).toNat =
        (BufferCall.allOnQueue (capacity.toNat - 1) elementSize.toNat calls []).2.length ∧
      (cyclicBufferIsEmpty (some cb) = true ↔
        (BufferCall.allOnQueue (capacity.toNat - 1) elementSize.toNat calls []).2 = []) ∧
      (cyclicBufferIsFull (some cb) = true ↔
        (BufferCall.allOnQueue (capacity.toNat - 1) elementSize.toNat calls []).2.length =
          capacity.toNat - 1) ∧
      cb.head < capacity ∧ cb.tail < capacity ∧
      ∀ i, (cb.buffer i).isSome ↔ i < capacity.toNat * elementSize.toNat := by
  have init : cyclicBufferInit (some storage) capacity elementSize (some cb₀) =
      .ok true (some ⟨storage, 0, 0, capacity, elementSize⟩) := by
    unfold cyclicBufferInit
    rw [Machine.bind_of_ok (Machine.get_run _)]
    simp only [some_, wide, or_self, if_false]
    rfl
  have empty := CyclicBuffer.represents_nil some_ wide fits object
  obtain ⟨cb, run, sameCapacity, sameSize, represents⟩ := empty.calls valid
  have sameFull := represents.isFull_iff
  rw [sameCapacity] at sameFull
  refine ⟨cb, ?_, represents.size_toNat, represents.isEmpty_iff, sameFull, ?_, ?_, ?_⟩
  · rw [Machine.bind_of_ok init, Machine.bind_of_ok run]
    rfl
  · have below := represents.head_lt
    rw [sameCapacity] at below
    exact UInt32.lt_iff_toNat_lt.2 below
  · have below := represents.tail_lt
    rw [sameCapacity] at below
    exact UInt32.lt_iff_toNat_lt.2 below
  · have extent := represents.storage
    rw [sameCapacity, sameSize] at extent
    exact extent

/-- A storage of four elements of two bytes. -/
def fourSlots : ByteObject := .ofBytes (List.replicate 8 0)

theorem fourSlots_isSome (i : ℕ) :
    (fourSlots i).isSome ↔ i < (4 : UInt32).toNat * (2 : UInt32).toNat := by
  simp [fourSlots, ByteObject.ofBytes]

/-- Four pushes, of which the last drops the first, and a pop. -/
def overflowingCalls : List BufferCall :=
  [.push [1, 2], .push [3, 4], .push [5, 6], .push [7, 8], .pop [0, 0]]

theorem fourSlots_is_queue :
    ∃ cb, (do
          let ok ← cyclicBufferInit (some fourSlots) 4 2
          let results ← overflowingCalls.mapM BufferCall.run
          pure (ok, results)) (some ⟨fourSlots, 7, 7, 7, 7⟩) =
        .ok (true, (BufferCall.allOnQueue 3 2 overflowingCalls []).1) (some cb) ∧
      (cyclicBufferSize (some cb)).toNat = 2 := by
  obtain ⟨cb, run, size, -⟩ := cyclicBuffer_is_queue (by decide : (4 : UInt32) ≠ 0)
    (by decide : (2 : UInt32) ≠ 0) (by decide) fourSlots_isSome
    ⟨fourSlots, 7, 7, 7, 7⟩
    (by simp [overflowingCalls, BufferCall.Valid] :
      ∀ call ∈ overflowingCalls, call.Valid (2 : UInt32).toNat)
  exact ⟨cb, run, size⟩

end ArkoiOs
