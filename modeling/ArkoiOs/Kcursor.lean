import ArkoiOs.Kmemory
import ArkoiOs.Library.AtomicBlocks

/-!
# The write cursor

`lib/kcursor.c` on a memory of objects.  The cursor fills its buffer from the
start: `filled` is the state after some bytes, and `Emits` says which blocks of
bytes a piece of code adds to them, as far as there is room.
-/

namespace ArkoiOs

variable {ι : Type}

/-- `kcursor_t`. -/
structure Kcursor (ι : Type) where
  start : Pointer ι
  current : Pointer ι
  end_ : Pointer ι
  deriving DecidableEq, Repr

/-- Memory, and what the cursor pointer points to; a null pointer is `none`. -/
structure CursorState (ι : Type) where
  memory : ByteMemory ι
  cursor : Option (Kcursor ι)

/-- Run code on the memory. -/
def onBytes {α : Type} (x : KernelM (ByteMemory ι) α) : KernelM (CursorState ι) α :=
  Machine.zoom (fun state => some state.memory)
    (fun state memory => { state with memory := memory }) .nullDereference x

theorem onBytes_of_ok {α : Type} {x : KernelM (ByteMemory ι) α} {state : CursorState ι}
    {memory : ByteMemory ι} {a : α} (run : x state.memory = .ok a memory) :
    onBytes x state = .ok a { state with memory := memory } :=
  Machine.zoom_of_ok rfl run

/-- `kcursor_init`. -/
def kcursorInit (buffer : Option (Pointer ι)) (size : UInt32) : KernelM (CursorState ι) Bool := do
  let state ← get
  match state.cursor, buffer with
  | some _, some buffer =>
      if size = 0 then pure false
      else do
        set { state with cursor := some ⟨buffer, buffer, buffer.advance size.toNat⟩ }
        pure true
  | _, _ => pure false

/-- `kcursor_remaining`; the difference is cut to 32 bits. -/
def kcursorRemaining : Option (Kcursor ι) → UInt32
  | none => 0
  | some cursor => UInt32.ofNat cursor.end_.offset - UInt32.ofNat cursor.current.offset

/-- `kcursor_written`. -/
def kcursorWritten : Option (Kcursor ι) → UInt32
  | none => 0
  | some cursor => UInt32.ofNat cursor.current.offset - UInt32.ofNat cursor.start.offset

/-- `cursor->current += amount`. -/
def moveCursor (amount : ℕ) : KernelM (CursorState ι) Unit :=
  modify fun state =>
    { state with
      cursor := state.cursor.map fun cursor =>
        { cursor with current := cursor.current.advance amount } }

/-- `kcursor_advance`. -/
def kcursorAdvance (amount : UInt32) : KernelM (CursorState ι) Bool := do
  let state ← get
  match state.cursor with
  | none => pure false
  | some cursor =>
      if amount > kcursorRemaining (some cursor) then pure false
      else do
        moveCursor amount.toNat
        pure true

variable [DecidableEq ι]

/-- `kcursor_write_byte`. -/
def kcursorWriteByte (value : UInt8) : KernelM (CursorState ι) Bool := do
  let state ← get
  match state.cursor with
  | none => pure false
  | some cursor =>
      if kcursorRemaining (some cursor) = 0 then pure false
      else do
        onBytes (storeByte cursor.current value)
        moveCursor 1
        pure true

/-- `kcursor_write`. -/
def kcursorWrite (source : Option (Pointer ι)) (length : UInt32) :
    KernelM (CursorState ι) Bool := do
  let state ← get
  match state.cursor, source with
  | some cursor, some source =>
      if length = 0 then pure true
      else if length > kcursorRemaining (some cursor) then pure false
      else do
        let _ ← onBytes (kmemcpy (some cursor.current) (some source) length)
        moveCursor length.toNat
        pure true
  | _, _ => pure false

/-! ## One write -/

section Advance

variable {ι : Type} {state : CursorState ι} {cursor : Kcursor ι} {amount : UInt32}

theorem kcursorAdvance_full (there : state.cursor = some cursor)
    (full : amount > kcursorRemaining (some cursor)) :
    kcursorAdvance amount state = .ok false state := by
  unfold kcursorAdvance
  rw [Machine.bind_of_ok (Machine.get_run _)]
  simp only [there, if_pos full]
  rfl

theorem kcursorAdvance_room (there : state.cursor = some cursor)
    (fits : ¬ amount > kcursorRemaining (some cursor)) :
    kcursorAdvance amount state = .ok true { state with
      cursor := some { cursor with current := cursor.current.advance amount.toNat } } := by
  unfold kcursorAdvance
  rw [Machine.bind_of_ok (Machine.get_run _)]
  simp only [there, if_neg fits]
  rw [moveCursor, Machine.bind_of_ok (Machine.modify_run _ _)]
  simp only [there]
  rfl

end Advance

section Write

variable {state : CursorState ι} {cursor : Kcursor ι}

theorem kcursorWriteByte_full (there : state.cursor = some cursor)
    (full : kcursorRemaining (some cursor) = 0) (value : UInt8) :
    kcursorWriteByte value state = .ok false state := by
  unfold kcursorWriteByte
  rw [Machine.bind_of_ok (Machine.get_run _)]
  simp only [there, if_pos full]
  rfl

theorem kcursorWriteByte_room (there : state.cursor = some cursor)
    (remaining : kcursorRemaining (some cursor) ≠ 0)
    (byte : (state.memory.byte cursor.current).isSome) (value : UInt8) :
    kcursorWriteByte value state = .ok true
      ⟨state.memory.overwrite cursor.current [value],
        some { cursor with current := cursor.current.advance 1 }⟩ := by
  have stored : onBytes (storeByte cursor.current value) state =
      .ok () { state with memory := state.memory.overwrite cursor.current [value] } :=
    onBytes_of_ok (storeByte_of_room byte value)
  unfold kcursorWriteByte
  rw [Machine.bind_of_ok (Machine.get_run _)]
  simp only [there, if_neg remaining]
  rw [Machine.bind_of_ok stored, moveCursor, Machine.bind_of_ok (Machine.modify_run _ _)]
  simp only [there]
  rfl

variable {source : Pointer ι} {length : UInt32}

theorem kcursorWrite_zero (there : state.cursor = some cursor) (source : Pointer ι) :
    kcursorWrite (some source) 0 state = .ok true state := by
  unfold kcursorWrite
  rw [Machine.bind_of_ok (Machine.get_run _)]
  simp only [there]
  rfl

theorem kcursorWrite_full (there : state.cursor = some cursor)
    (full : length > kcursorRemaining (some cursor)) :
    kcursorWrite (some source) length state = .ok false state := by
  have positive : length ≠ 0 := by
    rintro rfl
    exact absurd full (UInt32.not_lt_zero)
  unfold kcursorWrite
  rw [Machine.bind_of_ok (Machine.get_run _)]
  simp only [there, if_neg positive, if_pos full]
  rfl

theorem kcursorWrite_room (there : state.cursor = some cursor) {bytes : List UInt8}
    (fits : ¬ length > kcursorRemaining (some cursor)) (same : length.toNat = bytes.length)
    (holds : state.memory.Holds source bytes) (room : state.memory.Room cursor.current bytes.length)
    (apart : source.Apart bytes.length cursor.current bytes.length) :
    kcursorWrite (some source) length state = .ok true
      ⟨state.memory.overwrite cursor.current bytes,
        some { cursor with current := cursor.current.advance bytes.length }⟩ := by
  have copied : onBytes (kmemcpy (some cursor.current) (some source) length) state =
      .ok (some cursor.current)
        { state with memory := state.memory.overwrite cursor.current bytes } :=
    onBytes_of_ok (kmemcpy_eq holds room apart same)
  unfold kcursorWrite
  rw [Machine.bind_of_ok (Machine.get_run _)]
  simp only [there]
  rcases eq_or_ne length 0 with zero | positive
  · simp only [if_pos zero]
    have empty : bytes = [] := List.eq_nil_of_length_eq_zero (by rw [← same, zero]; rfl)
    rw [empty, ByteMemory.overwrite_nil, List.length_nil, Pointer.advance_zero, ← there]
    rfl
  · simp only [if_neg positive, if_neg fits]
    rw [Machine.bind_of_ok copied, moveCursor, Machine.bind_of_ok (Machine.modify_run _ _), same]
    simp only [there]
    rfl

end Write

/-! ## Filling a buffer -/

/-- The buffer after `text` was written from its start. -/
def filled (memory : ByteMemory ι) (buffer : Pointer ι) (capacity : ℕ) (text : List UInt8) :
    CursorState ι where
  memory := memory.overwrite buffer text
  cursor := some ⟨buffer, buffer.advance text.length, buffer.advance capacity⟩

/-- The code writes the blocks, each whole, and stops at the first one without room; it
returns `done` if all had room and `broken` if it stopped. -/
def EmitsOr {α : Type} (memory : ByteMemory ι) (buffer : Pointer ι) (capacity : ℕ)
    (x : KernelM (CursorState ι) α) (blocks : List (List UInt8)) (done broken : α) : Prop :=
  ∀ text, text.length ≤ capacity →
    x (filled memory buffer capacity text) =
      .ok (if blocks.flatten.length ≤ capacity - text.length then done else broken)
        (filled memory buffer capacity
          (text ++ AtomicBlocks.fill (capacity - text.length) blocks))

/-- The code writes the blocks and tells whether all had room. -/
abbrev Emits (memory : ByteMemory ι) (buffer : Pointer ι) (capacity : ℕ)
    (x : KernelM (CursorState ι) Bool) (blocks : List (List UInt8)) : Prop :=
  EmitsOr memory buffer capacity x blocks true false

section Emits

variable {memory : ByteMemory ι} {buffer : Pointer ι} {capacity : ℕ} {text : List UInt8}

theorem kcursorRemaining_filled (memory : ByteMemory ι) (buffer : Pointer ι)
    (bound : capacity < 2 ^ 32) (short : text.length ≤ capacity) :
    (kcursorRemaining (filled memory buffer capacity text).cursor).toNat =
      capacity - text.length := by
  simp only [kcursorRemaining, filled, Pointer.advance_offset]
  rw [UInt32.toNat_sub, UInt32.toNat_ofNat', UInt32.toNat_ofNat']
  omega

theorem kcursorWritten_filled (bound : text.length < 2 ^ 32) :
    (kcursorWritten (filled memory buffer capacity text).cursor).toNat = text.length := by
  simp only [kcursorWritten, filled, Pointer.advance_offset]
  rw [UInt32.toNat_sub, UInt32.toNat_ofNat', UInt32.toNat_ofNat']
  omega

/-- After `kcursor_init` the buffer is filled with nothing. -/
theorem kcursorInit_filled {size : UInt32} (positive : size ≠ 0) (cursor : Kcursor ι) :
    kcursorInit (some buffer) size ⟨memory, some cursor⟩ =
      .ok true (filled memory buffer size.toNat []) := by
  unfold kcursorInit
  rw [Machine.bind_of_ok (Machine.get_run _)]
  simp only [if_neg positive]
  rw [filled, ByteMemory.overwrite_nil]
  rfl

/-- Writing behind the text. -/
theorem filled_append (memory : ByteMemory ι) (buffer : Pointer ι) (capacity : ℕ)
    (text more : List UInt8) :
    ({ memory := (memory.overwrite buffer text).overwrite (buffer.advance text.length) more
       cursor := some ⟨buffer, (buffer.advance text.length).advance more.length,
        buffer.advance capacity⟩ } : CursorState ι) =
      filled memory buffer capacity (text ++ more) := by
  rw [ByteMemory.overwrite_append, Pointer.advance_advance, filled, List.length_append]

theorem emits_nil {α : Type} (done broken : α) :
    EmitsOr memory buffer capacity (pure done) [] done broken := by
  intro text short
  have none : (([] : List (List UInt8)).flatten.length ≤ capacity - text.length) := Nat.zero_le _
  rw [AtomicBlocks.fill_nil, List.append_nil]
  exact congrArg (EStateM.Result.ok · (filled memory buffer capacity text)) (if_pos none).symm

/-- Code that goes on with what its first part returned, and ends where that part had no
room. -/
theorem EmitsOr.bind {α β : Type} {x : KernelM (CursorState ι) α}
    {f : α → KernelM (CursorState ι) β} {done broken : α} {done' broken' : β}
    {first rest : List (List UInt8)} (hx : EmitsOr memory buffer capacity x first done broken)
    (more : EmitsOr memory buffer capacity (f done) rest done' broken')
    (stop : ∀ state, f broken state = .ok broken' state) :
    EmitsOr memory buffer capacity (x >>= f) (first ++ rest) done' broken' := by
  intro text short
  rw [Machine.bind_of_ok (hx text short), List.flatten_append, List.length_append]
  rcases Nat.lt_or_ge (capacity - text.length) first.flatten.length with full | fits
  · have beyond : ¬ first.flatten.length + rest.flatten.length ≤ capacity - text.length := by
      omega
    rw [if_neg (Nat.not_le.2 full), if_neg beyond, AtomicBlocks.fill_append_of_lt full]
    exact stop _
  · have written : (text ++ first.flatten).length ≤ capacity := by
      rw [List.length_append]
      omega
    have left : capacity - (text ++ first.flatten).length =
        capacity - text.length - first.flatten.length := by
      rw [List.length_append]
      omega
    have next := more (text ++ first.flatten) written
    rw [left, List.append_assoc] at next
    rw [if_pos fits, AtomicBlocks.fill_of_le fits, AtomicBlocks.fill_append fits]
    have same : first.flatten.length + rest.flatten.length ≤ capacity - text.length ↔
        rest.flatten.length ≤ capacity - text.length - first.flatten.length := by
      omega
    simp only [same]
    exact next

/-- Code that first reads something. -/
theorem EmitsOr.reading {α β : Type} {x : KernelM (CursorState ι) α} {a : α}
    {f : α → KernelM (CursorState ι) β} {blocks : List (List UInt8)} {done broken : β}
    (read : ∀ text, text.length ≤ capacity → x (filled memory buffer capacity text) =
      .ok a (filled memory buffer capacity text))
    (more : EmitsOr memory buffer capacity (f a) blocks done broken) :
    EmitsOr memory buffer capacity (x >>= f) blocks done broken := by
  intro text short
  rw [Machine.bind_of_ok (read text short)]
  exact more text short

/-- Code that goes on where its first part had room. -/
theorem Emits.andThen {α : Type} {x : KernelM (CursorState ι) Bool}
    {y : KernelM (CursorState ι) α} {done broken : α} {first rest : List (List UInt8)}
    (hx : Emits memory buffer capacity x first)
    (hy : EmitsOr memory buffer capacity y rest done broken) :
    EmitsOr memory buffer capacity (do if !(← x) then pure broken else y) (first ++ rest)
      done broken :=
  EmitsOr.bind hx hy fun _ => rfl

/-- One block that is written when it has room emits itself. -/
theorem emits_block {x : KernelM (CursorState ι) Bool} {block : List UInt8}
    (full : ∀ text, text.length ≤ capacity → capacity - text.length < block.length →
      x (filled memory buffer capacity text) = .ok false (filled memory buffer capacity text))
    (fits : ∀ text, text.length + block.length ≤ capacity →
      x (filled memory buffer capacity text) =
        .ok true (filled memory buffer capacity (text ++ block))) :
    Emits memory buffer capacity x [block] := by
  intro text short
  have alone : [block].flatten = block := List.append_nil block
  rw [alone]
  rcases Nat.lt_or_ge (capacity - text.length) block.length with no_room | room
  · rw [if_neg (Nat.not_le.2 no_room), AtomicBlocks.fill, if_neg (Nat.not_le.2 no_room),
      List.append_nil]
    exact full text short no_room
  · rw [if_pos room, AtomicBlocks.fill_of_le (by rw [alone]; exact room), alone]
    exact fits text (by omega)

/-- What is behind the text of a filled buffer. -/
theorem room_filled (room : memory.Room buffer capacity) {more : ℕ}
    (fits : text.length + more ≤ capacity) :
    (filled memory buffer capacity text).memory.Room (buffer.advance text.length) more := by
  have front : memory.Room buffer text.length := room.part (i := 0) (by omega)
  exact (ByteMemory.room_overwrite front).2 (room.part fits)

theorem kcursorWriteByte_emits (room : memory.Room buffer capacity) (bound : capacity < 2 ^ 32)
    (value : UInt8) : Emits memory buffer capacity (kcursorWriteByte value) [[value]] := by
  refine emits_block (fun text short full => ?_) fun text fits => ?_
  · have remaining := kcursorRemaining_filled memory buffer bound short
    have none : kcursorRemaining (filled memory buffer capacity text).cursor = 0 := by
      apply UInt32.toNat_inj.1
      rw [remaining]
      exact Nat.lt_one_iff.1 full
    exact kcursorWriteByte_full rfl none value
  · have one : text.length + 1 ≤ capacity := fits
    have remaining := kcursorRemaining_filled memory buffer bound
      (show text.length ≤ capacity by omega)
    have some_ : kcursorRemaining (filled memory buffer capacity text).cursor ≠ 0 := by
      intro zero
      rw [zero, UInt32.toNat_zero] at remaining
      omega
    have there := ByteMemory.room_one.1 (room_filled room one)
    rw [← filled_append]
    exact kcursorWriteByte_room rfl some_ there value

/-- A string apart from the buffer is written whole. -/
theorem kcursorWrite_emits (room : memory.Room buffer capacity) (bound : capacity < 2 ^ 32)
    {source : Pointer ι} {bytes : List UInt8} {length : UInt32} (holds : memory.Holds source bytes)
    (apart : source.Apart bytes.length buffer capacity) (same : length.toNat = bytes.length) :
    Emits memory buffer capacity (kcursorWrite (some source) length) [bytes] := by
  refine emits_block (fun text short full => ?_) fun text fits => ?_
  · have remaining := kcursorRemaining_filled memory buffer bound short
    refine kcursorWrite_full rfl ?_
    rw [gt_iff_lt, UInt32.lt_iff_toNat_lt, same]
    exact remaining.trans_lt full
  · have remaining := kcursorRemaining_filled memory buffer bound
      (show text.length ≤ capacity by omega)
    have fits' : ¬ length > kcursorRemaining (filled memory buffer capacity text).cursor := by
      rw [gt_iff_lt, UInt32.lt_iff_toNat_lt, same, remaining]
      omega
    have kept : (filled memory buffer capacity text).memory.Holds source bytes :=
      holds.overwrite (apart.part (i := 0) (j := 0) (by omega) (by omega))
    rw [← filled_append]
    refine kcursorWrite_room rfl fits' same kept (room_filled room fits) ?_
    exact apart.part (i := 0) (by omega) (by omega)

end Emits

end ArkoiOs
