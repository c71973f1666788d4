import ArkoiOs.Kcursor

/-!
# Calls on a cursor

Calls of `kcursor_write_byte`, `kcursor_write` and `kcursor_advance` in any order.
Between calls the caller may change all memory but the buffer.  The buffer holds
what the calls that returned true put into it, and the next call is refused
exactly where it is longer than what remains, without any effect.
-/

namespace ArkoiOs

open Machine

variable {ι : Type}

/-! ## Calls -/

/-- A call on the cursor, with its arguments. -/
inductive CursorCall (ι : Type)
  | writeByte (value : UInt8)
  | write (source : Pointer ι) (length : UInt32)
  | advance (amount : UInt32)
  deriving DecidableEq, Repr

/-- A call, and the memory outside the buffer that it finds. -/
structure CursorTurn (ι : Type) where
  elsewhere : ByteMemory ι
  call : CursorCall ι

/-- The bytes the call is about. -/
def CursorCall.length : CursorCall ι → ℕ
  | writeByte _ => 1
  | write _ length => length.toNat
  | advance amount => amount.toNat

section Run

variable [DecidableEq ι]

/-- Make the call. -/
def CursorCall.run : CursorCall ι → KernelM (CursorState ι) Bool
  | writeByte value => kcursorWriteByte value
  | write source length => kcursorWrite (some source) length
  | advance amount => kcursorAdvance amount

/-- The memory with other bytes outside the window. -/
def replaceOutside (buffer : Pointer ι) (size : ℕ) (elsewhere memory : ByteMemory ι) :
    ByteMemory ι := fun object offset =>
  if ByteMemory.Within [(buffer, size)] ⟨object, offset⟩ then memory object offset
  else elsewhere object offset

namespace CursorTurn

variable (buffer : Pointer ι) (size : ℕ)

/-- The state the call finds. -/
def before (turn : CursorTurn ι) (state : CursorState ι) : CursorState ι :=
  { state with memory := replaceOutside buffer size turn.elsewhere state.memory }

/-- Make the call. -/
def run (turn : CursorTurn ι) : KernelM (CursorState ι) Bool := do
  modify (turn.before buffer size)
  turn.call.run

/-- Bytes to be copied that fit into the buffer are there and do not overlap it. -/
def Sound (turn : CursorTurn ι) : Prop :=
  match turn.call with
  | .write source length => length ≠ 0 → length.toNat ≤ size →
      turn.elsewhere.Room source length.toNat ∧ source.Apart length.toNat buffer size
  | _ => True

end CursorTurn

/-- Make the calls in their order; each is returned with its result. -/
def runCursorTurns (buffer : Pointer ι) (size : ℕ) (turns : List (CursorTurn ι)) :
    KernelM (CursorState ι) (List (CursorTurn ι × Bool)) :=
  recordEach (CursorTurn.run buffer size) turns

end Run

/-! ## What the buffer holds -/

/-- What the call puts behind `written` bytes; `original` were in the buffer. -/
def CursorTurn.payload (original : List UInt8) (written : ℕ) (turn : CursorTurn ι) : List UInt8 :=
  match turn.call with
  | .writeByte value => [value]
  | .write source length => turn.elsewhere.read source length.toNat
  | .advance amount => (original.drop written).take amount.toNat

/-- The payloads of the calls that returned true. -/
def cursorText (original : List UInt8) (history : List (CursorTurn ι × Bool)) : List UInt8 :=
  history.foldl
    (fun text entry =>
      if entry.2 then text ++ entry.1.payload original text.length else text) []

theorem cursorText_concat (original : List UInt8) (history : List (CursorTurn ι × Bool))
    (turn : CursorTurn ι) (result : Bool) :
    cursorText original (history ++ [(turn, result)]) =
      if result then
        cursorText original history ++
          turn.payload original (cursorText original history).length
      else cursorText original history := by
  rw [cursorText, List.foldl_append]
  rfl

/-- What the cursor promises behind calls: it stays in the buffer, what is written and
what remains are all of it, the buffer holds the payloads and behind them what it held
before, and the next call is refused if and only if it is longer than what remains, and
then changes nothing. -/
structure CursorKeeps [DecidableEq ι] (buffer : Pointer ι) (size : UInt32)
    (original : List UInt8) (history : List (CursorTurn ι × Bool)) (state : CursorState ι) :
    Prop where
  inside : ∃ cursor, state.cursor = some cursor ∧ cursor.start = buffer ∧
    cursor.end_ = buffer.advance size.toNat ∧ ∃ written ≤ size.toNat,
      cursor.current = buffer.advance written
  whole : (kcursorWritten state.cursor).toNat + (kcursorRemaining state.cursor).toNat = size.toNat
  written : (kcursorWritten state.cursor).toNat = (cursorText original history).length
  payloads : state.memory.Holds buffer (cursorText original history)
  behind : state.memory.Holds (buffer.advance (cursorText original history).length)
    (original.drop (cursorText original history).length)
  next : ∀ turn : CursorTurn ι, turn.Sound buffer size.toNat → ∃ result state',
    turn.run buffer size.toNat state = .ok result state' ∧
      (result = false ↔ (kcursorRemaining state.cursor).toNat < turn.call.length) ∧
      (result = false → state' = turn.before buffer size.toNat state) ∧
      ∀ p : Pointer ι, p.Apart 1 buffer size.toNat →
        state'.memory.byte p = turn.elsewhere.byte p

/-! ## One call -/

/-- A call that is not longer than the buffer has as many bytes as it says. -/
theorem CursorTurn.length_payload {turn : CursorTurn ι} {buffer : Pointer ι} {capacity : ℕ}
    {original text : List UInt8} (sound : turn.Sound buffer capacity)
    (whole : original.length = capacity) (fits : turn.call.length ≤ capacity - text.length) :
    (turn.payload original text.length).length = turn.call.length := by
  obtain ⟨elsewhere, call⟩ := turn
  cases call with
  | writeByte value => rfl
  | write source length =>
      change (elsewhere.read source length.toNat).length = length.toNat
      rcases eq_or_ne length 0 with rfl | positive
      · rfl
      · obtain ⟨room, -⟩ := sound positive (fits.trans (Nat.sub_le _ _))
        obtain ⟨bytes, same, holds⟩ := room.exists_holds
        rw [← same, holds.read_eq]
  | advance amount =>
      refine List.length_take_of_le ?_
      rw [List.length_drop, whole]
      exact fits

section Call

variable [DecidableEq ι] {memory elsewhere : ByteMemory ι} {buffer : Pointer ι} {capacity : ℕ}
  {original text : List UInt8}

/-- Bytes that are there may be written again. -/
theorem overwrite_append_original (holds : memory.Holds buffer original)
    (amount : ℕ) :
    memory.overwrite buffer (text ++ (original.drop text.length).take amount) =
      memory.overwrite buffer text := by
  rcases Nat.lt_or_ge original.length text.length with beyond | inside
  · rw [List.drop_eq_nil_of_le beyond.le, List.take_nil, List.append_nil]
  · have there : (memory.overwrite buffer text).Holds (buffer.advance text.length)
        ((original.drop text.length).take amount) :=
      ((holds.drop text.length inside).take amount).overwrite
        (Or.inr (Or.inr (Nat.le_refl _)))
    rw [← ByteMemory.overwrite_append, there.overwrite_self]

/-- Outside the buffer nothing is written. -/
theorem byte_filled_of_apart (whole : original.length = capacity) (short : text.length ≤ capacity)
    {p : Pointer ι} (apart : p.Apart 1 buffer capacity) :
    (filled (elsewhere.overwrite buffer original) buffer capacity text).memory.byte p =
      elsewhere.byte p := by
  have far : p.Apart 1 buffer text.length :=
    apart.part (i := 0) (j := 0) (Nat.le_refl 1) (by omega)
  exact (ByteMemory.byte_overwrite_of_apart far).trans
    (ByteMemory.byte_overwrite_of_apart (whole ▸ apart))

/-- With other bytes outside the buffer it is filled with the same text. -/
theorem replaceOutside_filled (holds : memory.Holds buffer original)
    (whole : original.length = capacity) (short : text.length ≤ capacity) :
    replaceOutside buffer capacity elsewhere (memory.overwrite buffer text) =
      (elsewhere.overwrite buffer original).overwrite buffer text := by
  refine ByteMemory.ext_byte fun p => ?_
  rcases Pointer.inside_or_apart buffer p capacity with ⟨i, inside, rfl⟩ | apart
  · have within : ByteMemory.Within [(buffer, capacity)] (buffer.advance i) :=
      ByteMemory.within_of_window (List.mem_singleton_self _) inside
    refine (if_pos within).trans ?_
    rcases Nat.lt_or_ge i text.length with before | behind
    · exact (ByteMemory.holds_overwrite memory buffer text i before).trans
        (ByteMemory.holds_overwrite _ buffer text i before).symm
    · have far : (buffer.advance i).Apart 1 buffer text.length :=
        Or.inr (Or.inr (Nat.add_le_add_left behind _))
      have original' := ByteMemory.holds_overwrite elsewhere buffer original i (whole ▸ inside)
      refine (ByteMemory.byte_overwrite_of_apart far).trans ?_
      rw [ByteMemory.byte_overwrite_of_apart far, original', holds i (whole ▸ inside)]
  · have outside : ¬ ByteMemory.Within [(buffer, capacity)] p := by
      rintro ⟨window, mem, object, lower, upper⟩
      obtain rfl := List.mem_singleton.1 mem
      rcases apart with other | before | behind
      · exact other object.symm
      · simp only at upper lower; omega
      · simp only at upper lower; omega
    exact (if_neg outside).trans (byte_filled_of_apart whole short apart).symm

/-- `kcursor_advance` leaves what was in the buffer. -/
theorem kcursorAdvance_filled (holds : memory.Holds buffer original)
    (whole : original.length = capacity) (bound : capacity < 2 ^ 32)
    (short : text.length ≤ capacity) (amount : UInt32) :
    kcursorAdvance amount (filled memory buffer capacity text) =
      if amount.toNat ≤ capacity - text.length then
        .ok true (filled memory buffer capacity
          (text ++ (original.drop text.length).take amount.toNat))
      else .ok false (filled memory buffer capacity text) := by
  have remaining := kcursorRemaining_filled memory buffer bound short
  rcases Nat.lt_or_ge (capacity - text.length) amount.toNat with full | fits
  · rw [if_neg (Nat.not_le.2 full)]
    refine kcursorAdvance_full rfl ?_
    rw [gt_iff_lt, UInt32.lt_iff_toNat_lt]
    exact remaining.trans_lt full
  · have fits' : ¬ amount > kcursorRemaining (filled memory buffer capacity text).cursor := by
      rw [gt_iff_lt, UInt32.lt_iff_toNat_lt, remaining]
      exact Nat.not_lt.2 fits
    have length : ((original.drop text.length).take amount.toNat).length = amount.toNat := by
      rw [List.length_take_of_le (by rw [List.length_drop, whole]; exact fits)]
    rw [if_pos fits, ← filled_append, ByteMemory.overwrite_append,
      overwrite_append_original holds, length]
    exact kcursorAdvance_room rfl fits'

/-- One block is written whole or not at all. -/
theorem Emits.block {x : KernelM (CursorState ι) Bool} {block : List UInt8}
    (emits : Emits memory buffer capacity x [block]) (short : text.length ≤ capacity) :
    x (filled memory buffer capacity text) =
      if block.length ≤ capacity - text.length then
        .ok true (filled memory buffer capacity (text ++ block))
      else .ok false (filled memory buffer capacity text) := by
  have alone : [block].flatten = block := List.append_nil block
  rw [emits text short, alone, AtomicBlocks.fill]
  split
  · rw [AtomicBlocks.fill_nil, List.append_nil]
  · rw [List.append_nil]

variable {turn : CursorTurn ι}

/-- A call puts its payload behind the text, or has no room and does nothing. -/
theorem CursorTurn.run_filled (sound : turn.Sound buffer capacity)
    (holds : memory.Holds buffer original) (whole : original.length = capacity)
    (bound : capacity < 2 ^ 32) (short : text.length ≤ capacity) :
    turn.run buffer capacity (filled memory buffer capacity text) =
      if turn.call.length ≤ capacity - text.length then
        .ok true (filled (turn.elsewhere.overwrite buffer original) buffer capacity
          (text ++ turn.payload original text.length))
      else .ok false (turn.before buffer capacity (filled memory buffer capacity text)) := by
  have before : turn.before buffer capacity (filled memory buffer capacity text) =
      filled (turn.elsewhere.overwrite buffer original) buffer capacity text :=
    congrArg (CursorState.mk · _) (replaceOutside_filled holds whole short)
  have holds' := ByteMemory.holds_overwrite turn.elsewhere buffer original
  have room : (turn.elsewhere.overwrite buffer original).Room buffer capacity :=
    whole ▸ holds'.room
  rw [CursorTurn.run, bind_of_ok (modify_run _ _), before]
  obtain ⟨elsewhere, call⟩ := turn
  cases call with
  | writeByte value => exact (kcursorWriteByte_emits room bound value).block short
  | advance amount => exact kcursorAdvance_filled holds' whole bound short amount
  | write source length =>
      rcases Nat.lt_or_ge capacity length.toNat with beyond | fits
      · have remaining := kcursorRemaining_filled (elsewhere.overwrite buffer original) buffer
          bound short
        have long : ¬ length.toNat ≤ capacity - text.length := by omega
        refine Eq.trans ?_ (if_neg long).symm
        refine kcursorWrite_full rfl ?_
        rw [gt_iff_lt, UInt32.lt_iff_toNat_lt]
        exact remaining.trans_lt (Nat.not_le.1 long)
      rcases eq_or_ne length 0 with rfl | positive
      · refine Eq.trans ?_ (if_pos (Nat.zero_le _)).symm
        have nothing : elsewhere.read source (0 : UInt32).toNat = [] := rfl
        change _ = EStateM.Result.ok true
          (filled _ buffer capacity (text ++ elsewhere.read source _))
        rw [nothing, List.append_nil]
        exact kcursorWrite_zero rfl source
      · obtain ⟨there, apart⟩ := sound positive fits
        obtain ⟨bytes, same, source'⟩ := there.exists_holds
        have payload : elsewhere.read source length.toNat = bytes := by
          rw [← same, source'.read_eq]
        have kept : (elsewhere.overwrite buffer original).Holds source bytes :=
          source'.overwrite (by rw [same, whole]; exact apart)
        have emits := kcursorWrite_emits room bound kept (by rw [same]; exact apart) same.symm
        have written := emits.block short
        rw [same, ← payload] at written
        exact written

end Call

/-! ## Runs -/

section Runs

variable [DecidableEq ι] {memory : ByteMemory ι} {buffer : Pointer ι} {size : UInt32}
  {original : List UInt8} {history : List (CursorTurn ι × Bool)}

/-- The states behind calls: filled with the payloads, whatever is outside the buffer. -/
def CursorReached (buffer : Pointer ι) (size : UInt32) (original : List UInt8)
    (history : List (CursorTurn ι × Bool)) (state : CursorState ι) : Prop :=
  (cursorText original history).length ≤ size.toNat ∧
    ∃ memory : ByteMemory ι, memory.Holds buffer original ∧
      state = filled memory buffer size.toNat (cursorText original history)

/-- A call returns, leads on, and is refused exactly if it has no room. -/
theorem CursorReached.step {state : CursorState ι}
    (reached : CursorReached buffer size original history state)
    (whole : original.length = size.toNat) {turn : CursorTurn ι}
    (sound : turn.Sound buffer size.toNat) :
    ∃ result state', turn.run buffer size.toNat state = .ok result state' ∧
      CursorReached buffer size original (history ++ [(turn, result)]) state' ∧
      (result = false ↔ (kcursorRemaining state.cursor).toNat < turn.call.length) ∧
      (result = false → state' = turn.before buffer size.toNat state) ∧
      ∀ p : Pointer ι, p.Apart 1 buffer size.toNat →
        state'.memory.byte p = turn.elsewhere.byte p := by
  obtain ⟨short, memory, holds, rfl⟩ := reached
  have run := CursorTurn.run_filled sound holds whole size.toNat_lt short
  rw [kcursorRemaining_filled memory buffer size.toNat_lt short]
  have holds' := ByteMemory.holds_overwrite turn.elsewhere buffer original
  rcases Nat.lt_or_ge (size.toNat - (cursorText original history).length) turn.call.length with
    full | fits
  · rw [if_neg (Nat.not_le.2 full)] at run
    have text : cursorText original (history ++ [(turn, false)]) = cursorText original history :=
      cursorText_concat original history turn false
    have before : turn.before buffer size.toNat
        (filled memory buffer size.toNat (cursorText original history)) =
          filled (turn.elsewhere.overwrite buffer original) buffer size.toNat
            (cursorText original history) :=
      congrArg (CursorState.mk · _) (replaceOutside_filled holds whole short)
    refine ⟨false, _, run, ⟨text ▸ short, _, holds', ?_⟩, ⟨fun _ => full, fun _ => rfl⟩,
      fun _ => rfl, fun p apart => ?_⟩
    · rw [text, before]
    · rw [before]
      exact byte_filled_of_apart whole short apart
  · rw [if_pos fits] at run
    have length := CursorTurn.length_payload sound whole fits
    have text : cursorText original (history ++ [(turn, true)]) = cursorText original history ++
        turn.payload original (cursorText original history).length :=
      cursorText_concat original history turn true
    have longer : (cursorText original history ++
        turn.payload original (cursorText original history).length).length ≤ size.toNat := by
      rw [List.length_append, length]
      omega
    exact ⟨true, _, run, ⟨text ▸ longer, _, holds', by rw [text]⟩,
      ⟨nofun, fun full => absurd fits (Nat.not_le.2 full)⟩, nofun,
      fun p apart => byte_filled_of_apart whole longer apart⟩

/-- Calls return and lead on. -/
theorem CursorReached.run {state : CursorState ι}
    (reached : CursorReached buffer size original history state)
    (whole : original.length = size.toNat) {turns : List (CursorTurn ι)}
    (sound : ∀ turn ∈ turns, turn.Sound buffer size.toNat) :
    ∃ results state', runCursorTurns buffer size.toNat turns state = .ok results state' ∧
      CursorReached buffer size original (history ++ results) state' := by
  have step : ∀ turn turns history state,
      (CursorReached buffer size original history state ∧
        ∀ later ∈ turn :: turns, later.Sound buffer size.toNat) →
      ∃ result state', CursorTurn.run buffer size.toNat turn state = .ok result state' ∧
        CursorReached buffer size original (history ++ [(turn, result)]) state' ∧
        ∀ later ∈ turns, later.Sound buffer size.toNat := by
    rintro turn turns history state ⟨reached, sound⟩
    obtain ⟨result, state', run, next, -⟩ := reached.step whole (sound turn List.mem_cons_self)
    exact ⟨result, state', run, next, fun later mem => sound later (List.mem_cons_of_mem _ mem)⟩
  obtain ⟨results, state', run, last, -⟩ :=
    recordEach_ok (P := fun turns history state =>
      CursorReached buffer size original history state ∧
        ∀ later ∈ turns, later.Sound buffer size.toNat) step ⟨reached, sound⟩
  exact ⟨results, state', run, last⟩

/-- In each state reached the cursor keeps its promises. -/
theorem CursorReached.keeps {state : CursorState ι}
    (reached : CursorReached buffer size original history state)
    (whole : original.length = size.toNat) :
    CursorKeeps buffer size original history state := by
  have next := fun (turn : CursorTurn ι) (sound : turn.Sound buffer size.toNat) =>
    reached.step whole sound
  obtain ⟨short, memory, holds, rfl⟩ := reached
  have remaining := kcursorRemaining_filled memory buffer size.toNat_lt short
  have written : (kcursorWritten (filled memory buffer size.toNat
      (cursorText original history)).cursor).toNat = (cursorText original history).length :=
    kcursorWritten_filled (short.trans_lt size.toNat_lt)
  refine ⟨⟨_, rfl, rfl, rfl, _, short, rfl⟩, ?_, written,
    ByteMemory.holds_overwrite memory buffer _, ?_, ?_⟩
  · rw [written, remaining]
    exact Nat.add_sub_cancel' short
  · exact (holds.drop _ (short.trans_eq whole.symm)).overwrite (Or.inr (Or.inr (Nat.le_refl _)))
  · intro turn sound
    obtain ⟨result, state', run, -, refused, same⟩ := next turn sound
    exact ⟨result, state', run, refused, same⟩

end Runs

/-- From `kcursor_init` on, calls return, and the cursor keeps its promises behind
them. -/
theorem kcursor_keeps [DecidableEq ι] (memory : ByteMemory ι) (cursor : Kcursor ι)
    (buffer : Pointer ι) (size : UInt32) (original : List UInt8) (turns : List (CursorTurn ι))
    (positive : 1 ≤ size) (whole : original.length = size.toNat)
    (there : memory.Holds buffer original)
    (sound : ∀ turn ∈ turns, turn.Sound buffer size.toNat) :
    ∃ start history state, kcursorInit (some buffer) size ⟨memory, some cursor⟩ = .ok true start ∧
      runCursorTurns buffer size.toNat turns start = .ok history state ∧
      CursorKeeps buffer size original history state := by
  have nonzero : size ≠ 0 := by
    rintro rfl
    exact absurd positive (by decide)
  have reached : CursorReached buffer size original []
      (filled memory buffer size.toNat ([] : List UInt8)) :=
    ⟨Nat.zero_le _, memory, there, rfl⟩
  obtain ⟨history, state, run, all⟩ := reached.run whole sound
  exact ⟨_, history, state, kcursorInit_filled nonzero cursor, run, all.keeps whole⟩

/-- Three bytes are copied into a buffer of four, and two more do not fit. -/
theorem kcursor_keeps_four :
    let memory : ByteMemory Bool := fun object offset =>
      if object then [7, 8, 9][offset]? else [1, 2, 3, 4][offset]?
    ∃ start history state,
      kcursorInit (some ⟨false, 0⟩) 4 ⟨memory, some ⟨⟨true, 0⟩, ⟨true, 0⟩, ⟨true, 0⟩⟩⟩ =
        .ok true start ∧
      runCursorTurns ⟨false, 0⟩ 4
        [⟨memory, .write ⟨true, 0⟩ 3⟩, ⟨memory, .write ⟨true, 1⟩ 2⟩, ⟨memory, .advance 1⟩] start =
        .ok history state ∧
      CursorKeeps ⟨false, 0⟩ 4 [1, 2, 3, 4] history state := by
  intro memory
  refine kcursor_keeps memory _ ⟨false, 0⟩ 4 [1, 2, 3, 4] _ (by decide) rfl (by decide) ?_
  intro turn mem
  simp only [List.mem_cons, List.not_mem_nil, or_false] at mem
  rcases mem with rfl | rfl | rfl
  · exact fun _ _ => ⟨by decide, Or.inl nofun⟩
  · exact fun _ _ => ⟨by decide, Or.inl nofun⟩
  · trivial

end ArkoiOs
