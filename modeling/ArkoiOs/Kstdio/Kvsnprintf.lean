import ArkoiOs.Kstdio.Formatting

/-!
# Formatted output into a buffer

What `kvsnprintf` returns and leaves in memory.  With two bytes or more the buffer
gets the blocks of the format as far as they have room, and a terminator; a buffer
of one byte is left as it is.
-/

namespace ArkoiOs

open AtomicBlocks

/-- A call of `kvsnprintf` with a buffer of the size it is given, a terminated format and
arguments that match it; `nullText` is the literal for a null string. -/
structure FormatCall (ι : Type) where
  memory : ByteMemory ι
  buffer : Pointer ι
  size : UInt32
  format : Pointer ι
  text : List UInt8
  args : List (VaArg ι)
  arguments : List Argument
  pieces : List (List UInt8)
  nullText : Pointer ι
  room : memory.Room buffer size.toNat
  readable : Readable memory buffer size.toNat format text
  missing : Readable memory buffer size.toNat nullText missingText
  held : List.Forall₂ (ArgHolds memory buffer size.toNat) args arguments
  matching : blocks text arguments = some pieces

/-- The local cursor is gone when the code returns. -/
theorem withLocalCursor_of_ok {ι α : Type} {cursor : Kcursor ι} {x : KernelM (CursorState ι) α}
    {memory : ByteMemory ι} {a : α} {state : CursorState ι}
    (run : x ⟨memory, some cursor⟩ = .ok a state) :
    withLocalCursor cursor x memory = .ok a state.memory := by
  unfold withLocalCursor
  rw [run]

/-- A string is read in its window. -/
theorem Readable.only {ι : Type} [DecidableEq ι] {memory : ByteMemory ι} {buffer p : Pointer ι}
    {size : ℕ} {text : List UInt8} {windows : List (Pointer ι × ℕ)}
    (h : Readable memory buffer size p text) (window : (p, text.length + 1) ∈ windows) :
    Readable (memory.only windows) buffer size p text :=
  { h with holds := h.holds.only window List.length_append.le }

namespace FormatCall

variable {ι : Type}

/-- Where a string argument and its terminator stand. -/
def argWindow : VaArg ι × Argument → Option (Pointer ι × ℕ)
  | (.string (some p), .string (some text)) => some (p, text.length + 1)
  | _ => none

/-- The buffer, and the strings up to their terminators. -/
def windows (call : FormatCall ι) : List (Pointer ι × ℕ) :=
  (call.buffer, call.size.toNat) :: (call.format, call.text.length + 1) ::
    (call.nullText, missingText.length + 1) ::
      (call.args.zip call.arguments).filterMap argWindow

/-- The arguments are read in their windows. -/
theorem held_only [DecidableEq ι] {memory : ByteMemory ι} {buffer : Pointer ι} {size : ℕ}
    {args : List (VaArg ι)} {arguments : List Argument} {windows : List (Pointer ι × ℕ)}
    (held : List.Forall₂ (ArgHolds memory buffer size) args arguments)
    (inside : ∀ window ∈ (args.zip arguments).filterMap argWindow, window ∈ windows) :
    List.Forall₂ (ArgHolds (memory.only windows) buffer size) args arguments := by
  induction held with
  | nil => exact .nil
  | cons head tail ih =>
      rw [List.zip_cons_cons, List.filterMap_cons] at inside
      cases head with
      | word value => exact .cons (.word value) (ih inside)
      | missing => exact .cons .missing (ih inside)
      | string readable =>
          obtain ⟨first, rest⟩ := List.forall_mem_cons.1 inside
          exact .cons (.string (readable.only first)) (ih rest)

/-- The call in a memory that has only the bytes of its windows. -/
def restricted [DecidableEq ι] (call : FormatCall ι) : FormatCall ι :=
  { call with
    memory := call.memory.only call.windows
    room := call.room.only List.mem_cons_self
    readable := call.readable.only (List.mem_cons_of_mem _ List.mem_cons_self)
    missing :=
      call.missing.only (List.mem_cons_of_mem _ (List.mem_cons_of_mem _ List.mem_cons_self))
    held := held_only call.held fun _ mem =>
      List.mem_cons_of_mem _ (List.mem_cons_of_mem _ (List.mem_cons_of_mem _ mem)) }

/-! ## A string argument -/

/-- Objects with these bytes. -/
def objects (contents : List (List UInt8)) : ByteMemory ℕ :=
  fun object offset => contents[object]?.bind (·[offset]?)

/-- A buffer of four bytes, `"%s"`, `"NULL"` and `"abc"`. -/
def stringMemory : ByteMemory ℕ :=
  objects [[0, 0, 0, 0], ascii ['%', 's', '\x00'], missingText ++ [0],
    ascii ['a', 'b', 'c', '\x00']]

/-- `kvsnprintf(buffer, size, "%s", "abc")`. -/
def stringCall (size : UInt32) (small : size.toNat ≤ 4) : FormatCall ℕ where
  memory := stringMemory
  buffer := ⟨0, 0⟩
  size := size
  format := ⟨1, 0⟩
  text := ascii ['%', 's']
  args := [.string (some ⟨3, 0⟩)]
  arguments := [.string (some (ascii ['a', 'b', 'c']))]
  pieces := [ascii ['a', 'b', 'c']]
  nullText := ⟨2, 0⟩
  room := fun i hi => (show stringMemory.Room ⟨0, 0⟩ 4 by decide) i (hi.trans_le small)
  readable := ⟨by decide, by decide, by decide, Or.inl (by decide)⟩
  missing := ⟨by decide, by decide, by decide, Or.inl (by decide)⟩
  held := .cons (.string ⟨by decide, by decide, by decide, Or.inl (by decide)⟩) .nil
  matching := by decide

/-- A cursor with some values. -/
def someCursor : Kcursor ℕ := ⟨⟨0, 0⟩, ⟨0, 0⟩, ⟨0, 0⟩⟩

/-- The characters that have room in front of the terminator. -/
def produced (call : FormatCall ι) : List UInt8 := fill (call.size.toNat - 1) call.pieces

theorem length_produced_le (call : FormatCall ι) :
    call.produced.length ≤ call.size.toNat - 1 := length_fill_le _ _

variable [DecidableEq ι]

/-- The call. -/
def run (call : FormatCall ι) (fuel : ℕ) (uninitialized : Kcursor ι) :
    KernelM (ByteMemory ι) UInt32 :=
  kvsnprintf fuel call.nullText uninitialized (some call.buffer) call.size (some call.format)
    call.args

variable {fuel : ℕ} (enough : 2 ^ 32 ≤ fuel) (uninitialized : Kcursor ι) (call : FormatCall ι)

/-- Of a buffer of one byte nothing is left for the cursor. -/
theorem run_one (fuel : ℕ) (one : call.size.toNat = 1) (memory : ByteMemory ι) :
    call.run fuel uninitialized memory = .ok 0 memory := by
  have size : call.size = 1 := UInt32.toNat_inj.1 one
  unfold run kvsnprintf
  rw [size]
  rfl

include enough

/-- Otherwise the blocks that have room are written, and a terminator behind them. -/
theorem run_eq (two : 2 ≤ call.size.toNat) :
    call.run fuel uninitialized call.memory =
      .ok (UInt32.ofNat (call.produced.length + 1))
        (call.memory.overwrite call.buffer (call.produced ++ [0])) := by
  have width := call.size.toNat_lt
  have capacity : (call.size - 1).toNat = call.size.toNat - 1 := by
    rw [UInt32.toNat_sub, UInt32.toNat_one]
    omega
  have positive : ¬call.size = 0 := by
    intro zero
    rw [zero, UInt32.toNat_zero] at two
    omega
  have positive' : call.size - 1 ≠ 0 := by
    intro zero
    rw [zero, UInt32.toNat_zero] at capacity
    omega
  have inside : (call.size - 1).toNat ≤ call.size.toNat := by omega
  have bound : (call.size - 1).toNat < 2 ^ 32 := by omega
  have room : call.memory.Room call.buffer (call.size - 1).toNat :=
    call.room.part (i := 0) (by omega)
  -- the loop, from a buffer with nothing in it
  have started : kcursorInit (some call.buffer) (call.size - 1) ⟨call.memory, some uninitialized⟩ =
      .ok true (filled call.memory call.buffer (call.size - 1).toNat []) :=
    kcursorInit_filled positive' uninitialized
  have length : onBytes (kstrlen fuel call.format)
      (filled call.memory call.buffer (call.size - 1).toNat []) = .ok _ _ :=
    call.readable.kstrlen_filled enough (Nat.zero_le _)
  have from_start : Readable call.memory call.buffer call.size.toNat call.format
      ([] ++ call.text) := call.readable
  have loop := formatLoop_emits room bound inside enough call.missing from_start
    (show (0 : UInt32).toNat = ([] : List UInt8).length from rfl)
    (UInt32.toNat_ofNat_of_lt' call.readable.bound) call.held call.matching
    (call.readable.bound.trans_le enough) [] (Nat.zero_le _)
  rw [List.nil_append, List.length_nil, Nat.sub_zero] at loop
  -- the terminator
  have some_room : call.produced.length + 1 ≤ call.size.toNat := by
    have := call.length_produced_le
    omega
  have short : call.produced.length < 2 ^ 32 := by omega
  have written : kcursorWritten (filled call.memory call.buffer (call.size - 1).toNat
      call.produced).cursor = UInt32.ofNat call.produced.length := by
    apply UInt32.toNat_inj.1
    rw [kcursorWritten_filled short, UInt32.toNat_ofNat_of_lt' short]
  have there : ((call.memory.overwrite call.buffer call.produced).byte
      (call.buffer.advance call.produced.length)).isSome := by
    have front : call.memory.Room call.buffer call.produced.length :=
      call.room.part (i := 0) (by omega)
    rw [ByteMemory.isSome_overwrite front]
    exact call.room _ some_room
  have terminated : onBytes (storeByte (call.buffer.advance call.produced.length) 0)
      (filled call.memory call.buffer (call.size - 1).toNat call.produced) =
        .ok () { filled call.memory call.buffer (call.size - 1).toNat call.produced with
          memory := call.memory.overwrite call.buffer (call.produced ++ [0]) } := by
    rw [← ByteMemory.overwrite_append]
    exact onBytes_of_ok (storeByte_of_room there 0)
  have everything : fill (call.size - 1).toNat call.pieces = call.produced := by
    rw [capacity]
    rfl
  rw [everything, List.nil_append] at loop
  have last : (do
      let state : CursorState ι ← get
      let written := kcursorWritten state.cursor
      onBytes (storeByte (call.buffer.advance written.toNat) 0)
      pure (written + 1) : KernelM (CursorState ι) UInt32)
        (filled call.memory call.buffer (call.size - 1).toNat call.produced) = _ :=
    Machine.bind_of_ok (Machine.get_run _)
  rw [written, UInt32.toNat_ofNat_of_lt' short, Machine.bind_of_ok terminated] at last
  unfold run kvsnprintf
  simp only [if_neg positive]
  rw [UInt32.ofNat_add]
  refine (withLocalCursor_of_ok ((Machine.bind_of_ok started).trans
    ((Machine.bind_of_ok length).trans ((Machine.bind_of_ok loop).trans last)))).trans ?_
  rfl

/-! ## Bounds -/

omit enough in
/-- The return value counts the characters and a terminator, all in the buffer; nothing else
is written, and nothing outside the buffer and the strings is read. -/
structure Bounded (fuel : ℕ) (returned : UInt32) (after : ByteMemory ι) : Prop where
  returns : call.run fuel uninitialized call.memory = .ok returned after
  inside : 1 ≤ returned.toNat ∧ returned.toNat ≤ call.size.toNat
  terminated : after.byte (call.buffer.advance (returned.toNat - 1)) = some 0
  counts : returned.toNat - 1 = call.produced.length
  writes : after = call.memory.overwrite call.buffer (call.produced ++ [0])
  reads : call.run fuel uninitialized (call.memory.only call.windows) =
    .ok returned (after.only call.windows)

omit enough in
/-- In a buffer of one byte there is no terminator. -/
theorem not_bounded_of_one (fuel : ℕ) (one : call.size.toNat = 1) :
    ¬∃ returned after, call.Bounded uninitialized fuel returned after := by
  rintro ⟨returned, after, bounded⟩
  have run := bounded.returns
  rw [call.run_one uninitialized fuel one] at run
  cases run
  exact absurd bounded.inside.1 (by decide)

/-- The output is bounded and terminated exactly in a buffer of two bytes or more. -/
theorem bounded_iff (positive : 1 ≤ call.size.toNat) :
    (∃ returned after, call.Bounded uninitialized fuel returned after) ↔ 2 ≤ call.size.toNat := by
  constructor
  · intro bounded
    by_contra small
    exact not_bounded_of_one uninitialized call fuel (by omega) bounded
  · intro two
    have width := call.size.toNat_lt
    have short := call.length_produced_le
    have count : (UInt32.ofNat (call.produced.length + 1)).toNat = call.produced.length + 1 := by
      have small : call.produced.length + 1 < 2 ^ 32 := by omega
      exact UInt32.toNat_ofNat_of_lt' small
    have fits : (call.produced ++ [0]).length ≤ call.size.toNat := by
      rw [List.length_append, List.length_singleton]
      omega
    refine ⟨_, _, run_eq enough uninitialized call two, ⟨?_, ?_⟩, ?_, ?_, rfl, ?_⟩
    · omega
    · omega
    · have whole := ByteMemory.holds_overwrite call.memory call.buffer (call.produced ++ [0])
      have last := whole call.produced.length (by
        rw [List.length_append]
        exact Nat.lt_succ_self _)
      rw [List.getElem?_append_right (Nat.le_refl _), Nat.sub_self] at last
      rw [count]
      exact last
    · rw [count]
      rfl
    · have window : (call.buffer, call.size.toNat) ∈ call.windows := List.mem_cons_self
      rw [← ByteMemory.only_overwrite call.memory fun i hi =>
        ByteMemory.within_of_window window (hi.trans_le fits)]
      exact run_eq enough uninitialized call.restricted two

omit enough in
/-- A buffer of one byte gets no terminator. -/
theorem one_byte_unterminated :
    1 ≤ (stringCall 1 (by decide)).size.toNat ∧
      ¬∃ returned after, (stringCall 1 (by decide)).Bounded someCursor (2 ^ 32) returned after :=
  ⟨Nat.le_refl 1, not_bounded_of_one someCursor _ (2 ^ 32) rfl⟩

omit enough in
theorem two_bytes_bounded :
    (∃ returned after, (stringCall 2 (by decide)).Bounded someCursor (2 ^ 32) returned after) ↔
      2 ≤ 2 :=
  bounded_iff (Nat.le_refl _) someCursor (stringCall 2 (by decide)) (by decide)

/-! ## Truncation -/

omit enough in
/-- The call leaves the string in the buffer and returns its length with the terminator. -/
def Produces (fuel : ℕ) (string : List UInt8) : Prop :=
  ∃ returned, call.run fuel uninitialized call.memory =
    .ok returned (call.memory.overwrite call.buffer (string ++ [0])) ∧
    returned.toNat = string.length + 1

theorem produces_produced (two : 2 ≤ call.size.toNat) :
    call.Produces uninitialized fuel call.produced := by
  have width := call.size.toNat_lt
  have short := call.length_produced_le
  have small : call.produced.length + 1 < 2 ^ 32 := by omega
  exact ⟨_, run_eq enough uninitialized call two, UInt32.toNat_ofNat_of_lt' small⟩

omit enough in
theorem Produces.unique {call : FormatCall ι} {string string' : List UInt8}
    (h : call.Produces uninitialized fuel string) (h' : call.Produces uninitialized fuel string') :
    string = string' := by
  obtain ⟨returned, run, count⟩ := h
  obtain ⟨returned', run', count'⟩ := h'
  obtain ⟨same, memories⟩ := EStateM.Result.ok.inj (run.symm.trans run')
  have holds := ByteMemory.holds_overwrite call.memory call.buffer (string ++ [0])
  have holds' := ByteMemory.holds_overwrite call.memory call.buffer (string' ++ [0])
  rw [memories] at holds
  have lengths : string.length = string'.length := by
    rw [same] at count
    omega
  exact List.append_cancel_right (holds.unique holds' (by simp [lengths]))

omit enough in
/-- The buffer gets the front of what a larger one gets. -/
def Shortens (fuel : ℕ) (larger : FormatCall ι) : Prop :=
  ∃ short long, call.Produces uninitialized fuel short ∧
    larger.Produces uninitialized fuel long ∧
    short = long.take (min (call.size.toNat - 1) long.length)

/-- A buffer gets the front of what a larger one gets, and is filled when the text does not
fit, exactly where no block straddles its end. -/
theorem shortens_iff (two : 2 ≤ call.size.toNat) :
    ((∀ larger : FormatCall ι, larger.text = call.text → larger.arguments = call.arguments →
        call.size.toNat ≤ larger.size.toNat → call.Shortens uninitialized fuel larger) ∧
      (call.size.toNat - 1 < call.pieces.flatten.length → ∃ short,
        call.Produces uninitialized fuel short ∧ short.length = call.size.toNat - 1)) ↔
      ¬Straddles (call.size.toNat - 1) call.pieces := by
  have produces := produces_produced enough uninitialized call two
  constructor
  · rintro ⟨-, full⟩ straddles
    obtain ⟨short, produces', filled⟩ := full (lt_length_of_straddles straddles)
    have less : call.produced.length < call.size.toNat - 1 := length_fill_lt straddles
    rw [produces'.unique uninitialized produces] at filled
    omega
  · intro whole
    refine ⟨fun larger text arguments more => ?_, fun longer => ⟨_, produces, ?_⟩⟩
    · have same : larger.pieces = call.pieces := by
        have matching := larger.matching
        rw [text, arguments, call.matching] at matching
        exact (Option.some.inj matching).symm
      refine ⟨_, _, produces, produces_produced enough uninitialized larger (two.trans more), ?_⟩
      have taken := (fill_eq_take whole (Nat.sub_le_sub_right more 1)).1
      rw [List.take_eq_take_min] at taken
      rw [produced, produced, same]
      exact taken
    · have length := (fill_eq_take whole (Nat.le_refl _)).2
      exact length.trans (Nat.min_eq_left longer.le)

omit enough in
/-- One character of `abc` would have room. -/
theorem string_dropped :
    ¬(stringCall 2 (by decide)).Shortens someCursor (2 ^ 32) (stringCall 4 (by decide)) := by
  rintro ⟨short, long, produces, produces', same⟩
  have none : short = [] := produces.unique someCursor
    (produces_produced (Nat.le_refl _) someCursor (stringCall 2 (by decide)) (by decide))
  have all : long = ascii ['a', 'b', 'c'] := produces'.unique someCursor
    (produces_produced (Nat.le_refl _) someCursor (stringCall 4 (by decide)) (by decide))
  rw [none, all] at same
  exact absurd same (by decide)

omit enough in
/-- `kvsnprintf(buffer, 3, "%u", 12345)`. -/
def numberCall : FormatCall ℕ where
  memory := objects [[0, 0, 0], ascii ['%', 'u', '\x00'], missingText ++ [0]]
  buffer := ⟨0, 0⟩
  size := 3
  format := ⟨1, 0⟩
  text := ascii ['%', 'u']
  args := [.word 12345]
  arguments := [.word 12345]
  pieces := [ascii ['1'], ascii ['2'], ascii ['3'], ascii ['4'], ascii ['5']]
  nullText := ⟨2, 0⟩
  room := by decide
  readable := ⟨by decide, by decide, by decide, Or.inl (by decide)⟩
  missing := ⟨by decide, by decide, by decide, Or.inl (by decide)⟩
  held := .cons (.word 12345) .nil
  matching := by decide +kernel

omit enough in
/-- Two of the five digits have room. -/
theorem number_shortens :
    (∀ larger : FormatCall ℕ, larger.text = numberCall.text →
        larger.arguments = numberCall.arguments → numberCall.size.toNat ≤ larger.size.toNat →
        numberCall.Shortens someCursor (2 ^ 32) larger) ∧
      ∃ short, numberCall.Produces someCursor (2 ^ 32) short ∧ short.length = 2 := by
  have digits : ∀ piece ∈ numberCall.pieces, piece.length = 1 := by decide
  have whole : ¬Straddles (numberCall.size.toNat - 1) numberCall.pieces := by
    rintro ⟨front, block, back, same, lower, upper⟩
    have one := digits block (same ▸ List.mem_append_right _ List.mem_cons_self)
    omega
  obtain ⟨shortens, full⟩ :=
    (shortens_iff (Nat.le_refl _) someCursor numberCall (by decide)).2 whole
  exact ⟨shortens, full (by decide)⟩

/-! ## The text -/

/-- A text that fits is what the buffer gets. -/
theorem produces_render (two : 2 ≤ call.size.toNat) {rendered : List UInt8}
    (text : render call.text call.arguments = some rendered)
    (fits : rendered.length < call.size.toNat) : call.Produces uninitialized fuel rendered := by
  have same : call.pieces.flatten = rendered := by
    rw [render, call.matching] at text
    exact Option.some.inj text
  have all : call.produced = rendered := by
    rw [produced, fill_of_le (by rw [same]; omega), same]
  rw [← all]
  exact produces_produced enough uninitialized call two

omit enough in
theorem string_rendered :
    (stringCall 4 (by decide)).Produces someCursor (2 ^ 32) (ascii ['a', 'b', 'c']) :=
  produces_render (Nat.le_refl _) someCursor (stringCall 4 (by decide)) (by decide) (by decide)
    (by decide)

end FormatCall

end ArkoiOs
