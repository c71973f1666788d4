import ArkoiOs.Kstdio.Numbers

/-!
# What `kvsnprintf` leaves in the buffer

Each round of the loop emits the blocks of one character or conversion, and so the
loop emits the blocks of the format, up to the first one without room.
-/

namespace ArkoiOs

open AtomicBlocks

/-! ## Strings and arguments -/

section Prepared

variable {ι : Type} (memory : ByteMemory ι) (buffer : Pointer ι) (size : ℕ)

/-- A terminated string apart from the buffer. -/
structure Readable (p : Pointer ι) (text : List UInt8) : Prop where
  holds : memory.Holds p (text ++ [0])
  noZero : 0 ∉ text
  bound : text.length < 2 ^ 32
  apart : p.Apart (text.length + 1) buffer size

/-- The argument is what the `va_list` holds. -/
inductive ArgHolds : VaArg ι → Argument → Prop
  | word (value : UInt32) : ArgHolds (.word value) (.word value)
  | missing : ArgHolds (.string none) (.string none)
  | string {p : Pointer ι} {text : List UInt8} :
      Readable memory buffer size p text → ArgHolds (.string (some p)) (.string (some text))

end Prepared

section Strings

variable {ι : Type} [DecidableEq ι] {memory : ByteMemory ι} {buffer : Pointer ι} {capacity size : ℕ}
  {fuel : ℕ} {p : Pointer ι} {string text : List UInt8}

/-- A string stays where it is when the buffer is filled. -/
theorem Readable.holds_filled (h : Readable memory buffer size p string)
    (short : text.length ≤ size) :
    (filled memory buffer capacity text).memory.Holds p (string ++ [0]) := by
  refine h.holds.overwrite (h.apart.part (i := 0) (j := 0) ?_ ?_)
  · rw [List.length_append]
    exact (Nat.zero_add _).le
  · rw [Nat.zero_add]
    exact short

/-- `kstrlen` of a string apart from the buffer. -/
theorem Readable.kstrlen_filled (h : Readable memory buffer size p string)
    (enough : 2 ^ 32 ≤ fuel) (short : text.length ≤ size) :
    onBytes (kstrlen fuel p) (filled memory buffer capacity text) =
      .ok (UInt32.ofNat string.length) (filled memory buffer capacity text) :=
  onBytes_of_ok
    (kstrlen_eq (h.holds_filled short) h.noZero h.bound (h.bound.trans_le enough))

/-- `kstrlen` and `kcursor_write` emit a string as one block. -/
theorem Readable.emits (h : Readable memory buffer size p string)
    (room : memory.Room buffer capacity) (bound : capacity < 2 ^ 32) (inside : capacity ≤ size)
    (enough : 2 ^ 32 ≤ fuel) :
    Emits memory buffer capacity (do
      let length ← onBytes (kstrlen fuel p)
      kcursorWrite (some p) length) [string] := by
  have length : (UInt32.ofNat string.length).toNat = string.length := by
    rw [UInt32.toNat_ofNat']
    exact Nat.mod_eq_of_lt h.bound
  have apart : p.Apart string.length buffer capacity :=
    h.apart.part (i := 0) (j := 0) (by omega) (by omega)
  intro text short
  rw [Machine.bind_of_ok (h.kstrlen_filled enough (short.trans inside))]
  exact kcursorWrite_emits room bound (ByteMemory.holds_append.1 h.holds).1 apart length text short

end Strings

/-! ## Conversions -/

section Rounds

variable {ι : Type} [DecidableEq ι] {memory : ByteMemory ι} {buffer : Pointer ι} {capacity size : ℕ}
  {fuel : ℕ} {nullText : Pointer ι}

omit [DecidableEq ι] in
/-- A conversion of a word finds it on the list. -/
theorem ofWord_eq_some {text : UInt32 → List UInt8} {args : List (VaArg ι)}
    {arguments left : List Argument} {first : List (List UInt8)}
    (held : List.Forall₂ (ArgHolds memory buffer size) args arguments)
    (converted : ofWord text arguments = some (first, left)) :
    ∃ value args', args = .word value :: args' ∧
      List.Forall₂ (ArgHolds memory buffer size) args' left ∧ first = singles (text value) := by
  cases held with
  | nil => cases converted
  | cons head tail =>
      cases head with
      | word value =>
          cases converted
          exact ⟨value, _, rfl, tail, rfl⟩
      | missing => cases converted
      | string _ => cases converted

omit [DecidableEq ι] in
/-- The conversion of a string finds it on the list. -/
theorem ofString_eq_some {args : List (VaArg ι)} {arguments left : List Argument}
    {first : List (List UInt8)} (missing : Readable memory buffer size nullText missingText)
    (held : List.Forall₂ (ArgHolds memory buffer size) args arguments)
    (converted : ofString arguments = some (first, left)) :
    ∃ value args' string, args = .string value :: args' ∧
      List.Forall₂ (ArgHolds memory buffer size) args' left ∧ first = [string] ∧
      Readable memory buffer size (value.getD nullText) string := by
  cases held with
  | nil => cases converted
  | cons head tail =>
      cases head with
      | word value => cases converted
      | missing =>
          cases converted
          exact ⟨none, _, _, rfl, tail, rfl, missing⟩
      | string readable =>
          cases converted
          exact ⟨some _, _, _, rfl, tail, rfl, readable⟩

variable (room : memory.Room buffer capacity) (bound : capacity < 2 ^ 32) (inside : capacity ≤ size)
  (enough : 2 ^ 32 ≤ fuel) (missing : Readable memory buffer size nullText missingText)

include room bound inside enough missing

/-- The branch of a specifier emits what the specifier stands for. -/
theorem writeSpecifier_emits {specifier : UInt8} {alternateForm : Bool} {args : List (VaArg ι)}
    {arguments left : List Argument} {first : List (List UInt8)}
    (held : List.Forall₂ (ArgHolds memory buffer size) args arguments)
    (converted : convert specifier alternateForm arguments = some (first, left)) :
    ∃ args', List.Forall₂ (ArgHolds memory buffer size) args' left ∧
      EmitsOr memory buffer capacity (writeSpecifier fuel nullText specifier alternateForm args)
        first (some args') none := by
  have done : ∀ args : List (VaArg ι), EmitsOr memory buffer capacity (pure (some args)) []
      (some args) none := fun args => emits_nil _ _
  have word : ∀ (w : UInt32 → KernelM (CursorState ι) Bool) (text : UInt32 → List UInt8),
      (∀ value, Emits memory buffer capacity (w value) (singles (text value))) →
      ofWord text arguments = some (first, left) →
      ∃ args', List.Forall₂ (ArgHolds memory buffer size) args' left ∧
        EmitsOr memory buffer capacity (do
          let read ← vaWord args
          if !(← w read.1) then pure none else pure (some read.2)) first (some args') none := by
    intro w text emits converted
    obtain ⟨value, args', rfl, held', rfl⟩ := ofWord_eq_some held converted
    have all := (emits value).andThen (done args')
    rw [List.append_nil] at all
    exact ⟨args', held', all⟩
  have byte : ∀ value : UInt8, Emits memory buffer capacity (kcursorWriteByte value) [[value]] :=
    kcursorWriteByte_emits room bound
  unfold convert at converted
  unfold writeSpecifier
  split at converted
  · rename_i signed
    simp only [if_pos signed]
    exact word _ _ (fun value => writeI32Dec_emits room bound value.toInt32) converted
  rename_i not_signed
  simp only [if_neg not_signed]
  split at converted
  · rename_i unsigned
    simp only [if_pos unsigned]
    exact word _ _ (writeU32Dec_emits room bound) converted
  rename_i not_unsigned
  simp only [if_neg not_unsigned]
  split at converted
  · rename_i hex
    simp only [if_pos hex]
    exact word _ _ (fun value => writeU32Hex_emits room bound value _ alternateForm) converted
  rename_i not_hex
  simp only [if_neg not_hex]
  split at converted
  · rename_i address
    simp only [if_pos address]
    exact word _ _ (writePointer_emits room bound) converted
  rename_i not_address
  simp only [if_neg not_address]
  split at converted
  · rename_i is_string
    simp only [if_pos is_string]
    obtain ⟨value, args', string, rfl, held', rfl, readable⟩ :=
      ofString_eq_some missing held converted
    have all := (readable.emits room bound inside enough).andThen (done args')
    simp only [bind_assoc, List.append_nil] at all
    exact ⟨args', held', all⟩
  rename_i not_string
  simp only [if_neg not_string]
  split at converted
  · rename_i character
    simp only [if_pos character]
    exact word _ _ (fun value => byte value.toUInt8) converted
  rename_i not_character
  simp only [if_neg not_character]
  split at converted
  · rename_i percent
    simp only [if_pos percent]
    cases converted
    exact ⟨args, held, (byte '%'.toUInt8).andThen (done args)⟩
  · rename_i other
    simp only [if_neg other]
    cases converted
    exact ⟨args, held, (byte '%'.toUInt8).andThen ((byte specifier).andThen (done args))⟩

/-! ## Rounds of the loop -/

omit room bound inside enough missing in
/-- The format is read behind what the loop has taken of it. -/
theorem formatAt_filled {p : Pointer ι} {front suffix : List UInt8}
    (h : Readable memory buffer size p (front ++ suffix)) {index : UInt32}
    (position : index.toNat = front.length) (inside : capacity ≤ size) (text : List UInt8)
    (short : text.length ≤ capacity) :
    formatAt p index (filled memory buffer capacity text) =
      .ok (suffix.headD 0) (filled memory buffer capacity text) := by
  have kept : (filled memory buffer capacity text).memory.Holds p ((front ++ suffix) ++ [0]) :=
    h.holds_filled (short.trans inside)
  have there := kept front.length (by
    rw [List.length_append, List.length_append, List.length_singleton]
    omega)
  rw [List.append_assoc, List.getElem?_append_right (Nat.le_refl _), Nat.sub_self,
    ← position] at there
  have byte : (filled memory buffer capacity text).memory.byte (p.advance index.toNat) =
      some (suffix.headD 0) := by
    cases suffix with
    | nil => exact there
    | cons c suffix => exact there
  exact onBytes_of_ok (loadByte_of_some byte)

/-- One round emits nothing and ends the loop, or emits the first blocks and leaves the
rest of the format. -/
theorem formatRound_emits {p : Pointer ι} {front suffix : List UInt8} {character : UInt8}
    (h : Readable memory buffer size p (front ++ character :: suffix)) {index : UInt32}
    (position : index.toNat = front.length) {args : List (VaArg ι)} {arguments : List Argument}
    (held : List.Forall₂ (ArgHolds memory buffer size) args arguments) {all : List (List UInt8)}
    (blocks_eq : blocks (character :: suffix) arguments = some all) :
    (all = [] ∧
      EmitsOr memory buffer capacity (formatRound fuel nullText p index args) [] none none) ∨
    ∃ first rest index' args' left front' suffix', all = first ++ rest ∧
      EmitsOr memory buffer capacity (formatRound fuel nullText p index args) first
        (some (index', args')) none ∧
      List.Forall₂ (ArgHolds memory buffer size) args' left ∧ blocks suffix' left = some rest ∧
      front ++ character :: suffix = front' ++ suffix' ∧ index'.toNat + 1 = front'.length ∧
      suffix'.length ≤ suffix.length := by
  have length := h.bound
  rw [List.length_append, List.length_cons] at length
  have read := formatAt_filled h position inside
  unfold formatRound
  rcases eq_or_ne character '%'.toUInt8 with rfl | plain
  · -- the byte behind the percent sign
    have behind : Readable memory buffer size p ((front ++ ['%'.toUInt8]) ++ suffix) := by
      rw [List.append_assoc]
      exact h
    have next : (index + 1).toNat = (front ++ ['%'.toUInt8]).length := by
      rw [UInt32.toNat_add, position, List.length_append]
      exact Nat.mod_eq_of_lt (by change front.length + 1 < 2 ^ 32; omega)
    have read' := formatAt_filled behind next inside
    cases suffix with
    | nil =>
        rw [blocks_percent] at blocks_eq
        cases blocks_eq
        refine Or.inl ⟨rfl, EmitsOr.reading read ?_⟩
        simp only [List.headD_cons, if_neg (not_not.2 (Eq.refl '%'.toUInt8))]
        refine EmitsOr.reading read' ?_
        exact emits_nil _ _
    | cons specifier suffix =>
        -- a conversion from the arguments, with the index at its specifier
        have conversion : ∀ (alternateForm : Bool) (specifier : UInt8) (suffix' : List UInt8)
            (index' : UInt32),
            (do
              let converted ← convert specifier alternateForm arguments
              let rest ← blocks suffix' converted.2
              some (converted.1 ++ rest)) = some all →
            ∃ first rest args' left, all = first ++ rest ∧
              EmitsOr memory buffer capacity (do
                let args ← writeSpecifier fuel nullText specifier alternateForm args
                pure (args.map fun args => (index', args))) first (some (index', args')) none ∧
              List.Forall₂ (ArgHolds memory buffer size) args' left ∧
              blocks suffix' left = some rest := by
          intro alternateForm specifier suffix' index' eq
          obtain ⟨⟨first, left⟩, converted, eq⟩ := Option.bind_eq_some_iff.1 eq
          obtain ⟨rest, rest_eq, same⟩ := Option.bind_eq_some_iff.1 eq
          cases same
          obtain ⟨args', held', emits⟩ :=
            writeSpecifier_emits room bound inside enough missing held converted
          have all := emits.bind (f := fun args => pure (args.map fun args => (index', args)))
            (emits_nil (some (index', args')) none) fun _ => rfl
          rw [List.append_nil] at all
          exact ⟨first, rest, args', left, rfl, all, held', rest_eq⟩
        have nonzero : ∀ byte ∈ front ++ '%'.toUInt8 :: specifier :: suffix, byte ≠ 0 :=
          fun byte mem zero => h.noZero (zero ▸ mem)
        rcases eq_or_ne specifier '#'.toUInt8 with rfl | plain
        · -- the byte behind the flag
            have behind' : Readable memory buffer size p
                ((front ++ ['%'.toUInt8, '#'.toUInt8]) ++ suffix) := by
              rw [List.append_assoc]
              exact h
            have next' : (index + 1 + 1).toNat = (front ++ ['%'.toUInt8, '#'.toUInt8]).length := by
              rw [UInt32.toNat_add, next, List.length_append, List.length_append]
              exact Nat.mod_eq_of_lt (by
                rw [List.length_cons] at length
                change front.length + 1 + 1 < 2 ^ 32
                omega)
            have read'' := formatAt_filled behind' next' inside
            have flag : ¬ '#'.toUInt8 = 0 := by decide
            cases suffix with
            | nil =>
                rw [blocks_flag] at blocks_eq
                cases blocks_eq
                refine Or.inl ⟨rfl, EmitsOr.reading read ?_⟩
                simp only [List.headD_cons, if_neg (not_not.2 (Eq.refl '%'.toUInt8))]
                refine EmitsOr.reading read' ?_
                simp only [List.headD_cons, if_neg flag]
                refine EmitsOr.reading read'' ?_
                exact emits_nil _ _
            | cons specifier suffix =>
                rw [blocks_alternate] at blocks_eq
                obtain ⟨first, rest, args', left, same, emits, held', rest_eq⟩ :=
                  conversion true specifier suffix (index + 1 + 1) blocks_eq
                refine Or.inr ⟨first, rest, index + 1 + 1, args', left,
                  front ++ ['%'.toUInt8, '#'.toUInt8, specifier], suffix, same, ?_, held', rest_eq,
                  by simp, by rw [next']; simp, by simp; omega⟩
                refine EmitsOr.reading read ?_
                simp only [List.headD_cons, if_neg (not_not.2 (Eq.refl '%'.toUInt8))]
                refine EmitsOr.reading read' ?_
                simp only [List.headD_cons, if_neg flag]
                refine EmitsOr.reading read'' ?_
                have goes_on : ¬specifier = 0 := nonzero specifier (by simp)
                rw [List.headD_cons, if_neg goes_on]
                exact emits
        · rw [blocks_conversion plain] at blocks_eq
          obtain ⟨first, rest, args', left, same, emits, held', rest_eq⟩ :=
            conversion false specifier suffix (index + 1) blocks_eq
          refine Or.inr ⟨first, rest, index + 1, args', left,
            front ++ ['%'.toUInt8, specifier], suffix, same, ?_, held', rest_eq, by simp,
            by rw [next]; simp, Nat.le_succ _⟩
          refine EmitsOr.reading read ?_
          simp only [List.headD_cons, if_neg (not_not.2 (Eq.refl '%'.toUInt8))]
          refine EmitsOr.reading read' ?_
          have goes_on : ¬specifier = 0 := nonzero specifier (by simp)
          rw [List.headD_cons, if_neg goes_on, if_neg plain]
          exact emits
  · rw [blocks_plain plain] at blocks_eq
    obtain ⟨rest, rest_eq, same⟩ := Option.bind_eq_some_iff.1 blocks_eq
    cases same
    refine Or.inr ⟨[[character]], rest, index, args, arguments, front ++ [character], suffix, rfl,
      ?_, held, rest_eq, by simp, by simp [position], Nat.le_refl _⟩
    refine EmitsOr.reading read ?_
    simp only [List.headD_cons, if_pos plain]
    exact (kcursorWriteByte_emits room bound character).andThen (emits_nil _ _)

/-- The loop emits the blocks of what is left of the format. -/
theorem formatLoop_emits {p : Pointer ι} {front suffix : List UInt8}
    (h : Readable memory buffer size p (front ++ suffix)) {index formatLength : UInt32}
    (position : index.toNat = front.length)
    (length : formatLength.toNat = (front ++ suffix).length) {args : List (VaArg ι)}
    {arguments : List Argument} (held : List.Forall₂ (ArgHolds memory buffer size) args arguments)
    {all : List (List UInt8)} (blocks_eq : blocks suffix arguments = some all) {rounds : ℕ}
    (more : suffix.length < rounds) :
    EmitsOr memory buffer capacity (formatLoop fuel nullText p formatLength rounds index args)
      all () () := by
  induction rounds generalizing front suffix index args arguments all with
  | zero => exact absurd more (Nat.not_lt_zero _)
  | succ rounds ih =>
      rw [List.length_append] at length
      cases suffix with
      | nil =>
          have ended : ¬index < formatLength := by
            rw [UInt32.lt_iff_toNat_lt, position, length]
            exact Nat.lt_irrefl _
          cases blocks_eq
          rw [formatLoop, if_neg ended]
          exact emits_nil _ _
      | cons character suffix =>
          have inside_format : index < formatLength := by
            rw [UInt32.lt_iff_toNat_lt, position, length, List.length_cons]
            omega
          rw [formatLoop, if_pos inside_format]
          rcases formatRound_emits room bound inside enough missing h position held blocks_eq with
            ⟨rfl, stops⟩ | ⟨first, rest, index', args', left, front', suffix', rfl, emits, held',
              rest_eq, split, position', shorter⟩
          · exact stops.bind (emits_nil () ()) fun _ => rfl
          · have width := h.bound
            rw [split, List.length_append] at width
            have next : (index' + 1).toNat = front'.length := by
              rw [UInt32.toNat_add, UInt32.toNat_one, position']
              exact Nat.mod_eq_of_lt (by omega)
            rw [split] at h
            have same := congrArg List.length split
            rw [List.length_append] at same
            rw [List.length_cons] at more
            have loop := ih h next (by rw [← same]; exact length) held' rest_eq (by omega)
            exact emits.bind loop fun _ => rfl

end Rounds

end ArkoiOs
