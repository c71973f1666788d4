import ArkoiOs.Kstdio.Numbers
import ArkoiOs.Library.Numerals

/-!
# Canonical numbers

The texts of the number writers are the canonical numerals of their arguments, and
each writer puts as much of its text behind any cursor as there is room for.  The
divisor of `write_u32_dec` is a power of ten in every round of its two loops.
-/

namespace ArkoiOs

open AtomicBlocks Digits Numerals Relation

/-! ## Texts -/

/-- The decimal digits. -/
def decimalAlphabet : List UInt8 := ascii ['0', '1', '2', '3', '4', '5', '6', '7', '8', '9']

/-- The hexadecimal digits. -/
def hexAlphabet (uppercase : Bool) : List UInt8 :=
  ascii (if uppercase then hexDigitsUpper else hexDigitsLower)

/-- A hexadecimal digit. -/
def hexCharacter (uppercase : Bool) (digit : ℕ) : UInt8 :=
  (if uppercase then (Nat.digitChar digit).toUpper else Nat.digitChar digit).toUInt8

theorem decimalAlphabet_spells :
    Spells decimalAlphabet fun digit => (Nat.digitChar digit).toUInt8 := by
  unfold Spells
  decide

theorem hexAlphabet_spells (uppercase : Bool) :
    Spells (hexAlphabet uppercase) (hexCharacter uppercase) := by
  cases uppercase
  · unfold Spells
    decide
  · unfold Spells
    decide

@[simp] theorem length_hexAlphabet (uppercase : Bool) : (hexAlphabet uppercase).length = 16 := by
  cases uppercase <;> rfl

/-- The power of the first digit of a number. -/
theorem pow_log_le_or (base n : ℕ) : base ^ Nat.log base n ≤ n ∨ Nat.log base n = 0 := by
  rcases Nat.eq_zero_or_pos n with rfl | positive
  · exact Or.inr (Nat.log_zero_right base)
  · exact Or.inl (Nat.pow_log_le_self base (Nat.ne_of_gt positive))

theorem canonical_decimal (n : ℕ) : Canonical decimalAlphabet (decimal n) n := by
  have high := pow_log_le_or 10 n
  have low := Nat.lt_pow_succ_log_self (show 1 < 10 by omega) n
  have text : decimal n =
      (digits 10 (Nat.log 10 n + 1) n).map fun digit => (Nat.digitChar digit).toUInt8 := by
    rw [decimal, toDigits_eq (by omega) high low, ascii, List.map_map]
    rfl
  rw [text]
  exact canonical_digits decimalAlphabet_spells (show 1 < 10 by omega) high low

theorem canonical_hexadecimal (uppercase : Bool) (n : ℕ) :
    Canonical (hexAlphabet uppercase) (hexadecimal uppercase n) n := by
  have base := length_hexAlphabet uppercase
  have high := pow_log_le_or 16 n
  have low := Nat.lt_pow_succ_log_self (show 1 < 16 by omega) n
  have text : hexadecimal uppercase n =
      (digits 16 (Nat.log 16 n + 1) n).map (hexCharacter uppercase) := by
    rw [hexadecimal, toDigits_eq (by omega) high low]
    cases uppercase
    · exact List.map_map
    · exact List.map_map.trans List.map_map
  rw [text]
  rw [← base] at high low ⊢
  exact canonical_digits (hexAlphabet_spells uppercase) (base ▸ by decide) high low

/-- The eight digits of an address. -/
theorem addressText_eq {n : ℕ} (word : n < 2 ^ 32) :
    addressText n = hexPrefix false ++ (digits 16 8 n).map (hexCharacter false) := by
  rw [addressText, leftpad_toDigits (by omega) (show n < 16 ^ (7 + 1) by omega), ascii,
    List.map_map]
  rfl

/-! ## Cursors -/

section Cursors

variable {ι : Type}

/-- The cursor stands in a buffer that is there. -/
structure Kcursor.Valid (cursor : Kcursor ι) (memory : ByteMemory ι) : Prop where
  current : cursor.current.object = cursor.start.object
  end_ : cursor.end_.object = cursor.start.object
  lower : cursor.start.offset ≤ cursor.current.offset
  upper : cursor.current.offset ≤ cursor.end_.offset
  room : memory.Room cursor.start (cursor.end_.offset - cursor.start.offset)
  size : cursor.end_.offset - cursor.start.offset < 2 ^ 32

variable [DecidableEq ι]

/-- The code puts the text behind any cursor, as far as there is room, and tells whether
there was room for all of it. -/
def Renders (x : KernelM (CursorState ι) Bool) (text : List UInt8) : Prop :=
  ∀ (memory : ByteMemory ι) (cursor : Kcursor ι), cursor.Valid memory →
    let room := cursor.end_.offset - cursor.current.offset
    x ⟨memory, some cursor⟩ = .ok (decide (text.length ≤ room))
      ⟨memory.overwrite cursor.current (text.take room),
        some { cursor with current := cursor.current.advance (min room text.length) }⟩

/-- Behind a cursor in its buffer the buffer is filled with what is there. -/
theorem Kcursor.Valid.filled {cursor : Kcursor ι} {memory : ByteMemory ι}
    (valid : cursor.Valid memory) :
    ∃ text : List UInt8, text.length = cursor.current.offset - cursor.start.offset ∧
      (⟨memory, some cursor⟩ : CursorState ι) =
        ArkoiOs.filled memory cursor.start (cursor.end_.offset - cursor.start.offset) text := by
  have lower := valid.lower
  have upper := valid.upper
  have front : memory.Room cursor.start (cursor.current.offset - cursor.start.offset) :=
    valid.room.part (i := 0) (by omega)
  obtain ⟨text, length, holds⟩ := front.exists_holds
  have current := Pointer.eq_advance valid.current lower
  have end_ := Pointer.eq_advance valid.end_ (lower.trans upper)
  refine ⟨text, length, ?_⟩
  rw [ArkoiOs.filled, holds.overwrite_self, length, ← current, ← end_]

/-- Code that emits the characters one by one renders the text. -/
theorem Renders.of_emits {x : KernelM (CursorState ι) Bool} {text : List UInt8}
    (emits : ∀ (memory : ByteMemory ι) (buffer : Pointer ι) (capacity : ℕ),
      memory.Room buffer capacity → capacity < 2 ^ 32 →
        Emits memory buffer capacity x (singles text)) : Renders x text := by
  intro memory cursor valid room
  obtain ⟨before, length, state⟩ := valid.filled
  have lower := valid.lower
  have upper := valid.upper
  have left : cursor.end_.offset - cursor.start.offset - before.length = room := by omega
  have run := emits memory cursor.start _ valid.room valid.size before (by omega)
  obtain ⟨memory', cursor'⟩ := CursorState.mk.inj state
  have current : cursor.start.advance before.length = cursor.current :=
    (congrArg Kcursor.current (Option.some.inj cursor')).symm
  have end_ := Pointer.eq_advance valid.end_ (lower.trans upper)
  rw [← state, ← filled_append, flatten_singles, fill_singles, left, ← memory', current, ← end_,
    List.length_take] at run
  refine run.trans (congrArg (EStateM.Result.ok · _) ?_)
  split
  · rename_i fits
    exact (decide_eq_true fits).symm
  · rename_i full
    exact (decide_eq_false full).symm

end Cursors

/-! ## The divisor -/

/-- A round of the first loop of `write_u32_dec`, on `temp` and `divisor`. -/
def divisorRound (temp divisor : UInt32) : Option (UInt32 × UInt32) :=
  if temp ≥ 10 then some (temp / 10, divisor * 10) else none

/-- A round of the second loop, on `value` and `divisor`. -/
def digitRound (value divisor : UInt32) : Option (UInt32 × UInt32) :=
  if divisor ≠ 0 then some (value % divisor, divisor / 10) else none

/-- Rounds of the first loop lead from one pair to the other. -/
def GrowsTo : UInt32 × UInt32 → UInt32 × UInt32 → Prop :=
  ReflTransGen fun x y => divisorRound x.1 x.2 = some y

/-- Rounds of the second loop lead from one pair to the other. -/
def ShrinksTo : UInt32 × UInt32 → UInt32 × UInt32 → Prop :=
  ReflTransGen fun x y => digitRound x.1 x.2 = some y

/-- The first loop comes to its end and the second one makes its rounds; in each round of
both the divisor is a power of ten: its product does not overflow, and a quotient by it
is a digit. -/
structure DivisorSafe (ι : Type) [DecidableEq ι] (value : UInt32) : Prop where
  ends : ∃ x, GrowsTo (value, 1) x ∧ x.1 < 10 ∧
    ∀ state : CursorState ι, divisorLoop digitRounds value 1 state = .ok x.2 state
  rounds : ∀ fuel rest divisor,
    (decLoop (fuel + 1) rest divisor : KernelM (CursorState ι) Bool) =
      (digitRound rest divisor).elim (pure true) fun x => (do
        if !(← kcursorWriteByte ('0'.toNat.toUInt32 + rest / divisor).toUInt8) then pure false
        else decLoop fuel x.1 x.2)
  grows : ∀ x, GrowsTo (value, 1) x →
    (∃ k, x.2.toNat = 10 ^ k) ∧ (x.1 ≥ 10 → x.2.toNat * 10 < 2 ^ 32)
  shrinks : ∀ x, GrowsTo (value, 1) x → x.1 < 10 → ∀ y, ShrinksTo (value, x.2) y →
    y.2 = 0 ∨ (∃ k, y.2.toNat = 10 ^ k) ∧ y.1.toNat / y.2.toNat < 10

section Divisor

variable {ι : Type} {value temp divisor : UInt32}

/-- The second loop makes its rounds, each with a quotient for a digit. -/
theorem decLoop_succ [DecidableEq ι] (fuel : ℕ) (value divisor : UInt32) :
    (decLoop (fuel + 1) value divisor : KernelM (CursorState ι) Bool) =
      (digitRound value divisor).elim (pure true) fun x => (do
        if !(← kcursorWriteByte ('0'.toNat.toUInt32 + value / divisor).toUInt8) then pure false
        else decLoop fuel x.1 x.2) := by
  rw [decLoop, digitRound]
  split <;> rfl

/-- In the first loop the divisor has grown as the value has shrunk. -/
structure Grown (value : UInt32) (x : UInt32 × UInt32) (k : ℕ) : Prop where
  temp : x.1.toNat = value.toNat / 10 ^ k
  divisor : x.2.toNat = 10 ^ k
  below : 10 ^ k ≤ value.toNat ∨ k = 0

theorem Grown.product_lt {x : UInt32 × UInt32} {k : ℕ} (grown : Grown value x k)
    (more : x.1 ≥ 10) : x.2.toNat * 10 < 2 ^ 32 := by
  rw [ge_iff_le, UInt32.le_iff_toNat_le, grown.temp] at more
  have enough : 10 * 10 ^ k ≤ value.toNat :=
    (Nat.le_div_iff_mul_le (Nat.pow_pos (by omega))).1 more
  rw [grown.divisor, Nat.mul_comm]
  exact enough.trans_lt value.toNat_lt

theorem Grown.step {x y : UInt32 × UInt32} {k : ℕ} (grown : Grown value x k)
    (round : divisorRound x.1 x.2 = some y) : Grown value y (k + 1) := by
  rw [divisorRound] at round
  split at round
  · rename_i more
    cases round
    have product := grown.product_lt more
    have bound : (10 : UInt32).toNat ≤ x.1.toNat := UInt32.le_iff_toNat_le.1 more
    have enough : 10 * 10 ^ k ≤ value.toNat :=
      (Nat.le_div_iff_mul_le (Nat.pow_pos (by omega))).1 (grown.temp ▸ bound)
    refine ⟨?_, ?_, Or.inl (by rw [Nat.pow_succ']; exact enough)⟩
    · rw [UInt32.toNat_div, grown.temp, Nat.pow_succ, ← Nat.div_div_eq_div_mul]
      rfl
    · rw [UInt32.toNat_mul]
      refine (Nat.mod_eq_of_lt product).trans ?_
      rw [grown.divisor, Nat.pow_succ]
  · cases round

theorem GrowsTo.grown {x : UInt32 × UInt32} (run : GrowsTo (value, 1) x) :
    ∃ k, Grown value x k := by
  induction run with
  | refl => exact ⟨0, (Nat.div_one _).symm, rfl, Or.inr rfl⟩
  | tail _ round ih =>
      obtain ⟨k, grown⟩ := ih
      exact ⟨k + 1, grown.step round⟩

/-- With fuel for its rounds the first loop ends where they end. -/
theorem divisorLoop_ends {fuel : ℕ} (enough : temp.toNat < 10 ^ (fuel + 1)) :
    ∃ x, GrowsTo (temp, divisor) x ∧ x.1 < 10 ∧
      ∀ state : CursorState ι, divisorLoop (fuel + 1) temp divisor state = .ok x.2 state := by
  induction fuel generalizing temp divisor with
  | zero =>
      exact ⟨(temp, divisor), .refl, UInt32.lt_iff_toNat_lt.2 enough, divisorLoop_stop enough⟩
  | succ fuel ih =>
      rcases Nat.lt_or_ge temp.toNat 10 with one | more
      · exact ⟨(temp, divisor), .refl, UInt32.lt_iff_toNat_lt.2 one, divisorLoop_stop one⟩
      · have below : (temp / 10).toNat < 10 ^ (fuel + 1) := by
          rw [UInt32.toNat_div]
          exact (Nat.div_lt_iff_lt_mul (by decide)).2 enough
        obtain ⟨x, run, stop, result⟩ := @ih (temp / 10) (divisor * 10) below
        have again : temp ≥ 10 := by
          rw [ge_iff_le, UInt32.le_iff_toNat_le]
          exact more
        have round : divisorRound temp divisor = some (temp / 10, divisor * 10) := if_pos again
        refine ⟨x, .head round run, stop, fun state => ?_⟩
        rw [divisorLoop_step more]
        exact result state

/-- In the second loop what is left of the value is below ten divisors. -/
theorem ShrinksTo.shrunk {x y : UInt32 × UInt32} (run : ShrinksTo x y) {k : ℕ}
    (divisor : x.2.toNat = 10 ^ k) (rest : x.1.toNat < 10 ^ (k + 1)) :
    y.2 = 0 ∨ ∃ j, y.2.toNat = 10 ^ j ∧ y.1.toNat < 10 ^ (j + 1) := by
  induction run with
  | refl => exact Or.inr ⟨k, divisor, rest⟩
  | @tail y z _ round ih =>
      rw [digitRound] at round
      split at round
      · rename_i nonzero
        cases round
        obtain ⟨j, power, -⟩ := ih.resolve_left nonzero
        cases j with
        | zero =>
            left
            rw [← UInt32.toNat_inj, UInt32.toNat_div, power]
            rfl
        | succ j =>
            refine Or.inr ⟨j, ?_, ?_⟩
            · rw [UInt32.toNat_div, power, Nat.pow_succ]
              exact Nat.mul_div_cancel _ (by omega)
            · rw [UInt32.toNat_mod, power]
              exact Nat.mod_lt _ (Nat.pow_pos (by omega))
      · cases round

theorem divisorSafe (ι : Type) [DecidableEq ι] (value : UInt32) : DivisorSafe ι value where
  ends := divisorLoop_ends (value.toNat_lt.trans (by decide))
  rounds := decLoop_succ
  grows x run := by
    obtain ⟨k, grown⟩ := run.grown
    exact ⟨⟨k, grown.divisor⟩, grown.product_lt⟩
  shrinks x run stop y rest := by
    obtain ⟨k, grown⟩ := run.grown
    have low : value.toNat < 10 ^ (k + 1) := by
      rw [UInt32.lt_iff_toNat_lt, grown.temp, Nat.div_lt_iff_lt_mul (Nat.pow_pos (by omega)),
        Nat.mul_comm] at stop
      rw [Nat.pow_succ]
      exact stop
    refine (rest.shrunk grown.divisor low).imp_right fun ⟨j, power, left⟩ => ⟨⟨j, power⟩, ?_⟩
    rw [power, Nat.div_lt_iff_lt_mul (Nat.pow_pos (by omega)), Nat.mul_comm, ← Nat.pow_succ]
    exact left

end Divisor

/-! ## The writers -/

/-- Each number writer renders the canonical text of its argument: a signed number has
a sign exactly if it is negative, and an address has eight digits; the divisor of the
decimal writer is safe. -/
theorem numbers_canonical (ι : Type) [DecidableEq ι] :
    (∀ value : UInt32, ∃ text, Canonical decimalAlphabet text value.toNat ∧
      Renders (ι := ι) (writeU32Dec value) text) ∧
    (∀ value : Int32, ∃ text, Canonical decimalAlphabet text value.toInt.natAbs ∧
      Renders (ι := ι) (writeI32Dec value)
        (if value.toInt < 0 then '-'.toUInt8 :: text else text)) ∧
    (∀ (value : UInt32) (uppercase alternateForm : Bool), ∃ text,
      Canonical (hexAlphabet uppercase) text value.toNat ∧
      Renders (ι := ι) (writeU32Hex value uppercase alternateForm)
        ((if alternateForm then hexPrefix uppercase else []) ++ text)) ∧
    (∀ value : UInt32, ∃ text, text.length = 8 ∧ IsNumeral (hexAlphabet false) text ∧
      Numerals.value (hexAlphabet false) text = value.toNat ∧
      Renders (ι := ι) (writePointer value) (hexPrefix false ++ text)) ∧
    ∀ value : UInt32, DivisorSafe ι value := by
  refine ⟨fun value => ⟨_, canonical_decimal value.toNat, .of_emits ?_⟩,
    fun value => ⟨_, canonical_decimal value.toInt.natAbs, .of_emits ?_⟩,
    fun value uppercase alternateForm =>
      ⟨_, canonical_hexadecimal uppercase value.toNat, .of_emits ?_⟩,
    fun value => ⟨(digits 16 8 value.toNat).map (hexCharacter false), ?_, ?_, ?_, .of_emits ?_⟩,
    divisorSafe ι⟩
  · exact fun memory buffer capacity room bound => writeU32Dec_emits room bound value
  · exact fun memory buffer capacity room bound => writeI32Dec_emits room bound value
  · exact fun memory buffer capacity room bound =>
      writeU32Hex_emits room bound value uppercase alternateForm
  · rw [List.length_map, length_digits]
  · exact isNumeral_digits (hexAlphabet_spells false) (show 0 < 16 by omega) 8 value.toNat
  · exact (value_digits (hexAlphabet_spells false) (show 0 < 16 by omega) 8 value.toNat).trans
      (Nat.mod_eq_of_lt value.toNat_lt)
  · intro memory buffer capacity room bound
    rw [← addressText_eq value.toNat_lt]
    exact writePointer_emits room bound value

/-- A buffer of four bytes. -/
def fourBytes : ByteMemory Bool := fun object offset =>
  if !object && offset < 4 then some 0 else none

/-- A cursor behind the first of them. -/
def secondByte : Kcursor Bool := ⟨⟨false, 0⟩, ⟨false, 1⟩, ⟨false, 4⟩⟩

theorem secondByte_valid : secondByte.Valid fourBytes :=
  ⟨rfl, rfl, by decide, by decide, by decide, by decide⟩

/-- Three digits have room there. -/
theorem cutNumber_canonical : ∃ text, Canonical decimalAlphabet text 12345 ∧
    writeU32Dec 12345 ⟨fourBytes, some secondByte⟩ =
      .ok (decide (text.length ≤ 3)) ⟨fourBytes.overwrite ⟨false, 1⟩ (text.take 3),
        some { secondByte with current := ⟨false, 1 + min 3 text.length⟩ }⟩ := by
  obtain ⟨text, canonical, renders⟩ := (numbers_canonical Bool).1 12345
  exact ⟨text, canonical, renders _ _ secondByte_valid⟩

end ArkoiOs
