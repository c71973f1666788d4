import ArkoiOs.Kstdio.Model
import ArkoiOs.Kstdio.Render
import ArkoiOs.Library.Digits

/-!
# What the number writers emit

Each writer emits the digits of its argument one by one: the first loop of
`write_u32_dec` finds the power of ten of the first digit, the second one takes
digits from the front, and `write_hex_nibbles` shifts them out.
-/

namespace ArkoiOs

open Digits AtomicBlocks

/-! ## Digits -/

/-- `'0' + digit`. -/
theorem decDigit_eq {digit : UInt32} (small : digit.toNat < 10) :
    ('0'.toNat.toUInt32 + digit).toUInt8 = (Nat.digitChar digit.toNat).toUInt8 := by
  have table : ∀ d < 10, ('0'.toNat.toUInt32 + UInt32.ofNat d).toUInt8 =
      (Nat.digitChar d).toUInt8 := by decide
  have entry := table digit.toNat small
  rwa [UInt32.ofNat_toNat] at entry

/-- `hex_digits[digit]`. -/
theorem hexDigit_eq (uppercase : Bool) {digit : ℕ} (small : digit < 16) :
    (if uppercase then hexDigitsUpper else hexDigitsLower)[digit]?.getD '0' =
      if uppercase then (Nat.digitChar digit).toUpper else Nat.digitChar digit := by
  have upper : ∀ d < 16, hexDigitsUpper[d]?.getD '0' = (Nat.digitChar d).toUpper := by decide
  have lower : ∀ d < 16, hexDigitsLower[d]?.getD '0' = Nat.digitChar d := by decide
  cases uppercase
  · exact lower digit small
  · exact upper digit small

/-- One hexadecimal digit of a word. -/
theorem hexNibble_toNat (value : UInt32) {left : ℕ} (inside : left < 8) :
    ((value >>> (left * 4).toUInt32) &&& 0xF).toNat = value.toNat / 16 ^ left % 16 := by
  have shift : (left * 4).toUInt32.toNat % 32 = 4 * left := by
    rw [Nat.toUInt32_eq, UInt32.toNat_ofNat']
    omega
  have power : 2 ^ (4 * left) = 16 ^ left := by
    rw [Nat.pow_mul]
  have mask : (0xF : UInt32).toNat = 2 ^ 4 - 1 := rfl
  rw [UInt32.toNat_and, UInt32.toNat_shiftRight, shift, mask, Nat.and_two_pow_sub_one_eq_mod,
    Nat.shiftRight_eq_div_pow, power]

section Writers

variable {ι : Type}

theorem divisorLoop_stop {fuel : ℕ} {temp divisor : UInt32} (one : temp.toNat < 10)
    (state : CursorState ι) : divisorLoop (fuel + 1) temp divisor state = .ok divisor state := by
  have stop : ¬ temp ≥ 10 := by
    rw [ge_iff_le, UInt32.le_iff_toNat_le]
    exact Nat.not_le.2 one
  rw [divisorLoop, if_neg stop]
  rfl

theorem divisorLoop_step {fuel : ℕ} {temp divisor : UInt32} (more : 10 ≤ temp.toNat) :
    (divisorLoop (fuel + 1) temp divisor : KernelM (CursorState ι) UInt32) =
      divisorLoop fuel (temp / 10) (divisor * 10) := by
  have again : temp ≥ 10 := by
    rw [ge_iff_le, UInt32.le_iff_toNat_le]
    exact more
  rw [divisorLoop, if_pos again]

/-- The first loop of `write_u32_dec` returns the power of ten of the first digit; the
divisor stays below the value it started from. -/
theorem divisorLoop_eq {fuel : ℕ} {temp divisor : UInt32} (state : CursorState ι)
    (enough : temp.toNat < 10 ^ (fuel + 1))
    (small : divisor.toNat * max temp.toNat 1 < 2 ^ 32) :
    ∃ count result, divisorLoop (fuel + 1) temp divisor state = .ok result state ∧
      count ≤ fuel ∧ result.toNat = divisor.toNat * 10 ^ count ∧
      (10 ^ count ≤ temp.toNat ∨ count = 0) ∧ temp.toNat < 10 ^ (count + 1) := by
  induction fuel generalizing temp divisor with
  | zero =>
      exact ⟨0, divisor, divisorLoop_stop enough state, Nat.le_refl _, (Nat.mul_one _).symm,
        Or.inr rfl, enough⟩
  | succ fuel ih =>
      rcases Nat.lt_or_ge temp.toNat 10 with one | more
      · exact ⟨0, divisor, divisorLoop_stop one state, Nat.zero_le _, (Nat.mul_one _).symm,
          Or.inr rfl, one⟩
      · have rest : (temp / 10).toNat = temp.toNat / 10 := UInt32.toNat_div temp 10
        have below : temp.toNat / 10 < 10 ^ (fuel + 1) :=
          (Nat.div_lt_iff_lt_mul (by omega)).2 enough
        have product : divisor.toNat * 10 * (temp.toNat / 10) ≤ divisor.toNat * temp.toNat := by
          rw [Nat.mul_assoc]
          exact Nat.mul_le_mul_left _ (Nat.mul_div_le _ _)
        have positive : max temp.toNat 1 = temp.toNat := Nat.max_eq_left (by omega)
        have positive' : max (temp.toNat / 10) 1 = temp.toNat / 10 := Nat.max_eq_left (by omega)
        rw [positive] at small
        have tens : (divisor * 10).toNat = divisor.toNat * 10 := by
          rw [UInt32.toNat_mul]
          exact Nat.mod_eq_of_lt (lt_of_le_of_lt (Nat.mul_le_mul_left _ more) small)
        obtain ⟨count, result, run, le, power, high, low⟩ :=
          @ih (temp / 10) (divisor * 10) (by rw [rest]; exact below)
            (by rw [rest, tens, positive']; omega)
        rw [rest] at high low
        rw [divisorLoop_step more]
        refine ⟨count + 1, result, run, Nat.succ_le_succ le, ?_, Or.inl ?_, ?_⟩
        · rw [power, tens, Nat.pow_succ', Nat.mul_assoc]
        · rcases high with large | zero
          · rw [Nat.pow_succ]
            exact (Nat.le_div_iff_mul_le (by omega)).1 large
          · rw [zero]
            exact more
        · exact (Nat.div_lt_iff_lt_mul (by omega)).1 low

theorem hexDigitCountLoop_eq {fuel : ℕ} {count value : UInt32} (state : CursorState ι)
    (enough : value.toNat < 16 ^ (fuel + 1)) :
    ∃ more, hexDigitCountLoop (fuel + 1) count value state =
        .ok (count + 1 + UInt32.ofNat more) state ∧
      (16 ^ more ≤ value.toNat ∨ more = 0) ∧ value.toNat < 16 ^ (more + 1) := by
  have shifted : (value >>> 4).toNat = value.toNat / 16 :=
    (UInt32.toNat_shiftRight value 4).trans (Nat.shiftRight_eq_div_pow value.toNat 4)
  induction fuel generalizing count value with
  | zero =>
      have stop : ¬ value >>> 4 ≠ 0 := by
        rw [not_not, ← UInt32.toNat_inj, shifted]
        exact Nat.div_eq_of_lt enough
      refine ⟨0, ?_, Or.inr rfl, enough⟩
      rw [hexDigitCountLoop, if_neg stop]
      exact congrArg (EStateM.Result.ok · state) (UInt32.add_zero (count + 1)).symm
  | succ fuel ih =>
      rcases Nat.lt_or_ge value.toNat 16 with one | several
      · have stop : ¬ value >>> 4 ≠ 0 := by
          rw [not_not, ← UInt32.toNat_inj, shifted]
          exact Nat.div_eq_of_lt one
        refine ⟨0, ?_, Or.inr rfl, one⟩
        rw [hexDigitCountLoop, if_neg stop]
        exact congrArg (EStateM.Result.ok · state) (UInt32.add_zero (count + 1)).symm
      · have again : value >>> 4 ≠ 0 := by
          intro zero
          rw [zero, UInt32.toNat_zero] at shifted
          omega
        have below : value.toNat / 16 < 16 ^ (fuel + 1) :=
          (Nat.div_lt_iff_lt_mul (by omega)).2 enough
        obtain ⟨more, run, high, low⟩ := @ih (count + 1) (value >>> 4)
          (by rw [shifted]; exact below)
          ((UInt32.toNat_shiftRight _ 4).trans (Nat.shiftRight_eq_div_pow _ 4))
        rw [shifted] at high low
        refine ⟨more + 1, ?_, Or.inl ?_, (Nat.div_lt_iff_lt_mul (by omega)).1 low⟩
        · rw [hexDigitCountLoop, if_pos again, run, UInt32.ofNat_add, UInt32.add_assoc (count + 1),
            UInt32.add_comm _ (UInt32.ofNat 1)]
          rfl
        · rcases high with large | zero
          · rw [Nat.pow_succ]
            exact (Nat.le_div_iff_mul_le (by omega)).1 large
          · rw [zero]
            exact several

variable [DecidableEq ι] {memory : ByteMemory ι} {buffer : Pointer ι} {capacity : ℕ}
  (room : memory.Room buffer capacity) (bound : capacity < 2 ^ 32)

include room bound

/-- The second loop emits the digits from the front. -/
theorem decLoop_emits {fuel count : ℕ} {value divisor : UInt32} (enough : count < fuel)
    (power : divisor.toNat = 10 ^ count / 10) (small : value.toNat < 10 ^ count) :
    Emits memory buffer capacity (decLoop fuel value divisor)
      (singles (ascii ((digits 10 count value.toNat).map Nat.digitChar))) := by
  induction count generalizing fuel value divisor with
  | zero =>
      obtain ⟨fuel, rfl⟩ := Nat.exists_eq_succ_of_ne_zero (Nat.ne_of_gt enough)
      have stop : ¬ divisor ≠ 0 := not_not.2 (UInt32.toNat_inj.1 power)
      rw [decLoop, if_neg stop]
      exact emits_nil true false
  | succ count ih =>
      obtain ⟨fuel, rfl⟩ := Nat.exists_eq_succ_of_ne_zero (Nat.ne_of_gt (Nat.zero_lt_of_lt enough))
      have first : divisor.toNat = 10 ^ count := by
        rw [power, Nat.pow_succ, Nat.mul_div_cancel _ (by omega)]
      have positive : 0 < 10 ^ count := Nat.pow_pos (by omega)
      have again : divisor ≠ 0 := by
        rintro rfl
        rw [UInt32.toNat_zero] at first
        omega
      have digit : (value / divisor).toNat = value.toNat / 10 ^ count % 10 := by
        rw [UInt32.toNat_div, first, Nat.mod_eq_of_lt]
        exact (Nat.div_lt_iff_lt_mul positive).2 (by rw [Nat.mul_comm, ← Nat.pow_succ]; exact small)
      have rest : (value % divisor).toNat = value.toNat % 10 ^ count := by
        rw [UInt32.toNat_mod, first]
      have next := @ih fuel (value % divisor) (divisor / 10)
        (by omega) (by rw [UInt32.toNat_div, first]; rfl)
        (by rw [rest]; exact Nat.mod_lt _ positive)
      rw [rest, digits_mod 10 value.toNat (Nat.le_refl count)] at next
      have character := decDigit_eq
        (show (value / divisor).toNat < 10 by rw [digit]; exact Nat.mod_lt _ (by omega))
      rw [digit] at character
      rw [decLoop, if_pos again]
      simp only [character]
      exact (kcursorWriteByte_emits room bound _).andThen next

/-- `write_u32_dec` emits the number in decimal. -/
theorem writeU32Dec_emits (value : UInt32) :
    Emits memory buffer capacity (writeU32Dec value) (singles (decimal value.toNat)) := by
  have width := value.toNat_lt
  intro text short
  obtain ⟨count, divisor, run, -, power, high, low⟩ := @divisorLoop_eq ι 31 value 1
    (filled memory buffer capacity text)
    (width.trans (by decide)) (by rw [UInt32.toNat_one, Nat.one_mul]; omega)
  have few : count + 1 < digitRounds := by
    by_contra many
    have digits : 10 ≤ count := by
      change ¬count + 1 < 32 at many
      omega
    have tens : 10 ^ 10 ≤ 10 ^ count := Nat.pow_le_pow_right (by omega) digits
    rcases high with large | zero
    · omega
    · omega
  have first : divisor.toNat = 10 ^ (count + 1) / 10 := by
    rw [power, UInt32.toNat_one, Nat.one_mul, Nat.pow_succ, Nat.mul_div_cancel _ (by omega)]
  have written := decLoop_emits room bound few first low
  rw [← toDigits_eq (by omega) high low] at written
  exact (Machine.bind_of_ok run).trans (written text short)

/-- `write_i32_dec` emits the number in decimal, with its sign. -/
theorem writeI32Dec_emits (value : Int32) :
    Emits memory buffer capacity (writeI32Dec value) (singles (signedDecimal value.toInt)) := by
  have word : value.toUInt32.toNat = value.toBitVec.toNat := rfl
  have signed : value.toInt = if 2 * value.toBitVec.toNat < 2 ^ 32 then
      (value.toBitVec.toNat : ℤ) else (value.toBitVec.toNat : ℤ) - (2 ^ 32 : ℕ) :=
    BitVec.toInt_eq_toNat_cond value.toBitVec
  have width := value.toUInt32.toNat_lt
  have sign : value < 0 ↔ value.toInt < 0 := Int32.lt_iff_toInt_lt
  intro text short
  rw [signedDecimal]
  rcases lt_or_ge value.toInt 0 with negative | positive
  · have magnitude : (0 - value.toUInt32).toNat = value.toInt.natAbs := by
      rw [UInt32.toNat_sub, UInt32.toNat_zero, word]
      split at signed
      · omega
      · rw [signed]
        omega
    have rest := writeU32Dec_emits room bound (0 - value.toUInt32)
    rw [magnitude] at rest
    have all := (kcursorWriteByte_emits room bound '-'.toUInt8).andThen rest text short
    rw [if_pos negative]
    refine Eq.trans ?_ all
    unfold writeI32Dec
    simp only [if_pos (sign.2 negative)]
    rfl
  · have magnitude : value.toUInt32.toNat = value.toInt.natAbs := by
      rw [word]
      split at signed
      · omega
      · omega
    have all := writeU32Dec_emits room bound value.toUInt32 text short
    rw [magnitude] at all
    rw [if_neg (Int.not_lt.2 positive)]
    refine Eq.trans ?_ all
    unfold writeI32Dec
    simp only [if_neg (mt sign.1 (Int.not_lt.2 positive))]
    rfl

/-- The loop of `write_hex_nibbles` emits the digits from the front. -/
theorem hexLoop_emits (value : UInt32) (uppercase : Bool) {left : ℕ} (inside : left ≤ 8) :
    Emits memory buffer capacity
      (hexLoop value (if uppercase then hexDigitsUpper else hexDigitsLower) left)
      (singles (ascii ((digits 16 left value.toNat).map fun digit =>
        if uppercase then (Nat.digitChar digit).toUpper else Nat.digitChar digit))) := by
  induction left with
  | zero => exact emits_nil true false
  | succ left ih =>
      have digit := hexNibble_toNat value (show left < 8 by omega)
      have character := hexDigit_eq uppercase
        (Nat.mod_lt (value.toNat / 16 ^ left) (show 16 > 0 by omega))
      rw [hexLoop]
      simp only [digit, character]
      exact (kcursorWriteByte_emits room bound _).andThen (ih (by omega))

/-- `write_hex_nibbles` emits the prefix of the alternate form and the digits. -/
theorem writeHexNibbles_emits (value : UInt32) {nibbles : UInt8} (inside : nibbles.toNat ≤ 8)
    (uppercase alternateForm : Bool) :
    Emits memory buffer capacity (writeHexNibbles value nibbles uppercase alternateForm)
      (singles ((if alternateForm then hexPrefix uppercase else []) ++
        ascii ((digits 16 nibbles.toNat value.toNat).map fun digit =>
          if uppercase then (Nat.digitChar digit).toUpper else Nat.digitChar digit))) := by
  have digits := hexLoop_emits room bound value uppercase inside
  cases alternateForm with
  | false => exact digits
  | true =>
      exact (kcursorWriteByte_emits room bound '0'.toUInt8).andThen
        ((kcursorWriteByte_emits room bound (if uppercase then 'X' else 'x').toUInt8).andThen
          digits)

/-- `write_u32_hex` emits the number in hexadecimal. -/
theorem writeU32Hex_emits (value : UInt32) (uppercase alternateForm : Bool) :
    Emits memory buffer capacity (writeU32Hex value uppercase alternateForm)
      (singles ((if alternateForm then hexPrefix uppercase else []) ++
        hexadecimal uppercase value.toNat)) := by
  have width := value.toNat_lt
  intro text short
  obtain ⟨more, run, high, low⟩ := @hexDigitCountLoop_eq ι 31 0 value
    (filled memory buffer capacity text) (width.trans (by decide))
  have few : more ≤ 7 := by
    by_contra many
    have power : 16 ^ 8 ≤ 16 ^ more := Nat.pow_le_pow_right (by omega) (by omega)
    rcases high with large | zero
    · omega
    · omega
  have count : (0 + 1 + UInt32.ofNat more).toUInt8.toNat = more + 1 := by
    rw [UInt32.toNat_toUInt8, UInt32.toNat_add, UInt32.toNat_ofNat']
    change (1 + more % 2 ^ 32) % 2 ^ 32 % 2 ^ 8 = more + 1
    omega
  have text_eq : hexadecimal uppercase value.toNat =
      ascii ((digits 16 (more + 1) value.toNat).map fun digit =>
        if uppercase then (Nat.digitChar digit).toUpper else Nat.digitChar digit) := by
    rw [hexadecimal, toDigits_eq (by omega) high low, List.map_map]
    cases uppercase <;> rfl
  have inside : (0 + 1 + UInt32.ofNat more).toUInt8.toNat ≤ 8 := by
    rw [count]
    omega
  have written := writeHexNibbles_emits room bound value inside uppercase alternateForm
  rw [count, ← text_eq] at written
  exact (Machine.bind_of_ok run).trans (written text short)

/-- `write_pointer` emits the address. -/
theorem writePointer_emits (value : UInt32) :
    Emits memory buffer capacity (writePointer value) (singles (addressText value.toNat)) := by
  have width := value.toNat_lt
  have padded := @leftpad_toDigits 16 value.toNat (by omega) 7 (by omega)
  rw [addressText, padded]
  exact writeHexNibbles_emits room bound value (show (8 : UInt8).toNat ≤ 8 by decide) false true

end Writers

end ArkoiOs
