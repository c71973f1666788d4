import Mathlib.Data.UInt
import Mathlib.Tactic.Ring

/-!
# Little-endian numbers

`encode width n` is the low `width` bytes of `n`, least significant byte first;
`decode` reads such bytes, and the number comes back modulo `256 ^ width`.
-/

namespace LittleEndian

/-- The low bytes of a number. -/
def encode : ℕ → ℕ → List UInt8
  | 0, _ => []
  | width + 1, n => UInt8.ofNat n :: encode width (n / 256)

/-- The number that the bytes write. -/
def decode : List UInt8 → ℕ
  | [] => 0
  | byte :: bytes => byte.toNat + 256 * decode bytes

@[simp] theorem length_encode (width n : ℕ) : (encode width n).length = width := by
  induction width generalizing n with
  | zero => rfl
  | succ width ih => rw [encode, List.length_cons, ih]

theorem decode_encode (width n : ℕ) : decode (encode width n) = n % 256 ^ width := by
  induction width generalizing n with
  | zero => rw [pow_zero, Nat.mod_one, encode, decode]
  | succ width ih =>
      have low : (UInt8.ofNat n).toNat = n % 256 := UInt8.toNat_ofNat'
      rw [encode, decode, low, ih, pow_succ, Nat.mul_comm (256 ^ width), Nat.mod_mul]

/-- A number below the bound is read back. -/
theorem decode_encode_of_lt {width n : ℕ} (bound : n < 256 ^ width) :
    decode (encode width n) = n := by
  rw [decode_encode, Nat.mod_eq_of_lt bound]

/-- Numbers below the bound have different bytes. -/
theorem encode_inj {width n m : ℕ} (hn : n < 256 ^ width) (hm : m < 256 ^ width)
    (same : encode width n = encode width m) : n = m := by
  rw [← decode_encode_of_lt hn, same, decode_encode_of_lt hm]

/-- Any bytes are those of the number they write. -/
theorem encode_decode (bytes : List UInt8) : encode bytes.length (decode bytes) = bytes := by
  induction bytes with
  | nil => rfl
  | cons byte bytes ih =>
      have width := byte.toNat_lt
      have low : UInt8.ofNat (byte.toNat + 256 * decode bytes) = byte := by
        apply UInt8.toNat_inj.1
        rw [UInt8.toNat_ofNat']
        omega
      have high : (byte.toNat + 256 * decode bytes) / 256 = decode bytes := by omega
      rw [List.length_cons, decode, encode, low, high, ih]

theorem decode_lt (bytes : List UInt8) : decode bytes < 256 ^ bytes.length := by
  induction bytes with
  | nil => exact Nat.one_pos
  | cons byte bytes ih =>
      have width := byte.toNat_lt
      rw [decode, List.length_cons, pow_succ]
      omega

theorem decode_append (front back : List UInt8) :
    decode (front ++ back) = decode front + 256 ^ front.length * decode back := by
  induction front with
  | nil => simp [decode]
  | cons byte front ih =>
      rw [List.cons_append, decode, ih, decode, List.length_cons, pow_succ]
      ring

/-- Zero is written by zero bytes. -/
theorem encode_zero (width : ℕ) : encode width 0 = List.replicate width 0 := by
  induction width with
  | zero => rfl
  | succ width ih =>
      rw [encode, Nat.zero_div, ih]
      rfl

end LittleEndian
