import Mathlib.Data.Nat.ModEq
import Mathlib.Tactic.Ring

/-!
# Little-endian words

The object representation of an unsigned integer on a little-endian host: a
word of width w is the list of its w base-256 digits, least significant first.

The module is independent of any program. It provides the two conversions,
the round trip of a number and the fact that reading a word depends only on
the bytes of that word.
-/

namespace Gamnet
namespace LittleEndian

/-- The w low-order bytes of n, least significant byte first. -/
def encode : Nat → Nat → List UInt8
  | 0, _ => []
  | w + 1, n => UInt8.ofNat n :: encode w (n / 256)

/-- The number denoted by a list of little-endian bytes. -/
def decode : List UInt8 → Nat
  | [] => 0
  | x :: bytes => x.toNat + 256 * decode bytes

@[simp] theorem encode_length
    (w n : Nat) :
    (encode w n).length = w := by
  induction w generalizing n with
  | zero =>
      rfl
  | succ w ih =>
      simp [encode, ih]

@[simp] theorem decode_nil :
    decode [] = 0 := by
  rfl

/-- A list of bytes denotes a number below the capacity of its width. -/
theorem decode_lt
    (bytes : List UInt8) :
    decode bytes < 256 ^ bytes.length := by
  induction bytes with
  | nil =>
      simp
  | cons x bytes ih =>
      have hx : x.toNat < 256 := x.toNat_lt
      simp only [decode, List.length_cons, pow_succ]
      omega

/-- Writing a number and reading it back keeps its value modulo the width. -/
theorem decode_encode
    (w n : Nat) :
    decode (encode w n) = n % 256 ^ w := by
  induction w generalizing n with
  | zero =>
      simp [encode, Nat.mod_one]
  | succ w ih =>
      have hdigit : (UInt8.ofNat n).toNat = n % 256 := by
        simp [UInt8.toNat_ofNat']
      simp only [encode, decode, ih, hdigit]
      rw [pow_succ, Nat.mul_comm (256 ^ w) 256, Nat.mod_mul]

/-- A number that fits its width is read back unchanged. -/
theorem decode_encode_of_lt
    {w n : Nat}
    (hn : n < 256 ^ w) :
    decode (encode w n) = n := by
  rw [decode_encode, Nat.mod_eq_of_lt hn]

/-- The word of width w that starts at an offset of a byte string. -/
def wordAt
    (offset w : Nat)
    (bytes : List UInt8) : Nat :=
  decode ((bytes.drop offset).take w)

/-- A word is below the capacity of its width. -/
theorem wordAt_lt
    (offset w : Nat)
    (bytes : List UInt8) :
    wordAt offset w bytes < 256 ^ w := by
  have h := decode_lt ((bytes.drop offset).take w)
  have hlen : ((bytes.drop offset).take w).length ≤ w :=
    List.length_take_le w _
  exact lt_of_lt_of_le h (Nat.pow_le_pow_right (by omega) hlen)

/-- Bytes behind a word do not change its value. -/
theorem wordAt_append
    {offset w : Nat}
    {bytes : List UInt8}
    (hlen : offset + w ≤ bytes.length)
    (suffix : List UInt8) :
    wordAt offset w (bytes ++ suffix) = wordAt offset w bytes := by
  unfold wordAt
  rw [List.drop_append_of_le_length (by omega)]
  rw [List.take_append_of_le_length (by simp; omega)]

/-- A word that was just written is read back at its offset. -/
theorem wordAt_encode
    {w n : Nat}
    (front back : List UInt8)
    (hn : n < 256 ^ w) :
    wordAt front.length w (front ++ encode w n ++ back) = n := by
  unfold wordAt
  rw [List.append_assoc, List.drop_left]
  rw [List.take_append_of_le_length (by simp)]
  rw [List.take_of_length_le (by simp)]
  exact decode_encode_of_lt hn

/-- Higher digits are not written. -/
theorem encode_mod
    (w n : Nat) :
    encode w (n % 256 ^ w) = encode w n := by
  induction w generalizing n with
  | zero =>
      rfl
  | succ w ih =>
      have hdigit : UInt8.ofNat (n % 256 ^ (w + 1)) = UInt8.ofNat n := by
        apply UInt8.toNat.inj
        simp [UInt8.toNat_ofNat', pow_succ']
      have hrest : n % 256 ^ (w + 1) / 256 = n / 256 % 256 ^ w := by
        rw [pow_succ', Nat.mod_mul_right_div_self]
      rw [encode, encode, hdigit, hrest, ih]

/-- A word of two words. -/
theorem encode_append
    (v w : Nat)
    {n : Nat}
    (hn : n < 256 ^ v)
    (m : Nat) :
    encode v n ++ encode w m = encode (v + w) (n + 256 ^ v * m) := by
  induction v generalizing n with
  | zero =>
      have hzero : n = 0 := by simpa using hn
      simp [encode, hzero]
  | succ v ih =>
      have hdigit : UInt8.ofNat (n + 256 ^ (v + 1) * m) = UInt8.ofNat n := by
        apply UInt8.toNat.inj
        simp [UInt8.toNat_ofNat', pow_succ', Nat.mul_assoc]
      have hrest : (n + 256 ^ (v + 1) * m) / 256 = n / 256 + 256 ^ v * m := by
        rw [pow_succ', Nat.mul_assoc, Nat.add_mul_div_left _ _ (by omega)]
      rw [show v + 1 + w = v + w + 1 by omega, encode, encode, hdigit, hrest, List.cons_append,
        ih (by rw [pow_succ'] at hn; omega)]

end LittleEndian
end Gamnet
