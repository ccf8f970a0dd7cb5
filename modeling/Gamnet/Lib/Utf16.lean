import Mathlib.Data.List.Basic

/-!
# UTF-16 strings

Strings as sequences of 16-bit code units. A unit is a character of the basic
plane or one half of a surrogate pair; a half without its partner is read as
the replacement character.

The module is independent of any program. It gives the conversions to and from
characters, their UTF-8 bytes, and the round trip of well-formed strings.
-/

namespace Gamnet
namespace Utf16

/-- The code units of a character. -/
def encodeChar
    (c : Char) : List UInt16 :=
  if c.toNat < 0x10000 then
    [UInt16.ofNat c.toNat]
  else
    [UInt16.ofNat (0xD800 + (c.toNat - 0x10000) / 0x400),
      UInt16.ofNat (0xDC00 + (c.toNat - 0x10000) % 0x400)]

/-- The code units of a sequence of characters. -/
def encode
    (chars : List Char) : List UInt16 :=
  chars.flatMap encodeChar

/-- The character that stands for an unpaired half. -/
def replacement : Char := '\uFFFD'

def isHigh
    (u : UInt16) : Bool :=
  0xD800 ≤ u.toNat && u.toNat < 0xDC00

def isLow
    (u : UInt16) : Bool :=
  0xDC00 ≤ u.toNat && u.toNat < 0xE000

/-- The character of a unit that is not followed by its partner. -/
def single
    (u : UInt16) : Char :=
  if isHigh u || isLow u then
    replacement
  else
    Char.ofNat u.toNat

/-- The character of a surrogate pair. -/
def pair
    (high low : UInt16) : Char :=
  Char.ofNat (0x10000 + (high.toNat - 0xD800) * 0x400 + (low.toNat - 0xDC00))

/-- The characters of a sequence of code units. -/
def decode : List UInt16 → List Char
  | [] => []
  | [u] => [single u]
  | u :: v :: units =>
      if isHigh u && isLow v then
        pair u v :: decode units
      else
        single u :: decode (v :: units)

/-- The UTF-8 bytes of a sequence of characters. -/
def utf8
    (chars : List Char) : List UInt8 :=
  chars.flatMap String.utf8EncodeChar

/-- The characters of valid UTF-8 bytes. -/
def ofUtf8
    (bytes : List UInt8) : Option (List Char) :=
  bytes.toByteArray.utf8Decode?.map Array.toList

theorem ofUtf8_utf8
    (chars : List Char) :
    ofUtf8 (utf8 chars) = some chars := by
  have hbytes : (utf8 chars).toByteArray = chars.utf8Encode := by
    rfl
  rw [ofUtf8, hbytes, List.utf8Decode?_utf8Encode]
  rfl

theorem toNat_of_char
    (c : Char) :
    c.toNat < 0xD800 ∨ (0xDFFF < c.toNat ∧ c.toNat < 0x110000) :=
  c.valid

theorem single_of_char
    {c : Char}
    (hc : c.toNat < 0x10000) :
    single (UInt16.ofNat c.toNat) = c := by
  have hunit : (UInt16.ofNat c.toNat).toNat = c.toNat := by
    rw [UInt16.toNat_ofNat', Nat.mod_eq_of_lt hc]
  have hchar := toNat_of_char c
  have hhalf : (isHigh (UInt16.ofNat c.toNat) || isLow (UInt16.ofNat c.toNat)) = false := by
    simp only [isHigh, isLow, hunit, Bool.or_eq_false_iff, Bool.and_eq_false_iff,
      decide_eq_false_iff_not]
    omega
  rw [single, hhalf, hunit]
  simp

/-- A unit of a character of the basic plane does not start a pair. -/
theorem decode_single
    {c : Char}
    (hc : c.toNat < 0x10000)
    (units : List UInt16) :
    decode (UInt16.ofNat c.toNat :: units) = c :: decode units := by
  have hunit : (UInt16.ofNat c.toNat).toNat = c.toNat := by
    rw [UInt16.toNat_ofNat', Nat.mod_eq_of_lt hc]
  have hchar := toNat_of_char c
  have hhigh : isHigh (UInt16.ofNat c.toNat) = false := by
    simp only [isHigh, hunit, Bool.and_eq_false_iff, decide_eq_false_iff_not]
    omega
  cases units with
  | nil =>
      simp [decode, single_of_char hc]
  | cons v units =>
      simp [decode, hhigh, single_of_char hc]

theorem decode_pair
    {c : Char}
    (hc : ¬ c.toNat < 0x10000)
    (units : List UInt16) :
    decode (encodeChar c ++ units) = c :: decode units := by
  have hchar := toNat_of_char c
  have hhigh : (UInt16.ofNat (0xD800 + (c.toNat - 0x10000) / 0x400)).toNat =
      0xD800 + (c.toNat - 0x10000) / 0x400 := by
    rw [UInt16.toNat_ofNat', Nat.mod_eq_of_lt]
    omega
  have hlow : (UInt16.ofNat (0xDC00 + (c.toNat - 0x10000) % 0x400)).toNat =
      0xDC00 + (c.toNat - 0x10000) % 0x400 := by
    rw [UInt16.toNat_ofNat', Nat.mod_eq_of_lt]
    omega
  have hpair : pair (UInt16.ofNat (0xD800 + (c.toNat - 0x10000) / 0x400))
      (UInt16.ofNat (0xDC00 + (c.toNat - 0x10000) % 0x400)) = c := by
    have hnat : 0x10000 + (0xD800 + (c.toNat - 0x10000) / 0x400 - 0xD800) * 0x400 +
        (0xDC00 + (c.toNat - 0x10000) % 0x400 - 0xDC00) = c.toNat := by
      omega
    rw [pair, hhigh, hlow, hnat, Char.ofNat_toNat]
  have hboth : (isHigh (UInt16.ofNat (0xD800 + (c.toNat - 0x10000) / 0x400)) &&
      isLow (UInt16.ofNat (0xDC00 + (c.toNat - 0x10000) % 0x400))) = true := by
    simp only [isHigh, isLow, hhigh, hlow, Bool.and_eq_true, decide_eq_true_eq]
    omega
  rw [encodeChar, if_neg hc]
  simp only [List.cons_append, List.nil_append, decode, hboth, if_true, hpair]

/-- A well-formed string is read back. -/
theorem decode_encode
    (chars : List Char) :
    decode (encode chars) = chars := by
  induction chars with
  | nil =>
      rfl
  | cons c chars ih =>
      rw [encode, List.flatMap_cons]
      by_cases hc : c.toNat < 0x10000
      · rw [encodeChar, if_pos hc]
        exact (decode_single hc _).trans (congrArg (c :: ·) ih)
      · exact (decode_pair hc _).trans (congrArg (c :: ·) ih)

end Utf16
end Gamnet
