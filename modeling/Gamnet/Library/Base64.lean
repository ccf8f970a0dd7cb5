import Gamnet.Lib.PercentEncoding
import Mathlib.Algebra.Group.Int.Defs
import Mathlib.Algebra.Group.Nat.Defs

/-!
# Base64

Base64Encode writes four characters for each three bytes, and for one or two bytes at the end
what they need, filled up with '='. Base64Decode reads up to the first '=' or other character
that is not one of the 64, and counts the characters down with an int.

Decoding an encoding gives the bytes back exactly if the number of its characters is an int
(`base64_round_trip_iff`).
-/

namespace Gamnet
namespace Base64

open PercentEncoding (isAlnum)

/-- base64_chars. -/
def base64Chars : Bytes :=
  ("ABCDEFGHIJKLMNOPQRSTUVWXYZ" ++ "abcdefghijklmnopqrstuvwxyz" ++ "0123456789+/").toList.map
    fun c => UInt8.ofNat c.toNat

/-- The character '='. -/
def equalSign : UInt8 := 0x3D

/-- is_base64. -/
def isBase64 (c : UInt8) : Bool :=
  isAlnum c || c = 0x2B || c = 0x2F

/-- base64_chars[v]. -/
def base64Char (v : UInt8) : UInt8 :=
  base64Chars.getD v.toNat 0

/-- base64_chars.find(c) as an unsigned char. -/
def base64Find (c : UInt8) : UInt8 :=
  UInt8.ofNat (base64Chars.find c)

/-- char_array_4 of the encoder. -/
def charArray4 (a b c : UInt8) : Bytes :=
  [(a &&& 0xfc) >>> 2,
    ((a &&& 0x03) <<< 4) + ((b &&& 0xf0) >>> 4),
    ((b &&& 0x0f) <<< 2) + ((c &&& 0xc0) >>> 6),
    c &&& 0x3f]

/-- char_array_3 of the decoder. -/
def charArray3 (a b c d : UInt8) : Bytes :=
  [(a <<< 2) + ((b &&& 0x30) >>> 4),
    ((b &&& 0xf) <<< 4) + ((c &&& 0x3c) >>> 2),
    ((c &&& 0x3) <<< 6) + d]

/-- The bytes of a group that is not complete, and the result so far. -/
structure Coding where
  group : Bytes
  ret : Bytes

/-- A byte of the group, or the zero that it is filled up with. -/
def Coding.at (s : Coding) (j : Nat) : UInt8 :=
  s.group.getD j 0

/-- One round of the encoder. -/
def encodeByte (s : Coding) (byte : UInt8) : Coding :=
  match s.group with
  | [a, b] => { group := [], ret := s.ret ++ (charArray4 a b byte).map base64Char }
  | group => { s with group := group ++ [byte] }

/-- What the encoder does behind its loop. -/
def encodeRest (s : Coding) : Bytes :=
  let i := s.group.length
  if i = 0 then s.ret
  else
    s.ret ++ ((charArray4 (s.at 0) (s.at 1) (s.at 2)).take (i + 1)).map base64Char ++
      List.replicate (3 - i) equalSign

/-- Base64Encode. -/
def base64Encode (bytes : Bytes) : Bytes :=
  if bytes.length = 0 then []
  else encodeRest (bytes.foldl encodeByte { group := [], ret := [] })

/-- One round of the decoder. -/
def decodeChar (s : Coding) (c : UInt8) : Coding :=
  match s.group with
  | [a, b, d] =>
      { group := []
        ret := s.ret ++ charArray3 (base64Find a) (base64Find b) (base64Find d) (base64Find c) }
  | group => { s with group := group ++ [c] }

/-- The loop of the decoder. Its condition counts in_len down, which is not defined for the
least int, and it reads the zero behind the string if nothing else ends the loop. -/
def decodeLoop (encoded : Bytes) (inLen : Int) (s : Coding) : Option Coding :=
  if inLen = -2 ^ 31 then none
  else if inLen = 0 then some s
  else
    match encoded with
    | [] => some s
    | c :: encoded =>
        if c ≠ equalSign ∧ isBase64 c = true then decodeLoop encoded (inLen - 1) (decodeChar s c)
        else some s

/-- What the decoder does behind its loop. -/
def decodeRest (s : Coding) : Bytes :=
  let i := s.group.length
  if i = 0 then s.ret
  else
    s.ret ++ (charArray3 (base64Find (s.at 0)) (base64Find (s.at 1)) (base64Find (s.at 2))
      (base64Find (s.at 3))).take (i - 1)

/-- Base64Decode. The size of the string is converted to an int. -/
def base64Decode (encoded : Bytes) : Option Bytes :=
  if encoded.length = 0 then some []
  else
    (decodeLoop encoded (Int.bmod encoded.length (2 ^ 32)) { group := [], ret := [] }).map
      decodeRest

section Characters

variable {a b c v : UInt8}

/-- Each of the 64 characters is found where it is, and it does not end the loop. -/
theorem base64Char_spec
    (hv : v.toNat < 64) :
    base64Find (base64Char v) = v ∧ base64Char v ≠ equalSign ∧
      isBase64 (base64Char v) = true := by
  have h : ∀ n < 64, base64Find (base64Char (UInt8.ofNat n)) = UInt8.ofNat n ∧
      base64Char (UInt8.ofNat n) ≠ equalSign ∧
        isBase64 (base64Char (UInt8.ofNat n)) = true := by
    decide +kernel
  have hself := h v.toNat hv
  rwa [UInt8.ofNat_toNat] at hself

/-- The bits of a mask, moved down to the lowest ones. -/
theorem toNat_down
    {mask shift : UInt8} {w : Nat}
    (hmask : mask.toNat >>> (shift.toNat % 8) = 2 ^ w - 1) :
    ((v &&& mask) >>> shift).toNat = v.toNat / 2 ^ (shift.toNat % 8) % 2 ^ w := by
  rw [UInt8.toNat_shiftRight, UInt8.toNat_and, Nat.shiftRight_and_distrib, hmask,
    Nat.and_two_pow_sub_one_eq_mod, Nat.shiftRight_eq_div_pow]

/-- The lowest bits, moved up. -/
theorem toNat_up
    {mask shift : UInt8} {w : Nat}
    (hmask : mask.toNat = 2 ^ w - 1) :
    ((v &&& mask) <<< shift).toNat =
      v.toNat % 2 ^ w * 2 ^ (shift.toNat % 8) % 2 ^ 8 := by
  rw [UInt8.toNat_shiftLeft, UInt8.toNat_and, hmask, Nat.and_two_pow_sub_one_eq_mod,
    Nat.shiftLeft_eq]

theorem toNat_low
    {mask : UInt8} {w : Nat}
    (hmask : mask.toNat = 2 ^ w - 1) :
    (v &&& mask).toNat = v.toNat % 2 ^ w := by
  rw [UInt8.toNat_and, hmask, Nat.and_two_pow_sub_one_eq_mod]

/-- The four numbers of six bits, each below 64. -/
theorem charArray4_eq
    (a b c : UInt8) :
    ∃ p q r s : UInt8, charArray4 a b c = [p, q, r, s] ∧
      p.toNat = a.toNat / 4 ∧
      q.toNat = a.toNat % 4 * 16 + b.toNat / 16 ∧
      r.toNat = b.toNat % 16 * 4 + c.toNat / 64 ∧
      s.toNat = c.toNat % 64 ∧
      p.toNat < 64 ∧ q.toNat < 64 ∧ r.toNat < 64 ∧ s.toNat < 64 := by
  have ha := a.toNat_lt
  have hb := b.toNat_lt
  have hc := c.toNat_lt
  have hp : ((a &&& 0xfc) >>> 2).toNat = a.toNat / 4 := by
    rw [toNat_down (w := 6) rfl]
    simp
    omega
  have hq : (((a &&& 0x03) <<< 4) + ((b &&& 0xf0) >>> 4)).toNat =
      a.toNat % 4 * 16 + b.toNat / 16 := by
    rw [UInt8.toNat_add, toNat_up (w := 2) rfl, toNat_down (w := 4) rfl]
    simp
    omega
  have hr : (((b &&& 0x0f) <<< 2) + ((c &&& 0xc0) >>> 6)).toNat =
      b.toNat % 16 * 4 + c.toNat / 64 := by
    rw [UInt8.toNat_add, toNat_up (w := 4) rfl, toNat_down (w := 2) rfl]
    simp
    omega
  have hs : (c &&& 0x3f).toNat = c.toNat % 64 := toNat_low (w := 6) rfl
  exact ⟨_, _, _, _, rfl, hp, hq, hr, hs, by omega, by omega, by omega, by omega⟩

variable {p q r s : UInt8}

theorem first_byte
    (hp : p.toNat = a.toNat / 4)
    (hq : q.toNat = a.toNat % 4 * 16 + b.toNat / 16) :
    (p <<< 2) + ((q &&& 0x30) >>> 4) = a := by
  have ha := a.toNat_lt
  have hb := b.toNat_lt
  refine UInt8.toNat_inj.mp ?_
  rw [UInt8.toNat_add, UInt8.toNat_shiftLeft, toNat_down (w := 2) rfl, hp, hq, Nat.shiftLeft_eq]
  simp
  omega

theorem second_byte
    (hq : q.toNat = a.toNat % 4 * 16 + b.toNat / 16)
    (hr : r.toNat = b.toNat % 16 * 4 + c.toNat / 64) :
    ((q &&& 0xf) <<< 4) + ((r &&& 0x3c) >>> 2) = b := by
  have hb := b.toNat_lt
  have hc := c.toNat_lt
  refine UInt8.toNat_inj.mp ?_
  rw [UInt8.toNat_add, toNat_up (w := 4) rfl, toNat_down (w := 4) rfl, hq, hr]
  simp
  omega

theorem third_byte
    (hr : r.toNat = b.toNat % 16 * 4 + c.toNat / 64)
    (hs : s.toNat = c.toNat % 64) :
    ((r &&& 0x3) <<< 6) + s = c := by
  have hc := c.toNat_lt
  refine UInt8.toNat_inj.mp ?_
  rw [UInt8.toNat_add, toNat_up (w := 2) rfl, hr, hs]
  simp
  omega

end Characters

section Groups

/-- The encoding of bytes by groups of three. -/
def groups : Bytes → Bytes
  | [] => []
  | [a] => ((charArray4 a 0 0).take 2).map base64Char ++ [equalSign, equalSign]
  | [a, b] => ((charArray4 a b 0).take 3).map base64Char ++ [equalSign]
  | a :: b :: c :: bytes => (charArray4 a b c).map base64Char ++ groups bytes

theorem encodeRest_foldl
    (bytes ret : Bytes) :
    encodeRest (bytes.foldl encodeByte { group := [], ret := ret }) = ret ++ groups bytes := by
  induction bytes using groups.induct generalizing ret with
  | case1 =>
      exact (List.append_nil ret).symm
  | case2 a =>
      exact List.append_assoc _ _ _
  | case3 a b =>
      exact List.append_assoc _ _ _
  | case4 a b c bytes ih =>
      rw [groups, ← List.append_assoc]
      exact ih _

theorem base64Encode_eq
    (bytes : Bytes) :
    base64Encode bytes = groups bytes := by
  unfold base64Encode
  split_ifs with hlen
  · rw [List.length_eq_zero_iff.mp hlen]
    rfl
  · exact encodeRest_foldl bytes []

theorem groups_length
    (bytes : Bytes) :
    (groups bytes).length = 4 * ((bytes.length + 2) / 3) := by
  induction bytes using groups.induct with
  | case1 =>
      rfl
  | case2 a =>
      simp [groups, charArray4]
  | case3 a b =>
      simp [groups, charArray4]
  | case4 a b c bytes ih =>
      rw [groups, List.length_append, ih]
      simp only [charArray4, List.map_cons, List.map_nil, List.length_cons, List.length_nil]
      omega

end Groups

section Decoding

variable {a b c v : UInt8} {n : Int} {s : Coding} {encoded : Bytes}

/-- One of the 64 characters is taken while the count is positive. -/
theorem decodeLoop_char
    (hn : 0 < n)
    (hv : v.toNat < 64) :
    decodeLoop (base64Char v :: encoded) n s =
      decodeLoop encoded (n - 1) (decodeChar s (base64Char v)) := by
  obtain ⟨-, hequal, hbase⟩ := base64Char_spec hv
  rw [decodeLoop, if_neg (by omega), if_neg (by omega), if_pos ⟨hequal, hbase⟩]

/-- The first '=' ends the loop. -/
theorem decodeLoop_equal
    (hn : 0 < n) :
    decodeLoop (equalSign :: encoded) n s = some s := by
  rw [decodeLoop, if_neg (by omega), if_neg (by omega), if_neg (by simp)]

theorem decodeLoop_nil
    (hn : 0 ≤ n) :
    decodeLoop [] n s = some s := by
  rw [decodeLoop, if_neg (by omega)]
  split_ifs
  · rfl
  · rfl

/-- The loop reads the groups of an encoding if there are no more of them than the count. -/
theorem decodeLoop_groups
    (bytes ret : Bytes)
    (hn : (groups bytes).length ≤ n) :
    ∃ s, decodeLoop (groups bytes) n { group := [], ret := ret } = some s ∧
      decodeRest s = ret ++ bytes := by
  induction bytes using groups.induct generalizing ret n with
  | case1 =>
      exact ⟨_, decodeLoop_nil (by simpa [groups] using hn), (List.append_nil ret).symm⟩
  | case2 a =>
      obtain ⟨p, q, r, s, hquad, hp, hq, -, -, hp', hq', -, -⟩ := charArray4_eq a 0 0
      rw [groups_length] at hn
      simp only [List.length_cons, List.length_nil] at hn
      refine ⟨⟨[base64Char p, base64Char q], ret⟩, ?_, ?_⟩
      · simp only [groups, hquad, List.take_succ_cons, List.take_zero, List.map_cons, List.map_nil,
          List.cons_append, List.nil_append]
        rw [decodeLoop_char (by omega) hp', decodeLoop_char (by omega) hq',
          decodeLoop_equal (by omega)]
        rfl
      · simp only [decodeRest, Coding.at, List.length_cons, List.length_nil, List.getD_cons_zero,
          List.getD_cons_succ, (base64Char_spec hp').1, (base64Char_spec hq').1, charArray3,
          first_byte hp hq]
        rfl
  | case3 a b =>
      obtain ⟨p, q, r, s, hquad, hp, hq, hr, -, hp', hq', hr', -⟩ := charArray4_eq a b 0
      rw [groups_length] at hn
      simp only [List.length_cons, List.length_nil] at hn
      refine ⟨⟨[base64Char p, base64Char q, base64Char r], ret⟩, ?_, ?_⟩
      · simp only [groups, hquad, List.take_succ_cons, List.take_zero, List.map_cons, List.map_nil,
          List.cons_append, List.nil_append]
        rw [decodeLoop_char (by omega) hp', decodeLoop_char (by omega) hq',
          decodeLoop_char (by omega) hr', decodeLoop_equal (by omega)]
        rfl
      · simp only [decodeRest, Coding.at, List.length_cons, List.length_nil, List.getD_cons_zero,
          List.getD_cons_succ, (base64Char_spec hp').1, (base64Char_spec hq').1,
          (base64Char_spec hr').1, charArray3, first_byte hp hq, second_byte hq hr]
        rfl
  | case4 a b c bytes ih =>
      obtain ⟨p, q, r, s, hquad, hp, hq, hr, hs, hp', hq', hr', hs'⟩ := charArray4_eq a b c
      rw [groups_length] at hn
      simp only [List.length_cons] at hn
      obtain ⟨st, hloop, hrest⟩ := ih (ret ++ [a, b, c]) (n := n - 1 - 1 - 1 - 1) (by
        rw [groups_length]
        omega)
      refine ⟨st, ?_, by rw [hrest, List.append_assoc]; rfl⟩
      simp only [groups, hquad, List.map_cons, List.map_nil, List.cons_append, List.nil_append]
      rw [decodeLoop_char (by omega) hp', decodeLoop_char (by omega) hq',
        decodeLoop_char (by omega) hr', decodeLoop_char (by omega) hs']
      simp only [decodeChar, List.nil_append, List.cons_append, (base64Char_spec hp').1,
        (base64Char_spec hq').1, (base64Char_spec hr').1, (base64Char_spec hs').1, charArray3,
        first_byte hp hq, second_byte hq hr, third_byte hr hs]
      exact hloop

end Decoding

/-- The int that a size is converted to. -/
theorem bmod_size
    (size : Nat) :
    Int.bmod size (2 ^ 32) =
      if size % 2 ^ 32 < 2 ^ 31 then ((size % 2 ^ 32 : Nat) : Int)
      else ((size % 2 ^ 32 : Nat) : Int) - 2 ^ 32 := by
  rw [Int.bmod_def]
  split_ifs
  all_goals omega

theorem decode_encode
    {bytes : Bytes}
    (hlen : (base64Encode bytes).length < 2 ^ 31) :
    base64Decode (base64Encode bytes) = some bytes := by
  rw [base64Encode_eq] at hlen ⊢
  unfold base64Decode
  split_ifs with hnil
  · rw [groups_length] at hnil
    rw [List.length_eq_zero_iff.mp (show bytes.length = 0 by omega)]
  · have hsize : Int.bmod (groups bytes).length (2 ^ 32) = (groups bytes).length := by
      rw [bmod_size, if_pos (by omega)]
      omega
    obtain ⟨s, hloop, hrest⟩ := decodeLoop_groups bytes [] (Int.le_of_eq hsize.symm)
    rw [hloop, Option.map_some, hrest, List.nil_append]

section Sizes

variable {n : Int} {s s' : Coding} {encoded : Bytes}

/-- The loop takes no more characters than the count, and each gives at most one byte. -/
theorem length_of_decodeLoop
    (hn : 0 ≤ n)
    (h : decodeLoop encoded n s = some s') :
    (s'.ret.length + s'.group.length : Int) ≤ s.ret.length + s.group.length + n := by
  induction encoded generalizing n s with
  | nil =>
      rw [decodeLoop_nil hn] at h
      cases h
      omega
  | cons c encoded ih =>
      rw [decodeLoop] at h
      split_ifs at h with hleast hzero hchar
      · cases h
        omega
      · have hmore : (decodeChar s c).ret.length + (decodeChar s c).group.length ≤
            s.ret.length + s.group.length + 1 := by
          unfold decodeChar
          split
          · rename_i heq
            simp [charArray3, heq]
          · simp
            omega
        have hlater := ih (by omega) h
        omega
      · cases h
        omega

theorem length_decodeRest_le
    (s : Coding) :
    (decodeRest s).length ≤ s.ret.length + s.group.length := by
  unfold decodeRest
  dsimp only
  split_ifs
  · omega
  · simp only [List.length_append, List.length_take]
    omega

/-- A count that is negative runs out before the characters do. -/
theorem decodeLoop_negative
    {characters rest : Bytes}
    (hchars : ∀ c ∈ characters, c ≠ equalSign ∧ isBase64 c = true)
    (hn : n < 0)
    (hleast : -2 ^ 31 ≤ n)
    (hlen : n + 2 ^ 31 ≤ characters.length) :
    decodeLoop (characters ++ rest) n s = none := by
  induction characters generalizing n s with
  | nil =>
      rw [List.length_nil] at hlen
      rw [decodeLoop.eq_def, if_pos (by omega)]
  | cons c characters ih =>
      rw [List.cons_append, decodeLoop]
      by_cases hstop : n = -2 ^ 31
      · rw [if_pos hstop]
      · rw [if_neg hstop, if_neg (by omega), if_pos (hchars c List.mem_cons_self)]
        refine ih (fun d hd => hchars d (List.mem_cons_of_mem c hd)) (by omega) (by omega) ?_
        simp only [List.length_cons] at hlen
        omega

/-- All but the last two characters of an encoding are among the 64. -/
theorem groups_characters
    (bytes : Bytes) :
    ∃ characters rest, groups bytes = characters ++ rest ∧ rest.length ≤ 2 ∧
      ∀ c ∈ characters, c ≠ equalSign ∧ isBase64 c = true := by
  have hquad : ∀ a b c, ∀ char ∈ (charArray4 a b c).map base64Char,
      char ≠ equalSign ∧ isBase64 char = true := by
    intro a b c char hchar
    obtain ⟨p, q, r, s, hquad, -, -, -, -, hp, hq, hr, hs⟩ := charArray4_eq a b c
    rw [hquad] at hchar
    obtain ⟨v, hv, rfl⟩ := List.mem_map.mp hchar
    refine (base64Char_spec ?_).2
    simp only [List.mem_cons, List.not_mem_nil, or_false] at hv
    rcases hv with rfl | rfl | rfl | rfl
    all_goals assumption
  induction bytes using groups.induct with
  | case1 =>
      exact ⟨[], [], rfl, by simp, fun c hc => absurd hc List.not_mem_nil⟩
  | case2 a =>
      refine ⟨_, _, rfl, Nat.le_refl 2, fun c hc => hquad a 0 0 c ?_⟩
      exact (List.Sublist.map _ (List.take_sublist 2 _)).subset hc
  | case3 a b =>
      refine ⟨_, _, rfl, by simp, fun c hc => hquad a b 0 c ?_⟩
      exact (List.Sublist.map _ (List.take_sublist 3 _)).subset hc
  | case4 a b c bytes ih =>
      obtain ⟨characters, rest, hgroups, hshort, hchars⟩ := ih
      refine ⟨(charArray4 a b c).map base64Char ++ characters, rest, ?_, hshort, ?_⟩
      · rw [groups, hgroups, List.append_assoc]
      · intro char hchar
        rcases List.mem_append.mp hchar with hchar | hchar
        · exact hquad a b c char hchar
        · exact hchars char hchar

/-- Whatever the length, decoding an encoding gives the bytes back exactly if the number of
its characters is an int. -/
theorem decode_encode_iff
    (bytes : Bytes) :
    base64Decode (base64Encode bytes) = some bytes ↔ (base64Encode bytes).length < 2 ^ 31 := by
  refine ⟨fun hdecode => ?_, decode_encode⟩
  by_contra hlong
  rw [base64Encode_eq] at hdecode hlong
  unfold base64Decode at hdecode
  rw [if_neg (by omega), Option.map_eq_some_iff] at hdecode
  obtain ⟨s, hloop, hrest⟩ := hdecode
  have hsize := bmod_size (groups bytes).length
  split_ifs at hsize with hcount
  · have hgiven := length_of_decodeLoop (by omega) hloop
    have hback := length_decodeRest_le s
    rw [hrest] at hback
    rw [groups_length] at hlong hcount hsize hgiven
    simp only [List.length_nil] at hgiven
    omega
  · obtain ⟨characters, rest, hgroups, hshort, hchars⟩ := groups_characters bytes
    have hsum := congrArg List.length hgroups
    rw [List.length_append] at hsum
    have hnone : decodeLoop (groups bytes) (Int.bmod (groups bytes).length (2 ^ 32))
        { group := [], ret := [] } = none := by
      rw [hsize]
      generalize (groups bytes).length = size at *
      rw [hgroups]
      exact decodeLoop_negative hchars (by omega) (by omega) (by omega)
    rw [hnone] at hloop
    cases hloop

end Sizes

/-- An encoding is decoded to something that has it as its encoding exactly if the number of
its characters is an int. -/
theorem encode_decode_iff
    (bytes : Bytes) :
    (∃ decoded, base64Decode (base64Encode bytes) = some decoded ∧
        base64Encode decoded = base64Encode bytes) ↔
      (base64Encode bytes).length < 2 ^ 31 := by
  constructor
  · rintro ⟨decoded, hdecode, heq⟩
    rw [← heq] at hdecode ⊢
    exact (decode_encode_iff decoded).mp hdecode
  · intro hlen
    exact ⟨bytes, decode_encode hlen, rfl⟩

/-- Decoding an encoding of less than 2^30 bytes gives the bytes back, and encoding what an
encoding decodes to gives the encoding back exactly if the number of its characters is an
int. -/
theorem base64_round_trip_iff
    (bytes : Bytes) :
    (bytes.length < 2 ^ 30 → base64Decode (base64Encode bytes) = some bytes) ∧
      ((∃ decoded, base64Decode (base64Encode bytes) = some decoded ∧
          base64Encode decoded = base64Encode bytes) ↔
        (base64Encode bytes).length < 2 ^ 31) := by
  refine ⟨fun hlen => decode_encode ?_, encode_decode_iff bytes⟩
  rw [base64Encode_eq, groups_length]
  omega

/-- An encoding of 2^32 characters, a number that the int loses. -/
theorem base64_not_round_trip :
    ¬ ∃ decoded,
      base64Decode (base64Encode (List.replicate (3 * 2 ^ 30) 0)) = some decoded ∧
        base64Encode decoded = base64Encode (List.replicate (3 * 2 ^ 30) 0) := by
  rw [encode_decode_iff, base64Encode_eq, groups_length, List.length_replicate]
  omega

end Base64
end Gamnet
