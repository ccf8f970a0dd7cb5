import Gamnet.Lib.ByteString

/-!
# Percent-encoding

A percent sign with two hexadecimal digits stands for one byte. Letters and digits may
stand for themselves; the encodings of a string that escape every other byte are a
relation, because the hexadecimal digits may be of either case. Decoding an encoding
gives the string back, whatever follows it.

The module is independent of any program.
-/

namespace Gamnet
namespace PercentEncoding

/-- The percent sign. -/
def percent : UInt8 := 0x25

/-- [A-Za-z0-9]. -/
def isAlnum (b : UInt8) : Bool :=
  (0x30 ≤ b && b ≤ 0x39) || (0x41 ≤ b && b ≤ 0x5A) || (0x61 ≤ b && b ≤ 0x7A)

/-- The value of a hexadecimal digit of either case. -/
def hexValue (b : UInt8) : Option UInt8 :=
  if 0x30 ≤ b ∧ b ≤ 0x39 then some (b - 0x30)
  else if 0x41 ≤ b ∧ b ≤ 0x46 then some (b - 0x37)
  else if 0x61 ≤ b ∧ b ≤ 0x66 then some (b - 0x57)
  else none

/-- Decoding. A percent sign without two digits behind it stands for itself. -/
def decode : Bytes → Bytes
  | b :: hi :: lo :: tail =>
      if b = percent then
        match hexValue hi, hexValue lo with
        | some h, some l => (h * 16 + l) :: decode tail
        | _, _ => b :: decode (hi :: lo :: tail)
      else b :: decode (hi :: lo :: tail)
  | s => s

/-- The encodings of a string that escape every byte but letters and digits. -/
inductive Encodes : Bytes → Bytes → Prop
  | nil : Encodes [] []
  | literal {b : UInt8} {s e : Bytes} (hb : isAlnum b = true) (hs : Encodes s e) :
      Encodes (b :: s) (b :: e)
  | escaped {b hi lo h l : UInt8} {s e : Bytes} (hb : isAlnum b = false)
      (hhi : hexValue hi = some h) (hlo : hexValue lo = some l) (hvalue : b = h * 16 + l)
      (hs : Encodes s e) :
      Encodes (b :: s) (percent :: hi :: lo :: e)

theorem decode_cons_of_ne
    {b : UInt8}
    (hb : b ≠ percent)
    (rest : Bytes) :
    decode (b :: rest) = b :: decode rest := by
  match rest with
  | [] => rfl
  | [_] => rfl
  | _ :: _ :: _ => rw [decode, if_neg hb]

theorem decode_escape
    {hi lo h l : UInt8}
    (hhi : hexValue hi = some h)
    (hlo : hexValue lo = some l)
    (rest : Bytes) :
    decode (percent :: hi :: lo :: rest) = (h * 16 + l) :: decode rest := by
  simp [decode, hhi, hlo]

theorem ne_percent_of_isAlnum
    {b : UInt8}
    (hb : isAlnum b = true) :
    b ≠ percent := by
  rintro rfl
  exact absurd hb (by decide)

/-- A hexadecimal digit is a digit or a letter. -/
theorem isAlnum_of_hexValue
    {b h : UInt8}
    (hb : hexValue b = some h) :
    isAlnum b = true := by
  unfold hexValue at hb
  simp only [isAlnum, Bool.or_eq_true, Bool.and_eq_true, decide_eq_true_eq]
  split at hb
  · rename_i hdigit
    exact Or.inl (Or.inl hdigit)
  · split at hb
    · rename_i hupper
      exact Or.inl (Or.inr ⟨hupper.1, UInt8.le_trans hupper.2 (by decide)⟩)
    · split at hb
      · rename_i hlower
        exact Or.inr ⟨hlower.1, UInt8.le_trans hlower.2 (by decide)⟩
      · cases hb

/-- An encoding in front of any text decodes to its string. -/
theorem Encodes.decode_append
    {s e : Bytes}
    (h : Encodes s e)
    (rest : Bytes) :
    decode (e ++ rest) = s ++ decode rest := by
  induction h with
  | nil =>
      rfl
  | literal hb _ ih =>
      rw [List.cons_append, decode_cons_of_ne (ne_percent_of_isAlnum hb), ih, List.cons_append]
  | escaped _ hhi hlo hvalue _ ih =>
      rw [List.cons_append, List.cons_append, List.cons_append, decode_escape hhi hlo, ih,
        List.cons_append, hvalue]

/-- A percent sign without two digits behind it. -/
theorem decode_percent
    {hi lo : UInt8} {tail : Bytes}
    (hdigits : ∀ h l, hexValue hi = some h → hexValue lo = some l → False) :
    decode (percent :: hi :: lo :: tail) = percent :: decode (hi :: lo :: tail) := by
  rw [decode, if_pos rfl]
  split
  · rename_i h l hhi hlo
    exact absurd hlo (hdigits h l hhi)
  · rfl

/-- Decoding does not lengthen a string. -/
theorem length_decode_le
    (s : Bytes) :
    (decode s).length ≤ s.length := by
  induction s using decode.induct with
  | case1 hi lo tail h l hlo hhi ih =>
      rw [decode_escape hhi hlo]
      simp only [List.length_cons]
      omega
  | case2 hi lo tail hdigits ih =>
      rw [decode_percent hdigits, List.length_cons, List.length_cons]
      exact Nat.succ_le_succ ih
  | case3 b hi lo tail hb ih =>
      rw [decode_cons_of_ne hb, List.length_cons, List.length_cons]
      exact Nat.succ_le_succ ih
  | case4 s hs =>
      rw [decode]
      exact hs

/-- A byte that is not part of an escape stays. -/
theorem mem_decode
    {s : Bytes} {b : UInt8}
    (hb : b ≠ percent)
    (hhex : hexValue b = none)
    (hs : b ∈ s) :
    b ∈ decode s := by
  induction s using decode.induct with
  | case1 hi lo tail h l hlo hhi ih =>
      rw [decode_escape hhi hlo]
      have hne : b ≠ hi ∧ b ≠ lo := by
        constructor
        · rintro rfl
          exact Option.some_ne_none h (hhi.symm.trans hhex)
        · rintro rfl
          exact Option.some_ne_none l (hlo.symm.trans hhex)
      have htail : b ∈ tail := by
        simpa [hb, hne] using hs
      exact List.mem_cons_of_mem _ (ih htail)
  | case2 hi lo tail hdigits ih =>
      rw [decode_percent hdigits]
      exact List.mem_cons_of_mem _ (ih ((List.mem_cons.mp hs).resolve_left hb))
  | case3 c hi lo tail hc ih =>
      rw [decode_cons_of_ne hc]
      rcases List.mem_cons.mp hs with rfl | hs
      · exact List.mem_cons_self
      · exact List.mem_cons_of_mem _ (ih hs)
  | case4 s hs' =>
      rw [decode]
      · exact hs
      · exact hs'

/-- An encoding consists of letters, digits and percent signs. -/
theorem Encodes.mem
    {s e : Bytes}
    (h : Encodes s e) :
    ∀ b ∈ e, isAlnum b = true ∨ b = percent := by
  induction h with
  | nil =>
      simp
  | literal hb _ ih =>
      intro x hx
      rcases List.mem_cons.mp hx with rfl | hx
      · exact Or.inl hb
      · exact ih x hx
  | escaped _ hhi hlo _ _ ih =>
      intro x hx
      simp only [List.mem_cons] at hx
      rcases hx with rfl | rfl | rfl | hx
      · exact Or.inr rfl
      · exact Or.inl (isAlnum_of_hexValue hhi)
      · exact Or.inl (isAlnum_of_hexValue hlo)
      · exact ih x hx

end PercentEncoding
end Gamnet
