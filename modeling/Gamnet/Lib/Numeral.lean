import Mathlib.Data.List.Basic
import Mathlib.Data.List.Induction

/-!
# Numerals

The same digits stand for different numbers in different bases. A numeral has one value
in two bases exactly if no digit but the last one counts (`ofDigitChars_eq_iff`). The
digits that stand for a number do not begin with a zero.

The module is independent of any program.
-/

namespace Gamnet
namespace Numeral

open Nat (ofDigitChars toDigits)

/-- The number that a digit stands for. -/
def digit (c : Char) : Nat :=
  c.toNat - '0'.toNat

theorem digit_eq_zero_iff
    {c : Char}
    (hc : c.isDigit = true) :
    digit c = 0 ↔ c = '0' := by
  have hrange : 48 ≤ c.toNat ∧ c.toNat ≤ 57 := Char.isDigit_iff_toNat.mp hc
  unfold digit
  constructor
  · intro h
    have hval : c.toNat = '0'.toNat := by
      change c.toNat = 48
      change c.toNat - 48 = 0 at h
      omega
    exact Char.toNat_inj.mp hval
  · rintro rfl
    rfl

theorem ofDigitChars_concat
    (b : Nat) (l : List Char) (c : Char) :
    ofDigitChars b (l ++ [c]) 0 = b * ofDigitChars b l 0 + digit c := by
  rw [Nat.ofDigitChars_append, Nat.ofDigitChars_cons, Nat.ofDigitChars_nil]
  rfl

/-- A numeral stands for at least as much in a larger base. -/
theorem ofDigitChars_le
    {b k : Nat}
    (hbk : b ≤ k)
    (l : List Char) :
    ofDigitChars b l 0 ≤ ofDigitChars k l 0 := by
  induction l using List.reverseRecOn with
  | nil => exact Nat.le_refl _
  | append_singleton l c ih =>
      rw [ofDigitChars_concat, ofDigitChars_concat]
      exact Nat.add_le_add_right (Nat.mul_le_mul hbk ih) _

/-- Only zeros stand for zero. -/
theorem ofDigitChars_eq_zero_iff
    {b : Nat}
    (hb : 0 < b)
    {l : List Char}
    (hl : ∀ c ∈ l, c.isDigit = true) :
    ofDigitChars b l 0 = 0 ↔ ∀ c ∈ l, c = '0' := by
  induction l using List.reverseRecOn with
  | nil => simp
  | append_singleton l c ih =>
      have hc := hl c (by simp)
      have hrest := ih fun x hx => hl x (by simp [hx])
      rw [ofDigitChars_concat, Nat.add_eq_zero_iff, Nat.mul_eq_zero, hrest,
        digit_eq_zero_iff hc]
      constructor
      · rintro ⟨hzero, rfl⟩ x hx
        obtain hx | hx := List.mem_append.mp hx
        · exact hzero.resolve_left (Nat.ne_of_gt hb) x hx
        · exact List.mem_singleton.mp hx
      · intro h
        exact ⟨.inr fun x hx => h x (by simp [hx]), h c (by simp)⟩

/-- In two bases a numeral stands for the same number if and only if all digits in front of
the last one are zeros. -/
theorem ofDigitChars_eq_iff
    {b k : Nat}
    (hbk : b < k)
    {l : List Char} {c : Char}
    (hl : ∀ x ∈ l, x.isDigit = true) :
    ofDigitChars b (l ++ [c]) 0 = ofDigitChars k (l ++ [c]) 0 ↔ ∀ x ∈ l, x = '0' := by
  have hle := ofDigitChars_le (Nat.le_of_lt hbk) l
  rw [ofDigitChars_concat, ofDigitChars_concat, Nat.add_right_cancel_iff,
    ← ofDigitChars_eq_zero_iff (Nat.zero_lt_of_lt hbk) hl]
  constructor
  · intro h
    by_contra hpos
    have hlt : b * ofDigitChars b l 0 < k * ofDigitChars k l 0 :=
      Nat.mul_lt_mul_of_lt_of_le hbk hle (by omega)
    omega
  · intro h
    rw [h] at hle ⊢
    rw [Nat.le_zero.mp hle, Nat.mul_zero, Nat.mul_zero]

/-- The digits of a number begin with a zero only if there is no other one. -/
theorem eq_zero_of_toDigits
    {n : Nat} {l : List Char}
    (h : toDigits 10 n = '0' :: l) :
    n = 0 ∧ l = [] := by
  induction n using Nat.strongRecOn generalizing l with
  | ind n ih =>
      by_cases hn : n < 10
      · rw [Nat.toDigits_of_lt_base hn] at h
        obtain ⟨hdigit, rfl⟩ := List.cons.inj h
        refine ⟨?_, rfl⟩
        have hvalue := Nat.toNat_digitChar_sub_48_of_lt_ten hn
        rw [hdigit] at hvalue
        exact hvalue.symm
      · rw [Nat.toDigits_of_base_le (by decide) (by omega)] at h
        cases hfront : toDigits 10 (n / 10) with
        | nil =>
            have hpos := Nat.length_toDigits_pos (b := 10) (n := n / 10)
            rw [hfront] at hpos
            cases hpos
        | cons c l' =>
            rw [hfront] at h
            obtain ⟨rfl, -⟩ := List.cons.inj h
            have hzero := (ih (n / 10) (by omega) hfront).1
            omega

end Numeral
end Gamnet
