import Mathlib.Algebra.Group.Nat.Defs
import Mathlib.Data.List.TakeWhile
import Mathlib.Data.List.Basic

/-!
# Byte strings

Strings of bytes with the search, substring and C-string operations of std::string.
Positions are numbers of 64 bits: npos is the largest one, and sums and differences
wrap around. A string is shorter than half of the positions.

The module is independent of any program.
-/

namespace Gamnet

/-- A string of bytes. -/
abbrev Bytes : Type := List UInt8

namespace Bytes

/-- The position that find returns for a byte that does not occur. -/
def npos : Nat := 2 ^ 64 - 1

/-- Addition of positions. -/
def posAdd (i j : Nat) : Nat := (i + j) % 2 ^ 64

/-- Subtraction of positions. -/
def posSub (i j : Nat) : Nat := (i + 2 ^ 64 - j) % 2 ^ 64

/-- The position of the first occurrence of a byte. -/
def find (s : Bytes) (c : UInt8) : Nat :=
  if c ∈ s then s.idxOf c else npos

/-- At most n bytes from a position on. A position behind the end, for which substr
throws, has none. -/
def substr (s : Bytes) (pos n : Nat) : Bytes :=
  (s.drop pos).take n

/-- What a string is when it is read as a C string: its part in front of the first zero
byte. -/
def cString (s : Bytes) : Bytes :=
  s.takeWhile (· ≠ 0)

/-- The part in front of the first occurrence of a byte. -/
def before (s : Bytes) (c : UInt8) : Bytes :=
  s.takeWhile (· ≠ c)

/-- The part behind the first occurrence of a byte. -/
def after (s : Bytes) (c : UInt8) : Bytes :=
  (s.dropWhile (· ≠ c)).tail

variable {s a t : Bytes} {c d : UInt8}

theorem before_append_cons
    (hc : c ∉ a) :
    before (a ++ c :: t) c = a := by
  unfold before
  rw [List.takeWhile_append_of_pos]
  · simp
  · intro x hx
    simp only [ne_eq, decide_eq_true_eq]
    rintro rfl
    exact hc hx

theorem after_append_cons
    (hc : c ∉ a) :
    after (a ++ c :: t) c = t := by
  unfold after
  rw [List.dropWhile_append_of_pos]
  · simp
  · intro x hx
    simp only [ne_eq, decide_eq_true_eq]
    rintro rfl
    exact hc hx

/-- A byte that does not occur has the whole string in front of it. -/
theorem before_of_notMem
    (hc : c ∉ s) :
    before s c = s := by
  unfold before
  rw [List.takeWhile_eq_self_iff]
  intro x hx
  simp only [ne_eq, decide_eq_true_eq]
  rintro rfl
  exact hc hx

/-- Nothing is behind a byte that does not occur. -/
theorem after_of_notMem
    (hc : c ∉ s) :
    after s c = [] := by
  have hdrop : s.dropWhile (· ≠ c) = [] := by
    rw [List.dropWhile_eq_nil_iff]
    intro x hx
    simp only [ne_eq, decide_eq_true_eq]
    rintro rfl
    exact hc hx
  rw [after, hdrop, List.tail_nil]

theorem notMem_before
    (s : Bytes) (c : UInt8) :
    c ∉ before s c := by
  intro hc
  have h := List.mem_takeWhile_imp hc
  simp at h

theorem mem_of_mem_before
    (hd : d ∈ before s c) :
    d ∈ s :=
  (List.takeWhile_prefix _).subset hd

theorem mem_of_mem_after
    (hd : d ∈ after s c) :
    d ∈ s :=
  (List.dropWhile_suffix _).subset (List.mem_of_mem_tail hd)

/-- A string with an occurrence of a byte, divided at the first one. -/
theorem before_append_after
    (hc : c ∈ s) :
    before s c ++ c :: after s c = s := by
  induction s with
  | nil =>
      cases hc
  | cons x s ih =>
      by_cases hx : x = c
      · subst hx
        simp [before, after]
      · have hs : c ∈ s := by
          rcases List.mem_cons.mp hc with rfl | hs
          · exact absurd rfl hx
          · exact hs
        simpa [before, after, hx] using ih hs

theorem find_append_cons
    (hc : c ∉ a) :
    find (a ++ c :: t) c = a.length := by
  simp [find, List.idxOf_append_of_notMem hc]

theorem find_eq_npos
    (hc : c ∉ s) :
    find s c = npos := by
  simp [find, hc]

theorem find_of_mem
    (hc : c ∈ s) :
    find s c = (before s c).length := by
  conv_lhs => rw [← before_append_after hc]
  exact find_append_cons (notMem_before s c)

@[simp] theorem substr_zero_append
    (a t : Bytes) :
    substr (a ++ t) 0 a.length = a := by
  simp [substr]

/-- The part behind a position. -/
theorem substr_length_succ
    (a t : Bytes) (c : UInt8) (n : Nat) :
    substr (a ++ c :: t) (a.length + 1) n = t.take n := by
  unfold substr
  rw [show a ++ c :: t = (a ++ [c]) ++ t by simp,
    show a.length + 1 = (a ++ [c]).length by simp, List.drop_left]

theorem take_length_before
    (s : Bytes) (c : UInt8) :
    s.take (before s c).length = before s c :=
  (List.prefix_iff_eq_take.mp (List.takeWhile_prefix _)).symm

/-- A bound that is not smaller than the string does not shorten it. -/
theorem substr_of_le
    {n : Nat}
    (hlen : s.length ≤ n) :
    substr s 0 n = s := by
  rw [substr, List.drop_zero, List.take_of_length_le hlen]

theorem posAdd_of_lt
    {i j : Nat}
    (h : i + j < 2 ^ 64) :
    posAdd i j = i + j :=
  Nat.mod_eq_of_lt h

theorem posSub_of_le
    {i j : Nat}
    (hle : j ≤ i)
    (hi : i < 2 ^ 64) :
    posSub i j = i - j := by
  unfold posSub
  omega

/-- A difference below zero is larger than the length of any string. -/
theorem le_posSub_of_lt
    {i j : Nat}
    (hlt : i < j)
    (hj : j < 2 ^ 63) :
    2 ^ 63 ≤ posSub i j := by
  unfold posSub
  omega

theorem cString_of_notMem
    (h : 0 ∉ s) :
    cString s = s :=
  before_of_notMem h

theorem cString_append
    (s t : Bytes) :
    cString (s ++ t) = if 0 ∈ s then cString s else s ++ cString t := by
  split_ifs with h
  · conv_lhs => rw [← before_append_after h, List.append_assoc, List.cons_append]
    exact before_append_cons (notMem_before s 0)
  · unfold cString
    rw [List.takeWhile_append_of_pos]
    intro x hx
    simp only [ne_eq, decide_eq_true_eq]
    rintro rfl
    exact h hx

theorem length_substr_le
    (s : Bytes) (pos n : Nat) :
    (substr s pos n).length ≤ s.length := by
  rw [substr, List.length_take, List.length_drop]
  omega

theorem length_cString_le
    (s : Bytes) :
    (cString s).length ≤ s.length :=
  (List.takeWhile_prefix _).length_le

theorem zero_notMem_cString
    (s : Bytes) :
    0 ∉ cString s :=
  notMem_before s 0

end Bytes
end Gamnet
