import Mathlib.Data.List.Basic

/-!
# Block streams

A consumer of blocks is fed a stream in pieces of any size. Whole blocks are taken from the
front of what has come in, and what is left waits for the next piece. The state and the rest
depend on the stream alone, not on its pieces (`absorb_append`).

The module is independent of any program.
-/

namespace Gamnet
namespace BlockStream

universe u v

variable {σ : Type u} {α : Type v}
variable (f : σ → List α → σ) {n : Nat}

/-- Take whole blocks of n elements from the front as long as there are any. The second
component is what is left. -/
def absorb (f : σ → List α → σ) (n : Nat) (s : σ) (xs : List α) : σ × List α :=
  if _ : 0 < n ∧ n ≤ xs.length then absorb f n (f s (xs.take n)) (xs.drop n)
  else (s, xs)
termination_by xs.length
decreasing_by
  simp only [List.length_drop]
  omega

/-- Less than a block waits. -/
theorem absorb_short
    (s : σ) {xs : List α}
    (hlt : xs.length < n) :
    absorb f n s xs = (s, xs) := by
  rw [absorb, dif_neg (by omega)]

/-- The block at the front is taken first. -/
theorem absorb_take
    (s : σ) {xs : List α}
    (hn : 0 < n)
    (hle : n ≤ xs.length) :
    absorb f n s xs = absorb f n (f s (xs.take n)) (xs.drop n) := by
  rw [absorb, dif_pos ⟨hn, hle⟩]

/-- A block in front of a stream. -/
theorem absorb_block
    (s : σ) {block : List α}
    (hn : 0 < n)
    (hblock : block.length = n)
    (xs : List α) :
    absorb f n s (block ++ xs) = absorb f n (f s block) xs := by
  rw [absorb_take f s hn (by simp [hblock]), List.take_left' hblock, List.drop_left' hblock]

/-- What is left is less than a block. -/
theorem absorb_rest_length
    (hn : 0 < n)
    (s : σ)
    (xs : List α) :
    (absorb f n s xs).2.length = xs.length % n := by
  by_cases hle : n ≤ xs.length
  · rw [absorb_take f s hn hle, absorb_rest_length hn, List.length_drop,
      ← Nat.mod_eq_sub_mod hle]
  · rw [absorb_short f s (by omega), Nat.mod_eq_of_lt (by omega)]
termination_by xs.length
decreasing_by
  simp only [List.length_drop]
  omega

/-- What waits is in front of what comes next. -/
theorem absorb_append
    (hn : 0 < n)
    (s : σ)
    (xs ys : List α) :
    absorb f n s (xs ++ ys) = absorb f n (absorb f n s xs).1 ((absorb f n s xs).2 ++ ys) := by
  by_cases hle : n ≤ xs.length
  · have hfront : absorb f n s (xs ++ ys) = absorb f n (f s (xs.take n)) (xs.drop n ++ ys) := by
      rw [absorb_take f s hn (by simp; omega), List.take_append_of_le_length hle,
        List.drop_append_of_le_length hle]
    rw [hfront, absorb_append hn, absorb_take f s hn hle]
  · rw [absorb_short f s (show xs.length < n by omega)]
termination_by xs.length
decreasing_by
  simp only [List.length_drop]
  omega

end BlockStream
end Gamnet
