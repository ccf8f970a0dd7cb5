import Mathlib.Data.List.Basic
import Mathlib.Data.List.Infix
import Mathlib.Tactic.Ring

/-!
# Length-prefixed framing of a stream

A stream of symbols carries frames. The first symbols of a frame form a header
from which the total length of the frame is computed. A receiver takes complete
frames off the front of the stream as long as it can.

The module is independent of any program. Its results are:

* `exists_frame_of_not_stuck`: a stream from which a frame can be taken starts
  with a complete frame;
* `splits_take`: every prefix of a well-formed stream decomposes into a prefix
  of its frames, and the length of the remainder is `unfinished`;
* `exists_next_chunk`: a chunk completes some frames and leaves the beginning of
  the next one, so that the lengths alone decide whether a buffer of a given
  capacity can hold the remainder and the chunk (`FitsIn`).
-/

namespace Gamnet
namespace Framing

universe u

/-- How frames are delimited in a stream of symbols. -/
structure Format (β : Type u) where
  header : Nat
  limit : Nat
  lengthOf : List β → Nat
  header_pos : 0 < header
  lengthOf_append :
    ∀ front back, header ≤ front.length →
      lengthOf (front ++ back) = lengthOf front

section Decomposition

variable {β : Type u} (F : Format β)

/-- A complete frame: its header announces exactly its own length. -/
structure Format.IsFrame (f : List β) : Prop where
  header_le : F.header ≤ f.length
  lengthOf_eq : F.lengthOf f = f.length
  lt_limit : f.length < F.limit

/-- A remainder that is waiting for more symbols. -/
def Format.Waiting (t : List β) : Prop :=
  t.length < F.header ∨ t.length < F.lengthOf t ∧ F.lengthOf t < F.limit

/-- A remainder whose header announces an impossible length. -/
def Format.Malformed (t : List β) : Prop :=
  F.header ≤ t.length ∧ (F.lengthOf t < F.header ∨ F.limit ≤ F.lengthOf t)

/-- A remainder from which no frame can be taken. -/
def Format.Stuck (t : List β) : Prop :=
  F.Waiting t ∨ F.Malformed t

/-- A stream is a list of complete frames followed by a stuck remainder. -/
structure Splits (s : List β) (fs : List (List β)) (t : List β) : Prop where
  stream : s = fs.flatten ++ t
  frames : ∀ f ∈ fs, F.IsFrame f
  stuck : F.Stuck t

variable {F}

/-- A complete frame at the front of a stream is announced by the header. -/
theorem Format.IsFrame.lengthOf_append
    {f : List β}
    (hf : F.IsFrame f)
    (rest : List β) :
    F.lengthOf (f ++ rest) = f.length := by
  rw [F.lengthOf_append f rest hf.header_le, hf.lengthOf_eq]

/-- A proper prefix of a complete frame is waiting for more symbols. -/
theorem Format.IsFrame.waiting_of_initial
    {f t : List β}
    (hf : F.IsFrame f)
    (hinit : t <+: f)
    (hproper : t ≠ f) :
    F.Waiting t := by
  obtain ⟨rest, rfl⟩ := hinit
  by_cases hheader : F.header ≤ t.length
  · right
    rw [← F.lengthOf_append t rest hheader, hf.lengthOf_eq]
    have hrest : rest ≠ [] := by
      intro hnil
      exact hproper (by simp [hnil])
    have hpos := List.length_pos_of_ne_nil hrest
    have hlimit := hf.lt_limit
    rw [List.length_append] at hlimit ⊢
    exact ⟨by omega, hlimit⟩
  · left
    omega

/-- The empty stream is waiting for its first header. -/
theorem Format.waiting_nil :
    F.Waiting [] := by
  left
  exact F.header_pos

/-- A stream that is not stuck starts with a complete frame. -/
theorem exists_frame_of_not_stuck
    {s : List β}
    (hstuck : ¬ F.Stuck s) :
    ∃ f rest, s = f ++ rest ∧ F.IsFrame f := by
  have hheader : F.header ≤ s.length := by
    by_contra hlt
    exact hstuck (Or.inl (Or.inl (by omega)))
  have hlow : F.header ≤ F.lengthOf s := by
    by_contra hlt
    exact hstuck (Or.inr ⟨hheader, Or.inl (by omega)⟩)
  have hhigh : F.lengthOf s < F.limit := by
    by_contra hlt
    exact hstuck (Or.inr ⟨hheader, Or.inr (by omega)⟩)
  have hfull : F.lengthOf s ≤ s.length := by
    by_contra hlt
    exact hstuck (Or.inl (Or.inr ⟨by omega, hhigh⟩))
  have hlen : (s.take (F.lengthOf s)).length = F.lengthOf s := by
    rw [List.length_take]
    omega
  refine ⟨s.take (F.lengthOf s), s.drop (F.lengthOf s),
    (List.take_append_drop _ s).symm, by omega, ?_, by omega⟩
  have happ := F.lengthOf_append
    (s.take (F.lengthOf s)) (s.drop (F.lengthOf s)) (by omega)
  rw [List.take_append_drop] at happ
  omega

end Decomposition

section Unfinished

variable {β : Type u} {F : Format β}

/-- The number of symbols behind the last frame boundary after n symbols of a
stream whose frames have the given lengths. -/
def unfinished : List Nat → Nat → Nat
  | [], n => n
  | k :: ks, n => if n < k then n else unfinished ks (n - k)

/-- A prefix of a well-formed stream consists of its first frames and an
unfinished piece of the next one. -/
theorem splits_take
    {fs : List (List β)} {t : List β}
    (hframes : ∀ f ∈ fs, F.IsFrame f)
    (hinit : ∀ k, F.Waiting (t.take k))
    (n : Nat)
    (hn : n ≤ (fs.flatten ++ t).length) :
    ∃ k u,
      Splits F ((fs.flatten ++ t).take n) (fs.take k) u ∧
      F.Waiting u ∧
      u.length = unfinished (fs.map List.length) n := by
  induction fs generalizing n with
  | nil =>
      refine ⟨0, t.take n, ⟨by simp, by simp, Or.inl (hinit n)⟩,
        hinit n, ?_⟩
      simp only [List.flatten_nil, List.nil_append] at hn
      simp only [List.map_nil, unfinished, List.length_take]
      omega
  | cons f fs ih =>
      have hf := hframes f (by simp)
      simp only [List.flatten_cons, List.append_assoc] at hn ⊢
      by_cases hlt : n < f.length
      · have hwait : F.Waiting (f.take n) := by
          apply hf.waiting_of_initial (List.take_prefix n f)
          intro heq
          have := congrArg List.length heq
          rw [List.length_take] at this
          omega
        have htake : (f ++ (fs.flatten ++ t)).take n = f.take n :=
          List.take_append_of_le_length (by omega)
        refine ⟨0, f.take n, ⟨by simp [htake], by simp, Or.inl hwait⟩,
          hwait, ?_⟩
        simp only [List.map_cons, unfinished, hlt, if_true, List.length_take]
        omega
      · have htake : (f ++ (fs.flatten ++ t)).take n =
            f ++ (fs.flatten ++ t).take (n - f.length) := by
          rw [List.take_append, List.take_of_length_le (by omega)]
        obtain ⟨k, u, hsplit, hwait, hlen⟩ :=
          ih (fun x hx => hframes x (by simp [hx])) (n - f.length)
            (by rw [List.length_append] at hn; omega)
        refine ⟨k + 1, u, ⟨?_, ?_, hsplit.stuck⟩, hwait, ?_⟩
        · rw [htake, hsplit.stream]
          simp
        · intro x hx
          simp only [List.take_succ_cons, List.mem_cons] at hx
          rcases hx with rfl | hx
          · exact hf
          · exact hsplit.frames x hx
        · simp only [List.map_cons, unfinished, hlt, if_false, hlen]

/-- Prefixes of a waiting remainder that is itself a proper prefix of a frame
are waiting. -/
theorem Format.IsFrame.waiting_take
    {f t : List β}
    (hf : F.IsFrame f)
    (hinit : t <+: f)
    (hproper : t ≠ f)
    (k : Nat) :
    F.Waiting (t.take k) := by
  apply hf.waiting_of_initial ((List.take_prefix k t).trans hinit)
  intro heq
  have hle := hinit.length_le
  have hlen : t.length < f.length := by
    rcases Nat.lt_or_ge t.length f.length with h | h
    · exact h
    · exact absurd (hinit.eq_of_length_le h) hproper
  have := congrArg List.length heq
  rw [List.length_take] at this
  omega

theorem unfinished_le
    (lens : List Nat) (n : Nat) :
    unfinished lens n ≤ n := by
  induction lens generalizing n with
  | nil =>
      exact Nat.le_refl n
  | cons k ks ih =>
      simp only [unfinished]
      split
      · exact Nat.le_refl n
      · exact Nat.le_trans (ih (n - k)) (Nat.sub_le n k)

theorem unfinished_zero
    (lens : List Nat) :
    unfinished lens 0 = 0 :=
  Nat.le_zero.mp (unfinished_le lens 0)

/-- Behind a complete first frame the remainder is shorter. -/
theorem unfinished_cons_lt
    {k : Nat} {ks : List Nat} {n : Nat}
    (hk : 0 < k)
    (hkn : k ≤ n) :
    unfinished (k :: ks) n < n := by
  have hle := unfinished_le ks (n - k)
  simp only [unfinished]
  rw [if_neg (Nat.not_lt_of_le hkn)]
  omega

/-- Counting may start at any frame boundary. -/
theorem unfinished_drop
    (lens : List Nat) (k n : Nat) :
    unfinished lens ((lens.take k).sum + n) = unfinished (lens.drop k) n := by
  induction k generalizing lens with
  | zero =>
      simp
  | succ k ih =>
      cases lens with
      | nil =>
          simp
      | cons m ms =>
          have hsum : ((m :: ms).take (k + 1)).sum + n =
              m + ((ms.take k).sum + n) := by
            rw [List.take_succ_cons, List.sum_cons, Nat.add_assoc]
          have hlow : ¬ m + ((ms.take k).sum + n) < m :=
            Nat.not_lt_of_le (Nat.le_add_right m _)
          rw [hsum, List.drop_succ_cons, unfinished, if_neg hlow,
            Nat.add_sub_cancel_left, ih]

/-- Chunks of the given lengths, of which the first one starts n symbols into
the stream: a buffer of the given capacity can hold each chunk behind the
remainder in front of it. -/
def FitsIn (capacity : Nat) (lens : List Nat) : Nat → List Nat → Prop
  | _, [] => True
  | n, m :: ms =>
      unfinished lens n + m ≤ capacity ∧ FitsIn capacity lens (n + m) ms

instance decidableFitsIn (capacity : Nat) (lens : List Nat) :
    ∀ n chunks, Decidable (FitsIn capacity lens n chunks)
  | _, [] => inferInstanceAs (Decidable True)
  | n, m :: ms =>
      have := decidableFitsIn capacity lens (n + m) ms
      inferInstanceAs
        (Decidable (unfinished lens n + m ≤ capacity ∧
          FitsIn capacity lens (n + m) ms))

theorem fitsIn_drop
    (capacity : Nat) (lens : List Nat) (k n : Nat) (chunks : List Nat) :
    FitsIn capacity lens ((lens.take k).sum + n) chunks ↔
      FitsIn capacity (lens.drop k) n chunks := by
  induction chunks generalizing n with
  | nil =>
      exact Iff.rfl
  | cons m ms ih =>
      simp only [FitsIn, unfinished_drop, Nat.add_assoc]
      rw [ih]

/-- Chunks in two groups. -/
theorem fitsIn_append
    (capacity : Nat) (lens : List Nat) (n : Nat) (xs ys : List Nat) :
    FitsIn capacity lens n (xs ++ ys) ↔
      FitsIn capacity lens n xs ∧ FitsIn capacity lens (n + xs.sum) ys := by
  induction xs generalizing n with
  | nil =>
      simp [FitsIn]
  | cons x xs ih =>
      simp only [List.cons_append, FitsIn, ih, List.sum_cons, Nat.add_assoc,
        and_assoc]

/-- A chunk behind the remainder u completes the next frames and leaves a new
remainder. -/
theorem exists_next_chunk
    {fs : List (List β)} {t u chunk rest : List β}
    (hframes : ∀ f ∈ fs, F.IsFrame f)
    (hinit : ∀ k, F.Waiting (t.take k))
    (hstream : u ++ (chunk ++ rest) = fs.flatten ++ t) :
    ∃ k v,
      u ++ chunk = (fs.take k).flatten ++ v ∧
      v ++ rest = (fs.drop k).flatten ++ t ∧
      F.Waiting v ∧
      unfinished ((fs.drop k).map List.length) v.length = v.length ∧
      u.length + chunk.length =
        ((fs.map List.length).take k).sum + v.length := by
  have hfront : (fs.flatten ++ t).take (u ++ chunk).length = u ++ chunk := by
    rw [← hstream, ← List.append_assoc, List.take_left]
  have hle : (u ++ chunk).length ≤ (fs.flatten ++ t).length := by
    rw [← hstream, ← List.append_assoc, @List.length_append _ (u ++ chunk)]
    exact Nat.le_add_right _ _
  obtain ⟨k, v, hsplits, hwait, hlength⟩ :=
    splits_take hframes hinit (u ++ chunk).length hle
  have hchunk : u ++ chunk = (fs.take k).flatten ++ v := by
    rw [← hfront, hsplits.stream]
  have hsum : u.length + chunk.length =
      ((fs.map List.length).take k).sum + v.length := by
    rw [← List.length_append, hchunk, List.length_append,
      List.length_flatten, List.map_take]
  refine ⟨k, v, hchunk, ?_, hwait, ?_, hsum⟩
  · have hall : (fs.take k).flatten ++ (v ++ rest) =
        (fs.take k).flatten ++ ((fs.drop k).flatten ++ t) := by
      rw [← List.append_assoc, ← hchunk, List.append_assoc, hstream,
        ← List.append_assoc, ← List.flatten_append, List.take_append_drop]
    exact List.append_cancel_left hall
  · rw [List.length_append, hsum, unfinished_drop] at hlength
    rw [List.map_drop]
    exact hlength.symm

end Unfinished

end Framing
end Gamnet
