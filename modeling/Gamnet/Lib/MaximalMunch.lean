import Mathlib.Data.List.Infix

/-!
# Maximal munch

A scanner with start states takes at each position the rule that matches the most characters,
the first one of several, and goes on behind them. What it makes of a text is divided where one
of its matches ends (`scan_append`). In a state that waits for a delimiter it passes over all
that is in front of the first one (`scan_until`).

The module is independent of any program.
-/

namespace Gamnet
namespace MaximalMunch

universe u v w x

universe y

variable {γ : Type u} {ρ : Type v} {σ : Type w} {τ : Type x} {β : Type y}

/-- The first of the rules that match the most, with the number of characters that it matches.
A rule that matches none is not taken. -/
def longest : List (ρ × Nat) → Option (ρ × Nat)
  | [] => none
  | (r, n) :: matched =>
      match longest matched with
      | some (r', m) => if n < m then some (r', m) else some (r, n)
      | none => if 0 < n then some (r, n) else none

section Longest

variable {r : ρ} {n : Nat} {front back matched : List (ρ × Nat)}

theorem mem_of_longest
    (h : longest matched = some (r, n)) :
    (r, n) ∈ matched ∧ 0 < n := by
  induction matched generalizing r n with
  | nil =>
      cases h
  | cons first matched ih =>
      obtain ⟨r₁, n₁⟩ := first
      simp only [longest] at h
      split at h
      · rename_i r' m hrest
        obtain ⟨hmem, hpos⟩ := ih hrest
        split_ifs at h with hlt
        · cases h
          exact ⟨List.mem_cons_of_mem _ hmem, hpos⟩
        · cases h
          exact ⟨List.mem_cons_self, by omega⟩
      · split_ifs at h with hpos
        cases h
        exact ⟨List.mem_cons_self, hpos⟩

/-- The rules in front of the one that is taken match less, and those behind it no more. -/
theorem longest_eq
    (hpos : 0 < n)
    (hfront : ∀ p ∈ front, p.2 < n)
    (hback : ∀ p ∈ back, p.2 ≤ n) :
    longest (front ++ (r, n) :: back) = some (r, n) := by
  induction front with
  | nil =>
      simp only [List.nil_append, longest]
      split
      · rename_i r' m hrest
        have hle := hback _ (mem_of_longest hrest).1
        exact if_neg (by omega)
      · exact if_pos hpos
  | cons first front ih =>
      have hrest := ih fun p hp => hfront p (List.mem_cons_of_mem _ hp)
      have hlt := hfront first List.mem_cons_self
      simp only [List.cons_append, longest, hrest]
      exact if_pos hlt

/-- If no rule matches, none is taken. -/
theorem longest_eq_none
    (h : ∀ p ∈ matched, p.2 = 0) :
    longest matched = none := by
  cases hlongest : longest matched with
  | none =>
      rfl
  | some p =>
      obtain ⟨hmem, hpos⟩ := mem_of_longest hlongest
      have := h _ hmem
      omega

end Longest

/-- Scan a text behind some characters that are matched already. A step tells for a state and
the text that is left how much is matched, the next state, and the token if there is one. At
least one character is passed over. -/
def scan (step : σ → List γ → Nat × σ × Option τ) : Nat → σ → List γ → List τ
  | _, _, [] => []
  | k + 1, s, _ :: text => scan step k s text
  | 0, s, c :: text =>
      let p := step s (c :: text)
      p.2.2.toList ++ scan step (p.1 - 1) p.2.1 text

section Scan

variable {step : σ → List γ → Nat × σ × Option τ} {s s' : σ} {t : Option τ}
variable {w rest : List γ}

/-- What is matched is passed over. -/
theorem scan_length
    (s : σ) (w rest : List γ) :
    scan step w.length s (w ++ rest) = scan step 0 s rest := by
  induction w with
  | nil =>
      rfl
  | cons c w ih =>
      exact ih

/-- One match, and what is behind it. -/
theorem scan_append
    (hw : w ≠ [])
    (hstep : step s (w ++ rest) = (w.length, s', t)) :
    scan step 0 s (w ++ rest) = t.toList ++ scan step 0 s' rest := by
  cases w with
  | nil =>
      exact absurd rfl hw
  | cons c w =>
      rw [List.cons_append] at hstep ⊢
      simp only [scan, hstep, List.length_cons, Nat.add_sub_cancel]
      rw [scan_length]

end Scan

section Delimiter

variable [BEq γ] [LawfulBEq γ]

/-- The delimiter is not met in front of the end of the body. -/
def avoids (delimiter : List γ) : List γ → Bool
  | [] => true
  | c :: body => !delimiter.isPrefixOf (c :: body ++ delimiter) && avoids delimiter body

/-- A text is divided at the first delimiter, or has none. -/
theorem avoids_or_absent
    {delimiter : List γ}
    (hne : delimiter ≠ [])
    (text : List γ) :
    (∃ body rest, text = body ++ (delimiter ++ rest) ∧ avoids delimiter body = true) ∨
      ¬ delimiter <:+: text := by
  induction text with
  | nil =>
      right
      intro h
      exact hne (List.infix_nil.mp h)
  | cons c text ih =>
      by_cases hfront : delimiter <+: c :: text
      · obtain ⟨rest, hrest⟩ := hfront
        exact Or.inl ⟨[], rest, hrest.symm, rfl⟩
      · rcases ih with ⟨body, rest, rfl, hbody⟩ | hnone
        · refine Or.inl ⟨c :: body, rest, rfl, ?_⟩
          have hprefix : delimiter.isPrefixOf (c :: body ++ delimiter) = false := by
            rw [Bool.eq_false_iff]
            intro h
            refine hfront ((List.isPrefixOf_iff_prefix.mp h).trans ⟨rest, ?_⟩)
            simp
          rw [avoids, hprefix, hbody]
          rfl
        · refine Or.inr fun h => ?_
          rcases List.infix_cons_iff.mp h with h | h
          · exact hfront h
          · exact hnone h

variable {step : σ → List γ → Nat × σ × Option τ} (state : β → σ) (next : β → γ → β)
variable {delimiter : List γ}

/-- In a state that waits for a delimiter, what is in front of the first one is passed over
character by character. -/
theorem scan_until
    (hstep : ∀ b c text,
      ¬ delimiter <+: c :: text →
        step (state b) (c :: text) = (1, state (next b c), none))
    (b : β) (body rest : List γ)
    (hbody : avoids delimiter body = true) :
    scan step 0 (state b) (body ++ (delimiter ++ rest)) =
      scan step 0 (state (body.foldl next b)) (delimiter ++ rest) := by
  induction body generalizing b with
  | nil =>
      rfl
  | cons c body ih =>
      rw [avoids, Bool.and_eq_true, Bool.not_eq_true'] at hbody
      have hfront : ¬ delimiter <+: c :: (body ++ (delimiter ++ rest)) := by
        intro h
        have hshort : delimiter <+: c :: body ++ delimiter := by
          refine List.prefix_of_prefix_length_le h ⟨rest, ?_⟩ ?_
          · simp
          · simp only [List.length_append, List.length_cons]
            omega
        rw [List.isPrefixOf_iff_prefix.mpr hshort] at hbody
        exact Bool.noConfusion hbody.1
      simp only [List.cons_append, scan, hstep b c _ hfront, Option.toList_none, List.nil_append,
        List.foldl_cons]
      exact ih (next b c) hbody.2

omit [BEq γ] [LawfulBEq γ] in
/-- Without a delimiter all of the text is passed over. -/
theorem scan_absent
    (hstep : ∀ b c text,
      ¬ delimiter <+: c :: text →
        step (state b) (c :: text) = (1, state (next b c), none))
    (b : β) (text : List γ)
    (hnone : ¬ delimiter <:+: text) :
    scan step 0 (state b) text = [] := by
  induction text generalizing b with
  | nil =>
      rfl
  | cons c text ih =>
      rw [List.infix_cons_iff, not_or] at hnone
      simp only [scan, hstep b c text hnone.1, Option.toList_none, List.nil_append]
      exact ih (next b c) hnone.2

end Delimiter

end MaximalMunch
end Gamnet
