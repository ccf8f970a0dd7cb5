import Mathlib.Data.List.Basic

/-!
# Words

The words of a text are its longest parts without a separator, as formatted input reads
them one by one. Texts that meet at a separator have the words of both; where a text is
cut within a word, the two parts of that word are its last and its first one
(`words_append_of_cut`).

The module is independent of any program.
-/

namespace Gamnet
namespace Words

universe u

variable {α : Type u} (isSpace : α → Bool)

/-- The text begins with a word. -/
def startsWord : List α → Bool
  | [] => false
  | c :: _ => !isSpace c

/-- A character in front of the first word. -/
def consHead (c : α) : List (List α) → List (List α)
  | [] => [[c]]
  | w :: ws => (c :: w) :: ws

/-- The words of a text. -/
def words : List α → List (List α)
  | [] => []
  | c :: s =>
      if isSpace c then words s
      else if startsWord isSpace s then consHead c (words s)
      else [c] :: words s

/-- No character of the text is a separator. -/
def NoSpace (s : List α) : Prop :=
  ∀ c ∈ s, isSpace c = false

instance (s : List α) : Decidable (NoSpace isSpace s) :=
  inferInstanceAs (Decidable (∀ c ∈ s, isSpace c = false))

variable {isSpace} {c : α} {s t w : List α}

@[simp] theorem words_nil :
    words isSpace [] = [] := by
  rfl

theorem words_cons_space
    (hc : isSpace c = true) :
    words isSpace (c :: s) = words isSpace s := by
  simp [words, hc]

theorem words_ne_nil_of_startsWord
    (hs : startsWord isSpace s = true) :
    words isSpace s ≠ [] := by
  cases s with
  | nil =>
      simp [startsWord] at hs
  | cons c s =>
      simp only [startsWord, Bool.not_eq_true'] at hs
      simp only [words, hs]
      split
      · simp_all
      · split
        · cases words isSpace s <;> simp [consHead]
        · simp

theorem consHead_append
    {ws vs : List (List α)}
    (hws : ws ≠ []) :
    consHead c (ws ++ vs) = consHead c ws ++ vs := by
  cases ws with
  | nil => exact absurd rfl hws
  | cons w ws => rfl

/-- Texts that meet where no word begins. -/
theorem words_append
    (ht : startsWord isSpace t = false) :
    words isSpace (s ++ t) = words isSpace s ++ words isSpace t := by
  induction s with
  | nil =>
      rfl
  | cons c s ih =>
      rw [List.cons_append, words, words]
      split
      · exact ih
      · cases s with
        | nil =>
            rw [List.nil_append, ht]
            rfl
        | cons d s =>
            have hstart : startsWord isSpace (d :: s ++ t) = startsWord isSpace (d :: s) := rfl
            rw [hstart]
            split
            · rename_i hd
              rw [ih, consHead_append (words_ne_nil_of_startsWord hd)]
            · rw [ih, List.cons_append]

/-- Texts that meet at a separator. -/
theorem words_append_space
    (hc : isSpace c = true) :
    words isSpace (s ++ c :: t) = words isSpace s ++ words isSpace t := by
  rw [words_append (by simp [startsWord, hc]), words_cons_space hc]

/-- A word is not empty and has no separator. -/
theorem of_mem_words
    (hw : w ∈ words isSpace s) :
    w ≠ [] ∧ NoSpace isSpace w := by
  induction s generalizing w with
  | nil =>
      cases hw
  | cons c s ih =>
      rw [words] at hw
      split at hw
      · exact ih hw
      · rename_i hc
        have hc' : isSpace c = false := by
          simpa using hc
        split at hw
        · cases hws : words isSpace s with
          | nil =>
              rw [hws] at hw
              obtain rfl : w = [c] := by
                simpa [consHead] using hw
              exact ⟨List.cons_ne_nil _ _, by simpa [NoSpace] using hc'⟩
          | cons v ws =>
              rw [hws] at hw ih
              rcases List.mem_cons.mp hw with rfl | hw
              · refine ⟨List.cons_ne_nil _ _, ?_⟩
                have hv := (ih List.mem_cons_self).2
                intro d hd
                rcases List.mem_cons.mp hd with rfl | hd
                · exact hc'
                · exact hv d hd
              · exact ih (List.mem_cons_of_mem _ hw)
        · rcases List.mem_cons.mp hw with rfl | hw
          · exact ⟨List.cons_ne_nil _ _, by simpa [NoSpace] using hc'⟩
          · exact ih hw

/-- A text that begins with a word has a first word with the same first character. -/
theorem words_cons_of_not_space
    (hc : isSpace c = false) :
    ∃ w ws, words isSpace (c :: s) = (c :: w) :: ws := by
  rw [words]
  simp only [hc, Bool.false_eq_true, if_false]
  split
  · cases words isSpace s with
    | nil => exact ⟨_, _, rfl⟩
    | cons v ws => exact ⟨_, _, rfl⟩
  · exact ⟨_, _, rfl⟩

/-- A text without a separator is one word. -/
theorem words_of_noSpace
    (hne : s ≠ [])
    (hs : NoSpace isSpace s) :
    words isSpace s = [s] := by
  induction s with
  | nil =>
      exact absurd rfl hne
  | cons c s ih =>
      have hc : isSpace c = false := hs c List.mem_cons_self
      rw [words]
      simp only [hc, Bool.false_eq_true, if_false]
      cases s with
      | nil =>
          rfl
      | cons d s =>
          have hd : isSpace d = false := hs d (List.mem_cons_of_mem _ List.mem_cons_self)
          rw [ih (List.cons_ne_nil _ _) fun x hx => hs x (List.mem_cons_of_mem _ hx)]
          simp [startsWord, hd, consHead]

/-- Texts of which the first one ends in a separator. -/
theorem words_append_of_last_space
    (hs : s ≠ [])
    (hlast : isSpace (s.getLast hs) = true) :
    words isSpace (s ++ t) = words isSpace s ++ words isSpace t := by
  have hsplit := List.dropLast_append_getLast hs
  have hwords : ∀ u, words isSpace (s ++ u) =
      words isSpace s.dropLast ++ words isSpace u := by
    intro u
    conv_lhs => rw [← hsplit, List.append_assoc, List.singleton_append]
    exact words_append_space hlast
  have hself := hwords []
  rw [List.append_nil, words_nil, List.append_nil] at hself
  rw [hwords t, hself]

/-- A text without words consists of separators. -/
theorem words_eq_nil_iff :
    words isSpace s = [] ↔ ∀ c ∈ s, isSpace c = true := by
  induction s with
  | nil =>
      simp
  | cons d s ih =>
      cases hd : isSpace d with
      | true =>
          rw [words_cons_space hd, ih]
          simp [hd]
      | false =>
          obtain ⟨w, ws, hws⟩ := words_cons_of_not_space (s := s) hd
          rw [hws]
          refine iff_of_false (List.cons_ne_nil _ _) ?_
          intro h
          rw [h d List.mem_cons_self] at hd
          cases hd

theorem words_append_ne_nil
    (hs : words isSpace s ≠ []) :
    words isSpace (s ++ t) ≠ [] := by
  intro hnil
  rw [words_eq_nil_iff] at hnil
  exact hs (words_eq_nil_iff.mpr fun c hc => hnil c (List.mem_append_left _ hc))

/-- A text that is cut within a word: the parts of the word are one word. -/
theorem words_append_of_cut
    {ts ws : List (List α)} {v w : List α}
    (hs : s ≠ [])
    (hlast : isSpace (s.getLast hs) = false)
    (ht : startsWord isSpace t = true)
    (hts : words isSpace s = ts ++ [v])
    (hws : words isSpace t = w :: ws) :
    words isSpace (s ++ t) = ts ++ (v ++ w) :: ws := by
  induction s generalizing ts v with
  | nil =>
      exact absurd rfl hs
  | cons c s ih =>
      cases s with
      | nil =>
          have hc : isSpace c = false := hlast
          rw [words_of_noSpace (by simp) (by simpa [NoSpace] using hc)] at hts
          obtain ⟨rfl, hv⟩ := List.append_eq_singleton_iff.mp hts.symm |>.resolve_right (by simp)
          obtain rfl : v = [c] := by simpa using hv
          rw [List.singleton_append, words]
          simp [hc, ht, hws, consHead]
      | cons d s =>
          have hlast' : isSpace ((d :: s).getLast (List.cons_ne_nil _ _)) = false := hlast
          have hih := fun {ts v} => @ih ts v (List.cons_ne_nil _ _) hlast'
          rw [List.cons_append, words]
          rw [words] at hts
          split at hts
          · rename_i hc
            rw [if_pos hc]
            exact hih hts
          · rename_i hc
            have hstart : startsWord isSpace (d :: s ++ t) = startsWord isSpace (d :: s) := rfl
            rw [if_neg hc, hstart]
            split at hts
            · rename_i hd
              rw [if_pos hd]
              have hne := words_ne_nil_of_startsWord hd
              have hsplit := (List.dropLast_append_getLast hne).symm
              rw [hih hsplit]
              rw [hsplit] at hts
              cases hfront : (words isSpace (d :: s)).dropLast with
              | nil =>
                  rw [hfront, List.nil_append, consHead] at hts
                  obtain ⟨rfl, hv⟩ :=
                    List.append_eq_singleton_iff.mp hts.symm |>.resolve_right (by simp)
                  rw [List.cons.inj hv |>.1]
                  rfl
              | cons x xs =>
                  rw [hfront, List.cons_append, consHead, ← List.cons_append] at hts
                  obtain ⟨rfl, hv⟩ := List.append_inj' hts rfl
                  rw [List.cons.inj hv |>.1]
                  rfl
            · rename_i hd
              rw [if_neg hd]
              cases ts with
              | nil =>
                  have hnil : words isSpace (d :: s) = [] := (List.cons.inj hts).2
                  have hspace := words_eq_nil_iff.mp hnil _
                    (List.getLast_mem (List.cons_ne_nil d s))
                  rw [hspace] at hlast'
                  cases hlast'
              | cons x xs =>
                  obtain ⟨rfl, htail⟩ := List.cons.inj hts
                  rw [hih htail, List.cons_append]

end Words
end Gamnet
