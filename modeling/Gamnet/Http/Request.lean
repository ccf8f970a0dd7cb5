import Gamnet.Lib.ByteString
import Gamnet.Lib.WhileLoop
import Mathlib.Data.List.Nodup
import Mathlib.Data.List.Lookmap

/-!
# Request parameters

The constructor of Request takes the parameter text apart. In every round it looks for
the first '=' and the first '&' of what is left: in front of the '=' is a name, between
the two is its value, and the next round begins behind the '&'. A name that is already
in the map keeps its value.

The entries that the rounds insert are a function of the text (`fields`). When the text
is a list of pairs joined by '=' and '&', the map is that list exactly when no pair but
the last one has an '&', and what the rounds find behind an '&' of the last one brings
no new name (`lookup_fields_join_iff`).
-/

namespace Gamnet
namespace Http

open Bytes

/-- The character '='. -/
def equalSign : UInt8 := 0x3D

/-- The character '&'. -/
def ampersand : UInt8 := 0x26

/-- The map params of a Request, in the order of the insertions. -/
abbrev Params : Type := List (Bytes × Bytes)

/-- The insert of a map: a name that is already there keeps its value. -/
def Params.insert (params : Params) (name value : Bytes) : Params :=
  if (params.lookup name).isSome then params else params ++ [(name, value)]

/-- One round of the constructor's loop. -/
def requestRound (s : Bytes × Params) : (Bytes × Params) ⊕ Params :=
  let param := s.1
  let params := s.2
  if ¬ 0 < param.length then .inr params
  else
    let equalPos := find param equalSign
    if equalPos = npos then .inr params
    else
      let delimPos := find param ampersand
      let delimPos := if delimPos = npos then param.length else delimPos
      let name := substr param 0 equalPos
      let value := substr param (posAdd equalPos 1) (posSub delimPos (posAdd equalPos 1))
      let params := params.insert name value
      if param.length ≤ delimPos then .inr params
      else .inl (substr param (posAdd delimPos 1) npos, params)

/-- The constructor of Request. Every round shortens the text. -/
def request (paramString : Bytes) : Option Params :=
  WhileLoop.run requestRound (paramString.length + 1) (paramString, [])

/-- The value of the first name of a text: up to the first '&', unless that one is in
the name. -/
def firstValue (s : Bytes) : Bytes :=
  if ampersand ∈ before s equalSign then after s equalSign
  else before (after s equalSign) ampersand

theorem after_length_lt
    {s : Bytes} {c : UInt8}
    (hs : s ≠ []) :
    (after s c).length < s.length := by
  have hdrop := List.length_dropWhile_le (· ≠ c) s
  have hpos := List.length_pos_of_ne_nil hs
  simp only [after, List.length_tail]
  omega

/-- The entries that the rounds insert. -/
def fields (s : Bytes) : List (Bytes × Bytes) :=
  if equalSign ∈ s then
    (before s equalSign, firstValue s) :: fields (after s ampersand)
  else []
termination_by s.length
decreasing_by
  rename_i hequal
  exact after_length_lt (List.ne_nil_of_mem hequal)

/-- All insertions. -/
def Params.insertAll (params : Params) (entries : List (Bytes × Bytes)) : Params :=
  entries.foldl (fun params e => params.insert e.1 e.2) params

theorem lookup_insert
    (params : Params) (name value x : Bytes) :
    (params.insert name value).lookup x = (params ++ [(name, value)]).lookup x := by
  unfold Params.insert
  split
  · rename_i hsome
    rw [List.lookup_append]
    by_cases hx : x = name
    · subst hx
      obtain ⟨v, hv⟩ := Option.isSome_iff_exists.mp hsome
      simp [hv]
    · have hne : (x == name) = false := beq_false_of_ne hx
      simp only [List.lookup_cons, hne, List.lookup_nil, Option.or_none]
  · rfl

/-- Behind all insertions a name has the first value it was inserted with. -/
theorem lookup_insertAll
    (params : Params) (entries : List (Bytes × Bytes)) (x : Bytes) :
    (params.insertAll entries).lookup x = (params ++ entries).lookup x := by
  induction entries generalizing params with
  | nil =>
      simp [Params.insertAll]
  | cons e entries ih =>
      have hstep : params.insertAll (e :: entries) =
          (params.insert e.1 e.2).insertAll entries := rfl
      rw [hstep, ih, List.lookup_append, lookup_insert, ← List.lookup_append,
        List.append_assoc, List.singleton_append]

section Rounds

variable {s : Bytes} {params : Params}

/-- Without '=' the loop ends. -/
theorem requestRound_of_notMem
    (hequal : equalSign ∉ s) :
    requestRound (s, params) = .inr params := by
  simp [requestRound, find_eq_npos hequal]

/-- The name that a round inserts. -/
theorem substr_find_equalSign
    (hequal : equalSign ∈ s) :
    substr s 0 (find s equalSign) = before s equalSign := by
  rw [find_of_mem hequal]
  exact take_length_before s equalSign

/-- The value that a round inserts. With an '&' in the name the difference of the
positions is below zero, and the value is the whole rest. -/
theorem substr_value
    (hlen : s.length < 2 ^ 63)
    (hequal : equalSign ∈ s) :
    substr s (posAdd (find s equalSign) 1)
      (posSub (if find s ampersand = npos then s.length else find s ampersand)
        (posAdd (find s equalSign) 1)) = firstValue s := by
  have hs := before_append_after hequal
  have hname := notMem_before s equalSign
  unfold firstValue
  rw [find_of_mem hequal]
  generalize before s equalSign = n at hs hname ⊢
  generalize after s equalSign = t at hs ⊢
  subst hs
  simp only [List.length_append, List.length_cons] at hlen
  have hnpos : npos = 2 ^ 64 - 1 := rfl
  rw [posAdd_of_lt (by omega), substr_length_succ]
  by_cases hn : ampersand ∈ n
  · have hfind : find (n ++ equalSign :: t) ampersand = (before n ampersand).length := by
      rw [find_of_mem (List.mem_append_left _ hn)]
      conv_lhs => rw [← before_append_after hn, List.append_assoc, List.cons_append]
      rw [before_append_cons (notMem_before n ampersand)]
    have hshort : (before n ampersand).length < n.length := by
      conv_rhs => rw [← before_append_after hn]
      simp only [List.length_append, List.length_cons]
      omega
    have hwrap := le_posSub_of_lt (i := (before n ampersand).length) (j := n.length + 1)
      (by omega) (by omega)
    rw [if_pos hn, hfind, if_neg (by omega), List.take_of_length_le (by omega)]
  · rw [if_neg hn]
    by_cases ht : ampersand ∈ t
    · have hfind : find (n ++ equalSign :: t) ampersand =
          n.length + 1 + (before t ampersand).length := by
        conv_lhs => rw [← before_append_after ht, ← List.cons_append, ← List.append_assoc]
        rw [find_append_cons]
        · simp only [List.length_append, List.length_cons]
          omega
        · simp only [List.mem_append, List.mem_cons, not_or]
          exact ⟨hn, by decide, notMem_before t ampersand⟩
      have hshort : (before t ampersand).length ≤ t.length :=
        (List.takeWhile_prefix _).length_le
      rw [hfind, if_neg (by omega), posSub_of_le (by omega) (by omega), Nat.add_sub_cancel_left,
        take_length_before]
    · have hnone : ampersand ∉ n ++ equalSign :: t := by
        simp only [List.mem_append, List.mem_cons, not_or]
        exact ⟨hn, by decide, ht⟩
      rw [find_eq_npos hnone, if_pos rfl, List.length_append, List.length_cons,
        posSub_of_le (by omega) (by omega), before_of_notMem ht,
        List.take_of_length_le (by omega)]

/-- A round that finds '='. -/
theorem requestRound_of_mem
    (hlen : s.length < 2 ^ 63)
    (hequal : equalSign ∈ s) :
    requestRound (s, params) =
      if ampersand ∈ s then
        .inl (after s ampersand, params.insert (before s equalSign) (firstValue s))
      else .inr (params.insert (before s equalSign) (firstValue s)) := by
  have hpos : 0 < s.length := List.length_pos_of_mem hequal
  have hnpos : npos = 2 ^ 64 - 1 := rfl
  have hname := substr_find_equalSign hequal
  have hvalue := substr_value hlen hequal
  have hfind : find s equalSign ≠ npos := by
    rw [find_of_mem hequal]
    have hle : (before s equalSign).length ≤ s.length := (List.takeWhile_prefix _).length_le
    omega
  simp only [requestRound, hpos, not_true_eq_false, if_false, hfind, hname, hvalue]
  by_cases hamp : ampersand ∈ s
  · have hs := before_append_after hamp
    have hshort : (before s ampersand).length < s.length := by
      conv_rhs => rw [← hs]
      simp only [List.length_append, List.length_cons]
      omega
    have hrest : substr s ((before s ampersand).length + 1) npos = after s ampersand := by
      conv_lhs => rw [← hs]
      rw [before_append_cons (notMem_before s ampersand), substr_length_succ]
      refine List.take_of_length_le ?_
      have hlt := after_length_lt (c := ampersand) (List.ne_nil_of_mem hamp)
      omega
    rw [find_of_mem hamp, if_neg (show (before s ampersand).length ≠ npos by omega),
      if_neg (by omega), posAdd_of_lt (by omega), hrest, if_pos hamp]
  · rw [find_eq_npos hamp, if_pos rfl, if_pos (Nat.le_refl _), if_neg hamp]

/-- The loop inserts the entries of the text. -/
theorem run_requestRound
    (n : Nat)
    (hn : s.length < n)
    (hlen : s.length < 2 ^ 63) :
    WhileLoop.run requestRound n (s, params) = some (params.insertAll (fields s)) := by
  induction n generalizing s params with
  | zero =>
      omega
  | succ n ih =>
      rw [fields]
      by_cases hequal : equalSign ∈ s
      · have hround := @requestRound_of_mem s params hlen hequal
        have hlt := after_length_lt (c := ampersand) (List.ne_nil_of_mem hequal)
        rw [if_pos hequal]
        by_cases hamp : ampersand ∈ s
        · rw [if_pos hamp] at hround
          rw [WhileLoop.run_continue hround, ih (by omega) (by omega)]
          rfl
        · rw [if_neg hamp] at hround
          rw [WhileLoop.run_done hround, after_of_notMem hamp, fields, if_neg List.not_mem_nil]
          rfl
      · rw [WhileLoop.run_done (requestRound_of_notMem hequal), if_neg hequal]
        rfl

/-- The constructor's map holds for every name the first value in the text. -/
theorem request_eq
    (hlen : s.length < 2 ^ 63) :
    request s = some (Params.insertAll [] (fields s)) :=
  run_requestRound (s.length + 1) (Nat.lt_succ_self _) hlen

end Rounds

section Pairs

/-- Pairs joined by '=' and '&'. -/
def joinPairs : List (Bytes × Bytes) → Bytes
  | [] => []
  | [(n, v)] => n ++ equalSign :: v
  | (n, v) :: p :: rest => n ++ equalSign :: (v ++ ampersand :: joinPairs (p :: rest))

/-- Only the last pair may have an '&', in its value only if its name has one, and every
text behind an '&' of it has a known name in front of its first '='. -/
def Separated (names : List Bytes) : List (Bytes × Bytes) → Prop
  | [] => True
  | [(n, v)] => (ampersand ∈ n ∨ ampersand ∉ v) ∧
      ∀ a t, n ++ equalSign :: v = a ++ ampersand :: t → equalSign ∈ t →
        before t equalSign ∈ names
  | (n, v) :: p :: rest => ampersand ∉ n ∧ ampersand ∉ v ∧ Separated names (p :: rest)

/-- The first entry of a text that begins with a name. -/
theorem fields_append_equalSign
    {n : Bytes}
    (hn : equalSign ∉ n)
    (t : Bytes) :
    fields (n ++ equalSign :: t) =
      (n, if ampersand ∈ n then t else before t ampersand) ::
        fields (after (n ++ equalSign :: t) ampersand) := by
  conv_lhs => rw [fields]
  rw [if_pos (by simp), firstValue, before_append_cons hn, after_append_cons hn]

/-- What is behind an '&': behind the first one, or behind one that follows it. -/
theorem behind_ampersand_iff
    {s t : Bytes}
    (hamp : ampersand ∈ s) :
    (t = after s ampersand ∨ ∃ a, after s ampersand = a ++ ampersand :: t) ↔
      ∃ a, s = a ++ ampersand :: t := by
  have hs := before_append_after hamp
  constructor
  · rintro (rfl | ⟨a, ha⟩)
    · exact ⟨_, hs.symm⟩
    · refine ⟨before s ampersand ++ ampersand :: a, ?_⟩
      rw [ha] at hs
      rw [List.append_assoc, List.cons_append]
      exact hs.symm
  · rintro ⟨a, rfl⟩
    by_cases hfirst : ampersand ∈ a
    · refine Or.inr ⟨after a ampersand, ?_⟩
      conv_lhs => rw [← before_append_after hfirst, List.append_assoc, List.cons_append]
      exact after_append_cons (notMem_before a ampersand)
    · exact Or.inl (after_append_cons hfirst).symm

/-- The names of a text: of the text itself, and of what is behind each '&'. -/
theorem mem_names_fields
    {s x : Bytes} :
    x ∈ (fields s).map Prod.fst ↔
      ∃ t, (t = s ∨ ∃ a, s = a ++ ampersand :: t) ∧ equalSign ∈ t ∧ before t equalSign = x := by
  induction s using fields.induct with
  | case1 s hequal ih =>
      rw [fields, if_pos hequal, List.map_cons, List.mem_cons, ih]
      constructor
      · rintro (rfl | ⟨t, hbehind, ht, rfl⟩)
        · exact ⟨s, Or.inl rfl, hequal, rfl⟩
        · have hamp : ampersand ∈ s := by
            by_contra hamp
            rw [after_of_notMem hamp] at hbehind
            rcases hbehind with rfl | ⟨a, ha⟩
            · cases ht
            · simp at ha
          exact ⟨t, Or.inr ((behind_ampersand_iff hamp).mp hbehind), ht, rfl⟩
      · rintro ⟨t, rfl | ⟨a, ha⟩, ht, rfl⟩
        · exact Or.inl rfl
        · have hamp : ampersand ∈ s := by
            simp [ha]
          exact Or.inr ⟨t, (behind_ampersand_iff hamp).mpr ⟨a, ha⟩, ht, rfl⟩
  | case2 s hequal =>
      rw [fields, if_neg hequal]
      constructor
      · intro hx
        cases hx
      · rintro ⟨t, rfl | ⟨a, ha⟩, ht, _⟩
        · exact absurd ht hequal
        · rw [ha] at hequal
          exact absurd (List.mem_append_right _ (List.mem_cons_of_mem _ ht)) hequal

theorem lookup_eq_none_iff_names
    {l : List (Bytes × Bytes)} {x : Bytes} :
    l.lookup x = none ↔ x ∉ l.map Prod.fst := by
  simp only [List.lookup_eq_none_iff, bne_iff_ne, ne_eq, List.mem_map, not_exists, not_and]
  exact ⟨fun h e he hx => h e he hx.symm, fun h e he hx => h e he hx.symm⟩

/-- Entries behind a list change no lookup exactly when they bring no new name. -/
theorem lookup_append_iff
    {l entries : List (Bytes × Bytes)} :
    (∀ x, (l ++ entries).lookup x = l.lookup x) ↔
      ∀ x ∈ entries.map Prod.fst, x ∈ l.map Prod.fst := by
  simp only [List.lookup_append]
  constructor
  · intro h x hx
    by_contra hnew
    have hnone := lookup_eq_none_iff_names.mpr hnew
    have hentry := h x
    rw [hnone, Option.none_or, lookup_eq_none_iff_names] at hentry
    exact hentry hx
  · intro h x
    cases hl : l.lookup x with
    | some v =>
        rfl
    | none =>
        rw [Option.none_or, lookup_eq_none_iff_names]
        intro hx
        exact lookup_eq_none_iff_names.mp hl (h x hx)

/-- A name behind a list that does not have it. -/
theorem lookup_append_cons
    {l rest : List (Bytes × Bytes)} {n v : Bytes}
    (hn : n ∉ l.map Prod.fst) :
    (l ++ (n, v) :: rest).lookup n = some v := by
  rw [List.lookup_append, lookup_eq_none_iff_names.mpr hn, Option.none_or,
    List.lookup_cons_self]

/-- The entries of joined pairs, behind pairs in front of them, have the lookups of the
pairs exactly when the pairs are separated. The induction is on the pairs that are
left. -/
theorem lookup_fields_joinPairs_iff
    {front pairs : List (Bytes × Bytes)}
    (hdistinct : ((front ++ pairs).map Prod.fst).Nodup)
    (hequal : ∀ p ∈ pairs, equalSign ∉ p.1) :
    (∀ x, (front ++ fields (joinPairs pairs)).lookup x = (front ++ pairs).lookup x) ↔
      Separated ((front ++ pairs).map Prod.fst) pairs := by
  induction pairs generalizing front with
  | nil =>
      simp [joinPairs, Separated, fields]
  | cons p rest ih =>
      obtain ⟨n, v⟩ := p
      have hn : equalSign ∉ n := hequal (n, v) List.mem_cons_self
      have hnew : n ∉ front.map Prod.fst := by
        intro hmem
        rw [List.map_append, List.map_cons, List.nodup_append] at hdistinct
        exact hdistinct.2.2 n hmem n List.mem_cons_self rfl
      have hvalue : (front ++ (n, v) :: rest).lookup n = some v := lookup_append_cons hnew
      cases rest with
      | nil =>
          simp only [joinPairs, Separated]
          rw [fields_append_equalSign hn]
          by_cases hname : ampersand ∈ n
          · have hamp : ampersand ∈ n ++ equalSign :: v := List.mem_append_left _ hname
            rw [if_pos hname, ← List.singleton_append, ← List.append_assoc, lookup_append_iff]
            simp only [mem_names_fields, behind_ampersand_iff hamp]
            constructor
            · intro h
              exact ⟨Or.inl hname, fun a t ha ht => h _ ⟨t, ⟨a, ha⟩, ht, rfl⟩⟩
            · rintro ⟨_, h⟩ x ⟨t, ⟨a, ha⟩, ht, rfl⟩
              exact h a t ha ht
          · rw [if_neg hname]
            by_cases hval : ampersand ∈ v
            · refine iff_of_false ?_ ?_
              · intro h
                have hwrong := h n
                rw [lookup_append_cons hnew, hvalue, Option.some.injEq] at hwrong
                exact notMem_before v ampersand (by rw [hwrong]; exact hval)
              · rintro ⟨h | h, _⟩
                · exact hname h
                · exact h hval
            · have hamp : ampersand ∉ n ++ equalSign :: v := by
                simp only [List.mem_append, List.mem_cons, not_or]
                exact ⟨hname, by decide, hval⟩
              refine iff_of_true ?_ ⟨Or.inr hval, ?_⟩
              · intro x
                rw [before_of_notMem hval, after_of_notMem hamp, fields,
                  if_neg List.not_mem_nil]
              · intro a t ha
                rw [ha] at hamp
                simp at hamp
      | cons q rest =>
          simp only [joinPairs, Separated]
          rw [fields_append_equalSign hn]
          by_cases hname : ampersand ∈ n
          · refine iff_of_false ?_ (fun h => h.1 hname)
            intro h
            have hwrong := h n
            rw [if_pos hname, lookup_append_cons hnew, hvalue] at hwrong
            simp at hwrong
          · rw [if_neg hname]
            by_cases hval : ampersand ∈ v
            · refine iff_of_false ?_ (fun h => h.2.1 hval)
              intro h
              have hwrong := h n
              rw [lookup_append_cons hnew, hvalue, Option.some.injEq] at hwrong
              exact notMem_before _ ampersand (by rw [hwrong]; exact hval)
            · have hrest : after (n ++ equalSign :: (v ++ ampersand :: joinPairs (q :: rest)))
                  ampersand = joinPairs (q :: rest) := by
                rw [← List.cons_append, ← List.append_assoc]
                refine after_append_cons ?_
                simp only [List.mem_append, List.mem_cons, not_or]
                exact ⟨hname, by decide, hval⟩
              have hih := @ih (front ++ [(n, v)]) (by simpa using hdistinct)
                (fun p hp => hequal p (List.mem_cons_of_mem _ hp))
              rw [before_append_cons hval, hrest]
              simp only [List.append_assoc, List.singleton_append] at hih
              rw [hih]
              exact ⟨fun h => ⟨hname, hval, h⟩, fun h => h.2.2⟩

/-- A name has no '=', and names and values are made of bytes of the text. -/
theorem mem_fields
    {s : Bytes} {e : Bytes × Bytes}
    (he : e ∈ fields s) :
    equalSign ∉ e.1 ∧ (∀ b ∈ e.1, b ∈ s) ∧ ∀ b ∈ e.2, b ∈ s := by
  induction s using fields.induct with
  | case1 s hequal ih =>
      rw [fields, if_pos hequal] at he
      rcases List.mem_cons.mp he with rfl | he
      · refine ⟨notMem_before s equalSign, fun b hb => mem_of_mem_before hb, ?_⟩
        intro b hb
        unfold firstValue at hb
        split at hb
        · exact mem_of_mem_after hb
        · exact mem_of_mem_after (mem_of_mem_before hb)
      · obtain ⟨hname, hfst, hsnd⟩ := ih he
        exact ⟨hname, fun b hb => mem_of_mem_after (hfst b hb),
          fun b hb => mem_of_mem_after (hsnd b hb)⟩
  | case2 s hequal =>
      rw [fields, if_neg hequal] at he
      cases he

theorem zero_notMem_joinPairs
    {pairs : List (Bytes × Bytes)}
    (hzero : ∀ p ∈ pairs, 0 ∉ p.1 ∧ 0 ∉ p.2) :
    0 ∉ joinPairs pairs := by
  induction pairs with
  | nil =>
      exact List.not_mem_nil
  | cons p rest ih =>
      obtain ⟨n, v⟩ := p
      obtain ⟨hn, hv⟩ := hzero (n, v) List.mem_cons_self
      have hrest := ih fun p hp => hzero p (List.mem_cons_of_mem _ hp)
      cases rest with
      | nil =>
          simp only [joinPairs, List.mem_append, List.mem_cons, not_or]
          exact ⟨hn, by decide, hv⟩
      | cons q rest =>
          simp only [joinPairs, List.mem_append, List.mem_cons, not_or]
          exact ⟨hn, by decide, hv, by decide, hrest⟩

/-- The pairs come back from the text, read as a C string, exactly when they have no
zero byte, the names have no '=', and they are separated. -/
theorem lookup_fields_join_iff
    {pairs : List (Bytes × Bytes)}
    (hdistinct : (pairs.map Prod.fst).Nodup) :
    (∀ x, (fields (cString (joinPairs pairs))).lookup x = pairs.lookup x) ↔
      (∀ p ∈ pairs, 0 ∉ p.1 ∧ 0 ∉ p.2 ∧ equalSign ∉ p.1) ∧
        Separated (pairs.map Prod.fst) pairs := by
  have hback : (∀ p ∈ pairs, 0 ∉ p.1 ∧ 0 ∉ p.2 ∧ equalSign ∉ p.1) →
      ((∀ x, (fields (cString (joinPairs pairs))).lookup x = pairs.lookup x) ↔
        Separated (pairs.map Prod.fst) pairs) := by
    intro hclean
    have hzero : 0 ∉ joinPairs pairs :=
      zero_notMem_joinPairs fun p hp => ⟨(hclean p hp).1, (hclean p hp).2.1⟩
    rw [cString_of_notMem hzero]
    exact @lookup_fields_joinPairs_iff [] pairs (by simpa using hdistinct)
      (fun p hp => (hclean p hp).2.2)
  refine ⟨?_, fun ⟨hclean, hsep⟩ => (hback hclean).mpr hsep⟩
  intro h
  have hclean : ∀ p ∈ pairs, 0 ∉ p.1 ∧ 0 ∉ p.2 ∧ equalSign ∉ p.1 := by
    intro p hp
    obtain ⟨l₁, l₂, rfl⟩ := List.append_of_mem hp
    have hnew : p.1 ∉ l₁.map Prod.fst := by
      intro hmem
      rw [List.map_append, List.map_cons, List.nodup_append] at hdistinct
      exact hdistinct.2.2 p.1 hmem p.1 List.mem_cons_self rfl
    have hentry := h p.1
    rw [lookup_append_cons hnew, List.lookup_eq_some_iff] at hentry
    obtain ⟨k₁, k₂, hk, _⟩ := hentry
    obtain ⟨hname, hfst, hsnd⟩ := mem_fields (e := p) (by rw [hk]; simp)
    have hzero := zero_notMem_cString (joinPairs (l₁ ++ p :: l₂))
    exact ⟨fun h0 => hzero (hfst 0 h0), fun h0 => hzero (hsnd 0 h0), hname⟩
  exact ⟨hclean, (hback hclean).mp h⟩

end Pairs

end Http
end Gamnet
