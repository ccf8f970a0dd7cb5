import Gamnet.Http.Request

/-!
# What a query string should give

A query string is divided at each '&'. A piece with an '=' is a name and a value, divided at
its first '=', and a piece without one is ignored. A name that comes again keeps its first
value.

The constructor of Request looks for the next '=' and the next '&' independently. It gives
these parameters exactly if no piece without '=' comes before one with an '='
(`request_meets_iff`).
-/

namespace Gamnet
namespace Http

open Bytes

/-- The pieces of a query string. -/
def pieces (s : Bytes) : List Bytes :=
  s.splitOn ampersand

/-- The name and the value of a piece. -/
def pieceField (piece : Bytes) : Option (Bytes × Bytes) :=
  if equalSign ∈ piece then some (before piece equalSign, after piece equalSign) else none

/-- The parameters of a query string, with the first value of a name before its others. -/
def queryFields (s : Bytes) : List (Bytes × Bytes) :=
  (pieces s).filterMap pieceField

/-- Request terminates with these parameters. -/
def Meets (s : Bytes) : Prop :=
  ∃ params, request s = some params ∧ ∀ x, params.lookup x = (queryFields s).lookup x

/-- If a piece has an '=', so has each piece before it. -/
def Regular (pieces : List Bytes) : Prop :=
  pieces.Pairwise fun piece later => equalSign ∈ later → equalSign ∈ piece

section Pieces

variable {s : Bytes}

theorem pieces_of_notMem
    (hamp : ampersand ∉ s) :
    pieces s = [s] :=
  List.splitOn_eq_singleton hamp

theorem pieces_of_mem
    (hamp : ampersand ∈ s) :
    pieces s = before s ampersand :: pieces (after s ampersand) := by
  conv_lhs => rw [← before_append_after hamp]
  exact List.splitOn_append_cons_self_of_not_mem (notMem_before s ampersand) _

/-- An induction on the number of the pieces. -/
@[elab_as_elim]
theorem pieces_induction
    {motive : Bytes → Prop}
    (single : ∀ s, ampersand ∉ s → motive s)
    (more : ∀ s, ampersand ∈ s → motive (after s ampersand) → motive s)
    (s : Bytes) :
    motive s := by
  induction hn : s.length using Nat.strongRecOn generalizing s with
  | ind n ih =>
      by_cases hamp : ampersand ∈ s
      · refine more s hamp (ih _ ?_ _ rfl)
        rw [← hn]
        exact after_length_lt (List.ne_nil_of_mem hamp)
      · exact single s hamp

theorem ampersand_notMem_of_mem_pieces
    {piece : Bytes}
    (hpiece : piece ∈ pieces s) :
    ampersand ∉ piece := by
  induction s using pieces_induction with
  | single s hamp =>
      rw [pieces_of_notMem hamp, List.mem_singleton] at hpiece
      rw [hpiece]
      exact hamp
  | more s hamp ih =>
      rw [pieces_of_mem hamp, List.mem_cons] at hpiece
      rcases hpiece with rfl | hpiece
      · exact notMem_before s ampersand
      · exact ih hpiece

/-- A text has an '=' exactly if one of its pieces has. -/
theorem equalSign_mem_iff :
    equalSign ∈ s ↔ ∃ piece ∈ pieces s, equalSign ∈ piece := by
  induction s using pieces_induction with
  | single s hamp =>
      simp [pieces_of_notMem hamp]
  | more s hamp ih =>
      have hparts : equalSign ∈ s ↔
          equalSign ∈ before s ampersand ∨ equalSign ∈ after s ampersand := by
        conv_lhs => rw [← before_append_after hamp]
        rw [List.mem_append, List.mem_cons]
        simp [show equalSign ≠ ampersand by decide]
      rw [hparts, ih, pieces_of_mem hamp]
      simp

theorem ampersand_notMem_of_queryFields
    {e : Bytes × Bytes}
    (he : e ∈ queryFields s) :
    ampersand ∉ e.1 := by
  obtain ⟨piece, hpiece, hfield⟩ := List.mem_filterMap.mp he
  unfold pieceField at hfield
  split at hfield
  · cases hfield
    exact fun hamp => ampersand_notMem_of_mem_pieces hpiece (mem_of_mem_before hamp)
  · cases hfield

end Pieces

section Rounds

/-- The first round of a text whose first piece has an '='. -/
theorem firstEntry_eq
    {s : Bytes}
    (hamp : ampersand ∈ s)
    (hequal : equalSign ∈ before s ampersand) :
    before s equalSign = before (before s ampersand) equalSign ∧
      firstValue s = after (before s ampersand) equalSign := by
  have hpiece := notMem_before s ampersand
  have hs := before_append_after hamp
  generalize before s ampersand = piece at *
  have hparts := before_append_after hequal
  have hname : ampersand ∉ before piece equalSign := fun h => hpiece (mem_of_mem_before h)
  have hvalue : ampersand ∉ after piece equalSign := fun h => hpiece (mem_of_mem_after h)
  have hsplit : s = before piece equalSign ++ equalSign ::
      (after piece equalSign ++ ampersand :: after s ampersand) := by
    refine hs.symm.trans ?_
    conv_lhs => rw [← hparts]
    rw [List.append_assoc, List.cons_append]
  have hbefore : before s equalSign = before piece equalSign := by
    rw [hsplit]
    exact before_append_cons (notMem_before piece equalSign)
  have hafter : after s equalSign = after piece equalSign ++ ampersand :: after s ampersand := by
    conv_lhs => rw [hsplit]
    exact after_append_cons (notMem_before piece equalSign)
  refine ⟨hbefore, ?_⟩
  rw [firstValue, hbefore, if_neg hname, hafter]
  exact before_append_cons hvalue

/-- The rounds insert the fields of a regular text. -/
theorem fields_eq_of_regular
    {s : Bytes}
    (hregular : Regular (pieces s)) :
    fields s = queryFields s := by
  induction s using pieces_induction with
  | single s hamp =>
      have hname : ampersand ∉ before s equalSign := fun h => hamp (mem_of_mem_before h)
      have hvalue : ampersand ∉ after s equalSign := fun h => hamp (mem_of_mem_after h)
      have hend : fields [] = [] := by
        rw [fields, if_neg List.not_mem_nil]
      rw [queryFields, pieces_of_notMem hamp, List.filterMap_cons, List.filterMap_nil, fields,
        firstValue, after_of_notMem hamp, if_neg hname, before_of_notMem hvalue, hend, pieceField]
      split
      · rfl
      · rfl
  | more s hamp ih =>
      rw [Regular, pieces_of_mem hamp, List.pairwise_cons] at hregular
      rw [queryFields, pieces_of_mem hamp, List.filterMap_cons, ← queryFields,
        ← ih hregular.2, pieceField, fields]
      by_cases hequal : equalSign ∈ before s ampersand
      · obtain ⟨hname, hvalue⟩ := firstEntry_eq hamp hequal
        rw [if_pos (mem_of_mem_before hequal), if_pos hequal, hname, hvalue]
      · -- no later piece has an '=' either
        have hlater : equalSign ∉ after s ampersand := by
          rw [equalSign_mem_iff]
          rintro ⟨piece, hpiece, hmem⟩
          exact hequal (hregular.1 piece hpiece hmem)
        have hnone : equalSign ∉ s := by
          rw [equalSign_mem_iff, pieces_of_mem hamp]
          rintro ⟨piece, hpiece, hmem⟩
          rcases List.mem_cons.mp hpiece with rfl | hpiece
          · exact hequal hmem
          · exact hlater (equalSign_mem_iff.mpr ⟨piece, hpiece, hmem⟩)
        rw [if_neg hnone, if_neg hequal, fields, if_neg hlater]

/-- Of another text they insert a name with an '&'. -/
theorem exists_ampersand_of_not_regular
    {s : Bytes}
    (hregular : ¬Regular (pieces s)) :
    ∃ x ∈ (fields s).map Prod.fst, ampersand ∈ x := by
  induction s using pieces_induction with
  | single s hamp =>
      refine absurd ?_ hregular
      rw [pieces_of_notMem hamp]
      exact List.pairwise_singleton _ _
  | more s hamp ih =>
      rw [Regular, pieces_of_mem hamp, List.pairwise_cons, not_and_or] at hregular
      have hlater : equalSign ∈ after s ampersand → equalSign ∈ s := mem_of_mem_after
      rcases hregular with hfirst | hrest
      · simp only [not_forall] at hfirst
        obtain ⟨piece, hpiece, hmem, hequal⟩ := hfirst
        have hrest := equalSign_mem_iff.mpr ⟨piece, hpiece, hmem⟩
        -- the name of the first round goes on behind the first piece
        have hname : before s equalSign =
            before s ampersand ++ ampersand :: before (after s ampersand) equalSign := by
          have hs := before_append_after hamp
          generalize before s ampersand = first at *
          rw [← before_append_after hrest] at hs
          conv_lhs => rw [← hs, ← List.cons_append, ← List.append_assoc]
          refine before_append_cons ?_
          simp only [List.mem_append, List.mem_cons, not_or]
          exact ⟨hequal, by decide, notMem_before _ equalSign⟩
        refine ⟨before s equalSign, ?_, ?_⟩
        · rw [fields, if_pos (hlater hrest)]
          exact List.mem_cons_self
        · rw [hname]
          exact List.mem_append_right _ List.mem_cons_self
      · obtain ⟨x, hx, hampersand⟩ := ih hrest
        have hequal : equalSign ∈ after s ampersand := by
          by_contra hnone
          rw [fields, if_neg hnone] at hx
          cases hx
        refine ⟨x, ?_, hampersand⟩
        rw [fields, if_pos (hlater hequal)]
        exact List.mem_cons_of_mem _ hx

end Rounds

/-- The constructor of Request meets the specification of a query string if and only if no
piece without '=' comes before one that has an '='. -/
theorem request_meets_iff
    (s : Bytes)
    (hlen : s.length < 2 ^ 63) :
    Meets s ↔ Regular (pieces s) := by
  have hlookup : Meets s ↔ ∀ x, (fields s).lookup x = (queryFields s).lookup x := by
    unfold Meets
    rw [request_eq hlen]
    simp only [Option.some.injEq, exists_eq_left', lookup_insertAll, List.nil_append]
  rw [hlookup]
  constructor
  · intro h
    by_contra hregular
    obtain ⟨x, hx, hamp⟩ := exists_ampersand_of_not_regular hregular
    have hname := h x
    have hnone : (queryFields s).lookup x = none := by
      rw [lookup_eq_none_iff_names]
      rintro hmem
      obtain ⟨e, he, rfl⟩ := List.mem_map.mp hmem
      exact ampersand_notMem_of_queryFields he hamp
    rw [hnone, lookup_eq_none_iff_names] at hname
    exact hname hx
  · intro hregular x
    rw [fields_eq_of_regular hregular]

/-- The text "a=1&b". -/
theorem request_meets_iff_last :
    Meets [0x61, equalSign, 0x31, ampersand, 0x62] ↔
      Regular (pieces [0x61, equalSign, 0x31, ampersand, 0x62]) :=
  request_meets_iff _ (by decide)

/-- The text "a&b=1" gives the name "a&b" beside the name "b". -/
theorem request_not_meets :
    ¬∀ s : Bytes, s.length < 2 ^ 63 → Meets s := by
  intro h
  obtain ⟨params, hparams, hlookup⟩ :=
    h [0x61, ampersand, 0x62, equalSign, 0x31] (by decide)
  have hrun : request [0x61, ampersand, 0x62, equalSign, 0x31] =
      some [([0x61, ampersand, 0x62], [0x31]), ([0x62], [0x31])] := by
    decide
  cases hrun.symm.trans hparams
  have hname := hlookup [0x61, ampersand, 0x62]
  revert hname
  decide

end Http
end Gamnet
