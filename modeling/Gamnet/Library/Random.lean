import Gamnet.Lib.WeightedTable
import Mathlib.Data.List.Induction

/-!
# Draws by weight

WeightRandom keeps the running sums of the weights in a table and looks a draw up there. The
sum is raised before it is compared with the limit, so that a call that throws leaves its
weight in the sum and not in the table, and a sum above 2 ^ 32 wraps.

In every sequence of calls, behind each of them the sum is that of the accepted weights and
each value is drawn as often as its weight tells, exactly if the weights of all calls do not
exceed the limit (`weightRandom_draws_iff`).
-/

namespace Gamnet

open WeightedTable

/-- The fields, with the values of the table beside their running sums. -/
structure WeightRandom (α : Type) where
  totalWeight : UInt32
  valWeight : List (UInt32 × α)

namespace WeightRandom

variable {α : Type}

def maxWeightConstraint : UInt32 := 9999999

def initial : WeightRandom α where
  totalWeight := 0
  valWeight := []

/-- SetWeight, with false if it throws overflow_error. -/
def setWeight (g : WeightRandom α) (value : α) (weight : UInt32) : Bool × WeightRandom α :=
  if weight = 0 then (true, g)
  else
    let g := { g with totalWeight := g.totalWeight + weight }
    if maxWeightConstraint < g.totalWeight then (false, g)
    else (true, { g with valWeight := g.valWeight ++ [(g.totalWeight, value)] })

/-- Random for a draw, or none if it throws underflow_error. -/
def random (g : WeightRandom α) (r : UInt32) : Option α :=
  match g.valWeight.getLast? with
  | none => none
  | some back =>
      match g.valWeight.find? fun itr => r < itr.1 with
      | some itr => some itr.2
      | none => some back.2

/-- The generator behind calls of SetWeight. -/
def after (g : WeightRandom α) (calls : List (α × UInt32)) : WeightRandom α :=
  calls.foldl (fun g call => (g.setWeight call.1 call.2).2) g

/-- The calls that do not throw. -/
def accepted (g : WeightRandom α) : List (α × UInt32) → List (α × UInt32)
  | [] => []
  | call :: calls =>
      let r := g.setWeight call.1 call.2
      if r.1 then call :: r.2.accepted calls else r.2.accepted calls

/-- The sum of the weights, which does not wrap. -/
def weights (calls : List (α × UInt32)) : Nat :=
  (calls.map fun call => call.2.toNat).sum

/-- If a weight was accepted, the sum is that of the accepted ones, and each value is drawn
as often as its weight tells. -/
def Draws [DecidableEq α] (calls : List (α × UInt32)) : Prop :=
  (∃ call ∈ initial.accepted calls, call.2 ≠ 0) →
    (initial.after calls).totalWeight.toNat = weights (initial.accepted calls) ∧
      ∀ call ∈ initial.accepted calls,
        ((List.range (initial.after calls).totalWeight.toNat).countP fun r =>
          (initial.after calls).random (UInt32.ofNat r) = some call.1) = call.2.toNat

section Calls

variable (g : WeightRandom α) (calls : List (α × UInt32)) (call : α × UInt32)

theorem after_append :
    g.after (calls ++ [call]) = ((g.after calls).setWeight call.1 call.2).2 :=
  List.foldl_concat ..

theorem accepted_append :
    g.accepted (calls ++ [call]) =
      g.accepted calls ++
        if ((g.after calls).setWeight call.1 call.2).1 then [call] else [] := by
  induction calls generalizing g with
  | nil => rfl
  | cons first calls ih =>
      simp only [List.cons_append, accepted, ih]
      split
      · rfl
      · rfl

theorem weights_append
    (more : List (α × UInt32)) :
    weights (calls ++ more) = weights calls + weights more := by
  simp [weights]

theorem weights_singleton :
    weights [call] = call.2.toNat := by
  simp [weights]

theorem setWeight_zero
    (value : α) :
    g.setWeight value 0 = (true, g) :=
  rfl

theorem setWeight_ne_zero
    {weight : UInt32}
    (hweight : weight ≠ 0)
    (value : α) :
    (g.setWeight value weight).2.totalWeight = g.totalWeight + weight ∧
      ((g.setWeight value weight).1 = true ↔
        (g.totalWeight.toNat + weight.toNat) % 2 ^ 32 ≤ 9999999) ∧
        ((g.setWeight value weight).1 = true →
          (g.setWeight value weight).2.valWeight =
            g.valWeight ++ [(g.totalWeight + weight, value)]) := by
  have hsum : maxWeightConstraint < g.totalWeight + weight ↔
      ¬(g.totalWeight.toNat + weight.toNat) % 2 ^ 32 ≤ 9999999 := by
    rw [UInt32.lt_iff_toNat_lt, UInt32.toNat_add, Nat.not_le]
    rfl
  unfold setWeight
  rw [if_neg hweight]
  dsimp only
  split
  · rename_i hover
    exact ⟨rfl, iff_of_false (by simp) (hsum.mp hover), fun h => by cases h⟩
  · rename_i hover
    exact ⟨rfl, iff_of_true rfl (not_not.mp fun h => hover (hsum.mpr h)), fun _ => rfl⟩

end Calls

/-- The values that get an entry, with their weights. -/
def items (calls : List (α × UInt32)) : List (α × Nat) :=
  (calls.filter fun call => call.2 ≠ 0).map fun call => (call.1, call.2.toNat)

theorem items_append
    (calls : List (α × UInt32)) (call : α × UInt32) :
    items (calls ++ [call]) =
      items calls ++ if call.2 = 0 then [] else [(call.1, call.2.toNat)] := by
  unfold items
  rw [List.filter_append, List.map_append]
  by_cases h : call.2 = 0
  · simp [h]
  · simp [h]

theorem total_items
    (calls : List (α × UInt32)) :
    total (items calls) = weights calls := by
  induction calls using List.reverseRecOn with
  | nil => rfl
  | append_singleton calls call ih =>
      rw [items_append, total_append, weights_append, weights_singleton, ih]
      split
      · rename_i hzero
        rw [hzero]
        rfl
      · rfl

/-- What the calls leave as long as their weights are within the limit. -/
structure Within (calls : List (α × UInt32)) : Prop where
  accepts : initial.accepted calls = calls
  sum : (initial.after calls).totalWeight.toNat = weights calls
  entries : ((initial.after calls).valWeight.map fun itr => (itr.1.toNat, itr.2)) =
    table 0 (items calls)

theorem within_of_le
    {calls : List (α × UInt32)}
    (hle : weights calls ≤ 9999999) :
    Within calls := by
  induction calls using List.reverseRecOn with
  | nil => exact ⟨rfl, rfl, rfl⟩
  | append_singleton calls call ih =>
      rw [weights_append, weights_singleton] at hle
      obtain ⟨haccepted, htotal, htable⟩ := ih (by omega)
      obtain ⟨value, weight⟩ := call
      dsimp only at hle
      by_cases hzero : weight = 0
      · subst hzero
        refine ⟨?_, ?_, ?_⟩
        · rw [accepted_append, haccepted]
          rfl
        · rw [after_append, weights_append, weights_singleton]
          exact htotal
        · rw [after_append, items_append, if_pos rfl, List.append_nil]
          exact htable
      · obtain ⟨hsum, hreturns, hentry⟩ :=
          setWeight_ne_zero (initial.after calls) hzero value
        have hlt : weights calls + weight.toNat < 2 ^ 32 := by
          omega
        rw [htotal, Nat.mod_eq_of_lt hlt] at hreturns
        have htrue := hreturns.mpr hle
        have hraised : ((initial.after calls).totalWeight + weight).toNat =
            weights calls + weight.toNat := by
          rw [UInt32.toNat_add, htotal, Nat.mod_eq_of_lt hlt]
        refine ⟨?_, ?_, ?_⟩
        · rw [accepted_append, haccepted]
          simp only [htrue, if_true]
        · rw [after_append, weights_append, weights_singleton, hsum]
          exact hraised
        · rw [after_append, items_append, if_neg hzero, hentry htrue, List.map_append, htable,
            table_append, total_items]
          simp only [List.map_cons, List.map_nil, table, hraised, Nat.zero_add]

/-- Within the limit a draw is looked up in the table. -/
theorem Within.random_eq
    {calls : List (α × UInt32)}
    (h : Within calls)
    {r : Nat}
    (hr : r < (initial.after calls).totalWeight.toNat) :
    (initial.after calls).random (UInt32.ofNat r) =
      lookup (table 0 (items calls)) r := by
  have hbelow : r < 0 + total (items calls) := by
    rw [Nat.zero_add, total_items, ← h.sum]
    exact hr
  have hsome := lookup_isSome hbelow (Nat.zero_le r)
  have hdraw : (UInt32.ofNat r).toNat = r :=
    UInt32.toNat_ofNat_of_lt (Nat.lt_trans hr (UInt32.toNat_lt _))
  have hlookup : lookup (table 0 (items calls)) r =
      ((initial.after calls).valWeight.find? fun itr => UInt32.ofNat r < itr.1).map Prod.snd := by
    unfold lookup
    have hcompare : ((fun entry : Nat × α => decide (r < entry.1)) ∘
        fun itr : UInt32 × α => (itr.1.toNat, itr.2)) =
          fun itr => decide (UInt32.ofNat r < itr.1) := by
      funext itr
      simp only [Function.comp, UInt32.lt_iff_toNat_lt, hdraw]
    rw [← h.entries, List.find?_map, Option.map_map, hcompare]
    rfl
  rw [hlookup] at hsome ⊢
  unfold random
  cases hlast : (initial.after calls).valWeight.getLast? with
  | none =>
      rw [List.getLast?_eq_none_iff.mp hlast] at hsome
      cases hsome
  | some back =>
      cases hfind : (initial.after calls).valWeight.find? fun itr => UInt32.ofNat r < itr.1 with
      | none =>
          rw [hfind] at hsome
          cases hsome
      | some itr => rfl

variable [DecidableEq α]

theorem Within.draws_of_distinct
    {calls : List (α × UInt32)}
    (h : Within calls)
    (hdistinct : (calls.map Prod.fst).Nodup) :
    Draws calls := by
  intro _
  rw [h.accepts]
  refine ⟨h.sum, fun call hcall => ?_⟩
  have hrange : (List.range (initial.after calls).totalWeight.toNat) =
      List.range' 0 (total (items calls)) := by
    rw [h.sum, total_items, List.range_eq_range']
  have hdraws : ((List.range (initial.after calls).totalWeight.toNat).countP fun r =>
      (initial.after calls).random (UInt32.ofNat r) = some call.1) =
        draws 0 (items calls) call.1 := by
    unfold draws
    rw [← hrange]
    refine List.countP_congr fun r hr => ?_
    rw [h.random_eq (List.mem_range.mp hr)]
  have hitems : ((items calls).map Prod.fst).Nodup := by
    unfold items
    rw [List.map_map]
    exact hdistinct.sublist (List.filter_sublist.map Prod.fst)
  rw [hdraws]
  by_cases hzero : call.2 = 0
  · -- a value of weight zero has no entry, and no other call has the value
    rw [hzero]
    refine draws_of_not_mem (fun hmem => ?_) 0
    obtain ⟨item, hitem, hvalue⟩ := List.mem_map.mp hmem
    obtain ⟨other, hother, rfl⟩ := List.mem_map.mp hitem
    obtain ⟨hother, hne⟩ := List.mem_filter.mp hother
    cases List.inj_on_of_nodup_map hdistinct hother hcall hvalue
    simp [hzero] at hne
  · refine draws_eq_weight hitems ?_ 0
    refine List.mem_map.mpr ⟨call, List.mem_filter.mpr ⟨hcall, ?_⟩, rfl⟩
    simpa using hzero

omit [DecidableEq α] in
/-- If no weight was accepted, there was none, or the sum is above the limit. -/
theorem rejected
    {calls : List (α × UInt32)}
    (hnone : ∀ call ∈ initial.accepted calls, call.2 = 0) :
    weights calls = 0 ∨ 9999999 < (initial.after calls).totalWeight.toNat := by
  induction calls using List.reverseRecOn with
  | nil => exact .inl rfl
  | append_singleton calls call ih =>
      rw [accepted_append] at hnone
      obtain ⟨value, weight⟩ := call
      by_cases hzero : weight = 0
      · subst hzero
        rw [weights_append, weights_singleton, after_append]
        exact ih fun call hcall => hnone call (List.mem_append_left _ hcall)
      · obtain ⟨hsum, hreturns, -⟩ := setWeight_ne_zero (initial.after calls) hzero value
        refine .inr ?_
        by_contra hle
        rw [after_append, hsum, UInt32.toNat_add, Nat.not_lt] at hle
        have htrue := hreturns.mpr hle
        simp only [htrue, if_true] at hnone
        exact hzero (hnone (value, weight) (List.mem_append_right _ List.mem_cons_self))

omit [DecidableEq α] in
theorem weights_of_none
    {accepted : List (α × UInt32)}
    (hnone : ∀ call ∈ accepted, call.2 = 0) :
    weights accepted = 0 := by
  induction accepted with
  | nil => rfl
  | cons call accepted ih =>
      have hrest := ih fun other hother => hnone other (List.mem_cons_of_mem call hother)
      simp only [weights, List.map_cons, List.sum_cons] at hrest ⊢
      rw [hnone call List.mem_cons_self, hrest]
      rfl

/-- The weights are within the limit if the sum is right behind every call. -/
theorem weights_le_of_draws
    {calls : List (α × UInt32)}
    (haccepted : ∃ call ∈ initial.accepted calls, call.2 ≠ 0)
    (hdraws : ∀ pre, pre <+: calls → Draws pre) :
    weights calls ≤ 9999999 := by
  induction calls using List.reverseRecOn with
  | nil => exact Nat.zero_le _
  | append_singleton calls call ih =>
      have hlast := (hdraws _ List.prefix_rfl haccepted).1
      obtain ⟨value, weight⟩ := call
      rw [weights_append, weights_singleton]
      dsimp only
      by_cases hzero : weight = 0
      · subst hzero
        refine ih ?_ fun pre hpre => hdraws pre (hpre.trans (List.prefix_append _ _))
        obtain ⟨call, hcall, hne⟩ := haccepted
        rw [accepted_append] at hcall
        refine ⟨call, (List.mem_append.mp hcall).resolve_right fun hcall => ?_, hne⟩
        rw [setWeight_zero] at hcall
        exact hne (by rw [List.mem_singleton.mp hcall])
      · obtain ⟨hsum, hreturns, -⟩ := setWeight_ne_zero (initial.after calls) hzero value
        rw [after_append, hsum, UInt32.toNat_add, accepted_append, weights_append] at hlast
        by_cases hbefore : ∃ call ∈ initial.accepted calls, call.2 ≠ 0
        · have hle := ih hbefore fun pre hpre => hdraws pre (hpre.trans (List.prefix_append _ _))
          obtain ⟨haccepts, htotal, -⟩ := within_of_le hle
          rw [htotal] at hreturns hlast
          rw [haccepts] at hlast
          cases hreturn : ((initial.after calls).setWeight value weight).1 with
          | true =>
              simp only [hreturn, if_true, weights_singleton] at hlast
              rw [← hlast]
              exact hreturns.mp hreturn
          | false =>
              -- the sum has the weight that was rejected
              rw [hreturn] at hreturns hlast
              simp only [Bool.false_eq_true, if_false, false_iff] at hlast hreturns
              rw [hlast] at hreturns
              exact absurd hle hreturns
        · have hnone : ∀ call ∈ initial.accepted calls, call.2 = 0 := by
            intro call hcall
            by_contra hne
            exact hbefore ⟨call, hcall, hne⟩
          have hreturn : ((initial.after calls).setWeight value weight).1 = true := by
            by_contra hfalse
            obtain ⟨call, hcall, hne⟩ := haccepted
            simp only [accepted_append, hfalse, if_false, List.append_nil] at hcall
            exact hbefore ⟨call, hcall, hne⟩
          have hle := hreturns.mp hreturn
          simp only [hreturn, if_true, weights_of_none hnone, weights_singleton] at hlast
          have hlt := (initial.after calls).totalWeight.toNat_lt
          -- no weight was rejected, as the sum is that of the new one alone
          rcases rejected hnone with hzero' | hover
          · omega
          · omega

/-- In a sequence of calls for distinct values that accepts a weight, the sum is right and
the values are drawn by weight behind every call, if and only if the weights of all calls
are within the limit. -/
theorem weightRandom_draws_iff
    (calls : List (α × UInt32))
    (hdistinct : (calls.map Prod.fst).Nodup)
    (haccepted : ∃ call ∈ initial.accepted calls, call.2 ≠ 0) :
    (∀ pre, pre <+: calls → Draws pre) ↔ weights calls ≤ 9999999 := by
  refine ⟨weights_le_of_draws haccepted, fun hle pre hpre => ?_⟩
  have hle' : weights pre ≤ 9999999 := by
    obtain ⟨rest, rfl⟩ := hpre
    rw [weights_append] at hle
    omega
  exact (within_of_le hle').draws_of_distinct (hdistinct.sublist (hpre.sublist.map _))

/-- Two values, and one of weight zero. -/
theorem weightRandom_draws_iff_three :
    (∀ pre, pre <+: [(1, 5), (2, 0), (3, 9999990)] → Draws pre) ↔
      weights [((1 : Nat), 5), (2, 0), (3, 9999990)] ≤ 9999999 :=
  weightRandom_draws_iff _ (by decide) ⟨(1, 5), by decide, by decide⟩

/-- The second weight is rejected and stays in the sum. -/
theorem weightRandom_not_draws :
    ¬∀ calls : List (Nat × UInt32), (calls.map Prod.fst).Nodup → Draws calls := by
  intro h
  have hsum := (h [(1, 5), (2, 9999999)] (by decide) ⟨(1, 5), by decide, by decide⟩).1
  revert hsum
  decide

end WeightRandom
end Gamnet
