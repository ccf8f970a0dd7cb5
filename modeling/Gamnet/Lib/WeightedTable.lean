import Mathlib.Algebra.GroupWithZero.Nat
import Mathlib.Data.List.Nodup

/-!
# Tables of running sums

A table for values with weights has for each value the sum of the weights up to its own. A
draw below the sum of all weights is looked up by the first entry that is above it. Every
value is then drawn as often as its weight tells.

The module is independent of any program.
-/

namespace Gamnet
namespace WeightedTable

universe u

variable {α : Type u}

/-- The values with their running sums, from a base on. -/
def table : Nat → List (α × Nat) → List (Nat × α)
  | _, [] => []
  | base, (x, w) :: items => (base + w, x) :: table (base + w) items

/-- The first entry above the draw. -/
def lookup (t : List (Nat × α)) (r : Nat) : Option α :=
  (t.find? fun entry => r < entry.1).map Prod.snd

/-- The sum of the weights. -/
def total (items : List (α × Nat)) : Nat :=
  (items.map Prod.snd).sum

theorem table_append
    (base : Nat) (items more : List (α × Nat)) :
    table base (items ++ more) = table base items ++ table (base + total items) more := by
  induction items generalizing base with
  | nil => rfl
  | cons item items ih =>
      obtain ⟨x, w⟩ := item
      simp only [List.cons_append, table, ih, total, List.map_cons, List.sum_cons]
      rw [Nat.add_assoc]

theorem total_append
    (items more : List (α × Nat)) :
    total (items ++ more) = total items + total more := by
  simp [total]

theorem lookup_cons
    (base : Nat) (x : α) (w : Nat) (items : List (α × Nat)) (r : Nat) :
    lookup (table base ((x, w) :: items)) r =
      if r < base + w then some x else lookup (table (base + w) items) r := by
  unfold lookup
  rw [table, List.find?_cons]
  by_cases h : r < base + w
  · simp [h]
  · simp [h]

/-- A draw below the end of the table finds a value. -/
theorem lookup_isSome
    {base : Nat} {items : List (α × Nat)} {r : Nat}
    (hr : r < base + total items)
    (hbase : base ≤ r) :
    (lookup (table base items) r).isSome := by
  induction items generalizing base with
  | nil =>
      exact absurd hr (Nat.not_lt.mpr hbase)
  | cons item items ih =>
      obtain ⟨x, w⟩ := item
      rw [lookup_cons]
      split
      · rfl
      · rename_i hlt
        refine ih ?_ (Nat.not_lt.mp hlt)
        rw [Nat.add_assoc]
        exact hr

variable [DecidableEq α]

/-- How many draws of the table find the value. -/
def draws (base : Nat) (items : List (α × Nat)) (x : α) : Nat :=
  (List.range' base (total items)).countP fun r => lookup (table base items) r = some x

/-- The draws for the first value come first. -/
theorem draws_cons
    (base : Nat) (y : α) (w : Nat) (items : List (α × Nat)) (x : α) :
    draws base ((y, w) :: items) x = (if y = x then w else 0) + draws (base + w) items x := by
  have htotal : total ((y, w) :: items) = w + total items := rfl
  unfold draws
  rw [htotal, ← List.range'_append_1, List.countP_append]
  congr 1
  · have hfirst : ∀ r ∈ List.range' base w,
        decide (lookup (table base ((y, w) :: items)) r = some x) = decide (y = x) := by
      intro r hr
      rw [List.mem_range'_1] at hr
      simp [lookup_cons, hr.2]
    rw [List.countP_congr fun r hr => by rw [hfirst r hr]]
    by_cases hyx : y = x
    · simp [hyx]
    · simp [hyx]
  · refine List.countP_congr fun r hr => ?_
    rw [List.mem_range'_1] at hr
    rw [lookup_cons, if_neg (Nat.not_lt.mpr hr.1)]

/-- A value that has no entry is never drawn. -/
theorem draws_of_not_mem
    {items : List (α × Nat)} {x : α}
    (hx : x ∉ items.map Prod.fst)
    (base : Nat) :
    draws base items x = 0 := by
  induction items generalizing base with
  | nil => rfl
  | cons item items ih =>
      obtain ⟨y, w⟩ := item
      rw [List.map_cons, List.mem_cons, not_or] at hx
      rw [draws_cons, if_neg (Ne.symm hx.1), ih hx.2]

/-- A value is drawn as often as its weight tells, if the values are distinct. -/
theorem draws_eq_weight
    {items : List (α × Nat)}
    (hdistinct : (items.map Prod.fst).Nodup)
    {x : α} {w : Nat}
    (hitem : (x, w) ∈ items)
    (base : Nat) :
    draws base items x = w := by
  induction items generalizing base with
  | nil => cases hitem
  | cons item items ih =>
      obtain ⟨y, v⟩ := item
      rw [List.map_cons, List.nodup_cons] at hdistinct
      rw [draws_cons]
      rcases List.mem_cons.mp hitem with hhead | htail
      · cases hhead
        rw [if_pos rfl, draws_of_not_mem hdistinct.1]
        rfl
      · have hne : y ≠ x := by
          rintro rfl
          exact hdistinct.1 (List.mem_map.mpr ⟨(y, w), htail, rfl⟩)
        rw [if_neg hne, ih hdistinct.2 htail, Nat.zero_add]

end WeightedTable
end Gamnet
