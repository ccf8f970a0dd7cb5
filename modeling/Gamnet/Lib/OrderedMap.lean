import Mathlib.Data.List.Basic
import Mathlib.Order.Lattice

/-!
# Ordered maps

A map as the list of its entries, in the order of their keys.

The module is independent of any program.
-/

namespace Gamnet
namespace OrderedMap

variable {κ α : Type} [LinearOrder κ]

/-- The entry takes the place of one with its key. -/
def insert (entry : κ × α) : List (κ × α) → List (κ × α)
  | [] => [entry]
  | e :: map =>
      if e.1 < entry.1 then e :: insert entry map
      else if e.1 = entry.1 then entry :: map
      else entry :: e :: map

/-- The entries are inserted one after the other. -/
def insertAll (map entries : List (κ × α)) : List (κ × α) :=
  entries.foldl (fun map entry => insert entry map) map

def Ordered (map : List (κ × α)) : Prop :=
  map.Pairwise fun e f => e.1 < f.1

variable {entry e : κ × α} {map entries : List (κ × α)}

theorem mem_of_mem_insert
    (h : e ∈ insert entry map) :
    e = entry ∨ e ∈ map := by
  induction map with
  | nil => exact .inl (List.mem_singleton.mp h)
  | cons f map ih =>
      unfold insert at h
      split at h
      · rcases List.mem_cons.mp h with rfl | h
        · exact .inr List.mem_cons_self
        · exact (ih h).imp_right (List.mem_cons_of_mem f)
      · split at h
        · exact (List.mem_cons.mp h).imp_right (List.mem_cons_of_mem f)
        · exact List.mem_cons.mp h

theorem mem_of_mem_insertAll
    (h : e ∈ insertAll map entries) :
    e ∈ entries ∨ e ∈ map := by
  induction entries generalizing map with
  | nil => exact .inr h
  | cons f entries ih =>
      rcases ih h with h | h
      · exact .inl (List.mem_cons_of_mem f h)
      · rcases mem_of_mem_insert h with rfl | h
        · exact .inl List.mem_cons_self
        · exact .inr h

theorem Ordered.insert
    (h : Ordered map)
    (entry : κ × α) :
    Ordered (OrderedMap.insert entry map) := by
  induction map with
  | nil => exact List.pairwise_singleton _ _
  | cons f map ih =>
      obtain ⟨hf, hmap⟩ := List.pairwise_cons.mp h
      unfold OrderedMap.insert
      split
      · rename_i hlt
        refine List.pairwise_cons.mpr ⟨fun e he => ?_, ih hmap⟩
        rcases mem_of_mem_insert he with rfl | he
        · exact hlt
        · exact hf e he
      · split
        · rename_i heq
          exact List.pairwise_cons.mpr ⟨fun e he => heq ▸ hf e he, hmap⟩
        · rename_i hnlt hne
          have hlt : entry.1 < f.1 := lt_of_le_of_ne (not_lt.mp hnlt) (Ne.symm hne)
          refine List.pairwise_cons.mpr ⟨fun e he => ?_, h⟩
          rcases List.mem_cons.mp he with rfl | he
          · exact hlt
          · exact lt_trans hlt (hf e he)

theorem Ordered.insertAll
    (h : Ordered map)
    (entries : List (κ × α)) :
    Ordered (OrderedMap.insertAll map entries) := by
  induction entries generalizing map with
  | nil => exact h
  | cons f entries ih => exact ih (h.insert f)

/-- An entry behind all others is inserted at the end. -/
theorem insert_of_lt
    (h : ∀ e ∈ map, e.1 < entry.1) :
    insert entry map = map ++ [entry] := by
  induction map with
  | nil => rfl
  | cons f map ih =>
      obtain ⟨hf, hmap⟩ := List.forall_mem_cons.mp h
      rw [insert, if_pos hf, ih hmap, List.cons_append]

theorem insertAll_of_ordered
    (h : Ordered (map ++ entries)) :
    insertAll map entries = map ++ entries := by
  induction entries generalizing map with
  | nil => rw [List.append_nil]; rfl
  | cons f entries ih =>
      have hf : ∀ e ∈ map, e.1 < f.1 := fun e he =>
        (List.pairwise_append.mp h).2.2 e he f List.mem_cons_self
      show insertAll (insert f map) entries = _
      rw [insert_of_lt hf, ih (by rwa [List.append_assoc]), List.append_assoc]
      rfl

theorem lookup_cons
    [BEq κ] [LawfulBEq κ]
    (k : κ) :
    (entry :: map).lookup k = if k = entry.1 then some entry.2 else map.lookup k := by
  rw [List.lookup_cons]
  by_cases hk : k = entry.1
  · simp [hk]
  · simp [hk, beq_false_of_ne hk]

theorem lookup_insert
    [BEq κ] [LawfulBEq κ]
    (k : κ) :
    (insert entry map).lookup k = if k = entry.1 then some entry.2 else map.lookup k := by
  induction map with
  | nil => exact lookup_cons k
  | cons f map ih =>
      unfold insert
      split
      · rename_i hlt
        rw [lookup_cons, lookup_cons, ih]
        by_cases hk : k = f.1
        · rw [if_pos hk, if_pos hk, if_neg (hk ▸ ne_of_lt hlt)]
        · rw [if_neg hk, if_neg hk]
      · split
        · rename_i heq
          rw [lookup_cons, lookup_cons, heq]
          split <;> rfl
        · exact lookup_cons k

/-- The entry that was inserted last is found. -/
theorem lookup_insertAll
    [BEq κ] [LawfulBEq κ]
    (map entries : List (κ × α)) (k : κ) :
    (insertAll map entries).lookup k = (entries.reverse.lookup k).or (map.lookup k) := by
  induction entries generalizing map with
  | nil => rfl
  | cons f entries ih =>
      show (insertAll (insert f map) entries).lookup k = _
      rw [ih, List.reverse_cons, List.lookup_append, lookup_insert, lookup_cons, Option.or_assoc]
      congr 1
      split <;> rfl

end OrderedMap
end Gamnet
