import Mathlib.Data.List.Nodup

/-!
# Object pools

A pool makes objects until it has made as many as its capacity, and keeps those
that come back. The objects are numbered in the order in which they were made.
A shared pointer gives its object back when the last reference to it is gone:
an object that comes back was handed out and has not come back since.
-/

namespace Gamnet

/-- The fields of a pool: the objects that came back, the latest first, and how
many were made. -/
structure Pool where
  stored : List Nat
  size : Nat
  capacity : Nat
  size_le : size ≤ capacity
  stored_lt : ∀ x ∈ stored, x < size
  nodup : stored.Nodup

namespace Pool

/-- A pool that has not made any object. -/
def ofCapacity (n : Nat) : Pool where
  stored := []
  size := 0
  capacity := n
  size_le := Nat.zero_le n
  stored_lt := by simp
  nodup := List.nodup_nil

/-- The object was handed out and has not come back. -/
def InUse (p : Pool) (x : Nat) : Prop :=
  x < p.size ∧ x ∉ p.stored

instance (p : Pool) (x : Nat) : Decidable (p.InUse x) :=
  inferInstanceAs (Decidable (x < p.size ∧ x ∉ p.stored))

/-- Create, with a stored object. -/
def take (p : Pool) (x : Nat) (rest : List Nat) (hstored : p.stored = x :: rest) : Pool where
  stored := rest
  size := p.size
  capacity := p.capacity
  size_le := p.size_le
  stored_lt := fun y hy => p.stored_lt y (by rw [hstored]; exact List.mem_cons_of_mem x hy)
  nodup := by
    have hnodup := p.nodup
    rw [hstored, List.nodup_cons] at hnodup
    exact hnodup.2

/-- Create, with an object of its own. -/
def make (p : Pool) (hroom : p.size < p.capacity) : Pool where
  stored := p.stored
  size := p.size + 1
  capacity := p.capacity
  size_le := hroom
  stored_lt := fun y hy => Nat.lt_succ_of_lt (p.stored_lt y hy)
  nodup := p.nodup

/-- Create. -/
def create (p : Pool) : Option (Nat × Pool) :=
  match hstored : p.stored with
  | [] =>
      if hroom : p.size < p.capacity then some (p.size, p.make hroom) else none
  | x :: rest => some (x, p.take x rest hstored)

/-- Available. -/
def available (p : Pool) : Nat :=
  p.stored.length + (p.capacity - p.size)

/-- Restitute. -/
def restitute (p : Pool) (x : Nat) (h : p.InUse x) : Pool where
  stored := x :: p.stored
  size := p.size
  capacity := p.capacity
  size_le := p.size_le
  stored_lt := by
    intro y hy
    rcases List.mem_cons.mp hy with rfl | hy
    · exact h.1
    · exact p.stored_lt y hy
  nodup := List.nodup_cons.mpr ⟨h.2, p.nodup⟩

variable {p p' : Pool} {x y : Nat}

/-- Create fails exactly when nothing is available. -/
theorem create_eq_none_iff
    (p : Pool) :
    p.create = none ↔ p.available = 0 := by
  have hle := p.size_le
  unfold create available
  split
  · rename_i hstored
    simp only [hstored, List.length_nil]
    split
    · simp
      omega
    · simp
      omega
  · rename_i y rest hstored
    simp [hstored]

/-- What Create hands out was not in use, and nothing else changes its state. -/
theorem inUse_create
    (h : p.create = some (x, p')) :
    ¬ p.InUse x ∧ ∀ y, p'.InUse y ↔ y = x ∨ p.InUse y := by
  unfold create at h
  split at h
  · rename_i hstored
    split at h
    · cases h
      refine ⟨fun hx => absurd hx.1 (Nat.lt_irrefl _), ?_⟩
      intro y
      simp only [InUse, make, hstored, List.not_mem_nil, not_false_eq_true, and_true]
      omega
    · cases h
  · rename_i rest hstored
    cases h
    have hnodup := p.nodup
    rw [hstored, List.nodup_cons] at hnodup
    refine ⟨fun hx => hx.2 (by rw [hstored]; exact List.mem_cons_self), ?_⟩
    intro y
    simp only [InUse, take, hstored, List.mem_cons, not_or]
    constructor
    · rintro ⟨hy, hrest⟩
      by_cases hyx : y = x
      · exact Or.inl hyx
      · exact Or.inr ⟨hy, hyx, hrest⟩
    · rintro (rfl | ⟨hy, _, hrest⟩)
      · exact ⟨p.stored_lt _ (by rw [hstored]; exact List.mem_cons_self), hnodup.1⟩
      · exact ⟨hy, hrest⟩

/-- What came back is not in use. -/
theorem inUse_restitute
    (h : p.InUse x) :
    (p.restitute x h).InUse y ↔ y ≠ x ∧ p.InUse y := by
  simp only [InUse, restitute, List.mem_cons, not_or]
  tauto

/-- What came back can be handed out. -/
theorem create_restitute
    (h : p.InUse x) :
    ∃ p', (p.restitute x h).create = some (x, p') := by
  have hsome : (p.restitute x h).create ≠ none := by
    rw [Ne, create_eq_none_iff]
    simp [available, restitute]
  unfold create at hsome ⊢
  split
  · rename_i hstored
    cases hstored
  · rename_i y rest hstored
    cases hstored
    exact ⟨_, rfl⟩

end Pool

end Gamnet
