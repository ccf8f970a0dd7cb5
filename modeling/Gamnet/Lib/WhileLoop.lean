import Mathlib.Data.Nat.Basic

/-!
# While loops

A while loop is a body that either produces the next loop state or ends the
loop with a result. It is executed with a bound on the number of rounds; the
rules below discharge the bound by a measure and reason about the result by an
invariant.

The module is independent of any program.
-/

namespace Gamnet
namespace WhileLoop

universe u v

variable {σ : Type u} {ρ : Type v}

/-- Execute a loop body for at most the given number of rounds. -/
def run (body : σ → σ ⊕ ρ) : Nat → σ → Option ρ
  | 0, _ => none
  | n + 1, s =>
      match body s with
      | .inl s' => run body n s'
      | .inr r => some r

/-- One round that continues. -/
theorem run_continue
    {body : σ → σ ⊕ ρ}
    {s s' : σ}
    (hbody : body s = .inl s')
    (n : Nat) :
    run body (n + 1) s = run body n s' := by
  simp [run, hbody]

/-- One round that ends the loop. -/
theorem run_done
    {body : σ → σ ⊕ ρ}
    {s : σ} {r : ρ}
    (hbody : body s = .inr r)
    (n : Nat) :
    run body (n + 1) s = some r := by
  simp [run, hbody]

/-- A loop whose continuing rounds keep an invariant and decrease a measure
ends within the measure of its initial state. -/
theorem run_isSome
    {body : σ → σ ⊕ ρ}
    (Inv : σ → Prop)
    (measure : σ → Nat)
    (hstep : ∀ s s', Inv s → body s = .inl s' →
      Inv s' ∧ measure s' < measure s)
    (n : Nat)
    {s : σ}
    (hs : Inv s)
    (hn : measure s < n) :
    (run body n s).isSome := by
  induction n generalizing s with
  | zero =>
      omega
  | succ n ih =>
      cases hbody : body s with
      | inl s' =>
          obtain ⟨hs', hlt⟩ := hstep s s' hs hbody
          rw [run_continue hbody]
          exact ih hs' (by omega)
      | inr r =>
          rw [run_done hbody]
          rfl

/-- The invariant rule: what every continuing round keeps and every ending
round turns into the postcondition holds of the result. -/
theorem run_rule
    {body : σ → σ ⊕ ρ}
    (Inv : σ → Prop)
    (Post : ρ → Prop)
    (hcontinue : ∀ s s', Inv s → body s = .inl s' → Inv s')
    (hdone : ∀ s r, Inv s → body s = .inr r → Post r)
    (n : Nat)
    {s : σ} {r : ρ}
    (hs : Inv s)
    (hrun : run body n s = some r) :
    Post r := by
  induction n generalizing s with
  | zero =>
      simp [run] at hrun
  | succ n ih =>
      cases hbody : body s with
      | inl s' =>
          rw [run_continue hbody] at hrun
          exact ih (hcontinue s s' hs hbody) hrun
      | inr r' =>
          rw [run_done hbody] at hrun
          have hr : r' = r := by
            simpa using hrun
          subst hr
          exact hdone s r' hs hbody

/-- A loop in whose invariant every round goes on has no result. -/
theorem run_eq_none
    {body : σ → σ ⊕ ρ}
    (Inv : σ → Prop)
    (hcontinue : ∀ s, Inv s → ∃ s', body s = .inl s' ∧ Inv s')
    (n : Nat)
    {s : σ}
    (hs : Inv s) :
    run body n s = none := by
  induction n generalizing s with
  | zero =>
      rfl
  | succ n ih =>
      obtain ⟨s', hbody, hs'⟩ := hcontinue s hs
      rw [run_continue hbody]
      exact ih hs'

/-- The states in front of the rounds of a loop. -/
inductive Reaches (body : σ → σ ⊕ ρ) : σ → σ → Prop
  | refl (s : σ) : Reaches body s s
  | round {s s' t : σ} (hbody : body s = .inl s') (hrest : Reaches body s' t) :
      Reaches body s t

/-- The loop ends, and so far each of its rounds that continue is one of the relation. -/
structure EndsWith (body : σ → σ ⊕ ρ) (R : σ → σ → Prop) (s : σ) : Prop where
  ends : ∃ n, (run body n s).isSome
  rounds : ∀ t t', Reaches body s t → body t = .inl t' → R t t'

theorem EndsWith.of_done
    {body : σ → σ ⊕ ρ} {R : σ → σ → Prop}
    {s : σ} {r : ρ}
    (hbody : body s = .inr r) :
    EndsWith body R s where
  ends := ⟨1, by rw [run_done hbody]; rfl⟩
  rounds t t' hreaches hround := by
    cases hreaches with
    | refl _ =>
        cases hbody.symm.trans hround
    | round hfirst _ =>
        cases hbody.symm.trans hfirst

/-- A round that continues, and the rest of the loop. -/
theorem endsWith_iff_of_continue
    {body : σ → σ ⊕ ρ} {R : σ → σ → Prop}
    {s s' : σ}
    (hbody : body s = .inl s') :
    EndsWith body R s ↔ R s s' ∧ EndsWith body R s' := by
  constructor
  · intro h
    refine ⟨h.rounds s s' (.refl s) hbody, ?_, fun t t' ht => h.rounds t t' (.round hbody ht)⟩
    obtain ⟨n, hn⟩ := h.ends
    cases n with
    | zero =>
        cases hn
    | succ n =>
        rw [run_continue hbody] at hn
        exact ⟨n, hn⟩
  · rintro ⟨hR, hrest⟩
    obtain ⟨n, hn⟩ := hrest.ends
    refine ⟨⟨n + 1, by rw [run_continue hbody]; exact hn⟩, ?_⟩
    intro t t' hreaches hround
    cases hreaches with
    | refl _ =>
        obtain rfl := Sum.inl.inj (hbody.symm.trans hround)
        exact hR
    | round hfirst ht =>
        obtain rfl := Sum.inl.inj (hbody.symm.trans hfirst)
        exact hrest.rounds t t' ht hround

end WhileLoop
end Gamnet
