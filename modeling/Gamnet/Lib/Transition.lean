import Mathlib.Data.Option.Basic

/-!
# Runs of a partial step function

A step function tells for a state and an event the next state, or that the event is
not possible there. A run takes the events in order; every one has to be possible. The
rules below divide a run and carry an invariant along it.

The module is independent of any program.
-/

namespace Gamnet
namespace Transition

universe u v

variable {σ : Type u} {ε : Type v}

/-- Take the events in order. -/
def run (step : σ → ε → Option σ) : σ → List ε → Option σ
  | s, [] => some s
  | s, e :: es =>
      match step s e with
      | none => none
      | some s' => run step s' es

/-- Every event of a run meets the condition in the state it finds. -/
def Along (step : σ → ε → Option σ) (P : σ → ε → Prop) : σ → List ε → Prop
  | _, [] => True
  | s, e :: es => P s e ∧ ∀ s', step s e = some s' → Along step P s' es

variable {step : σ → ε → Option σ} {P : σ → ε → Prop}

theorem run_cons
    {s s' : σ} {e : ε}
    (hstep : step s e = some s')
    (es : List ε) :
    run step s (e :: es) = run step s' es := by
  simp [run, hstep]

/-- The first step of a run. -/
theorem exists_of_run_cons
    {s t : σ} {e : ε} {es : List ε}
    (hrun : run step s (e :: es) = some t) :
    ∃ s', step s e = some s' ∧ run step s' es = some t := by
  cases hstep : step s e with
  | none =>
      simp [run, hstep] at hrun
  | some s' =>
      rw [run_cons hstep] at hrun
      exact ⟨s', rfl, hrun⟩

/-- A run in two parts. -/
theorem run_append
    (s : σ) (es fs : List ε) :
    run step s (es ++ fs) = (run step s es).bind fun s' => run step s' fs := by
  induction es generalizing s with
  | nil =>
      rfl
  | cons e es ih =>
      cases hstep : step s e with
      | none =>
          simp [run, hstep]
      | some s' =>
          rw [List.cons_append, run_cons hstep, run_cons hstep]
          exact ih s'

theorem Along.cons
    {s s' : σ} {e : ε} {es : List ε}
    (hP : P s e)
    (hstep : step s e = some s')
    (halong : Along step P s' es) :
    Along step P s (e :: es) := by
  refine ⟨hP, ?_⟩
  intro t ht
  obtain rfl := Option.some.inj (hstep.symm.trans ht)
  exact halong

/-- What every step keeps where its event meets the condition holds behind every run
whose events meet it. -/
theorem Along.invariant
    (Inv : σ → Prop)
    (hkeep : ∀ s e s', Inv s → P s e → step s e = some s' → Inv s')
    {s t : σ} {es : List ε}
    (hs : Inv s)
    (halong : Along step P s es)
    (hrun : run step s es = some t) :
    Inv t := by
  induction es generalizing s with
  | nil =>
      cases hrun
      exact hs
  | cons e es ih =>
      obtain ⟨s', hstep, hrest⟩ := exists_of_run_cons hrun
      exact ih (hkeep s e s' hs halong.1 hstep) (halong.2 s' hstep) hrest

/-- Two conditions that are the same in the states of an invariant, which the second one
keeps, are the same along a run. -/
theorem along_iff
    {D Q : σ → ε → Prop}
    (Inv : σ → Prop)
    (hiff : ∀ s e, Inv s → D s e → (P s e ↔ Q s e))
    (hkeep : ∀ s e s', Inv s → D s e → Q s e → step s e = some s' → Inv s')
    {s : σ} {es : List ε}
    (hs : Inv s)
    (hD : Along step D s es) :
    Along step P s es ↔ Along step Q s es := by
  induction es generalizing s with
  | nil =>
      exact Iff.rfl
  | cons e es ih =>
      have hhead := hiff s e hs hD.1
      constructor
      · rintro ⟨hP, hrest⟩
        have hQ := hhead.mp hP
        refine ⟨hQ, fun s' hstep => ?_⟩
        exact (ih (hkeep s e s' hs hD.1 hQ hstep) (hD.2 s' hstep)).mp (hrest s' hstep)
      · rintro ⟨hQ, hrest⟩
        refine ⟨hhead.mpr hQ, fun s' hstep => ?_⟩
        exact (ih (hkeep s e s' hs hD.1 hQ hstep) (hD.2 s' hstep)).mpr (hrest s' hstep)

/-- A condition that holds everywhere. -/
theorem along_of_forall
    (hP : ∀ s e, P s e)
    (s : σ) (es : List ε) :
    Along step P s es := by
  induction es generalizing s with
  | nil =>
      trivial
  | cons e es ih =>
      exact ⟨hP s e, fun s' _ => ih s'⟩

/-- What every step keeps holds behind every run. -/
theorem run_invariant
    (Inv : σ → Prop)
    (hkeep : ∀ s e s', Inv s → step s e = some s' → Inv s')
    {s t : σ} {es : List ε}
    (hs : Inv s)
    (hrun : run step s es = some t) :
    Inv t := by
  refine Along.invariant (P := fun _ _ => True) Inv ?_ hs ?_ hrun
  · intro s e s' hs _ hstep
    exact hkeep s e s' hs hstep
  · exact along_of_forall (fun _ _ => trivial) s es

/-- A condition on the states that a run reaches, the first and the last one included. -/
def Always (step : σ → ε → Option σ) (I : σ → Prop) (s : σ) (es : List ε) : Prop :=
  ∀ pre, pre <+: es → ∀ t, run step s pre = some t → I t

theorem always_nil
    {I : σ → Prop} {s : σ} :
    Always step I s [] ↔ I s := by
  constructor
  · intro h
    exact h [] List.prefix_rfl s rfl
  · intro hs pre hpre t hrun
    rw [List.prefix_nil.mp hpre] at hrun
    cases hrun
    exact hs

theorem always_cons
    {I : σ → Prop} {s : σ} {e : ε} {es : List ε} :
    Always step I s (e :: es) ↔ I s ∧ ∀ s', step s e = some s' → Always step I s' es := by
  constructor
  · intro h
    refine ⟨h [] (List.nil_prefix) s rfl, fun s' hstep pre hpre t hrun => ?_⟩
    refine h (e :: pre) (List.cons_prefix_cons.mpr ⟨rfl, hpre⟩) t ?_
    rw [run_cons hstep]
    exact hrun
  · rintro ⟨hs, hrest⟩ pre hpre t hrun
    cases pre with
    | nil =>
        cases hrun
        exact hs
    | cons e' pre =>
        obtain ⟨rfl, hpre'⟩ := List.cons_prefix_cons.mp hpre
        obtain ⟨s', hstep, hrun'⟩ := exists_of_run_cons hrun
        exact hrest s' hstep pre hpre' t hrun'

/-- The events of a run keep the invariant. -/
theorem always_of_invariant
    {I : σ → Prop}
    (Inv : σ → Prop)
    (hI : ∀ s, Inv s → I s)
    {s : σ} {es : List ε}
    (hkeep : ∀ e ∈ es, ∀ s s', Inv s → step s e = some s' → Inv s')
    (hs : Inv s) :
    Always step I s es := by
  induction es generalizing s with
  | nil =>
      exact always_nil.mpr (hI s hs)
  | cons e es ih =>
      refine always_cons.mpr ⟨hI s hs, fun s' hstep => ?_⟩
      have hs' := hkeep e List.mem_cons_self s s' hs hstep
      exact ih (fun e' he' => hkeep e' (List.mem_cons_of_mem e he')) hs'

/-- If each step from a state of the invariant leads to a state with the condition exactly
if it is one of the steps that keep the invariant, then a run has the condition in all its
states exactly if all its steps are of that kind. -/
theorem always_iff_along
    {I : σ → Prop}
    (Inv : σ → Prop)
    (hI : ∀ s, Inv s → I s)
    (hiff : ∀ s e, Inv s → ((∀ s', step s e = some s' → I s') ↔ P s e))
    (hkeep : ∀ s e s', Inv s → P s e → step s e = some s' → Inv s')
    {s : σ} {es : List ε}
    (hs : Inv s) :
    Always step I s es ↔ Along step P s es := by
  induction es generalizing s with
  | nil =>
      exact always_nil.trans (iff_of_true (hI s hs) trivial)
  | cons e es ih =>
      rw [always_cons]
      constructor
      · rintro ⟨-, hrest⟩
        have hP : P s e := (hiff s e hs).mp fun s' hstep =>
          hrest s' hstep [] List.nil_prefix s' rfl
        exact ⟨hP, fun s' hstep => (ih (hkeep s e s' hs hP hstep)).mp (hrest s' hstep)⟩
      · rintro ⟨hP, hrest⟩
        exact ⟨hI s hs, fun s' hstep => (ih (hkeep s e s' hs hP hstep)).mpr (hrest s' hstep)⟩

end Transition
end Gamnet
