import Mathlib.Data.Finset.Card
import Mathlib.Logic.Relation

/-!
# Depth-first visits

A visit of a vertex starts it, visits the vertices that it calls, and finishes it. A vertex
that is started already is not visited again. The depth of the recursion is bounded by a
number.

Visits end if the bound is above the number of vertices that are not started. They finish
exactly what they start, and without a cycle a vertex is finished behind all that it calls.

The module is independent of any program.
-/

namespace Gamnet
namespace DepthFirst

universe u

variable {α : Type u}

/-- The vertices that are started, and those that are finished, each in order. -/
structure Tour (α : Type u) where
  started : List α
  finished : List α

namespace Tour

def empty : Tour α where
  started := []
  finished := []

def start (t : Tour α) (a : α) : Tour α :=
  { t with started := t.started ++ [a] }

def finish (t : Tour α) (a : α) : Tour α :=
  { t with finished := t.finished ++ [a] }

/-- Started and not finished. -/
def Opened (t : Tour α) (a : α) : Prop :=
  a ∈ t.started ∧ a ∉ t.finished

end Tour

/-- Visit some vertices one after the other. -/
def visitAll (visit : α → Tour α → Option (Tour α)) : List α → Tour α → Option (Tour α)
  | [], t => some t
  | a :: as, t =>
      match visit a t with
      | none => none
      | some t => visitAll visit as t

variable (calls : α → List α)

/-- Visit a vertex, with a bound on the depth. -/
def visit [DecidableEq α] : Nat → α → Tour α → Option (Tour α)
  | 0, _, _ => none
  | n + 1, a, t =>
      if a ∈ t.started then some t
      else
        match visitAll (visit n) (calls a) (t.start a) with
        | none => none
        | some t => some (t.finish a)

/-- A vertex calls another one, directly or through others. -/
def Reaches : α → α → Prop :=
  Relation.ReflTransGen fun a b => b ∈ calls a

/-- No vertex calls itself, directly or through others. -/
def Acyclic : Prop :=
  ∀ a, ¬ Relation.TransGen (fun a b => b ∈ calls a) a a

/-- What visits of some vertices add to a tour. -/
structure Adds (roots : List α) (t t' : Tour α) (started finished : List α) : Prop where
  started_eq : t'.started = t.started ++ started
  finished_eq : t'.finished = t.finished ++ finished
  perm : finished.Perm started
  nodup : started.Nodup
  fresh : ∀ a ∈ started, a ∉ t.started
  covers : ∀ a ∈ roots, a ∈ t'.started
  reached : ∀ a ∈ started, ∃ root ∈ roots, Reaches calls root a

variable {calls} {t t₁ t' : Tour α} {a : α} {roots as started finished : List α}

theorem Adds.nil :
    Adds calls [] t t [] [] where
  started_eq := (List.append_nil _).symm
  finished_eq := (List.append_nil _).symm
  perm := List.Perm.refl []
  nodup := List.nodup_nil
  fresh _ h := absurd h List.not_mem_nil
  covers _ h := absurd h List.not_mem_nil
  reached _ h := absurd h List.not_mem_nil

theorem Adds.started_of_mem
    (ha : a ∈ t.started) :
    Adds calls [a] t t [] [] where
  started_eq := (List.append_nil _).symm
  finished_eq := (List.append_nil _).symm
  perm := List.Perm.refl []
  nodup := List.nodup_nil
  fresh _ h := absurd h List.not_mem_nil
  covers b h := by
    rw [List.mem_singleton.mp h]
    exact ha
  reached _ h := absurd h List.not_mem_nil

/-- One visit behind another. -/
theorem Adds.cons
    {started' finished' : List α}
    (h : Adds calls [a] t t₁ started finished)
    (h' : Adds calls as t₁ t' started' finished') :
    Adds calls (a :: as) t t' (started ++ started') (finished ++ finished') where
  started_eq := by
    rw [h'.started_eq, h.started_eq, List.append_assoc]
  finished_eq := by
    rw [h'.finished_eq, h.finished_eq, List.append_assoc]
  perm := h.perm.append h'.perm
  nodup := by
    refine List.nodup_append.mpr ⟨h.nodup, h'.nodup, ?_⟩
    rintro b hb c hc rfl
    refine h'.fresh b hc ?_
    rw [h.started_eq]
    exact List.mem_append_right _ hb
  fresh b hb := by
    rcases List.mem_append.mp hb with hb | hb
    · exact h.fresh b hb
    · intro hold
      refine h'.fresh b hb ?_
      rw [h.started_eq]
      exact List.mem_append_left _ hold
  covers b hb := by
    rcases List.mem_cons.mp hb with rfl | hb
    · rw [h'.started_eq]
      exact List.mem_append_left _ (h.covers b (List.mem_singleton_self b))
    · exact h'.covers b hb
  reached b hb := by
    rcases List.mem_append.mp hb with hb | hb
    · obtain ⟨root, hroot, hreaches⟩ := h.reached b hb
      rw [List.mem_singleton.mp hroot] at hreaches
      exact ⟨a, List.mem_cons_self, hreaches⟩
    · obtain ⟨root, hroot, hreaches⟩ := h'.reached b hb
      exact ⟨root, List.mem_cons_of_mem a hroot, hreaches⟩

/-- A vertex around the visits of those that it calls. -/
theorem Adds.around
    (ha : a ∉ t.started)
    (h : Adds calls (calls a) (t.start a) t' started finished) :
    Adds calls [a] t (t'.finish a) (a :: started) (finished ++ [a]) where
  started_eq := by
    rw [Tour.finish, h.started_eq, Tour.start, List.append_assoc, List.singleton_append]
  finished_eq := by
    rw [Tour.finish, h.finished_eq, Tour.start, List.append_assoc]
  perm := (List.perm_append_singleton a finished).trans (h.perm.cons a)
  nodup := by
    refine List.nodup_cons.mpr ⟨?_, h.nodup⟩
    intro hstarted
    exact h.fresh a hstarted (List.mem_append_right _ (List.mem_singleton_self a))
  fresh b hb := by
    rcases List.mem_cons.mp hb with rfl | hb
    · exact ha
    · intro hold
      exact h.fresh b hb (List.mem_append_left _ hold)
  covers b hb := by
    rw [List.mem_singleton.mp hb, Tour.finish, h.started_eq]
    exact List.mem_append_left _ (List.mem_append_right _ (List.mem_singleton_self a))
  reached b hb := by
    refine ⟨a, List.mem_singleton_self a, ?_⟩
    rcases List.mem_cons.mp hb with rfl | hb
    · exact Relation.ReflTransGen.refl
    · obtain ⟨root, hroot, hreaches⟩ := h.reached b hb
      exact Relation.ReflTransGen.head hroot hreaches

/-- Every vertex is finished behind those that it calls, but for vertices that were opened
before. -/
def Ordered (calls : α → List α) (t : Tour α) (finished : List α) : Prop :=
  ∀ before a later, finished = before ++ a :: later →
    ∀ b ∈ calls a, b ∈ t.finished ++ before ∨ t.Opened b

theorem Ordered.nil :
    Ordered calls t [] := by
  intro before a later heq
  exact absurd heq (by simp)

/-- Finished visits open nothing. -/
theorem Adds.opened
    (h : Adds calls roots t t' started finished)
    (hopened : t'.Opened a) :
    t.Opened a := by
  obtain ⟨hstarted, hfinished⟩ := hopened
  rw [h.started_eq, List.mem_append] at hstarted
  rw [h.finished_eq, List.mem_append, not_or] at hfinished
  rcases hstarted with hstarted | hstarted
  · exact ⟨hstarted, hfinished.1⟩
  · exact absurd (h.perm.mem_iff.mpr hstarted) hfinished.2

/-- A member of two lists in a row is in one of them. -/
theorem mem_of_append_eq
    {finished' before later : List α}
    (heq : finished ++ finished' = before ++ a :: later) :
    (∃ rest, finished = before ++ a :: rest) ∨
      ∃ rest, before = finished ++ rest ∧ finished' = rest ++ a :: later := by
  rcases List.append_eq_append_iff.mp heq with ⟨rest, hbefore, hlater⟩ | ⟨rest, hbefore, hlater⟩
  · exact .inr ⟨rest, hbefore, hlater⟩
  · cases rest with
    | nil =>
        rw [List.append_nil] at hbefore
        rw [List.nil_append] at hlater
        exact .inr ⟨[], by rw [hbefore, List.append_nil], hlater.symm⟩
    | cons b rest =>
        rw [List.cons_append, List.cons.injEq] at hlater
        obtain ⟨rfl, -⟩ := hlater
        exact .inl ⟨rest, hbefore⟩

theorem Ordered.append
    {finished' : List α}
    (h : Adds calls roots t t₁ started finished)
    (hfirst : Ordered calls t finished)
    (hsecond : Ordered calls t₁ finished') :
    Ordered calls t (finished ++ finished') := by
  intro before a later heq b hb
  rcases mem_of_append_eq heq with ⟨rest, hfinished⟩ | ⟨rest, rfl, hfinished'⟩
  · exact hfirst before a rest hfinished b hb
  · rcases hsecond rest a later hfinished' b hb with hb | hopened
    · rw [h.finished_eq, List.append_assoc] at hb
      exact .inl hb
    · exact .inr (h.opened hopened)

/-- Without a cycle neither the vertex nor what it reaches calls the vertex. -/
theorem Ordered.around
    (hacyclic : Acyclic calls)
    (h : Adds calls (calls a) (t.start a) t' started finished)
    (hinner : Ordered calls (t.start a) finished) :
    Ordered calls t (finished ++ [a]) := by
  have hopen : ∀ b, (t.start a).Opened b → b = a ∨ t.Opened b := by
    rintro b ⟨hstarted, hfinished⟩
    rcases List.mem_append.mp hstarted with hstarted | hb
    · exact .inr ⟨hstarted, hfinished⟩
    · exact .inl (List.mem_singleton.mp hb)
  intro before c later heq b hb
  rcases mem_of_append_eq heq with ⟨rest, hfinished⟩ | ⟨rest, rfl, hlast⟩
  · rcases hinner before c rest hfinished b hb with hb' | hopened
    · exact .inl hb'
    · refine .inr ((hopen b hopened).resolve_left ?_)
      rintro rfl
      have hc : c ∈ started := by
        rw [← h.perm.mem_iff, hfinished]
        exact List.mem_append_right _ List.mem_cons_self
      obtain ⟨root, hroot, hreaches⟩ := h.reached c hc
      exact hacyclic b ((Relation.TransGen.head' hroot hreaches).tail hb)
  · obtain ⟨rfl, hc, -⟩ : rest = [] ∧ c = a ∧ later = [] := by
      simpa [List.singleton_eq_append_iff] using hlast
    subst hc
    rw [List.append_nil]
    by_cases hfinished : b ∈ t'.finished
    · rw [h.finished_eq] at hfinished
      exact .inl hfinished
    · refine .inr ((hopen b (h.opened ⟨h.covers b hb, hfinished⟩)).resolve_left ?_)
      rintro rfl
      exact hacyclic b (Relation.TransGen.single hb)

/-- What the visit of each of some vertices adds, one after the other. -/
theorem adds_of_visitAll
    {visit : α → Tour α → Option (Tour α)}
    (hvisit : ∀ a t t', visit a t = some t' → ∃ started finished,
      Adds calls [a] t t' started finished ∧ (Acyclic calls → Ordered calls t finished))
    (h : visitAll visit as t = some t') :
    ∃ started finished,
      Adds calls as t t' started finished ∧ (Acyclic calls → Ordered calls t finished) := by
  induction as generalizing t with
  | nil =>
      cases h
      exact ⟨[], [], Adds.nil, fun _ => Ordered.nil⟩
  | cons a as ih =>
      rw [visitAll] at h
      split at h
      · cases h
      · rename_i t₁ hfirst
        obtain ⟨started, finished, hadds, hordered⟩ := hvisit a t t₁ hfirst
        obtain ⟨started', finished', hadds', hordered'⟩ := ih h
        exact ⟨_, _, hadds.cons hadds', fun hacyclic =>
          (hordered hacyclic).append hadds (hordered' hacyclic)⟩

theorem visitAll_mono
    {visit visit' : α → Tour α → Option (Tour α)}
    (hvisit : ∀ a t t', visit a t = some t' → visit' a t = some t')
    (h : visitAll visit as t = some t') :
    visitAll visit' as t = some t' := by
  induction as generalizing t with
  | nil =>
      exact h
  | cons a as ih =>
      rw [visitAll] at h ⊢
      split at h
      · cases h
      · rename_i t₁ hfirst
        rw [hvisit a t t₁ hfirst]
        exact ih h

section Visits

variable [DecidableEq α]

/-- What a visit adds. The induction is on the depth. -/
theorem adds_of_visit
    {n : Nat}
    (h : visit calls n a t = some t') :
    ∃ started finished,
      Adds calls [a] t t' started finished ∧ (Acyclic calls → Ordered calls t finished) := by
  induction n generalizing a t t' with
  | zero =>
      cases h
  | succ n ih =>
      rw [visit] at h
      split_ifs at h with ha
      · cases h
        exact ⟨[], [], Adds.started_of_mem ha, fun _ => Ordered.nil⟩
      · split at h
        · cases h
        · rename_i t₁ hcalls
          cases h
          obtain ⟨started, finished, hadds, hordered⟩ :=
            adds_of_visitAll (fun _ _ _ hvisit => ih hvisit) hcalls
          exact ⟨_, _, hadds.around ha, fun hacyclic =>
            (hordered hacyclic).around hacyclic hadds⟩

/-- The number of vertices that are not started. -/
def remaining (vertices : Finset α) (t : Tour α) : Nat :=
  (vertices.filter fun a => a ∉ t.started).card

theorem remaining_le
    {vertices : Finset α}
    (h : Adds calls roots t t' started finished) :
    remaining vertices t' ≤ remaining vertices t := by
  refine Finset.card_le_card (Finset.monotone_filter_right _ ?_)
  intro a _ ha hstarted
  refine ha ?_
  rw [h.started_eq]
  exact List.mem_append_left _ hstarted

theorem remaining_start_lt
    {vertices : Finset α}
    (hvertex : a ∈ vertices)
    (ha : a ∉ t.started) :
    remaining vertices (t.start a) < remaining vertices t := by
  have hsubset : (vertices.filter fun b => b ∉ (t.start a).started) ⊆
      vertices.filter fun b => b ∉ t.started := by
    refine Finset.monotone_filter_right _ ?_
    intro b _ hb hstarted
    exact hb (List.mem_append_left _ hstarted)
  refine Finset.card_lt_card ((Finset.ssubset_iff_of_subset hsubset).mpr ⟨a, ?_, ?_⟩)
  · exact Finset.mem_filter.mpr ⟨hvertex, ha⟩
  · intro hmem
    exact (Finset.mem_filter.mp hmem).2 (List.mem_append_right _ (List.mem_singleton_self a))

/-- Visits end when each of them does. -/
theorem exists_visitAll
    {vertices : Finset α} {n : Nat}
    (hvisit : ∀ a ∈ vertices, ∀ t, remaining vertices t < n → ∃ t', visit calls n a t = some t')
    (has : ∀ a ∈ as, a ∈ vertices)
    (hn : remaining vertices t < n) :
    ∃ t', visitAll (visit calls n) as t = some t' := by
  induction as generalizing t with
  | nil =>
      exact ⟨t, rfl⟩
  | cons a as ih =>
      obtain ⟨t₁, hfirst⟩ := hvisit a (has a List.mem_cons_self) t hn
      obtain ⟨_, _, hadds, _⟩ := adds_of_visit hfirst
      obtain ⟨t', hrest⟩ := ih (fun b hb => has b (List.mem_cons_of_mem a hb))
        (lt_of_le_of_lt (remaining_le hadds) hn)
      exact ⟨t', by rw [visitAll, hfirst]; exact hrest⟩

/-- A visit ends if the bound is above the number of vertices that are not started. -/
theorem exists_visit
    {vertices : Finset α}
    (hclosed : ∀ a ∈ vertices, ∀ b ∈ calls a, b ∈ vertices)
    {n : Nat}
    (hvertex : a ∈ vertices)
    (hn : remaining vertices t < n) :
    ∃ t', visit calls n a t = some t' := by
  induction n generalizing a t with
  | zero =>
      cases hn
  | succ n ih =>
      rw [visit]
      split_ifs with ha
      · exact ⟨t, rfl⟩
      · have hless := remaining_start_lt hvertex ha
        obtain ⟨t', hcalls⟩ := exists_visitAll (fun b hb u hu => ih hb hu) (hclosed a hvertex)
          (t := t.start a) (by omega)
        exact ⟨t'.finish a, by rw [hcalls]⟩

/-- A greater bound does not change the result. -/
theorem visit_mono
    {n m : Nat}
    (hnm : n ≤ m)
    (h : visit calls n a t = some t') :
    visit calls m a t = some t' := by
  induction n generalizing a t t' m with
  | zero =>
      cases h
  | succ n ih =>
      obtain ⟨m, rfl⟩ := Nat.exists_eq_add_of_lt hnm
      rw [visit] at h ⊢
      split_ifs at h ⊢
      · exact h
      · split at h
        · cases h
        · rename_i t₁ hcalls
          rw [visitAll_mono (fun _ _ _ hvisit => ih (Nat.le_add_right n m) hvisit) hcalls]
          exact h

end Visits

end DepthFirst
end Gamnet
