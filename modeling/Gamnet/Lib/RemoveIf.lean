import Mathlib.Data.List.Basic

/-!
# Removing elements from a sequence container

The remove_if algorithm moves the elements that it keeps to the front and
returns the new logical end; between that end and the old one it leaves the
elements that were not overwritten, and moved-from values where an element was
moved away. Erasing the single element at the new end therefore removes the
selected elements only in special cases: `erase_removeIf_eq_iff` says when the
result is the sequence without one given element.

The module is independent of any program.
-/

namespace Gamnet
namespace RemoveIf

universe u

variable {α : Type u}

/-- The loop of remove_if behind the first selected element: the kept elements,
the positions between the write and the read position, and the elements still
to be read. -/
def shift (p : α → Bool) (moved : α) :
    List α → List α → List α → List α × List α
  | kept, gap, [] => (kept, gap)
  | kept, gap, x :: rest =>
      if p x then shift p moved kept (gap ++ [x]) rest
      else shift p moved (kept ++ [x]) (gap.tail ++ [moved]) rest

/-- The remove_if algorithm: the elements in front of the returned iterator, and
those from it on. -/
def removeIf (p : α → Bool) (moved : α) : List α → List α × List α
  | [] => ([], [])
  | x :: xs =>
      if p x then shift p moved [] [x] xs
      else
        let r := removeIf p moved xs
        (x :: r.1, r.2)

/-- Erase the element at an iterator that splits a sequence. There is none at
the end of the sequence. -/
def eraseAt : List α × List α → Option (List α)
  | (_, []) => none
  | (front, _ :: back) => some (front ++ back)

section Loop

variable (p : α → Bool) (moved : α)

theorem shift_fst
    (kept gap rest : List α) :
    (shift p moved kept gap rest).1 = kept ++ rest.filter (fun x => !p x) := by
  induction rest generalizing kept gap with
  | nil =>
      simp [shift]
  | cons x rest ih =>
      rw [shift]
      cases hx : p x with
      | true =>
          simp [ih, hx]
      | false =>
          simp [ih, hx]

theorem shift_snd_ne_nil
    {gap : List α}
    (hgap : gap ≠ [])
    (kept rest : List α) :
    (shift p moved kept gap rest).2 ≠ [] := by
  induction rest generalizing kept gap with
  | nil =>
      exact hgap
  | cons x rest ih =>
      rw [shift]
      cases hx : p x with
      | true =>
          exact ih (by simp) kept
      | false =>
          exact ih (by simp) (kept ++ [x])

theorem shift_snd_length
    {gap : List α}
    (hgap : gap ≠ [])
    (kept rest : List α) :
    (shift p moved kept gap rest).2.length =
      gap.length + (rest.filter p).length := by
  induction rest generalizing kept gap with
  | nil =>
      rfl
  | cons x rest ih =>
      have hpos := List.length_pos_of_ne_nil hgap
      rw [shift]
      cases hx : p x with
      | true =>
          rw [if_pos rfl, ih (by simp) kept, List.filter_cons_of_pos hx]
          simp only [List.length_append, List.length_cons, List.length_nil]
          omega
      | false =>
          rw [if_neg Bool.false_ne_true, ih (by simp) (kept ++ [x]),
            List.filter_cons_of_neg (by simp [hx])]
          simp only [List.length_append, List.length_tail, List.length_cons,
            List.length_nil]
          omega

/-- Elements that are all selected stay where they are. -/
theorem shift_snd_of_all
    {w : List α}
    (hw : ∀ x ∈ w, p x = true)
    (kept gap : List α) :
    (shift p moved kept gap w).2 = gap ++ w := by
  induction w generalizing gap with
  | nil =>
      simp [shift]
  | cons x w ih =>
      rw [shift, if_pos (hw x List.mem_cons_self),
        ih (fun y hy => hw y (List.mem_cons_of_mem x hy))]
      simp

/-- Kept elements in front of selected ones: exactly one position is lost. -/
theorem shift_snd_of_split
    {v w : List α} {g : α}
    (hv : ∀ x ∈ v, p x = false)
    (hw : ∀ x ∈ w, p x = true)
    (kept : List α) :
    (shift p moved kept [g] (v ++ w)).2.tail = w := by
  induction v generalizing kept g with
  | nil =>
      rw [List.nil_append, shift_snd_of_all p moved hw]
      rfl
  | cons x v ih =>
      have hx := hv x List.mem_cons_self
      rw [List.cons_append, shift, hx]
      exact ih (fun y hy => hv y (List.mem_cons_of_mem x hy)) (kept ++ [x])

/-- Elements in front of the first selected one stay where they are. -/
theorem removeIf_append
    {u : List α}
    (hu : ∀ x ∈ u, p x = false)
    (xs : List α) :
    removeIf p moved (u ++ xs) =
      (u ++ (removeIf p moved xs).1, (removeIf p moved xs).2) := by
  induction u with
  | nil =>
      rfl
  | cons x u ih =>
      have hx := hu x List.mem_cons_self
      rw [List.cons_append, removeIf, hx,
        ih (fun y hy => hu y (List.mem_cons_of_mem x hy))]
      rfl

/-- Without a selected element the returned iterator is the end. -/
theorem removeIf_of_none
    {xs : List α}
    (hxs : ∀ x ∈ xs, p x = false) :
    removeIf p moved xs = (xs, []) := by
  have h := removeIf_append p moved hxs []
  simpa [removeIf] using h

end Loop

section Single

variable {p : α → Bool} {moved s : α}

/-- The first selected element, if any. -/
theorem exists_first
    {xs : List α}
    (hs : ∃ x ∈ xs, p x = true) :
    ∃ u m rest, xs = u ++ m :: rest ∧ (∀ x ∈ u, p x = false) ∧
      p m = true := by
  induction xs with
  | nil =>
      obtain ⟨x, hx, _⟩ := hs
      cases hx
  | cons y ys ih =>
      cases hy : p y with
      | true =>
          exact ⟨[], y, ys, rfl, by simp, hy⟩
      | false =>
          have hys : ∃ x ∈ ys, p x = true := by
            obtain ⟨x, hx, hpx⟩ := hs
            rcases List.mem_cons.mp hx with rfl | hx
            · rw [hy] at hpx
              cases hpx
            · exact ⟨x, hx, hpx⟩
          obtain ⟨u, m, rest, rfl, hu, hm⟩ := ih hys
          refine ⟨y :: u, m, rest, rfl, ?_, hm⟩
          intro x hx
          rcases List.mem_cons.mp hx with rfl | hx
          · exact hy
          · exact hu x hx

/-- An element that slides past equal ones: removing it anywhere gives the same
sequence only if it equals the first one. -/
theorem eq_of_cons_append_eq
    {m : α} {a b : List α}
    (h : m :: (a ++ b) = a ++ s :: b) :
    m = s := by
  induction a generalizing m with
  | nil =>
      simp only [List.nil_append, List.cons.injEq] at h
      exact h.1
  | cons x a ih =>
      simp only [List.cons_append, List.cons.injEq] at h
      obtain ⟨rfl, h⟩ := h
      exact ih h

/-- The sequence shape for which remove_if and a single erase remove exactly
the element s: behind s come kept elements first and then selected ones. -/
def Removable (p : α → Bool) (s : α) (xs : List α) : Prop :=
  ∃ u v w, xs = u ++ s :: (v ++ w) ∧
    (∀ x ∈ u ++ v, p x = false) ∧ (∀ x ∈ w, p x = true) ∧ s ∉ w

theorem not_mem_of_not_selected
    {xs : List α}
    (hs : p s = true)
    (hxs : ∀ x ∈ xs, p x = false) :
    s ∉ xs := by
  intro h
  rw [hxs s h] at hs
  cases hs

variable [DecidableEq α]

theorem filter_ne_of_not_mem
    {xs : List α}
    (h : s ∉ xs) :
    xs.filter (fun x => decide (x ≠ s)) = xs := by
  rw [List.filter_eq_self]
  intro x hx
  rw [decide_eq_true_eq]
  rintro rfl
  exact h hx

/-- A sequence that keeps its length when its first element is doubled and s is
left out. -/
theorem eq_of_eq_cons_filter
    {m : α} {xs : List α}
    (h : xs = m :: xs.filter (fun x => decide (x ≠ s))) :
    m = s := by
  by_cases hs : s ∈ xs
  · obtain ⟨a, b, hxs, ha⟩ := List.eq_append_cons_of_mem hs
    have hcount := congrArg List.length h
    rw [hxs] at h hcount
    rw [List.filter_append, filter_ne_of_not_mem ha,
      List.filter_cons_of_neg (by simp)] at h hcount
    simp only [List.length_append, List.length_cons] at hcount
    have hb : b.filter (fun x => decide (x ≠ s)) = b :=
      List.filter_sublist.eq_of_length (by omega)
    rw [hb] at h
    exact eq_of_cons_append_eq h.symm
  · rw [filter_ne_of_not_mem hs] at h
    have hcount := congrArg List.length h
    simp at hcount

theorem erase_removeIf_of_removable
    {xs : List α}
    (hs : p s = true)
    (h : Removable p s xs) :
    eraseAt (removeIf p moved xs) =
      some (xs.filter (fun x => decide (x ≠ s))) := by
  obtain ⟨u, v, w, rfl, huv, hw, hsw⟩ := h
  have hu : ∀ x ∈ u, p x = false := fun x hx =>
    huv x (List.mem_append_left v hx)
  have hv : ∀ x ∈ v, p x = false := fun x hx =>
    huv x (List.mem_append_right u hx)
  have hkept : (v ++ w).filter (fun x => !p x) = v := by
    rw [List.filter_append, List.filter_eq_self.mpr, List.filter_eq_nil_iff.mpr,
      List.append_nil]
    · intro x hx
      rw [hw x hx]
      decide
    · intro x hx
      rw [hv x hx]
      rfl
  have hfst := shift_fst p moved [] [s] (v ++ w)
  have hsnd := shift_snd_of_split p moved (g := s) hv hw []
  have hne := shift_snd_ne_nil p moved (List.cons_ne_nil s []) [] (v ++ w)
  rw [removeIf_append p moved hu, removeIf, if_pos hs]
  rw [hkept, List.nil_append] at hfst
  rw [hfst]
  have hfilter : (u ++ s :: (v ++ w)).filter (fun x => decide (x ≠ s)) =
      u ++ (v ++ w) := by
    rw [List.filter_append,
      filter_ne_of_not_mem (not_mem_of_not_selected hs hu),
      List.filter_cons_of_neg (by simp), List.filter_append,
      filter_ne_of_not_mem (not_mem_of_not_selected hs hv),
      filter_ne_of_not_mem hsw]
  rw [hfilter]
  cases htail : (shift p moved [] [s] (v ++ w)).2 with
  | nil =>
      exact absurd htail hne
  | cons g gap =>
      rw [htail, List.tail_cons] at hsnd
      rw [eraseAt, hsnd, List.append_assoc]

theorem removable_of_erase_removeIf
    {xs : List α}
    (hs : p s = true)
    (h : eraseAt (removeIf p moved xs) =
      some (xs.filter (fun x => decide (x ≠ s)))) :
    Removable p s xs := by
  have hselected : ∃ x ∈ xs, p x = true := by
    by_contra hnone
    have hxs : ∀ x ∈ xs, p x = false := by
      intro x hx
      by_contra hpx
      exact hnone ⟨x, hx, by simpa using hpx⟩
    rw [removeIf_of_none p moved hxs] at h
    cases h
  obtain ⟨u, m, rest, rfl, hu, hm⟩ := exists_first hselected
  have hsu := not_mem_of_not_selected hs hu
  have hfst := shift_fst p moved [] [m] rest
  have hne := shift_snd_ne_nil p moved (List.cons_ne_nil m []) [] rest
  rw [removeIf_append p moved hu, removeIf, if_pos hm] at h
  rw [List.filter_append, filter_ne_of_not_mem hsu] at h
  cases htail : (shift p moved [] [m] rest).2 with
  | nil =>
      exact absurd htail hne
  | cons g gap =>
      rw [hfst, htail, eraseAt, Option.some.injEq, List.append_assoc,
        List.append_cancel_left_eq, List.nil_append] at h
      have hlength := shift_snd_length p moved (List.cons_ne_nil m []) [] rest
      rw [htail] at hlength
      simp only [List.length_cons, List.length_nil] at hlength
      have hsum := List.length_eq_length_filter_add (l := rest) p
      have hcount := congrArg List.length h
      rw [List.length_append] at hcount
      by_cases hms : m = s
      · subst hms
        have hfilter : (m :: rest).filter (fun x => decide (x ≠ m)) =
            rest.filter (fun x => decide (x ≠ m)) := by
          rw [List.filter_cons_of_neg (by simp)]
        rw [hfilter] at h hcount
        have hrest : rest.filter (fun x => decide (x ≠ m)) = rest :=
          List.filter_sublist.eq_of_length (by omega)
        rw [hrest] at h
        refine ⟨u, rest.filter (fun x => !p x), gap, ?_, ?_, ?_, ?_⟩
        · rw [h]
        · intro x hx
          rcases List.mem_append.mp hx with hx | hx
          · exact hu x hx
          · simpa using (List.mem_filter.mp hx).2
        · have hgap : gap.filter (fun x => !p x) = [] := by
            have hagain := congrArg (List.filter (fun x => !p x)) h
            rw [List.filter_append, List.filter_filter] at hagain
            simpa using hagain
          intro x hx
          have hx' := List.filter_eq_nil_iff.mp hgap x hx
          simpa using hx'
        · intro hmem
          have hmem' : m ∈ rest := by
            rw [← h]
            exact List.mem_append_right _ hmem
          rw [← hrest] at hmem'
          simpa using (List.mem_filter.mp hmem').2
      · rw [List.filter_cons_of_pos (by simpa using hms)] at h hcount
        cases hkept : rest.filter (fun x => !p x) with
        | cons k ks =>
            rw [hkept, List.cons_append, List.cons.injEq] at h
            have hk : k ∈ rest.filter (fun x => !p x) := by
              rw [hkept]
              exact List.mem_cons_self
            have hpk := (List.mem_filter.mp hk).2
            rw [h.1, hm] at hpk
            cases hpk
        | nil =>
            have hall : ∀ x ∈ rest, p x = true := by
              intro x hx
              have hx' := List.filter_eq_nil_iff.mp hkept x hx
              simpa using hx'
            have hsnd := shift_snd_of_all p moved hall [] [m]
            rw [htail, List.singleton_append, List.cons.injEq] at hsnd
            rw [hkept, List.nil_append, hsnd.2] at h
            exact absurd (eq_of_eq_cons_filter h) hms

/-- When remove_if and a single erase remove exactly the element s. -/
theorem erase_removeIf_eq_iff
    {xs : List α}
    (hs : p s = true) :
    eraseAt (removeIf p moved xs) =
        some (xs.filter (fun x => decide (x ≠ s))) ↔
      Removable p s xs :=
  ⟨removable_of_erase_removeIf hs, erase_removeIf_of_removable hs⟩

end Single

section Exact

variable (p : α → Bool) (moved : α)

/-- What lies behind the kept elements: the last of the old places, where a kept element
has been moved away. -/
theorem shift_snd
    {gap : List α}
    (hgap : gap ≠ [])
    (kept rest : List α) :
    (shift p moved kept gap rest).2 =
      (gap ++ rest.map fun x => if p x then x else moved).drop
        (rest.filter fun x => !p x).length := by
  induction rest generalizing kept gap with
  | nil =>
      simp [shift]
  | cons x rest ih =>
      rw [shift]
      cases hx : p x with
      | true =>
          rw [if_pos rfl, ih (by simp) kept, List.filter_cons_of_neg (by simp [hx])]
          simp [hx]
      | false =>
          obtain ⟨g, gap, rfl⟩ := List.exists_cons_of_ne_nil hgap
          rw [if_neg Bool.false_ne_true, ih (by simp) (kept ++ [x]),
            List.filter_cons_of_pos (by simp [hx])]
          simp [hx]

variable {p : α → Bool} {moved : α}

theorem eq_of_eraseAt
    {front gap ys : List α}
    (h : eraseAt (front, gap) = some ys) :
    ys = front ++ gap.tail := by
  cases gap with
  | nil =>
      cases h
  | cons g gap =>
      exact (Option.some.inj h).symm

/-- If the front of a sequence is as long as there are kept elements, and no element of it
is selected, all others are. -/
theorem selected_drop_of_take
    {rest : List α} {n : Nat}
    (hn : n = (rest.filter fun x => !p x).length)
    (hfront : ∀ x ∈ rest.take n, p x = false) :
    ∀ x ∈ rest.drop n, p x = true := by
  have hsum : (rest.filter fun x => !p x).length =
      ((rest.take n).filter fun x => !p x).length +
        ((rest.drop n).filter fun x => !p x).length := by
    rw [← List.length_append, ← List.filter_append, List.take_append_drop]
  have hle : n ≤ rest.length := by
    rw [hn]
    exact List.length_filter_le _ _
  have htake : ((rest.take n).filter fun x => !p x).length = n := by
    rw [List.filter_eq_self.mpr fun x hx => by rw [hfront x hx]; rfl, List.length_take,
      Nat.min_eq_left hle]
  have hnone : (rest.drop n).filter (fun x => !p x) = [] := by
    rw [← List.length_eq_zero_iff]
    omega
  intro x hx
  simpa using List.filter_eq_nil_iff.mp hnone x hx

/-- If the sequence has no element twice and all its other elements are still there when
one has been erased, exactly this one was. -/
theorem removable_of_subset
    {xs ys : List α} {s : α}
    (hmoved : moved ∉ xs)
    (hnodup : xs.Nodup)
    (herase : eraseAt (removeIf p moved xs) = some ys)
    (hall : ∀ x ∈ xs, x ≠ s → x ∈ ys) :
    Removable p s xs := by
  have hselected : ∃ x ∈ xs, p x = true := by
    by_contra hnone
    have hxs : ∀ x ∈ xs, p x = false := by
      intro x hx
      by_contra hpx
      exact hnone ⟨x, hx, by simpa using hpx⟩
    rw [removeIf_of_none p moved hxs] at herase
    cases herase
  obtain ⟨u, m, rest, rfl, hu, hm⟩ := exists_first hselected
  have hfst := shift_fst p moved [] [m] rest
  have hsnd := shift_snd p moved (List.cons_ne_nil m []) [] rest
  rw [removeIf_append p moved hu, removeIf, if_pos hm] at herase
  obtain ⟨n, hn⟩ : ∃ n, n = (rest.filter fun x => !p x).length := ⟨_, rfl⟩
  have hys : ∀ x ∈ ys, x ∈ u ∨ (x ∈ rest ∧ p x = false) ∨
      x ∈ (rest.drop n).map fun x => if p x then x else moved := by
    intro x hx
    rw [eq_of_eraseAt herase, hfst, hsnd, ← hn, List.singleton_append, List.tail_drop,
      List.drop_succ_cons, ← List.map_drop] at hx
    simpa [or_assoc] using hx
  -- an element that is selected and still there lies behind the first n ones
  have hbehind : ∀ x ∈ u ++ m :: rest, p x = true → x ≠ s → x ∈ rest.drop n := by
    intro x hx hpx hne
    rcases hys x (hall x hx hne) with hxu | ⟨-, hpx'⟩ | hxd
    · rw [hu x hxu] at hpx
      cases hpx
    · rw [hpx] at hpx'
      cases hpx'
    · obtain ⟨y, hy, rfl⟩ := List.mem_map.mp hxd
      split_ifs at hx hpx ⊢ with hpy
      · exact hy
      · exact absurd hx hmoved
  obtain ⟨-, hnodup', -⟩ := List.nodup_append.mp hnodup
  obtain ⟨hm', hrest⟩ := List.nodup_cons.mp hnodup'
  have hms : m = s := by
    by_contra hne
    exact hm' (List.mem_of_mem_drop (hbehind m (by simp) hm hne))
  subst hms
  have hfront : ∀ x ∈ rest.take n, p x = false := by
    intro x hx
    by_contra hpx
    have hxr := List.mem_of_mem_take hx
    have hxd := hbehind x (by simp [hxr]) (by simpa using hpx) fun h => hm' (h ▸ hxr)
    rw [← List.take_append_drop n rest] at hrest
    exact (List.nodup_append.mp hrest).2.2 x hx x hxd rfl
  refine ⟨u, rest.take n, rest.drop n, by rw [List.take_append_drop], ?_,
    selected_drop_of_take hn hfront, fun h => hm' (List.mem_of_mem_drop h)⟩
  intro x hx
  rcases List.mem_append.mp hx with hx | hx
  · exact hu x hx
  · exact hfront x hx

end Exact

end RemoveIf
end Gamnet
