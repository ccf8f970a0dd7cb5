import Mathlib.Data.ZMod.Basic

/-!
# Turns of a cyclic counter

A sequence of residues modulo k gives each of k places its turn when its first k members
are different. It does so when every member is the successor of the one before. A sequence
that breaks this at one step alone does not, and at two steps only if the second one goes
back to where the first one left off.

The module is independent of any program.
-/

namespace Gamnet
namespace RoundRobin

variable {k : ℕ} {v : ℕ → ZMod k} {i j : ℕ}

/-- The first k members are different. -/
def Fair (v : ℕ → ZMod k) : Prop :=
  ∀ i < k, ∀ j < k, v i = v j → i = j

/-- The member behind the i-th one is not its successor. -/
def Breaks (v : ℕ → ZMod k) (i : ℕ) : Prop :=
  v (i + 1) ≠ v i + 1

/-- A number below k that is zero modulo k. -/
theorem eq_zero_of_cast
    {n : ℕ}
    (hn : n < k)
    (hcast : (n : ZMod k) = 0) :
    n = 0 :=
  Nat.eq_zero_of_dvd_of_lt ((ZMod.natCast_eq_zero_iff n k).mp hcast) hn

/-- Members without a break between them. -/
theorem add_of_not_breaks
    {n : ℕ}
    (h : ∀ m, i ≤ m → m < i + n → ¬ Breaks v m) :
    v (i + n) = v i + n := by
  induction n with
  | zero =>
      simp
  | succ n ih =>
      have hstep : v (i + n + 1) = v (i + n) + 1 :=
        not_not.mp (h (i + n) (Nat.le_add_right i n) (by omega))
      rw [← Nat.add_assoc, hstep, ih fun m hi hm => h m hi (by omega), Nat.cast_succ, add_assoc]

/-- Without a break each place has its turn. -/
theorem fair_of_not_breaks
    (h : ∀ i, i + 1 < k → ¬ Breaks v i) :
    Fair v := by
  have hvalue : ∀ n < k, v n = v 0 + n := by
    intro n hn
    have hadd := add_of_not_breaks (v := v) (i := 0) (n := n) fun m _ hm => h m (by omega)
    rwa [Nat.zero_add] at hadd
  intro i hi j hj hij
  rw [hvalue i hi, hvalue j hj] at hij
  have hcast : (i : ZMod k) = (j : ZMod k) := add_left_cancel hij
  rw [ZMod.natCast_eq_natCast_iff'] at hcast
  rwa [Nat.mod_eq_of_lt hi, Nat.mod_eq_of_lt hj] at hcast

/-- Members without a break between them do not come round. -/
theorem ne_of_not_breaks
    (hij : i < j)
    (hj : j < k)
    (h : ∀ m, i < m → m < j → ¬ Breaks v m) :
    v (i + 1) ≠ v j + 1 := by
  intro hround
  have hsum : i + 1 + (j - (i + 1)) = j := by omega
  have hadd := add_of_not_breaks (v := v) (i := i + 1) (n := j - (i + 1))
    fun m hm hm' => h m hm (by omega)
  rw [hsum, hround, add_assoc, left_eq_add, add_comm, ← Nat.cast_succ] at hadd
  have hzero := eq_zero_of_cast (by omega) hadd
  omega

namespace Fair

/-- Each place has its turn. -/
theorem exists_turn
    [NeZero k]
    (h : Fair v)
    (x : ZMod k) :
    ∃ i < k, v i = x := by
  have hinj : Function.Injective fun i : Fin k => v i := by
    intro i j hij
    exact Fin.ext (h i i.isLt j j.isLt hij)
  have hcard : Fintype.card (Fin k) = Fintype.card (ZMod k) := by
    rw [Fintype.card_fin, ZMod.card]
  obtain ⟨i, hi⟩ := ((Fintype.bijective_iff_injective_and_card _).mpr ⟨hinj, hcard⟩).2 x
  exact ⟨i, i.isLt, hi⟩

/-- The predecessor of a member behind a break is the last member, or one with a break
behind it. -/
theorem exists_before
    [NeZero k]
    (h : Fair v)
    (hi : i + 1 < k)
    (hbreaks : Breaks v i) :
    ∃ m < k, v (i + 1) = v m + 1 ∧ m ≠ i ∧ (m + 1 < k → Breaks v m) := by
  obtain ⟨m, hm, hvalue⟩ := h.exists_turn (v (i + 1) - 1)
  have hbefore : v (i + 1) = v m + 1 := by
    rw [hvalue, sub_add_cancel]
  have hne : m ≠ i := by
    rintro rfl
    exact hbreaks hbefore
  refine ⟨m, hm, hbefore, hne, fun hlast hnext => ?_⟩
  have heq := h (m + 1) hlast (i + 1) hi (hnext.trans hbefore.symm)
  exact hne (Nat.succ_injective heq)

/-- A break is not the only one. -/
theorem exists_other
    [NeZero k]
    (h : Fair v)
    (hi : i + 1 < k)
    (hbreaks : Breaks v i) :
    ∃ j, j + 1 < k ∧ j ≠ i ∧ Breaks v j := by
  obtain ⟨m, hm, hbefore, hne, hother⟩ := h.exists_before hi hbreaks
  by_cases hlast : m + 1 < k
  · exact ⟨m, hlast, hne, hother hlast⟩
  · by_contra hnone
    refine ne_of_not_breaks (by omega) hm (fun n hn hnm hbreaks' => ?_) hbefore
    exact hnone ⟨n, by omega, Nat.ne_of_gt hn, hbreaks'⟩

/-- The second of two breaks goes back to where the first one left off. -/
theorem eq_of_two_breaks
    [NeZero k]
    (h : Fair v)
    (hij : i < j)
    (hj : j + 1 < k)
    (hi' : Breaks v i)
    (hj' : Breaks v j)
    (honly : ∀ m, m + 1 < k → Breaks v m → m = i ∨ m = j) :
    v (j + 1) = v i + 1 := by
  obtain ⟨m, hm, hbefore, hne, hother⟩ := h.exists_before (by omega) hi'
  -- behind the first break come the members that end the turns
  have hlast : m + 1 = k := by
    by_contra hlast
    rcases honly m (by omega) (hother (by omega)) with rfl | rfl
    · exact hne rfl
    · refine ne_of_not_breaks hij hm (fun n hn hnm hbreaks => ?_) hbefore
      rcases honly n (by omega) hbreaks with rfl | rfl
      · exact Nat.lt_irrefl _ hn
      · exact Nat.lt_irrefl _ hnm
  obtain ⟨m', hm', hbefore', hne', hother'⟩ := h.exists_before hj hj'
  by_cases hlast' : m' + 1 < k
  · rcases honly m' hlast' (hother' hlast') with rfl | rfl
    · exact hbefore'
    · exact absurd rfl hne'
  · obtain rfl : m' = m := by omega
    have heq := h (i + 1) (by omega) (j + 1) hj (hbefore.trans hbefore'.symm)
    omega

end Fair

end RoundRobin
end Gamnet
