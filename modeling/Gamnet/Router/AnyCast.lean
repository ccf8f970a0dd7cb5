import Gamnet.Lib.RoundRobin
import Gamnet.Lib.Transition
import Gamnet.Router.Routes
import Mathlib.Data.List.Perm.Subperm

/-!
# The turns of the any-cast caster

The any-cast table keeps with each array an int, which a registration sets to the last
index of the array and every SendMsg increments. It is converted to size_t before the
modulus. The conversion adds 2^64 to a negative number, so that the index that follows
2^31 - 1 and the one that follows -1 need not be the next ones.

As many SendMsg calls in a row as there are sessions select each of them once exactly if
the number of sessions divides 2^64 - 2^32 where the counter becomes negative between two
of these calls, and 2^64 where it becomes zero again (`any_cast_fair_iff`).
-/

namespace Gamnet
namespace Router

/-- A call of RouterCaster that reads or changes the any-cast table. -/
inductive AnyCall
  | register (addr : Address) (s : SessionId)
  | unregister (addr : Address)
  | send (p : Pending)

/-- The state behind a call. -/
def AnyCall.step (w : World) : AnyCall → Option World
  | .register addr s =>
      match registerAddress w addr s with
      | .error _ => none
      | .ok (_, w) => some w
  | .unregister addr =>
      match unregisterAddress w.sessions w.tables addr with
      | .error _ => none
      | .ok (_, t) => some { w with tables := t }
  | .send p =>
      match sendAny w p with
      | .error _ => none
      | .ok w => some w

/-- The pointer that RouterCasterImpl_Any::SendMsg takes from the array of a service. -/
def selectAny (w : World) (name : List UInt8) : Option Pointer :=
  match w.tables.any name with
  | none => none
  | some (first, lst) => lst[sizeOfInt first % lst.length]?

/-- Calls of RouterCasterImpl_Any::SendMsg in a row, with the sessions that they select. -/
def selections (w : World) : List Pending → Option (List SessionId)
  | [] => some []
  | p :: calls =>
      match selectAny w p.addr.serviceName, sendAny w p with
      | some (some r), .ok w' => (selections w' calls).map fun rs => r :: rs
      | _, _ => none

/-- Where the counter becomes negative between two of the k calls that begin with it, k
divides 2^64 - 2^32, and where it becomes zero again, k divides 2^64. -/
def Unbroken (first k : Nat) : Prop :=
  (∀ i, i + 1 < k → (first + i) % 2 ^ 32 = 2 ^ 31 - 1 → k ∣ 2 ^ 64 - 2 ^ 32) ∧
    ∀ i, i + 1 < k → (first + i) % 2 ^ 32 = 2 ^ 32 - 1 → k ∣ 2 ^ 64

section Counter

/-- The counters are ints. -/
def Counts (any : List UInt8 → Option (Nat × List Pointer)) : Prop :=
  ∀ name first lst, any name = some (first, lst) → first < 2 ^ 32

variable {w w' : World} {t t' : Tables} {addr : Address} {s : SessionId} {b : Bool}

theorem Counts.update
    {any : List UInt8 → Option (Nat × List Pointer)}
    (h : Counts any)
    (name : List UInt8)
    {first : Nat}
    (hfirst : first < 2 ^ 32)
    (lst : List Pointer) :
    Counts (Function.update any name (some (first, lst))) := by
  intro name' first' lst' hentry
  by_cases hname : name' = name
  · rw [hname, Function.update_self] at hentry
    cases hentry
    exact hfirst
  · rw [Function.update_of_ne hname] at hentry
    exact h name' first' lst' hentry

theorem counts_registerAny
    {sessions : SessionId → Session}
    (h : Counts t.any)
    (hregister : registerAny sessions t addr s = .ok (b, t')) :
    Counts t'.any := by
  have hfirst : ((t.any addr.serviceName).getD (0, [])).1 < 2 ^ 32 := by
    cases hentry : t.any addr.serviceName with
    | none => exact Nat.two_pow_pos 32
    | some entry => exact h _ _ _ hentry
  simp only [registerAny] at hregister
  split at hregister
  · cases hregister
  · cases hregister
    exact h.update _ hfirst _
  · cases hregister
    exact h.update _ (Nat.mod_lt _ (Nat.two_pow_pos 32)) _

theorem any_registerUni
    (t : Tables) (addr : Address) (s : SessionId) :
    (registerUni t addr s).2.any = t.any := by
  unfold registerUni
  split
  · rfl
  · rfl

theorem any_registerMulti
    {sessions : SessionId → Session}
    (hregister : registerMulti sessions t addr s = .ok (b, t')) :
    t'.any = t.any := by
  simp only [registerMulti] at hregister
  split at hregister
  · cases hregister
  · cases hregister
    rfl
  · cases hregister
    rfl

theorem counts_registerAddress
    (h : Counts w.tables.any)
    (hregister : registerAddress w addr s = .ok (b, w')) :
    Counts w'.tables.any := by
  have huni := any_registerUni w.tables addr s
  unfold registerAddress at hregister
  split at hregister
  · rename_i t hfirst
    rw [hfirst] at huni
    cases hregister
    exact huni ▸ h
  · rename_i t hfirst
    rw [hfirst] at huni
    have ht : Counts t.any := huni ▸ h
    split at hregister
    · cases hregister
    · rename_i hmulti
      cases hregister
      exact any_registerMulti hmulti ▸ ht
    · rename_i t' hmulti
      have ht' : Counts t'.any := any_registerMulti hmulti ▸ ht
      split at hregister
      · cases hregister
      · rename_i hany
        cases hregister
        exact counts_registerAny ht' hany
      · rename_i hany
        cases hregister
        exact counts_registerAny ht' hany

theorem counts_unregisterAny
    {sessions : SessionId → Session}
    (h : Counts t.any)
    (hunregister : unregisterAny sessions t addr = .ok (b, t')) :
    Counts t'.any := by
  unfold unregisterAny at hunregister
  split at hunregister
  · cases hunregister
    exact h
  · rename_i hentry
    split at hunregister
    · cases hunregister
    · cases hunregister
      exact h.update _ (h _ _ _ hentry) _

theorem any_unregisterUni
    (t : Tables) (addr : Address) :
    (unregisterUni t addr).2.any = t.any := by
  unfold unregisterUni
  split
  · rfl
  · rfl

theorem any_unregisterMulti
    {sessions : SessionId → Session}
    (hunregister : unregisterMulti sessions t addr = .ok (b, t')) :
    t'.any = t.any := by
  unfold unregisterMulti at hunregister
  split at hunregister
  · cases hunregister
    rfl
  · split at hunregister
    · cases hunregister
    · cases hunregister
      rfl

theorem counts_unregisterAddress
    {sessions : SessionId → Session}
    (h : Counts t.any)
    (hunregister : unregisterAddress sessions t addr = .ok (b, t')) :
    Counts t'.any := by
  refine @unregisterAddress_rule sessions (fun t => Counts t.any) t t' addr b ?_ ?_ ?_ hunregister
  · rw [any_unregisterUni]
    exact h
  · intro t t' b h hmulti
    rw [any_unregisterMulti hmulti]
    exact h
  · exact fun _ _ _ h => counts_unregisterAny h

/-- A call of SendMsg selects a session and increments the counter. -/
theorem sendAny_eq
    {p : Pending} {first : Nat} {lst : List Pointer} {r : SessionId}
    (hentry : w.tables.any p.addr.serviceName = some (first, lst))
    (hselect : lst[sizeOfInt first % lst.length]? = some (some r)) :
    ∃ w', sendAny w p = .ok w' ∧
      w'.tables.any = Function.update w.tables.any p.addr.serviceName
        (some ((first + 1) % 2 ^ 32, lst)) := by
  simp only [sendAny, hentry, hselect]
  exact ⟨_, rfl, rfl⟩

theorem counts_sendAny
    {p : Pending}
    (h : Counts w.tables.any)
    (hsend : sendAny w p = .ok w') :
    Counts w'.tables.any := by
  unfold sendAny at hsend
  split at hsend
  · cases hsend
    exact h
  · rename_i first lst hentry
    split at hsend
    · cases hsend
      exact h
    · cases hsend
    · cases hsend
      exact h.update _ (Nat.mod_lt _ (Nat.two_pow_pos 32)) _

/-- Every call leaves the counters ints. -/
theorem counts_step
    {x : AnyCall}
    (h : Counts w.tables.any)
    (hstep : x.step w = some w') :
    Counts w'.tables.any := by
  cases x with
  | register addr s =>
      simp only [AnyCall.step] at hstep
      split at hstep
      · cases hstep
      · rename_i hregister
        cases hstep
        exact counts_registerAddress h hregister
  | unregister addr =>
      simp only [AnyCall.step] at hstep
      split at hstep
      · cases hstep
      · rename_i hunregister
        cases hstep
        exact counts_unregisterAddress h hunregister
  | send p =>
      simp only [AnyCall.step] at hstep
      split at hstep
      · cases hstep
      · rename_i hsend
        cases hstep
        exact counts_sendAny h hsend

end Counter

section Turns

variable {first k : Nat}

/-- The places of the array that calls in a row select, when the counter begins with
first. -/
def turn (first k : Nat) (i : Nat) : ZMod k :=
  (sizeOfInt ((first + i) % 2 ^ 32) : ZMod k)

/-- The turn behind one at which the counter does not change its sign. -/
theorem turn_succ
    {i : Nat}
    (hnegative : (first + i) % 2 ^ 32 ≠ 2 ^ 31 - 1)
    (hzero : (first + i) % 2 ^ 32 ≠ 2 ^ 32 - 1) :
    turn first k (i + 1) = turn first k i + 1 := by
  have hnext : sizeOfInt ((first + (i + 1)) % 2 ^ 32) =
      sizeOfInt ((first + i) % 2 ^ 32) + 1 := by
    unfold sizeOfInt
    split_ifs <;> omega
  rw [turn, turn, hnext, Nat.cast_succ]

/-- The counter becomes negative: 2^64 - 2^32 places are left out. -/
theorem turn_negative
    {i : Nat}
    (hi : (first + i) % 2 ^ 32 = 2 ^ 31 - 1) :
    turn first k i + 1 = (2 ^ 31 : ℕ) ∧
      turn first k (i + 1) = turn first k i + 1 + (2 ^ 64 - 2 ^ 32 : ℕ) := by
  have hthis : sizeOfInt ((first + i) % 2 ^ 32) + 1 = 2 ^ 31 := by
    unfold sizeOfInt
    split_ifs <;> omega
  have hnext : sizeOfInt ((first + (i + 1)) % 2 ^ 32) = 2 ^ 31 + (2 ^ 64 - 2 ^ 32) := by
    unfold sizeOfInt
    split_ifs <;> omega
  have hvalue : turn first k i + 1 = (2 ^ 31 : ℕ) := by
    rw [turn, ← Nat.cast_succ, Nat.succ_eq_add_one, hthis]
  refine ⟨hvalue, ?_⟩
  rw [hvalue, turn, hnext, Nat.cast_add]

/-- The counter becomes zero: 2^64 places are taken back. -/
theorem turn_zero
    {i : Nat}
    (hi : (first + i) % 2 ^ 32 = 2 ^ 32 - 1) :
    turn first k i + 1 = (2 ^ 64 : ℕ) ∧ turn first k (i + 1) = 0 := by
  have hthis : sizeOfInt ((first + i) % 2 ^ 32) + 1 = 2 ^ 64 := by
    unfold sizeOfInt
    split_ifs <;> omega
  have hnext : sizeOfInt ((first + (i + 1)) % 2 ^ 32) = 0 := by
    unfold sizeOfInt
    split_ifs <;> omega
  refine ⟨?_, by rw [turn, hnext, Nat.cast_zero]⟩
  rw [turn, ← Nat.cast_succ, Nat.succ_eq_add_one, hthis]

/-- The steps at which the turns break. -/
theorem breaks_turn_iff
    {i : Nat} :
    RoundRobin.Breaks (turn first k) i ↔
      (first + i) % 2 ^ 32 = 2 ^ 31 - 1 ∧ ¬ k ∣ 2 ^ 64 - 2 ^ 32 ∨
        (first + i) % 2 ^ 32 = 2 ^ 32 - 1 ∧ ¬ k ∣ 2 ^ 64 := by
  unfold RoundRobin.Breaks
  by_cases hnegative : (first + i) % 2 ^ 32 = 2 ^ 31 - 1
  · have hzero : (first + i) % 2 ^ 32 ≠ 2 ^ 32 - 1 := by omega
    rw [(turn_negative hnegative).2, Ne, add_eq_left, ZMod.natCast_eq_zero_iff]
    constructor
    · exact fun h => .inl ⟨hnegative, h⟩
    · rintro (⟨-, h⟩ | ⟨h, -⟩)
      · exact h
      · exact absurd h hzero
  · by_cases hzero : (first + i) % 2 ^ 32 = 2 ^ 32 - 1
    · rw [(turn_zero hzero).1, (turn_zero hzero).2, Ne, eq_comm, ZMod.natCast_eq_zero_iff]
      constructor
      · exact fun h => .inr ⟨hzero, h⟩
      · rintro (⟨h, -⟩ | ⟨-, h⟩)
        · exact absurd h hnegative
        · exact h
    · rw [turn_succ hnegative hzero]
      refine iff_of_false (fun h => h rfl) ?_
      rintro (⟨h, -⟩ | ⟨h, -⟩)
      · exact hnegative h
      · exact hzero h

/-- Without a break no two of the k turns are the same. -/
theorem fair_of_unbroken
    (h : Unbroken first k) :
    RoundRobin.Fair (turn first k) := by
  refine RoundRobin.fair_of_not_breaks fun i hi hbreaks => ?_
  rcases breaks_turn_iff.mp hbreaks with ⟨hnegative, hdvd⟩ | ⟨hzero, hdvd⟩
  · exact hdvd (h.1 i hi hnegative)
  · exact hdvd (h.2 i hi hzero)

/-- The counter has only 2^32 values. -/
theorem le_of_fair
    (h : RoundRobin.Fair (turn first k)) :
    k ≤ 2 ^ 32 := by
  by_contra hlarge
  have hsame : turn first k 0 = turn first k (2 ^ 32) := by
    simp only [turn, Nat.add_zero, Nat.add_mod_right]
  have heq := h 0 (by omega) (2 ^ 32) (by omega) hsame
  omega

/-- Two breaks lie as far apart as the counter has values of one sign, and k is not that
small. -/
theorem not_two_breaks
    [NeZero k]
    {i j : Nat}
    (h : RoundRobin.Fair (turn first k))
    (hij : i < j)
    (hj : j + 1 < k)
    (hbreaks : RoundRobin.Breaks (turn first k) i)
    (hbreaks' : RoundRobin.Breaks (turn first k) j) :
    False := by
  have hsmall := le_of_fair h
  have honly : ∀ m, m + 1 < k → RoundRobin.Breaks (turn first k) m → m = i ∨ m = j := by
    intro m hm hm'
    rw [breaks_turn_iff] at hbreaks hbreaks' hm'
    omega
  have hback := h.eq_of_two_breaks hij hj hbreaks hbreaks' honly
  have hdvd : k ∣ 2 ^ 31 := by
    rw [← ZMod.natCast_eq_zero_iff]
    rcases breaks_turn_iff.mp hbreaks with ⟨hi, -⟩ | ⟨hi, -⟩
    · rcases breaks_turn_iff.mp hbreaks' with ⟨hj', -⟩ | ⟨hj', -⟩
      · omega
      · rw [(turn_zero hj').2, (turn_negative hi).1] at hback
        exact hback.symm
    · rcases breaks_turn_iff.mp hbreaks' with ⟨hj', -⟩ | ⟨hj', -⟩
      · rw [(turn_negative hj').2, (turn_negative hj').1, (turn_zero hi).1,
          ← Nat.cast_add] at hback
        have hsum : ((2 ^ 31 + (2 ^ 64 - 2 ^ 32) + 2 ^ 31 : ℕ) : ZMod k) = (2 ^ 64 : ℕ) := rfl
        rw [← hback, Nat.cast_add, add_eq_left] at hsum
        exact hsum
      · omega
  have hle := Nat.le_of_dvd (Nat.two_pow_pos 31) hdvd
  rw [breaks_turn_iff] at hbreaks hbreaks'
  omega

theorem unbroken_of_fair
    [NeZero k]
    (h : RoundRobin.Fair (turn first k)) :
    Unbroken first k := by
  have hnone : ∀ i, i + 1 < k → ¬ RoundRobin.Breaks (turn first k) i := by
    intro i hi hbreaks
    obtain ⟨j, hj, hne, hbreaks'⟩ := h.exists_other hi hbreaks
    rcases Nat.lt_or_gt_of_ne hne with hlt | hlt
    · exact not_two_breaks h hlt hi hbreaks' hbreaks
    · exact not_two_breaks h hlt hj hbreaks hbreaks'
  constructor
  · intro i hi hnegative
    by_contra hdvd
    exact hnone i hi (breaks_turn_iff.mpr (.inl ⟨hnegative, hdvd⟩))
  · intro i hi hzero
    by_contra hdvd
    exact hnone i hi (breaks_turn_iff.mpr (.inr ⟨hzero, hdvd⟩))

end Turns

section Fairness

variable {w : World} {name : List UInt8} {first : Nat} {ids : List SessionId}

/-- The session that a counter selects. -/
def sessionAt (ids : List SessionId) (hids : ids ≠ []) (counter : Nat) : SessionId :=
  ids.get ⟨sizeOfInt counter % ids.length, Nat.mod_lt _ (List.length_pos_of_ne_nil hids)⟩

theorem getElem?_sessionAt
    (hids : ids ≠ [])
    (counter : Nat) :
    (ids.map some)[sizeOfInt counter % (ids.map some).length]? =
      some (some (sessionAt ids hids counter)) := by
  have hlt := Nat.mod_lt (sizeOfInt counter) (List.length_pos_of_ne_nil hids)
  rw [List.length_map, List.getElem?_map, List.getElem?_eq_getElem hlt]
  rfl

/-- Calls in a row select the sessions whose turns they are. -/
theorem selections_eq
    (hids : ids ≠ [])
    {calls : List Pending}
    (hname : ∀ p ∈ calls, p.addr.serviceName = name)
    (hfirst : first < 2 ^ 32)
    (hentry : w.tables.any name = some (first, ids.map some)) :
    selections w calls = some ((List.range calls.length).map fun i =>
      sessionAt ids hids ((first + i) % 2 ^ 32)) := by
  induction calls generalizing w first with
  | nil => rfl
  | cons p calls ih =>
      obtain ⟨hp, hcalls⟩ := List.forall_mem_cons.mp hname
      have hselect := getElem?_sessionAt hids first
      subst hp
      obtain ⟨w', hsend, hany⟩ := sendAny_eq hentry hselect
      have hrest := ih hcalls (Nat.mod_lt _ (Nat.two_pow_pos 32))
        (show w'.tables.any p.addr.serviceName = some ((first + 1) % 2 ^ 32, ids.map some) by
          rw [hany, Function.update_self])
      have hlater : ∀ i, ((first + 1) % 2 ^ 32 + i) % 2 ^ 32 = (first + (i + 1)) % 2 ^ 32 := by
        omega
      simp only [hlater] at hrest
      simp only [selections, selectAny, hentry, hselect, hsend, hrest, Option.map_some,
        List.length_cons, List.range_succ_eq_map, List.map_cons, List.map_map, Nat.add_zero,
        Nat.mod_eq_of_lt hfirst]
      rfl

/-- As many calls as there are sessions select each of them once exactly if no two turns
are the same. -/
theorem perm_turns_iff
    (hids : ids ≠ [])
    (hnodup : ids.Nodup) :
    ((List.range ids.length).map fun i => sessionAt ids hids ((first + i) % 2 ^ 32)).Perm ids ↔
      RoundRobin.Fair (turn first ids.length) := by
  have hsame : ∀ i j, sessionAt ids hids ((first + i) % 2 ^ 32) =
      sessionAt ids hids ((first + j) % 2 ^ 32) ↔
        turn first ids.length i = turn first ids.length j := by
    intro i j
    unfold sessionAt turn
    rw [hnodup.get_inj_iff, Fin.mk.injEq, ZMod.natCast_eq_natCast_iff']
  have hinj : ((List.range ids.length).map fun i =>
      sessionAt ids hids ((first + i) % 2 ^ 32)).Nodup ↔
        RoundRobin.Fair (turn first ids.length) := by
    rw [List.nodup_map_iff_inj_on List.nodup_range]
    simp only [List.mem_range, hsame]
    rfl
  rw [← hinj]
  constructor
  · intro hperm
    exact hperm.nodup_iff.mpr hnodup
  · intro hdistinct
    have hsub : ((List.range ids.length).map fun i =>
        sessionAt ids hids ((first + i) % 2 ^ 32)) ⊆ ids := by
      intro s hs
      obtain ⟨i, -, rfl⟩ := List.mem_map.mp hs
      exact List.get_mem _ _
    exact (hdistinct.subperm hsub).perm_of_length_le (by simp)

/-- Behind every sequence of calls of RouterCaster, as many calls of SendMsg in a row as
there are sessions in the any-cast array of a service select each of them once, if and only
if the counter is unbroken. -/
theorem any_cast_fair_iff
    (localAddress : Address)
    (history : List AnyCall)
    (hrun : Transition.run AnyCall.step (World.initial localAddress) history = some w)
    (hentry : w.tables.any name = some (first, ids.map some))
    (hids : ids ≠ [])
    (hnodup : ids.Nodup)
    {calls : List Pending}
    (hcalls : calls.length = ids.length)
    (hname : ∀ p ∈ calls, p.addr.serviceName = name) :
    (∃ selected, selections w calls = some selected ∧ selected.Perm ids) ↔
      Unbroken first ids.length := by
  have hcounts : Counts w.tables.any := by
    refine Transition.run_invariant (fun w => Counts w.tables.any)
      (fun w x w' h hstep => counts_step h hstep) ?_ hrun
    intro name first lst hentry
    cases hentry
  have hselect := selections_eq hids hname (hcounts _ _ _ hentry) hentry
  have : NeZero ids.length := ⟨Nat.ne_of_gt (List.length_pos_of_ne_nil hids)⟩
  rw [hcalls] at hselect
  rw [hselect]
  constructor
  · rintro ⟨selected, hsome, hperm⟩
    cases hsome
    exact unbroken_of_fair ((perm_turns_iff hids hnodup).mp hperm)
  · intro hunbroken
    exact ⟨_, rfl, (perm_turns_iff hids hnodup).mpr (fair_of_unbroken hunbroken)⟩

/-- Three servers of one service. -/
def threeServers : List AnyCall :=
  [.register gameServer 0, .register { gameServer with id := 2 } 1,
    .register { gameServer with id := 3 } 2]

/-- Their any-cast array. -/
theorem exists_threeServers :
    ∃ w, Transition.run AnyCall.step (World.initial Address.default) threeServers = some w ∧
      w.tables.any gameServer.serviceName = some (2, [0, 1, 2].map some) :=
  ⟨_, rfl, rfl⟩

/-- A message for the service. -/
def gameMessage : Pending where
  client := none
  msgSeq := 0
  call := 0
  addr := gameServer
  buf := []

/-- The first three calls select each of three servers once. -/
theorem any_cast_fair_iff_three :
    ∃ w, w.tables.any gameServer.serviceName = some (2, [0, 1, 2].map some) ∧
      ((∃ selected, selections w (List.replicate 3 gameMessage) = some selected ∧
        selected.Perm [0, 1, 2]) ↔ Unbroken 2 3) := by
  obtain ⟨w, hrun, hentry⟩ := exists_threeServers
  exact ⟨w, hentry, any_cast_fair_iff Address.default threeServers hrun hentry
    (List.cons_ne_nil _ _) (by decide) rfl fun p hp => (List.eq_of_mem_replicate hp) ▸ rfl⟩

/-- Each call adds one to the counter. -/
theorem run_sends
    {p : Pending}
    (hids : ids ≠ [])
    (hfirst : first < 2 ^ 32)
    (hentry : w.tables.any p.addr.serviceName = some (first, ids.map some))
    (n : Nat) :
    ∃ w', Transition.run AnyCall.step w (List.replicate n (.send p)) = some w' ∧
      w'.tables.any p.addr.serviceName = some ((first + n) % 2 ^ 32, ids.map some) := by
  induction n generalizing w first with
  | zero =>
      exact ⟨w, rfl, by rw [hentry, Nat.add_zero, Nat.mod_eq_of_lt hfirst]⟩
  | succ n ih =>
      have hselect := getElem?_sessionAt hids first
      obtain ⟨w', hsend, hany⟩ := sendAny_eq hentry hselect
      have hstep : AnyCall.step w (.send p) = some w' := by
        simp only [AnyCall.step, hsend]
      obtain ⟨w'', hrun, hentry''⟩ := ih (Nat.mod_lt _ (Nat.two_pow_pos 32))
        (show w'.tables.any p.addr.serviceName = some ((first + 1) % 2 ^ 32, ids.map some) by
          rw [hany, Function.update_self])
      refine ⟨w'', ?_, ?_⟩
      · rw [List.replicate_succ, Transition.run_cons hstep]
        exact hrun
      · rw [hentry'', Nat.mod_add_mod, Nat.add_assoc, Nat.add_comm 1 n]

/-- Behind 2^32 - 3 calls the counter is -1, and the next two calls both select the first
of the three servers. -/
theorem any_cast_not_fair :
    ¬ ∀ history w name first ids calls,
      Transition.run AnyCall.step (World.initial Address.default) history = some w →
      w.tables.any name = some (first, ids.map some) → ids ≠ [] → ids.Nodup →
      calls.length = ids.length → (∀ p ∈ calls, p.addr.serviceName = name) →
      ∃ selected, selections w calls = some selected ∧ selected.Perm ids := by
  intro hfair
  obtain ⟨w₀, hrun₀, hentry₀⟩ := exists_threeServers
  obtain ⟨w, hrun, hentry⟩ := run_sends (p := gameMessage) (List.cons_ne_nil _ _) (by decide)
    hentry₀ (2 ^ 32 - 3)
  have hname : ∀ p ∈ List.replicate 3 gameMessage, p.addr.serviceName = gameServer.serviceName :=
    fun p hp => (List.eq_of_mem_replicate hp) ▸ rfl
  have hids : [0, 1, 2] ≠ ([] : List SessionId) := List.cons_ne_nil _ _
  have hhistory : Transition.run AnyCall.step (World.initial Address.default)
      (threeServers ++ List.replicate (2 ^ 32 - 3) (.send gameMessage)) = some w := by
    rw [Transition.run_append, hrun₀]
    exact hrun
  obtain ⟨selected, hselect, hperm⟩ :=
    hfair _ w _ _ [0, 1, 2] _ hhistory hentry hids (by decide) rfl hname
  rw [selections_eq hids hname (by decide) hentry] at hselect
  cases hselect
  have hbroken := unbroken_of_fair ((perm_turns_iff hids (by decide)).mp hperm)
  exact absurd (hbroken.2 0 (by decide) (by decide)) (by decide)

end Fairness

end Router
end Gamnet
