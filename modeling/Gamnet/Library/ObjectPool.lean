import Gamnet.Lib.Transition
import Gamnet.Library.Pool
import Mathlib.Algebra.Group.Int.Defs
import Mathlib.Algebra.Group.Nat.Defs
import Mathlib.Data.List.Perm.Basic
import Mathlib.Data.List.Range

/-!
# Object pools with any factory

The pool of Library/Pool as the code has it, for objects of any type. A call of the factory
makes an object, gives NULL or throws; the counter of the objects is raised before the call
and stays so. The counter and the capacity are of type size_t.

If every call of the factory makes an object of its own and the capacity stays, the objects
that were made are at each time those in the list and those that are held, each of them
once (`pool_exclusive`). If not, the counter and Available are right in all states of a run
exactly if no call of the factory fails and the capacity is never set below the counter
(`pool_exact_iff`).
-/

namespace Gamnet

/-- What a call of a factory, or of Create, comes to. -/
inductive Creation (α : Type)
  | object (x : α)
  | null
  | throws
deriving DecidableEq

/-- The fields of a pool. -/
structure ObjectPool (α : Type) where
  lstObjectPtr : List α
  curSize : Nat
  maxSize : Nat

namespace ObjectPool

variable {α : Type}

/-- An int as a size_t. -/
def toSize (n : Int) : Nat :=
  (n % 2 ^ 64).toNat

/-- The constructor. -/
def new (nSize : Int) : ObjectPool α where
  lstObjectPtr := []
  curSize := 0
  maxSize := toSize nSize

/-- Create calls the factory. -/
def CallsFactory (p : ObjectPool α) : Prop :=
  p.lstObjectPtr = [] ∧ p.curSize < p.maxSize

instance (p : ObjectPool α) : Decidable p.CallsFactory :=
  inferInstanceAs (Decidable (_ ∧ _))

/-- Create, with what the call of the factory comes to if there is one. -/
def create (p : ObjectPool α) (factory : Creation α) : Creation α × ObjectPool α :=
  match p.lstObjectPtr with
  | [] =>
      if p.maxSize ≤ p.curSize then (.null, p)
      else (factory, { p with curSize := (p.curSize + 1) % 2 ^ 64 })
  | x :: rest => (.object x, { p with lstObjectPtr := rest })

/-- Available. -/
def available (p : ObjectPool α) : Nat :=
  (p.lstObjectPtr.length + (p.maxSize + (2 ^ 64 - p.curSize)) % 2 ^ 64) % 2 ^ 64

/-- Size. -/
def size (p : ObjectPool α) : Nat :=
  p.curSize

/-- Capacity, which tells it. -/
def capacity (p : ObjectPool α) : Nat :=
  p.maxSize

/-- Capacity, which sets it. -/
def setCapacity (p : ObjectPool α) (capacity : Int) : ObjectPool α :=
  { p with maxSize := toSize capacity }

/-- Restitute. -/
def restitute (p : ObjectPool α) : Option α → ObjectPool α
  | none => p
  | some x => { p with lstObjectPtr := x :: p.lstObjectPtr }

variable {p : ObjectPool α}

theorem toSize_lt
    (n : Int) :
    toSize n < 2 ^ 64 := by
  have hlt := Int.emod_lt_of_pos n (show (0 : Int) < 2 ^ 64 by decide)
  have hnonneg := Int.emod_nonneg n (show (2 ^ 64 : Int) ≠ 0 by decide)
  unfold toSize
  omega

theorem create_nil
    (hnil : p.lstObjectPtr = [])
    (factory : Creation α) :
    p.create factory =
      if p.maxSize ≤ p.curSize then (.null, p)
      else (factory, { p with curSize := (p.curSize + 1) % 2 ^ 64 }) := by
  unfold create
  rw [hnil]

theorem create_cons
    {x : α} {rest : List α}
    (hcons : p.lstObjectPtr = x :: rest)
    (factory : Creation α) :
    p.create factory = (.object x, { p with lstObjectPtr := rest }) := by
  unfold create
  rw [hcons]

end ObjectPool

/-- A pool and what its users have: the objects that they hold, and how often the factory
has been called. -/
structure Usage (α : Type) where
  pool : ObjectPool α
  held : List α
  calls : Nat

/-- What users do: call Create, drop the last reference to an object or a shared pointer
to NULL, and set the capacity. -/
inductive PoolCall (α : Type)
  | create
  | release (ptr : Option α)
  | capacity (n : Int)
deriving DecidableEq

namespace Usage

open ObjectPool

variable {α : Type}

def initial (nSize : Int) : Usage α where
  pool := .new nSize
  held := []
  calls := 0

/-- Create, with the factory. -/
def create (factory : Nat → Creation α) (u : Usage α) : Creation α × Usage α :=
  let r := u.pool.create (factory u.calls)
  (r.1,
    { pool := r.2
      held :=
        match r.1 with
        | .object x => x :: u.held
        | _ => u.held
      calls := if u.pool.CallsFactory then u.calls + 1 else u.calls })

/-- One step, if it is possible. -/
def step [DecidableEq α] (factory : Nat → Creation α) (u : Usage α) : PoolCall α → Option (Usage α)
  | .create => some (u.create factory).2
  | .release none => some { u with pool := u.pool.restitute none }
  | .release (some x) =>
      if x ∈ u.held then
        some { u with pool := u.pool.restitute (some x), held := u.held.erase x }
      else none
  | .capacity n => some { u with pool := u.pool.setCapacity n }

variable {factory : Nat → Creation α} {u : Usage α}

/-- Create hands out the first object of the list, or fails because the pool is used up, or
calls the factory. -/
theorem create_cases
    (factory : Nat → Creation α) (u : Usage α) :
    (∃ x rest, u.pool.lstObjectPtr = x :: rest ∧
      u.create factory =
        (.object x, { u with pool := { u.pool with lstObjectPtr := rest }, held := x :: u.held })) ∨
    (u.pool.lstObjectPtr = [] ∧ u.pool.maxSize ≤ u.pool.curSize ∧
      u.create factory = (.null, u)) ∨
    (u.pool.CallsFactory ∧
      u.create factory =
        (factory u.calls,
          { pool := { u.pool with curSize := (u.pool.curSize + 1) % 2 ^ 64 }
            held :=
              match factory u.calls with
              | .object x => x :: u.held
              | _ => u.held
            calls := u.calls + 1 })) := by
  unfold create
  cases hlist : u.pool.lstObjectPtr with
  | cons x rest =>
      have hcalls : ¬u.pool.CallsFactory := by
        simp [CallsFactory, hlist]
      refine .inl ⟨x, rest, rfl, ?_⟩
      simp only [create_cons hlist, hcalls, if_false]
  | nil =>
      refine .inr ?_
      by_cases hfull : u.pool.maxSize ≤ u.pool.curSize
      · have hcalls : ¬u.pool.CallsFactory := fun h => absurd h.2 (Nat.not_lt.mpr hfull)
        refine .inl ⟨rfl, hfull, ?_⟩
        simp only [create_nil hlist, hfull, hcalls, if_true, if_false]
      · have hcalls : u.pool.CallsFactory := ⟨hlist, Nat.lt_of_not_le hfull⟩
        refine .inr ⟨hcalls, ?_⟩
        simp only [create_nil hlist, hfull, hcalls, if_true, if_false]

section Exclusive

/-- A factory that makes an object on each call. -/
def makes (factory : Nat → α) : Nat → Creation α :=
  fun k => .object (factory k)

/-- No object is in the list twice or both there and held, or handed out while it is held.
The objects that were made are at most as many as the capacity. Create gives NULL exactly
if all of them are held and they are as many. -/
structure Exclusive (factory : Nat → α) (u : Usage α) : Prop where
  nodup : u.pool.lstObjectPtr.Nodup
  free : ∀ x ∈ u.pool.lstObjectPtr, x ∉ u.held
  fresh : ∀ x, (u.create (makes factory)).1 = .object x → x ∉ u.held
  bound : u.calls ≤ u.pool.capacity
  null_iff : (u.create (makes factory)).1 = .null ↔
    (∀ k < u.calls, factory k ∈ u.held) ∧ u.calls = u.pool.capacity

/-- What all steps keep: the objects that were made are those in the list and those that are
held. -/
structure Divided (factory : Nat → α) (u : Usage α) : Prop where
  perm : (u.pool.lstObjectPtr ++ u.held).Perm ((List.range u.calls).map factory)
  calls : u.calls = u.pool.curSize
  le : u.pool.curSize ≤ u.pool.maxSize
  lt : u.pool.maxSize < 2 ^ 64

variable {factory : Nat → α}

theorem divided_initial
    (nSize : Int) :
    (initial nSize).Divided factory where
  perm := List.Perm.nil
  calls := rfl
  le := Nat.zero_le _
  lt := toSize_lt nSize

theorem Divided.mem_iff
    (h : u.Divided factory)
    (x : α) :
    x ∈ u.pool.lstObjectPtr ∨ x ∈ u.held ↔ ∃ k < u.calls, factory k = x := by
  rw [← List.mem_append, h.perm.mem_iff]
  simp

theorem Divided.nodup
    (h : u.Divided factory)
    (hfresh : Function.Injective factory) :
    (u.pool.lstObjectPtr ++ u.held).Nodup :=
  h.perm.nodup_iff.mpr (List.nodup_range.map hfresh)

theorem Divided.create
    (h : u.Divided factory) :
    (u.create (makes factory)).2.Divided factory := by
  obtain ⟨hperm, hcalls, hle, hlt⟩ := h
  obtain ⟨x, rest, hlist, hcreate⟩ | ⟨-, -, hcreate⟩ | ⟨⟨hnil, hroom⟩, hcreate⟩ :=
    create_cases (makes factory) u
  · rw [hcreate]
    refine ⟨?_, hcalls, hle, hlt⟩
    rw [hlist] at hperm
    exact List.perm_middle.trans hperm
  · rw [hcreate]
    exact ⟨hperm, hcalls, hle, hlt⟩
  · rw [hcreate]
    have hnext : (u.pool.curSize + 1) % 2 ^ 64 = u.pool.curSize + 1 :=
      Nat.mod_eq_of_lt (by omega)
    refine ⟨?_, by simp only [hnext, hcalls], by simp only [hnext]; exact hroom, hlt⟩
    rw [hnil, List.nil_append] at hperm
    simp only [makes, hnil, List.nil_append, List.range_succ, List.map_append, List.map_cons,
      List.map_nil]
    exact (List.Perm.cons _ hperm).trans (List.perm_append_singleton _ _).symm

theorem Divided.release
    [DecidableEq α]
    (h : u.Divided factory)
    {x : α}
    (hheld : x ∈ u.held) :
    Divided factory
      { u with pool := u.pool.restitute (some x), held := u.held.erase x } := by
  refine ⟨?_, h.calls, h.le, h.lt⟩
  refine List.Perm.trans ?_ h.perm
  simp only [restitute, List.cons_append]
  exact List.perm_middle.symm.trans ((List.perm_cons_erase hheld).symm.append_left _)

theorem Divided.step
    [DecidableEq α]
    (h : u.Divided factory)
    {use : PoolCall α} {u' : Usage α}
    (hfixed : ∀ n, use ≠ .capacity n)
    (hstep : u.step (makes factory) use = some u') :
    u'.Divided factory := by
  cases use with
  | create =>
      cases hstep
      exact h.create
  | release ptr =>
      cases ptr with
      | none =>
          cases hstep
          exact h
      | some x =>
          simp only [Usage.step] at hstep
          split at hstep
          · rename_i hheld
            cases hstep
            exact h.release hheld
          · cases hstep
  | capacity n => exact absurd rfl (hfixed n)

theorem Divided.create_null_iff
    (h : u.Divided factory)
    (hfresh : Function.Injective factory) :
    (u.create (makes factory)).1 = .null ↔
      (∀ k < u.calls, factory k ∈ u.held) ∧ u.calls = u.pool.capacity := by
  have hnodup := h.nodup hfresh
  obtain ⟨x, rest, hlist, hcreate⟩ | ⟨hnil, hfull, hcreate⟩ | ⟨⟨-, hroom⟩, hcreate⟩ :=
    create_cases (makes factory) u
  · -- the first object of the list was made and is not held
    rw [hcreate]
    refine iff_of_false (by simp) ?_
    rintro ⟨hall, -⟩
    have hx : x ∈ u.pool.lstObjectPtr := by
      rw [hlist]
      exact List.mem_cons_self
    obtain ⟨k, hk, rfl⟩ := (h.mem_iff x).mp (.inl hx)
    exact (List.disjoint_of_nodup_append hnodup) hx (hall k hk)
  · rw [hcreate]
    refine iff_of_true rfl ⟨fun k hk => ?_, ?_⟩
    · have hmade := (h.mem_iff (factory k)).mpr ⟨k, hk, rfl⟩
      rw [hnil] at hmade
      exact hmade.resolve_left List.not_mem_nil
    · exact h.calls.trans (Nat.le_antisymm h.le hfull)
  · rw [hcreate]
    refine iff_of_false (by simp [makes]) ?_
    rintro ⟨-, hall⟩
    rw [h.calls] at hall
    exact absurd hall hroom.ne

theorem Divided.exclusive
    (h : u.Divided factory)
    (hfresh : Function.Injective factory) :
    u.Exclusive factory := by
  have hnodup := h.nodup hfresh
  refine ⟨hnodup.of_append_left, List.disjoint_of_nodup_append hnodup, ?_,
    h.calls.le.trans h.le, h.create_null_iff hfresh⟩
  intro x hx
  have hnext := h.create.nodup hfresh
  obtain ⟨y, rest, -, hcreate⟩ | ⟨-, -, hcreate⟩ | ⟨-, hcreate⟩ :=
    create_cases (makes factory) u
  · rw [hcreate] at hx hnext
    cases hx
    exact (List.nodup_cons.mp hnext.of_append_right).1
  · rw [hcreate] at hx
    cases hx
  · rw [hcreate] at hx hnext
    cases hx
    exact (List.nodup_cons.mp hnext.of_append_right).1

/-- The pool never shares an object: with any capacity and a factory that makes another
object on each call, in all states of every run in which the capacity is not set. -/
theorem pool_exclusive
    [DecidableEq α]
    (factory : Nat → α)
    (hfresh : Function.Injective factory)
    (nSize : Int) (uses : List (PoolCall α))
    (hfixed : ∀ n, .capacity n ∉ uses) :
    Transition.Always (step (makes factory)) (Exclusive factory) (initial nSize) uses :=
  Transition.always_of_invariant (Divided factory)
    (fun _ h => h.exclusive hfresh)
    (fun _ huse _ _ h hstep => h.step (fun n hn => hfixed n (hn ▸ huse)) hstep)
    (divided_initial nSize)

/-- Two objects, of which one comes back and is handed out again. -/
theorem pool_exclusive_two :
    Transition.Always (step (makes id)) (Exclusive id) (initial 2)
      [.create, .create, .create, .release (some 0), .create, .release none] :=
  pool_exclusive id Function.injective_id 2 _ (by simp)

end Exclusive

section Exact

/-- The pool behind n calls of Create, with a factory that makes an object on each call. -/
def creates (factory : Nat → α) (p : ObjectPool α) : Nat → ObjectPool α
  | 0 => p
  | n + 1 => ((creates factory p n).create (.object (factory n))).2

/-- With such a factory n calls of Create succeed and the next one gives NULL. -/
def Succeeding (p : ObjectPool α) (n : Nat) : Prop :=
  ∀ factory : Nat → α,
    (∀ k < n, ((creates factory p k).create (.object (factory k))).1 ≠ .null) ∧
      ((creates factory p n).create (.object (factory n))).1 = .null

/-- The counter is the number of the objects, and Available tells how many calls of Create
would succeed. -/
structure Exact (u : Usage α) : Prop where
  size : u.pool.size = u.held.length + u.pool.lstObjectPtr.length
  available : Succeeding u.pool u.pool.available

/-- A call of the factory makes an object, and the capacity is not set below the counter. -/
def Accurate (factory : Nat → Creation α) (u : Usage α) : PoolCall α → Prop
  | .create => u.pool.CallsFactory → ∃ x, factory u.calls = .object x
  | .release _ => True
  | .capacity n => u.pool.curSize ≤ toSize n

/-- What such steps keep. -/
structure Counted (u : Usage α) : Prop where
  size : u.pool.curSize = u.held.length + u.pool.lstObjectPtr.length
  le : u.pool.curSize ≤ u.pool.maxSize
  lt : u.pool.maxSize < 2 ^ 64

/-- How many objects the pool can still hand out. -/
def remaining (p : ObjectPool α) : Nat :=
  p.lstObjectPtr.length + (p.maxSize - p.curSize)

variable {p : ObjectPool α}

theorem create_null_iff_remaining
    (x : α) :
    (p.create (.object x)).1 = .null ↔ remaining p = 0 := by
  unfold remaining
  cases hlist : p.lstObjectPtr with
  | nil =>
      rw [create_nil hlist]
      split
      · simp
        omega
      · simp
        omega
  | cons y rest =>
      rw [create_cons hlist]
      simp

/-- A call that succeeds leaves one less. -/
theorem remaining_create
    (hlt : p.maxSize < 2 ^ 64)
    (x : α)
    (hleft : remaining p ≠ 0) :
    remaining (p.create (.object x)).2 + 1 = remaining p ∧
      (p.create (.object x)).2.maxSize = p.maxSize := by
  unfold remaining at hleft ⊢
  cases hlist : p.lstObjectPtr with
  | nil =>
      rw [hlist, List.length_nil] at hleft
      have hroom : ¬p.maxSize ≤ p.curSize := by
        omega
      rw [create_nil hlist, if_neg hroom]
      simp only [hlist, List.length_nil, and_true]
      rw [Nat.mod_eq_of_lt (by omega)]
      omega
  | cons y rest =>
      rw [create_cons hlist]
      simp only [List.length_cons, and_true]
      omega

theorem remaining_creates
    (hlt : p.maxSize < 2 ^ 64)
    (factory : Nat → α) (n : Nat)
    (hn : n ≤ remaining p) :
    remaining (creates factory p n) + n = remaining p ∧
      (creates factory p n).maxSize = p.maxSize := by
  induction n with
  | zero =>
      exact ⟨rfl, rfl⟩
  | succ n ih =>
      obtain ⟨hrest, hmax⟩ := ih (Nat.le_of_succ_le hn)
      have hleft : remaining (creates factory p n) ≠ 0 := by
        omega
      obtain ⟨hone, hsame⟩ :=
        remaining_create (hmax ▸ hlt) (factory n) hleft
      refine ⟨?_, hsame.trans hmax⟩
      simp only [creates]
      omega

theorem succeeding_remaining
    (hlt : p.maxSize < 2 ^ 64) :
    Succeeding p (remaining p) := by
  intro factory
  refine ⟨fun k hk => ?_, ?_⟩
  · rw [Ne, create_null_iff_remaining]
    have hrest := (remaining_creates hlt factory k hk.le).1
    omega
  · rw [create_null_iff_remaining]
    have hrest := (remaining_creates hlt factory _ le_rfl).1
    omega

/-- There is no other such number. -/
theorem Succeeding.eq
    {n n' : Nat}
    (h : Succeeding p n)
    (h' : Succeeding p n')
    (x : α) :
    n = n' := by
  obtain ⟨hsome, hnull⟩ := h fun _ => x
  obtain ⟨hsome', hnull'⟩ := h' fun _ => x
  rcases Nat.lt_trichotomy n n' with hlt | heq | hlt
  · exact absurd hnull (hsome' n hlt)
  · exact heq
  · exact absurd hnull' (hsome n' hlt)

/-- Available is that number unless the capacity is below the counter. -/
theorem available_eq_remaining_iff
    (hsize : p.lstObjectPtr.length ≤ p.curSize)
    (hcur : p.curSize < 2 ^ 64)
    (hlt : p.maxSize < 2 ^ 64) :
    p.available = remaining p ↔ p.curSize ≤ p.maxSize := by
  unfold available remaining
  by_cases hle : p.curSize ≤ p.maxSize
  · have hsub : (p.maxSize + (2 ^ 64 - p.curSize)) % 2 ^ 64 = p.maxSize - p.curSize := by
      omega
    rw [hsub, Nat.mod_eq_of_lt (by omega)]
    exact iff_of_true rfl hle
  · refine iff_of_false ?_ hle
    omega

theorem counted_initial
    (nSize : Int) :
    (initial nSize : Usage α).Counted where
  size := rfl
  le := Nat.zero_le _
  lt := toSize_lt nSize

theorem Counted.exact
    (h : u.Counted) :
    u.Exact where
  size := h.size
  available := by
    rw [(available_eq_remaining_iff (h.size ▸ Nat.le_add_left _ _)
      (h.le.trans_lt h.lt) h.lt).mpr h.le]
    exact succeeding_remaining h.lt

variable [DecidableEq α]

theorem Counted.step
    (h : u.Counted)
    {use : PoolCall α} {u' : Usage α}
    (haccurate : u.Accurate factory use)
    (hstep : u.step factory use = some u') :
    u'.Counted := by
  obtain ⟨hsize, hle, hlt⟩ := h
  cases use with
  | create =>
      cases hstep
      obtain ⟨x, rest, hlist, hcreate⟩ | ⟨-, -, hcreate⟩ | ⟨hcalls, hcreate⟩ :=
        create_cases factory u
      · rw [hcreate]
        refine ⟨?_, hle, hlt⟩
        rw [hlist, List.length_cons] at hsize
        simp only [List.length_cons]
        omega
      · rw [hcreate]
        exact ⟨hsize, hle, hlt⟩
      · obtain ⟨x, hx⟩ := haccurate hcalls
        obtain ⟨hnil, hroom⟩ := hcalls
        have hnext : (u.pool.curSize + 1) % 2 ^ 64 = u.pool.curSize + 1 :=
          Nat.mod_eq_of_lt (by omega)
        rw [hcreate, hx]
        refine ⟨?_, by simp only [hnext]; exact hroom, hlt⟩
        rw [hnil, List.length_nil] at hsize
        simp only [hnext, hnil, List.length_cons, List.length_nil]
        omega
  | release ptr =>
      cases ptr with
      | none =>
          cases hstep
          exact ⟨hsize, hle, hlt⟩
      | some x =>
          simp only [Usage.step] at hstep
          split at hstep
          · rename_i hheld
            cases hstep
            refine ⟨?_, hle, hlt⟩
            have hpos : 0 < u.held.length := List.length_pos_of_mem hheld
            simp only [restitute, List.length_cons, List.length_erase_of_mem hheld]
            omega
          · cases hstep
  | capacity n =>
      cases hstep
      exact ⟨hsize, haccurate, toSize_lt n⟩

/-- If the state behind a step is exact, then the step was accurate. -/
theorem Counted.accurate_of_exact
    (h : u.Counted)
    {use : PoolCall α}
    (hexact : ∀ u', u.step factory use = some u' → u'.Exact) :
    u.Accurate factory use := by
  obtain ⟨hsize, hle, hlt⟩ := h
  cases use with
  | create =>
      intro hcalls
      have hsize' := (hexact _ rfl).size
      obtain ⟨x, rest, hlist, -⟩ | ⟨-, hfull, -⟩ | ⟨-, hcreate⟩ := create_cases factory u
      · rw [hcalls.1] at hlist
        cases hlist
      · exact absurd hcalls.2 (Nat.not_lt.mpr hfull)
      · obtain ⟨hnil, hroom⟩ := hcalls
        rw [hcreate] at hsize'
        rw [hnil, List.length_nil] at hsize
        cases hcall : factory u.calls with
        | object x => exact ⟨x, rfl⟩
        | null =>
            simp only [hcall, hnil, List.length_nil, ObjectPool.size] at hsize'
            omega
        | throws =>
            simp only [hcall, hnil, List.length_nil, ObjectPool.size] at hsize'
            omega
  | release ptr => trivial
  | capacity n =>
      have havailable := (hexact _ rfl).available
      by_contra hbelow
      have hmax := toSize_lt n
      have hpos : 0 < u.pool.curSize := Nat.pos_of_ne_zero fun hzero =>
        hbelow (by simp [Accurate, hzero])
      -- there is an object, so that the calls of Create can be counted
      obtain ⟨x⟩ : Nonempty α := by
        have hlen : 0 < (u.held ++ u.pool.lstObjectPtr).length := by
          rw [List.length_append]
          omega
        obtain ⟨x, -⟩ := List.exists_mem_of_length_pos hlen
        exact ⟨x⟩
      have heq := havailable.eq (succeeding_remaining hmax) x
      exact hbelow ((available_eq_remaining_iff (p := u.pool.setCapacity n)
        (hsize ▸ Nat.le_add_left _ _) (hle.trans_lt hlt) hmax).mp heq)

/-- The counter and Available are right in all states of a run if and only if no call of
the factory in it fails and the capacity is never set below the counter. -/
theorem pool_exact_iff
    (factory : Nat → Creation α) (nSize : Int) (uses : List (PoolCall α)) :
    Transition.Always (step factory) Exact (initial nSize) uses ↔
      Transition.Along (step factory) (Accurate factory) (initial nSize) uses :=
  Transition.always_iff_along Counted
    (fun _ h => h.exact)
    (fun _ _ h => ⟨h.accurate_of_exact, fun haccurate _ hstep => (h.step haccurate hstep).exact⟩)
    (fun _ _ _ h haccurate hstep => h.step haccurate hstep)
    (counted_initial nSize)

/-- The call of the factory gives NULL. -/
theorem pool_not_exact :
    ¬∀ (factory : Nat → Creation Nat) (nSize : Int) (uses : List (PoolCall Nat)),
      Transition.Always (step factory) Exact (initial nSize) uses := by
  intro h
  have hsize := (h (fun _ => .null) 64 [.create] _ List.prefix_rfl _ rfl).size
  revert hsize
  decide

end Exact

section Numbered

variable {u : Usage Nat}

/-- If the factory numbers the objects, the pool is one of Library/Pool. -/
def Divided.toPool (h : u.Divided id) : Pool where
  stored := u.pool.lstObjectPtr
  size := u.pool.curSize
  capacity := u.pool.maxSize
  size_le := h.le
  stored_lt := by
    intro x hx
    obtain ⟨k, hk, rfl⟩ := (h.mem_iff x).mp (.inl hx)
    rw [← h.calls]
    exact hk
  nodup := (h.nodup Function.injective_id).of_append_left

/-- Its objects in use are those that are held. -/
theorem Divided.inUse_iff
    (h : u.Divided id)
    (x : Nat) :
    h.toPool.InUse x ↔ x ∈ u.held := by
  have hdisjoint := List.disjoint_of_nodup_append (h.nodup Function.injective_id)
  have hmem := h.mem_iff x
  rw [h.calls] at hmem
  constructor
  · rintro ⟨hlt, hfree⟩
    exact (hmem.mpr ⟨x, hlt, rfl⟩).resolve_left hfree
  · intro hheld
    obtain ⟨k, hk, rfl⟩ := hmem.mp (.inr hheld)
    exact ⟨hk, fun hfree => hdisjoint hfree hheld⟩

theorem Divided.toPool_eq
    (h : u.Divided id)
    {p : Pool}
    (hstored : u.pool.lstObjectPtr = p.stored)
    (hsize : u.pool.curSize = p.size)
    (hcapacity : u.pool.maxSize = p.capacity) :
    h.toPool = p := by
  cases p
  simp only [toPool, Pool.mk.injEq]
  exact ⟨hstored, hsize, hcapacity⟩

/-- Its Create is that of the code. -/
theorem Divided.toPool_create
    (h : u.Divided id) :
    h.toPool.create =
      match (u.create (makes id)).1 with
      | .object x => some (x, h.create.toPool)
      | _ => none := by
  unfold Pool.create
  split
  · rename_i hnil
    obtain ⟨x, rest, hlist, -⟩ | ⟨-, hfull, hcreate⟩ | ⟨⟨-, hroom⟩, hcreate⟩ :=
      create_cases (makes id) u
    · exact absurd (hlist.symm.trans hnil) (List.cons_ne_nil _ _)
    · have hnone : ¬h.toPool.size < h.toPool.capacity := Nat.not_lt.mpr hfull
      have hnull : (u.create (makes id)).1 = .null := by
        rw [hcreate]
      rw [dif_neg hnone, hnull]
    · have hsome : h.toPool.size < h.toPool.capacity := hroom
      have hpool : h.create.toPool = h.toPool.make hsome := by
        refine h.create.toPool_eq ?_ ?_ ?_
        · rw [hcreate]
          rfl
        · rw [hcreate]
          exact Nat.mod_eq_of_lt (Nat.lt_of_le_of_lt hroom h.lt)
        · rw [hcreate]
          rfl
      have hmade : (u.create (makes id)).1 = .object h.toPool.size := by
        rw [hcreate]
        exact congrArg _ h.calls
      rw [dif_pos hsome, hpool, hmade]
  · rename_i y rest hcons
    obtain ⟨x, rest', hlist, hcreate⟩ | ⟨hnil, -, -⟩ | ⟨⟨hnil, -⟩, -⟩ :=
      create_cases (makes id) u
    · have hpool : h.create.toPool = h.toPool.take y rest hcons := by
        refine h.create.toPool_eq ?_ ?_ ?_
        · rw [hcreate]
          exact (List.cons.inj (hlist.symm.trans hcons)).2
        · rw [hcreate]
          rfl
        · rw [hcreate]
          rfl
      have hfirst : (u.create (makes id)).1 = .object y := by
        rw [hcreate]
        exact congrArg _ (List.cons.inj (hlist.symm.trans hcons)).1
      rw [hpool, hfirst]
    · exact absurd (hcons.symm.trans hnil) (List.cons_ne_nil _ _)
    · exact absurd (hcons.symm.trans hnil) (List.cons_ne_nil _ _)

/-- And so is its Restitute. -/
theorem Divided.toPool_release
    (h : u.Divided id)
    {x : Nat}
    (hheld : x ∈ u.held) :
    h.toPool.restitute x ((h.inUse_iff x).mpr hheld) = (h.release hheld).toPool :=
  rfl

theorem Divided.toPool_available
    (h : u.Divided id) :
    h.toPool.available = u.pool.available := by
  have hlen := h.perm.length_eq
  rw [List.length_append, List.length_map, List.length_range, h.calls] at hlen
  exact ((available_eq_remaining_iff (by omega) (h.le.trans_lt h.lt) h.lt).mpr h.le).symm

end Numbered

end Usage

end Gamnet
