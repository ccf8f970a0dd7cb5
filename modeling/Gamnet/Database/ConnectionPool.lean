import Gamnet.Library.ObjectPool
import Mathlib.Logic.Function.Basic

/-!
# Connection pools

Connect stores the information for a database and a pool for its connections, and then asks
the pool for a connection as a test. When the test fails both entries stay, so that every
later Connect for the database is refused as a duplicate. Whether an attempt to connect
reaches the server is an input of the calls.

A Connect that returns false leaves the maps as they were, and lets a later one succeed,
exactly if the first Connect for its database reached the server (`connect_atomic_iff`).
-/

namespace Gamnet
namespace Database

/-- A connection that was made with the information. -/
structure Connection (Info : Type) where
  connInfo : Info
deriving DecidableEq

/-- The two maps. -/
structure ConnectionPool (Info : Type) where
  mapConnectionInfo : Int → Option Info
  mapConnectionPool : Int → Option (ObjectPool (Connection Info))

/-- A call of Connect, and whether the attempt to connect that it makes succeeds. -/
structure ConnectCall (Info : Type) where
  dbType : Int
  connInfo : Info
  reached : Bool

namespace ConnectionPool

variable {Info : Type}

def initial : ConnectionPool Info where
  mapConnectionInfo := fun _ => none
  mapConnectionPool := fun _ => none

/-- ConnectionFactory. -/
def connectionFactory (m : ConnectionPool Info) (dbType : Int) (reached : Bool) :
    Creation (Connection Info) :=
  match m.mapConnectionInfo dbType with
  | none => .throws
  | some connInfo => if reached then .object ⟨connInfo⟩ else .null

/-- Connect, or none if there is an exception. The connection of the test goes back to the
pool at the end. -/
def connect (m : ConnectionPool Info) (call : ConnectCall Info) :
    Option Bool × ConnectionPool Info :=
  match m.mapConnectionInfo call.dbType with
  | some _ => (some false, m)
  | none =>
      let m :=
        { m with
          mapConnectionInfo :=
            Function.update m.mapConnectionInfo call.dbType (some call.connInfo) }
      match m.mapConnectionPool call.dbType with
      | some _ => (some false, m)
      | none =>
          let pool := ObjectPool.new 64
          let r := pool.create (m.connectionFactory call.dbType call.reached)
          let keep := fun pool =>
            { m with
              mapConnectionPool :=
                Function.update m.mapConnectionPool call.dbType (some pool) }
          match r.1 with
          | .object conn => (some true, keep (r.2.restitute (some conn)))
          | .null => (some false, keep r.2)
          | .throws => (none, keep r.2)

/-- GetConnection, or none if there is an exception. -/
def getConnection (m : ConnectionPool Info) (dbType : Int) (reached : Bool) :
    Option (Connection Info) × ConnectionPool Info :=
  match m.mapConnectionPool dbType with
  | none => (none, m)
  | some pool =>
      let r := pool.create (m.connectionFactory dbType reached)
      let m :=
        { m with mapConnectionPool := Function.update m.mapConnectionPool dbType (some r.2) }
      match r.1 with
      | .object conn => (some conn, m)
      | _ => (none, m)

/-- The maps behind calls of Connect. -/
def after (m : ConnectionPool Info) (calls : List (ConnectCall Info)) : ConnectionPool Info :=
  calls.foldl (fun m call => (m.connect call).2) m

/-- The first of the calls for the database. -/
def first (calls : List (ConnectCall Info)) (dbType : Int) : Option (ConnectCall Info) :=
  calls.find? fun call => call.dbType = dbType

/-- One of the calls for the database returned true. -/
def Connected (calls : List (ConnectCall Info)) (dbType : Int) : Prop :=
  ∃ pre call, pre ++ [call] <+: calls ∧ call.dbType = dbType ∧
    ((initial.after pre).connect call).1 = some true

/-- If the call returns false, it leaves the maps as they were; and if none for its database
has returned true, then behind any calls for other databases one that reaches its server
returns true, and GetConnection yields a connection that was made with its information. -/
def Atomic (calls : List (ConnectCall Info)) (call : ConnectCall Info) : Prop :=
  ((initial.after calls).connect call).1 = some false →
    ((initial.after calls).connect call).2 = initial.after calls ∧
      (¬Connected calls call.dbType →
        ∀ others : List (ConnectCall Info), (∀ other ∈ others, other.dbType ≠ call.dbType) →
          ∀ connInfo reached,
            let m := (((initial.after calls).connect call).2).after others
            let r := m.connect ⟨call.dbType, connInfo, true⟩
            r.1 = some true ∧
              (r.2.getConnection call.dbType reached).1 = some ⟨connInfo⟩)

section Tables

/-- The pool that the first call for a database leaves. -/
def tested (call : ConnectCall Info) : ObjectPool (Connection Info) where
  lstObjectPtr := if call.reached then [⟨call.connInfo⟩] else []
  curSize := 1
  maxSize := 64

/-- The maps have what the first call for each database left. -/
def tables (calls : List (ConnectCall Info)) : ConnectionPool Info where
  mapConnectionInfo := fun dbType => (first calls dbType).map ConnectCall.connInfo
  mapConnectionPool := fun dbType => (first calls dbType).map tested

variable {calls : List (ConnectCall Info)} {call : ConnectCall Info}

theorem first_append
    (calls : List (ConnectCall Info)) (call : ConnectCall Info) (dbType : Int) :
    first (calls ++ [call]) dbType =
      (first calls dbType).or (if call.dbType = dbType then some call else none) := by
  unfold first
  rw [List.find?_append]
  by_cases h : call.dbType = dbType
  · simp [h]
  · simp [h]

/-- A later call for the database does not change the maps. -/
theorem tables_append_of_some
    {c : ConnectCall Info}
    (hfirst : first calls call.dbType = some c) :
    tables (calls ++ [call]) = tables calls := by
  have hsame : ∀ dbType, first (calls ++ [call]) dbType = first calls dbType := by
    intro dbType
    rw [first_append]
    by_cases h : call.dbType = dbType
    · subst h
      simp [hfirst]
    · simp [h]
  unfold tables
  simp only [hsame]

/-- The first one adds its entries. -/
theorem tables_append_of_none
    (hfirst : first calls call.dbType = none) :
    tables (calls ++ [call]) =
      { mapConnectionInfo :=
          Function.update (tables calls).mapConnectionInfo call.dbType (some call.connInfo)
        mapConnectionPool :=
          Function.update (tables calls).mapConnectionPool call.dbType (some (tested call)) } := by
  have hfirst' : ∀ dbType, first (calls ++ [call]) dbType =
      Function.update (first calls) call.dbType (some call) dbType := by
    intro dbType
    rw [first_append]
    by_cases h : dbType = call.dbType
    · subst h
      simp [hfirst]
    · simp [h, Ne.symm h]
  unfold tables
  simp only [hfirst', mk.injEq]
  constructor
  · funext dbType
    by_cases h : dbType = call.dbType
    · subst h
      simp
    · simp [h]
  · funext dbType
    by_cases h : dbType = call.dbType
    · subst h
      simp
    · simp [h]

/-- Connect returns true for the first call for a database if that reaches the server, and
false else. -/
theorem connect_tables
    (calls : List (ConnectCall Info)) (call : ConnectCall Info) :
    (tables calls).connect call =
      (some ((first calls call.dbType).isNone && call.reached), tables (calls ++ [call])) := by
  cases hfirst : first calls call.dbType with
  | some c =>
      have hinfo : (tables calls).mapConnectionInfo call.dbType = some c.connInfo := by
        simp [tables, hfirst]
      rw [tables_append_of_some hfirst]
      simp [connect, hinfo]
  | none =>
      have hinfo : (tables calls).mapConnectionInfo call.dbType = none := by
        simp [tables, hfirst]
      have hpool : (tables calls).mapConnectionPool call.dbType = none := by
        simp [tables, hfirst]
      have hmax : ObjectPool.toSize 64 = 64 := rfl
      rw [tables_append_of_none hfirst]
      cases hreached : call.reached with
      | true =>
          simp [connect, hinfo, hpool, hreached, hmax, connectionFactory, tested,
            ObjectPool.create, ObjectPool.new, ObjectPool.restitute]
      | false =>
          simp [connect, hinfo, hpool, hreached, hmax, connectionFactory, tested,
            ObjectPool.create, ObjectPool.new]

theorem after_initial
    (calls : List (ConnectCall Info)) :
    initial.after calls = tables calls := by
  induction calls using List.reverseRecOn with
  | nil => rfl
  | append_singleton calls call ih =>
      have hlast : initial.after (calls ++ [call]) =
          ((initial.after calls).connect call).2 := List.foldl_concat ..
      rw [hlast, ih, connect_tables]

/-- A call for the database returned true exactly if the first one reached the server. -/
theorem connected_iff
    (calls : List (ConnectCall Info)) (dbType : Int) :
    Connected calls dbType ↔ ∃ c, first calls dbType = some c ∧ c.reached := by
  constructor
  · rintro ⟨pre, call, ⟨rest, rfl⟩, rfl, hresult⟩
    rw [after_initial, connect_tables, Option.some.injEq, Bool.and_eq_true,
      Option.isNone_iff_eq_none] at hresult
    refine ⟨call, ?_, hresult.2⟩
    have hhead := first_append pre call call.dbType
    rw [hresult.1, if_pos rfl, Option.none_or] at hhead
    unfold first at hhead ⊢
    rw [List.find?_append, hhead, Option.some_or]
  · rintro ⟨c, hfirst, hreached⟩
    obtain ⟨hdb, pre, rest, rfl, hpre⟩ := List.find?_eq_some_iff_append.mp hfirst
    have hdb' : c.dbType = dbType := of_decide_eq_true hdb
    have hnone : first pre c.dbType = none := by
      rw [hdb']
      refine List.find?_eq_none.mpr fun x hx => ?_
      simpa using hpre x hx
    refine ⟨pre, c, ⟨rest, by simp⟩, hdb', ?_⟩
    rw [after_initial, connect_tables, hnone, hreached]
    rfl

end Tables

/-- A call that returns false leaves the maps as they were, so that a later one can succeed,
if and only if the first call for its database, which may be the call itself, reached the
server. -/
theorem connect_atomic_iff
    (calls : List (ConnectCall Info)) (call : ConnectCall Info) :
    Atomic calls call ↔ ∃ c, first (calls ++ [call]) call.dbType = some c ∧ c.reached := by
  unfold Atomic
  rw [after_initial, connect_tables, first_append, if_pos rfl]
  cases hfirst : first calls call.dbType with
  | some c =>
      have hsame := tables_append_of_some hfirst
      simp only [Option.isNone_some, Bool.false_and, forall_const, Option.some_or]
      constructor
      · rintro ⟨-, hlater⟩
        refine ⟨c, rfl, ?_⟩
        by_contra hreached
        have hnever : ¬Connected calls call.dbType := by
          rw [connected_iff]
          rintro ⟨c', hfirst', hreached'⟩
          cases hfirst.symm.trans hfirst'
          exact hreached hreached'
        -- a further call is a duplicate as well
        have hresult := (hlater hnever [] (by simp) call.connInfo true).1
        rw [hsame, after, List.foldl_nil, connect_tables, hfirst] at hresult
        cases hresult
      · rintro ⟨c', hc', hreached⟩
        cases hc'
        exact ⟨hsame, fun hnever => absurd ((connected_iff ..).mpr ⟨c, hfirst, hreached⟩) hnever⟩
  | none =>
      simp only [Option.isNone_none, Bool.true_and, Option.none_or, Option.some.injEq,
        exists_eq_left']
      constructor
      · intro h
        cases hreached : call.reached with
        | true => rfl
        | false =>
            have hmaps := congrArg (fun m => m.mapConnectionInfo call.dbType) (h hreached).1
            rw [tables_append_of_none hfirst] at hmaps
            simp [tables, hfirst] at hmaps
      · intro hreached hfalse
        rw [hreached] at hfalse
        cases hfalse

/-- The server of the first call is down. -/
theorem connect_not_atomic :
    ¬∀ (calls : List (ConnectCall Nat)) (call : ConnectCall Nat), Atomic calls call := by
  intro h
  have hmaps := congrArg (fun m => m.mapConnectionInfo 1) (h [] ⟨1, 7, false⟩ rfl).1
  revert hmaps
  decide

end ConnectionPool

end Database
end Gamnet
