import Gamnet.Lib.ByteString
import Gamnet.Lib.Transition
import Mathlib.Data.List.Range
import Mathlib.Logic.Function.Basic

/-!
# The result of a select

All iterators of a result set, and the accesses by index, fetch rows with the one cursor of
the stored result. The end is a row pointer that is NULL, and begin makes one also if the
first column of the first row is NULL.

In every interleaving of traversals and accesses each traversal yields the rows from the
first one on, and is at the end when it has yielded all of them, exactly if no begin meets
such a NULL and each ++ finds the cursor where its own traversal left it
(`traversals_complete_iff`).
-/

namespace Gamnet
namespace Database

/-- A row: the columns, of which some are NULL. -/
abbrev Row : Type := List (Option Bytes)

/-- The stored rows and the cursor. -/
structure ResultSet where
  rows : List Row
  cursor : Nat

namespace ResultSet

/-- mysql_data_seek. -/
def dataSeek (s : ResultSet) (offset : Nat) : ResultSet :=
  { s with cursor := offset }

/-- mysql_fetch_row: the number of the row, or none for NULL. -/
def fetchRow (s : ResultSet) : Option Nat × ResultSet :=
  if s.cursor < s.rows.length then (some s.cursor, { s with cursor := s.cursor + 1 })
  else (none, s)

/-- The first column of a row is NULL. -/
def startsNull (s : ResultSet) (row : Nat) : Bool :=
  match s.rows[row]? with
  | some (none :: _) => true
  | _ => false

/-- The row of the iterator that begin makes. -/
def begin (s : ResultSet) : Option Nat × ResultSet :=
  let r := (s.dataSeek 0).fetchRow
  match r.1 with
  | some row => (if s.startsNull row then none else some row, r.2)
  | none => r

/-- The row of an iterator behind its ++. -/
def next (s : ResultSet) : Option Nat × ResultSet :=
  s.fetchRow

/-- The access by index, whose row is none if it throws. -/
def getRow (s : ResultSet) (index : Nat) : Option Nat × ResultSet :=
  if s.rows.length ≤ index then (none, s)
  else (s.dataSeek index).fetchRow

section Fetches

variable (s : ResultSet)

@[simp] theorem fetchRow_rows :
    s.fetchRow.2.rows = s.rows := by
  unfold fetchRow
  split
  · rfl
  · rfl

theorem fetchRow_cursor_le
    (hcursor : s.cursor ≤ s.rows.length) :
    s.fetchRow.2.cursor ≤ s.rows.length := by
  unfold fetchRow
  split
  · rename_i hlt
    exact hlt
  · exact hcursor

/-- Without rows begin is at the end. -/
theorem begin_nil
    (hrows : s.rows = []) :
    s.begin = (none, s.dataSeek 0) := by
  simp [begin, fetchRow, dataSeek, hrows]

/-- With rows it is at the first one, unless this begins with NULL. -/
theorem begin_of_pos
    (hrows : 0 < s.rows.length) :
    s.begin = (if s.startsNull 0 then none else some 0, { s with cursor := 1 }) := by
  simp [begin, fetchRow, dataSeek, hrows]

theorem begin_rows :
    s.begin.2.rows = s.rows := by
  cases hrows : s.rows with
  | nil =>
      rw [begin_nil s hrows]
      exact hrows
  | cons row rows =>
      rw [begin_of_pos s (by simp [hrows])]
      exact hrows

theorem begin_cursor_le :
    s.begin.2.cursor ≤ s.rows.length := by
  cases hrows : s.rows with
  | nil =>
      rw [begin_nil s hrows]
      exact Nat.le_refl 0
  | cons row rows =>
      rw [begin_of_pos s (by simp [hrows])]
      simp

theorem getRow_rows
    (index : Nat) :
    (s.getRow index).2.rows = s.rows := by
  unfold getRow
  split
  · rfl
  · exact fetchRow_rows _

theorem getRow_cursor_le
    (hcursor : s.cursor ≤ s.rows.length)
    (index : Nat) :
    (s.getRow index).2.cursor ≤ s.rows.length := by
  unfold getRow
  split
  · exact hcursor
  · rename_i hlt
    exact fetchRow_cursor_le (s.dataSeek index) (Nat.le_of_not_le hlt)

end Fetches

end ResultSet

/-- A traversal: the row of its iterator, which is none at the end, and the rows that it has
yielded. -/
structure Traversal where
  row : Option Nat
  yielded : List Nat

/-- The rows that a traversal has yielded, in their order: all up to the one it is at, and
all there are if it is at the end. -/
def Traversal.Sound (rows : List Row) (t : Traversal) : Prop :=
  match t.row with
  | some row => row < rows.length ∧ t.yielded = List.range (row + 1)
  | none => t.yielded = List.range rows.length

/-- A result set and the traversals of it. -/
structure Reading where
  result : ResultSet
  traversals : Nat → Option Traversal

namespace Reading

/-- The result of a select before any access. -/
def initial (rows : List Row) : Reading where
  result := ⟨rows, 0⟩
  traversals := fun _ => none

/-- What users do. A traversal goes on until it is at the end. -/
inductive Access
  | begin (t : Nat)
  | next (t : Nat)
  | index (i : Nat)
deriving DecidableEq

/-- A traversal gets a row. -/
def yields (r : Reading) (t : Nat) (yielded : List Nat) (row : Option Nat)
    (result : ResultSet) : Reading where
  result := result
  traversals := Function.update r.traversals t (some ⟨row, yielded ++ row.toList⟩)

/-- One step, if it is possible. -/
def step (r : Reading) : Access → Option Reading
  | .begin t => some (r.yields t [] r.result.begin.1 r.result.begin.2)
  | .next t =>
      match r.traversals t with
      | some ⟨some _, yielded⟩ => some (r.yields t yielded r.result.next.1 r.result.next.2)
      | _ => none
  | .index i => some { r with result := (r.result.getRow i).2 }

/-- Each traversal yields every row once, in order, before it is at the end. -/
def Complete (r : Reading) : Prop :=
  ∀ t traversal, r.traversals t = some traversal → traversal.Sound r.result.rows

/-- A begin meets no NULL in the first column of the first row, and a ++ finds the cursor
behind the row of its traversal. -/
def Keeps (r : Reading) : Access → Prop
  | .begin _ => r.result.startsNull 0 = false
  | .next t => ∀ row yielded, r.traversals t = some ⟨some row, yielded⟩ →
      r.result.cursor = row + 1
  | .index _ => True

section Steps

variable {r r' : Reading} {t : Nat}

theorem complete_yields_iff
    (h : r.Complete)
    (yielded : List Nat) (row : Option Nat) {result : ResultSet}
    (hrows : result.rows = r.result.rows) :
    (r.yields t yielded row result).Complete ↔
      Traversal.Sound r.result.rows ⟨row, yielded ++ row.toList⟩ := by
  unfold Complete yields
  dsimp only
  rw [hrows]
  constructor
  · intro hall
    exact hall t _ (Function.update_self ..)
  · intro hsound t' traversal htraversal
    by_cases ht : t' = t
    · subst ht
      rw [Function.update_self] at htraversal
      cases htraversal
      exact hsound
    · rw [Function.update_of_ne ht] at htraversal
      exact h t' traversal htraversal

/-- What every state has, whatever the steps: the cursor is not behind the end. -/
structure Ready (r : Reading) : Prop where
  complete : r.Complete
  cursor_le : r.result.cursor ≤ r.result.rows.length

theorem ready_initial
    (rows : List Row) :
    (initial rows).Ready where
  complete _ _ htraversal := by
    cases htraversal
  cursor_le := Nat.zero_le _

/-- The traversal that begin makes is sound unless the first row begins with NULL. -/
theorem Ready.complete_begin_iff
    (h : r.Ready)
    (t : Nat) :
    (r.yields t [] r.result.begin.1 r.result.begin.2).Complete ↔
      r.result.startsNull 0 = false := by
  rw [complete_yields_iff h.complete _ _ r.result.begin_rows]
  cases hrows : r.result.rows with
  | nil =>
      rw [r.result.begin_nil hrows]
      refine iff_of_true rfl ?_
      simp [ResultSet.startsNull, hrows]
  | cons row rows =>
      rw [r.result.begin_of_pos (by simp [hrows])]
      cases r.result.startsNull 0 with
      | true => simp [Traversal.Sound, List.range_succ]
      | false => simp [Traversal.Sound]

/-- A ++ goes on with the next row exactly if the cursor is there. -/
theorem Ready.complete_next_iff
    (h : r.Ready)
    {row : Nat} {yielded : List Nat}
    (htraversal : r.traversals t = some ⟨some row, yielded⟩) :
    (r.yields t yielded r.result.next.1 r.result.next.2).Complete ↔
      r.result.cursor = row + 1 := by
  obtain ⟨hlt, rfl⟩ := h.complete t _ htraversal
  rw [ResultSet.next, complete_yields_iff h.complete _ _ r.result.fetchRow_rows,
    ResultSet.fetchRow]
  by_cases hcursor : r.result.cursor < r.result.rows.length
  · rw [if_pos hcursor]
    simp only [Traversal.Sound, Option.toList_some, hcursor, true_and]
    constructor
    · intro heq
      have hlength := congrArg List.length heq
      simp only [List.length_append, List.length_range, List.length_singleton] at hlength
      omega
    · intro heq
      rw [heq, List.range_succ (n := row + 1)]
  · have hend : r.result.cursor = r.result.rows.length :=
      Nat.le_antisymm h.cursor_le (Nat.le_of_not_lt hcursor)
    rw [if_neg hcursor, hend]
    simp only [Traversal.Sound, Option.toList_none, List.append_nil]
    constructor
    · intro heq
      have hlength := congrArg List.length heq
      rw [List.length_range, List.length_range] at hlength
      exact hlength.symm
    · intro heq
      rw [heq]

theorem Ready.complete_step_iff
    (h : r.Ready)
    (access : Access) :
    (∀ r', r.step access = some r' → r'.Complete) ↔ r.Keeps access := by
  cases access with
  | begin t =>
      simp only [step, Option.some.injEq, forall_eq']
      exact h.complete_begin_iff t
  | next t =>
      simp only [step, Keeps]
      cases htraversal : r.traversals t with
      | none => simp
      | some traversal =>
          obtain ⟨row, yielded⟩ := traversal
          cases row with
          | none => simp
          | some row =>
              have hnext := h.complete_next_iff htraversal
              constructor
              · intro hcomplete row' yielded' heq
                cases heq
                exact hnext.mp (hcomplete _ rfl)
              · intro hkeeps r' hstep
                cases hstep
                exact hnext.mpr (hkeeps row yielded rfl)
  | index i =>
      refine iff_of_true (fun r' hstep => ?_) trivial
      cases hstep
      intro t traversal htraversal
      rw [ResultSet.getRow_rows]
      exact h.complete t traversal htraversal

theorem Ready.step
    (h : r.Ready)
    {access : Access}
    (hkeeps : r.Keeps access)
    (hstep : r.step access = some r') :
    r'.Ready := by
  refine ⟨(h.complete_step_iff access).mpr hkeeps r' hstep, ?_⟩
  cases access with
  | begin t =>
      cases hstep
      rw [yields, ResultSet.begin_rows]
      exact r.result.begin_cursor_le
  | next t =>
      simp only [Reading.step] at hstep
      split at hstep
      · cases hstep
        rw [yields, ResultSet.next, ResultSet.fetchRow_rows]
        exact r.result.fetchRow_cursor_le h.cursor_le
      · cases hstep
  | index i =>
      cases hstep
      rw [ResultSet.getRow_rows]
      exact r.result.getRow_cursor_le h.cursor_le i

end Steps

/-- In every interleaving of traversals and accesses by index each traversal yields the rows
in order, each once, and is then at the end, if and only if no begin meets a NULL in the first
column of the first row and each ++ finds the cursor behind the row of its traversal. -/
theorem traversals_complete_iff
    (rows : List Row) (accesses : List Access) :
    Transition.Always step Complete (initial rows) accesses ↔
      Transition.Along step Keeps (initial rows) accesses :=
  Transition.always_iff_along Ready
    (fun _ h => h.complete)
    (fun _ access h => h.complete_step_iff access)
    (fun _ _ _ h hkeeps hstep => h.step hkeeps hstep)
    (ready_initial rows)

/-- The first column of the only row is NULL. -/
theorem traversals_not_complete :
    ¬∀ (rows : List Row) (accesses : List Access),
      Transition.Always step Complete (initial rows) accesses := by
  intro h
  have hsound := h [[none, some [0x61]]] [.begin 0] _ List.prefix_rfl _ rfl 0 ⟨none, []⟩ rfl
  cases hsound

end Reading

end Database
end Gamnet
