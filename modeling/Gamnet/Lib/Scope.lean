import Mathlib.Data.List.Basic
import Mathlib.Tactic.Common

/-!
# Scopes

Code with blocks, declarations and accesses. A declared name is known from its declaration
to the end of the block, and the innermost declaration of a name is the one that counts.

`Meets` states a condition on every declaration and on every access, the latter in the
scope that it finds. The rules take it apart along the code.

The module is independent of any language.
-/

namespace Gamnet
namespace Scope

/-- Code that declares names with their kinds and accesses what it knows. -/
inductive Code (N S A : Type) where
  | skip
  | declare (name : N) (kind : S)
  | access (a : A)
  | seq (first second : Code N S A)
  | block (body : Code N S A)

variable {N S A : Type}

namespace Code

/-- Statements in order. -/
def all : List (Code N S A) → Code N S A
  | [] => skip
  | c :: cs => seq c (all cs)

/-- The names that are known behind the code, the latest first. -/
def declared : Code N S A → List (N × S)
  | declare name kind => [(name, kind)]
  | seq first second => second.declared ++ first.declared
  | _ => []

/-- A condition on each declaration, and one on each access in its scope. -/
def Meets
    (P : N → S → Prop)
    (Q : List (N × S) → A → Prop) : List (N × S) → Code N S A → Prop
  | _, skip => True
  | _, declare name kind => P name kind
  | scope, access a => Q scope a
  | scope, seq first second =>
      first.Meets P Q scope ∧ second.Meets P Q (first.declared ++ scope)
  | scope, block body => body.Meets P Q scope

variable {P : N → S → Prop} {Q : List (N × S) → A → Prop} {scope : List (N × S)}

@[simp] theorem meets_skip :
    Meets P Q scope skip := by
  trivial

@[simp] theorem meets_declare
    {name : N} {kind : S} :
    Meets P Q scope (declare name kind) ↔ P name kind := by
  rfl

@[simp] theorem meets_access
    {a : A} :
    Meets P Q scope (access a) ↔ Q scope a := by
  rfl

@[simp] theorem meets_block
    {body : Code N S A} :
    Meets P Q scope (block body) ↔ Meets P Q scope body := by
  rfl

@[simp] theorem meets_all_nil :
    Meets P Q scope (all []) := by
  trivial

@[simp] theorem meets_all_cons
    {c : Code N S A} {cs : List (Code N S A)} :
    Meets P Q scope (all (c :: cs)) ↔
      Meets P Q scope c ∧ Meets P Q (c.declared ++ scope) (all cs) := by
  rfl

@[simp] theorem declared_skip :
    (skip : Code N S A).declared = [] := by
  rfl

@[simp] theorem declared_declare
    (name : N) (kind : S) :
    (declare name kind : Code N S A).declared = [(name, kind)] := by
  rfl

@[simp] theorem declared_access
    (a : A) :
    (access a : Code N S A).declared = [] := by
  rfl

@[simp] theorem declared_block
    (body : Code N S A) :
    (block body).declared = [] := by
  rfl

@[simp] theorem declared_all_nil :
    (all [] : Code N S A).declared = [] := by
  rfl

@[simp] theorem declared_all_cons
    (c : Code N S A) (cs : List (Code N S A)) :
    (all (c :: cs)).declared = (all cs).declared ++ c.declared := by
  rfl

end Code

/-- The names that a scope knows. -/
def names (scope : List (N × S)) : List N :=
  scope.map Prod.fst

@[simp] theorem names_nil :
    names ([] : List (N × S)) = [] := by
  rfl

@[simp] theorem names_cons
    (name : N) (kind : S) (scope : List (N × S)) :
    names ((name, kind) :: scope) = name :: names scope := by
  rfl

@[simp] theorem names_append
    (inner scope : List (N × S)) :
    names (inner ++ scope) = names inner ++ names scope := by
  simp [names]

section Lookup

variable [DecidableEq N]

/-- The innermost declaration of a name. -/
def lookup : List (N × S) → N → Option S
  | [], _ => none
  | (name, kind) :: scope, x => if x = name then some kind else lookup scope x

@[simp] theorem lookup_cons_self
    (name : N) (kind : S) (scope : List (N × S)) :
    lookup ((name, kind) :: scope) name = some kind := by
  simp [lookup]

theorem lookup_cons_of_ne
    {name x : N}
    (hne : x ≠ name)
    (kind : S) (scope : List (N × S)) :
    lookup ((name, kind) :: scope) x = lookup scope x := by
  simp [lookup, hne]

theorem lookup_append_of_notMem
    {inner : List (N × S)} {x : N}
    (hx : x ∉ names inner)
    (scope : List (N × S)) :
    lookup (inner ++ scope) x = lookup scope x := by
  induction inner with
  | nil => rfl
  | cons entry inner ih =>
      rw [← entry.eta, names_cons, List.mem_cons, not_or] at hx
      exact (lookup_cons_of_ne hx.1 entry.2 _).trans (ih hx.2)

end Lookup

end Scope
end Gamnet
