import Mathlib.Data.List.Basic

/-!
# Declarations in order

A list of declarations in which each may refer to the names that are declared before it,
and what a compiler makes of them one after the other.

The module is independent of any language.
-/

namespace Gamnet
namespace Lib

variable {N : Type} {D : List N → Type}

/-- Declarations over names, indexed by the names that they declare. -/
inductive Declarations (D : List N → Type) : List N → Type where
  | empty : Declarations D []
  | declare
      {declared : List N}
      (before : Declarations D declared)
      (name : N)
      (decl : D declared) :
      Declarations D (name :: declared)

/-- What every declared name stands for. -/
abbrev Known (declared : List N) (X : Type) : Type :=
  (name : N) → name ∈ declared → X

namespace Declarations

variable [DecidableEq N]

/-- Compile the declarations one after the other. Of two declarations of a name the later one
counts. -/
def compile
    {X : Type}
    (compileDecl : {declared : List N} → Known declared X → D declared → X) :
    {declared : List N} → Declarations D declared → Known declared X
  | _, empty, _, known => absurd known List.not_mem_nil
  | _, declare before name decl, other, known =>
      if same : other = name then
        compileDecl (before.compile compileDecl) decl
      else
        before.compile compileDecl other ((List.mem_cons.mp known).resolve_left same)

/-- Two compilers are related on every name if they are related on a declaration whenever
they are related on the names before it. -/
theorem compile_related
    {X Y : Type}
    {compileX : {declared : List N} → Known declared X → D declared → X}
    {compileY : {declared : List N} → Known declared Y → D declared → Y}
    (R : X → Y → Prop)
    (hstep : ∀ {declared : List N} (x : Known declared X) (y : Known declared Y),
      (∀ name known, R (x name known) (y name known)) →
        ∀ decl, R (compileX x decl) (compileY y decl))
    {declared : List N}
    (decls : Declarations D declared)
    (name : N)
    (known : name ∈ declared) :
    R (decls.compile compileX name known) (decls.compile compileY name known) := by
  induction decls generalizing name with
  | empty => exact absurd known List.not_mem_nil
  | declare before last decl ih =>
      by_cases same : name = last
      · simp only [compile, dif_pos same]
        exact hstep _ _ ih decl
      · simp only [compile, dif_neg same]
        exact ih name ((List.mem_cons.mp known).resolve_left same)

/-- Every declaration has a property. -/
def Forall (P : {declared : List N} → D declared → Prop) :
    {declared : List N} → Declarations D declared → Prop
  | _, empty => True
  | _, declare before _ decl => before.Forall P ∧ P decl

omit [DecidableEq N] in
theorem Forall.imp
    {P Q : {declared : List N} → D declared → Prop}
    (hPQ : ∀ {declared : List N} (decl : D declared), P decl → Q decl)
    {declared : List N}
    {decls : Declarations D declared}
    (h : decls.Forall P) :
    decls.Forall Q := by
  induction decls with
  | empty => trivial
  | declare before name decl ih => exact ⟨ih h.1, hPQ decl h.2⟩

end Declarations

end Lib
end Gamnet
