import Mathlib.Data.List.Basic

/-!
# Declarations of the interface language

The tokens that the parser of idlc hands to its generators: variable types,
declarations of variables, and the enums, typedefs, structs and messages of a
file. A user-defined type is a name that an earlier declaration of the file
has introduced; the C++ compiler accepts the generated header only then.

Names of enumerators, message numbers and literal blocks do not reach the
serializers and are left out. A struct is a message without number. The names of
fields are spliced into the serializers; FieldNames adds them to what is here, the
layout of the declarations.
-/

namespace Gamnet
namespace Idlc

/-- The primitive types of the symbol table. -/
inductive PrimitiveType where
  | boolean
  | byte
  | ubyte
  | int16
  | int32
  | int64
  | uint16
  | uint32
  | uint64
  | double
  | float
deriving DecidableEq

/-- The sizeof of the C++ type that the symbol table gives a primitive. -/
def PrimitiveType.size : PrimitiveType → Nat
  | .boolean => 1
  | .byte => 1
  | .ubyte => 1
  | .int16 => 2
  | .int32 => 4
  | .int64 => 8
  | .uint16 => 2
  | .uint32 => 4
  | .uint64 => 8
  | .double => 8
  | .float => 4

/-- A type expression over the names that are declared before it. -/
inductive VarType (declared : List String) where
  | primitive (type : PrimitiveType)
  | string
  | userDefine (name : String) (known : name ∈ declared)
  | list (elmtType : VarType declared)
  | array (elmtType : VarType declared)
  | map (keyType elmtType : VarType declared)

/-- The type of a field. A static array is only possible there: its C++ type
is the element type with a bound behind the name of the field. -/
inductive FieldType (declared : List String) where
  | plain (type : VarType declared)
  | staticArray (elmtType : VarType declared) (elmtCount : Nat)

/-- The primitive element type for which the parser sets m_bPrimitive. -/
def VarType.primitive?
    {declared : List String} : VarType declared → Option PrimitiveType
  | .primitive type => some type
  | _ => none

/-- A declaration over the names that are declared before it: an enum with the
numbers given to its elements, a typedef, or a message with its parent and the
types of its fields. -/
inductive Decl (declared : List String) where
  | enum (numbers : List (Option Nat))
  | typedef (varType : VarType declared)
  | message
      (parent : Option {name : String // name ∈ declared})
      (fields : List (FieldType declared))

/-- A parent is one of the declared names. -/
theorem mem_declared
    {declared : List String}
    (base : {name : String // name ∈ declared}) :
    base.1 ∈ declared :=
  base.2

/-- The declarations of a file in order, indexed by the declared names. -/
inductive Environment : List String → Type where
  | empty : Environment []
  | declare
      {declared : List String}
      (before : Environment declared)
      (name : String)
      (decl : Decl declared) :
      Environment (name :: declared)

/-- What every declared name stands for. -/
abbrev Names
    (declared : List String)
    (X : Type) : Type :=
  (name : String) → name ∈ declared → X

/-- Compile the declarations of a file one after the other, each with the
results of those before it. -/
def Environment.compile
    {X : Type}
    (compileDecl : {declared : List String} → Names declared X →
      Decl declared → X) :
    {declared : List String} → Environment declared → Names declared X
  | _, .empty, _, known => absurd known List.not_mem_nil
  | _, .declare before name decl, other, known =>
      if same : other = name then
        compileDecl (before.compile compileDecl) decl
      else
        before.compile compileDecl other
          ((List.mem_cons.mp known).resolve_left same)

/-- Two ways to compile are related on every name of a file if they are
related on a declaration whenever they are related on the names before it. -/
theorem Environment.compile_related
    {X Y : Type}
    {compileX : {declared : List String} → Names declared X → Decl declared → X}
    {compileY : {declared : List String} → Names declared Y → Decl declared → Y}
    (R : X → Y → Prop)
    (hstep : ∀ {declared : List String}
      (x : Names declared X) (y : Names declared Y),
      (∀ name known, R (x name known) (y name known)) →
        ∀ decl, R (compileX x decl) (compileY y decl))
    {declared : List String}
    (env : Environment declared)
    (name : String)
    (known : name ∈ declared) :
    R (env.compile compileX name known) (env.compile compileY name known) := by
  induction env generalizing name with
  | empty =>
      exact absurd known List.not_mem_nil
  | declare before last decl ih =>
      by_cases same : name = last
      · simp only [compile, dif_pos same]
        exact hstep _ _ ih decl
      · simp only [compile, dif_neg same]
        exact ih name ((List.mem_cons.mp known).resolve_left same)

/-- What the result for every declaration has, if those for the names before it do. -/
theorem Environment.compile_forall
    {X : Type}
    {compileX : {declared : List String} → Names declared X → Decl declared → X}
    (P : X → Prop)
    (hstep : ∀ {declared : List String} (x : Names declared X),
      (∀ name known, P (x name known)) → ∀ decl, P (compileX x decl))
    {declared : List String}
    (env : Environment declared)
    (name : String)
    (known : name ∈ declared) :
    P (env.compile compileX name known) := by
  induction env generalizing name with
  | empty =>
      exact absurd known List.not_mem_nil
  | declare before last decl ih =>
      by_cases same : name = last
      · simp only [compile, dif_pos same]
        exact hstep _ ih decl
      · simp only [compile, dif_neg same]
        exact ih name ((List.mem_cons.mp known).resolve_left same)

/-- The same for three ways to compile. -/
theorem Environment.compile_related₃
    {X Y Z : Type}
    {compileX : {declared : List String} → Names declared X → Decl declared → X}
    {compileY : {declared : List String} → Names declared Y → Decl declared → Y}
    {compileZ : {declared : List String} → Names declared Z → Decl declared → Z}
    (R : X → Y → Z → Prop)
    (hstep : ∀ {declared : List String}
      (x : Names declared X) (y : Names declared Y) (z : Names declared Z),
      (∀ name known, R (x name known) (y name known) (z name known)) →
        ∀ decl, R (compileX x decl) (compileY y decl) (compileZ z decl))
    {declared : List String}
    (env : Environment declared)
    (name : String)
    (known : name ∈ declared) :
    R (env.compile compileX name known) (env.compile compileY name known)
      (env.compile compileZ name known) := by
  induction env generalizing name with
  | empty =>
      exact absurd known List.not_mem_nil
  | declare before last decl ih =>
      by_cases same : name = last
      · simp only [compile, dif_pos same]
        exact hstep _ _ _ ih decl
      · simp only [compile, dif_neg same]
        exact ih name ((List.mem_cons.mp known).resolve_left same)

/-- The same for four ways to compile. -/
theorem Environment.compile_related₄
    {W X Y Z : Type}
    {compileW : {declared : List String} → Names declared W → Decl declared → W}
    {compileX : {declared : List String} → Names declared X → Decl declared → X}
    {compileY : {declared : List String} → Names declared Y → Decl declared → Y}
    {compileZ : {declared : List String} → Names declared Z → Decl declared → Z}
    (R : W → X → Y → Z → Prop)
    (hstep : ∀ {declared : List String} (w : Names declared W)
      (x : Names declared X) (y : Names declared Y) (z : Names declared Z),
      (∀ name known, R (w name known) (x name known) (y name known) (z name known)) →
        ∀ decl, R (compileW w decl) (compileX x decl) (compileY y decl) (compileZ z decl))
    {declared : List String}
    (env : Environment declared)
    (name : String)
    (known : name ∈ declared) :
    R (env.compile compileW name known) (env.compile compileX name known)
      (env.compile compileY name known) (env.compile compileZ name known) := by
  induction env generalizing name with
  | empty =>
      exact absurd known List.not_mem_nil
  | declare before last decl ih =>
      by_cases same : name = last
      · simp only [compile, dif_pos same]
        exact hstep _ _ _ _ ih decl
      · simp only [compile, dif_neg same]
        exact ih name ((List.mem_cons.mp known).resolve_left same)

/-- Every declaration of a file has a property. -/
def Environment.Forall
    (P : {declared : List String} → Decl declared → Prop) :
    {declared : List String} → Environment declared → Prop
  | _, .empty => True
  | _, .declare before _ decl => before.Forall P ∧ P decl

/-- The same for a file whose declarations have a property. -/
theorem Environment.compile_related_of
    {X Y : Type}
    {compileX : {declared : List String} → Names declared X → Decl declared → X}
    {compileY : {declared : List String} → Names declared Y → Decl declared → Y}
    {P : {declared : List String} → Decl declared → Prop}
    (R : X → Y → Prop)
    (hstep : ∀ {declared : List String}
      (x : Names declared X) (y : Names declared Y),
      (∀ name known, R (x name known) (y name known)) →
        ∀ decl, P decl → R (compileX x decl) (compileY y decl))
    {declared : List String}
    {env : Environment declared}
    (henv : env.Forall P)
    (name : String)
    (known : name ∈ declared) :
    R (env.compile compileX name known) (env.compile compileY name known) := by
  induction env generalizing name with
  | empty =>
      exact absurd known List.not_mem_nil
  | declare before last decl ih =>
      by_cases same : name = last
      · simp only [compile, dif_pos same]
        exact hstep _ _ (fun name known => ih henv.1 name known) decl henv.2
      · simp only [compile, dif_neg same]
        exact ih henv.1 name ((List.mem_cons.mp known).resolve_left same)

end Idlc
end Gamnet
