import Gamnet.Idlc.Bounds
import Gamnet.Idlc.LoadInto
import Gamnet.Lib.LeastWord

/-!
# The fewest bytes of an object

A scalar takes its size, a string and a container at least their length word, and a
message what its parent and its fields take. That many zero bytes are such an object.
A static array whose loop counter overflows has no encoding.

A type without bytes is hollow: Load succeeds on an empty buffer and leaves an object of
the type as it is. On an empty buffer Load into any other type fails, or runs past the
end of the buffer and leaves what it finds there.
-/

namespace Gamnet
namespace Idlc

open LittleEndian Reader

section Types

variable {declared : List String}
variable (sizes : Names declared (Option Nat))

/-- The fewest bytes of a variable. -/
def VarType.leastSize : VarType declared → Option Nat
  | .primitive type => some type.size
  | .userDefine name known => sizes name known
  | _ => some 4

/-- The fewest bytes of a field. -/
def FieldType.leastSize : FieldType declared → Option Nat
  | .plain type => type.leastSize sizes
  | .staticArray elmtType elmtCount =>
      match elmtType.primitive? with
      | some type => some (type.size * elmtCount)
      | none =>
          if elmtCount < counterLimit then
            timesLeast elmtCount (elmtType.leastSize sizes)
          else
            none

/-- The fewest bytes of the fields of a message. -/
def leastFields : List (FieldType declared) → Option Nat
  | [] => some 0
  | field :: fields => sumLeast (field.leastSize sizes) (leastFields fields)

/-- The fewest bytes of an object of a declared type. -/
def Decl.leastSize : Decl declared → Option Nat
  | .enum numbers => some (enumSize numbers)
  | .typedef type => type.leastSize sizes
  | .message none fields => leastFields sizes fields
  | .message (some base) fields =>
      sumLeast (sizes base.1 (mem_declared base)) (leastFields sizes fields)

end Types

/-- The fewest bytes of the objects of the names that a file declares. -/
def Environment.leastSize
    {declared : List String}
    (env : Environment declared) : Names declared (Option Nat) :=
  env.compile Decl.leastSize

section Least

open Grammar

theorem least_length :
    Least lengthGrammar (some 4) :=
  (Least.checked 4).map decode

/-- The length that four zero bytes are read as. -/
theorem length_of_zeros
    {n : Nat}
    (hn : lengthGrammar.reads n (List.replicate 4 0)) :
    n = 0 := by
  obtain ⟨bytes, rfl, rfl, -⟩ := hn
  decide

/-- A container takes at least its length word, and a zero one is empty. -/
theorem least_prefixed
    {α : Type}
    (f : List α → Value)
    (g : Grammar α) :
    Least (prefixedGrammar f g) (some 4) := by
  refine least_length.bind_of (fun _ => Nat.zero_le _) fun n hn => ?_
  rw [length_of_zeros hn]
  exact (Least.many_zero g).map f

theorem least_text :
    Least textGrammar (some 4) := by
  refine least_length.bind_of (fun _ => Nat.zero_le _) fun n hn => ?_
  rw [length_of_zeros hn]
  exact (Least.checked 0).map _

variable (order : {declared : List String} → VarType declared → Compare)
variable {declared : List String}
variable {grammars : Names declared (Grammar Value)}
variable {sizes : Names declared (Option Nat)}

/-- leastSize is the size of the smallest word of a type, if it is so for the named types. -/
theorem least_varType
    (hnames : ∀ name known, Least (grammars name known) (sizes name known))
    (type : VarType declared) :
    Least (type.grammar order grammars) (type.leastSize sizes) := by
  cases type with
  | primitive type => exact (Least.checked type.size).map _
  | string => exact least_text
  | userDefine name known => exact hnames name known
  | list elmtType => exact least_prefixed _ _
  | array elmtType => exact least_prefixed _ _
  | map keyType elmtType => exact least_prefixed _ _

theorem least_field
    (hnames : ∀ name known, Least (grammars name known) (sizes name known))
    (field : FieldType declared) :
    Least (field.grammar order grammars) (field.leastSize sizes) := by
  cases field with
  | plain type => exact least_varType order hnames type
  | staticArray elmtType elmtCount =>
      simp only [FieldType.grammar, FieldType.leastSize]
      cases elmtType.primitive? with
      | some type => exact (Least.copy (type.size * elmtCount)).map _
      | none =>
          exact ((least_varType order hnames elmtType).counted counterLimit elmtCount).map _

theorem least_fields
    (hnames : ∀ name known, Least (grammars name known) (sizes name known))
    (fields : List (FieldType declared)) :
    Least (fieldsGrammar order grammars fields) (leastFields sizes fields) := by
  induction fields with
  | nil => exact Least.pure []
  | cons field fields ih =>
      exact (least_field order hnames field).bind fun v => ih.map fun values => v :: values

/-- The smallest word of a declaration. -/
theorem least_decl
    (hnames : ∀ name known, Least (grammars name known) (sizes name known))
    (decl : Decl declared) :
    Least (decl.grammar order grammars) (decl.leastSize sizes) := by
  cases decl with
  | enum numbers => exact (Least.checked (enumSize numbers)).map _
  | typedef type => exact least_varType order hnames type
  | message parent fields =>
      have hfields := least_fields order hnames fields
      cases parent with
      | none => exact hfields.map (Value.record none)
      | some base =>
          exact (hnames base.1 (mem_declared base)).bind fun v =>
            hfields.map (Value.record (some v))

/-- The shortest encodings of a file have the computed sizes. -/
theorem least_environment
    (env : Environment declared)
    (name : String)
    (known : name ∈ declared) :
    Least (env.grammar order name known) (env.leastSize name known) :=
  env.compile_related (fun (g : Grammar Value) m => Least g m)
    (fun _ _ hnames decl => least_decl order hnames decl) name known

end Least

end Idlc
end Gamnet
