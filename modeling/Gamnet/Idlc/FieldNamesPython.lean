import Gamnet.Idlc.GenerateRulePython

/-!
# The names of fields in Python

Most statements reach a field through self. But Load of a list or an array x begins with a
bare x = [], which makes x a local variable of the whole Load: where the function has a
variable or a parameter of this name it loses its value, and a function or a module of this
name is not found any more. A field of any type that is called like a method hides that
method, and an attribute that an inherited field has already is shared with it.

The functions below follow the names as long as the attributes of an object are different and
none is called like a temporary variable; otherwise they have no result. They are those of
the declarations without names if no name is in the way (`codec_layout`).
-/

namespace Gamnet
namespace Idlc
namespace Python

open Lib

/-- A field of a message. -/
structure NamedField (declared : List String) where
  name : String
  type : VarType declared

/-- A declaration with the names of its fields. -/
inductive NamedDecl (declared : List String) where
  | enum
  | typedef (varType : VarType declared)
  | message
      (parent : Option {name : String // name ∈ declared})
      (fields : List (NamedField declared))

/-- The declarations of a file with the names of their fields. -/
abbrev IdlFile : List String → Type :=
  Declarations NamedDecl

def NamedDecl.layout
    {declared : List String} : NamedDecl declared → Decl declared
  | .enum => .enum
  | .typedef type => .typedef type
  | .message parent fields => .message parent (fields.map NamedField.type)

/-- The declarations of a file without the names of their fields. -/
def IdlFile.layout : {declared : List String} → IdlFile declared → Environment declared
  | _, .empty => .empty
  | _, .declare before name decl => .declare (IdlFile.layout before) name decl.layout

/-- The functions of a declared name and the attributes that its class sets. -/
structure NamedCodec extends Codec where
  attributes : List String

/-- The words of Python 2, the attributes that no field can be, and the methods that the
functions of a message look up on the object. -/
def reserved : List String :=
  ["and", "as", "assert", "break", "class", "continue", "def", "del", "elif", "else", "except",
    "exec", "finally", "for", "from", "global", "if", "import", "in", "is", "lambda", "not",
    "or", "pass", "print", "raise", "return", "try", "while", "with", "yield", "None",
    "__class__", "__dict__", "Store", "Load"]

/-- k or v, and a number. -/
def isTemporary (name : String) : Bool :=
  match name.toList with
  | c :: d :: ds => (c == 'k' || c == 'v') && (d :: ds).all Char.isDigit
  | _ => false

/-- What Load uses itself, and a bare assignment takes away: the buffer, the number of
elements, the functions of the loop and the module struct. -/
def taken : List String :=
  ["buf", "elmt_count", "range", "struct"]

/-- Load begins with a bare assignment. -/
def VarType.isAssigned {declared : List String} : VarType declared → Bool
  | .list _ => true
  | .array _ => true
  | _ => false

namespace Named

section Message

variable {declared : List String}

/-- The attributes that the constructor of the parent sets. -/
def parentAttributes
    (inherited : Known declared (List String)) :
    Option {name : String // name ∈ declared} → List String
  | none => []
  | some base => inherited base.1 (mem_declared base)

/-- The attributes that the constructor of a class sets. -/
def attributes (inherited : Known declared (List String)) : NamedDecl declared → List String
  | .message parent fields =>
      parentAttributes inherited parent ++ fields.map NamedField.name
  | _ => []

/-- Each field has an attribute of its own. -/
def Distinct
    (inherited : Known declared (List String))
    (parent : Option {name : String // name ∈ declared})
    (fields : List (NamedField declared)) : Prop :=
  (attributes inherited (.message parent fields)).Nodup ∧
    ∀ field ∈ fields, field.name ∉ reserved ∧ isTemporary field.name = false

instance
    (inherited : Known declared (List String))
    (parent : Option {name : String // name ∈ declared})
    (fields : List (NamedField declared)) :
    Decidable (Distinct inherited parent fields) := by
  unfold Distinct
  infer_instance

/-- The names that Load assigns without self. -/
def assigned (fields : List (NamedField declared)) : List String :=
  (fields.filter fun field => field.type.isAssigned).map NamedField.name

/-- The functions that Load finds where some names are local variables. -/
def found (locals : List String) (codec : Known declared NamedCodec) : Known declared Codec :=
  fun name known =>
    { (codec name known).toCodec with
      load := fun buf =>
        if name ++ "Load" ∈ locals then none else (codec name known).load buf }

end Message

section Load

variable (equal : Value → Value → Bool)
variable {declared : List String}

/-- The Load statements of the fields where self is a list: no attribute of it can be set, and
only what is read from it in a loop without turns is not missed. -/
def loadFieldsLost : List (NamedField declared) → Frame → Option Frame
  | [], f => some f
  | field :: fields, f =>
      match field.type with
      | .list _ | .array _ | .map _ _ => do
          let (elmt_count, buf) ← unpackInt f.buf
          if elmt_count ≤ 0 then loadFieldsLost fields { f with buf := buf } else none
      | _ => none

/-- The Load statements of the fields of a message, from a field on. -/
def loadFields (codec : Known declared Codec) :
    List (NamedField declared) → Nat → Frame → Option Frame
  | [], _, f => some f
  | field :: fields, index, f =>
      if field.type.isAssigned ∧ field.name = "self" then
        loadFieldsLost (field :: fields) f
      else do
        let f ← generateVariableLoad equal codec field.type 2 (.field index) f
        loadFields codec fields (index + 1) f

/-- The functions of a message. A parent that is a local variable of Load has no methods, and
without a buffer, a number of elements or the functions to read them Load has no result. -/
def compileMessage
    (codec : Known declared NamedCodec)
    (parent : Option {name : String // name ∈ declared})
    (fields : List (NamedField declared)) : Codec where
  init := .object (parent.map fun base => (codec base.1 (mem_declared base)).init)
    ((fields.map NamedField.type).map
      (generateInitCode fun name known => (codec name known).toCodec))
  store v :=
    if Distinct (fun name known => (codec name known).attributes) parent fields then
      (Python.compileMessage equal (fun name known => (codec name known).toCodec) parent
        (fields.map NamedField.type)).store v
    else none
  load buf :=
    if Distinct (fun name known => (codec name known).attributes) parent fields ∧
        (∀ name ∈ assigned fields, name ∉ taken) ∧
        (∀ base ∈ (parent.map Subtype.val).toList, base ∉ assigned fields) then do
      let (parentValue, buf) ←
        loadParent (fun name known => (codec name known).toCodec) parent buf
      let f ← loadFields equal (found (assigned fields) codec) fields 0
        (callingOn ((fields.map NamedField.type).map
          (generateInitCode fun name known => (codec name known).toCodec)) buf)
      let values ← f.attributes 0 fields.length
      some (.object parentValue values, f.buf)
    else none
  isClass := true

def compileDecl (codec : Known declared NamedCodec) (decl : NamedDecl declared) : NamedCodec where
  toCodec :=
    match decl with
    | .enum => compileEnum
    | .typedef type =>
        compileTypedef equal (fun name known => (codec name known).toCodec) type
    | .message parent fields => compileMessage equal codec parent fields
  attributes := attributes (fun name known => (codec name known).attributes) decl

end Load

end Named

/-- The functions of the names that a file declares. -/
def IdlFile.codec
    (equal : Value → Value → Bool)
    {declared : List String}
    (file : IdlFile declared) : Known declared NamedCodec :=
  file.compile (Named.compileDecl equal)

/-- The attributes of the classes of a file. -/
def IdlFile.attributes
    {declared : List String}
    (file : IdlFile declared) : Known declared (List String) :=
  file.compile Named.attributes

/-- No name of a field is in the way of the functions that are emitted. -/
def NamedDecl.Clear
    {declared : List String}
    (inherited : Known declared (List String)) : NamedDecl declared → Prop
  | .message parent fields =>
      Named.Distinct inherited parent fields ∧
        ∀ name ∈ Named.assigned fields, name ∉ "self" :: taken ∧
          (∀ other ∈ declared, name ≠ other ++ "Load") ∧ ∀ base ∈ parent, name ≠ base.1
  | _ => True

/-- A declared name is no word of Python and no function that is called, and its functions and
those of the names before it are different ones. -/
def NameClear (declared : List String) (name : String) : Prop :=
  name ∉ declared ∧ name ∉ ["len", "list", "range", "str", "struct"] ++ reserved ∧
    ∀ other ∈ declared, ∀ suffix ∈ ["Init", "Store", "Load"],
      name ≠ other ++ suffix ∧ other ≠ name ++ suffix

def IdlFile.Clear : {declared : List String} → IdlFile declared → Prop
  | _, .empty => True
  | _, @Declarations.declare _ _ declared before name decl =>
      IdlFile.Clear before ∧ decl.Clear (IdlFile.attributes before) ∧ NameClear declared name

section Layout

variable (equal : Value → Value → Bool)
variable {declared : List String}

/-- If no local hides a load function, each call finds its own. -/
theorem found_of_clear
    {locals : List String}
    (codec : Known declared NamedCodec)
    (hlocals : ∀ name ∈ locals, ∀ other ∈ declared, name ≠ other ++ "Load") :
    Named.found locals codec = fun name known => (codec name known).toCodec := by
  funext name known
  have hname : name ++ "Load" ∉ locals := fun hmem => hlocals _ hmem name known rfl
  simp only [Named.found, if_neg hname]

theorem loadFields_layout
    (codec : Known declared Codec)
    {fields : List (NamedField declared)}
    (hself : "self" ∉ Named.assigned fields)
    (index : Nat) (f : Frame) :
    Named.loadFields equal codec fields index f =
      loadFields equal codec (fields.map NamedField.type) index f := by
  induction fields generalizing index f with
  | nil => rfl
  | cons field fields ih =>
      have hfield : ¬ (field.type.isAssigned ∧ field.name = "self") := by
        rintro ⟨hassigned, hname⟩
        refine hself (List.mem_map.mpr ⟨field, ?_, hname⟩)
        exact List.mem_filter.mpr ⟨List.mem_cons_self, hassigned⟩
      have hrest : "self" ∉ Named.assigned fields := by
        intro hmem
        refine hself ?_
        rw [Named.assigned, List.filter_cons]
        split_ifs
        · exact List.mem_cons_of_mem _ hmem
        · exact hmem
      rw [Named.loadFields, if_neg hfield, List.map_cons, loadFields]
      exact congrArg _ (funext fun f => ih hrest (index + 1) f)

/-- A message with clear names has the Python code of its layout. -/
theorem compileMessage_layout
    (codec : Known declared NamedCodec)
    (parent : Option {name : String // name ∈ declared})
    (fields : List (NamedField declared))
    (hclear :
      NamedDecl.Clear (fun name known => (codec name known).attributes) (.message parent fields)) :
    Named.compileMessage equal codec parent fields =
      compileMessage equal (fun name known => (codec name known).toCodec) parent
        (fields.map NamedField.type) := by
  obtain ⟨hdistinct, hassigned⟩ := hclear
  have htaken : ∀ name ∈ Named.assigned fields, name ∉ taken :=
    fun name hname => fun hmem => (hassigned name hname).1 (List.mem_cons_of_mem _ hmem)
  have hself : "self" ∉ Named.assigned fields :=
    fun hmem => (hassigned _ hmem).1 List.mem_cons_self
  have hparent : ∀ base ∈ (parent.map Subtype.val).toList, base ∉ Named.assigned fields := by
    intro base hbase hmem
    obtain ⟨known, hknown, rfl⟩ := Option.map_eq_some_iff.mp (Option.mem_toList.mp hbase)
    exact (hassigned _ hmem).2.2 known hknown rfl
  have hfound := found_of_clear codec fun name hname => (hassigned name hname).2.1
  rw [Named.compileMessage]
  simp only [if_pos hdistinct, if_pos (And.intro hdistinct (And.intro htaken hparent)), hfound,
    loadFields_layout equal _ hself, compileMessage, List.length_map]

/-- Where no name is in the way, the names do not matter. -/
theorem codec_layout
    {file : IdlFile declared}
    (hclear : file.Clear)
    (name : String) (known : name ∈ declared) :
    (file.codec equal name known).toCodec = file.layout.codec equal name known ∧
      (file.codec equal name known).attributes = file.attributes name known := by
  induction file generalizing name with
  | empty => exact absurd known List.not_mem_nil
  | declare before last decl ih =>
      have ih := fun name known => ih hclear.1 name known
      by_cases same : name = last
      · have hcodec : (fun name known => (IdlFile.codec equal before name known).toCodec) =
            (IdlFile.layout before).codec equal :=
          funext fun name => funext fun known => (ih name known).1
        have hattributes : (fun name known => (IdlFile.codec equal before name known).attributes) =
            IdlFile.attributes before :=
          funext fun name => funext fun known => (ih name known).2
        simp only [IdlFile.codec, IdlFile.layout, IdlFile.attributes, Environment.codec,
          Declarations.compile, dif_pos same]
        refine ⟨?_, congrArg (Named.attributes · decl) hattributes⟩
        change _ = compileDecl equal ((IdlFile.layout before).codec equal) decl.layout
        rw [← hcodec]
        cases decl with
        | enum => rfl
        | typedef type => rfl
        | message parent fields =>
            have hdecl := hclear.2.1
            rw [← hattributes] at hdecl
            exact compileMessage_layout equal (IdlFile.codec equal before) parent fields hdecl
      · simp only [IdlFile.codec, IdlFile.layout, IdlFile.attributes, Environment.codec,
          Declarations.compile, dif_neg same]
        exact ih name ((List.mem_cons.mp known).resolve_left same)

end Layout

end Python
end Idlc
end Gamnet
