import Gamnet.Idlc.FieldNames
import Gamnet.Idlc.GenerateRuleCSharp

/-!
# The names of fields in C#

Store of C# declares its variables in blocks of their own, and hides no field but _buf_. In
Load the variables x_length and x_buf of a string or a container x are known in the whole
block, and a field that is accessed before the declaration of a variable of its name does
not compile. Behind it the value goes to the int x_length, if it can be converted to one.
-/

namespace Gamnet
namespace Idlc
namespace CSharp

open LittleEndian Reader Lib

/-- The C# type has an implicit conversion to int, or an explicit one is emitted. -/
def convertsToInt : PrimitiveType → Bool
  | .byte => true
  | .ubyte => true
  | .int16 => true
  | .uint16 => true
  | .int32 => true
  | _ => false

namespace Named

section Generate

variable (runtime : Runtime)
variable {declared : List String}
variable (serializer : Names declared Serializer)

/-- The Store statements of the fields of a message. A stream has no bytes to write. -/
def storeFields :
    List (NamedField declared) → List Object → Written
  | [], [] => write []
  | field :: fields, o :: objects =>
      (if field.name = "_buf_" then giveUp
        else generateFieldStore serializer field.type o).andThen (storeFields fields objects)
  | _, _ => giveUp

/-- The variables that Load declares for a field. -/
def loadLocals (field : NamedField declared) : List String :=
  match field.type with
  | .plain .string => [field.name ++ "_length", field.name ++ "_buf"]
  | type => if type.isMeasured then [field.name ++ "_length"] else []

/-- The Load statements of a field, in front of which some lengths are declared, in a block
that declares all these variables. -/
def loadField
    (lengths locals : List String)
    (field : NamedField declared) : Load Object :=
  if field.name ∈ lengths then
    match field.type.primitive? with
    | some type =>
        if convertsToInt type then do
          let _ ← checked type.size
          pure (.word 0)
        else overflow
    | none => overflow
  else if field.name = "_buf_" ∨ field.name ∈ locals then
    overflow
  else
    generateFieldLoad runtime serializer field.type

/-- The Load statements of the fields of a message, in their order. -/
def loadFields
    (locals : List String) :
    List String → List (NamedField declared) → Load (List Object)
  | _, [] => pure []
  | lengths, field :: fields => do
      let o ← loadField runtime serializer lengths locals field
      let objects ← loadFields locals (Idlc.Named.lengthLocals field ++ lengths) fields
      pure (o :: objects)

/-- The Store of a message. -/
def storeMessage
    (parent : Option {name : String // name ∈ declared})
    (fields : List (NamedField declared)) : Object → Written
  | .record base objects =>
      match parent, base with
      | none, none => storeFields serializer fields objects
      | some parent, some o =>
          (write ((serializer parent.1 (mem_declared parent)).store o).bytes).andThen
            (storeFields serializer fields objects)
      | _, _ => giveUp
  | _ => giveUp

/-- The Load of a message. -/
def loadMessage
    (parent : Option {name : String // name ∈ declared})
    (fields : List (NamedField declared)) : Load Object :=
  match parent with
  | none => do
      let objects ← loadFields runtime serializer (fields.flatMap loadLocals) [] fields
      pure (.record none objects)
  | some parent => do
      let o ← (serializer parent.1 (mem_declared parent)).load
      let objects ← loadFields runtime serializer (fields.flatMap loadLocals) [] fields
      pure (.record (some o) objects)

/-- The serializer of a declaration. Size adds up what it finds in the fields, and declares
nothing but nSize. -/
def compileDecl : NamedDecl declared → Serializer
  | .enum _ => compileEnum
  | .typedef type => compileTypedef runtime serializer type
  | .message parent fields =>
      { store := storeMessage serializer parent fields
        load := loadMessage runtime serializer parent fields
        size := fun o =>
          returnSize (sizeMessage serializer parent (fields.map NamedField.type) o) }

end Generate

end Named

section Clear

variable {declared : List String}

/-- In Store and Load no field is hidden. -/
def FieldsClear (fields : List (NamedField declared)) : Prop :=
  ∀ field ∈ fields, field.name ≠ "_buf_" ∧ field.name ∉ fields.flatMap Named.loadLocals

/-- The locals that hold lengths are among those of the C# Load. -/
theorem lengthLocals_subset
    (field : NamedField declared) :
    Idlc.Named.lengthLocals field ⊆ Named.loadLocals field := by
  obtain ⟨name, type⟩ := field
  cases type with
  | staticArray elmtType elmtCount => exact List.nil_subset _
  | plain type =>
      cases type <;>
        simp [Idlc.Named.lengthLocals, Named.loadLocals, FieldType.isMeasured]

end Clear

section Layout

variable (runtime : Runtime)
variable {declared : List String}
variable {named plain : Names declared Serializer}

theorem generateVariableStore_congr
    (hnames : ∀ name known, (named name known).store = (plain name known).store)
    (type : VarType declared) :
    generateVariableStore named type = generateVariableStore plain type := by
  funext o
  induction type generalizing o with
  | userDefine name known => exact congrFun (hnames name known) o
  | primitive type => cases o <;> rfl
  | string =>
      cases o with
      | text units => cases units <;> rfl
      | _ => rfl
  | list elmtType ih => cases o <;> simp only [generateVariableStore, funext ih]
  | array elmtType ih => cases o <;> simp only [generateVariableStore, funext ih]
  | map keyType elmtType ihkey ihelmt =>
      cases o <;> simp only [generateVariableStore, funext ihkey, funext ihelmt]

theorem generateFieldStore_congr
    (hnames : ∀ name known, (named name known).store = (plain name known).store)
    (field : FieldType declared) :
    generateFieldStore named field = generateFieldStore plain field := by
  funext o
  cases field with
  | plain type => exact congrFun (generateVariableStore_congr hnames type) o
  | staticArray elmtType elmtCount =>
      cases o <;> simp only [generateFieldStore, generateVariableStore_congr hnames]

/-- The C# Store has a single name that captures a field: its parameter. -/
theorem storeFields_layout
    (hnames : ∀ name known, (named name known).store = (plain name known).store)
    {fields : List (NamedField declared)}
    (hclear : ∀ field ∈ fields, field.name ≠ "_buf_")
    (objects : List Object) :
    Named.storeFields named fields objects =
      storeFields plain (fields.map NamedField.type) objects := by
  induction fields generalizing objects with
  | nil => cases objects <;> rfl
  | cons field fields ih =>
      cases objects with
      | nil => rfl
      | cons o objects =>
          obtain ⟨hfirst, hrest⟩ := List.forall_mem_cons.mp hclear
          simp only [Named.storeFields, List.map_cons, storeFields, if_neg hfirst,
            generateFieldStore_congr hnames, ih hrest]

theorem generateVariableLoad_congr
    (hnames : ∀ name known, (named name known).load = (plain name known).load)
    (type : VarType declared) :
    generateVariableLoad runtime named type = generateVariableLoad runtime plain type := by
  induction type with
  | userDefine name known => exact hnames name known
  | primitive type => cases type <;> rfl
  | string => rfl
  | list elmtType ih => simp only [generateVariableLoad, ih]
  | array elmtType ih => simp only [generateVariableLoad, ih]
  | map keyType elmtType ihkey ihelmt => simp only [generateVariableLoad, ihkey, ihelmt]

theorem generateFieldLoad_congr
    (hnames : ∀ name known, (named name known).load = (plain name known).load)
    (field : FieldType declared) :
    generateFieldLoad runtime named field = generateFieldLoad runtime plain field := by
  cases field with
  | plain type => exact generateVariableLoad_congr runtime hnames type
  | staticArray elmtType elmtCount =>
      simp only [generateFieldLoad, generateVariableLoad_congr runtime hnames]

theorem loadFields_layout
    (hnames : ∀ name known, (named name known).load = (plain name known).load)
    {locals : List String} {fields : List (NamedField declared)}
    (hclear : ∀ field ∈ fields, field.name ≠ "_buf_" ∧ field.name ∉ locals)
    (lengths : List String)
    (hlengths : lengths ⊆ locals)
    (hfields : fields.flatMap Named.loadLocals ⊆ locals) :
    Named.loadFields runtime named locals lengths fields =
      loadFields runtime plain (fields.map NamedField.type) := by
  induction fields generalizing lengths with
  | nil => rfl
  | cons field fields ih =>
      obtain ⟨⟨hbuf, hname⟩, hrest⟩ := List.forall_mem_cons.mp hclear
      rw [List.flatMap_cons, List.append_subset] at hfields
      have hload : Named.loadField runtime named lengths locals field =
          generateFieldLoad runtime plain field.type := by
        rw [Named.loadField, if_neg fun h => hname (hlengths h), if_neg (not_or.mpr ⟨hbuf, hname⟩),
          generateFieldLoad_congr runtime hnames]
      have htail := ih hrest (Idlc.Named.lengthLocals field ++ lengths)
        (List.append_subset.mpr
          ⟨fun x hx => hfields.1 (lengthLocals_subset field hx), hlengths⟩) hfields.2
      simp only [Named.loadFields, List.map_cons, loadFields, hload, htail]

/-- A declaration with clear names has the C# code of its layout. -/
theorem compileDecl_layout
    (hnames : ∀ name known, (named name known).store = (plain name known).store ∧
      (named name known).load = (plain name known).load)
    (decl : NamedDecl declared)
    (hclear : decl.HasFields FieldsClear) :
    (Named.compileDecl runtime named decl).store =
        (compileDecl runtime plain decl.layout).store ∧
      (Named.compileDecl runtime named decl).load =
        (compileDecl runtime plain decl.layout).load := by
  have hstores := fun name known => (hnames name known).1
  have hloads := fun name known => (hnames name known).2
  cases decl with
  | enum numbers => exact ⟨rfl, rfl⟩
  | typedef type =>
      exact ⟨generateVariableStore_congr hstores type,
        generateVariableLoad_congr runtime hloads type⟩
  | message parent fields =>
      have hclear : FieldsClear fields := hclear
      have hstore := storeFields_layout hstores fun field hfield => (hclear field hfield).1
      have hload := loadFields_layout runtime hloads hclear [] (List.nil_subset _)
        (List.Subset.refl _)
      constructor
      · funext o
        cases o with
        | record base objects =>
            cases parent <;> cases base <;>
              simp only [Named.compileDecl, Named.storeMessage, NamedDecl.layout, compileDecl,
                storeMessage, hstore, hstores]
        | _ => rfl
      · cases parent <;>
          simp only [Named.compileDecl, Named.loadMessage, NamedDecl.layout, compileDecl,
            loadMessage, hload, hloads]

end Layout

end CSharp

/-- The C# serializers of the names that a file declares. -/
def IdlFile.csharp
    (runtime : CSharp.Runtime)
    {declared : List String}
    (file : IdlFile declared) : Names declared CSharp.Serializer :=
  file.compile (CSharp.Named.compileDecl runtime)

/-- Store and Load of a file in which they hide no field. -/
theorem csharp_layout
    (runtime : CSharp.Runtime)
    {declared : List String}
    {file : IdlFile declared}
    (hclear : file.Forall (NamedDecl.HasFields CSharp.FieldsClear))
    (name : String)
    (known : name ∈ declared) :
    (file.csharp runtime name known).store = (file.layout.csharp runtime name known).store ∧
      (file.csharp runtime name known).load = (file.layout.csharp runtime name known).load :=
  IdlFile.compile_related_layout
    (fun x y : CSharp.Serializer => x.store = y.store ∧ x.load = y.load)
    (fun _ _ hnames decl => CSharp.compileDecl_layout runtime hnames decl) hclear name known

/-- No function that is emitted for a file hides a field. -/
structure IdlFile.Clear
    {declared : List String}
    (file : IdlFile declared) : Prop where
  store : file.Forall (NamedDecl.HasFields StoreClear)
  load : file.Forall (NamedDecl.HasFields LoadClear)
  csharp : file.Forall (NamedDecl.HasFields CSharp.FieldsClear)

end Idlc
end Gamnet
