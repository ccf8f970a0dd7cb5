import Gamnet.Idlc.GenerateRuleCpp
import Gamnet.Lib.Declarations

/-!
# The names of fields

The generators splice the name of a field into the functions that they emit. There the
parameters _buf_ and nSize are known as well, and the local variables x_size and x_length
that the code of a string or a container x declares for the rest of the function. A field of
such a name is hidden: Store copies the variable in its place, and Load the input into the
variable.

The serializers below look up the name of each field where its code stands. Those of
`Environment` are the ones of a file in which no field is hidden (`store_layout`,
`load_layout`): they depend on the layout of the declarations only. The C++ code of a name
that cannot be followed, or that no compiler accepts, has no result.
-/

namespace Gamnet
namespace Idlc

open LittleEndian Reader Lib

/-- A field of a message. -/
structure NamedField (declared : List String) where
  name : String
  type : FieldType declared

/-- A declaration with the names of its fields. -/
inductive NamedDecl (declared : List String) where
  | enum (numbers : List (Option Nat))
  | typedef (varType : VarType declared)
  | message
      (parent : Option {name : String // name ∈ declared})
      (fields : List (NamedField declared))

/-- The declarations of a file with the names of their fields. -/
abbrev IdlFile : List String → Type :=
  Declarations NamedDecl

def NamedDecl.layout
    {declared : List String} : NamedDecl declared → Decl declared
  | .enum numbers => .enum numbers
  | .typedef type => .typedef type
  | .message parent fields => .message parent (fields.map NamedField.type)

/-- The declarations of a file without the names of their fields. -/
def IdlFile.layout : {declared : List String} → IdlFile declared → Environment declared
  | _, .empty => .empty
  | _, .declare before name decl => .declare (IdlFile.layout before) name decl.layout

/-- What is compiled with the names is related to what is compiled without them, if it is so
on each declaration of the file. -/
theorem IdlFile.compile_related_layout
    {X Y : Type}
    {compileX : {declared : List String} → Known declared X → NamedDecl declared → X}
    {compileY : {declared : List String} → Names declared Y → Decl declared → Y}
    {P : {declared : List String} → NamedDecl declared → Prop}
    (R : X → Y → Prop)
    (hstep : ∀ {declared : List String} (x : Known declared X) (y : Names declared Y),
      (∀ name known, R (x name known) (y name known)) →
        ∀ decl, P decl → R (compileX x decl) (compileY y decl.layout))
    {declared : List String}
    {file : IdlFile declared}
    (hfile : file.Forall P)
    (name : String)
    (known : name ∈ declared) :
    R (file.compile compileX name known) (file.layout.compile compileY name known) := by
  induction file generalizing name with
  | empty => exact absurd known List.not_mem_nil
  | declare before last decl ih =>
      by_cases same : name = last
      · simp only [Declarations.compile, IdlFile.layout, Environment.compile, dif_pos same]
        exact hstep _ _ (fun name known => ih hfile.1 name known) decl hfile.2
      · simp only [Declarations.compile, IdlFile.layout, Environment.compile, dif_neg same]
        exact ih hfile.1 name ((List.mem_cons.mp known).resolve_left same)

section Types

variable {declared : List String}

/-- Store and Load declare a variable for the length. -/
def FieldType.isMeasured : FieldType declared → Bool
  | .plain .string => true
  | .plain (.list _) => true
  | .plain (.array _) => true
  | .plain (.map _ _) => true
  | _ => false

def FieldType.primitive? : FieldType declared → Option PrimitiveType
  | .plain type => type.primitive?
  | .staticArray _ _ => none

/-- Store accesses the field in a loop with the counter i. -/
def FieldType.storeLoops : FieldType declared → Bool
  | .staticArray elmtType _ => elmtType.primitive?.isNone
  | .plain _ => false

/-- Load does. -/
def FieldType.loadLoops : FieldType declared → Bool
  | .staticArray elmtType _ => elmtType.primitive?.isNone
  | .plain .string => false
  | .plain type => (FieldType.plain type).isMeasured

/-- length() and size(). -/
def Value.length : Value → Nat
  | .text bytes => bytes.length
  | .seq elmts => elmts.length
  | .map entries => entries.length
  | _ => 0

end Types

/-- Copy n bytes over the low bytes of the count, if it covers them, and take n from what it
then is. -/
def copyToCount (n : Nat) : Load Unit :=
  fun c =>
    if c.size.toNat < n then .fails c
    else
      let count := decode (bytesAt c.memory c.pos n) + c.size.toNat / 256 ^ n * 256 ^ n
      .returns () (skip n { c with size := UInt64.ofNat count })

namespace Named

section Store

variable {declared : List String}
variable (serializer : Names declared Serializer)

/-- The variable x_size of a field x. -/
def sizeLocals (field : NamedField declared) (v : Value) : List (String × Nat) :=
  if field.type.isMeasured then [(field.name ++ "_size", v.length)] else []

/-- The Store statements of a field, where local variables are known with their values. Of a
size_t a number of bytes is copied, and no other type can be stored from it. A field
_buf_ would store a pointer, and behind a field int32_t the sizeof of a length is that of
the field. -/
def storeField
    (locals : List (String × Nat))
    (field : NamedField declared)
    (v : Value) : Option (List UInt8) :=
  match locals.lookup field.name with
  | some n => field.type.primitive?.map fun type => encode type.size n
  | none =>
      if field.name ∈ ["_buf_", "int32_t"] ∨ (field.type.storeLoops ∧ field.name = "i") then
        none
      else
        generateFieldStore serializer field.type v

/-- The Store statements of the fields of a message, in their order. -/
def storeFields :
    List (String × Nat) → List (NamedField declared) → List Value → Option (List UInt8)
  | _, [], [] => some []
  | locals, field :: fields, v :: values => do
      let front ← storeField serializer locals field v
      let back ← storeFields (sizeLocals field v ++ locals) fields values
      some (front ++ back)
  | _, _, _ => none

end Store

section Load

variable (order : {declared : List String} → VarType declared → Compare)
variable {declared : List String}
variable (serializer : Names declared Serializer)

/-- The variable x_length of a field x. -/
def lengthLocals (field : NamedField declared) : List String :=
  if field.type.isMeasured then [field.name ++ "_length"] else []

/-- The Load statements of a field. Where its name is that of a local variable, an uint32_t,
or of the parameter nSize, the input is copied there, and the field keeps the zero that the
constructor has given it. -/
def loadField
    (locals : List String)
    (field : NamedField declared) : Load Value :=
  if field.name ∈ locals then
    match field.type.primitive? with
    | some type => do
        let _ ← checked type.size
        if type.size ≤ 4 then pure (.word 0) else overflow
    | none => overflow
  else if field.name = "nSize" then
    match field.type.primitive? with
    | some type => do
        copyToCount type.size
        pure (.word 0)
    | none => overflow
  else if field.name ∈ ["_buf_", "int32_t"] ∨ (field.type.loadLoops ∧ field.name = "i") then
    overflow
  else
    generateFieldLoad order serializer field.type

/-- The Load statements of the fields of a message, in their order. -/
def loadFields :
    List String → List (NamedField declared) → Load (List Value)
  | _, [] => pure []
  | locals, field :: fields => do
      let v ← loadField order serializer locals field
      let values ← loadFields (lengthLocals field ++ locals) fields
      pure (v :: values)

/-- The serializer of a message. The parent is stored and loaded first. -/
def compileMessage
    (parent : Option {name : String // name ∈ declared})
    (fields : List (NamedField declared)) : Serializer where
  store
    | .record parentValue values =>
        match parent, parentValue with
        | none, none => storeFields serializer [] fields values
        | some base, some v => do
            let front ← (serializer base.1 (mem_declared base)).store v
            let back ← storeFields serializer [] fields values
            some (front ++ back)
        | _, _ => none
    | _ => none
  load :=
    match parent with
    | none => do
        let values ← loadFields order serializer [] fields
        pure (.record none values)
    | some base => do
        let v ← (serializer base.1 (mem_declared base)).load
        let values ← loadFields order serializer [] fields
        pure (.record (some v) values)

/-- The serializer of a declaration. -/
def compileDecl : NamedDecl declared → Serializer
  | .enum numbers => compileEnum numbers
  | .typedef type => compileTypedef order serializer type
  | .message parent fields => compileMessage order serializer parent fields

end Load

end Named

/-- The C++ serializers of the names that a file declares. -/
def IdlFile.serializer
    (order : {declared : List String} → VarType declared → Compare)
    {declared : List String}
    (file : IdlFile declared) : Names declared Serializer :=
  file.compile (Named.compileDecl order)

section Clear

variable {declared : List String}

/-- In Store no field is hidden. -/
def StoreClear (fields : List (NamedField declared)) : Prop :=
  (∀ field ∈ fields, field.name ∉ ["_buf_", "int32_t"] ∧
    (field.type.storeLoops → field.name ≠ "i")) ∧
  fields.Pairwise fun earlier later =>
    earlier.type.isMeasured → later.name ≠ earlier.name ++ "_size"

/-- In Load no field is hidden. -/
def LoadClear (fields : List (NamedField declared)) : Prop :=
  (∀ field ∈ fields, field.name ∉ ["nSize", "_buf_", "int32_t"] ∧
    (field.type.loadLoops → field.name ≠ "i")) ∧
  fields.Pairwise fun earlier later =>
    earlier.type.isMeasured → later.name ≠ earlier.name ++ "_length"

/-- In Load no field is hidden but by the length of an earlier one that has room for it. -/
def LoadHarmless (fields : List (NamedField declared)) : Prop :=
  (∀ field ∈ fields, field.name ∉ ["nSize", "_buf_", "int32_t"] ∧
    (field.type.loadLoops → field.name ≠ "i")) ∧
  fields.Pairwise fun earlier later =>
    earlier.type.isMeasured → later.name = earlier.name ++ "_length" →
      ∃ type, later.type.primitive? = some type ∧ type.size ≤ 4

/-- The fields of a message have a property. -/
def NamedDecl.HasFields
    (P : {declared : List String} → List (NamedField declared) → Prop) :
    {declared : List String} → NamedDecl declared → Prop
  | _, .message _ fields => P fields
  | _, _ => True

theorem LoadClear.harmless
    {fields : List (NamedField declared)}
    (h : LoadClear fields) :
    LoadHarmless fields :=
  ⟨h.1, h.2.imp fun hne hmeasured heq => absurd heq (hne hmeasured)⟩

theorem storeClear_cons
    {field : NamedField declared} {fields : List (NamedField declared)} :
    StoreClear (field :: fields) ↔
      (field.name ∉ ["_buf_", "int32_t"] ∧ (field.type.storeLoops → field.name ≠ "i")) ∧
        (∀ later ∈ fields, field.type.isMeasured → later.name ≠ field.name ++ "_size") ∧
          StoreClear fields := by
  simp only [StoreClear, List.forall_mem_cons, List.pairwise_cons]
  tauto

theorem loadClear_cons
    {field : NamedField declared} {fields : List (NamedField declared)} :
    LoadClear (field :: fields) ↔
      (field.name ∉ ["nSize", "_buf_", "int32_t"] ∧
        (field.type.loadLoops → field.name ≠ "i")) ∧
        (∀ later ∈ fields, field.type.isMeasured → later.name ≠ field.name ++ "_length") ∧
          LoadClear fields := by
  simp only [LoadClear, List.forall_mem_cons, List.pairwise_cons]
  tauto

theorem lookup_sizeLocals
    {field : NamedField declared} {v : Value} {locals : List (String × Nat)} {name : String}
    (hfield : field.type.isMeasured → name ≠ field.name ++ "_size")
    (hlocals : locals.lookup name = none) :
    (Named.sizeLocals field v ++ locals).lookup name = none := by
  unfold Named.sizeLocals
  split_ifs with hmeasured
  · have hne := beq_eq_false_iff_ne.mpr (hfield hmeasured)
    rw [List.singleton_append, List.lookup_cons, hne]
    simpa using hlocals
  · simpa using hlocals

theorem notMem_lengthLocals
    {field : NamedField declared} {locals : List String} {name : String}
    (hfield : field.type.isMeasured → name ≠ field.name ++ "_length")
    (hlocals : name ∉ locals) :
    name ∉ Named.lengthLocals field ++ locals := by
  unfold Named.lengthLocals
  split_ifs with hmeasured
  · simpa using ⟨hfield hmeasured, hlocals⟩
  · simpa using hlocals

end Clear

section Layout

variable (order : {declared : List String} → VarType declared → Compare)
variable {declared : List String}
variable {named plain : Names declared Serializer}

/-- Only the Store functions of the declared names matter to Store. -/
theorem generateVariableStore_congr
    (hnames : ∀ name known, (named name known).store = (plain name known).store)
    (type : VarType declared) :
    generateVariableStore named type = generateVariableStore plain type := by
  funext v
  induction type generalizing v with
  | userDefine name known => exact congrFun (hnames name known) v
  | primitive type => cases v <;> rfl
  | string => cases v <;> rfl
  | list elmtType ih => cases v <;> simp only [generateVariableStore, funext ih]
  | array elmtType ih => cases v <;> simp only [generateVariableStore, funext ih]
  | map keyType elmtType ihkey ihelmt =>
      cases v <;> simp only [generateVariableStore, funext ihkey, funext ihelmt]

theorem generateFieldStore_congr
    (hnames : ∀ name known, (named name known).store = (plain name known).store)
    (field : FieldType declared) :
    generateFieldStore named field = generateFieldStore plain field := by
  funext v
  cases field with
  | plain type => exact congrFun (generateVariableStore_congr hnames type) v
  | staticArray elmtType elmtCount =>
      cases v <;> simp only [generateFieldStore, generateVariableStore_congr hnames]

/-- Fields with clear names are stored as the layout stores them, whatever the locals in front are
called. -/
theorem storeFields_layout
    (hnames : ∀ name known, (named name known).store = (plain name known).store)
    {fields : List (NamedField declared)}
    (hclear : StoreClear fields)
    (locals : List (String × Nat))
    (hlocals : ∀ field ∈ fields, locals.lookup field.name = none)
    (values : List Value) :
    Named.storeFields named locals fields values =
      storeFields plain (fields.map NamedField.type) values := by
  induction fields generalizing locals values with
  | nil => cases values <;> rfl
  | cons field fields ih =>
      cases values with
      | nil => rfl
      | cons v values =>
          obtain ⟨hfield, hlater, hrest⟩ := storeClear_cons.mp hclear
          obtain ⟨hfirst, hothers⟩ := List.forall_mem_cons.mp hlocals
          have hname : ¬ (field.name ∈ ["_buf_", "int32_t"] ∨
              (field.type.storeLoops ∧ field.name = "i")) := by
            rintro (hmem | ⟨hloops, hi⟩)
            · exact hfield.1 hmem
            · exact hfield.2 hloops hi
          have hstore : Named.storeField named locals field v =
              generateFieldStore plain field.type v := by
            rw [Named.storeField, hfirst, ← generateFieldStore_congr hnames]
            exact if_neg hname
          have htail := ih hrest (Named.sizeLocals field v ++ locals)
            (fun later hmem => lookup_sizeLocals (hlater later hmem) (hothers later hmem)) values
          simp only [Named.storeFields, List.map_cons, storeFields, hstore, htail]

/-- Only the Load functions of the declared names matter to Load. -/
theorem generateVariableLoad_congr
    (hnames : ∀ name known, (named name known).load = (plain name known).load)
    (type : VarType declared) :
    generateVariableLoad order named type = generateVariableLoad order plain type := by
  induction type with
  | userDefine name known => exact hnames name known
  | primitive type => rfl
  | string => rfl
  | list elmtType ih => simp only [generateVariableLoad, ih]
  | array elmtType ih => simp only [generateVariableLoad, ih]
  | map keyType elmtType ihkey ihelmt => simp only [generateVariableLoad, ihkey, ihelmt]

theorem generateFieldLoad_congr
    (hnames : ∀ name known, (named name known).load = (plain name known).load)
    (field : FieldType declared) :
    generateFieldLoad order named field = generateFieldLoad order plain field := by
  cases field with
  | plain type => exact generateVariableLoad_congr order hnames type
  | staticArray elmtType elmtCount =>
      simp only [generateFieldLoad, generateVariableLoad_congr order hnames]

/-- A field whose name is clear is loaded as the layout loads it. -/
theorem loadField_of_clear
    {field : NamedField declared} {locals : List String}
    (hname : field.name ∉ ["nSize", "_buf_", "int32_t"] ∧
      (field.type.loadLoops → field.name ≠ "i"))
    (hlocals : field.name ∉ locals) :
    Named.loadField order named locals field = generateFieldLoad order named field.type := by
  have hsize : field.name ≠ "nSize" := fun h => hname.1 (by rw [h]; exact List.mem_cons_self)
  have hother : ¬ (field.name ∈ ["_buf_", "int32_t"] ∨
      (field.type.loadLoops ∧ field.name = "i")) := by
    rintro (hmem | ⟨hloops, hi⟩)
    · exact hname.1 (List.mem_cons_of_mem _ hmem)
    · exact hname.2 hloops hi
  rw [Named.loadField, if_neg hlocals, if_neg hsize, if_neg hother]

theorem loadFields_layout
    (hnames : ∀ name known, (named name known).load = (plain name known).load)
    {fields : List (NamedField declared)}
    (hclear : LoadClear fields)
    (locals : List String)
    (hlocals : ∀ field ∈ fields, field.name ∉ locals) :
    Named.loadFields order named locals fields =
      loadFields order plain (fields.map NamedField.type) := by
  induction fields generalizing locals with
  | nil => rfl
  | cons field fields ih =>
      obtain ⟨hfield, hlater, hrest⟩ := loadClear_cons.mp hclear
      obtain ⟨hfirst, hothers⟩ := List.forall_mem_cons.mp hlocals
      have htail := ih hrest (Named.lengthLocals field ++ locals)
        (fun later hmem => notMem_lengthLocals (hlater later hmem) (hothers later hmem))
      simp only [Named.loadFields, List.map_cons, loadFields, htail,
        loadField_of_clear order hfield hfirst, generateFieldLoad_congr order hnames]

/-- The values of the declared names do not matter to where Load goes. -/
theorem generateVariableLoad_walks
    (hnames : ∀ name known, SameWalk (named name known).load (plain name known).load)
    (type : VarType declared) :
    SameWalk (generateVariableLoad order named type) (generateVariableLoad order plain type) := by
  induction type with
  | userDefine name known => exact hnames name known
  | primitive type => exact SameWalk.refl _
  | string => exact SameWalk.refl _
  | list elmtType ih => exact SameWalk.bind_left _ fun n => (ih.many n).map _ _
  | array elmtType ih => exact SameWalk.bind_left _ fun n => (ih.many n).map _ _
  | map keyType elmtType ihkey ihelmt =>
      exact SameWalk.bind_left _ fun n =>
        ((ihkey.bind fun _ _ => ihelmt.map _ _).many n).map _ _

theorem generateFieldLoad_walks
    (hnames : ∀ name known, SameWalk (named name known).load (plain name known).load)
    (field : FieldType declared) :
    SameWalk (generateFieldLoad order named field) (generateFieldLoad order plain field) := by
  cases field with
  | plain type => exact generateVariableLoad_walks order hnames type
  | staticArray elmtType elmtCount =>
      simp only [generateFieldLoad]
      cases elmtType.primitive? with
      | some type => exact SameWalk.refl _
      | none =>
          exact ((generateVariableLoad_walks order hnames elmtType).counted counterLimit
            elmtCount).map _ _

theorem plain_of_primitive?
    {field : FieldType declared} {type : PrimitiveType}
    (h : field.primitive? = some type) :
    field = .plain (.primitive type) := by
  cases field with
  | staticArray elmtType elmtCount => cases h
  | plain varType =>
      cases varType <;> cases h
      rfl

/-- A field that is hidden by a length takes its bytes from the input. -/
theorem loadField_walks
    (hnames : ∀ name known, SameWalk (named name known).load (plain name known).load)
    {field : NamedField declared} {locals : List String}
    (hname : field.name ∉ ["nSize", "_buf_", "int32_t"] ∧
      (field.type.loadLoops → field.name ≠ "i"))
    (hlocals : field.name ∈ locals →
      ∃ type, field.type.primitive? = some type ∧ type.size ≤ 4) :
    SameWalk (Named.loadField order named locals field)
      (generateFieldLoad order plain field.type) := by
  by_cases hmem : field.name ∈ locals
  · obtain ⟨type, htype, hsize⟩ := hlocals hmem
    rw [Named.loadField, if_pos hmem, htype, plain_of_primitive? htype]
    simp only [if_pos hsize]
    exact (SameWalk.refl (checked type.size)).map _ _
  · rw [loadField_of_clear order hname hmem]
    exact generateFieldLoad_walks order hnames field.type

theorem loadHarmless_cons
    {field : NamedField declared} {fields : List (NamedField declared)} :
    LoadHarmless (field :: fields) ↔
      (field.name ∉ ["nSize", "_buf_", "int32_t"] ∧
        (field.type.loadLoops → field.name ≠ "i")) ∧
        (∀ later ∈ fields, field.type.isMeasured → later.name = field.name ++ "_length" →
          ∃ type, later.type.primitive? = some type ∧ type.size ≤ 4) ∧
          LoadHarmless fields := by
  simp only [LoadHarmless, List.forall_mem_cons, List.pairwise_cons]
  tauto

/-- What the locals of a field add to the fields that are hidden behind it. -/
theorem hidden_lengthLocals
    {field : NamedField declared} {fields : List (NamedField declared)} {locals : List String}
    (hlater : ∀ later ∈ fields, field.type.isMeasured → later.name = field.name ++ "_length" →
      ∃ type, later.type.primitive? = some type ∧ type.size ≤ 4)
    (hothers : ∀ later ∈ fields, later.name ∈ locals →
      ∃ type, later.type.primitive? = some type ∧ type.size ≤ 4) :
    ∀ later ∈ fields, later.name ∈ Named.lengthLocals field ++ locals →
      ∃ type, later.type.primitive? = some type ∧ type.size ≤ 4 := by
  intro later hmem hname
  unfold Named.lengthLocals at hname
  split_ifs at hname with hmeasured
  · rcases List.mem_append.mp hname with hlength | hname
    · exact hlater later hmem hmeasured (List.mem_singleton.mp hlength)
    · exact hothers later hmem hname
  · exact hothers later hmem hname

/-- Harmless names change values, and no moves of the cursor. -/
theorem loadFields_walks
    (hnames : ∀ name known, SameWalk (named name known).load (plain name known).load)
    {fields : List (NamedField declared)}
    (hharmless : LoadHarmless fields)
    (locals : List String)
    (hlocals : ∀ field ∈ fields, field.name ∈ locals →
      ∃ type, field.type.primitive? = some type ∧ type.size ≤ 4) :
    SameWalk (Named.loadFields order named locals fields)
      (loadFields order plain (fields.map NamedField.type)) := by
  induction fields generalizing locals with
  | nil => exact SameWalk.refl _
  | cons field fields ih =>
      obtain ⟨hfield, hlater, hrest⟩ := loadHarmless_cons.mp hharmless
      obtain ⟨hfirst, hothers⟩ := List.forall_mem_cons.mp hlocals
      exact (loadField_walks order hnames hfield hfirst).bind fun v w =>
        (ih hrest _ (hidden_lengthLocals hlater hothers)).map _ _

/-- The Load of a declaration with harmless names moves as that of its layout. -/
theorem walks_compileDecl
    (hnames : ∀ name known, SameWalk (named name known).load (plain name known).load)
    (decl : NamedDecl declared)
    (hharmless : decl.HasFields LoadHarmless) :
    SameWalk (Named.compileDecl order named decl).load
      (compileDecl order plain decl.layout).load := by
  cases decl with
  | enum numbers => exact SameWalk.refl _
  | typedef type => exact generateVariableLoad_walks order hnames type
  | message parent fields =>
      have hfields := loadFields_walks order hnames hharmless []
        (fun _ _ hmem => absurd hmem List.not_mem_nil)
      cases parent with
      | none => exact hfields.map _ _
      | some base => exact (hnames base.1 (mem_declared base)).bind fun _ _ => hfields.map _ _

/-- The Store of a declaration with clear names is that of its layout. -/
theorem store_compileDecl
    (hnames : ∀ name known, (named name known).store = (plain name known).store)
    (decl : NamedDecl declared)
    (hclear : decl.HasFields StoreClear) :
    (Named.compileDecl order named decl).store = (compileDecl order plain decl.layout).store := by
  cases decl with
  | enum numbers => rfl
  | typedef type => exact generateVariableStore_congr hnames type
  | message parent fields =>
      have hfields := storeFields_layout hnames hclear [] (fun _ _ => rfl)
      funext v
      cases v with
      | record parentValue values =>
          cases parent <;> cases parentValue <;>
            simp only [Named.compileDecl, Named.compileMessage, NamedDecl.layout, compileDecl,
              compileMessage, hfields, hnames]
      | _ => rfl

/-- The Load of a declaration with clear names is that of its layout. -/
theorem load_compileDecl
    (hnames : ∀ name known, (named name known).load = (plain name known).load)
    (decl : NamedDecl declared)
    (hclear : decl.HasFields LoadClear) :
    (Named.compileDecl order named decl).load = (compileDecl order plain decl.layout).load := by
  cases decl with
  | enum numbers => rfl
  | typedef type => exact generateVariableLoad_congr order hnames type
  | message parent fields =>
      have hfields := loadFields_layout order hnames hclear []
        (fun _ _ => List.not_mem_nil)
      cases parent <;>
        simp only [Named.compileDecl, Named.compileMessage, NamedDecl.layout, compileDecl,
          compileMessage, hfields, hnames]

end Layout

section File

variable (order : {declared : List String} → VarType declared → Compare)
variable {declared : List String} {file : IdlFile declared}

/-- Store of a file in which it hides no field. -/
theorem store_layout
    (hclear : file.Forall (NamedDecl.HasFields StoreClear))
    (name : String) (known : name ∈ declared) :
    (file.serializer order name known).store = (file.layout.serializer order name known).store :=
  IdlFile.compile_related_layout (fun x y : Serializer => x.store = y.store)
    (fun _ _ hnames decl => store_compileDecl order hnames decl) hclear name known

/-- Load of a file in which it hides no field. -/
theorem load_layout
    (hclear : file.Forall (NamedDecl.HasFields LoadClear))
    (name : String) (known : name ∈ declared) :
    (file.serializer order name known).load = (file.layout.serializer order name known).load :=
  IdlFile.compile_related_layout (fun x y : Serializer => x.load = y.load)
    (fun _ _ hnames decl => load_compileDecl order hnames decl) hclear name known

/-- Load of a file in which it hides fields by lengths only. -/
theorem load_walks
    (hharmless : file.Forall (NamedDecl.HasFields LoadHarmless))
    (name : String) (known : name ∈ declared) :
    SameWalk (file.serializer order name known).load
      (file.layout.serializer order name known).load :=
  IdlFile.compile_related_layout (fun x y : Serializer => SameWalk x.load y.load)
    (fun _ _ hnames decl => walks_compileDecl order hnames decl) hharmless name known

end File

end Idlc
end Gamnet
