import Gamnet.Idlc.Emission

/-!
# The downcasts of the generators

The grammar puts comments where statements, declarations of variables and enumerators stand,
as nodes of the class Base. The generators tell the nodes apart by Type(), which differs for
all classes, and cast them down. What a generator does is kept here as the list of its casts,
in their order, each with the class of the node that it is applied to; the text that is
written has no part in them.

The casts are to the class of the node except for three: GenerateVariableSize of C++ casts a
list and an array to a map, GenerateVariableLoad of Python casts a static array to an array,
and a typedef of a comment has no declaration. So they are all right exactly if the file has
none of these (`downcasts_right_iff`).
-/

namespace Gamnet
namespace Idlc
namespace Downcasts

open Emission (TypeExpr VarName VarDecl Text)

/-- The classes of the nodes. -/
inductive NodeClass
  | base
  | literalBlock
  | primitiveType
  | stringType
  | userDefineType
  | listType
  | arrayType
  | staticArrayType
  | mapType
  | varDecl
  | message
  | typedef
  | enum
  | enumElmt
deriving DecidableEq

/-- The class of the node that the rule var_type makes. -/
def nodeClass : TypeExpr → NodeClass
  | .primitive _ => .primitiveType
  | .string => .stringType
  | .userDefine _ => .userDefineType
  | .list _ => .listType
  | .array _ => .arrayType
  | .map _ _ => .mapType
  | .staticArray _ _ => .staticArrayType

/-- The rule var_decl. -/
inductive VarDeclNode
  | varDecl (decl : VarDecl)
  | comment

def VarDeclNode.nodeClass : VarDeclNode → NodeClass
  | .varDecl _ => .varDecl
  | .comment => .base

/-- The rule enum_decl. -/
inductive EnumDeclNode
  | enumElmt (elmt : VarName) (number : Text)
  | comment

def EnumDeclNode.nodeClass : EnumDeclNode → NodeClass
  | .enumElmt _ _ => .enumElmt
  | .comment => .base

/-- The rule stmt. A struct is a message, too. -/
inductive Stmt
  | message (name : VarName) (parentName : Option VarName) (list : List VarDeclNode)
  | typedef (varDecl : VarDeclNode)
  | enum (name : VarName) (list : List EnumDeclNode)
  | literal (language context : Text)
  | comment

def Stmt.nodeClass : Stmt → NodeClass
  | .message _ _ _ => .message
  | .typedef _ => .typedef
  | .enum _ _ => .enum
  | .literal _ _ => .literalBlock
  | .comment => .base

/-- A cast with its target and the class of its node. -/
structure Downcast where
  target : NodeClass
  node : NodeClass
deriving DecidableEq

/-- Casts that are all to the class of their node. -/
def AllRight (casts : List Downcast) : Prop :=
  ∀ c ∈ casts, c.node = c.target

instance (casts : List Downcast) : Decidable (AllRight casts) :=
  inferInstanceAs (Decidable (∀ _ ∈ _, _))

/-- A cast of a type, and the casts of what is called with a member of it. -/
def via (target : NodeClass) (typeInfo : TypeExpr) (rest : List Downcast) : List Downcast :=
  ⟨target, nodeClass typeInfo⟩ :: rest

/-- A loop over the declarations of a message. A node with TYPE_NULL is skipped, every other
one is cast to a declaration. -/
def overVarDecls (list : List VarDeclNode) (body : TypeExpr → List Downcast) : List Downcast :=
  list.flatMap fun node =>
    match node with
    | .comment => []
    | .varDecl decl => ⟨.varDecl, node.nodeClass⟩ :: body decl.varType

/-- The loop over the elements of an enum. -/
def compileEnum (list : List EnumDeclNode) : List Downcast :=
  list.flatMap fun node =>
    match node with
    | .comment => []
    | .enumElmt _ _ => [⟨.enumElmt, node.nodeClass⟩]

/-- The use of m_pVarDecl, for which the parser has cast the node of the declaration. -/
def overTypedef (node : VarDeclNode) (body : TypeExpr → List Downcast) : List Downcast :=
  ⟨.varDecl, node.nodeClass⟩ ::
    match node with
    | .comment => []
    | .varDecl decl => body decl.varType

/-- Parse, with what the compile functions do for a message and a typedef. -/
def parse (compileMessage : Option VarName → List VarDeclNode → List Downcast)
    (compileTypedef : VarDeclNode → List Downcast) (list : List Stmt) : List Downcast :=
  list.flatMap fun stmt =>
    match stmt with
    | .literal _ _ => [⟨.literalBlock, stmt.nodeClass⟩]
    | .typedef varDecl => ⟨.typedef, stmt.nodeClass⟩ :: compileTypedef varDecl
    | .message _ parentName list => ⟨.message, stmt.nodeClass⟩ :: compileMessage parentName list
    | .enum _ list => ⟨.enum, stmt.nodeClass⟩ :: compileEnum list
    | .comment => []

/-- TranslateVariableType, of C++ and of C#. It has no cast for a primitive type. -/
def translateVariableType : TypeExpr → List Downcast
  | typeInfo@(.map keyType elmtType) =>
      via .mapType typeInfo (translateVariableType keyType ++ translateVariableType elmtType)
  | typeInfo@(.staticArray elmtType _) =>
      via .staticArrayType typeInfo (translateVariableType elmtType)
  | typeInfo@(.array elmtType) => via .arrayType typeInfo (translateVariableType elmtType)
  | typeInfo@(.list elmtType) => via .listType typeInfo (translateVariableType elmtType)
  | _ => []

namespace Cpp

/-- GenerateVariableInit has no cast. -/
def generateVariableInit (_typeInfo : TypeExpr) : List Downcast :=
  []

/-- GenerateVariableStore. -/
def generateVariableStore : TypeExpr → List Downcast
  | typeInfo@(.map keyType elmtType) =>
      via .mapType typeInfo (translateVariableType keyType) ++
        via .mapType typeInfo (translateVariableType elmtType) ++
        via .mapType typeInfo (translateVariableType keyType) ++
        via .mapType typeInfo (translateVariableType elmtType) ++
        via .mapType typeInfo (generateVariableStore keyType) ++
        via .mapType typeInfo (generateVariableStore elmtType)
  | typeInfo@(.list elmtType) =>
      via .listType typeInfo (translateVariableType elmtType) ++
        via .listType typeInfo (translateVariableType elmtType) ++
        via .listType typeInfo (generateVariableStore elmtType)
  | typeInfo@(.array elmtType) =>
      via .arrayType typeInfo (translateVariableType elmtType) ++
        via .arrayType typeInfo (translateVariableType elmtType) ++
        via .arrayType typeInfo (generateVariableStore elmtType)
  | typeInfo@(.staticArray elmtType _) =>
      via .staticArrayType typeInfo [] ++
        if elmtType.isPrimitive then
          via .staticArrayType typeInfo
            (translateVariableType elmtType ++ translateVariableType elmtType)
        else
          via .staticArrayType typeInfo [] ++
            via .staticArrayType typeInfo (generateVariableStore elmtType)
  | _ => []

/-- GenerateVariableLoad. -/
def generateVariableLoad : TypeExpr → List Downcast
  | typeInfo@(.map keyType elmtType) =>
      via .mapType typeInfo (translateVariableType keyType) ++
        via .mapType typeInfo (generateVariableLoad keyType) ++
        via .mapType typeInfo (translateVariableType elmtType) ++
        via .mapType typeInfo (generateVariableLoad elmtType)
  | typeInfo@(.list elmtType) =>
      via .listType typeInfo (translateVariableType elmtType) ++
        via .listType typeInfo (generateVariableLoad elmtType)
  | typeInfo@(.array elmtType) =>
      via .arrayType typeInfo (translateVariableType elmtType) ++
        via .arrayType typeInfo (generateVariableLoad elmtType)
  | typeInfo@(.staticArray elmtType _) =>
      via .staticArrayType typeInfo [] ++
        if elmtType.isPrimitive then
          via .staticArrayType typeInfo
            (translateVariableType typeInfo ++ translateVariableType typeInfo ++
              translateVariableType typeInfo)
        else
          via .staticArrayType typeInfo [] ++
            via .staticArrayType typeInfo (translateVariableType elmtType) ++
            via .staticArrayType typeInfo (generateVariableLoad elmtType)
  | _ => []

/-- GenerateVariableSize. For a list and an array the key type of a map is read, which is
where their element type is. -/
def generateVariableSize : TypeExpr → List Downcast
  | typeInfo@(.map keyType elmtType) =>
      via .mapType typeInfo (translateVariableType keyType) ++
        via .mapType typeInfo (translateVariableType elmtType) ++
        via .mapType typeInfo [] ++
        (if keyType.isPrimitive then [] else via .mapType typeInfo (translateVariableType keyType)) ++
        via .mapType typeInfo (translateVariableType elmtType) ++
        via .mapType typeInfo (generateVariableSize keyType) ++
        via .mapType typeInfo (generateVariableSize elmtType)
  | typeInfo@(.list elmtType) =>
      via .listType typeInfo (translateVariableType elmtType) ++
        via .mapType typeInfo [] ++
        (if elmtType.isPrimitive then []
        else via .listType typeInfo (translateVariableType elmtType)) ++
        via .listType typeInfo (generateVariableSize elmtType)
  | typeInfo@(.array elmtType) =>
      via .arrayType typeInfo (translateVariableType elmtType) ++
        via .mapType typeInfo [] ++
        (if elmtType.isPrimitive then []
        else via .arrayType typeInfo (translateVariableType elmtType)) ++
        via .arrayType typeInfo (generateVariableSize elmtType)
  | typeInfo@(.staticArray elmtType _) =>
      via .staticArrayType typeInfo [] ++
        if elmtType.isPrimitive then
          via .staticArrayType typeInfo (translateVariableType elmtType)
        else
          via .staticArrayType typeInfo [] ++
            via .staticArrayType typeInfo (generateVariableSize elmtType)
  | _ => []

/-- The member of a message for a declaration. -/
def member (typeInfo : TypeExpr) : List Downcast :=
  translateVariableType typeInfo ++
    match typeInfo with
    | .staticArray _ _ => via .staticArrayType typeInfo []
    | _ => []

/-- CompileMessage. With a parent there is a second constructor. -/
def compileMessage (parentName : Option VarName) (list : List VarDeclNode) : List Downcast :=
  overVarDecls list member ++
    overVarDecls list generateVariableInit ++
    (if parentName.isSome then overVarDecls list generateVariableInit else []) ++
    overVarDecls list generateVariableSize ++
    overVarDecls list generateVariableStore ++
    overVarDecls list generateVariableLoad

/-- CompileTypedef. -/
def compileTypedef (varDecl : VarDeclNode) : List Downcast :=
  overTypedef varDecl fun typeInfo =>
    translateVariableType typeInfo ++ generateVariableStore typeInfo ++
      generateVariableLoad typeInfo ++ generateVariableSize typeInfo

/-- CompileStmtList. -/
def compileStmtList : List Stmt → List Downcast :=
  parse compileMessage compileTypedef

end Cpp

namespace CSharp

/-- GenerateVariableInit. -/
def generateVariableInit : TypeExpr → List Downcast
  | .primitive _ => []
  | .string => []
  | typeInfo@(.staticArray elmtType _) =>
      via .staticArrayType typeInfo (translateVariableType elmtType)
  | typeInfo => translateVariableType typeInfo

/-- GenerateVariableStore. -/
def generateVariableStore : TypeExpr → List Downcast
  | typeInfo@(.map keyType elmtType) =>
      via .mapType typeInfo (translateVariableType keyType) ++
        via .mapType typeInfo (translateVariableType elmtType) ++
        via .mapType typeInfo (generateVariableStore keyType) ++
        via .mapType typeInfo (generateVariableStore elmtType)
  | typeInfo@(.list elmtType) =>
      via .listType typeInfo (translateVariableType elmtType) ++
        via .listType typeInfo (generateVariableStore elmtType)
  | typeInfo@(.array elmtType) =>
      via .arrayType typeInfo (translateVariableType elmtType) ++
        via .arrayType typeInfo (generateVariableStore elmtType)
  | typeInfo@(.staticArray elmtType _) =>
      via .staticArrayType typeInfo [] ++
        via .staticArrayType typeInfo (generateVariableStore elmtType)
  | _ => []

/-- GenerateVariableLoad. -/
def generateVariableLoad : TypeExpr → List Downcast
  | typeInfo@(.map keyType elmtType) =>
      via .mapType typeInfo (translateVariableType keyType) ++
        via .mapType typeInfo (generateVariableInit keyType) ++
        via .mapType typeInfo (translateVariableType elmtType) ++
        via .mapType typeInfo (generateVariableInit elmtType) ++
        via .mapType typeInfo (generateVariableLoad keyType) ++
        via .mapType typeInfo (generateVariableLoad elmtType)
  | typeInfo@(.list elmtType) =>
      via .listType typeInfo (translateVariableType elmtType) ++
        via .listType typeInfo (generateVariableInit elmtType) ++
        via .listType typeInfo (generateVariableLoad elmtType)
  | typeInfo@(.array elmtType) =>
      via .arrayType typeInfo (translateVariableType elmtType) ++
        via .arrayType typeInfo (generateVariableInit elmtType) ++
        via .arrayType typeInfo (generateVariableLoad elmtType)
  | typeInfo@(.staticArray elmtType _) =>
      via .staticArrayType typeInfo [] ++
        via .staticArrayType typeInfo (translateVariableType elmtType) ++
        via .staticArrayType typeInfo (generateVariableInit elmtType) ++
        via .staticArrayType typeInfo (generateVariableLoad elmtType)
  | _ => []

/-- GenerateVariableSize. -/
def generateVariableSize : TypeExpr → List Downcast
  | typeInfo@(.map keyType elmtType) =>
      via .mapType typeInfo (translateVariableType keyType) ++
        via .mapType typeInfo (translateVariableType elmtType) ++
        via .mapType typeInfo (generateVariableSize keyType) ++
        via .mapType typeInfo (generateVariableSize elmtType)
  | typeInfo@(.list elmtType) =>
      via .listType typeInfo (translateVariableType elmtType) ++
        via .listType typeInfo (generateVariableSize elmtType)
  | typeInfo@(.array elmtType) =>
      via .arrayType typeInfo (translateVariableType elmtType) ++
        via .arrayType typeInfo (generateVariableSize elmtType)
  | typeInfo@(.staticArray elmtType _) =>
      via .staticArrayType typeInfo [] ++
        if elmtType.isPrimitive then
          via .staticArrayType typeInfo (translateVariableType elmtType)
        else
          via .staticArrayType typeInfo [] ++
            via .staticArrayType typeInfo (generateVariableSize elmtType)
  | _ => []

/-- The constructor of a message fills its static arrays. -/
def constructor (typeInfo : TypeExpr) : List Downcast :=
  match typeInfo with
  | .staticArray elmtType _ => via .staticArrayType typeInfo (translateVariableType elmtType)
  | _ => []

/-- CompileMessage. -/
def compileMessage (_parentName : Option VarName) (list : List VarDeclNode) : List Downcast :=
  overVarDecls list (fun typeInfo => translateVariableType typeInfo ++ generateVariableInit typeInfo) ++
    overVarDecls list constructor ++
    overVarDecls list generateVariableSize ++
    overVarDecls list generateVariableStore ++
    overVarDecls list generateVariableLoad

/-- CompileTypedef. -/
def compileTypedef (varDecl : VarDeclNode) : List Downcast :=
  overTypedef varDecl translateVariableType

/-- The serializer that CompileStmtList writes for a typedef. -/
def typedefSerializer (varDecl : VarDeclNode) : List Downcast :=
  overTypedef varDecl fun typeInfo =>
    generateVariableStore typeInfo ++ generateVariableLoad typeInfo ++
      generateVariableSize typeInfo

/-- CompileStmtList. Its Parse compiles the typedefs in front of everything else. -/
def compileStmtList (list : List Stmt) : List Downcast :=
  let typedefs := list.filter fun stmt => stmt.nodeClass = .typedef
  parse compileMessage compileTypedef typedefs ++
    parse compileMessage compileTypedef (list.filter fun stmt => stmt.nodeClass ≠ .typedef) ++
    typedefs.flatMap fun stmt =>
      match stmt with
      | .typedef varDecl => typedefSerializer varDecl
      | _ => []

end CSharp

namespace Python

/-- GenerateInitCode. -/
def generateInitCode : TypeExpr → List Downcast
  | typeInfo@(.staticArray elmtType _) =>
      via .staticArrayType typeInfo (generateInitCode elmtType) ++
        via .staticArrayType typeInfo []
  | _ => []

/-- GenerateVariableStore. -/
def generateVariableStore : TypeExpr → List Downcast
  | typeInfo@(.map keyType elmtType) =>
      via .mapType typeInfo (generateVariableStore keyType) ++
        via .mapType typeInfo (generateVariableStore elmtType)
  | typeInfo@(.list elmtType) => via .listType typeInfo (generateVariableStore elmtType)
  | typeInfo@(.array elmtType) => via .arrayType typeInfo (generateVariableStore elmtType)
  | typeInfo@(.staticArray elmtType _) =>
      via .staticArrayType typeInfo (generateInitCode elmtType) ++
        via .staticArrayType typeInfo [] ++
        via .staticArrayType typeInfo [] ++
        via .staticArrayType typeInfo (generateVariableStore elmtType)
  | _ => []

/-- GenerateVariableLoad. The elements of a static array are those of an array. -/
def generateVariableLoad : TypeExpr → List Downcast
  | typeInfo@(.map keyType elmtType) =>
      via .mapType typeInfo (generateVariableLoad keyType) ++
        via .mapType typeInfo (generateVariableLoad elmtType)
  | typeInfo@(.list elmtType) => via .listType typeInfo (generateVariableLoad elmtType)
  | typeInfo@(.array elmtType) => via .arrayType typeInfo (generateVariableLoad elmtType)
  | typeInfo@(.staticArray elmtType _) =>
      via .staticArrayType typeInfo [] ++
        via .arrayType typeInfo (generateVariableLoad elmtType)
  | _ => []

/-- CompileMessage, with GenerateStore and GenerateLoad. -/
def compileMessage (_parentName : Option VarName) (list : List VarDeclNode) : List Downcast :=
  overVarDecls list generateInitCode ++
    overVarDecls list generateVariableStore ++
    overVarDecls list generateVariableLoad

/-- CompileTypedef. -/
def compileTypedef (varDecl : VarDeclNode) : List Downcast :=
  overTypedef varDecl fun typeInfo =>
    generateInitCode typeInfo ++ generateVariableStore typeInfo ++ generateVariableLoad typeInfo

/-- CompileStmtList. -/
def compileStmtList : List Stmt → List Downcast :=
  parse compileMessage compileTypedef

end Python

/-- The casts of the three generators. -/
def compileStmtList (list : List Stmt) : List Downcast :=
  Cpp.compileStmtList list ++ CSharp.compileStmtList list ++ Python.compileStmtList list

/-- No list and no array is in the type. -/
def ListFree : TypeExpr → Prop
  | .list _ => False
  | .array _ => False
  | .map keyType elmtType => ListFree keyType ∧ ListFree elmtType
  | .staticArray elmtType _ => ListFree elmtType
  | _ => True

/-- No static array is in the type. -/
def StaticFree : TypeExpr → Prop
  | .staticArray _ _ => False
  | .map keyType elmtType => StaticFree keyType ∧ StaticFree elmtType
  | .list elmtType => StaticFree elmtType
  | .array elmtType => StaticFree elmtType
  | _ => True

/-- The types of the fields of a message have a property. A typedef has a declaration, whose
type has it. -/
def Stmt.Declares (P : TypeExpr → Prop) : Stmt → Prop
  | .message _ _ list => ∀ node ∈ list, ∀ decl, node = .varDecl decl → P decl.varType
  | .typedef varDecl => ∃ decl, varDecl = .varDecl decl ∧ P decl.varType
  | _ => True

/-- There is no list, array or static array in the types of the statement, and it is not a
typedef of a comment. -/
def Stmt.Plain (stmt : Stmt) : Prop :=
  stmt.Declares fun typeInfo => ListFree typeInfo ∧ StaticFree typeInfo

section Right

@[simp] theorem allRight_nil :
    AllRight [] :=
  fun _ h => absurd h List.not_mem_nil

@[simp] theorem allRight_cons
    {c : Downcast} {casts : List Downcast} :
    AllRight (c :: casts) ↔ c.node = c.target ∧ AllRight casts :=
  List.forall_mem_cons

@[simp] theorem allRight_append
    {left right : List Downcast} :
    AllRight (left ++ right) ↔ AllRight left ∧ AllRight right :=
  List.forall_mem_append

theorem allRight_flatMap
    {α : Type} {list : List α} {f : α → List Downcast} :
    AllRight (list.flatMap f) ↔ ∀ a ∈ list, AllRight (f a) :=
  List.forall_mem_flatMap

@[simp] theorem allRight_via
    {target : NodeClass} {typeInfo : TypeExpr} {rest : List Downcast} :
    AllRight (via target typeInfo rest) ↔ nodeClass typeInfo = target ∧ AllRight rest :=
  allRight_cons

/-- Casts in both branches. -/
@[simp] theorem allRight_ite
    {p : Prop} [Decidable p] {left right : List Downcast} :
    AllRight (if p then left else right) ↔ (p → AllRight left) ∧ (¬p → AllRight right) := by
  split_ifs with h <;> simp [h]

theorem allRight_overVarDecls
    {list : List VarDeclNode} {body : TypeExpr → List Downcast} :
    AllRight (overVarDecls list body) ↔
      ∀ node ∈ list, ∀ decl, node = .varDecl decl → AllRight (body decl.varType) := by
  rw [overVarDecls, allRight_flatMap]
  refine forall₂_congr fun node _ => ?_
  cases node <;> simp [VarDeclNode.nodeClass]

theorem allRight_overTypedef
    {node : VarDeclNode} {body : TypeExpr → List Downcast} :
    AllRight (overTypedef node body) ↔
      ∃ decl, node = .varDecl decl ∧ AllRight (body decl.varType) := by
  cases node <;> simp [overTypedef, VarDeclNode.nodeClass]

@[simp] theorem allRight_compileEnum
    (list : List EnumDeclNode) :
    AllRight (compileEnum list) := by
  rw [compileEnum, allRight_flatMap]
  intro node _
  cases node <;> simp [EnumDeclNode.nodeClass]

/-- What the generators have in common: their casts are right if those for the types are that
a message and a typedef declare. -/
theorem allRight_parse
    {compileMessage : Option VarName → List VarDeclNode → List Downcast}
    {compileTypedef : VarDeclNode → List Downcast}
    {P : TypeExpr → Prop}
    (hmessage : ∀ parentName list, AllRight (compileMessage parentName list) ↔
      ∀ node ∈ list, ∀ decl, node = .varDecl decl → P decl.varType)
    (htypedef : ∀ varDecl, AllRight (compileTypedef varDecl) ↔
      ∃ decl, varDecl = .varDecl decl ∧ P decl.varType)
    (list : List Stmt) :
    AllRight (parse compileMessage compileTypedef list) ↔ ∀ stmt ∈ list, stmt.Declares P := by
  rw [parse, allRight_flatMap]
  refine forall₂_congr fun stmt _ => ?_
  cases stmt with
  | message name parentName list =>
      simp only [allRight_cons, Stmt.nodeClass, true_and]
      exact hmessage parentName list
  | typedef varDecl =>
      simp only [allRight_cons, Stmt.nodeClass, true_and]
      exact htypedef varDecl
  | enum name list =>
      simp [Stmt.nodeClass, Stmt.Declares]
  | literal language context =>
      simp [Stmt.nodeClass, Stmt.Declares]
  | comment =>
      simp [Stmt.Declares]

@[simp] theorem allRight_translateVariableType
    (typeInfo : TypeExpr) :
    AllRight (translateVariableType typeInfo) := by
  induction typeInfo <;> simp [translateVariableType, nodeClass, *]

theorem declares_and
    {P Q : TypeExpr → Prop} {stmt : Stmt} :
    (stmt.Declares fun typeInfo => P typeInfo ∧ Q typeInfo) ↔
      stmt.Declares P ∧ stmt.Declares Q := by
  cases stmt with
  | message name parentName list =>
      simp only [Stmt.Declares]
      constructor
      · intro h
        exact ⟨fun node hnode decl heq => (h node hnode decl heq).1,
          fun node hnode decl heq => (h node hnode decl heq).2⟩
      · rintro ⟨hP, hQ⟩ node hnode decl heq
        exact ⟨hP node hnode decl heq, hQ node hnode decl heq⟩
  | typedef varDecl =>
      cases varDecl <;> simp [Stmt.Declares]
  | _ =>
      simp [Stmt.Declares]

end Right

namespace Cpp

@[simp] theorem allRight_generateVariableStore
    (typeInfo : TypeExpr) :
    AllRight (generateVariableStore typeInfo) := by
  induction typeInfo <;> simp [generateVariableStore, nodeClass, *]

@[simp] theorem allRight_generateVariableLoad
    (typeInfo : TypeExpr) :
    AllRight (generateVariableLoad typeInfo) := by
  induction typeInfo <;> simp [generateVariableLoad, nodeClass, *]

/-- The cast of a list or an array to a map. -/
theorem allRight_generateVariableSize
    (typeInfo : TypeExpr) :
    AllRight (generateVariableSize typeInfo) ↔ ListFree typeInfo := by
  induction typeInfo with
  | staticArray elmtType elmtCount ih =>
      cases elmtType <;> simp_all [generateVariableSize, nodeClass, ListFree, TypeExpr.isPrimitive]
  | _ =>
      simp [generateVariableSize, nodeClass, ListFree, *]

theorem allRight_member
    (typeInfo : TypeExpr) :
    AllRight (member typeInfo) := by
  cases typeInfo <;> simp [member, nodeClass]

theorem allRight_compileStmtList
    (list : List Stmt) :
    AllRight (compileStmtList list) ↔ ∀ stmt ∈ list, stmt.Declares ListFree := by
  refine allRight_parse ?_ ?_ list
  · intro parentName list
    simp [compileMessage, allRight_overVarDecls, allRight_member, generateVariableInit,
      allRight_generateVariableSize]
  · intro varDecl
    simp [compileTypedef, allRight_overTypedef, allRight_generateVariableSize]

end Cpp

namespace CSharp

@[simp] theorem allRight_generateVariableInit
    (typeInfo : TypeExpr) :
    AllRight (generateVariableInit typeInfo) := by
  cases typeInfo <;> simp [generateVariableInit, nodeClass]

@[simp] theorem allRight_generateVariableStore
    (typeInfo : TypeExpr) :
    AllRight (generateVariableStore typeInfo) := by
  induction typeInfo <;> simp [generateVariableStore, nodeClass, *]

@[simp] theorem allRight_generateVariableLoad
    (typeInfo : TypeExpr) :
    AllRight (generateVariableLoad typeInfo) := by
  induction typeInfo <;> simp [generateVariableLoad, nodeClass, *]

@[simp] theorem allRight_generateVariableSize
    (typeInfo : TypeExpr) :
    AllRight (generateVariableSize typeInfo) := by
  induction typeInfo <;> simp [generateVariableSize, nodeClass, *]

theorem allRight_constructor
    (typeInfo : TypeExpr) :
    AllRight (constructor typeInfo) := by
  cases typeInfo <;> simp [constructor, nodeClass]

theorem allRight_compileStmtList
    (list : List Stmt) :
    AllRight (compileStmtList list) ↔ ∀ stmt ∈ list, stmt.Declares fun _ => True := by
  have hparse : ∀ list, AllRight (parse compileMessage compileTypedef list) ↔
      ∀ stmt ∈ list, stmt.Declares fun _ => True := by
    refine allRight_parse ?_ ?_
    · intro parentName list
      simp [compileMessage, allRight_overVarDecls, allRight_constructor]
    · intro varDecl
      simp [compileTypedef, allRight_overTypedef]
  rw [compileStmtList, allRight_append, allRight_append, hparse, hparse, allRight_flatMap]
  simp only [List.mem_filter, decide_eq_true_eq, and_imp]
  constructor
  · rintro ⟨⟨htypedefs, hothers⟩, -⟩ stmt hstmt
    by_cases hclass : stmt.nodeClass = .typedef
    · exact htypedefs stmt hstmt hclass
    · exact hothers stmt hstmt hclass
  · intro h
    refine ⟨⟨fun stmt hstmt _ => h stmt hstmt, fun stmt hstmt _ => h stmt hstmt⟩, ?_⟩
    intro stmt hstmt _
    have hdeclares := h stmt hstmt
    cases stmt with
    | typedef varDecl =>
        simpa [typedefSerializer, allRight_overTypedef, Stmt.Declares] using hdeclares
    | _ =>
        exact allRight_nil

end CSharp

namespace Python

@[simp] theorem allRight_generateInitCode
    (typeInfo : TypeExpr) :
    AllRight (generateInitCode typeInfo) := by
  induction typeInfo <;> simp [generateInitCode, nodeClass, *]

@[simp] theorem allRight_generateVariableStore
    (typeInfo : TypeExpr) :
    AllRight (generateVariableStore typeInfo) := by
  induction typeInfo <;> simp [generateVariableStore, nodeClass, *]

/-- The cast of a static array to an array. -/
theorem allRight_generateVariableLoad
    (typeInfo : TypeExpr) :
    AllRight (generateVariableLoad typeInfo) ↔ StaticFree typeInfo := by
  induction typeInfo <;> simp [generateVariableLoad, nodeClass, StaticFree, *]

theorem allRight_compileStmtList
    (list : List Stmt) :
    AllRight (compileStmtList list) ↔ ∀ stmt ∈ list, stmt.Declares StaticFree := by
  refine allRight_parse ?_ ?_ list
  · intro parentName list
    simp [compileMessage, allRight_overVarDecls, allRight_generateVariableLoad]
  · intro varDecl
    simp [compileTypedef, allRight_overTypedef, allRight_generateVariableLoad]

end Python

/-- Every cast that the three generators make for a file is to the class of its node exactly
if no type in the file has a list, an array or a static array, and every typedef has a
declaration. -/
theorem downcasts_right_iff
    (list : List Stmt) :
    AllRight (compileStmtList list) ↔ ∀ stmt ∈ list, stmt.Plain := by
  rw [compileStmtList, allRight_append, allRight_append, Cpp.allRight_compileStmtList,
    CSharp.allRight_compileStmtList, Python.allRight_compileStmtList]
  constructor
  · rintro ⟨⟨hlist, -⟩, hstatic⟩ stmt hstmt
    exact declares_and.mpr ⟨hlist stmt hstmt, hstatic stmt hstmt⟩
  · intro h
    have hboth : ∀ stmt ∈ list, stmt.Declares ListFree ∧ stmt.Declares StaticFree :=
      fun stmt hstmt => declares_and.mp (h stmt hstmt)
    refine ⟨⟨fun stmt hstmt => (hboth stmt hstmt).1, fun stmt hstmt => ?_⟩,
      fun stmt hstmt => (hboth stmt hstmt).2⟩
    have hdeclares := (hboth stmt hstmt).1
    have hand : stmt.Declares fun typeInfo => True ∧ ListFree typeInfo := by
      simpa only [true_and] using hdeclares
    exact (declares_and.mp hand).1

/-- A message M with the field x of type list<int32>. -/
theorem downcasts_not_right :
    ¬ AllRight (compileStmtList
      [.message ⟨['M'], by decide⟩ none
        [.varDecl ⟨.list (.primitive .int32), ⟨['x'], by decide⟩⟩]]) := by
  decide

end Downcasts
end Idlc
end Gamnet
