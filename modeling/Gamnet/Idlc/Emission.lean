import Gamnet.Idlc.Token
import Gamnet.Lib.Scope

/-!
# The code that GenerateRuleCpp and GenerateRuleCSharp write

The generators splice the name of a field into the names of the local variables that they
declare: x_size, x_itr, x_elmt and so on, and again x_elmt_size for the elements. The text
of an element of a static array is x[i] or x[x_itr], and it is spliced in the same way.

The code is kept as its blocks, declarations and accesses. An access names the variable
that the generator means, and how it uses it: as a scalar, as a container, or as an array
of some dimension. A variable that is copied whole is left out, and so are the parameters.
-/

namespace Gamnet
namespace Idlc
namespace Emission

abbrev Text : Type := List Char

/-- A type as the rule var_type of the parser accepts it. -/
inductive TypeExpr where
  | primitive (type : PrimitiveType)
  | string
  | userDefine (name : Text)
  | list (elmtType : TypeExpr)
  | array (elmtType : TypeExpr)
  | map (keyType elmtType : TypeExpr)
  | staticArray (elmtType : TypeExpr) (elmtCount : Text)
deriving DecidableEq

/-- m_bPrimitive, and the entry of a primitive type in the symbol table. -/
def TypeExpr.isPrimitive : TypeExpr → Bool
  | .primitive _ => true
  | _ => false

def isVarNameStart (c : Char) : Bool :=
  c.isAlpha || c = '_'

def isVarNameRest (c : Char) : Bool :=
  c.isAlphanum || c = '_'

/-- The lexer accepts the text as a VARNAME. -/
def isVarName : Text → Bool
  | [] => false
  | c :: cs => isVarNameStart c && cs.all isVarNameRest

/-- A VARNAME. -/
structure VarName where
  text : Text
  lexed : isVarName text = true

/-- A field of a message or struct. -/
structure VarDecl where
  varType : TypeExpr
  varName : VarName

/-- What an expression of the emitted code is meant to denote. The subscripts of an element
stay below a count. -/
inductive Operand where
  | field (name : Text)
  | var (name : Text)
  | index (base : Operand) (count : Text)

/-- sVarName: the text of a variable, and what it is meant to denote. -/
structure Variable where
  text : Text
  operand : Operand

def Variable.field (name : Text) : Variable :=
  { text := name, operand := .field name }

def Variable.var (name : Text) : Variable :=
  { text := name, operand := .var name }

/-- The element of a static array under a loop variable. -/
def Variable.element (v : Variable) (loop : Text) (count : Text) : Variable :=
  { text := v.text ++ '[' :: loop ++ [']'], operand := .index v.operand count }

/-- How a variable is declared. -/
inductive Shape where
  | scalar
  | string
  | userDefine (name : Text)
  | list (elmt : Shape)
  | vector (elmt : Shape)
  | map (key elmt : Shape)
  | fixed (elmt : Shape) (count : Text)
  | iterator
  | buffer
deriving DecidableEq

/-- How a variable is used. -/
inductive Use where
  | scalar
  | string
  | userDefine (name : Text)
  | list
  | vector
  | map
  | fixed (count : Text)
  | iterator
  | buffer
deriving DecidableEq

/-- The use that a shape admits. -/
def Shape.use : Shape → Use
  | .scalar => .scalar
  | .string => .string
  | .userDefine name => .userDefine name
  | .list _ => .list
  | .vector _ => .vector
  | .map _ _ => .map
  | .fixed _ count => .fixed count
  | .iterator => .iterator
  | .buffer => .buffer

abbrev Code : Type := Scope.Code Text Shape (Operand × Use)

open Scope.Code

/-- What the generators put behind the text of a variable. -/
structure Suffix where
  text : Text
  legal : text.all isVarNameRest = true
  long : 2 ≤ text.length

def sizeSuffix : Suffix := ⟨['_', 's', 'i', 'z', 'e'], by decide, by decide⟩
def lengthSuffix : Suffix := ⟨['_', 'l', 'e', 'n', 'g', 't', 'h'], by decide, by decide⟩
def itrSuffix : Suffix := ⟨['_', 'i', 't', 'r'], by decide, by decide⟩
def keySuffix : Suffix := ⟨['_', 'k', 'e', 'y'], by decide, by decide⟩
def elmtSuffix : Suffix := ⟨['_', 'e', 'l', 'm', 't'], by decide, by decide⟩
def valSuffix : Suffix := ⟨['_', 'v', 'a', 'l'], by decide, by decide⟩
def bufSuffix : Suffix := ⟨['_', 'b', 'u', 'f'], by decide, by decide⟩
def iName : Text := ['i']
def bufName : Text := ['_', 'b', 'u', 'f', '_']
def nSizeName : Text := ['n', 'S', 'i', 'z', 'e']

/-- The first occurrence of a character is replaced. -/
def replaceFirst (c d : Char) : Text → Text
  | [] => []
  | x :: xs => if x = c then d :: xs else x :: replaceFirst c d xs

/-- ReplaceSpecialChar. -/
def replaceSpecialChar (ori : Text) : Text :=
  replaceFirst ']' '_' (replaceFirst '[' '_' ori)

namespace Cpp

/-- TranslateVariableType. The dimension of a static array is not part of it. -/
def translateVariableType : TypeExpr → Shape
  | .primitive _ => .scalar
  | .string => .string
  | .userDefine name => .userDefine name
  | .list elmtType => .list (translateVariableType elmtType)
  | .array elmtType => .vector (translateVariableType elmtType)
  | .map keyType elmtType => .map (translateVariableType keyType) (translateVariableType elmtType)
  | .staticArray elmtType _ => translateVariableType elmtType

/-- The declaration of a field in CompileMessage. -/
def fieldShape : TypeExpr → Shape
  | .staticArray elmtType count => .fixed (translateVariableType elmtType) count
  | type => translateVariableType type

/-- GenerateVariableStore of a list or an array. -/
def storeContainer (use : Use) (elmtShape : Shape) (v : Variable)
    (store : Variable → Code) : Code :=
  all [
    declare (v.text ++ sizeSuffix.text) .scalar,
    access (v.operand, use),
    access (.var (v.text ++ sizeSuffix.text), .scalar),
    block (all [
      declare (v.text ++ itrSuffix.text) .iterator,
      access (v.operand, use),
      access (.var (v.text ++ itrSuffix.text), .iterator),
      declare (v.text ++ elmtSuffix.text) elmtShape,
      access (.var (v.text ++ itrSuffix.text), .iterator),
      store (.var (v.text ++ elmtSuffix.text))])]

def generateVariableStore : TypeExpr → Variable → Code
  | .userDefine name, v => access (v.operand, .userDefine name)
  | .primitive _, v => access (v.operand, .scalar)
  | .string, v =>
      all [
        declare (replaceSpecialChar v.text ++ sizeSuffix.text) .scalar,
        access (v.operand, .string),
        access (.var (replaceSpecialChar v.text ++ sizeSuffix.text), .scalar),
        access (v.operand, .string)]
  | .map keyType elmtType, v =>
      all [
        declare (v.text ++ sizeSuffix.text) .scalar,
        access (v.operand, .map),
        access (.var (v.text ++ sizeSuffix.text), .scalar),
        block (all [
          declare (v.text ++ itrSuffix.text) .iterator,
          access (v.operand, .map),
          access (.var (v.text ++ itrSuffix.text), .iterator),
          declare (v.text ++ keySuffix.text) (translateVariableType keyType),
          access (.var (v.text ++ itrSuffix.text), .iterator),
          declare (v.text ++ elmtSuffix.text) (translateVariableType elmtType),
          access (.var (v.text ++ itrSuffix.text), .iterator),
          generateVariableStore keyType (.var (v.text ++ keySuffix.text)),
          generateVariableStore elmtType (.var (v.text ++ elmtSuffix.text))])]
  | .list elmtType, v =>
      storeContainer .list (translateVariableType elmtType) v (generateVariableStore elmtType)
  | .array elmtType, v =>
      storeContainer .vector (translateVariableType elmtType) v (generateVariableStore elmtType)
  | .staticArray elmtType count, v =>
      if elmtType.isPrimitive then access (v.operand, .fixed count)
      else
        block (all [
          declare iName .scalar,
          access (.var iName, .scalar),
          generateVariableStore elmtType (v.element iName count)])

/-- GenerateVariableLoad of a list or an array. -/
def loadContainer (use : Use) (elmtShape : Shape) (v : Variable)
    (load : Variable → Code) : Code :=
  all [
    declare (v.text ++ lengthSuffix.text) .scalar,
    access (.var (v.text ++ lengthSuffix.text), .scalar),
    block (all [
      declare iName .scalar,
      access (.var iName, .scalar),
      access (.var (v.text ++ lengthSuffix.text), .scalar),
      declare (v.text ++ valSuffix.text) elmtShape,
      load (.var (v.text ++ valSuffix.text)),
      access (v.operand, use)])]

def generateVariableLoad : TypeExpr → Variable → Code
  | .userDefine name, v => access (v.operand, .userDefine name)
  | .primitive _, v => access (v.operand, .scalar)
  | .string, v =>
      all [
        declare (v.text ++ lengthSuffix.text) .scalar,
        access (.var (v.text ++ lengthSuffix.text), .scalar),
        access (v.operand, .string),
        access (.var (v.text ++ lengthSuffix.text), .scalar)]
  | .map keyType elmtType, v =>
      all [
        declare (v.text ++ lengthSuffix.text) .scalar,
        access (.var (v.text ++ lengthSuffix.text), .scalar),
        block (all [
          declare iName .scalar,
          access (.var iName, .scalar),
          access (.var (v.text ++ lengthSuffix.text), .scalar),
          declare (v.text ++ keySuffix.text) (translateVariableType keyType),
          generateVariableLoad keyType (.var (v.text ++ keySuffix.text)),
          declare (v.text ++ valSuffix.text) (translateVariableType elmtType),
          generateVariableLoad elmtType (.var (v.text ++ valSuffix.text)),
          access (v.operand, .map)])]
  | .list elmtType, v =>
      loadContainer .list (translateVariableType elmtType) v (generateVariableLoad elmtType)
  | .array elmtType, v =>
      loadContainer .vector (translateVariableType elmtType) v (generateVariableLoad elmtType)
  | .staticArray elmtType count, v =>
      if elmtType.isPrimitive then access (v.operand, .fixed count)
      else
        block (all [
          declare iName .scalar,
          access (.var iName, .scalar),
          declare (v.text ++ valSuffix.text) (translateVariableType elmtType),
          generateVariableLoad elmtType (.var (v.text ++ valSuffix.text)),
          access (.var iName, .scalar),
          access (v.operand, .fixed count)])

/-- GenerateVariableSize of a list or an array. A primitive element is not declared. -/
def sizeContainer (use : Use) (elmtType : TypeExpr) (v : Variable)
    (size : Variable → Code) : Code :=
  block (all [
    declare (v.text ++ itrSuffix.text) .iterator,
    access (v.operand, use),
    access (.var (v.text ++ itrSuffix.text), .iterator),
    if elmtType.isPrimitive then skip
    else declare (v.text ++ elmtSuffix.text) (translateVariableType elmtType),
    size (.var (v.text ++ elmtSuffix.text))])

def generateVariableSize : TypeExpr → Variable → Code
  | .userDefine name, v => access (v.operand, .userDefine name)
  | .primitive _, _ => skip
  | .string, v => access (v.operand, .string)
  | .map keyType elmtType, v =>
      block (all [
        declare (v.text ++ itrSuffix.text) .iterator,
        access (v.operand, .map),
        access (.var (v.text ++ itrSuffix.text), .iterator),
        if keyType.isPrimitive then skip
        else declare (v.text ++ keySuffix.text) (translateVariableType keyType),
        declare (v.text ++ elmtSuffix.text) (translateVariableType elmtType),
        access (.var (v.text ++ itrSuffix.text), .iterator),
        generateVariableSize keyType (.var (v.text ++ keySuffix.text)),
        generateVariableSize elmtType (.var (v.text ++ elmtSuffix.text))])
  | .list elmtType, v => sizeContainer .list elmtType v (generateVariableSize elmtType)
  | .array elmtType, v => sizeContainer .vector elmtType v (generateVariableSize elmtType)
  | .staticArray elmtType count, v =>
      if elmtType.isPrimitive then skip
      else
        block (all [
          declare iName .scalar,
          access (.var iName, .scalar),
          generateVariableSize elmtType (v.element iName count)])

/-- The statements that CompileMessage emits for the fields, one after the other. -/
def compileFields (generate : TypeExpr → Variable → Code) (fields : List VarDecl) : Code :=
  all (fields.map fun field => generate field.varType (.field field.varName.text))

/-- The parameters of Store. -/
def storeScope : List (Text × Shape) :=
  [(bufName, .buffer)]

/-- The parameters of Load. -/
def loadScope : List (Text × Shape) :=
  [(nSizeName, .scalar), (bufName, .buffer)]

/-- The variable that Size begins with. -/
def sizeScope : List (Text × Shape) :=
  [(nSizeName, .scalar)]

end Cpp

namespace CSharp

/-- TranslateVariableType. The dimension of a static array is the one that
GenerateVariableInit gives it. -/
def translateVariableType : TypeExpr → Shape
  | .primitive _ => .scalar
  | .string => .string
  | .userDefine name => .userDefine name
  | .list elmtType => .list (translateVariableType elmtType)
  | .array elmtType => .list (translateVariableType elmtType)
  | .map keyType elmtType => .map (translateVariableType keyType) (translateVariableType elmtType)
  | .staticArray elmtType count => .fixed (translateVariableType elmtType) count

/-- GenerateVariableStore of a list or an array. -/
def storeContainer (elmtShape : Shape) (v : Variable) (store : Variable → Code) : Code :=
  all [
    access (v.operand, .list),
    access (v.operand, .list),
    block (all [
      declare (v.text ++ itrSuffix.text) .iterator,
      declare (v.text ++ elmtSuffix.text) elmtShape,
      access (.var (v.text ++ itrSuffix.text), .iterator),
      store (.var (v.text ++ elmtSuffix.text))])]

def generateVariableStore : TypeExpr → Variable → Code
  | .userDefine name, v => access (v.operand, .userDefine name)
  | .primitive _, v => access (v.operand, .scalar)
  | .string, v =>
      all [
        access (v.operand, .string),
        block (all [
          declare (v.text ++ lengthSuffix.text) .scalar,
          access (v.operand, .string),
          access (.var (v.text ++ lengthSuffix.text), .scalar),
          access (v.operand, .string),
          access (.var (v.text ++ lengthSuffix.text), .scalar)])]
  | .map keyType elmtType, v =>
      all [
        access (v.operand, .map),
        access (v.operand, .map),
        block (all [
          declare (v.text ++ itrSuffix.text) .iterator,
          declare (v.text ++ keySuffix.text) (translateVariableType keyType),
          access (.var (v.text ++ itrSuffix.text), .iterator),
          declare (v.text ++ elmtSuffix.text) (translateVariableType elmtType),
          access (.var (v.text ++ itrSuffix.text), .iterator),
          generateVariableStore keyType (.var (v.text ++ keySuffix.text)),
          generateVariableStore elmtType (.var (v.text ++ elmtSuffix.text))])]
  | .list elmtType, v =>
      storeContainer (translateVariableType elmtType) v (generateVariableStore elmtType)
  | .array elmtType, v =>
      storeContainer (translateVariableType elmtType) v (generateVariableStore elmtType)
  | .staticArray elmtType count, v =>
      block (all [
        declare (v.text ++ itrSuffix.text) .scalar,
        access (.var (v.text ++ itrSuffix.text), .scalar),
        generateVariableStore elmtType (v.element (v.text ++ itrSuffix.text) count)])

/-- GenerateVariableLoad of a list or an array. -/
def loadContainer (elmtShape : Shape) (v : Variable) (load : Variable → Code) : Code :=
  all [
    declare (v.text ++ lengthSuffix.text) .scalar,
    block (all [
      declare (v.text ++ itrSuffix.text) .scalar,
      access (.var (v.text ++ itrSuffix.text), .scalar),
      access (.var (v.text ++ lengthSuffix.text), .scalar),
      declare (v.text ++ valSuffix.text) elmtShape,
      load (.var (v.text ++ valSuffix.text)),
      access (v.operand, .list)])]

def generateVariableLoad : TypeExpr → Variable → Code
  | .userDefine name, v => access (v.operand, .userDefine name)
  | .primitive _, v => access (v.operand, .scalar)
  | .string, v =>
      all [
        declare (v.text ++ lengthSuffix.text) .scalar,
        access (.var (v.text ++ lengthSuffix.text), .scalar),
        declare (v.text ++ bufSuffix.text) .buffer,
        access (.var (v.text ++ lengthSuffix.text), .scalar),
        access (.var (v.text ++ bufSuffix.text), .buffer),
        access (.var (v.text ++ lengthSuffix.text), .scalar),
        access (v.operand, .string),
        access (.var (v.text ++ bufSuffix.text), .buffer),
        access (.var (v.text ++ lengthSuffix.text), .scalar)]
  | .map keyType elmtType, v =>
      all [
        declare (v.text ++ lengthSuffix.text) .scalar,
        block (all [
          declare (v.text ++ itrSuffix.text) .scalar,
          access (.var (v.text ++ itrSuffix.text), .scalar),
          access (.var (v.text ++ lengthSuffix.text), .scalar),
          declare (v.text ++ keySuffix.text) (translateVariableType keyType),
          declare (v.text ++ elmtSuffix.text) (translateVariableType elmtType),
          generateVariableLoad keyType (.var (v.text ++ keySuffix.text)),
          generateVariableLoad elmtType (.var (v.text ++ elmtSuffix.text)),
          access (v.operand, .map)])]
  | .list elmtType, v =>
      loadContainer (translateVariableType elmtType) v (generateVariableLoad elmtType)
  | .array elmtType, v =>
      loadContainer (translateVariableType elmtType) v (generateVariableLoad elmtType)
  | .staticArray elmtType count, v =>
      block (all [
        declare (v.text ++ itrSuffix.text) .scalar,
        access (.var (v.text ++ itrSuffix.text), .scalar),
        declare (v.text ++ valSuffix.text) (translateVariableType elmtType),
        generateVariableLoad elmtType (.var (v.text ++ valSuffix.text)),
        access (.var (v.text ++ itrSuffix.text), .scalar),
        access (v.operand, .fixed count)])

/-- GenerateVariableSize of a list or an array. -/
def sizeContainer (elmtShape : Shape) (v : Variable) (size : Variable → Code) : Code :=
  all [
    access (v.operand, .list),
    block (all [
      declare (v.text ++ itrSuffix.text) .iterator,
      declare (v.text ++ elmtSuffix.text) elmtShape,
      access (.var (v.text ++ itrSuffix.text), .iterator),
      size (.var (v.text ++ elmtSuffix.text))])]

def generateVariableSize : TypeExpr → Variable → Code
  | .userDefine name, v => access (v.operand, .userDefine name)
  | .primitive _, _ => skip
  | .string, v =>
      all [
        access (v.operand, .string),
        access (v.operand, .string)]
  | .map keyType elmtType, v =>
      all [
        access (v.operand, .map),
        block (all [
          declare (v.text ++ itrSuffix.text) .iterator,
          declare (v.text ++ keySuffix.text) (translateVariableType keyType),
          access (.var (v.text ++ itrSuffix.text), .iterator),
          declare (v.text ++ elmtSuffix.text) (translateVariableType elmtType),
          access (.var (v.text ++ itrSuffix.text), .iterator),
          generateVariableSize keyType (.var (v.text ++ keySuffix.text)),
          generateVariableSize elmtType (.var (v.text ++ elmtSuffix.text))])]
  | .list elmtType, v =>
      sizeContainer (translateVariableType elmtType) v (generateVariableSize elmtType)
  | .array elmtType, v =>
      sizeContainer (translateVariableType elmtType) v (generateVariableSize elmtType)
  | .staticArray elmtType count, v =>
      if elmtType.isPrimitive then skip
      else
        block (all [
          declare (v.text ++ itrSuffix.text) .scalar,
          access (.var (v.text ++ itrSuffix.text), .scalar),
          generateVariableSize elmtType (v.element (v.text ++ itrSuffix.text) count)])

/-- The parameter of Store and of Load. -/
def streamScope : List (Text × Shape) :=
  [(bufName, .buffer)]

/-- The variable that Size begins with. -/
def sizeScope : List (Text × Shape) :=
  [(nSizeName, .scalar)]

end CSharp

end Emission
end Idlc
end Gamnet
