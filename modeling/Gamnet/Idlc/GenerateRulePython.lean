import Gamnet.Idlc.GenerateRuleCpp
import Gamnet.Lib.Declarations
import Mathlib.Logic.Function.Basic

/-!
# The Python code that idlc generates

GenerateVariableStore and GenerateVariableLoad thread a prefix and a name through the type
expression. The name is a field behind the prefix self, or one of the temporary variables
k and v of the current indentation, or val in the functions of a typedef.

The temporary variables belong to the whole function: what an earlier statement has bound
is still there, and what none has bound raises an error. The definitions below run the
emitted statements on these variables and on the buffer, and an error is no result.

Names of fields do not occur here: a bare assignment to the name of a field has no effect, and
self has no attribute k or v. FieldNamesPython adds the names, and says which of them are in
the way of the functions.
-/

namespace Gamnet
namespace Idlc
namespace Python

open LittleEndian Lib

/-- A Python value: the bits of a scalar, a string, a list, the items of a dictionary in
their order, or an instance of a message class. -/
inductive Value where
  | word (n : Nat)
  | text (bytes : List UInt8)
  | list (elmts : List Value)
  | dict (items : List (Value × Value))
  | object (parent : Option Value) (attributes : List Value)

/-- Lists and dictionaries are no keys. -/
def Value.hashable : Value → Bool
  | .list _ => false
  | .dict _ => false
  | _ => true

/-- The rule var_type of the parser over the names that are declared before. -/
inductive VarType (declared : List String) where
  | primitive (type : PrimitiveType)
  | string
  | userDefine (name : String) (known : name ∈ declared)
  | list (elmtType : VarType declared)
  | array (elmtType : VarType declared)
  | map (keyType elmtType : VarType declared)
  | staticArray (elmtType : VarType declared) (elmtCount : Nat)

/-- A declaration. The numbers of an enum do not reach its functions. -/
inductive Decl (declared : List String) where
  | enum
  | typedef (varType : VarType declared)
  | message
      (parent : Option {name : String // name ∈ declared})
      (fields : List (VarType declared))

abbrev Environment : List String → Type :=
  Declarations Decl

/-- The functions Init, Store and Load of a declared name, and whether there is a class with
methods behind them. -/
structure Codec where
  init : Value
  store : Value → Option (List UInt8)
  load : List UInt8 → Option (Value × List UInt8)
  isClass : Bool

/-- The variables of an emitted Load: a field of self, k and v with their indentation, and
val of a typedef. -/
inductive Variable where
  | field (index : Nat)
  | key (indent : Nat)
  | val (indent : Nat)
  | typedef
deriving DecidableEq

/-- The variables that are bound, and the buffer. -/
structure Frame where
  vars : Variable → Option Value
  buf : List UInt8

/-- Bind a variable. -/
def Frame.assign (f : Frame) (x : Variable) (v : Value) : Frame :=
  { f with vars := Function.update f.vars x (some v) }

/-- x.append(y). -/
def Frame.append (f : Frame) (x y : Variable) : Option Frame :=
  match f.vars x, f.vars y with
  | some (.list elmts), some v => some (f.assign x (.list (elmts ++ [v])))
  | _, _ => none

/-- The item of an equal key is replaced. -/
def setItem
    (equal : Value → Value → Bool)
    (item : Value × Value) : List (Value × Value) → List (Value × Value)
  | [] => [item]
  | other :: items =>
      if equal other.1 item.1 then (other.1, item.2) :: items
      else other :: setItem equal item items

/-- x[k] = v. Of an older list that x is still bound to no dictionary can come, and the run
is given up with it. -/
def Frame.setItem
    (equal : Value → Value → Bool)
    (f : Frame) (x k v : Variable) : Option Frame :=
  match f.vars x, f.vars k, f.vars v with
  | some (.dict items), some key, some elmt =>
      if key.hashable then some (f.assign x (.dict (Python.setItem equal (key, elmt) items)))
      else none
  | _, _, _ => none

/-- struct.unpack of an unsigned scalar at the front of the buffer. -/
def unpack (size : Nat) (buf : List UInt8) : Option (Nat × List UInt8) :=
  if size ≤ buf.length then some (decode (buf.take size), buf.drop size) else none

/-- struct.unpack of an int32 at the front of the buffer. -/
def unpackInt (buf : List UInt8) : Option (Int × List UInt8) := do
  let (n, rest) ← unpack 4 buf
  some ((n : Int).bmod (2 ^ 32), rest)

/-- struct.pack of the length of a string or a container. -/
def packLength (n : Nat) : Option (List UInt8) :=
  if n < 2 ^ 31 then some (encode 4 n) else none

/-- Where a slice ends or begins. A negative index counts from the end. -/
def sliceIndex (buf : List UInt8) (n : Int) : Nat :=
  if 0 ≤ n then n.toNat else buf.length - n.natAbs

/-- The body of a loop, a number of times. -/
def times (body : Frame → Option Frame) : Nat → Frame → Option Frame
  | 0, f => some f
  | count + 1, f => do
      let f ← body f
      times body count f

section Generate

variable (equal : Value → Value → Bool)
variable {declared : List String}
variable (codec : Known declared Codec)

def generateInitCode : VarType declared → Value
  | .primitive _ => .word 0
  | .string => .text []
  | .userDefine name known => (codec name known).init
  | .list _ => .list []
  | .array _ => .list []
  | .map _ _ => .dict []
  | .staticArray elmtType elmtCount => .list (List.replicate elmtCount (generateInitCode elmtType))

/-- GenerateVariableStore: the prefix is self, or there is none. The elements of a static
array are read under the prefix self in any case, and only a field is there. -/
def generateVariableStore : VarType declared → Bool → Value → Option (List UInt8)
  | .userDefine name known, _, v => (codec name known).store v
  | .primitive type, _, .word n => some (encode type.size n)
  | .string, _, .text bytes => do
      let length ← packLength bytes.length
      some (length ++ bytes)
  | .map keyType elmtType, _, .dict items => do
      let length ← packLength items.length
      let bytes ← storeAll (fun item => do
        let key ← generateVariableStore keyType false item.1
        let elmt ← generateVariableStore elmtType false item.2
        some (key ++ elmt)) items
      some (length ++ bytes)
  | .list elmtType, _, .list elmts => do
      let length ← packLength elmts.length
      let bytes ← storeAll (generateVariableStore elmtType false) elmts
      some (length ++ bytes)
  | .array elmtType, _, .list elmts => do
      let length ← packLength elmts.length
      let bytes ← storeAll (generateVariableStore elmtType false) elmts
      some (length ++ bytes)
  | .staticArray elmtType elmtCount, onSelf, .list elmts =>
      if onSelf then
        storeAll (generateVariableStore elmtType true)
          ((elmts ++ List.replicate (elmtCount - elmts.length)
            (generateInitCode codec elmtType)).take elmtCount)
      else if elmtCount = 0 then some []
      else none
  | _, _, _ => none

/-- sVarName = []: for a field this binds a name that nothing reads. -/
def Frame.clear (f : Frame) (x : Variable) : Frame :=
  match x with
  | .field _ => f
  | x => f.assign x (.list [])

/-- GenerateVariableLoad of a list or an array. -/
def loadContainer
    (indent : Nat) (x : Variable)
    (load : Frame → Option Frame) (f : Frame) : Option Frame := do
  let (elmt_count, buf) ← unpackInt f.buf
  times (fun f => do
    let f ← load f
    f.append x (.val indent)) elmt_count.toNat ({ f with buf := buf }.clear x)

/-- The statements that GenerateVariableLoad emits. -/
def generateVariableLoad : VarType declared → Nat → Variable → Frame → Option Frame
  | .userDefine name known, _, x, f => do
      let (v, buf) ← (codec name known).load f.buf
      some ({ f with buf := buf }.assign x v)
  | .primitive type, _, x, f => do
      let (n, buf) ← unpack type.size f.buf
      some ({ f with buf := buf }.assign x (.word n))
  | .string, _, x, f => do
      let (str_length, buf) ← unpackInt f.buf
      some ({ f with buf := buf.drop (sliceIndex buf str_length) }.assign x
        (.text (buf.take (sliceIndex buf str_length))))
  | .map keyType elmtType, indent, x, f => do
      let (elmt_count, buf) ← unpackInt f.buf
      times (fun f => do
        let f ← generateVariableLoad keyType (indent + 1) (.key indent) f
        let f ← generateVariableLoad elmtType (indent + 1) (.val indent) f
        f.setItem equal x (.key indent) (.val indent)) elmt_count.toNat { f with buf := buf }
  | .list elmtType, indent, x, f =>
      loadContainer indent x (generateVariableLoad elmtType (indent + 1) (.val indent)) f
  | .array elmtType, indent, x, f =>
      loadContainer indent x (generateVariableLoad elmtType (indent + 1) (.val indent)) f
  | .staticArray elmtType elmtCount, indent, x, f =>
      times (fun f => do
        let f ← generateVariableLoad elmtType (indent + 1) (.val indent) f
        f.append x (.val indent)) elmtCount (f.assign x (.list []))

/-- The Store statements of the fields of a message. -/
def storeFields : List (VarType declared) → List Value → Option (List UInt8)
  | [], [] => some []
  | field :: fields, v :: values => do
      let front ← generateVariableStore codec field true v
      let back ← storeFields fields values
      some (front ++ back)
  | _, _ => none

/-- The Load statements of the fields of a message, from a field on. -/
def loadFields : List (VarType declared) → Nat → Frame → Option Frame
  | [], _, f => some f
  | field :: fields, index, f => do
      let f ← generateVariableLoad equal codec field 2 (.field index) f
      loadFields fields (index + 1) f

end Generate

/-- A number of attributes of self, from one on. -/
def Frame.attributes (f : Frame) : Nat → Nat → Option (List Value)
  | _, 0 => some []
  | index, count + 1 => do
      let v ← f.vars (.field index)
      let values ← f.attributes (index + 1) count
      some (v :: values)

/-- A call of a function on a buffer. -/
def calling (buf : List UInt8) : Frame where
  vars _ := none
  buf := buf

/-- A call of a method of an object with attributes. -/
def callingOn (attributes : List Value) (buf : List UInt8) : Frame where
  vars
    | .field index => attributes[index]?
    | _ => none
  buf := buf

section Compile

variable (equal : Value → Value → Bool)
variable {declared : List String}
variable (codec : Known declared Codec)

def compileEnum : Codec where
  init := .word 0
  store
    | .word n => some (encode 4 n)
    | _ => none
  load buf := do
    let (n, buf) ← unpack 4 buf
    some (.word n, buf)
  isClass := false

def compileTypedef (type : VarType declared) : Codec where
  init := generateInitCode codec type
  store := generateVariableStore codec type false
  load buf := do
    let f ← generateVariableLoad equal codec type 1 .typedef (calling buf)
    let v ← f.vars .typedef
    some (v, f.buf)
  isClass := false

/-- The parent's Store on self. A parent that is no class has no methods. -/
def storeParent :
    Option {name : String // name ∈ declared} → Option Value → Option (List UInt8)
  | none, none => some []
  | some base, some v =>
      if (codec base.1 base.2).isClass then (codec base.1 base.2).store v else none
  | _, _ => none

/-- The parent's Load on self. Self is new, so that its attributes of the parent are those of
a new object of the parent. -/
def loadParent
    (parent : Option {name : String // name ∈ declared})
    (buf : List UInt8) : Option (Option Value × List UInt8) :=
  match parent with
  | none => some (none, buf)
  | some base =>
      if (codec base.1 base.2).isClass then do
        let (v, buf) ← (codec base.1 base.2).load buf
        some (some v, buf)
      else none

def compileMessage
    (parent : Option {name : String // name ∈ declared})
    (fields : List (VarType declared)) : Codec where
  init := .object (parent.map fun base => (codec base.1 base.2).init)
    (fields.map (generateInitCode codec))
  store
    | .object parentValue values => do
        let front ← storeParent codec parent parentValue
        let back ← storeFields codec fields values
        some (front ++ back)
    | _ => none
  load buf := do
    let (parentValue, buf) ← loadParent codec parent buf
    let f ← loadFields equal codec fields 0 (callingOn (fields.map (generateInitCode codec)) buf)
    let values ← f.attributes 0 fields.length
    some (.object parentValue values, f.buf)
  isClass := true

def compileDecl : Decl declared → Codec
  | .enum => compileEnum
  | .typedef type => compileTypedef equal codec type
  | .message parent fields => compileMessage equal codec parent fields

end Compile

/-- The functions of the names that a file declares. -/
def Environment.codec
    (equal : Value → Value → Bool)
    {declared : List String}
    (env : Environment declared) : Known declared Codec :=
  Declarations.compile (compileDecl equal) env

end Python
end Idlc
end Gamnet
