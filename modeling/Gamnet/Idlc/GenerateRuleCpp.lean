import Gamnet.Lib.LittleEndian
import Gamnet.Lib.Reader
import Gamnet.Idlc.Token

/-!
# The C++ serializers that idlc generates

GenerateVariableStore and GenerateVariableLoad walk over a type expression and
emit the statements that write and read a variable of that type; CompileEnum,
CompileTypedef and CompileMessage put them into the serializers of a declared
name. The definitions below are the functions that the emitted statements
compute, on a little-endian host with 64-bit size_t and 32-bit int.
-/

namespace Gamnet
namespace Idlc

open LittleEndian Reader

/-- An object of a declared type: the bits of a scalar, the bytes of a string,
a container or an array, the entries of a map in key order, or the fields of a
message behind the object of its parent. -/
inductive Value where
  | word (n : Nat)
  | text (bytes : List UInt8)
  | seq (elmts : List Value)
  | map (entries : List (Value × Value))
  | record (parent : Option Value) (fields : List Value)

/-- The comparison of a key type, as std::less provides it to std::map. -/
structure Compare where
  less : Value → Value → Bool
  asymm : ∀ a b, less a b = true → less b a = false

/-- std::map::insert: an entry whose key is present is not inserted. -/
def Compare.insert
    (order : Compare)
    (entry : Value × Value) : List (Value × Value) → List (Value × Value)
  | [] => [entry]
  | other :: entries =>
      if order.less entry.1 other.1 then
        entry :: other :: entries
      else if order.less other.1 entry.1 then
        other :: order.insert entry entries
      else
        other :: entries

/-- Insert entries one after the other. -/
def Compare.insertAll
    (order : Compare)
    (map entries : List (Value × Value)) : List (Value × Value) :=
  entries.foldl (fun map entry => order.insert entry map) map

/-- The static functions of a generated serializer: Store gives the bytes that
it appends, or nothing where its behaviour is undefined. -/
structure Serializer where
  store : Value → Option (List UInt8)
  load : Load Value

/-- An int32_t counter cannot count up to this number. -/
def counterLimit : Nat := 2 ^ 31

/-- Store the elements of a container one behind the other. -/
def storeAll
    {α : Type}
    (store : α → Option (List UInt8)) : List α → Option (List UInt8)
  | [] => some []
  | a :: as => do
      let front ← store a
      let back ← storeAll store as
      some (front ++ back)

/-- Copy the 32-bit length in front of a string or a container. -/
def loadLength : Load Nat := do
  let bytes ← checked 4
  pure (decode bytes)

/-- Copy a scalar. -/
def loadWord
    (size : Nat) : Load Value := do
  let bytes ← checked size
  pure (.word (decode bytes))

/-- The scalars in the bytes of an array. -/
def words
    (size : Nat) : Nat → List UInt8 → List Value
  | 0, _ => []
  | count + 1, bytes =>
      .word (decode (bytes.take size)) :: words size count (bytes.drop size)

section Generate

variable (order : {declared : List String} → VarType declared → Compare)
variable {declared : List String}
variable (serializer : Names declared Serializer)

/-- The statements that GenerateVariableStore emits. The length of a string or
a container is the low half of a size_t. -/
def generateVariableStore :
    VarType declared → Value → Option (List UInt8)
  | .userDefine name known, v => (serializer name known).store v
  | .primitive type, .word n => some (encode type.size n)
  | .string, .text bytes => some (encode 4 bytes.length ++ bytes)
  | .map keyType elmtType, .map entries => do
      let bytes ← storeAll (fun entry => do
        let key ← generateVariableStore keyType entry.1
        let elmt ← generateVariableStore elmtType entry.2
        some (key ++ elmt)) entries
      some (encode 4 entries.length ++ bytes)
  | .list elmtType, .seq elmts => do
      let bytes ← storeAll (generateVariableStore elmtType) elmts
      some (encode 4 elmts.length ++ bytes)
  | .array elmtType, .seq elmts => do
      let bytes ← storeAll (generateVariableStore elmtType) elmts
      some (encode 4 elmts.length ++ bytes)
  | _, _ => none

/-- GenerateVariableStore on the type of a field. A static array is copied as
a whole if its elements are primitive, and stored in a loop otherwise. -/
def generateFieldStore :
    FieldType declared → Value → Option (List UInt8)
  | .plain type, v => generateVariableStore serializer type v
  | .staticArray elmtType elmtCount, .seq elmts =>
      if elmts.length = elmtCount then
        match elmtType.primitive? with
        | some _ => storeAll (generateVariableStore serializer elmtType) elmts
        | none =>
            if elmtCount < counterLimit then
              storeAll (generateVariableStore serializer elmtType) elmts
            else
              none
      else
        none
  | _, _ => none

/-- The Store statements of the fields of a message, in their order. -/
def storeFields :
    List (FieldType declared) → List Value → Option (List UInt8)
  | [], [] => some []
  | field :: fields, v :: values => do
      let front ← generateFieldStore serializer field v
      let back ← storeFields fields values
      some (front ++ back)
  | _, _ => none

/-- The statements that GenerateVariableLoad emits. -/
def generateVariableLoad :
    VarType declared → Load Value
  | .userDefine name known => (serializer name known).load
  | .primitive type => loadWord type.size
  | .string => do
      let length ← loadLength
      let bytes ← checked length
      pure (.text bytes)
  | .map keyType elmtType => do
      let length ← loadLength
      let entries ← many (do
        let key ← generateVariableLoad keyType
        let elmt ← generateVariableLoad elmtType
        pure (key, elmt)) length
      pure (.map ((order keyType).insertAll [] entries))
  | .list elmtType => do
      let length ← loadLength
      let elmts ← many (generateVariableLoad elmtType) length
      pure (.seq elmts)
  | .array elmtType => do
      let length ← loadLength
      let elmts ← many (generateVariableLoad elmtType) length
      pure (.seq elmts)

/-- GenerateVariableLoad on the type of a field. The copy of a static array of
primitives does not look at nSize. -/
def generateFieldLoad :
    FieldType declared → Load Value
  | .plain type => generateVariableLoad order serializer type
  | .staticArray elmtType elmtCount =>
      match elmtType.primitive? with
      | some type => do
          let bytes ← copy (type.size * elmtCount)
          pure (.seq (words type.size elmtCount bytes))
      | none => do
          let elmts ← counted counterLimit
            (generateVariableLoad order serializer elmtType) elmtCount
          pure (.seq elmts)

/-- The Load statements of the fields of a message, in their order. -/
def loadFields :
    List (FieldType declared) → Load (List Value)
  | [] => pure []
  | field :: fields => do
      let v ← generateFieldLoad order serializer field
      let values ← loadFields fields
      pure (v :: values)

end Generate

/-- The values of the elements of an enum: an element without a number follows
the one before it. -/
def enumValues : Nat → List (Option Nat) → List Nat
  | _, [] => []
  | next, number :: numbers =>
      number.getD next :: enumValues (number.getD next + 1) numbers

/-- The sizeof of the C++ enum: int is widened to long if an element needs it. -/
def enumSize
    (numbers : List (Option Nat)) : Nat :=
  if (enumValues 0 numbers).all (fun n => n < 2 ^ 32) then 4 else 8

/-- The serializer of an enum. -/
def compileEnum
    (numbers : List (Option Nat)) : Serializer where
  store
    | .word n => some (encode (enumSize numbers) n)
    | _ => none
  load := loadWord (enumSize numbers)

section Compile

variable (order : {declared : List String} → VarType declared → Compare)
variable {declared : List String}
variable (serializer : Names declared Serializer)

/-- The serializer of a typedef. -/
def compileTypedef
    (type : VarType declared) : Serializer where
  store := generateVariableStore serializer type
  load := generateVariableLoad order serializer type

/-- The serializer of a message. The parent is stored and loaded first. -/
def compileMessage
    (parent : Option {name : String // name ∈ declared})
    (fields : List (FieldType declared)) : Serializer where
  store
    | .record parentValue values =>
        match parent, parentValue with
        | none, none => storeFields serializer fields values
        | some base, some v => do
            let front ← (serializer base.1 (mem_declared base)).store v
            let back ← storeFields serializer fields values
            some (front ++ back)
        | _, _ => none
    | _ => none
  load :=
    match parent with
    | none => do
        let values ← loadFields order serializer fields
        pure (.record none values)
    | some base => do
        let v ← (serializer base.1 (mem_declared base)).load
        let values ← loadFields order serializer fields
        pure (.record (some v) values)

/-- The serializer of a declaration. -/
def compileDecl : Decl declared → Serializer
  | .enum numbers => compileEnum numbers
  | .typedef type => compileTypedef order serializer type
  | .message parent fields => compileMessage order serializer parent fields

end Compile

/-- The serializers of the names that a file declares. -/
def Environment.serializer
    (order : {declared : List String} → VarType declared → Compare)
    {declared : List String}
    (env : Environment declared) : Names declared Serializer :=
  env.compile (compileDecl order)

/-- The sum of the sizes of the elements of a container. -/
def sizeAll
    {α : Type}
    (size : α → Option Nat) : List α → Option Nat
  | [] => some 0
  | a :: as => do
      let n ← size a
      let m ← sizeAll size as
      some (n + m)

section Size

variable {declared : List String}
variable (sizes : Names declared (Value → Option Nat))

/-- What the statements that GenerateVariableSize emits add to nSize. -/
def generateVariableSize :
    VarType declared → Value → Option Nat
  | .userDefine name known, v => sizes name known v
  | .primitive type, .word _ => some type.size
  | .string, .text bytes => some (4 + bytes.length)
  | .map keyType elmtType, .map entries => do
      let n ← sizeAll (fun entry => do
        let key ← generateVariableSize keyType entry.1
        let elmt ← generateVariableSize elmtType entry.2
        some (key + elmt)) entries
      some (4 + n)
  | .list elmtType, .seq elmts => do
      let n ← sizeAll (generateVariableSize elmtType) elmts
      some (4 + n)
  | .array elmtType, .seq elmts => do
      let n ← sizeAll (generateVariableSize elmtType) elmts
      some (4 + n)
  | _, _ => none

/-- GenerateVariableSize on the type of a field. -/
def generateFieldSize :
    FieldType declared → Value → Option Nat
  | .plain type, v => generateVariableSize sizes type v
  | .staticArray elmtType elmtCount, .seq elmts =>
      match elmtType.primitive? with
      | some type => some (type.size * elmtCount)
      | none =>
          if elmts.length = elmtCount ∧ elmtCount < counterLimit then
            sizeAll (generateVariableSize sizes elmtType) elmts
          else
            none
  | _, _ => none

/-- What the Size statements of the fields of a message add to nSize. -/
def sizeFields :
    List (FieldType declared) → List Value → Option Nat
  | [], [] => some 0
  | field :: fields, v :: values => do
      let n ← generateFieldSize sizes field v
      let m ← sizeFields fields values
      some (n + m)
  | _, _ => none

/-- A sum in an int32_t that is returned as a size_t. -/
def int32Size
    (n : Nat) : Nat :=
  ((n : Int).bmod (2 ^ 32) % 2 ^ 64).toNat

/-- The Size function of a declaration. The sum of a typedef is an int32_t,
that of a message a size_t. -/
def compileDeclSize : Decl declared → Value → Option Nat
  | .enum numbers, .word _ => some (enumSize numbers)
  | .typedef type, v => do
      let n ← generateVariableSize sizes type v
      some (int32Size n)
  | .message none fields, .record none values => do
      let n ← sizeFields sizes fields values
      some (n % 2 ^ 64)
  | .message (some base) fields, .record (some v) values => do
      let n ← sizes base.1 (mem_declared base) v
      let m ← sizeFields sizes fields values
      some ((n + m) % 2 ^ 64)
  | _, _ => none

end Size

/-- The Size functions of the names that a file declares. -/
def Environment.sizes
    {declared : List String}
    (env : Environment declared) : Names declared (Value → Option Nat) :=
  env.compile compileDeclSize

end Idlc
end Gamnet
