import Gamnet.Lib.LittleEndian
import Gamnet.Lib.Reader
import Gamnet.Lib.Utf16
import Gamnet.Idlc.Token

/-!
# The C# serializers that idlc generates

The C# generator walks over the same tokens as the C++ generator. Its Store
writes to a MemoryStream, its Load reads from the position of one, and an
exception in either ends in a result of false. A Load is a reader whose cursor
is the position of the stream and whose count is the rest of its length.
-/

namespace Gamnet
namespace Idlc
namespace CSharp

open LittleEndian Reader

/-- An object of a generated C# type: the bits of a scalar, a string or null,
a list or an array, the entries of a dictionary in the order of enumeration,
or the fields of a message behind those of its base class. -/
inductive Object where
  | word (n : Nat)
  | text (units : Option (List UInt16))
  | seq (elmts : List Object)
  | map (entries : List (Object × Object))
  | record (base : Option Object) (fields : List Object)

/-- What the generated code uses of its runtime: the comparison of dictionary
keys, and the string that GetString makes of bytes that are not UTF-8. -/
structure Runtime where
  equal : {declared : List String} → VarType declared → Object → Object → Bool
  replaced : List UInt8 → List UInt16
  sound : ∀ {declared : List String} (type : VarType declared) (a b : Object),
    equal type a b = true → a = b

/-- Encoding.UTF8.GetBytes -/
def getBytes
    (units : List UInt16) : List UInt8 :=
  Utf16.utf8 (Utf16.decode units)

/-- Encoding.UTF8.GetString -/
def Runtime.getString
    (runtime : Runtime)
    (bytes : List UInt8) : List UInt16 :=
  match Utf16.ofUtf8 bytes with
  | some chars => Utf16.encode chars
  | none => runtime.replaced bytes

/-- The indexer of a dictionary: the element of a present key is replaced. -/
def setItem
    (equal : Object → Object → Bool)
    (entry : Object × Object) : List (Object × Object) → List (Object × Object)
  | [] => [entry]
  | other :: entries =>
      if equal other.1 entry.1 then
        (other.1, entry.2) :: entries
      else
        other :: setItem equal entry entries

/-- Set entries one after the other. -/
def setItems
    (equal : Object → Object → Bool)
    (map entries : List (Object × Object)) : List (Object × Object) :=
  entries.foldl (fun map entry => setItem equal entry map) map

/-- What a Store wrote before it returned, and what it returned. -/
structure Written where
  bytes : List UInt8
  ok : Bool

/-- Go on if the statements before have not failed. -/
def Written.andThen
    (front back : Written) : Written :=
  if front.ok then
    { bytes := front.bytes ++ back.bytes, ok := back.ok }
  else
    front

/-- Bytes that are written without fail. -/
def write
    (bytes : List UInt8) : Written :=
  { bytes := bytes, ok := true }

/-- An exception, or a return of false. -/
def giveUp : Written :=
  { bytes := [], ok := false }

/-- The static functions of a generated serializer. -/
structure Serializer where
  store : Object → Written
  load : Load Object
  size : Object → Int

/-- Store the elements of a container one behind the other. -/
def storeAll
    {α : Type}
    (store : α → Written) : List α → Written
  | [] => write []
  | a :: as => (store a).andThen (storeAll store as)

/-- The sum of the sizes of the elements of a container. An exception in one of
them has no sum. -/
def sizeAll
    {α : Type}
    (size : α → Option Int) : List α → Option Int
  | [] => some 0
  | a :: as => do
      let n ← size a
      let m ← sizeAll size as
      some (n + m)

/-- A sum in an int. -/
def toInt32
    (n : Int) : Int :=
  n.bmod (2 ^ 32)

/-- BitConverter.ToInt32 behind a check of the length that is left. -/
def loadLength : Load Int := do
  let bytes ← checked 4
  pure (toInt32 (decode bytes))

section Generate

variable (runtime : Runtime)
variable {declared : List String}
variable (serializer : Names declared Serializer)

/-- The statements that GenerateVariableStore emits. BitConverter.GetBytes
takes a byte as a short, of which the low byte is written. -/
def generateVariableStore :
    VarType declared → Object → Written
  | .userDefine name known, o => (serializer name known).store o
  | .primitive type, .word n => write (encode type.size n)
  | .string, .text (some units) =>
      write (encode 4 (getBytes units).length ++ getBytes units)
  | .string, .text none => write (encode 4 0)
  | .map keyType elmtType, .map entries =>
      (write (encode 4 entries.length)).andThen
        (storeAll (fun entry =>
          (generateVariableStore keyType entry.1).andThen
            (generateVariableStore elmtType entry.2)) entries)
  | .list elmtType, .seq elmts =>
      (write (encode 4 elmts.length)).andThen
        (storeAll (generateVariableStore elmtType) elmts)
  | .array elmtType, .seq elmts =>
      (write (encode 4 elmts.length)).andThen
        (storeAll (generateVariableStore elmtType) elmts)
  | _, _ => giveUp

/-- GenerateVariableStore on the type of a field. The loop over a static array
throws at the end of a shorter array. -/
def generateFieldStore :
    FieldType declared → Object → Written
  | .plain type, o => generateVariableStore serializer type o
  | .staticArray elmtType elmtCount, .seq elmts =>
      (storeAll (generateVariableStore serializer elmtType) (elmts.take elmtCount)).andThen
        (if elmts.length < elmtCount then giveUp else write [])
  | _, _ => giveUp

/-- The Store statements of the fields of a message, in their order. -/
def storeFields :
    List (FieldType declared) → List Object → Written
  | [], [] => write []
  | field :: fields, o :: objects =>
      (generateFieldStore serializer field o).andThen (storeFields fields objects)
  | _, _ => giveUp

/-- The statements that GenerateVariableLoad emits. The lengths are signed: a
loop up to a negative length is not entered, and an array of a negative length
cannot be created. -/
def generateVariableLoad :
    VarType declared → Load Object
  | .userDefine name known => (serializer name known).load
  | .primitive .boolean => do
      let bytes ← checked PrimitiveType.boolean.size
      pure (.word (if decode bytes = 0 then 0 else 1))
  | .primitive type => do
      let bytes ← checked type.size
      pure (.word (decode bytes))
  | .string => do
      let length ← loadLength
      if length < 0 then
        fail
      else do
        let bytes ← checked length.toNat
        pure (.text (some (runtime.getString bytes)))
  | .map keyType elmtType => do
      let length ← loadLength
      let entries ← many (do
        let key ← generateVariableLoad keyType
        let elmt ← generateVariableLoad elmtType
        pure (key, elmt)) length.toNat
      pure (.map (setItems (runtime.equal keyType) [] entries))
  | .list elmtType => do
      let length ← loadLength
      let elmts ← many (generateVariableLoad elmtType) length.toNat
      pure (.seq elmts)
  | .array elmtType => do
      let length ← loadLength
      let elmts ← many (generateVariableLoad elmtType) length.toNat
      pure (.seq elmts)

/-- GenerateVariableLoad on the type of a field. The array was created with
its number of elements, which an int can count. -/
def generateFieldLoad :
    FieldType declared → Load Object
  | .plain type => generateVariableLoad runtime serializer type
  | .staticArray elmtType elmtCount => do
      let elmts ← many (generateVariableLoad runtime serializer elmtType) elmtCount
      pure (.seq elmts)

/-- The Load statements of the fields of a message, in their order. -/
def loadFields :
    List (FieldType declared) → Load (List Object)
  | [] => pure []
  | field :: fields => do
      let o ← generateFieldLoad runtime serializer field
      let objects ← loadFields fields
      pure (o :: objects)

/-- What the statements that GenerateVariableSize emits add to nSize. -/
def generateVariableSize :
    VarType declared → Object → Option Int
  | .userDefine name known, o => some ((serializer name known).size o)
  | .primitive type, .word _ => some type.size
  | .string, .text (some units) => some (4 + (getBytes units).length)
  | .string, .text none => some 4
  | .map keyType elmtType, .map entries => do
      let n ← sizeAll (fun entry => do
        let key ← generateVariableSize keyType entry.1
        let elmt ← generateVariableSize elmtType entry.2
        some (key + elmt)) entries
      some (4 + n)
  | .list elmtType, .seq elmts => do
      let n ← sizeAll (generateVariableSize elmtType) elmts
      some (4 + n)
  | .array elmtType, .seq elmts => do
      let n ← sizeAll (generateVariableSize elmtType) elmts
      some (4 + n)
  | _, _ => none

/-- GenerateVariableSize on the type of a field. -/
def generateFieldSize :
    FieldType declared → Object → Option Int
  | .plain type, o => generateVariableSize serializer type o
  | .staticArray elmtType elmtCount, .seq elmts =>
      match elmtType.primitive? with
      | some type => some (type.size * elmtCount)
      | none =>
          if elmts.length < elmtCount then
            none
          else
            sizeAll (generateVariableSize serializer elmtType) (elmts.take elmtCount)
  | _, _ => none

/-- What the Size statements of the fields of a message add to nSize. -/
def sizeFields :
    List (FieldType declared) → List Object → Option Int
  | [], [] => some 0
  | field :: fields, o :: objects => do
      let n ← generateFieldSize serializer field o
      let m ← sizeFields fields objects
      some (n + m)
  | _, _ => none

end Generate

/-- A Size function: the sum is kept in an int, and an exception gives -1. -/
def returnSize
    (nSize : Option Int) : Int :=
  match nSize with
  | some n => toInt32 n
  | none => -1

/-- The serializer of an enum, the size of which is that of an int. -/
def compileEnum : Serializer where
  store
    | .word n => write (encode 4 n)
    | _ => giveUp
  load := do
    let bytes ← checked 4
    pure (.word (decode bytes))
  size _ := 4

section Compile

variable (runtime : Runtime)
variable {declared : List String}
variable (serializer : Names declared Serializer)

/-- The serializer of a typedef. -/
def compileTypedef
    (type : VarType declared) : Serializer where
  store := generateVariableStore serializer type
  load := generateVariableLoad runtime serializer type
  size o := returnSize (generateVariableSize serializer type o)

/-- The Store of a message. What the Store of its base class returns is not
looked at. -/
def storeMessage
    (parent : Option {name : String // name ∈ declared})
    (fields : List (FieldType declared)) : Object → Written
  | .record base objects =>
      match parent, base with
      | none, none => storeFields serializer fields objects
      | some parent, some o =>
          (write ((serializer parent.1 (mem_declared parent)).store o).bytes).andThen
            (storeFields serializer fields objects)
      | _, _ => giveUp
  | _ => giveUp

/-- The Load of a message. -/
def loadMessage
    (parent : Option {name : String // name ∈ declared})
    (fields : List (FieldType declared)) : Load Object :=
  match parent with
  | none => do
      let objects ← loadFields runtime serializer fields
      pure (.record none objects)
  | some parent => do
      let o ← (serializer parent.1 (mem_declared parent)).load
      let objects ← loadFields runtime serializer fields
      pure (.record (some o) objects)

/-- The Size of a message. -/
def sizeMessage
    (parent : Option {name : String // name ∈ declared})
    (fields : List (FieldType declared)) : Object → Option Int
  | .record base objects =>
      match parent, base with
      | none, none => sizeFields serializer fields objects
      | some parent, some o => do
          let n ← sizeFields serializer fields objects
          some ((serializer parent.1 (mem_declared parent)).size o + n)
      | _, _ => none
  | _ => none

/-- The serializer of a declaration. -/
def compileDecl : Decl declared → Serializer
  | .enum _ => compileEnum
  | .typedef type => compileTypedef runtime serializer type
  | .message parent fields =>
      { store := storeMessage serializer parent fields
        load := loadMessage runtime serializer parent fields
        size := fun o => returnSize (sizeMessage serializer parent fields o) }

end Compile

end CSharp

/-- The C# serializers of the names that a file declares. -/
def Environment.csharp
    (runtime : CSharp.Runtime)
    {declared : List String}
    (env : Environment declared) : Names declared CSharp.Serializer :=
  env.compile (CSharp.compileDecl runtime)

end Idlc
end Gamnet
