import Gamnet.Idlc.RoundTrip
import Gamnet.Router.RouterHandler

/-!
# The messages between routers

MsgRouter.idl as declarations of the interface language, and the values of its
messages. What a router sends is the generated Store of such a value, and what
a handler reads is the generated Load.
-/

namespace Gamnet
namespace Router

open LittleEndian Idlc Reader

/-- The names that MsgRouter.idl declares, the last one first. -/
abbrev msgRouterNames : List String :=
  ["MsgRouter_HeartBeat_Ntf", "MsgRouter_SendMsg_Ntf", "MsgRouter_SetAddress_Ntf",
    "MsgRouter_SetAddress_Ans", "MsgRouter_SetAddress_Req", "Address",
    "ROUTER_CAST_TYPE"]

theorem setAddressReq_declared :
    "MsgRouter_SetAddress_Req" ∈ msgRouterNames := by
  simp

theorem setAddressAns_declared :
    "MsgRouter_SetAddress_Ans" ∈ msgRouterNames := by
  simp

theorem setAddressNtf_declared :
    "MsgRouter_SetAddress_Ntf" ∈ msgRouterNames := by
  simp

theorem sendMsgNtf_declared :
    "MsgRouter_SendMsg_Ntf" ∈ msgRouterNames := by
  simp

/-- The declarations of the types in the messages. -/
def addressTypes : Environment ["Address", "ROUTER_CAST_TYPE"] :=
  .declare
    (.declare .empty "ROUTER_CAST_TYPE" (.enum [none, none, none, none]))
    "Address"
    (.message none
      [.plain .string, .plain (.userDefine "ROUTER_CAST_TYPE" (by simp)),
        .plain (.primitive .uint32), .plain (.primitive .uint64)])

/-- MsgRouter.idl. -/
def msgRouter : Environment msgRouterNames :=
  .declare
    (.declare
      (.declare
        (.declare
          (.declare addressTypes
            "MsgRouter_SetAddress_Req"
            (.message none [.plain (.userDefine "Address" (by simp))]))
          "MsgRouter_SetAddress_Ans"
          (.message none
            [.plain (.primitive .int32), .plain (.userDefine "Address" (by simp))]))
        "MsgRouter_SetAddress_Ntf"
        (.message none []))
      "MsgRouter_SendMsg_Ntf"
      (.message none [.plain (.primitive .uint32), .plain .string]))
    "MsgRouter_HeartBeat_Ntf"
    (.message none [])

/-- No type of the messages is the key of a map. -/
def noOrder {declared : List String} (_ : VarType declared) : Compare where
  less _ _ := false
  asymm := by
    intro a b h
    cases h

/-- The serializer of a message of MsgRouter.idl. -/
def msgSerializer (name : String) (known : name ∈ msgRouterNames) : Serializer :=
  msgRouter.serializer noOrder name known

/-- The MSG_ID of the messages. -/
def msgIdSetAddressReq : Nat := 1

def msgIdSetAddressAns : Nat := 2

def msgIdSetAddressNtf : Nat := 3

def msgIdSendMsgNtf : Nat := 4

def msgIdHeartBeatNtf : Nat := 5

/-- A signed 32-bit number in a word. -/
def wordOfInt (n : Int) : Nat :=
  (n % 2 ^ 32).toNat

/-- The signed 32-bit number in a word. -/
def intOfWord (n : Nat) : Int :=
  (n : Int).bmod (2 ^ 32)

/-- An address as a value of its type. -/
def Address.value (a : Address) : Value :=
  .record none
    [.text a.serviceName, .word (wordOfInt a.castType), .word a.id, .word a.msgSeq]

/-- The address that a value of its type stands for. -/
def Address.ofValue : Value → Option Address
  | .record none [.text serviceName, .word castType, .word id, .word msgSeq] =>
      some { serviceName := serviceName, castType := intOfWord castType, id := id,
             msgSeq := msgSeq }
  | _ => none

/-- What a Load leaves behind, if it returned true. -/
def loaded {α : Type} : Outcome α → Option α
  | .returns a _ => some a
  | .fails _ => none
  | .overflows _ => none

/-- The fields of a SetAddress_Req. -/
def addressOfReq : Value → Option Address
  | .record none [address] => Address.ofValue address
  | _ => none

/-- The fields of a SetAddress_Ans. -/
def addressOfAns : Value → Option (Int × Address)
  | .record none [.word errorCode, address] =>
      (Address.ofValue address).map fun a => (intOfWord errorCode, a)
  | _ => none

/-- The fields of a SendMsg_Ntf. -/
def fieldsOfNtf : Value → Option (Nat × List UInt8)
  | .record none [.word msgSeq, .text buffer] => some (msgSeq, buffer)
  | _ => none

/-- The value of a SendMsg_Ntf. -/
def ntfValue (msgSeq : Nat) (buffer : List UInt8) : Value :=
  .record none [.word msgSeq, .text buffer]

theorem ntf_store
    (msgSeq : Nat)
    (buffer : List UInt8) :
    (msgSerializer "MsgRouter_SendMsg_Ntf" sendMsgNtf_declared).store (ntfValue msgSeq buffer) =
      some (encode 4 msgSeq ++ (encode 4 buffer.length ++ buffer)) := by
  simp [msgSerializer, msgRouter, Environment.serializer, Environment.compile, compileDecl,
    compileMessage, ntfValue, storeFields, generateFieldStore, generateVariableStore,
    PrimitiveType.size]

/-- Load reads what Store wrote for a SendMsg_Ntf. -/
theorem ntf_reads
    {msgSeq : Nat}
    {buffer : List UInt8}
    (hseq : msgSeq < 2 ^ 32)
    (hlen : buffer.length < 2 ^ 32) :
    Reads (msgSerializer "MsgRouter_SendMsg_Ntf" sendMsgNtf_declared).load (ntfValue msgSeq buffer)
      (encode 4 msgSeq ++ (encode 4 buffer.length ++ buffer)) := by
  refine reads_of_store noOrder ?_ (ntf_store msgSeq buffer)
  simpa [msgRouter, Environment.contents, Environment.compile, Decl.contents, ntfValue,
    FieldType.contents, VarType.contents, Contents.word, Contents.text,
    PrimitiveType.capacity, PrimitiveType.size] using ⟨hseq, hlen⟩

end Router
end Gamnet
