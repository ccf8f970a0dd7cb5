import Gamnet.Lib.OrderedMap
import Mathlib.Algebra.GroupWithZero.Nat
import Mathlib.Data.Char
import Mathlib.Data.List.Lex

/-!
# JSON values

The values of the JSON library that the network layer uses for its own messages, without the
doubles, which no message has. The members of an object are a map: in the list they are in the
order of their names.
-/

namespace Gamnet
namespace Json

abbrev Text : Type := List Char

/-- Json::Value, without realValue, comments and offsets. -/
inductive Value
  | null
  | int (n : Int64)
  | uint (n : UInt64)
  | string (text : Text)
  | boolean (b : Bool)
  | array (list : List Value)
  | object (members : List (Text × Value))

abbrev Members : Type := List (Text × Value)

namespace Value

/-- Value::maxInt -/
def maxInt : Nat := 2 ^ 31 - 1

/-- Value::maxLargestInt -/
def maxLargestInt : Nat := 2 ^ 63 - 1

/-- Value::maxLargestUInt -/
def maxLargestUInt : Nat := 2 ^ 64 - 1

/-- resolveReference, with an assignment to what it returns. -/
def insert (name : Text) (value : Value) (members : Members) : Members :=
  OrderedMap.insert (name, value) members

mutual

/-- How deep the value is nested. -/
def depth : Value → Nat
  | .array list => depths list + 1
  | .object members => memberDepths members + 1
  | _ => 1

def depths : List Value → Nat
  | [] => 0
  | v :: list => max v.depth (depths list)

def memberDepths : Members → Nat
  | [] => 0
  | m :: members => max (memberDepth m) (memberDepths members)

def memberDepth : Text × Value → Nat
  | (_, v) => v.depth

end

/-- Induction on a value, for all elements and members at once. -/
theorem induction
    {P : Value → Prop}
    (hnull : P .null)
    (hint : ∀ n, P (.int n))
    (huint : ∀ n, P (.uint n))
    (hstring : ∀ text, P (.string text))
    (hboolean : ∀ b, P (.boolean b))
    (harray : ∀ list, (∀ v ∈ list, P v) → P (.array list))
    (hobject : ∀ members : Members, (∀ m ∈ members, P m.2) → P (.object members))
    (v : Value) :
    P v := by
  refine @Value.rec P (fun list => ∀ v ∈ list, P v) (fun members => ∀ m ∈ members, P m.2)
    (fun m => P m.2) hnull hint huint hstring hboolean harray hobject ?_ ?_ ?_ ?_ ?_ v
  · exact fun v hv => absurd hv List.not_mem_nil
  · exact fun v list hv hlist => List.forall_mem_cons.mpr ⟨hv, hlist⟩
  · exact fun m hm => absurd hm List.not_mem_nil
  · exact fun m members hm hmembers => List.forall_mem_cons.mpr ⟨hm, hmembers⟩
  · exact fun name v hv => hv

end Value

end Json
end Gamnet
