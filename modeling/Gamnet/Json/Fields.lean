import Gamnet.Json.Canonical

/-!
# The fields of an object

What a program takes out of an object by a name and a conversion. A conversion gives the same for
a value and for what is read of its text, although an unsigned int may have become an int.
-/

namespace Gamnet
namespace Json

open Reader (parse stackLimit)

namespace Value

/-- Value::minInt -/
def minInt : Int := -((maxInt + 1 : Nat) : Int)

/-- Value::maxUInt -/
def maxUInt : Nat := 2 ^ 32 - 1

/-- operator[] with a name, for an object or null. Otherwise it throws. -/
def get (name : Text) : Value → Option Value
  | .null => some .null
  | .object members => some ((members.lookup name).getD .null)
  | _ => none

/-- asInt, if it does not throw. -/
def asInt : Value → Option Int
  | .int n => if minInt ≤ n.toInt ∧ n.toInt ≤ maxInt then some n.toInt else none
  | .uint n => if n.toNat ≤ maxInt then some n.toNat else none
  | .null => some 0
  | .boolean b => some (if b then 1 else 0)
  | _ => none

/-- asUInt, if it does not throw. -/
def asUInt : Value → Option Nat
  | .int n => if 0 ≤ n.toInt ∧ n.toInt.toNat ≤ maxUInt then some n.toInt.toNat else none
  | .uint n => if n.toNat ≤ maxUInt then some n.toNat else none
  | .null => some 0
  | .boolean b => some (if b then 1 else 0)
  | _ => none

/-- asString, if it does not throw. -/
def asString : Value → Option Text
  | .null => some []
  | .string text => some text
  | .boolean b => some (if b then ['t', 'r', 'u', 'e'] else ['f', 'a', 'l', 's', 'e'])
  | .int n => some (intToString n)
  | .uint n => some (uintToString n.toNat)
  | _ => none

end Value

section Conversions

variable {α : Type}

/-- A number is read as a signed one up to maxInt, and as an unsigned one above. -/
theorem unsigned_cases
    {n : Nat}
    (h : n < 2 ^ 64) :
    (n ≤ Value.maxInt ∧ ∃ m : Int64, unsigned n = .int m ∧ m.toInt = n) ∨
      ∃ m : UInt64, unsigned n = .uint m ∧ m.toNat = n := by
  rcases Nat.lt_or_ge Value.maxInt n with hn | hn
  · refine .inr ⟨UInt64.ofNat n, if_neg (by omega), UInt64.toNat_ofNat_of_lt' h⟩
  · have hmax : n ≤ 2 ^ 31 - 1 := hn
    exact .inl ⟨hn, Int64.ofNat n, if_pos hn, Int64.toInt_ofNat_of_lt (by omega)⟩

/-- A conversion that sees the same number in an int and an unsigned int. -/
structure Converts (as : Value → Option α) : Prop where
  number : ∀ (i : Int64) (u : UInt64), i.toInt = u.toNat → as (.int i) = as (.uint u)
  array : ∀ list list', as (.array list) = as (.array list')
  object : ∀ members members', as (.object members) = as (.object members')

variable {as : Value → Option α}

theorem Converts.unsigned_uint
    (h : Converts as)
    (u : UInt64) :
    as (unsigned u.toNat) = as (.uint u) := by
  rcases unsigned_cases u.toNat_lt with ⟨-, i, heq, hi⟩ | ⟨u', heq, hu⟩
  · rw [heq]
    exact h.number i u hi
  · rw [heq, UInt64.toNat_inj.mp hu]

theorem Converts.unsigned_int
    (h : Converts as)
    {i : Int64}
    (hi : 0 ≤ i) :
    as (unsigned i.toInt.toNat) = as (.int i) := by
  have hge : 0 ≤ i.toInt := @Int64.le_iff_toInt_le 0 i |>.mp hi
  have hlt := i.toInt_lt
  rcases @unsigned_cases i.toInt.toNat (by omega) with ⟨-, i', heq, hi'⟩ | ⟨u, heq, hu⟩
  · have hsame : i'.toInt = i.toInt := by
      omega
    rw [heq, Int64.toInt_inj.mp hsame]
  · rw [heq]
    exact (h.number i u (by omega)).symm

/-- A conversion does not see the difference between a value and what is read back. -/
theorem Converts.readBack
    (h : Converts as)
    (v : Value) :
    as (Json.readBack v) = as v := by
  cases v with
  | int i =>
      rw [Json.readBack]
      split
      · rename_i hi
        exact h.unsigned_int hi
      · rfl
  | uint u => exact h.unsigned_uint u
  | array list => exact h.array _ _
  | object members => exact h.object _ _
  | _ => rfl

theorem converts_asInt :
    Converts Value.asInt where
  number i u h := by
    have hmin : Value.minInt ≤ (u.toNat : Int) :=
      Int.le_trans (by decide) (Int.natCast_nonneg _)
    simp only [Value.asInt, h, hmin, true_and, Int.ofNat_le]
  array _ _ := rfl
  object _ _ := rfl

theorem converts_asUInt :
    Converts Value.asUInt where
  number i u h := by
    simp only [Value.asUInt, h, Int.natCast_nonneg, true_and, Int.toNat_natCast]
  array _ _ := rfl
  object _ _ := rfl

theorem converts_asString :
    Converts Value.asString where
  number i u h := by
    have hi : ¬ i < 0 := by
      rw [Int64.lt_iff_toInt_lt, h]
      exact not_lt.mpr (Int.natCast_nonneg _)
    have hmin : i ≠ Int64.minValue := by
      rintro rfl
      exact hi (by decide)
    simp only [Value.asString, intToString, if_neg hmin, if_neg hi, h, Int.toNat_natCast]
  array _ _ := rfl
  object _ _ := rfl

end Conversions

section Fields

variable {α : Type} {as : Value → Option α} {members : Members}

/-- The values of a map are changed under their names. -/
theorem lookup_map
    (f : Value → Value) (members : Members) (name : Text) :
    (members.map fun m => (m.1, f m.2)).lookup name = (members.lookup name).map f := by
  induction members with
  | nil => rfl
  | cons m members ih =>
      rw [List.map_cons, OrderedMap.lookup_cons, OrderedMap.lookup_cons, ih]
      split <;> rfl

/-- A field that is converted is the same in the object that is read back. -/
theorem Converts.get_readBack
    (h : Converts as)
    (hordered : OrderedMap.Ordered members)
    (hname : ∀ m ∈ members, '\x00' ∉ m.1)
    (name : Text) :
    ((Json.readBack (.object members)).get name).bind as =
      ((Value.object members).get name).bind as := by
  rw [Json.readBack, readBackMembers_eq, insertAll_readBackMember hordered hname]
  show as (((members.map fun m => (m.1, Json.readBack m.2)).lookup name).getD .null) =
    as ((members.lookup name).getD .null)
  rw [lookup_map]
  cases members.lookup name with
  | none => rfl
  | some v => exact h.readBack v

/-- Of the text of an object the same fields are read that were written. -/
theorem fields_of_write
    (hordered : OrderedMap.Ordered members)
    (hname : ∀ m ∈ members, '\x00' ∉ m.1)
    (hdepth : (Value.object members).depth ≤ stackLimit)
    (spare : Text) :
    ∃ v, parse (StyledWriter.write (.object members)) spare = .ok v ∧
      ∀ {α : Type} {as : Value → Option α}, Converts as → ∀ name,
        (v.get name).bind as = ((Value.object members).get name).bind as := by
  refine ⟨_, ?_, fun has name => has.get_readBack hordered hname name⟩
  rw [parse_write, if_pos hdepth]

end Fields

end Json
end Gamnet
