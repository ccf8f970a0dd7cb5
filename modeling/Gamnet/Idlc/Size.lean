import Gamnet.Idlc.GenerateRuleCpp
import Gamnet.Idlc.GenerateRuleCSharp
import Gamnet.Idlc.RoundTrip

/-!
# The generated Size functions

The number that Size returns is the number of bytes that Store writes, in the
output of both generators, as long as that number fits the signed 32-bit sums
of the Size functions. The buffers of the C++ side are resized by Size and
then written without a check.
-/

namespace Gamnet
namespace Idlc

open LittleEndian

/-- A sum and the number of bytes that it stands for: the low 32 bits are the
same, and the sum is the number if a signed 32-bit integer holds it. -/
def Sums
    (n len : Nat) : Prop :=
  n % 2 ^ 32 = len % 2 ^ 32 ∧ (len < 2 ^ 31 → n = len)

/-- A sum and the number of bytes that it stands for. Counting a part of these bytes in
an int32_t takes multiples of 2^32 from the sum, of a part of 2^31 bytes or more; if all
such parts are small, nothing is taken. -/
def Counted
    (n len : Nat)
    (small : Prop) : Prop :=
  ∃ lost, (n + 2 ^ 32 * lost) % 2 ^ 64 = len % 2 ^ 64 ∧ 2 ^ 32 * lost ≤ 2 * len ∧
    (lost = 0 ↔ small)

theorem counted_self
    {small : Prop}
    (n : Nat)
    (hsmall : small) :
    Counted n n small :=
  ⟨0, rfl, Nat.zero_le _, fun _ => hsmall, fun _ => rfl⟩

/-- The numbers of bytes add up, as long as each sum fits. -/
theorem counted_add
    {n m k l : Nat} {p q : Prop}
    (hn : Counted n k p)
    (hm : Counted m l q) :
    Counted (n + m) (k + l) (p ∧ q) := by
  rcases hn with ⟨a, hn, hle, hp⟩
  rcases hm with ⟨b, hm, hle', hq⟩
  refine ⟨a + b, by omega, by omega, ?_⟩
  rw [← hp, ← hq]
  omega

/-- A size_t keeps what a sum stands for. -/
theorem counted_word
    {n len : Nat} {small : Prop}
    (hn : Counted n len small) :
    Counted (n % 2 ^ 64) len small := by
  rcases hn with ⟨lost, hn, hle, hsmall⟩
  exact ⟨lost, by omega, hle, hsmall⟩

theorem Counted.congr
    {n len : Nat} {p q : Prop}
    (hn : Counted n len p)
    (hpq : p ↔ q) :
    Counted n len q := by
  rcases hn with ⟨lost, hn, hle, hsmall⟩
  exact ⟨lost, hn, hle, hsmall.trans hpq⟩

/-- The low 32 bits of a sum are not lost, and nothing is lost of a short one. -/
theorem Counted.sums
    {n len : Nat} {small : Prop}
    (hn : Counted n len small)
    (hword : n < 2 ^ 64) :
    Sums n len := by
  rcases hn with ⟨lost, hn, hle, -⟩
  constructor
  · omega
  · intro hlen
    have hzero : lost = 0 := by omega
    rw [hzero] at hn
    omega

/-- Size returns the number of bytes that Store writes. -/
def Measures
    {α : Type}
    (store : α → Option (List UInt8))
    (size : α → Option Nat)
    (a : α) : Prop :=
  ∀ bytes, store a = some bytes → ∃ n, size a = some n ∧ Sums n bytes.length

/-- Size counts the bytes that Store writes. -/
def Counts
    {α : Type}
    (store : α → Option (List UInt8))
    (size : α → Option Nat)
    (small : α → Prop)
    (a : α) : Prop :=
  ∀ bytes, store a = some bytes → ∃ n, size a = some n ∧ Counted n bytes.length (small a)

theorem storeAll_cons_eq_some
    {α : Type}
    {store : α → Option (List UInt8)}
    {a : α} {as : List α}
    {bytes : List UInt8}
    (h : storeAll store (a :: as) = some bytes) :
    ∃ front back, store a = some front ∧ storeAll store as = some back ∧
      bytes = front ++ back := by
  simp only [storeAll, Option.bind_eq_bind, Option.bind_eq_some_iff] at h
  rcases h with ⟨front, hfront, back, hback, hbytes⟩
  exact ⟨front, back, hfront, hback, (Option.some.inj hbytes).symm⟩

/-- The sizes of the elements add up. -/
theorem counts_all
    {α : Type}
    {store : α → Option (List UInt8)}
    {size : α → Option Nat}
    {small : α → Prop}
    {as : List α}
    (has : ∀ a ∈ as, Counts store size small a) :
    Counts (storeAll store) (sizeAll size) (fun as => ∀ a ∈ as, small a) as := by
  induction as with
  | nil =>
      intro bytes hbytes
      cases hbytes
      exact ⟨0, rfl, counted_self 0 (by simp)⟩
  | cons a as ih =>
      intro bytes hbytes
      rcases storeAll_cons_eq_some hbytes with ⟨front, back, hfront, hback, rfl⟩
      rcases has a (by simp) front hfront with ⟨n, hn, hnsum⟩
      rcases ih (fun b hb => has b (by simp [hb])) back hback with ⟨m, hm, hmsum⟩
      refine ⟨n + m, by simp [sizeAll, hn, hm], ?_⟩
      rw [List.length_append]
      exact (counted_add hnsum hmsum).congr (List.forall_mem_cons).symm

theorem counts_entry
    {α β : Type}
    {storeKey : α → Option (List UInt8)} {storeElmt : β → Option (List UInt8)}
    {sizeKey : α → Option Nat} {sizeElmt : β → Option Nat}
    {smallKey : α → Prop} {smallElmt : β → Prop}
    {entry : α × β}
    (hkey : Counts storeKey sizeKey smallKey entry.1)
    (helmt : Counts storeElmt sizeElmt smallElmt entry.2) :
    Counts
      (fun entry : α × β => do
        let key ← storeKey entry.1
        let elmt ← storeElmt entry.2
        some (key ++ elmt))
      (fun entry : α × β => do
        let key ← sizeKey entry.1
        let elmt ← sizeElmt entry.2
        some (key + elmt))
      (fun entry => smallKey entry.1 ∧ smallElmt entry.2)
      entry := by
  intro bytes hbytes
  simp only [Option.bind_eq_bind, Option.bind_eq_some_iff] at hbytes
  rcases hbytes with ⟨front, hfront, back, hback, hbytes⟩
  cases hbytes
  rcases hkey front hfront with ⟨n, hn, hnsum⟩
  rcases helmt back hback with ⟨m, hm, hmsum⟩
  refine ⟨n + m, by simp [hn, hm], ?_⟩
  rw [List.length_append]
  exact counted_add hnsum hmsum

/-- The length in front of a container is four bytes. -/
theorem counts_prefixed
    {α : Type}
    {store : α → Option (List UInt8)}
    {size : α → Option Nat}
    {small : α → Prop}
    {as : List α}
    (has : ∀ a ∈ as, Counts store size small a) :
    Counts
      (fun as => do
        let bytes ← storeAll store as
        some (encode 4 as.length ++ bytes))
      (fun as => do
        let n ← sizeAll size as
        some (4 + n))
      (fun as => ∀ a ∈ as, small a)
      as := by
  intro bytes hbytes
  simp only [Option.bind_eq_bind, Option.bind_eq_some_iff] at hbytes
  rcases hbytes with ⟨inner, hinner, hbytes⟩
  cases hbytes
  rcases counts_all has inner hinner with ⟨n, hn, hnsum⟩
  refine ⟨4 + n, by simp [hn], ?_⟩
  rw [List.length_append, encode_length]
  exact (counted_add (counted_self 4 trivial) hnsum).congr ⟨And.right, And.intro trivial⟩

section Small

variable {declared : List String}
variable (serializer : Names declared Serializer)
variable (small : Names declared (Value → Prop))

/-- Every part of a variable that a typedef counts takes less than 2^31 bytes. -/
def VarType.isSmall : VarType declared → Value → Prop
  | .userDefine name known, v => small name known v
  | .list elmtType, .seq elmts => ∀ v ∈ elmts, elmtType.isSmall v
  | .array elmtType, .seq elmts => ∀ v ∈ elmts, elmtType.isSmall v
  | .map keyType elmtType, .map entries =>
      ∀ entry ∈ entries, keyType.isSmall entry.1 ∧ elmtType.isSmall entry.2
  | _, _ => True

def FieldType.isSmall : FieldType declared → Value → Prop
  | .plain type, v => type.isSmall small v
  | .staticArray elmtType _, .seq elmts => ∀ v ∈ elmts, elmtType.isSmall small v
  | _, _ => True

def smallFields : List (FieldType declared) → List Value → Prop
  | field :: fields, v :: values => field.isSmall small v ∧ smallFields fields values
  | _, _ => True

/-- The same for an object of a declared type. The Size of a typedef counts in an
int32_t. -/
def Decl.isSmall : Decl declared → Value → Prop
  | .enum _, _ => True
  | .typedef type, v => type.isSmall small v ∧
      ∀ bytes, generateVariableStore serializer type v = some bytes → bytes.length < 2 ^ 31
  | .message none fields, .record none values => smallFields small fields values
  | .message (some base) fields, .record (some v) values =>
      small base.1 (mem_declared base) v ∧ smallFields small fields values
  | _, _ => True

end Small

/-- A serializer with the objects that Size counts exactly. -/
structure Measured extends Serializer where
  small : Value → Prop

/-- The objects of a declaration that Size counts exactly. -/
def compileMeasured
    (order : {declared : List String} → VarType declared → Compare)
    {declared : List String}
    (names : Names declared Measured)
    (decl : Decl declared) : Measured where
  toSerializer := compileDecl order (fun name known => (names name known).toSerializer) decl
  small := decl.isSmall (fun name known => (names name known).toSerializer)
    fun name known => (names name known).small

/-- The objects of the names of a file that Size counts exactly. -/
def Environment.measured
    (order : {declared : List String} → VarType declared → Compare)
    {declared : List String}
    (env : Environment declared) : Names declared Measured :=
  env.compile (compileMeasured order)

section Cpp

variable {declared : List String}
variable {serializer : Names declared Serializer}
variable {sizes : Names declared (Value → Option Nat)}
variable {small : Names declared (Value → Prop)}

/-- Size counts the bytes that Store writes for a type. -/
theorem counts_varType
    (hnames : ∀ name known v,
      Counts (serializer name known).store (sizes name known) (small name known) v)
    (type : VarType declared)
    (v : Value) :
    Counts (generateVariableStore serializer type) (generateVariableSize sizes type)
      (type.isSmall small) v := by
  induction type generalizing v with
  | primitive type =>
      intro bytes hbytes
      cases v with
      | word n =>
          cases hbytes
          rw [encode_length]
          exact ⟨type.size, rfl, counted_self _ trivial⟩
      | _ =>
          cases hbytes
  | string =>
      intro bytes hbytes
      cases v with
      | text s =>
          cases hbytes
          rw [List.length_append, encode_length]
          exact ⟨4 + s.length, rfl, counted_self _ trivial⟩
      | _ =>
          cases hbytes
  | userDefine name known =>
      exact hnames name known v
  | list elmtType ih =>
      cases v with
      | seq elmts =>
          exact counts_prefixed fun v _ => ih v
      | _ =>
          intro bytes hbytes
          cases hbytes
  | array elmtType ih =>
      cases v with
      | seq elmts =>
          exact counts_prefixed fun v _ => ih v
      | _ =>
          intro bytes hbytes
          cases hbytes
  | map keyType elmtType ihkey ihelmt =>
      cases v with
      | map entries =>
          exact counts_prefixed fun entry _ =>
            counts_entry (ihkey entry.1) (ihelmt entry.2)
      | _ =>
          intro bytes hbytes
          cases hbytes

/-- An array of scalars is as long as the scalars together. -/
theorem storeAll_primitive_length
    {type : PrimitiveType}
    {elmts : List Value}
    {bytes : List UInt8}
    (h : storeAll (generateVariableStore serializer (.primitive type)) elmts = some bytes) :
    bytes.length = type.size * elmts.length := by
  induction elmts generalizing bytes with
  | nil =>
      cases h
      rfl
  | cons v elmts ih =>
      rcases storeAll_cons_eq_some h with ⟨front, back, hfront, hback, rfl⟩
      have hlen : front.length = type.size := by
        cases v with
        | word n =>
            cases hfront
            simp
        | _ =>
            cases hfront
      rw [List.length_append, hlen, ih hback, List.length_cons, Nat.mul_succ, Nat.add_comm]

/-- An array of scalars has no part that a typedef counts. -/
theorem small_primitive
    {elmtType : VarType declared} {type : PrimitiveType}
    (hprim : elmtType.primitive? = some type)
    (elmts : List Value) :
    ∀ v ∈ elmts, elmtType.isSmall small v := by
  intro v _
  rw [eq_primitive hprim]
  trivial

theorem counts_field
    (hnames : ∀ name known v,
      Counts (serializer name known).store (sizes name known) (small name known) v)
    (field : FieldType declared)
    (v : Value) :
    Counts (generateFieldStore serializer field) (generateFieldSize sizes field)
      (field.isSmall small) v := by
  cases field with
  | plain type =>
      exact counts_varType hnames type v
  | staticArray elmtType elmtCount =>
      cases v with
      | seq elmts =>
          intro bytes hbytes
          by_cases hcount : elmts.length = elmtCount
          · simp only [generateFieldStore, if_pos hcount] at hbytes
            cases hprim : elmtType.primitive? with
            | some type =>
                rw [hprim, eq_primitive hprim] at hbytes
                have hbytesLen := storeAll_primitive_length hbytes
                rw [hbytesLen, hcount]
                exact ⟨type.size * elmtCount, by simp [generateFieldSize, hprim],
                  counted_self _ (small_primitive hprim elmts)⟩
            | none =>
                rw [hprim] at hbytes
                by_cases hlimit : elmtCount < counterLimit
                · simp only [if_pos hlimit] at hbytes
                  rcases counts_all (fun v _ => counts_varType hnames elmtType v)
                    bytes hbytes with ⟨n, hn, hsum⟩
                  exact ⟨n, by simp [generateFieldSize, hprim, hcount, hlimit, hn], hsum⟩
                · simp [hlimit] at hbytes
          · simp [generateFieldStore, hcount] at hbytes
      | _ =>
          intro bytes hbytes
          cases hbytes

/-- The sizes of the fields add up. -/
theorem counts_fields
    (hnames : ∀ name known v,
      Counts (serializer name known).store (sizes name known) (small name known) v)
    {fields : List (FieldType declared)}
    {values : List Value}
    {bytes : List UInt8}
    (hbytes : storeFields serializer fields values = some bytes) :
    ∃ n, sizeFields sizes fields values = some n ∧
      Counted n bytes.length (smallFields small fields values) := by
  induction fields generalizing values bytes with
  | nil =>
      cases values with
      | nil =>
          cases hbytes
          exact ⟨0, rfl, counted_self 0 trivial⟩
      | cons v values =>
          cases hbytes
  | cons field fields ih =>
      cases values with
      | nil =>
          cases hbytes
      | cons v values =>
          simp only [storeFields, Option.bind_eq_bind, Option.bind_eq_some_iff] at hbytes
          rcases hbytes with ⟨front, hfront, back, hback, hbytes⟩
          cases hbytes
          rcases counts_field hnames field v front hfront with ⟨n, hn, hnsum⟩
          rcases ih hback with ⟨m, hm, hmsum⟩
          refine ⟨n + m, by simp [sizeFields, hn, hm], ?_⟩
          rw [List.length_append]
          exact counted_add hnsum hmsum

/-- A sum that fits an int is not changed by it. -/
theorem bmod_of_lt
    {n : Nat}
    (hn : n < 2 ^ 31) :
    (n : Int).bmod (2 ^ 32) = n := by
  rw [Int.bmod_def]
  norm_num
  omega

theorem int32Size_lt
    (n : Nat) :
    int32Size n < 2 ^ 64 := by
  unfold int32Size
  omega

/-- Counting in an int32_t keeps what a sum stands for, and is exact below 2^31 bytes. -/
theorem counted_int32Size
    {n len : Nat} {small : Prop}
    (hn : Counted n len small) :
    Counted (int32Size n) len (small ∧ len < 2 ^ 31) := by
  rcases hn with ⟨lost, hn, hle, hsmall⟩
  have hmod : (int32Size n + 2 ^ 32 * ((len + 2 ^ 31) / 2 ^ 32)) % 2 ^ 64 = len % 2 ^ 64 := by
    unfold int32Size
    rw [Int.bmod_def]
    norm_num
    omega
  refine ⟨(len + 2 ^ 31) / 2 ^ 32, hmod, by omega, ?_⟩
  rw [← hsmall]
  omega

/-- Size counts the bytes of a declaration. -/
theorem counts_decl
    (order : {declared : List String} → VarType declared → Compare)
    (hnames : ∀ name known v,
      Counts (serializer name known).store (sizes name known) (small name known) v)
    (decl : Decl declared)
    (v : Value) :
    Counts (compileDecl order serializer decl).store (compileDeclSize sizes decl)
      (decl.isSmall serializer small) v := by
  intro bytes hbytes
  cases decl with
  | enum numbers =>
      cases v with
      | word n =>
          cases hbytes
          rw [encode_length]
          exact ⟨enumSize numbers, rfl, counted_self _ trivial⟩
      | _ =>
          cases hbytes
  | typedef type =>
      rcases counts_varType hnames type v bytes hbytes with ⟨n, hn, hsum⟩
      refine ⟨int32Size n, by simp [compileDeclSize, hn], ?_⟩
      refine (counted_int32Size hsum).congr (and_congr_right fun _ => ⟨?_, ?_⟩)
      · intro hlen bytes' hbytes'
        have heq : some bytes = some bytes' := hbytes.symm.trans hbytes'
        cases heq
        exact hlen
      · intro hall
        exact hall bytes hbytes
  | message parent fields =>
      cases v with
      | record parentValue values =>
          cases parent with
          | none =>
              cases parentValue with
              | none =>
                  rcases counts_fields hnames hbytes with ⟨n, hn, hsum⟩
                  exact ⟨n % 2 ^ 64, by simp [compileDeclSize, hn], counted_word hsum⟩
              | some v =>
                  cases hbytes
          | some base =>
              cases parentValue with
              | none =>
                  cases hbytes
              | some v =>
                  simp only [compileDecl, compileMessage, Option.bind_eq_bind,
                    Option.bind_eq_some_iff] at hbytes
                  rcases hbytes with ⟨front, hfront, back, hback, hbytes⟩
                  cases hbytes
                  rcases hnames base.1 (mem_declared base) v front hfront with ⟨n, hn, hnsum⟩
                  rcases counts_fields hnames hback with ⟨m, hm, hmsum⟩
                  refine ⟨(n + m) % 2 ^ 64, by simp [compileDeclSize, hn, hm], ?_⟩
                  rw [List.length_append]
                  exact counted_word (counted_add hnsum hmsum)
      | _ =>
          cases hbytes

/-- The serializers beside the objects that Size counts are those of the file. -/
theorem measured_toSerializer
    (order : {declared : List String} → VarType declared → Compare)
    (env : Environment declared)
    (name : String)
    (known : name ∈ declared) :
    (env.measured order name known).toSerializer = env.serializer order name known := by
  refine env.compile_related
    (fun (x : Measured) y => x.toSerializer = y) (fun x y hxy decl => ?_) name known
  have heq : (fun name known => (x name known).toSerializer) = y :=
    funext fun name => funext fun known => hxy name known
  rw [← heq]
  rfl

/-- Size counts the bytes that Store writes for an object of a declared type. -/
theorem counts_environment
    (order : {declared : List String} → VarType declared → Compare)
    (env : Environment declared)
    (name : String)
    (known : name ∈ declared)
    (v : Value) :
    Counts (env.serializer order name known).store (env.sizes name known)
      (env.measured order name known).small v := by
  rw [← measured_toSerializer]
  exact env.compile_related
    (fun (x : Measured) sizes => ∀ v, Counts x.store sizes x.small v)
    (fun _ _ hnames decl => counts_decl order hnames decl) name known v

theorem compileDeclSize_lt
    (decl : Decl declared)
    {v : Value} {n : Nat}
    (hn : compileDeclSize sizes decl v = some n) :
    n < 2 ^ 64 := by
  cases decl with
  | enum numbers =>
      cases v with
      | word n =>
          rw [← Option.some.inj hn]
          unfold enumSize
          split_ifs <;> decide
      | _ =>
          cases hn
  | typedef type =>
      simp only [compileDeclSize, Option.bind_eq_bind, Option.bind_eq_some_iff] at hn
      rcases hn with ⟨m, -, hn⟩
      rw [← Option.some.inj hn]
      exact int32Size_lt m
  | message parent fields =>
      cases v with
      | record parentValue values =>
          cases parent with
          | none =>
              cases parentValue with
              | none =>
                  simp only [compileDeclSize, Option.bind_eq_bind, Option.bind_eq_some_iff] at hn
                  rcases hn with ⟨m, -, hn⟩
                  rw [← Option.some.inj hn]
                  exact Nat.mod_lt _ (by decide)
              | some v =>
                  cases hn
          | some base =>
              cases parentValue with
              | none =>
                  cases hn
              | some v =>
                  simp only [compileDeclSize, Option.bind_eq_bind, Option.bind_eq_some_iff] at hn
                  rcases hn with ⟨m, -, k, -, hn⟩
                  rw [← Option.some.inj hn]
                  exact Nat.mod_lt _ (by decide)
      | _ =>
          cases parent <;> cases hn

/-- Size returns a size_t. -/
theorem sizes_lt
    (env : Environment declared)
    (name : String)
    (known : name ∈ declared)
    {v : Value} {n : Nat}
    (hn : env.sizes name known v = some n) :
    n < 2 ^ 64 := by
  have hall : ∀ v n, env.sizes name known v = some n → n < 2 ^ 64 :=
    env.compile_forall (fun (sizes : Value → Option Nat) => ∀ v n, sizes v = some n → n < 2 ^ 64)
      (fun _ _ decl v n hn => compileDeclSize_lt decl hn) name known
  exact hall v n hn

/-- Size measures every message. By induction on the file. -/
theorem measures_environment
    (order : {declared : List String} → VarType declared → Compare)
    (env : Environment declared)
    (name : String)
    (known : name ∈ declared)
    (v : Value) :
    Measures (env.serializer order name known).store (env.sizes name known) v := by
  intro bytes hbytes
  rcases counts_environment order env name known v bytes hbytes with ⟨n, hn, hcounted⟩
  exact ⟨n, hn, hcounted.sums (sizes_lt env name known hn)⟩

end Cpp

namespace CSharp

section Types

variable {declared : List String}
variable (typed : Names declared (Object → Prop))

/-- The objects of a variable type. Containers are not null. -/
def VarTyped : VarType declared → Object → Prop
  | .primitive type, .word n => n < type.capacity
  | .string, .text _ => True
  | .userDefine name known, o => typed name known o
  | .list elmtType, .seq elmts => ∀ o ∈ elmts, VarTyped elmtType o
  | .array elmtType, .seq elmts => ∀ o ∈ elmts, VarTyped elmtType o
  | .map keyType elmtType, .map entries =>
      ∀ entry ∈ entries, VarTyped keyType entry.1 ∧ VarTyped elmtType entry.2
  | _, _ => False

/-- The objects of a field. A static array has its number of elements. -/
def FieldTyped : FieldType declared → Object → Prop
  | .plain type, o => VarTyped typed type o
  | .staticArray elmtType elmtCount, .seq elmts =>
      elmts.length = elmtCount ∧ ∀ o ∈ elmts, VarTyped typed elmtType o
  | _, _ => False

/-- The objects of a declared type. -/
def DeclTyped : Decl declared → Object → Prop
  | .enum _, .word n => n < 2 ^ 32
  | .typedef type, o => VarTyped typed type o
  | .message parent fields, .record base objects =>
      Option.Rel (fun parent o => typed parent.1 (mem_declared parent) o) parent base ∧
        List.Forall₂ (FieldTyped typed) fields objects
  | _, _ => False

end Types

/-- Store writes all of an object, and Size returns how many bytes these are. -/
def Fills
    {α : Type}
    (store : α → Written)
    (size : α → Option Int)
    (a : α) : Prop :=
  ∃ bytes, store a = write bytes ∧
    (bytes.length < 2 ^ 31 → size a = some (bytes.length : Int))

@[simp] theorem write_andThen
    (front back : List UInt8) :
    (write front).andThen (write back) = write (front ++ back) := by
  rfl

theorem fills_all
    {α : Type}
    {store : α → Written}
    {size : α → Option Int}
    {as : List α}
    (has : ∀ a ∈ as, Fills store size a) :
    Fills (storeAll store) (sizeAll size) as := by
  induction as with
  | nil =>
      exact ⟨[], rfl, fun _ => rfl⟩
  | cons a as ih =>
      rcases has a (by simp) with ⟨front, hfront, hn⟩
      rcases ih (fun b hb => has b (by simp [hb])) with ⟨back, hback, hm⟩
      refine ⟨front ++ back, by simp [storeAll, hfront, hback], ?_⟩
      intro hlen
      rw [List.length_append] at hlen ⊢
      simp [sizeAll, hn (by omega), hm (by omega)]

theorem fills_entry
    {α β : Type}
    {storeKey : α → Written} {storeElmt : β → Written}
    {sizeKey : α → Option Int} {sizeElmt : β → Option Int}
    {entry : α × β}
    (hkey : Fills storeKey sizeKey entry.1)
    (helmt : Fills storeElmt sizeElmt entry.2) :
    Fills
      (fun entry : α × β => (storeKey entry.1).andThen (storeElmt entry.2))
      (fun entry : α × β => do
        let key ← sizeKey entry.1
        let elmt ← sizeElmt entry.2
        some (key + elmt))
      entry := by
  rcases hkey with ⟨front, hfront, hn⟩
  rcases helmt with ⟨back, hback, hm⟩
  refine ⟨front ++ back, by simp [hfront, hback], ?_⟩
  intro hlen
  rw [List.length_append] at hlen ⊢
  simp [hn (by omega), hm (by omega)]

theorem fills_prefixed
    {α : Type}
    {store : α → Written}
    {size : α → Option Int}
    {as : List α}
    (has : ∀ a ∈ as, Fills store size a) :
    Fills
      (fun as => (write (encode 4 as.length)).andThen (storeAll store as))
      (fun as => do
        let n ← sizeAll size as
        some (4 + n))
      as := by
  rcases fills_all has with ⟨bytes, hbytes, hn⟩
  refine ⟨encode 4 as.length ++ bytes, by simp [hbytes], ?_⟩
  intro hlen
  rw [List.length_append] at hlen ⊢
  simp [hn (by omega)]

variable {declared : List String}
variable {serializer : Names declared Serializer}
variable {typed : Names declared (Object → Prop)}

/-- Every object of the names of a file is stored as Size says. -/
def Filled
    (serializer : Names declared Serializer)
    (typed : Names declared (Object → Prop)) : Prop :=
  ∀ name known o, typed name known o →
    Fills (serializer name known).store (fun o => some ((serializer name known).size o)) o

/-- Store fills what Size asks for. -/
theorem fills_varType
    (hnames : Filled serializer typed)
    (type : VarType declared)
    {o : Object}
    (ho : VarTyped typed type o) :
    Fills (generateVariableStore serializer type) (generateVariableSize serializer type) o := by
  induction type generalizing o with
  | primitive type =>
      cases o with
      | word n =>
          exact ⟨encode type.size n, rfl, fun _ => by simp [generateVariableSize]⟩
      | _ =>
          exact ho.elim
  | string =>
      cases o with
      | text units =>
          cases units with
          | none =>
              exact ⟨encode 4 0, rfl, fun _ => rfl⟩
          | some units =>
              exact ⟨encode 4 (getBytes units).length ++ getBytes units, rfl,
                fun _ => by simp [generateVariableSize]⟩
      | _ =>
          exact ho.elim
  | userDefine name known =>
      exact hnames name known o ho
  | list elmtType ih =>
      cases o with
      | seq elmts =>
          exact fills_prefixed fun o hmem => ih (ho o hmem)
      | _ =>
          exact ho.elim
  | array elmtType ih =>
      cases o with
      | seq elmts =>
          exact fills_prefixed fun o hmem => ih (ho o hmem)
      | _ =>
          exact ho.elim
  | map keyType elmtType ihkey ihelmt =>
      cases o with
      | map entries =>
          exact fills_prefixed fun entry hmem =>
            fills_entry (ihkey (ho entry hmem).1) (ihelmt (ho entry hmem).2)
      | _ =>
          exact ho.elim

/-- A static array of scalars is as long as the scalars together. -/
theorem storeAll_primitive
    {type : PrimitiveType}
    {elmts : List Object}
    (helmts : ∀ o ∈ elmts, VarTyped typed (.primitive type) o) :
    ∃ bytes, storeAll (generateVariableStore serializer (.primitive type)) elmts =
        write bytes ∧ bytes.length = type.size * elmts.length := by
  induction elmts with
  | nil =>
      exact ⟨[], rfl, rfl⟩
  | cons o elmts ih =>
      rcases ih (fun o ho => helmts o (by simp [ho])) with ⟨back, hback, hlen⟩
      have ho := helmts o (by simp)
      cases o with
      | word n =>
          refine ⟨encode type.size n ++ back, by simp [storeAll, generateVariableStore, hback], ?_⟩
          rw [List.length_append, hlen, encode_length, List.length_cons, Nat.mul_succ,
            Nat.add_comm]
      | _ =>
          exact ho.elim

theorem fills_field
    (hnames : Filled serializer typed)
    (field : FieldType declared)
    {o : Object}
    (ho : FieldTyped typed field o) :
    Fills (generateFieldStore serializer field) (generateFieldSize serializer field) o := by
  cases field with
  | plain type =>
      exact fills_varType hnames type ho
  | staticArray elmtType elmtCount =>
      cases o with
      | seq elmts =>
          rcases ho with ⟨rfl, helmts⟩
          cases hprim : elmtType.primitive? with
          | some type =>
              have htype := eq_primitive hprim
              subst htype
              have hstore : ∃ bytes,
                  storeAll (generateVariableStore serializer (.primitive type)) elmts =
                    write bytes ∧ bytes.length = type.size * elmts.length :=
                storeAll_primitive helmts
              rcases hstore with ⟨bytes, hbytes, hlen⟩
              refine ⟨bytes, by simp [generateFieldStore, hbytes], ?_⟩
              intro _
              simp [generateFieldSize, hprim, hlen]
          | none =>
              rcases fills_all (fun o hmem => fills_varType hnames elmtType (helmts o hmem)) with
                ⟨bytes, hbytes, hn⟩
              refine ⟨bytes, by simp [generateFieldStore, hbytes], ?_⟩
              intro hlen
              simp [generateFieldSize, hprim, hn hlen]
      | _ =>
          exact ho.elim

/-- The fields fill what their sizes add up to. -/
theorem fills_fields
    (hnames : Filled serializer typed)
    {fields : List (FieldType declared)}
    {objects : List Object}
    (hobjects : List.Forall₂ (FieldTyped typed) fields objects) :
    ∃ bytes, storeFields serializer fields objects = write bytes ∧
      (bytes.length < 2 ^ 31 →
        sizeFields serializer fields objects = some (bytes.length : Int)) := by
  induction hobjects with
  | nil =>
      exact ⟨[], rfl, fun _ => rfl⟩
  | cons ho hrest ih =>
      rename_i field o fields objects
      rcases fills_field hnames field ho with ⟨front, hfront, hn⟩
      rcases ih with ⟨back, hback, hm⟩
      refine ⟨front ++ back, by simp [storeFields, hfront, hback], ?_⟩
      intro hlen
      rw [List.length_append] at hlen ⊢
      simp [sizeFields, hn (by omega), hm (by omega)]

theorem returnSize_of_lt
    {n : Nat}
    (hn : n < 2 ^ 31) :
    returnSize (some (n : Int)) = n := by
  unfold returnSize toInt32
  exact bmod_of_lt hn

/-- Store fills the stream that Size has made room for. -/
theorem fills_decl
    (runtime : Runtime)
    (hnames : Filled serializer typed)
    (decl : Decl declared)
    {o : Object}
    (ho : DeclTyped typed decl o) :
    Fills (compileDecl runtime serializer decl).store
      (fun o => some ((compileDecl runtime serializer decl).size o)) o := by
  cases decl with
  | enum numbers =>
      cases o with
      | word n =>
          exact ⟨encode 4 n, rfl, fun _ => by simp [compileDecl, compileEnum]⟩
      | _ =>
          exact ho.elim
  | typedef type =>
      rcases fills_varType hnames type ho with ⟨bytes, hbytes, hn⟩
      refine ⟨bytes, hbytes, ?_⟩
      intro hlen
      simp only [compileDecl, compileTypedef, hn hlen, returnSize_of_lt hlen]
  | message parent fields =>
      cases o with
      | record base objects =>
          rcases ho with ⟨hparent, hobjects⟩
          rcases fills_fields hnames hobjects with ⟨back, hback, hm⟩
          cases hparent with
          | none =>
              refine ⟨back, hback, ?_⟩
              intro hlen
              simp only [compileDecl, sizeMessage, hm hlen, returnSize_of_lt hlen]
          | some hbase =>
              rename_i parent o
              rcases hnames parent.1 (mem_declared parent) o hbase with ⟨front, hfront, hn⟩
              refine ⟨front ++ back, ?_, ?_⟩
              · simp [compileDecl, storeMessage, hfront, write, hback, Written.andThen]
              · intro hlen
                rw [List.length_append] at hlen ⊢
                have hbaseSize := Option.some.inj (hn (by omega))
                have hsum : ((front.length : Int) + (back.length : Int)) =
                    ((front.length + back.length : Nat) : Int) := by
                  simp
                simp only [compileDecl, sizeMessage, hm (by omega), hbaseSize,
                  Option.bind_eq_bind, Option.bind_some, hsum, returnSize_of_lt hlen]
      | _ =>
          exact ho.elim

end CSharp

/-- The C# objects of the names that a file declares. -/
def Environment.objects
    {declared : List String}
    (env : Environment declared) : Names declared (CSharp.Object → Prop) :=
  env.compile CSharp.DeclTyped

/-- Every message fills its stream. By induction on the file. -/
theorem filled_environment
    (runtime : CSharp.Runtime)
    {declared : List String}
    (env : Environment declared) :
    CSharp.Filled (env.csharp runtime) env.objects := by
  intro name known
  exact env.compile_related
    (fun (serializer : CSharp.Serializer) (typed : CSharp.Object → Prop) =>
      ∀ o, typed o → CSharp.Fills serializer.store (fun o => some (serializer.size o)) o)
    (fun _ _ hnames decl _ ho => CSharp.fills_decl runtime hnames decl ho) name known

/-- A runtime whose dictionaries never find a key. -/
def CSharp.Runtime.byReference : CSharp.Runtime where
  equal _ _ _ := false
  replaced _ := []
  sound _ _ _ h := by cases h

end Idlc
end Gamnet
