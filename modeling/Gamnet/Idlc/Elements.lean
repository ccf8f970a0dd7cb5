import Gamnet.Idlc.Hollow

/-!
# The elements that Load constructs

The loops over the containers take their number of turns from the input, and each turn
constructs an element. They stop early only where an element cannot be loaded.

An element that takes a byte is paid for by it, so that of a buffer no more elements are
constructed than it has bytes. Elements without bytes are free: four bytes of length
construct up to 2^32 - 1 of them (`built_le_size`). A field nSize, which is loaded into the
count of the bytes left, is free as well, and is left out.
-/

namespace Gamnet
namespace Idlc

open LittleEndian Reader

/-- The elements that a loop constructs: some of its own at each turn, and those of the
element that it loads there. -/
def builtLoop
    {α : Type}
    (own : Nat)
    (x : Load α)
    (built : Cursor → Nat) : Nat → Cursor → Nat
  | 0, _ => 0
  | n + 1, c => own + built c + reached x c 0 (builtLoop own x built n)

/-- The elements that the loop behind a length constructs. -/
def builtBehind
    {α : Type}
    (x : Load α)
    (built : Cursor → Nat)
    (c : Cursor) : Nat :=
  match loadLength c with
  | .returns n c' => builtLoop 1 x built n c'
  | _ => 0

/-- The elements that two loads construct, one behind the other. -/
def builtBoth
    {α : Type}
    (x : Load α)
    (first second : Cursor → Nat)
    (c : Cursor) : Nat :=
  first c + reached x c 0 second

/-- A serializer with the number of container elements that its Load constructs. -/
structure Builder extends Serializer where
  built : Cursor → Nat

section Types

variable (order : {declared : List String} → VarType declared → Compare)
variable {declared : List String}
variable (serializer : Names declared Serializer)
variable (counters : Names declared (Cursor → Nat))

/-- The container elements that the statements of GenerateVariableLoad construct. -/
def VarType.built : VarType declared → Cursor → Nat
  | .userDefine name known => counters name known
  | .list elmtType =>
      builtBehind (generateVariableLoad order serializer elmtType) elmtType.built
  | .array elmtType =>
      builtBehind (generateVariableLoad order serializer elmtType) elmtType.built
  | .map keyType elmtType =>
      builtBehind
        (do
          let key ← generateVariableLoad order serializer keyType
          let elmt ← generateVariableLoad order serializer elmtType
          pure (key, elmt))
        (builtBoth (generateVariableLoad order serializer keyType) keyType.built elmtType.built)
  | _ => fun _ => 0

/-- The elements of a static array are no elements of a container. -/
def FieldType.built : FieldType declared → Cursor → Nat
  | .plain type => type.built order serializer counters
  | .staticArray elmtType elmtCount =>
      builtLoop 0 (generateVariableLoad order serializer elmtType)
        (elmtType.built order serializer counters) elmtCount

def builtFields : List (FieldType declared) → Cursor → Nat
  | [] => fun _ => 0
  | field :: fields =>
      builtBoth (generateFieldLoad order serializer field) (field.built order serializer counters)
        (builtFields fields)

/-- The container elements that Load of a declared type constructs. -/
def Decl.built : Decl declared → Cursor → Nat
  | .enum _ => fun _ => 0
  | .typedef type => type.built order serializer counters
  | .message none fields => builtFields order serializer counters fields
  | .message (some base) fields =>
      builtBoth (serializer base.1 (mem_declared base)).load (counters base.1 (mem_declared base))
        (builtFields order serializer counters fields)

end Types

/-- The builder of a declaration. -/
def compileBuilder
    (order : {declared : List String} → VarType declared → Compare)
    {declared : List String}
    (builders : Names declared Builder)
    (decl : Decl declared) : Builder where
  toSerializer := compileDecl order (fun name known => (builders name known).toSerializer) decl
  built := decl.built order (fun name known => (builders name known).toSerializer)
    fun name known => (builders name known).built

/-- The builders of the names that a file declares. -/
def Environment.builder
    (order : {declared : List String} → VarType declared → Compare)
    {declared : List String}
    (env : Environment declared) : Names declared Builder :=
  env.compile (compileBuilder order)

namespace Named

section Types

variable (order : {declared : List String} → VarType declared → Compare)
variable {declared : List String}
variable (serializer : Names declared Serializer)
variable (counters : Names declared (Cursor → Nat))

/-- Where a field is hidden, nothing is constructed. -/
def builtField
    (locals : List String)
    (field : NamedField declared) : Cursor → Nat :=
  if field.name ∈ locals ∨ field.name ∈ ["nSize", "_buf_", "int32_t"] ∨
      (field.type.loadLoops ∧ field.name = "i") then
    fun _ => 0
  else
    field.type.built order serializer counters

def builtFields : List String → List (NamedField declared) → Cursor → Nat
  | _, [] => fun _ => 0
  | locals, field :: fields =>
      builtBoth (loadField order serializer locals field)
        (builtField order serializer counters locals field)
        (builtFields (lengthLocals field ++ locals) fields)

/-- The container elements that Load of a declared type constructs. -/
def built : NamedDecl declared → Cursor → Nat
  | .enum _ => fun _ => 0
  | .typedef type => type.built order serializer counters
  | .message none fields => builtFields order serializer counters [] fields
  | .message (some base) fields =>
      builtBoth (serializer base.1 (mem_declared base)).load (counters base.1 (mem_declared base))
        (builtFields order serializer counters [] fields)

end Types

/-- The builder of a declaration. -/
def compileBuilder
    (order : {declared : List String} → VarType declared → Compare)
    {declared : List String}
    (builders : Names declared Builder)
    (decl : NamedDecl declared) : Builder where
  toSerializer := compileDecl order (fun name known => (builders name known).toSerializer) decl
  built := built order (fun name known => (builders name known).toSerializer)
    (fun name known => (builders name known).built) decl

end Named

/-- The builders of the names that a file declares. -/
def IdlFile.builder
    (order : {declared : List String} → VarType declared → Compare)
    {declared : List String}
    (file : IdlFile declared) : Names declared Builder :=
  file.compile (Named.compileBuilder order)

/-- Whether a type has static arrays, and how many bytes the shortest way to a container
takes whose elements have no bytes, its length included. -/
structure Extent where
  leastSize : Option Nat
  plain : Prop
  reach : Option Nat

/-- The bytes up to a container in one of two parts. -/
def reachEither (first size second : Option Nat) : Option Nat :=
  match first with
  | some n => some n
  | none => sumLeast size second

section Types

variable {declared : List String}
variable (sizes : Names declared (Option Nat))
variable (plain : Names declared Prop)
variable (reaches : Names declared (Option Nat))

def VarType.isPlain : VarType declared → Prop
  | .userDefine name known => plain name known
  | .list elmtType => elmtType.isPlain
  | .array elmtType => elmtType.isPlain
  | .map keyType elmtType => keyType.isPlain ∧ elmtType.isPlain
  | _ => True

def FieldType.isPlain : FieldType declared → Prop
  | .plain type => type.isPlain plain
  | .staticArray _ _ => False

/-- A declared type and the types that it uses have no static arrays. -/
def Decl.isPlain : Decl declared → Prop
  | .enum _ => True
  | .typedef type => type.isPlain plain
  | .message parent fields =>
      (∀ base ∈ parent, plain base.1 (mem_declared base)) ∧
        ∀ field ∈ fields, field.isPlain plain

def VarType.reach : VarType declared → Option Nat
  | .userDefine name known => reaches name known
  | .list elmtType =>
      if elmtType.leastSize sizes = some 0 then some 4 else sumLeast (some 4) elmtType.reach
  | .array elmtType =>
      if elmtType.leastSize sizes = some 0 then some 4 else sumLeast (some 4) elmtType.reach
  | .map keyType elmtType =>
      if sumLeast (keyType.leastSize sizes) (elmtType.leastSize sizes) = some 0 then some 4
      else sumLeast (some 4)
        (reachEither keyType.reach (keyType.leastSize sizes) elmtType.reach)
  | _ => none

def FieldType.reach : FieldType declared → Option Nat
  | .plain type => type.reach sizes reaches
  | .staticArray _ _ => none

def reachFields : List (FieldType declared) → Option Nat
  | [] => none
  | field :: fields =>
      reachEither (field.reach sizes reaches) (field.leastSize sizes) (reachFields fields)

def Decl.reach : Decl declared → Option Nat
  | .enum _ => none
  | .typedef type => type.reach sizes reaches
  | .message none fields => reachFields sizes reaches fields
  | .message (some base) fields =>
      reachEither (reaches base.1 (mem_declared base)) (sizes base.1 (mem_declared base))
        (reachFields sizes reaches fields)

end Types

/-- The extent of a declaration. -/
def compileExtent
    {declared : List String}
    (extents : Names declared Extent)
    (decl : Decl declared) : Extent where
  leastSize := decl.leastSize fun name known => (extents name known).leastSize
  plain := decl.isPlain fun name known => (extents name known).plain
  reach := decl.reach (fun name known => (extents name known).leastSize)
    fun name known => (extents name known).reach

/-- The extents of the names that a file declares. -/
def Environment.extent
    {declared : List String}
    (env : Environment declared) : Names declared Extent :=
  env.compile compileExtent

section Paid

/-- Every element that a load constructs is paid for with a byte, whether it succeeds or
not, and a load of a type that has bytes takes one more. -/
structure Paid
    {α : Type}
    (x : Load α)
    (built : Cursor → Nat)
    (m : Option Nat) : Prop where
  bound : ∀ c, built c ≤ c.size.toNat
  returns : ∀ {c a c'}, x c = .returns a c' →
    built c + (if m = some 0 then 0 else 1) + c'.size.toNat ≤ c.size.toNat

variable {α β : Type}

/-- What reads nothing builds nothing. -/
theorem Paid.pure
    (a : α) :
    Paid (pure a) (fun _ => 0) (some 0) where
  bound := fun c => Nat.zero_le _
  returns := by
    intro c a' c' h
    cases h
    simp

theorem size_of_checked
    {n : Nat} {c c' : Cursor} {bytes : List UInt8}
    (h : checked n c = .returns bytes c') :
    c'.size.toNat + n = c.size.toNat := by
  unfold checked at h
  split_ifs at h with hshort
  cases h
  rw [size_skip (by omega)]
  omega

theorem size_of_loadLength
    {n : Nat} {c c' : Cursor}
    (h : loadLength c = .returns n c') :
    c'.size.toNat + 4 = c.size.toNat := by
  obtain ⟨bytes, hchecked, -⟩ := returns_map h
  exact size_of_checked hchecked

theorem paid_checked
    {n : Nat}
    (hn : 0 < n)
    (m : Option Nat) :
    Paid (checked n) (fun _ => 0) m where
  bound := fun c => Nat.zero_le _
  returns := by
    intro c a c' h
    have hsize := size_of_checked h
    split_ifs <;> omega

/-- A text is paid for by its count. -/
theorem paid_string :
    Paid (loadLength >>= fun n => checked n >>= fun bytes => Pure.pure (Value.text bytes))
      (fun _ => 0) (some 4) where
  bound := fun c => Nat.zero_le _
  returns := by
    intro c a c' h
    obtain ⟨n, c₁, hlength, hrest⟩ := returns_bind h
    obtain ⟨bytes, hchecked, -⟩ := returns_map hrest
    have hsize := size_of_loadLength hlength
    have hsize' := size_of_checked hchecked
    split_ifs <;> omega

theorem Paid.map
    {x : Load α} {built : Cursor → Nat} {m : Option Nat}
    (hx : Paid x built m)
    (f : α → β) :
    Paid (x >>= fun a => Pure.pure (f a)) built m where
  bound := hx.bound
  returns := by
    intro c b c' h
    obtain ⟨a, ha, -⟩ := returns_map h
    exact hx.returns ha

/-- Two loads one behind the other. -/
theorem Paid.bind
    {x : Load α} {f : α → Load β} {first second : Cursor → Nat} {m k : Option Nat}
    (hx : Paid x first m)
    (hf : ∀ a, Paid (f a) second k) :
    Paid (x >>= f) (builtBoth x first second) (sumLeast m k) where
  bound := by
    intro c
    unfold builtBoth reached
    cases hload : x c with
    | returns a c' =>
        have hpaid := hx.returns hload
        have hrest := (hf a).bound c'
        simp only
        omega
    | fails c' => exact hx.bound c
    | overflows c' => exact hx.bound c
  returns := by
    intro c b c' h
    obtain ⟨a, c₁, hload, hrest⟩ := returns_bind h
    have hpaid := hx.returns hload
    have hpaid' := (hf a).returns hrest
    rw [builtBoth, reached_of_returns hload]
    by_cases hm : m = some 0
    · by_cases hk : k = some 0
      · simp only [hm, hk, if_true] at hpaid hpaid' ⊢
        rw [if_pos (sumLeast_eq_zero.mpr ⟨rfl, rfl⟩)]
        omega
      · rw [if_neg hk] at hpaid'
        split_ifs at hpaid ⊢ <;> omega
    · rw [if_neg hm] at hpaid
      split_ifs at hpaid' ⊢ <;> omega

/-- Each turn of a loop pays for its element. -/
theorem Paid.loop
    {x : Load α} {built : Cursor → Nat} {m : Option Nat}
    (hx : Paid x built m)
    (hm : m ≠ some 0)
    (n : Nat)
    (c : Cursor) :
    builtLoop 1 x built n c ≤ c.size.toNat + 1 ∧
      ∀ as c', many x n c = .returns as c' →
        builtLoop 1 x built n c + c'.size.toNat ≤ c.size.toNat := by
  induction n generalizing c with
  | zero =>
      refine ⟨Nat.zero_le _, fun as c' h => ?_⟩
      cases h
      simp [builtLoop]
  | succ n ih =>
      have hbound := hx.bound c
      cases hload : x c with
      | returns a c₁ =>
          have hpaid := hx.returns hload
          rw [if_neg hm] at hpaid
          rw [builtLoop, reached_of_returns hload]
          refine ⟨?_, fun as c' h => ?_⟩
          · have hrest := (ih c₁).1
            omega
          · obtain ⟨a', c₂, hfirst, hrest⟩ := returns_bind h
            obtain ⟨as', hmany, -⟩ := returns_map hrest
            rw [hload] at hfirst
            cases hfirst
            have htail := (ih c₁).2 as' c' hmany
            omega
      | fails c₁ =>
          rw [builtLoop, reached, hload]
          refine ⟨by simp only; omega, fun as c' h => ?_⟩
          rw [many, bind_of_fails hload] at h
          cases h
      | overflows c₁ =>
          rw [builtLoop, reached, hload]
          refine ⟨by simp only; omega, fun as c' h => ?_⟩
          rw [many, bind_of_overflows hload] at h
          cases h

/-- A length of four bytes pays for the element at which the loop gives up. -/
theorem Paid.prefixed
    {x : Load α} {built : Cursor → Nat} {m : Option Nat}
    (hx : Paid x built m)
    (hm : m ≠ some 0)
    (f : List α → Value) :
    Paid (loadLength >>= fun n => many x n >>= fun as => Pure.pure (f as))
      (builtBehind x built) (some 4) := by
  constructor
  · intro c
    unfold builtBehind
    cases hload : loadLength c with
    | returns n c' =>
        have hpaid := size_of_loadLength hload
        have hrest := (hx.loop hm n c').1
        simp only
        omega
    | fails c' => exact Nat.zero_le _
    | overflows c' => exact Nat.zero_le _
  · intro c v c' h
    obtain ⟨n, c₁, hload, hrest⟩ := returns_bind h
    obtain ⟨as, hmany, -⟩ := returns_map hrest
    have hpaid := size_of_loadLength hload
    have htail := (hx.loop hm n c₁).2 as c' hmany
    rw [builtBehind, hload, if_neg (by simp)]
    simp only
    omega

end Paid

/-- Nothing is reached if neither part reaches it. -/
theorem reachEither_eq_none
    {first size second : Option Nat}
    (h : reachEither first size second = none) :
    first = none ∧ sumLeast size second = none := by
  cases first with
  | none => exact ⟨rfl, h⟩
  | some n => cases h

theorem sumLeast_eq_none
    {n : Nat} {k : Option Nat}
    (h : sumLeast (some n) k = none) :
    k = none := by
  cases k with
  | none => rfl
  | some m => cases h

/-- The elements of a container have bytes, and reach no container of others without. -/
theorem reach_container
    {size reach : Option Nat}
    (h : (if size = some 0 then some 4 else sumLeast (some 4) reach) = none) :
    size ≠ some 0 ∧ reach = none := by
  split_ifs at h with hsize
  exact ⟨hsize, sumLeast_eq_none h⟩

section Declarations

variable (order : {declared : List String} → VarType declared → Compare)
variable {declared : List String}
variable {serializer : Names declared Serializer}
variable {counters : Names declared (Cursor → Nat)}
variable {sizes reaches : Names declared (Option Nat)}
variable {plain : Names declared Prop}

/-- The fewest bytes of a type without static arrays are known. -/
theorem leastSize_varType
    (hnames : ∀ name known, plain name known → ∃ n, sizes name known = some n)
    (type : VarType declared)
    (hplain : type.isPlain plain) :
    ∃ n, type.leastSize sizes = some n := by
  cases type with
  | userDefine name known => exact hnames name known hplain
  | primitive type => exact ⟨_, rfl⟩
  | string => exact ⟨_, rfl⟩
  | list elmtType => exact ⟨_, rfl⟩
  | array elmtType => exact ⟨_, rfl⟩
  | map keyType elmtType => exact ⟨_, rfl⟩

/-- What is loaded for a name is paid for, if no container of elements without bytes is
reached. -/
def AllPaid
    (serializer : Names declared Serializer)
    (counters : Names declared (Cursor → Nat))
    (sizes reaches : Names declared (Option Nat))
    (plain : Names declared Prop) : Prop :=
  ∀ name known, plain name known →
    (∃ n, sizes name known = some n) ∧
      (reaches name known = none →
        Paid (serializer name known).load (counters name known) (sizes name known))

/-- A type whose elements all have bytes is paid for, if the named types are. -/
theorem paid_varType
    (hnames : AllPaid serializer counters sizes reaches plain)
    (type : VarType declared)
    (hplain : type.isPlain plain)
    (hreach : type.reach sizes reaches = none) :
    Paid (generateVariableLoad order serializer type) (type.built order serializer counters)
      (type.leastSize sizes) := by
  have hsizes : ∀ name known, plain name known → ∃ n, sizes name known = some n :=
    fun name known h => (hnames name known h).1
  induction type with
  | primitive type => exact (paid_checked type.size_pos _).map _
  | string => exact paid_string
  | userDefine name known => exact (hnames name known hplain).2 hreach
  | list elmtType ih =>
      obtain ⟨hsize, helmt⟩ := reach_container hreach
      exact (ih hplain helmt).prefixed hsize Value.seq
  | array elmtType ih =>
      obtain ⟨hsize, helmt⟩ := reach_container hreach
      exact (ih hplain helmt).prefixed hsize Value.seq
  | map keyType elmtType ihkey ihelmt =>
      obtain ⟨hsize, hentry⟩ := reach_container hreach
      obtain ⟨hkey, hrest⟩ := reachEither_eq_none hentry
      obtain ⟨n, hn⟩ := leastSize_varType hsizes keyType hplain.1
      rw [hn] at hrest
      have hentryPaid := (ihkey hplain.1 hkey).bind fun key =>
        (ihelmt hplain.2 (sumLeast_eq_none hrest)).map fun elmt => (key, elmt)
      exact hentryPaid.prefixed hsize fun entries =>
        Value.map ((order keyType).insertAll [] entries)

theorem paid_fields
    (hnames : AllPaid serializer counters sizes reaches plain)
    (fields : List (FieldType declared))
    (hplain : ∀ field ∈ fields, field.isPlain plain) :
    (∃ n, leastFields sizes fields = some n) ∧
      (reachFields sizes reaches fields = none →
        Paid (loadFields order serializer fields) (builtFields order serializer counters fields)
          (leastFields sizes fields)) := by
  induction fields with
  | nil => exact ⟨⟨0, rfl⟩, fun _ => Paid.pure []⟩
  | cons field fields ih =>
      obtain ⟨hfield, hfields⟩ := List.forall_mem_cons.mp hplain
      obtain ⟨⟨k, hk⟩, hpaid⟩ := ih hfields
      cases field with
      | staticArray elmtType elmtCount => exact hfield.elim
      | plain type =>
          obtain ⟨n, hn⟩ := leastSize_varType (fun name known h => (hnames name known h).1)
            type hfield
          refine ⟨⟨n + k, ?_⟩, fun hreach => ?_⟩
          · rw [leastFields, FieldType.leastSize, hn, hk]
            rfl
          · obtain ⟨hfirst, hrest⟩ := reachEither_eq_none hreach
            rw [FieldType.leastSize, hn] at hrest
            exact (paid_varType order hnames type hfield hfirst).bind fun v =>
              (hpaid (sumLeast_eq_none hrest)).map fun values => v :: values

/-- A declaration is paid for by its fields. -/
theorem paid_decl
    (hnames : AllPaid serializer counters sizes reaches plain)
    (decl : Decl declared)
    (hplain : decl.isPlain plain) :
    (∃ n, decl.leastSize sizes = some n) ∧
      (decl.reach sizes reaches = none →
        Paid (compileDecl order serializer decl).load (decl.built order serializer counters)
          (decl.leastSize sizes)) := by
  cases decl with
  | enum numbers =>
      have hpos : 0 < enumSize numbers := by
        unfold enumSize
        split_ifs <;> decide
      exact ⟨⟨_, rfl⟩, fun _ => (paid_checked hpos _).map _⟩
  | typedef type =>
      exact ⟨leastSize_varType (fun name known h => (hnames name known h).1) type hplain,
        paid_varType order hnames type hplain⟩
  | message parent fields =>
      obtain ⟨hparent, hfields⟩ := hplain
      obtain ⟨⟨k, hk⟩, hpaid⟩ := paid_fields order hnames fields hfields
      cases parent with
      | none => exact ⟨⟨k, hk⟩, fun hreach => (hpaid hreach).map (Value.record none)⟩
      | some base =>
          obtain ⟨⟨n, hn⟩, hbase⟩ := hnames base.1 (mem_declared base) (hparent base rfl)
          refine ⟨⟨n + k, ?_⟩, fun hreach => ?_⟩
          · rw [Decl.leastSize, hn, hk]
            rfl
          · obtain ⟨hfirst, hrest⟩ := reachEither_eq_none hreach
            rw [hn] at hrest
            exact (hbase hfirst).bind fun v =>
              (hpaid (sumLeast_eq_none hrest)).map (Value.record (some v))

/-- In a file, what is loaded for a type without static arrays is paid for, if no container
of elements without bytes is reached. -/
theorem paid_environment
    (env : Environment declared)
    (name : String)
    (known : name ∈ declared)
    (hplain : (env.extent name known).plain)
    (hreach : (env.extent name known).reach = none) :
    Paid (env.builder order name known).load (env.builder order name known).built
      (env.extent name known).leastSize :=
  ((env.compile_related
    (fun (builder : Builder) (extent : Extent) => extent.plain →
      (∃ n, extent.leastSize = some n) ∧
        (extent.reach = none → Paid builder.load builder.built extent.leastSize))
    (fun _ _ hnames decl hplain => paid_decl order hnames decl hplain) name known) hplain).2
    hreach

end Declarations

section Floods

/-- A load of an input that begins with these bytes constructs as many elements as a
length can count. -/
def Floods
    (built : Cursor → Nat)
    (p : List UInt8) : Prop :=
  ∀ c rest, unread c = p ++ rest → 2 ^ 32 - 1 ≤ built c

variable {α : Type}

/-- A loop whose element takes nothing comes to its end. -/
theorem le_builtLoop
    {x : Load α} {built : Cursor → Nat} {a : α}
    (hx : Idles x a)
    (n : Nat)
    (c : Cursor) :
    n ≤ builtLoop 1 x built n c := by
  induction n generalizing c with
  | zero => exact Nat.zero_le _
  | succ n ih =>
      obtain ⟨c', hload, -, -⟩ := hx c
      have hrest := ih c'
      rw [builtLoop, reached_of_returns hload]
      omega

/-- The largest length floods a container whose elements take nothing. -/
theorem floods_hollow
    {x : Load α} {built : Cursor → Nat} {a : α}
    (hx : Idles x a) :
    Floods (builtBehind x built) (encode 4 (2 ^ 32 - 1)) := by
  intro c rest hunread
  obtain ⟨c', hlength, -, -⟩ := reads_loadLength (by decide) c rest hunread
  rw [builtBehind, hlength]
  exact le_builtLoop hx _ c'

/-- The first element of a container floods it. -/
theorem floods_elmt
    {x : Load α} {built : Cursor → Nat} {p : List UInt8}
    (hbuilt : Floods built p) :
    Floods (builtBehind x built) (encode 4 1 ++ p) := by
  intro c rest hunread
  rw [List.append_assoc] at hunread
  obtain ⟨c', hlength, hrest, -⟩ := reads_loadLength (by decide) c (p ++ rest) hunread
  have hmany := hbuilt c' rest hrest
  rw [builtBehind, hlength]
  simp only [builtLoop]
  omega

theorem Floods.first
    {x : Load α} {first second : Cursor → Nat} {p : List UInt8}
    (hfirst : Floods first p) :
    Floods (builtBoth x first second) p :=
  fun c rest hunread => le_trans (hfirst c rest hunread) (Nat.le_add_right _ _)

/-- The shortest word of the first load leads to the second. -/
theorem Floods.second
    {x : Load α} {g : Grammar α} {m : Option Nat} {n : Nat}
    {first second : Cursor → Nat} {p : List UInt8}
    (hscans : Scans x g)
    (hleast : g.Least m)
    (hn : m = some n)
    (hsecond : Floods second p) :
    Floods (builtBoth x first second) (List.replicate n 0 ++ p) := by
  intro c rest hunread
  rw [List.append_assoc] at hunread
  obtain ⟨a, c', hload, hrest, -⟩ := hscans.loads_zeros hleast hn hunread
  rw [builtBoth, reached_of_returns hload]
  exact le_trans (hsecond c' rest hrest) (Nat.le_add_left _ _)

/-- Behind so many bytes a load can be flooded. -/
def Reached
    (built : Cursor → Nat)
    (r : Option Nat) : Prop :=
  ∀ n, r = some n → ∃ p : List UInt8, p.length = n ∧ Floods built p

theorem reached_none
    (built : Cursor → Nat) :
    Reached built none := by
  intro n hn
  cases hn

/-- What the first part reaches, or what the second one does behind the least bytes of the first.
-/
theorem Reached.both
    {x : Load α} {g : Grammar α} {m r r' : Option Nat} {first second : Cursor → Nat}
    (hscans : Scans x g)
    (hleast : g.Least m)
    (hfirst : Reached first r)
    (hsecond : Reached second r') :
    Reached (builtBoth x first second) (reachEither r m r') := by
  intro n hn
  cases r with
  | some k =>
      obtain ⟨p, hlen, hfloods⟩ := hfirst n hn
      exact ⟨p, hlen, hfloods.first⟩
  | none =>
      obtain ⟨n₁, n₂, hm, hr', rfl⟩ := sumLeast_eq_some hn
      obtain ⟨p, hlen, hfloods⟩ := hsecond n₂ hr'
      refine ⟨List.replicate n₁ 0 ++ p, ?_, .second hscans hleast hm hfloods⟩
      rw [List.length_append, List.length_replicate, hlen]

/-- A container is flooded by its length, or by its first element. -/
theorem Reached.container
    {x : Load α} {m r : Option Nat} {built : Cursor → Nat}
    (hidles : m = some 0 → ∃ a, Idles x a)
    (hbuilt : Reached built r) :
    Reached (builtBehind x built) (if m = some 0 then some 4 else sumLeast (some 4) r) := by
  intro n hn
  split_ifs at hn with hm
  · cases hn
    obtain ⟨a, hx⟩ := hidles hm
    exact ⟨_, encode_length 4 _, floods_hollow hx⟩
  · obtain ⟨n₁, n₂, hfour, hr, rfl⟩ := sumLeast_eq_some hn
    cases hfour
    obtain ⟨p, hlen, hfloods⟩ := hbuilt n₂ hr
    refine ⟨encode 4 1 ++ p, ?_, floods_elmt hfloods⟩
    rw [List.length_append, encode_length, hlen]

end Floods

section Declarations

variable (order : {declared : List String} → VarType declared → Compare)
variable {declared : List String}
variable {loaders : Names declared Loader}
variable {object : Names declared (Value → Prop)}
variable {grammars : Names declared (Grammar Value)}
variable {counters : Names declared (Cursor → Nat)}
variable {sizes reaches : Names declared (Option Nat)}

/-- An element without bytes is reached through a type, if it is through the named types. -/
theorem reached_varType
    (hempty : AllOnEmpty loaders object sizes)
    (hfollow : Follow (serializers loaders) grammars)
    (hleast : ∀ name known, Grammar.Least (grammars name known) (sizes name known))
    (hnames : ∀ name known, Reached (counters name known) (reaches name known))
    (type : VarType declared) :
    Reached (type.built order (serializers loaders) counters) (type.reach sizes reaches) := by
  induction type with
  | primitive type => exact reached_none _
  | string => exact reached_none _
  | userDefine name known => exact hnames name known
  | list elmtType ih =>
      exact .container (fun hzero => ⟨_, (onEmpty_varType order hempty elmtType).idles hzero⟩) ih
  | array elmtType ih =>
      exact .container (fun hzero => ⟨_, (onEmpty_varType order hempty elmtType).idles hzero⟩) ih
  | map keyType elmtType ihkey ihelmt =>
      refine .container (fun hzero => ?_)
        (.both (scans_varType order hfollow keyType) (least_varType order hleast keyType)
          ihkey ihelmt)
      obtain ⟨hkey, helmt⟩ := sumLeast_eq_zero.mp hzero
      have hidles := (onEmpty_varType order hempty keyType).idles hkey
      have hidles' := (onEmpty_varType order hempty elmtType).idles helmt
      exact ⟨_, hidles.bind (hidles'.map fun elmt => (_, elmt))⟩

theorem reached_fields
    (hempty : AllOnEmpty loaders object sizes)
    (hfollow : Follow (serializers loaders) grammars)
    (hleast : ∀ name known, Grammar.Least (grammars name known) (sizes name known))
    (hnames : ∀ name known, Reached (counters name known) (reaches name known))
    (fields : List (FieldType declared)) :
    Reached (builtFields order (serializers loaders) counters fields)
      (reachFields sizes reaches fields) := by
  induction fields with
  | nil => exact reached_none _
  | cons field fields ih =>
      refine .both (scans_field order hfollow field) (least_field order hleast field) ?_ ih
      cases field with
      | plain type => exact reached_varType order hempty hfollow hleast hnames type
      | staticArray elmtType elmtCount => exact reached_none _

/-- An element without bytes is reached through the fields in front of it. -/
theorem reached_decl
    (hempty : AllOnEmpty loaders object sizes)
    (hfollow : Follow (serializers loaders) grammars)
    (hleast : ∀ name known, Grammar.Least (grammars name known) (sizes name known))
    (hnames : ∀ name known, Reached (counters name known) (reaches name known))
    (decl : Decl declared) :
    Reached (decl.built order (serializers loaders) counters) (decl.reach sizes reaches) := by
  cases decl with
  | enum numbers => exact reached_none _
  | typedef type => exact reached_varType order hempty hfollow hleast hnames type
  | message parent fields =>
      have hfields := reached_fields order hempty hfollow hleast hnames fields
      cases parent with
      | none => exact hfields
      | some base =>
          exact .both (hfollow base.1 (mem_declared base)) (hleast base.1 (mem_declared base))
            (hnames base.1 (mem_declared base)) hfields

/-- The builders of a file are its serializers. -/
theorem builder_toSerializer
    (env : Environment declared) :
    (fun name known => (env.builder order name known).toSerializer) = env.serializer order := by
  funext name known
  refine env.compile_related
    (fun (x : Builder) y => x.toSerializer = y) (fun x y hxy decl => ?_) name known
  have heq : (fun name known => (x name known).toSerializer) = y :=
    funext fun name => funext fun known => hxy name known
  rw [← heq]
  rfl

theorem extent_leastSize
    (env : Environment declared) :
    (fun name known => (env.extent name known).leastSize) = env.leastSize := by
  funext name known
  refine env.compile_related
    (fun (x : Extent) y => x.leastSize = y) (fun x y hxy decl => ?_) name known
  have heq : (fun name known => (x name known).leastSize) = y :=
    funext fun name => funext fun known => hxy name known
  rw [← heq]
  rfl

/-- In a file, a container of elements without bytes can be reached and flooded. -/
theorem reached_environment
    (env : Environment declared) :
    ∀ name known, Reached (env.builder order name known).built (env.extent name known).reach := by
  induction env with
  | empty => exact fun name known => absurd known List.not_mem_nil
  | declare before last decl ih =>
      intro name known
      have hempty := onEmpty_environment order before
      have hfollow := scans_environment order before
      have hleast := least_environment order before
      rw [← loader_toSerializer] at hfollow
      simp only [Environment.builder, Environment.extent, Environment.compile]
      by_cases same : name = last
      · simp only [dif_pos same]
        have hdecl := reached_decl order hempty hfollow hleast ih decl
        rw [loader_toSerializer, ← builder_toSerializer, ← extent_leastSize] at hdecl
        exact hdecl
      · simp only [dif_neg same]
        exact ih name ((List.mem_cons.mp known).resolve_left same)

end Declarations

/-- A buffer with these bytes at its front. -/
def memoryOf
    (bytes : List UInt8)
    (pos : Nat) : UInt8 :=
  bytes.getD pos 0

theorem unread_memoryOf
    {bytes : List UInt8}
    (hlen : bytes.length < 2 ^ 64) :
    unread (start (memoryOf bytes) (UInt64.ofNat bytes.length)) = bytes := by
  have hword : (UInt64.ofNat bytes.length).toNat = bytes.length := by
    rw [UInt64.toNat_ofNat', Nat.mod_eq_of_lt hlen]
  rw [unread_start, hword]
  refine List.ext_getElem (bytesAt_length _ _ _) fun i hi hi' => ?_
  simp [bytesAt, memoryOf, hi']

section Names

variable (order : {declared : List String} → VarType declared → Compare)

/-- Only where a load goes matters to what is constructed behind it. -/
theorem reached_walks
    {α β γ : Type}
    {x : Load α} {y : Load β}
    (hxy : SameWalk x y)
    (c : Cursor) (before : γ) (behind : Cursor → γ) :
    reached x c before behind = reached y c before behind := by
  have hc := hxy c
  unfold reached
  cases hx : x c <;> cases hy : y c <;> rw [hx, hy] at hc <;> injection hc
  rename_i hcursor
  rw [hcursor]

/-- The number of elements depends on the moves of the cursor only. -/
theorem builtLoop_walks
    {α β : Type}
    {x : Load α} {y : Load β}
    (hxy : SameWalk x y)
    (own : Nat) (built : Cursor → Nat) (n : Nat) :
    builtLoop own x built n = builtLoop own y built n := by
  induction n with
  | zero => rfl
  | succ n ih =>
      funext c
      rw [builtLoop, builtLoop, ih, reached_walks hxy]

theorem builtBehind_walks
    {α β : Type}
    {x : Load α} {y : Load β}
    (hxy : SameWalk x y)
    (built : Cursor → Nat) :
    builtBehind x built = builtBehind y built := by
  funext c
  unfold builtBehind
  cases loadLength c with
  | returns n c' => exact congrFun (builtLoop_walks hxy 1 built n) c'
  | fails c' => rfl
  | overflows c' => rfl

theorem builtBoth_walks
    {α β : Type}
    {x : Load α} {y : Load β}
    (hxy : SameWalk x y)
    (first second : Cursor → Nat) :
    builtBoth x first second = builtBoth y first second := by
  funext c
  rw [builtBoth, builtBoth, reached_walks hxy]

variable {declared : List String}
variable {named plain : Names declared Serializer}
variable {counters counters' : Names declared (Cursor → Nat)}

theorem built_varType_walks
    (hnames : ∀ name known, SameWalk (named name known).load (plain name known).load)
    (hcounters : ∀ name known, counters name known = counters' name known)
    (type : VarType declared) :
    type.built order named counters = type.built order plain counters' := by
  have hload := generateVariableLoad_walks order hnames
  induction type with
  | userDefine name known => exact hcounters name known
  | primitive type => rfl
  | string => rfl
  | list elmtType ih => simp only [VarType.built, ih, builtBehind_walks (hload elmtType)]
  | array elmtType ih => simp only [VarType.built, ih, builtBehind_walks (hload elmtType)]
  | map keyType elmtType ihkey ihelmt =>
      simp only [VarType.built, ihkey, ihelmt, builtBoth_walks (hload keyType)]
      exact builtBehind_walks ((hload keyType).bind fun _ _ => (hload elmtType).map _ _) _

theorem built_field_walks
    (hnames : ∀ name known, SameWalk (named name known).load (plain name known).load)
    (hcounters : ∀ name known, counters name known = counters' name known)
    (field : FieldType declared) :
    field.built order named counters = field.built order plain counters' := by
  cases field with
  | plain type => exact built_varType_walks order hnames hcounters type
  | staticArray elmtType elmtCount =>
      simp only [FieldType.built, built_varType_walks order hnames hcounters,
        builtLoop_walks (generateVariableLoad_walks order hnames elmtType)]

/-- A field that is hidden by a length is a scalar, and has no elements. -/
theorem builtField_walks
    (hnames : ∀ name known, SameWalk (named name known).load (plain name known).load)
    (hcounters : ∀ name known, counters name known = counters' name known)
    {field : NamedField declared} {locals : List String}
    (hname : field.name ∉ ["nSize", "_buf_", "int32_t"] ∧
      (field.type.loadLoops → field.name ≠ "i"))
    (hlocals : field.name ∈ locals →
      ∃ type, field.type.primitive? = some type ∧ type.size ≤ 4) :
    Named.builtField order named counters locals field =
      field.type.built order plain counters' := by
  by_cases hmem : field.name ∈ locals
  · obtain ⟨type, htype, -⟩ := hlocals hmem
    rw [Named.builtField, if_pos (.inl hmem), plain_of_primitive? htype]
    rfl
  · have hseen : ¬ (field.name ∈ locals ∨ field.name ∈ ["nSize", "_buf_", "int32_t"] ∨
        (field.type.loadLoops ∧ field.name = "i")) := by
      rintro (h | h | ⟨hloops, hi⟩)
      · exact hmem h
      · exact hname.1 h
      · exact hname.2 hloops hi
    rw [Named.builtField, if_neg hseen, built_field_walks order hnames hcounters]

theorem builtFields_walks
    (hnames : ∀ name known, SameWalk (named name known).load (plain name known).load)
    (hcounters : ∀ name known, counters name known = counters' name known)
    {fields : List (NamedField declared)}
    (hharmless : LoadHarmless fields)
    (locals : List String)
    (hlocals : ∀ field ∈ fields, field.name ∈ locals →
      ∃ type, field.type.primitive? = some type ∧ type.size ≤ 4) :
    Named.builtFields order named counters locals fields =
      builtFields order plain counters' (fields.map NamedField.type) := by
  induction fields generalizing locals with
  | nil => rfl
  | cons field fields ih =>
      obtain ⟨hfield, hlater, hrest⟩ := loadHarmless_cons.mp hharmless
      obtain ⟨hfirst, hothers⟩ := List.forall_mem_cons.mp hlocals
      have htail := ih hrest (Named.lengthLocals field ++ locals)
        (hidden_lengthLocals hlater hothers)
      simp only [Named.builtFields, List.map_cons, builtFields, htail,
        builtField_walks order hnames hcounters hfield hfirst]
      exact builtBoth_walks (loadField_walks order hnames hfield hfirst) _ _

/-- A declaration whose field names are harmless builds as many elements as its layout. -/
theorem built_compileDecl
    (hnames : ∀ name known, SameWalk (named name known).load (plain name known).load)
    (hcounters : ∀ name known, counters name known = counters' name known)
    (decl : NamedDecl declared)
    (hharmless : decl.HasFields LoadHarmless) :
    Named.built order named counters decl = decl.layout.built order plain counters' := by
  cases decl with
  | enum numbers => rfl
  | typedef type => exact built_varType_walks order hnames hcounters type
  | message parent fields =>
      have hfields := builtFields_walks order hnames hcounters hharmless []
        (fun _ _ hmem => absurd hmem List.not_mem_nil)
      cases parent with
      | none => exact hfields
      | some base =>
          simp only [Named.built, NamedDecl.layout, Decl.built, hfields, hcounters]
          exact builtBoth_walks (hnames base.1 (mem_declared base)) _ _

/-- Every message of a harmless file. By induction on the file. -/
theorem built_layout
    {file : IdlFile declared}
    (hharmless : file.Forall (NamedDecl.HasFields LoadHarmless))
    (name : String) (known : name ∈ declared) :
    (file.builder order name known).built = (file.layout.builder order name known).built := by
  refine (IdlFile.compile_related_layout
    (fun x y : Builder => SameWalk x.load y.load ∧ x.built = y.built)
    (fun {declared} x y hnames decl hdecl => ?_) hharmless name known).2
  have hwalks := fun name known => (hnames name known).1
  have hcounters := fun name known => (hnames name known).2
  exact ⟨@walks_compileDecl order declared (fun name known => (x name known).toSerializer)
      (fun name known => (y name known).toSerializer) hwalks decl hdecl,
    built_compileDecl order hwalks hcounters decl hdecl⟩

end Names

/-- A struct without fields, and a struct with a list of such structs. -/
def crate : IdlFile ["Crate", "Empty"] :=
  .declare (.declare .empty "Empty" (.message none [])) "Crate"
    (.message none [⟨"items", .plain (.list (.userDefine "Empty" (by simp)))⟩])

theorem crate_harmless :
    crate.Forall (NamedDecl.HasFields LoadHarmless) := by
  refine ⟨⟨trivial, ?_⟩, ?_⟩
  · simp [NamedDecl.HasFields, LoadHarmless]
  · simp [NamedDecl.HasFields, LoadHarmless]

/-- The builder of crates. -/
def crateBuilder : Builder :=
  crate.builder (fun _ => .ofWords) "Crate" (by simp)

theorem crate_plain :
    (crate.layout.extent "Crate" (by simp)).plain := by
  refine ⟨fun _ h => (by cases h), fun field hfield => ?_⟩
  obtain rfl := List.mem_singleton.mp hfield
  exact ⟨fun _ h => (by cases h), fun _ h => (by cases h)⟩

end Idlc
end Gamnet
