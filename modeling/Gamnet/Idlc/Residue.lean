import Gamnet.Idlc.LeastSize

/-!
# What Load keeps of the object before

Two objects are loaded from the same bytes. Scalars, strings and static arrays are
overwritten. The elements of a list and of an array, and the entries of a map, stay in
front of the loaded ones, or among them. After every Load that succeeds the objects are
equal exactly if they agree before in all lists, arrays and maps outside the static arrays
(`load_forgets_iff`), unless no buffer is long enough for an object of the type. This is so
in a file in which Load hides no field: a hidden field keeps what it holds.
-/

namespace Gamnet
namespace Idlc

open LittleEndian Reader

section Types

variable {declared : List String}
variable (same : Names declared (Value → Value → Prop))

/-- Two variables of a type agree in the containers to which Load adds. -/
def VarType.agrees : VarType declared → Value → Value → Prop
  | .primitive _, _, _ => True
  | .string, _, _ => True
  | .userDefine name known, x, y => same name known x y
  | _, x, y => x = y

/-- A static array is overwritten. -/
def FieldType.agrees : FieldType declared → Value → Value → Prop
  | .plain type, x, y => type.agrees same x y
  | .staticArray _ _, _, _ => True

def agreesFields : List (FieldType declared) → List Value → List Value → Prop
  | field :: fields, x :: xs, y :: ys => field.agrees same x y ∧ agreesFields fields xs ys
  | _, _, _ => True

/-- Two objects of a declared type agree in the containers to which Load adds. -/
def Decl.agrees : Decl declared → Value → Value → Prop
  | .typedef type, x, y => type.agrees same x y
  | .message none fields, .record none xs, .record none ys => agreesFields same fields xs ys
  | .message (some base) fields, .record (some x) xs, .record (some y) ys =>
      same base.1 (mem_declared base) x y ∧ agreesFields same fields xs ys
  | _, _, _ => True

end Types

/-- Two objects agree in all containers to which Load adds. -/
def Environment.agrees
    {declared : List String}
    (env : Environment declared) : Names declared (Value → Value → Prop) :=
  env.compile Decl.agrees

/-- No element is added for a length of zero. -/
theorem pushed_of_zeros
    {α : Type}
    {x : Load α} {c : Cursor} {rest : List UInt8}
    (hunread : unread c = List.replicate 4 0 ++ rest) :
    pushed x c = [] := by
  have hzero : encode 4 0 = List.replicate 4 0 := rfl
  obtain ⟨c', hlength, -⟩ := reads_loadLength (n := 0) (by decide) c rest (by rw [hzero, hunread])
  rw [pushed, hlength]
  rfl

/-- A load that came back has overwritten the variable. -/
theorem assigned_eq
    {x : Load Value} {c c' : Cursor} {a : Value}
    (hx : x c = .returns a c')
    (v w : Value) :
    assigned x v c = assigned x w c := by
  rw [assigned_of_returns hx, assigned_of_returns hx]

/-- What Load leaves tells two objects apart exactly if they disagree, and does so on the
shortest encoding. -/
structure Distinguishes
    (left : Value → Cursor → Value)
    (load : Load Value)
    (object : Value → Prop)
    (same : Value → Value → Prop)
    (m : Option Nat) : Prop where
  overwrites : ∀ {x y c a c'}, object x → object y → same x y →
    load c = .returns a c' → left x c = left y c
  keeps : ∀ {x y n c rest}, object x → object y → m = some n →
    unread c = List.replicate n 0 ++ rest → left x c = left y c → same x y

section Declarations

variable (order : {declared : List String} → VarType declared → Compare)
variable {declared : List String}
variable {loaders : Names declared Loader}
variable {grammars : Names declared (Grammar Value)}
variable {object : Names declared (Value → Prop)}
variable {same : Names declared (Value → Value → Prop)}
variable {sizes : Names declared (Option Nat)}

/-- The loaders of a set of names tell the objects of the names apart. -/
def AllDistinguish
    (loaders : Names declared Loader)
    (object : Names declared (Value → Prop))
    (same : Names declared (Value → Value → Prop))
    (sizes : Names declared (Option Nat)) : Prop :=
  ∀ name known, Distinguishes (loaders name known).left (loaders name known).load
    (object name known) (same name known) (sizes name known)

/-- An object that is replaced has nothing left to differ in. -/
theorem distinguishes_overwritten
    (load : Load Value)
    (object : Value → Prop)
    (m : Option Nat) :
    Distinguishes (assigned load) load object (fun _ _ => True) m where
  overwrites := fun _ _ _ hload => assigned_eq hload _ _
  keeps := fun _ _ _ _ _ => trivial

/-- A container to which elements are added. -/
theorem distinguishes_added
    {α β : Type}
    {load : Load Value}
    {object : Value → Prop}
    (parts : Value → List α)
    (added : List α → List β → Value)
    (elmt : Load β)
    (hadded : ∀ v, object v → added (parts v) [] = v) :
    Distinguishes (fun v c => added (parts v) (pushed elmt c)) load object Eq (some 4) where
  overwrites := by
    rintro x y c a c' - - rfl -
    rfl
  keeps := by
    intro x y n c rest hx hy hn hunread hleft
    cases hn
    rw [pushed_of_zeros hunread, hadded x hx, hadded y hy] at hleft
    exact hleft

/-- What Load leaves tells the objects of a type apart, if it does so for the named types. -/
theorem distinguishes_varType
    (hnames : AllDistinguish loaders object same sizes)
    (type : VarType declared) :
    Distinguishes (type.left order loaders)
      (generateVariableLoad order (serializers loaders) type)
      (type.isObject order object) (type.agrees same) (type.leastSize sizes) := by
  cases type with
  | primitive type => exact distinguishes_overwritten _ _ _
  | string => exact distinguishes_overwritten _ _ _
  | userDefine name known => exact hnames name known
  | list elmtType =>
      refine distinguishes_added Value.elmts (fun old new => .seq (old ++ new)) _ fun v hv => ?_
      cases v with
      | seq elmts => exact congrArg Value.seq (List.append_nil elmts)
      | _ => exact hv.elim
  | array elmtType =>
      refine distinguishes_added Value.elmts (fun old new => .seq (old ++ new)) _ fun v hv => ?_
      cases v with
      | seq elmts => exact congrArg Value.seq (List.append_nil elmts)
      | _ => exact hv.elim
  | map keyType elmtType =>
      refine distinguishes_added Value.entries
        (fun old new => .map ((order keyType).insertAll old new)) _ fun v hv => ?_
      cases v with
      | map entries => rfl
      | _ => exact hv.elim

theorem distinguishes_field
    (hnames : AllDistinguish loaders object same sizes)
    (field : FieldType declared) :
    Distinguishes (field.left order loaders)
      (generateFieldLoad order (serializers loaders) field)
      (field.isObject order object) (field.agrees same) (field.leastSize sizes) := by
  cases field with
  | plain type => exact distinguishes_varType order hnames type
  | staticArray elmtType elmtCount =>
      refine ⟨?_, fun _ _ _ _ _ => trivial⟩
      intro x y c a c' hx hy _ hload
      cases hprim : elmtType.primitive? with
      | some type =>
          simp only [FieldType.left, hprim]
          exact assigned_eq hload x y
      | none =>
          -- both arrays are as long as the elements that are assigned to them
          cases x <;> try exact hx.elim
          cases y <;> try exact hy.elim
          simp only [generateFieldLoad, hprim] at hload
          obtain ⟨elmts, hcounted, -⟩ := returns_map hload
          have hmany := (returns_counted hcounted).2
          have hlen := length_of_many hmany
          simp only [FieldType.left, hprim, collected_of_returns hmany, Value.elmts, hlen,
            List.drop_of_length_le hx.1.le, List.drop_of_length_le hy.1.le]

/-- Fields that agree are left the same. -/
theorem overwrites_fields
    (hnames : AllDistinguish loaders object same sizes)
    {fields : List (FieldType declared)} {xs ys : List Value}
    (hx : List.Forall₂ (FieldType.isObject order object) fields xs)
    (hy : List.Forall₂ (FieldType.isObject order object) fields ys)
    (hsame : agreesFields same fields xs ys)
    {c c' : Cursor} {values : List Value}
    (hload : loadFields order (serializers loaders) fields c = .returns values c') :
    leftFields order loaders fields xs c = leftFields order loaders fields ys c := by
  induction hx generalizing ys c c' values with
  | nil =>
      cases hy
      rfl
  | cons hxfield _ ih =>
      obtain _ | ⟨hyfield, hyfields⟩ := hy
      obtain ⟨v, c₁, hfield, hrest⟩ := returns_bind hload
      obtain ⟨values', hfields, -⟩ := returns_map hrest
      rw [leftFields, leftFields, reached_of_returns hfield, reached_of_returns hfield,
        (distinguishes_field order hnames _).overwrites hxfield hyfield hsame.1 hfield,
        ih hyfields hsame.2 hfields]

/-- Objects that are left the same by zeros agree in every field. -/
theorem keeps_fields
    (hfollow : Follow (serializers loaders) grammars)
    (hleast : ∀ name known, Grammar.Least (grammars name known) (sizes name known))
    (hnames : AllDistinguish loaders object same sizes)
    {fields : List (FieldType declared)} {xs ys : List Value}
    (hx : List.Forall₂ (FieldType.isObject order object) fields xs)
    (hy : List.Forall₂ (FieldType.isObject order object) fields ys)
    {n : Nat} {c : Cursor} {rest : List UInt8}
    (hn : leastFields sizes fields = some n)
    (hunread : unread c = List.replicate n 0 ++ rest)
    (hleft : leftFields order loaders fields xs c = leftFields order loaders fields ys c) :
    agreesFields same fields xs ys := by
  induction hx generalizing ys n c with
  | nil => trivial
  | @cons field x fields xs hxfield _ ih =>
      obtain _ | ⟨hyfield, hyfields⟩ := hy
      obtain ⟨n₁, n₂, hn₁, hn₂, rfl⟩ := sumLeast_eq_some hn
      rw [List.replicate_add, List.append_assoc] at hunread
      obtain ⟨v, c₁, hfield, hunread₁, -⟩ :=
        (scans_field order hfollow field).loads_zeros (least_field order hleast field) hn₁ hunread
      rw [leftFields, leftFields, reached_of_returns hfield, reached_of_returns hfield] at hleft
      obtain ⟨hhead, htail⟩ := List.cons.inj hleft
      exact ⟨(distinguishes_field order hnames field).keeps hxfield hyfield hn₁ hunread hhead,
        ih hyfields hn₂ hunread₁ htail⟩

/-- The parent is overwritten first, and the fields from where its Load came to an end. -/
theorem overwrites_message
    (hnames : AllDistinguish loaders object same sizes)
    {parent : Option {name : String // name ∈ declared}} {fields : List (FieldType declared)}
    {x y a : Value} {c c' : Cursor}
    (hx : Decl.isObject order object (.message parent fields) x)
    (hy : Decl.isObject order object (.message parent fields) y)
    (hsame : Decl.agrees same (.message parent fields) x y)
    (hload : (compileLoader order loaders (.message parent fields)).load c = .returns a c') :
    Decl.left order loaders (.message parent fields) x c =
      Decl.left order loaders (.message parent fields) y c := by
  cases x with
  | record px xs =>
      cases y with
      | record py ys =>
          obtain ⟨hpx, hxs⟩ := hx
          obtain ⟨hpy, hys⟩ := hy
          cases hpx with
          | none =>
              cases hpy
              obtain ⟨values, hfields, -⟩ := returns_map hload
              exact congrArg (Value.record none)
                (overwrites_fields order hnames hxs hys hsame hfields)
          | @some base x hx =>
              cases hpy with
              | @some _ y hy =>
                  obtain ⟨v, c₁, hbase, hrest⟩ := returns_bind hload
                  obtain ⟨values, hfields, -⟩ := returns_map hrest
                  have hload : (loaders base.1 (mem_declared base)).load c = .returns v c₁ := hbase
                  have hparent := (hnames base.1 (mem_declared base)).overwrites hx hy hsame.1 hload
                  have hvalues := overwrites_fields order hnames hxs hys hsame.2 hfields
                  simp only [Decl.left, hparent, reached_of_returns hload, hvalues]
      | _ => exact hy.elim
  | _ => exact hx.elim

theorem keeps_message
    (hfollow : Follow (serializers loaders) grammars)
    (hleast : ∀ name known, Grammar.Least (grammars name known) (sizes name known))
    (hnames : AllDistinguish loaders object same sizes)
    {parent : Option {name : String // name ∈ declared}} {fields : List (FieldType declared)}
    {x y : Value} {n : Nat} {c : Cursor} {rest : List UInt8}
    (hx : Decl.isObject order object (.message parent fields) x)
    (hy : Decl.isObject order object (.message parent fields) y)
    (hn : Decl.leastSize sizes (.message parent fields) = some n)
    (hunread : unread c = List.replicate n 0 ++ rest)
    (hleft : Decl.left order loaders (.message parent fields) x c =
      Decl.left order loaders (.message parent fields) y c) :
    Decl.agrees same (.message parent fields) x y := by
  cases x with
  | record px xs =>
      cases y with
      | record py ys =>
          obtain ⟨hpx, hxs⟩ := hx
          obtain ⟨hpy, hys⟩ := hy
          cases hpx with
          | none =>
              cases hpy
              injection hleft with _ hfields
              exact keeps_fields order hfollow hleast hnames hxs hys hn hunread hfields
          | @some base x hx =>
              cases hpy with
              | @some _ y hy =>
                  obtain ⟨n₁, n₂, hn₁, hn₂, rfl⟩ := sumLeast_eq_some hn
                  rw [List.replicate_add, List.append_assoc] at hunread
                  obtain ⟨v, c₁, hbase, hunread₁, -⟩ :=
                    (hfollow base.1 (mem_declared base)).loads_zeros
                      (hleast base.1 (mem_declared base)) hn₁ hunread
                  have hload : (loaders base.1 (mem_declared base)).load c = .returns v c₁ := hbase
                  simp only [Decl.left, reached_of_returns hload, Value.record.injEq,
                    Option.some.injEq] at hleft
                  exact ⟨(hnames base.1 (mem_declared base)).keeps hx hy hn₁ hunread hleft.1,
                    keeps_fields order hfollow hleast hnames hxs hys hn₂ hunread₁ hleft.2⟩
      | _ => exact hy.elim
  | _ => exact hx.elim

theorem distinguishes_decl
    (hfollow : Follow (serializers loaders) grammars)
    (hleast : ∀ name known, Grammar.Least (grammars name known) (sizes name known))
    (hnames : AllDistinguish loaders object same sizes)
    (decl : Decl declared) :
    Distinguishes (compileLoader order loaders decl).left (compileLoader order loaders decl).load
      (decl.isObject order object) (decl.agrees same) (decl.leastSize sizes) := by
  cases decl with
  | enum numbers => exact distinguishes_overwritten _ _ _
  | typedef type => exact distinguishes_varType order hnames type
  | message parent fields =>
      exact {
        overwrites := overwrites_message order hnames
        keeps := keeps_message order hfollow hleast hnames }

/-- Every message. By induction on the file. -/
theorem distinguishes_environment
    (env : Environment declared) :
    AllDistinguish (env.loader order) (env.isObject order) env.agrees env.leastSize := by
  induction env with
  | empty => exact fun name known => absurd known List.not_mem_nil
  | declare before last decl ih =>
      intro name known
      have hfollow := scans_environment order before
      rw [← loader_toSerializer] at hfollow
      simp only [Environment.loader, Environment.isObject, Environment.agrees,
        Environment.leastSize, Environment.compile]
      by_cases same : name = last
      · simp only [dif_pos same]
        exact distinguishes_decl order hfollow (least_environment order before) ih decl
      · simp only [dif_neg same]
        exact ih name ((List.mem_cons.mp known).resolve_left same)

end Declarations

/-- A struct Bag with a list of numbers. -/
def bag : IdlFile ["Bag"] :=
  .declare .empty "Bag" (.message none [⟨"values", .plain (.list (.primitive .int32))⟩])

theorem bag_clear :
    bag.Forall (NamedDecl.HasFields LoadClear) := by
  refine ⟨trivial, ?_⟩
  simp [NamedDecl.HasFields, LoadClear]

/-- The loader of bags. -/
def bagLoader : Loader :=
  bag.loader (fun _ => .ofWords) "Bag" (by simp)

theorem isObject_bag
    {numbers : List Value}
    (hnumbers : ∀ v ∈ numbers, ∃ n < 2 ^ 32, v = .word n) :
    bag.layout.isObject (fun _ => .ofWords) "Bag" (by simp) (.record none [.seq numbers]) := by
  refine ⟨.none, .cons ?_ .nil⟩
  intro v hv
  obtain ⟨n, hn, rfl⟩ := hnumbers v hv
  exact hn

/-- A struct U with a string x and a number x_length. -/
def lengthed : IdlFile ["U"] :=
  .declare .empty "U"
    (.message none [⟨"x", .plain .string⟩, ⟨"x_length", .plain (.primitive .uint32)⟩])

/-- The number is loaded into the length of x, and the field keeps what it holds. -/
example (n : Nat) :
    (lengthed.loader (fun _ => .ofWords) "U" (by simp)).left (.record none [.text [], .word n])
        (start (fun i => [0, 0, 0, 0, 9, 0, 0, 0].getD i 0) 8) =
      .record none [.text [], .word n] := by
  rfl

end Idlc
end Gamnet
