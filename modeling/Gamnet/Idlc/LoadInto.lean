import Gamnet.Idlc.FieldNames
import Gamnet.Idlc.RoundTrip

/-!
# Load into an object that is already there

No statement that GenerateVariableLoad emits reads the variable it loads into. Whether
Load succeeds and which bytes it takes therefore does not depend on the object, but what
it leaves there does: a scalar and a string are overwritten, elements and entries are
added to the container that is there, and a Load that gives up leaves what it has loaded
so far. The variables that the loops declare for elements and keys are fresh ones.

`Loader` carries this beside a serializer. On a fresh object it leaves the value that
the serializer loads (`left_initial`). A field that a local variable or a parameter hides is
not loaded at all, and keeps what it holds.
-/

namespace Gamnet
namespace Idlc

open LittleEndian Reader Lib

/-- A serializer with the object that the default constructor makes, and the object that
Load leaves of one that was there. -/
structure Loader extends Serializer where
  initial : Value
  left : Value → Cursor → Value

/-- A variable that is overwritten if the load succeeds. -/
def assigned (x : Load Value) (v : Value) (c : Cursor) : Value :=
  match x c with
  | .returns a _ => a
  | _ => v

/-- The elements that a loop has loaded before it gives up. -/
def collected {α : Type} (x : Load α) : Nat → Cursor → List α
  | 0, _ => []
  | n + 1, c =>
      match x c with
      | .returns a c' => a :: collected x n c'
      | _ => []

/-- The elements behind a length. -/
def pushed {α : Type} (x : Load α) (c : Cursor) : List α :=
  match loadLength c with
  | .returns n c' => collected x n c'
  | _ => []

/-- The statements behind a load are reached if it succeeds. -/
def reached {α β : Type} (x : Load α) (c : Cursor) (before : β) (behind : Cursor → β) : β :=
  match x c with
  | .returns _ c' => behind c'
  | _ => before

/-- The elements of a container. -/
def Value.elmts : Value → List Value
  | .seq elmts => elmts
  | _ => []

/-- The entries of a map. -/
def Value.entries : Value → List (Value × Value)
  | .map entries => entries
  | _ => []

section Types

variable (order : {declared : List String} → VarType declared → Compare)
variable {declared : List String}
variable (loaders : Names declared Loader)

/-- The serializers of the loaders. -/
def serializers : Names declared Serializer :=
  fun name known => (loaders name known).toSerializer

/-- A variable as it is declared. The bits of a scalar are not set. -/
def VarType.initial : VarType declared → Value
  | .primitive _ => .word 0
  | .string => .text []
  | .userDefine name known => (loaders name known).initial
  | .list _ => .seq []
  | .array _ => .seq []
  | .map _ _ => .map []

def FieldType.initial : FieldType declared → Value
  | .plain type => type.initial loaders
  | .staticArray elmtType elmtCount => .seq (List.replicate elmtCount (elmtType.initial loaders))

/-- The object of a declared type that its default constructor makes. -/
def Decl.initial : Decl declared → Value
  | .enum numbers => .word ((enumValues 0 numbers).headD 0)
  | .typedef type => type.initial loaders
  | .message parent fields =>
      .record (parent.map fun base => (loaders base.1 (mem_declared base)).initial)
        (fields.map fun field => field.initial loaders)

/-- What the statements of GenerateVariableLoad leave in a variable. -/
def VarType.left : VarType declared → Value → Cursor → Value
  | .userDefine name known, v, c => (loaders name known).left v c
  | .primitive type, v, c => assigned (loadWord type.size) v c
  | .string, v, c =>
      assigned (generateVariableLoad order (serializers loaders) .string) v c
  | .map keyType elmtType, v, c =>
      .map ((order keyType).insertAll v.entries (pushed (do
        let key ← generateVariableLoad order (serializers loaders) keyType
        let elmt ← generateVariableLoad order (serializers loaders) elmtType
        pure (key, elmt)) c))
  | .list elmtType, v, c =>
      .seq (v.elmts ++ pushed (generateVariableLoad order (serializers loaders) elmtType) c)
  | .array elmtType, v, c =>
      .seq (v.elmts ++ pushed (generateVariableLoad order (serializers loaders) elmtType) c)

/-- What they leave in a field. The elements of a static array are assigned one after the
other. -/
def FieldType.left : FieldType declared → Value → Cursor → Value
  | .plain type, v, c => type.left order loaders v c
  | .staticArray elmtType elmtCount, v, c =>
      match elmtType.primitive? with
      | some _ =>
          assigned (generateFieldLoad order (serializers loaders)
            (.staticArray elmtType elmtCount)) v c
      | none =>
          let elmts := collected (generateVariableLoad order (serializers loaders) elmtType)
            elmtCount c
          .seq (elmts ++ v.elmts.drop elmts.length)

/-- What Load leaves in the fields of a message. -/
def leftFields : List (FieldType declared) → List Value → Cursor → List Value
  | field :: fields, v :: values, c =>
      field.left order loaders v c ::
        reached (generateFieldLoad order (serializers loaders) field) c values
          (leftFields fields values)
  | _, values, _ => values

/-- What Load leaves in an object of a declared type. -/
def Decl.left : Decl declared → Value → Cursor → Value
  | .enum numbers, v, c => assigned (loadWord (enumSize numbers)) v c
  | .typedef type, v, c => type.left order loaders v c
  | .message none fields, .record none values, c =>
      .record none (leftFields order loaders fields values c)
  | .message (some base) fields, .record (some v) values, c =>
      .record (some ((loaders base.1 (mem_declared base)).left v c))
        (reached (loaders base.1 (mem_declared base)).load c values
          (leftFields order loaders fields values))
  | _, v, _ => v

/-- The loader of a declaration. -/
def compileLoader (decl : Decl declared) : Loader where
  toSerializer := compileDecl order (serializers loaders) decl
  initial := decl.initial loaders
  left := decl.left order loaders

end Types

/-- The loaders of the names that a file declares. -/
def Environment.loader
    (order : {declared : List String} → VarType declared → Compare)
    {declared : List String}
    (env : Environment declared) : Names declared Loader :=
  env.compile (compileLoader order)

section Objects

variable (order : {declared : List String} → VarType declared → Compare)
variable {declared : List String}
variable (objects : Names declared (Value → Prop))

/-- The objects of a variable type, however long they are. -/
def VarType.isObject : VarType declared → Value → Prop
  | .primitive type, .word n => n < type.capacity
  | .string, .text _ => True
  | .userDefine name known, v => objects name known v
  | .list elmtType, .seq elmts => ∀ v ∈ elmts, elmtType.isObject v
  | .array elmtType, .seq elmts => ∀ v ∈ elmts, elmtType.isObject v
  | .map keyType elmtType, .map entries =>
      entries.Pairwise (fun a b => (order keyType).less a.1 b.1 = true) ∧
        ∀ entry ∈ entries, keyType.isObject entry.1 ∧ elmtType.isObject entry.2
  | _, _ => False

def FieldType.isObject : FieldType declared → Value → Prop
  | .plain type, v => type.isObject order objects v
  | .staticArray elmtType elmtCount, .seq elmts =>
      elmts.length = elmtCount ∧ ∀ v ∈ elmts, elmtType.isObject order objects v
  | _, _ => False

/-- The objects of a declared type, however long they are. -/
def Decl.isObject : Decl declared → Value → Prop
  | .enum numbers, .word n => n < 256 ^ enumSize numbers
  | .typedef type, v => type.isObject order objects v
  | .message parent fields, .record parentValue values =>
      Option.Rel (fun base v => objects base.1 (mem_declared base) v) parent parentValue ∧
        List.Forall₂ (FieldType.isObject order objects) fields values
  | _, _ => False

end Objects

/-- The objects of the names that a file declares, however long they are. -/
def Environment.isObject
    (order : {declared : List String} → VarType declared → Compare)
    {declared : List String}
    (env : Environment declared) : Names declared (Value → Prop) :=
  env.compile (Decl.isObject order)

/-- The loaders of a file are its serializers. -/
theorem loader_toSerializer
    (order : {declared : List String} → VarType declared → Compare)
    {declared : List String}
    (env : Environment declared) :
    serializers (env.loader order) = env.serializer order := by
  funext name known
  refine env.compile_related
    (fun (x : Loader) y => x.toSerializer = y) (fun x y hxy decl => ?_) name known
  have heq : serializers x = y := funext fun name => funext fun known => hxy name known
  rw [← heq]
  rfl

/-- Whether a Load is followed by the object it leaves makes no difference to what it reads. -/
theorem loader_load
    (order : {declared : List String} → VarType declared → Compare)
    {declared : List String}
    (env : Environment declared)
    (name : String)
    (known : name ∈ declared) :
    (env.loader order name known).load = (env.serializer order name known).load := by
  rw [← loader_toSerializer]
  rfl

section Fresh

variable {α β : Type}

/-- A Load that succeeds replaces the object. -/
theorem assigned_of_returns
    {x : Load Value} {c c' : Cursor} {a : Value}
    (hx : x c = .returns a c')
    (v : Value) :
    assigned x v c = a := by
  rw [assigned, hx]

theorem reached_of_returns
    {x : Load α} {c c' : Cursor} {a : α}
    (hx : x c = .returns a c')
    (before : β) (behind : Cursor → β) :
    reached x c before behind = behind c' := by
  rw [reached, hx]

/-- A load in two parts came through both of them. -/
theorem returns_bind
    {x : Load α} {f : α → Load β} {c c' : Cursor} {b : β}
    (h : (x >>= f) c = .returns b c') :
    ∃ a c₁, x c = .returns a c₁ ∧ f a c₁ = .returns b c' := by
  cases hx : x c with
  | returns a c₁ =>
      rw [bind_of_returns hx] at h
      exact ⟨a, c₁, rfl, h⟩
  | fails c₁ =>
      rw [bind_of_fails hx] at h
      cases h
  | overflows c₁ =>
      rw [bind_of_overflows hx] at h
      cases h

theorem returns_map
    {x : Load α} {f : α → β} {c c' : Cursor} {b : β}
    (h : (x >>= fun a => pure (f a)) c = .returns b c') :
    ∃ a, x c = .returns a c' ∧ b = f a := by
  obtain ⟨a, c₁, hx, hpure⟩ := returns_bind h
  cases hpure
  exact ⟨a, hx, rfl⟩

/-- A loop that came to its end has loaded all its elements. -/
theorem collected_of_returns
    {x : Load α} {n : Nat} {c c' : Cursor} {as : List α}
    (h : many x n c = .returns as c') :
    collected x n c = as := by
  induction n generalizing c c' as with
  | zero =>
      cases h
      rfl
  | succ n ih =>
      obtain ⟨a, c₁, hx, hrest⟩ := returns_bind h
      obtain ⟨as', hmany, rfl⟩ := returns_map hrest
      rw [collected, hx]
      exact congrArg (a :: ·) (ih hmany)

theorem returns_counted
    {limit n : Nat} {x : Load α} {c c' : Cursor} {as : List α}
    (h : counted limit x n c = .returns as c') :
    n < limit ∧ many x n c = .returns as c' := by
  unfold counted at h
  split_ifs at h with hlt
  · exact ⟨hlt, h⟩
  · obtain ⟨_, _, _, hover⟩ := returns_bind h
    cases hover

theorem length_of_many
    {x : Load α} {n : Nat} {c c' : Cursor} {as : List α}
    (h : many x n c = .returns as c') :
    as.length = n := by
  induction n generalizing c c' as with
  | zero =>
      cases h
      rfl
  | succ n ih =>
      obtain ⟨a, c₁, hx, hrest⟩ := returns_bind h
      obtain ⟨as', hmany, rfl⟩ := returns_map hrest
      rw [List.length_cons, ih hmany]

theorem length_of_checked
    {n : Nat} {c c' : Cursor} {bytes : List UInt8}
    (h : checked n c = .returns bytes c') :
    bytes.length = n := by
  unfold checked at h
  split_ifs at h
  cases h
  exact bytesAt_length ..

/-- A container that is read whole has all its elements pushed. -/
theorem pushed_of_returns
    {x : Load α} {f : List α → β} {c c' : Cursor} {b : β}
    (h : (loadLength >>= fun n => many x n >>= fun as => pure (f as)) c = .returns b c') :
    b = f (pushed x c) := by
  obtain ⟨n, c₁, hlength, hrest⟩ := returns_bind h
  obtain ⟨as, hmany, rfl⟩ := returns_map hrest
  rw [pushed, hlength]
  exact congrArg f (collected_of_returns hmany).symm

end Fresh

/-- On the object that its constructor makes, a loader leaves what it loads. -/
def Loader.Fresh (loader : Loader) : Prop :=
  ∀ c a c', loader.load c = .returns a c' → loader.left loader.initial c = a

section Declarations

variable (order : {declared : List String} → VarType declared → Compare)
variable {declared : List String}
variable {loaders : Names declared Loader}

theorem left_initial_varType
    (hnames : ∀ name known, (loaders name known).Fresh)
    (type : VarType declared)
    {c c' : Cursor} {a : Value}
    (h : generateVariableLoad order (serializers loaders) type c = .returns a c') :
    type.left order loaders (type.initial loaders) c = a := by
  cases type with
  | primitive type => exact assigned_of_returns h _
  | string => exact assigned_of_returns h _
  | userDefine name known => exact hnames name known c a c' h
  | list elmtType => exact (pushed_of_returns h).symm
  | array elmtType => exact (pushed_of_returns h).symm
  | map keyType elmtType =>
      exact (pushed_of_returns
        (f := fun entries => Value.map ((order keyType).insertAll [] entries)) h).symm

theorem left_initial_field
    (hnames : ∀ name known, (loaders name known).Fresh)
    (field : FieldType declared)
    {c c' : Cursor} {a : Value}
    (h : generateFieldLoad order (serializers loaders) field c = .returns a c') :
    field.left order loaders (field.initial loaders) c = a := by
  cases field with
  | plain type => exact left_initial_varType order hnames type h
  | staticArray elmtType elmtCount =>
      cases hprim : elmtType.primitive? with
      | some type =>
          simp only [FieldType.left, hprim]
          exact assigned_of_returns h _
      | none =>
          simp only [generateFieldLoad, hprim] at h
          simp only [FieldType.left, hprim, FieldType.initial]
          obtain ⟨elmts, hcounted, rfl⟩ := returns_map h
          have hmany := (returns_counted hcounted).2
          rw [collected_of_returns hmany]
          have hlen := length_of_many hmany
          simp [Value.elmts, hlen]

theorem left_initial_fields
    (hnames : ∀ name known, (loaders name known).Fresh)
    {fields : List (FieldType declared)}
    {c c' : Cursor} {values : List Value}
    (h : loadFields order (serializers loaders) fields c = .returns values c') :
    leftFields order loaders fields (fields.map fun field => field.initial loaders) c =
      values := by
  induction fields generalizing c c' values with
  | nil =>
      cases h
      rfl
  | cons field fields ih =>
      obtain ⟨v, c₁, hfield, hrest⟩ := returns_bind h
      obtain ⟨values', hfields, rfl⟩ := returns_map hrest
      rw [List.map_cons, leftFields, left_initial_field order hnames field hfield,
        reached_of_returns hfield, ih hfields]

theorem left_initial_decl
    (hnames : ∀ name known, (loaders name known).Fresh)
    (decl : Decl declared) :
    (compileLoader order loaders decl).Fresh := by
  intro c a c' h
  cases decl with
  | enum numbers => exact assigned_of_returns h _
  | typedef type => exact left_initial_varType order hnames type h
  | message parent fields =>
      cases parent with
      | none =>
          obtain ⟨values, hfields, rfl⟩ := returns_map h
          exact congrArg (Value.record none) (left_initial_fields order hnames hfields)
      | some base =>
          obtain ⟨v, c₁, hbase, hrest⟩ := returns_bind h
          obtain ⟨values, hfields, rfl⟩ := returns_map hrest
          have hload : (loaders base.1 (mem_declared base)).load c = .returns v c₁ := hbase
          have hleft := hnames base.1 (mem_declared base) c v c₁ hload
          have hvalues := left_initial_fields order hnames hfields
          change Value.record (some ((loaders base.1 (mem_declared base)).left
            (loaders base.1 (mem_declared base)).initial c))
              (reached (loaders base.1 (mem_declared base)).load c _ _) = _
          rw [hleft, reached_of_returns hload, hvalues]

/-- Into a fresh object Load loads what the serializer loads. -/
theorem left_initial
    (env : Environment declared)
    (name : String)
    (known : name ∈ declared) :
    (env.loader order name known).Fresh :=
  env.compile_forall Loader.Fresh
    (fun _ hnames decl => left_initial_decl order hnames decl) name known

end Declarations

namespace Named

section Types

variable (order : {declared : List String} → VarType declared → Compare)
variable {declared : List String}
variable (loaders : Names declared Loader)

/-- What the Load statements of a field leave in it. -/
def leftField
    (locals : List String)
    (field : NamedField declared)
    (v : Value) (c : Cursor) : Value :=
  if field.name ∈ locals ∨ field.name ∈ ["nSize", "_buf_", "int32_t"] ∨
      (field.type.loadLoops ∧ field.name = "i") then
    v
  else
    field.type.left order loaders v c

/-- What Load leaves in the fields of a message. -/
def leftFields :
    List String → List (NamedField declared) → List Value → Cursor → List Value
  | locals, field :: fields, v :: values, c =>
      leftField order loaders locals field v c ::
        reached (loadField order (serializers loaders) locals field) c values
          (leftFields (lengthLocals field ++ locals) fields values)
  | _, _, values, _ => values

/-- What Load leaves in an object of a declared type. -/
def left : NamedDecl declared → Value → Cursor → Value
  | .enum numbers, v, c => assigned (loadWord (enumSize numbers)) v c
  | .typedef type, v, c => type.left order loaders v c
  | .message none fields, .record none values, c =>
      .record none (leftFields order loaders [] fields values c)
  | .message (some base) fields, .record (some v) values, c =>
      .record (some ((loaders base.1 (mem_declared base)).left v c))
        (reached (loaders base.1 (mem_declared base)).load c values
          (leftFields order loaders [] fields values))
  | _, v, _ => v

/-- The loader of a declaration. -/
def compileLoader (decl : NamedDecl declared) : Loader where
  toSerializer := compileDecl order (serializers loaders) decl
  initial := decl.layout.initial loaders
  left := left order loaders decl

end Types

end Named

/-- The loaders of the names that a file declares. -/
def IdlFile.loader
    (order : {declared : List String} → VarType declared → Compare)
    {declared : List String}
    (file : IdlFile declared) : Names declared Loader :=
  file.compile (Named.compileLoader order)

/-- Two loaders load alike into fresh objects and into others. -/
structure Loader.LoadsLike (x y : Loader) : Prop where
  load : x.load = y.load
  initial : x.initial = y.initial
  left : x.left = y.left

section Layout

variable (order : {declared : List String} → VarType declared → Compare)
variable {declared : List String}
variable {named plain : Names declared Loader}

theorem left_varType_congr
    (hnames : ∀ name known, (named name known).LoadsLike (plain name known))
    (type : VarType declared) :
    type.left order named = type.left order plain := by
  have hload : ∀ type, generateVariableLoad order (serializers named) type =
      generateVariableLoad order (serializers plain) type :=
    generateVariableLoad_congr order fun name known => (hnames name known).load
  cases type <;> funext v c <;> simp only [VarType.left, hload]
  exact congrFun (congrFun (hnames _ _).left v) c

theorem left_field_congr
    (hnames : ∀ name known, (named name known).LoadsLike (plain name known))
    (field : FieldType declared) :
    field.left order named = field.left order plain := by
  have hload : ∀ type, generateVariableLoad order (serializers named) type =
      generateVariableLoad order (serializers plain) type :=
    generateVariableLoad_congr order fun name known => (hnames name known).load
  cases field with
  | plain type => exact left_varType_congr order hnames type
  | staticArray elmtType elmtCount =>
      funext v c
      simp only [FieldType.left, generateFieldLoad, hload]

/-- Fields with clear names leave what the layout leaves. -/
theorem leftFields_layout
    (hnames : ∀ name known, (named name known).LoadsLike (plain name known))
    {fields : List (NamedField declared)}
    (hclear : LoadClear fields)
    (locals : List String)
    (hlocals : ∀ field ∈ fields, field.name ∉ locals)
    (values : List Value) (c : Cursor) :
    Named.leftFields order named locals fields values c =
      leftFields order plain (fields.map NamedField.type) values c := by
  induction fields generalizing locals values c with
  | nil => cases values <;> rfl
  | cons field fields ih =>
      cases values with
      | nil => rfl
      | cons v values =>
          obtain ⟨hfield, hlater, hrest⟩ := loadClear_cons.mp hclear
          obtain ⟨hfirst, hothers⟩ := List.forall_mem_cons.mp hlocals
          have htail := fun c => ih hrest (Named.lengthLocals field ++ locals)
            (fun later hmem => notMem_lengthLocals (hlater later hmem) (hothers later hmem))
            values c
          have hload : Named.loadField order (serializers named) locals field =
              generateFieldLoad order (serializers plain) field.type := by
            rw [loadField_of_clear order hfield hfirst]
            exact generateFieldLoad_congr order (fun name known => (hnames name known).load) _
          have hname : ¬ (field.name ∈ locals ∨ field.name ∈ ["nSize", "_buf_", "int32_t"] ∨
              (field.type.loadLoops ∧ field.name = "i")) := by
            rintro (hmem | hmem | ⟨hloops, hi⟩)
            · exact hfirst hmem
            · exact hfield.1 hmem
            · exact hfield.2 hloops hi
          simp only [Named.leftFields, List.map_cons, leftFields, Named.leftField, if_neg hname,
            left_field_congr order hnames, hload, funext htail]

theorem initial_congr
    (hnames : ∀ name known, (named name known).LoadsLike (plain name known))
    (decl : Decl declared) :
    decl.initial named = decl.initial plain := by
  have hinitial := fun name known => (hnames name known).initial
  have htype : ∀ type : VarType declared, type.initial named = type.initial plain := by
    intro type
    cases type <;> simp only [VarType.initial, hinitial]
  have hfield : ∀ field : FieldType declared, field.initial named = field.initial plain := by
    intro field
    cases field <;> simp only [FieldType.initial, htype]
  cases decl <;> simp only [Decl.initial, htype, hfield, hinitial]

/-- A declaration with clear names has the Load of its layout. -/
theorem compileLoader_layout
    (hnames : ∀ name known, (named name known).LoadsLike (plain name known))
    (decl : NamedDecl declared)
    (hclear : decl.HasFields LoadClear) :
    (Named.compileLoader order named decl).LoadsLike
      (compileLoader order plain decl.layout) where
  load := @load_compileDecl order declared (serializers named) (serializers plain)
    (fun name known => (hnames name known).load) decl hclear
  initial := initial_congr hnames decl.layout
  left := by
    funext v c
    cases decl with
    | enum numbers => rfl
    | typedef type => exact congrFun (congrFun (left_varType_congr order hnames type) v) c
    | message parent fields =>
        have hfields := leftFields_layout order hnames hclear []
          (fun _ _ => List.not_mem_nil)
        have hleft := fun name known => (hnames name known).left
        have hload := fun name known => (hnames name known).load
        cases parent with
        | none =>
            cases v with
            | record base values =>
                cases base with
                | none => exact congrArg (Value.record none) (hfields values c)
                | some base => rfl
            | _ => rfl
        | some parent =>
            cases v with
            | record base values =>
                cases base with
                | none => rfl
                | some base =>
                    simp only [Named.compileLoader, Named.left, compileLoader, NamedDecl.layout,
                      Decl.left, hleft, hload, funext (hfields values)]
            | _ => rfl

/-- Every message of a file with clear names. By induction on the file. -/
theorem loader_layout
    {file : IdlFile declared}
    (hclear : file.Forall (NamedDecl.HasFields LoadClear))
    (name : String)
    (known : name ∈ declared) :
    (file.loader order name known).LoadsLike (file.layout.loader order name known) :=
  IdlFile.compile_related_layout Loader.LoadsLike
    (fun _ _ hnames decl => compileLoader_layout order hnames decl) hclear name known

theorem loader_store_layout
    {file : IdlFile declared}
    (hclear : file.Forall (NamedDecl.HasFields StoreClear))
    (name : String)
    (known : name ∈ declared) :
    (file.loader order name known).store = (file.layout.loader order name known).store :=
  IdlFile.compile_related_layout (fun x y : Loader => x.store = y.store)
    (fun {declared} x y hnames decl =>
      @store_compileDecl order declared (serializers x) (serializers y) hnames decl)
    hclear name known

end Layout

end Idlc
end Gamnet
