import Gamnet.Idlc.FieldNames

/-!
# The generated decoders and the end of their input

Every generated Load follows a grammar, which is built over the declarations
of a file like Load itself. The grammar says which bytes stand for which
object, and on which inputs the decoder does not stay in its buffer: those
where it comes to a static array of primitives that is longer than the bytes
left, and those where it goes through a static array of other elements up to
the limit of the counter.
-/

namespace Gamnet
namespace Idlc

open LittleEndian Reader

/-- Four bytes that are read as a length. -/
def lengthGrammar : Grammar Nat :=
  (Grammar.checked 4).map decode

/-- A scalar of a size. -/
def wordGrammar
    (size : Nat) : Grammar Value :=
  (Grammar.checked size).map fun bytes => .word (decode bytes)

/-- A length, and that many bytes. -/
def textGrammar : Grammar Value :=
  lengthGrammar >>= fun n => (Grammar.checked n).map .text

/-- A length, and that many words of a grammar. -/
def prefixedGrammar
    {α : Type}
    (f : List α → Value)
    (g : Grammar α) : Grammar Value :=
  lengthGrammar >>= fun n => (Grammar.many g n).map f

/-- A key and the element behind it. -/
def entryGrammar
    (key elmt : Grammar Value) : Grammar (Value × Value) :=
  key >>= fun k => elmt.map fun e => (k, e)

section Types

variable (order : {declared : List String} → VarType declared → Compare)
variable {declared : List String}
variable (grammars : Names declared (Grammar Value))

/-- The grammar of a variable type. -/
def VarType.grammar : VarType declared → Grammar Value
  | .primitive type => wordGrammar type.size
  | .string => textGrammar
  | .userDefine name known => grammars name known
  | .list elmtType => prefixedGrammar .seq elmtType.grammar
  | .array elmtType => prefixedGrammar .seq elmtType.grammar
  | .map keyType elmtType =>
      prefixedGrammar (fun entries => .map ((order keyType).insertAll [] entries))
        (entryGrammar keyType.grammar elmtType.grammar)

/-- The grammar of a field. A static array of primitives is copied unseen. -/
def FieldType.grammar : FieldType declared → Grammar Value
  | .plain type => type.grammar order grammars
  | .staticArray elmtType elmtCount =>
      match elmtType.primitive? with
      | some type =>
          (Grammar.copy (type.size * elmtCount)).map fun bytes =>
            .seq (words type.size elmtCount bytes)
      | none =>
          (Grammar.counted counterLimit (elmtType.grammar order grammars)
            elmtCount).map .seq

/-- The fields of a message one behind the other. -/
def fieldsGrammar : List (FieldType declared) → Grammar (List Value)
  | [] => pure []
  | field :: fields =>
      field.grammar order grammars >>= fun v =>
        (fieldsGrammar fields).map fun values => v :: values

/-- The grammar of a declared type. -/
def Decl.grammar : Decl declared → Grammar Value
  | .enum numbers => wordGrammar (enumSize numbers)
  | .typedef type => type.grammar order grammars
  | .message none fields =>
      (fieldsGrammar order grammars fields).map (.record none)
  | .message (some base) fields =>
      grammars base.1 (mem_declared base) >>= fun v =>
        (fieldsGrammar order grammars fields).map (.record (some v))

end Types

/-- The grammars of the names that a file declares. -/
def Environment.grammar
    (order : {declared : List String} → VarType declared → Compare)
    {declared : List String}
    (env : Environment declared) : Names declared (Grammar Value) :=
  env.compile (Decl.grammar order)

theorem scans_loadLength :
    Scans loadLength lengthGrammar :=
  (Scans.checked 4).map decode

theorem scans_loadWord
    (size : Nat) :
    Scans (loadWord size) (wordGrammar size) :=
  (Scans.checked size).map fun bytes => Value.word (decode bytes)

theorem scans_prefixed
    {α : Type}
    {x : Load α}
    {g : Grammar α}
    (f : List α → Value)
    (hx : Scans x g) :
    Scans (loadLength >>= fun n => many x n >>= fun as => pure (f as))
      (prefixedGrammar f g) :=
  scans_loadLength.bind fun n => (hx.many n).map f

section Declarations

variable (order : {declared : List String} → VarType declared → Compare)
variable {declared : List String}

/-- The decoders of a set of names follow the grammars of the names. -/
def Follow
    (serializer : Names declared Serializer)
    (grammars : Names declared (Grammar Value)) : Prop :=
  ∀ name known, Scans (serializer name known).load (grammars name known)

variable {serializer : Names declared Serializer}
variable {grammars : Names declared (Grammar Value)}

/-- The emitted code for a type follows its grammar, if that of the named types does. -/
theorem scans_varType
    (hnames : Follow serializer grammars)
    (type : VarType declared) :
    Scans (generateVariableLoad order serializer type)
      (type.grammar order grammars) := by
  induction type with
  | primitive type =>
      exact scans_loadWord type.size
  | string =>
      exact scans_loadLength.bind fun n => (Scans.checked n).map Value.text
  | userDefine name known =>
      exact hnames name known
  | list elmtType ih =>
      exact scans_prefixed .seq ih
  | array elmtType ih =>
      exact scans_prefixed .seq ih
  | map keyType elmtType ihkey ihelmt =>
      exact scans_prefixed (fun entries => .map ((order keyType).insertAll [] entries))
        (ihkey.bind fun key => ihelmt.map fun elmt => (key, elmt))

theorem scans_field
    (hnames : Follow serializer grammars)
    (field : FieldType declared) :
    Scans (generateFieldLoad order serializer field)
      (field.grammar order grammars) := by
  cases field with
  | plain type =>
      exact scans_varType order hnames type
  | staticArray elmtType elmtCount =>
      simp only [generateFieldLoad, FieldType.grammar]
      cases elmtType.primitive? with
      | some type =>
          exact (Scans.copy (type.size * elmtCount)).map fun bytes =>
            Value.seq (words type.size elmtCount bytes)
      | none =>
          exact ((scans_varType order hnames elmtType).counted counterLimit
            elmtCount).map Value.seq

theorem scans_fields
    (hnames : Follow serializer grammars)
    (fields : List (FieldType declared)) :
    Scans (loadFields order serializer fields)
      (fieldsGrammar order grammars fields) := by
  induction fields with
  | nil =>
      exact Scans.pure []
  | cons field fields ih =>
      exact (scans_field order hnames field).bind fun v =>
        ih.map fun values => v :: values

theorem scans_decl
    (hnames : Follow serializer grammars)
    (decl : Decl declared) :
    Scans (compileDecl order serializer decl).load
      (decl.grammar order grammars) := by
  cases decl with
  | enum numbers =>
      exact scans_loadWord (enumSize numbers)
  | typedef type =>
      exact scans_varType order hnames type
  | message parent fields =>
      have hfields := scans_fields order hnames fields
      cases parent with
      | none =>
          exact hfields.map (Value.record none)
      | some base =>
          exact (hnames base.1 (mem_declared base)).bind fun v =>
            hfields.map (Value.record (some v))

/-- Every emitted Load follows its grammar. By induction on the file. -/
theorem scans_environment
    (env : Environment declared) :
    Follow (env.serializer order) (env.grammar order) := by
  intro name known
  exact env.compile_related
    (fun (serializer : Serializer) grammar => Scans serializer.load grammar)
    (fun _ _ hnames decl => scans_decl order hnames decl) name known

end Declarations

/-- A struct Board with a static array of four numbers and a number behind it. -/
def board : IdlFile ["Board"] :=
  .declare .empty "Board"
    (.message none
      [⟨"cells", .staticArray (.primitive .int32) 4⟩, ⟨"next", .plain (.primitive .int32)⟩])

theorem board_harmless :
    board.Forall (NamedDecl.HasFields LoadHarmless) := by
  refine ⟨trivial, ?_, ?_⟩
  · simp [FieldType.loadLoops, VarType.primitive?]
  · simp [FieldType.isMeasured]

/-- A struct T with a number nSize and one behind it. -/
def hiddenCount : IdlFile ["T"] :=
  .declare .empty "T"
    (.message none
      [⟨"nSize", .plain (.primitive .uint32)⟩, ⟨"y", .plain (.primitive .int32)⟩])

/-- Four bytes 255 are copied into the count, and cover the bytes of y behind them. -/
example :
    ¬ ((hiddenCount.serializer (fun _ => ⟨fun _ _ => false, fun _ _ _ => rfl⟩) "T"
      (by simp)).load (start (fun _ => 255) 4)).Safe 4 := by
  intro hsafe
  exact absurd hsafe.total (by decide)

end Idlc
end Gamnet
