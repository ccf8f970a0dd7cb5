import Gamnet.Idlc.Bounds
import Gamnet.Idlc.Interop

/-!
# The inputs that the two decoders accept

Whatever the C++ decoder accepts the C# decoder accepts as well. The converse
and the agreement of the values need an input without the three things that
the decoders treat differently: a length with its top bit set, which C# takes
as negative, a boolean byte above one, and a key that a map repeats, of which
C++ keeps the first element and C# the last. And neither may hide a field.
-/

namespace Gamnet
namespace Idlc

open LittleEndian Reader

namespace CSharp

/-- Four bytes that are read as a signed length. -/
def lengthGrammar : Grammar Int :=
  (Grammar.checked 4).map fun bytes => toInt32 (decode bytes)

/-- A signed length, and that many words of a grammar. -/
def prefixedGrammar
    {α : Type}
    (f : List α → Object)
    (g : Grammar α) : Grammar Object :=
  lengthGrammar >>= fun n => (Grammar.many g n.toNat).map f

section Types

variable (runtime : Runtime)
variable {declared : List String}
variable (grammars : Names declared (Grammar Object))

/-- The grammar that the C# decoder of a variable type follows. -/
def varGrammar : VarType declared → Grammar Object
  | .primitive .boolean =>
      (Grammar.checked 1).map fun bytes => .word (if decode bytes = 0 then 0 else 1)
  | .primitive type =>
      (Grammar.checked type.size).map fun bytes => .word (decode bytes)
  | .string =>
      lengthGrammar >>= fun n =>
        if n < 0 then
          Grammar.fail
        else
          (Grammar.checked n.toNat).map fun bytes => .text (some (runtime.getString bytes))
  | .userDefine name known => grammars name known
  | .list elmtType => prefixedGrammar .seq (varGrammar elmtType)
  | .array elmtType => prefixedGrammar .seq (varGrammar elmtType)
  | .map keyType elmtType =>
      prefixedGrammar (fun entries => .map (setItems (runtime.equal keyType) [] entries))
        (varGrammar keyType >>= fun key => (varGrammar elmtType).map fun elmt => (key, elmt))

/-- The grammar that the C# decoder of a field follows. -/
def fieldGrammar : FieldType declared → Grammar Object
  | .plain type => varGrammar runtime grammars type
  | .staticArray elmtType elmtCount =>
      (Grammar.many (varGrammar runtime grammars elmtType) elmtCount).map .seq

/-- The fields of a message one behind the other. -/
def fieldsGrammar : List (FieldType declared) → Grammar (List Object)
  | [] => pure []
  | field :: fields =>
      fieldGrammar runtime grammars field >>= fun o =>
        (fieldsGrammar fields).map fun objects => o :: objects

/-- The grammar that the C# decoder of a declared type follows. -/
def declGrammar : Decl declared → Grammar Object
  | .enum _ => (Grammar.checked 4).map fun bytes => .word (decode bytes)
  | .typedef type => varGrammar runtime grammars type
  | .message none fields =>
      (fieldsGrammar runtime grammars fields).map (.record none)
  | .message (some base) fields =>
      grammars base.1 (mem_declared base) >>= fun o =>
        (fieldsGrammar runtime grammars fields).map (.record (some o))

end Types

theorem scans_loadLength :
    Scans loadLength lengthGrammar :=
  (Scans.checked 4).map fun bytes => toInt32 (decode bytes)

theorem scans_prefixed
    {α : Type}
    {x : Load α}
    {g : Grammar α}
    (f : List α → Object)
    (hx : Scans x g) :
    Scans (loadLength >>= fun n => many x n.toNat >>= fun as => pure (f as))
      (prefixedGrammar f g) :=
  scans_loadLength.bind fun n => (hx.many n.toNat).map f

section Declarations

variable (runtime : Runtime)
variable {declared : List String}
variable {serializer : Names declared Serializer}
variable {grammars : Names declared (Grammar Object)}

/-- The decoders of a set of names follow the grammars of the names. -/
def Follow
    (serializer : Names declared Serializer)
    (grammars : Names declared (Grammar Object)) : Prop :=
  ∀ name known, Scans (serializer name known).load (grammars name known)

/-- The emitted C# code for a type follows its grammar, if that of the named types does. -/
theorem scans_varType
    (hnames : Follow serializer grammars)
    (type : VarType declared) :
    Scans (generateVariableLoad runtime serializer type)
      (varGrammar runtime grammars type) := by
  induction type with
  | primitive type =>
      cases type with
      | boolean =>
          exact (Scans.checked 1).map fun bytes =>
            Object.word (if decode bytes = 0 then 0 else 1)
      | _ =>
          exact (Scans.checked _).map fun bytes => Object.word (decode bytes)
  | string =>
      refine scans_loadLength.bind fun n => ?_
      by_cases hn : n < 0
      · simp only [if_pos hn]
        exact Scans.fail
      · simp only [if_neg hn]
        exact (Scans.checked n.toNat).map fun bytes =>
          Object.text (some (runtime.getString bytes))
  | userDefine name known =>
      exact hnames name known
  | list elmtType ih =>
      exact scans_prefixed Object.seq ih
  | array elmtType ih =>
      exact scans_prefixed Object.seq ih
  | map keyType elmtType ihkey ihelmt =>
      exact scans_prefixed
        (fun entries => Object.map (setItems (runtime.equal keyType) [] entries))
        (ihkey.bind fun key => ihelmt.map fun elmt => (key, elmt))

theorem scans_field
    (hnames : Follow serializer grammars)
    (field : FieldType declared) :
    Scans (generateFieldLoad runtime serializer field)
      (fieldGrammar runtime grammars field) := by
  cases field with
  | plain type =>
      exact scans_varType runtime hnames type
  | staticArray elmtType elmtCount =>
      exact ((scans_varType runtime hnames elmtType).many elmtCount).map Object.seq

theorem scans_fields
    (hnames : Follow serializer grammars)
    (fields : List (FieldType declared)) :
    Scans (loadFields runtime serializer fields)
      (fieldsGrammar runtime grammars fields) := by
  induction fields with
  | nil =>
      exact Scans.pure []
  | cons field fields ih =>
      exact (scans_field runtime hnames field).bind fun o =>
        ih.map fun objects => o :: objects

theorem scans_decl
    (hnames : Follow serializer grammars)
    (decl : Decl declared) :
    Scans (compileDecl runtime serializer decl).load
      (declGrammar runtime grammars decl) := by
  cases decl with
  | enum numbers =>
      exact (Scans.checked 4).map fun bytes => Object.word (decode bytes)
  | typedef type =>
      exact scans_varType runtime hnames type
  | message parent fields =>
      have hfields := scans_fields runtime hnames fields
      cases parent with
      | none =>
          exact hfields.map (Object.record none)
      | some base =>
          exact (hnames base.1 (mem_declared base)).bind fun o =>
            hfields.map (Object.record (some o))

end Declarations

end CSharp

/-- The grammars that the C# decoders of a file follow. -/
def Environment.sharpGrammar
    (runtime : CSharp.Runtime)
    {declared : List String}
    (env : Environment declared) : Names declared (Grammar CSharp.Object) :=
  env.compile (CSharp.declGrammar runtime)

/-- Every emitted C# Load follows its grammar. By induction on the file. -/
theorem scans_sharp
    (runtime : CSharp.Runtime)
    {declared : List String}
    (env : Environment declared) :
    CSharp.Follow (env.csharp runtime) (env.sharpGrammar runtime) := by
  intro name known
  exact env.compile_related
    (fun (serializer : CSharp.Serializer) grammar => Scans serializer.load grammar)
    (fun _ _ hnames decl => CSharp.scans_decl runtime hnames decl) name known

section Covers

/-- A declaration for which both outputs compile: no static arrays, and enums
whose values are ints. -/
def Decl.Plain
    {declared : List String} : Decl declared → Prop
  | .enum numbers => enumSize numbers = 4
  | .typedef _ => True
  | .message _ fields => ∀ field ∈ fields, ∃ type, field = .plain type

/-- The words of a grammar that fit a stream are words of another grammar, and
neither grammar strays. The words of the first are all empty if one of them
is. -/
structure Covers
    {α β : Type}
    (g : Grammar α)
    (h : Grammar β) : Prop where
  straight : ∀ left, ¬ g.strays left
  straightSharp : ∀ left, ¬ h.strays left
  uniform : ∀ {a a' p}, g.reads a [] → g.reads a' p → p = []
  covers : ∀ {a p}, g.reads a p → p.length < 2 ^ 31 → ∃ b, h.reads b p

variable {α β γ δ : Type}

theorem covers_word
    {size : Nat}
    {f : List UInt8 → α} {f' : List UInt8 → β}
    (hsize : 0 < size) :
    Covers ((Grammar.checked size).map f) ((Grammar.checked size).map f') where
  straight _ hstray := hstray
  straightSharp _ hstray := hstray
  uniform := by
    rintro a a' p ⟨bytes, _, _, hlen⟩ _
    simp only [List.length_nil] at hlen
    omega
  covers := by
    rintro a p ⟨bytes, _, rfl, hlen⟩ _
    exact ⟨f' bytes, bytes, rfl, rfl, hlen⟩

/-- Counts below 2 ^ 31 keep their value in the int of C#. -/
theorem toInt32_of_lt
    {n : Nat}
    (hn : n < 2 ^ 31) :
    (CSharp.toInt32 n).toNat = n := by
  unfold CSharp.toInt32
  rw [bmod_of_lt hn]
  rfl

/-- Counts below 2 ^ 31 pass the test for negative lengths. -/
theorem toInt32_nonneg
    {n : Nat}
    (hn : n < 2 ^ 31) :
    ¬ CSharp.toInt32 n < 0 := by
  unfold CSharp.toInt32
  rw [bmod_of_lt hn]
  omega

/-- A length with its top bit set is negative. -/
theorem toInt32_of_le
    {n : Nat}
    (hn : 2 ^ 31 ≤ n)
    (hlt : n < 2 ^ 32) :
    (CSharp.toInt32 n).toNat = 0 := by
  have hbmod : (n : Int).bmod (2 ^ 32) < 0 := by
    rw [Int.bmod_def]
    norm_num
    omega
  unfold CSharp.toInt32
  omega

theorem decode_lt_of_length
    {l : List UInt8}
    (hlen : l.length = 4) :
    decode l < 2 ^ 32 := by
  have h := decode_lt l
  rw [hlen] at h
  omega

/-- Where each element covers its counterpart, the elements together do. By induction on the
elements. -/
theorem forall₂_covers
    {g : Grammar α} {h : Grammar β}
    (hg : Covers g h)
    {as : List α}
    {parts : List (List UInt8)}
    (hparts : List.Forall₂ g.reads as parts)
    (hlen : parts.flatten.length < 2 ^ 31) :
    ∃ bs, List.Forall₂ h.reads bs parts := by
  induction hparts with
  | nil =>
      exact ⟨[], .nil⟩
  | cons ha hrest ih =>
      rw [List.flatten_cons, List.length_append] at hlen
      rcases hg.covers ha (by omega) with ⟨b, hb⟩
      rcases ih (by omega) with ⟨bs, hbs⟩
      exact ⟨b :: bs, .cons hb hbs⟩

/-- More words than bytes are empty words. -/
theorem flatten_eq_nil
    {g : Grammar α} {h : Grammar β}
    (hg : Covers g h)
    {as : List α}
    {parts : List (List UInt8)}
    (hparts : List.Forall₂ g.reads as parts)
    (hlen : parts.flatten.length < parts.length) :
    parts.flatten = [] := by
  have hempty : [] ∈ parts := by
    by_contra hnot
    have hle : parts.length ≤ parts.flatten.length := by
      clear hparts hlen
      induction parts with
      | nil =>
          simp
      | cons part parts ih =>
          have hpart : 0 < part.length := by
            rw [List.length_pos_iff]
            rintro rfl
            exact hnot (by simp)
          have htail := ih fun hmem => hnot (by simp [hmem])
          rw [List.flatten_cons, List.length_append, List.length_cons]
          omega
    omega
  rcases List.forall₂_iff_get.mp hparts with ⟨hsame, hget⟩
  rcases List.get_of_mem hempty with ⟨i, hi⟩
  have hzero := hget i.1 (hsame.symm ▸ i.2) i.2
  rw [Fin.eta, hi] at hzero
  rw [List.flatten_eq_nil_iff]
  intro part hpart
  rcases List.get_of_mem hpart with ⟨j, hj⟩
  have hword := hget j.1 (hsame.symm ▸ j.2) j.2
  rw [Fin.eta, hj] at hword
  exact hg.uniform hzero hword

/-- A container covers its counterpart: the count decides for both how many elements are read. -/
theorem covers_prefixed
    {g : Grammar α} {h : Grammar β}
    (f : List α → Value)
    (f' : List β → CSharp.Object)
    (hg : Covers g h) :
    Covers (prefixedGrammar f g) (CSharp.prefixedGrammar f' h) where
  straight := by
    rintro left (hstray | ⟨n, _, rest, _, _, _, _, _, _, _, _, hstray⟩)
    · exact hstray
    · exact hg.straight _ hstray
  straightSharp := by
    rintro left (hstray | ⟨n, _, rest, _, _, _, _, _, _, _, _, hstray⟩)
    · exact hstray
    · exact hg.straightSharp _ hstray
  uniform := by
    rintro v v' p ⟨n, l, rest, hnil, ⟨_, _, _, hlen⟩, _⟩ _
    rw [eq_comm, List.append_eq_nil_iff] at hnil
    rw [hnil.1] at hlen
    cases hlen
  covers := by
    rintro v p ⟨n, _, rest, rfl, ⟨l, rfl, rfl, hl⟩, as, _, hcount, parts, rfl, hparts⟩ hlen
    rw [List.length_append] at hlen
    by_cases hn : decode l < 2 ^ 31
    · rcases forall₂_covers hg hparts (by omega) with ⟨bs, hbs⟩
      refine ⟨f' bs, CSharp.toInt32 (decode l), l, parts.flatten, rfl,
        ⟨l, rfl, rfl, hl⟩, bs, rfl, ?_, parts, rfl, hbs⟩
      rw [toInt32_of_lt hn, hbs.length_eq, ← hparts.length_eq, hcount]
    · have hnil : parts.flatten = [] := by
        refine flatten_eq_nil hg hparts ?_
        rw [← hparts.length_eq, hcount]
        omega
      refine ⟨f' [], CSharp.toInt32 (decode l), l, [], by rw [hnil],
        ⟨l, rfl, rfl, hl⟩, [], rfl, ?_, [], rfl, .nil⟩
      rw [toInt32_of_le (by omega) (decode_lt_of_length hl)]
      rfl

theorem covers_bind
    {g : Grammar α} {h : Grammar β}
    {g' : Grammar γ} {h' : Grammar δ}
    {ε ζ : Type}
    (f : α → γ → ε)
    (f' : β → δ → ζ)
    (hg : Covers g h)
    (hg' : Covers g' h') :
    Covers (g >>= fun a => g'.map fun c => f a c) (h >>= fun b => h'.map fun d => f' b d) where
  straight := by
    rintro left (hstray | ⟨_, _, rest, _, _, hstray⟩)
    · exact hg.straight left hstray
    · exact hg'.straight rest hstray
  straightSharp := by
    rintro left (hstray | ⟨_, _, rest, _, _, hstray⟩)
    · exact hg.straightSharp left hstray
    · exact hg'.straightSharp rest hstray
  uniform := by
    rintro e e' p ⟨a, p₁, p₂, hnil, h₁, c, _, h₂⟩ ⟨a', q₁, q₂, rfl, h₁', c', _, h₂'⟩
    rw [eq_comm, List.append_eq_nil_iff] at hnil
    rcases hnil with ⟨rfl, rfl⟩
    rw [hg.uniform h₁ h₁', hg'.uniform h₂ h₂']
    rfl
  covers := by
    rintro e p ⟨a, p₁, p₂, rfl, h₁, c, _, h₂⟩ hlen
    rw [List.length_append] at hlen
    rcases hg.covers h₁ (by omega) with ⟨b, hb⟩
    rcases hg'.covers h₂ (by omega) with ⟨d, hd⟩
    exact ⟨f' b d, b, p₁, p₂, rfl, hb, d, rfl, hd⟩

theorem covers_map
    {g : Grammar α} {h : Grammar β}
    (f : α → γ)
    (f' : β → δ)
    (hg : Covers g h) :
    Covers (g.map f) (h.map f') where
  straight := hg.straight
  straightSharp := hg.straightSharp
  uniform := by
    rintro c c' p ⟨a, _, ha⟩ ⟨a', _, ha'⟩
    exact hg.uniform ha ha'
  covers := by
    rintro c p ⟨a, _, ha⟩ hlen
    rcases hg.covers ha hlen with ⟨b, hb⟩
    exact ⟨f' b, b, rfl, hb⟩

/-- The C# Load reads whatever text the C++ Load reads. -/
theorem covers_text
    (runtime : CSharp.Runtime)
    {declared : List String}
    (grammars : Names declared (Grammar CSharp.Object)) :
    Covers textGrammar (CSharp.varGrammar runtime grammars .string) where
  straight := by
    rintro left (hstray | ⟨_, _, _, _, _, hstray⟩) <;> exact hstray
  straightSharp := by
    rintro left (hstray | ⟨n, _, rest, _, _, hstray⟩)
    · exact hstray
    · by_cases hn : n < 0
      · simp only [if_pos hn] at hstray
        exact hstray
      · simp only [if_neg hn] at hstray
        exact hstray
  uniform := by
    rintro v v' p ⟨n, l, rest, hnil, ⟨_, _, _, hlen⟩, _⟩ _
    rw [eq_comm, List.append_eq_nil_iff] at hnil
    rw [hnil.1] at hlen
    cases hlen
  covers := by
    rintro v p ⟨n, _, rest, rfl, ⟨l, rfl, rfl, hl⟩, bytes, _, rfl, hcount⟩ hlen
    rw [List.length_append] at hlen
    have hn : decode l < 2 ^ 31 := by
      omega
    have hnat := toInt32_of_lt hn
    have hnonneg := toInt32_nonneg hn
    refine ⟨.text (some (runtime.getString bytes)), CSharp.toInt32 (decode l), l, bytes, rfl,
      ⟨l, rfl, rfl, hl⟩, ?_⟩
    simp only [if_neg hnonneg]
    exact ⟨bytes, rfl, rfl, by rw [hnat, hcount]⟩

end Covers

section CoversDeclarations

variable (order : {declared : List String} → VarType declared → Compare)
variable (runtime : CSharp.Runtime)
variable {declared : List String}
variable {grammars : Names declared (Grammar Value)}
variable {sharps : Names declared (Grammar CSharp.Object)}

/-- For every type without a static array C# reads what C++ reads, if it does so for the named
types. -/
theorem covers_varType
    (hnames : ∀ name known, Covers (grammars name known) (sharps name known))
    (type : VarType declared) :
    Covers (type.grammar order grammars) (CSharp.varGrammar runtime sharps type) := by
  induction type with
  | primitive type =>
      cases type <;> exact covers_word (by decide)
  | string =>
      exact covers_text runtime sharps
  | userDefine name known =>
      exact hnames name known
  | list elmtType ih =>
      exact covers_prefixed _ _ ih
  | array elmtType ih =>
      exact covers_prefixed _ _ ih
  | map keyType elmtType ihkey ihelmt =>
      exact covers_prefixed _ _ (covers_bind Prod.mk Prod.mk ihkey ihelmt)

theorem covers_fields
    (hnames : ∀ name known, Covers (grammars name known) (sharps name known))
    {fields : List (FieldType declared)}
    (hplain : ∀ field ∈ fields, ∃ type, field = .plain type) :
    Covers (fieldsGrammar order grammars fields)
      (CSharp.fieldsGrammar runtime sharps fields) := by
  induction fields with
  | nil =>
      constructor
      · exact fun _ hstray => hstray
      · exact fun _ hstray => hstray
      · rintro a a' p _ ⟨_, hp⟩
        exact hp
      · rintro a p ⟨_, rfl⟩ _
        exact ⟨[], rfl, rfl⟩
  | cons field fields ih =>
      rcases hplain field (by simp) with ⟨type, rfl⟩
      exact covers_bind List.cons List.cons (covers_varType order runtime hnames type)
        (ih fun field hfield => hplain field (by simp [hfield]))

theorem covers_decl
    (hnames : ∀ name known, Covers (grammars name known) (sharps name known))
    {decl : Decl declared}
    (hplain : decl.Plain) :
    Covers (decl.grammar order grammars) (CSharp.declGrammar runtime sharps decl) := by
  cases decl with
  | enum numbers =>
      have hsize : enumSize numbers = 4 := hplain
      simp only [Decl.grammar, CSharp.declGrammar, wordGrammar, hsize]
      exact covers_word (by decide)
  | typedef type =>
      exact covers_varType order runtime hnames type
  | message parent fields =>
      have hfields := covers_fields order runtime hnames hplain
      cases parent with
      | none =>
          exact covers_map (Value.record none) (CSharp.Object.record none) hfields
      | some base =>
          exact covers_bind (fun v values => Value.record (some v) values)
            (fun o objects => CSharp.Object.record (some o) objects)
            (hnames base.1 (mem_declared base)) hfields

/-- Every message without static arrays: the C# Load reads what the C++ Load reads. -/
theorem covers_environment
    {env : Environment declared}
    (hplain : env.Forall Decl.Plain)
    (name : String)
    (known : name ∈ declared) :
    Covers (env.grammar order name known) (env.sharpGrammar runtime name known) :=
  Environment.compile_related_of
    (fun (g : Grammar Value) (h : Grammar CSharp.Object) => Covers g h)
    (fun _ _ hnames _ hdecl => covers_decl order runtime hnames hdecl) hplain name known

end CoversDeclarations

section Clean

/-- A word of the input with the object and the value that it stands for. -/
structure Item where
  object : CSharp.Object
  value : Value
  bytes : List UInt8

/-- A length that is not negative, and that many clean words. -/
def CleanSeq
    (clean : Item → Prop)
    (item : Item) : Prop :=
  ∃ (l : List UInt8) (items : List Item),
    l.length = 4 ∧ decode l = items.length ∧ items.length < 2 ^ 31 ∧
    (∀ i ∈ items, clean i) ∧
    item = ⟨.seq (items.map Item.object), .seq (items.map Item.value),
      l ++ (items.map Item.bytes).flatten⟩

/-- The object of an entry. -/
def entryObject
    (i : Item × Item) : CSharp.Object × CSharp.Object :=
  (i.1.object, i.2.object)

/-- The value of an entry. -/
def entryValue
    (i : Item × Item) : Value × Value :=
  (i.1.value, i.2.value)

/-- The bytes of an entry. -/
def entryBytes
    (i : Item × Item) : List UInt8 :=
  i.1.bytes ++ i.2.bytes

/-- A length that is not negative, and that many clean entries, no two of which
have the same key in either language. -/
def CleanMap
    (order : Compare)
    (equal : CSharp.Object → CSharp.Object → Bool)
    (key elmt : Item → Prop)
    (item : Item) : Prop :=
  ∃ (l : List UInt8) (items : List (Item × Item)),
    l.length = 4 ∧ decode l = items.length ∧ items.length < 2 ^ 31 ∧
    (∀ i ∈ items, key i.1 ∧ elmt i.2) ∧
    items.Pairwise (fun a b => equal a.1.object b.1.object = false ∧
      (order.less a.1.value b.1.value = true ∨ order.less b.1.value a.1.value = true)) ∧
    item = ⟨.map (items.map entryObject), .map (order.insertAll [] (items.map entryValue)),
      l ++ (items.map entryBytes).flatten⟩

variable (order : {declared : List String} → VarType declared → Compare)
variable (runtime : CSharp.Runtime)
variable {declared : List String}
variable (clean : Names declared (Item → Prop))

/-- The clean words of a variable type: lengths are not negative, a boolean is
zero or one, text is UTF-8, and a map does not repeat a key. -/
def VarType.Clean : VarType declared → Item → Prop
  | .primitive type, item =>
      item.bytes.length = type.size ∧ decode item.bytes < type.capacity ∧
        item.object = .word (decode item.bytes) ∧ item.value = .word (decode item.bytes)
  | .string, item => ∃ (l : List UInt8) (chars : List Char), l.length = 4 ∧
      decode l = (Utf16.utf8 chars).length ∧ decode l < 2 ^ 31 ∧
      item = ⟨.text (some (Utf16.encode chars)), .text (Utf16.utf8 chars),
        l ++ Utf16.utf8 chars⟩
  | .userDefine name known, item => clean name known item
  | .list elmtType, item => CleanSeq elmtType.Clean item
  | .array elmtType, item => CleanSeq elmtType.Clean item
  | .map keyType elmtType, item =>
      CleanMap (order keyType) (runtime.equal keyType) keyType.Clean elmtType.Clean item

/-- The clean words of a field. -/
def FieldType.Clean : FieldType declared → Item → Prop
  | .plain type, item => type.Clean order runtime clean item
  | .staticArray _ _, _ => False

/-- The clean words of the fields of a message, one behind the other. -/
def CleanFields
    (fields : List (FieldType declared))
    (items : List Item) : Prop :=
  List.Forall₂ (fun field item => field.Clean order runtime clean item) fields items

/-- The clean words of a declared type. -/
def Decl.Clean : Decl declared → Item → Prop
  | .enum numbers, item =>
      enumSize numbers = 4 ∧ item.bytes.length = 4 ∧
        item.object = .word (decode item.bytes) ∧ item.value = .word (decode item.bytes)
  | .typedef type, item => type.Clean order runtime clean item
  | .message none fields, item => ∃ items : List Item, CleanFields order runtime clean fields items ∧
      item = ⟨.record none (items.map Item.object), .record none (items.map Item.value),
        (items.map Item.bytes).flatten⟩
  | .message (some base) fields, item => ∃ (front : Item) (items : List Item),
      clean base.1 (mem_declared base) front ∧ CleanFields order runtime clean fields items ∧
      item = ⟨.record (some front.object) (items.map Item.object),
        .record (some front.value) (items.map Item.value),
        front.bytes ++ (items.map Item.bytes).flatten⟩

end Clean

/-- The clean words of the names that a file declares. -/
def Environment.Clean
    (order : {declared : List String} → VarType declared → Compare)
    (runtime : CSharp.Runtime)
    {declared : List String}
    (env : Environment declared) : Names declared (Item → Prop) :=
  env.compile (Decl.Clean order runtime)

/-- A clean word is a word of both grammars, and stands for the same value. -/
structure CleanWords
    (clean : Item → Prop)
    (g : Grammar Value)
    (h : Grammar CSharp.Object)
    (same : CSharp.Object → Value → Prop) : Prop where
  cpp : ∀ {i}, clean i → g.reads i.value i.bytes
  sharp : ∀ {i}, clean i → h.reads i.object i.bytes
  same : ∀ {i}, clean i → same i.object i.value

theorem forall₂_of_items
    {ι α β : Type}
    {R : α → β → Prop}
    {f : ι → α} {f' : ι → β}
    {items : List ι}
    (h : ∀ i ∈ items, R (f i) (f' i)) :
    List.Forall₂ R (items.map f) (items.map f') := by
  induction items with
  | nil =>
      exact .nil
  | cons i items ih =>
      exact .cons (h i (by simp)) (ih fun j hj => h j (by simp [hj]))

theorem prefixed_reads
    {α : Type}
    {f : List α → Value}
    {g : Grammar α}
    {l : List UInt8}
    {as : List α}
    {parts : List (List UInt8)}
    (hl : l.length = 4)
    (hcount : decode l = as.length)
    (hparts : List.Forall₂ g.reads as parts) :
    (prefixedGrammar f g).reads (f as) (l ++ parts.flatten) :=
  ⟨decode l, l, parts.flatten, rfl, ⟨l, rfl, rfl, hl⟩, as, rfl, hcount.symm, parts, rfl, hparts⟩

theorem prefixed_readsSharp
    {α : Type}
    {f : List α → CSharp.Object}
    {g : Grammar α}
    {l : List UInt8}
    {as : List α}
    {parts : List (List UInt8)}
    (hl : l.length = 4)
    (hcount : decode l = as.length)
    (hlen : as.length < 2 ^ 31)
    (hparts : List.Forall₂ g.reads as parts) :
    (CSharp.prefixedGrammar f g).reads (f as) (l ++ parts.flatten) := by
  refine ⟨CSharp.toInt32 (decode l), l, parts.flatten, rfl, ⟨l, rfl, rfl, hl⟩, as, rfl, ?_,
    parts, rfl, hparts⟩
  rw [hcount, toInt32_of_lt hlen]

theorem cleanWords_seq
    {clean : Item → Prop}
    {g : Grammar Value}
    {h : Grammar CSharp.Object}
    {same sameSeq : CSharp.Object → Value → Prop}
    (hc : CleanWords clean g h same)
    (hsame : ∀ objects values, values.length < 2 ^ 31 →
      List.Forall₂ same objects values → sameSeq (.seq objects) (.seq values)) :
    CleanWords (CleanSeq clean) (prefixedGrammar .seq g)
      (CSharp.prefixedGrammar .seq h) sameSeq where
  cpp := by
    rintro i ⟨l, items, hl, hcount, _, hitems, rfl⟩
    exact prefixed_reads hl (by simpa using hcount)
      (forall₂_of_items fun i hi => hc.cpp (hitems i hi))
  sharp := by
    rintro i ⟨l, items, hl, hcount, hlen, hitems, rfl⟩
    exact prefixed_readsSharp hl (by simpa using hcount) (by simpa using hlen)
      (forall₂_of_items fun i hi => hc.sharp (hitems i hi))
  same := by
    rintro i ⟨l, items, _, _, hlen, hitems, rfl⟩
    exact hsame _ _ (by simpa using hlen)
      (forall₂_of_items fun i hi => hc.same (hitems i hi))

/-- Entries with comparable keys are sorted by inserting them. -/
theorem insertAll_sorts
    (order : Compare)
    (htrans : ∀ a b c, order.less a b = true → order.less b c = true → order.less a c = true)
    {map more : List (Value × Value)}
    (hpart : map.Pairwise order.Before)
    (htotal : (map ++ more).Pairwise (fun a b => order.Before a b ∨ order.Before b a)) :
    (order.insertAll map more).Perm (map ++ more) ∧
      (order.insertAll map more).Pairwise order.Before := by
  induction more generalizing map with
  | nil =>
      simpa [Compare.insertAll] using hpart
  | cons entry more ih =>
      have hentry : ∀ other ∈ map, order.Before entry other ∨ order.Before other entry :=
        fun other hother =>
          ((List.pairwise_append.mp htotal).2.2 other hother entry (by simp)).symm
      have hins := insert_perm order hentry
      have hperm : (order.insert entry map ++ more).Perm (map ++ entry :: more) :=
        (hins.append_right more).trans List.perm_middle.symm
      have hpart' := insert_pairwise order
        (fun other _ b _ hab hbc => htrans _ _ _ hab hbc) hentry hpart
      have htotal' : (order.insert entry map ++ more).Pairwise
          (fun a b => order.Before a b ∨ order.Before b a) :=
        (hperm.pairwise_iff fun hab => hab.symm).mpr htotal
      rcases ih hpart' htotal' with ⟨hall, hsorted⟩
      exact ⟨hall.trans hperm, hsorted⟩

/-- Clean entries whose keys ascend make a clean map: neither side drops or moves one of them. -/
theorem cleanWords_map
    (order : Compare)
    {equal : CSharp.Object → CSharp.Object → Bool}
    {key elmt : Item → Prop}
    {g g' : Grammar Value}
    {h h' : Grammar CSharp.Object}
    {same same' sameMap : CSharp.Object → Value → Prop}
    (htrans : ∀ a b c, order.less a b = true → order.less b c = true → order.less a c = true)
    (hkey : CleanWords key g h same)
    (helmt : CleanWords elmt g' h' same')
    (hsame : ∀ objects values, values.length < 2 ^ 31 → values.Pairwise order.Before →
      (∃ sorted, sorted.Perm objects ∧
        List.Forall₂ (fun a b => same a.1 b.1 ∧ same' a.2 b.2) sorted values) →
          sameMap (.map objects) (.map values)) :
    CleanWords (CleanMap order equal key elmt)
      (prefixedGrammar (fun entries => .map (order.insertAll [] entries)) (entryGrammar g g'))
      (CSharp.prefixedGrammar (fun entries => .map (CSharp.setItems equal [] entries))
        (h >>= fun k => h'.map fun e => (k, e)))
      sameMap where
  cpp := by
    rintro i ⟨l, items, hl, hcount, _, hitems, _, rfl⟩
    have hparts : List.Forall₂ (entryGrammar g g').reads (items.map entryValue)
        (items.map entryBytes) :=
      forall₂_of_items fun i hi => ⟨i.1.value, i.1.bytes, i.2.bytes, rfl,
        hkey.cpp (hitems i hi).1, i.2.value, rfl, helmt.cpp (hitems i hi).2⟩
    exact prefixed_reads
      (f := fun entries => .map (order.insertAll [] entries)) hl (by simpa using hcount) hparts
  sharp := by
    rintro i ⟨l, items, hl, hcount, hlen, hitems, hfresh, rfl⟩
    have hparts : List.Forall₂ (h >>= fun k => h'.map fun e => (k, e)).reads
        (items.map entryObject) (items.map entryBytes) :=
      forall₂_of_items fun i hi => ⟨i.1.object, i.1.bytes, i.2.bytes, rfl,
        hkey.sharp (hitems i hi).1, i.2.object, rfl, helmt.sharp (hitems i hi).2⟩
    have hkeys : (items.map entryObject).Pairwise (fun a b => equal a.1 b.1 = false) :=
      List.pairwise_map.mpr (hfresh.imp fun hab => hab.1)
    have hset : CSharp.setItems equal [] (items.map entryObject) = items.map entryObject :=
      setItems_of_pairwise hkeys
    have hread := prefixed_readsSharp
      (f := fun entries => .map (CSharp.setItems equal [] entries)) hl
      (by simpa using hcount) (by simpa using hlen) hparts
    rw [hset] at hread
    exact hread
  same := by
    rintro i ⟨l, items, _, _, hlen, hitems, hfresh, rfl⟩
    have htotal : (items.map entryValue).Pairwise
        (fun a b => order.Before a b ∨ order.Before b a) :=
      List.pairwise_map.mpr (hfresh.imp fun hab => hab.2)
    rcases insertAll_sorts order htrans List.Pairwise.nil htotal with ⟨hperm, hsorted⟩
    have hall : List.Forall₂ (fun b a => same a.1 b.1 ∧ same' a.2 b.2)
        (items.map entryValue) (items.map entryObject) :=
      forall₂_of_items fun i hi => ⟨hkey.same (hitems i hi).1, helmt.same (hitems i hi).2⟩
    rcases List.perm_comp_forall₂ hperm hall with ⟨sorted, hsorted', hobjects⟩
    refine hsame _ _ ?_ hsorted ⟨sorted, hobjects, hsorted'.flip⟩
    rw [hperm.length_eq]
    simpa using hlen

section CleanDeclarations

variable (order : {declared : List String} → VarType declared → Compare)
variable (runtime : CSharp.Runtime)
variable {declared : List String}
variable {clean : Names declared (Item → Prop)}
variable {grammars : Names declared (Grammar Value)}
variable {sharps : Names declared (Grammar CSharp.Object)}
variable {same : Names declared (CSharp.Object → Value → Prop)}

/-- The comparison of a key type is transitive, as std::map requires. -/
def Transitive : Prop :=
  ∀ {declared : List String} (type : VarType declared) (a b c : Value),
    (order type).less a b = true → (order type).less b c = true →
      (order type).less a c = true

/-- The runtime decodes what Utf16 encodes. -/
theorem getString_utf8
    (chars : List Char) :
    runtime.getString (Utf16.utf8 chars) = Utf16.encode chars := by
  simp [CSharp.Runtime.getString, Utf16.ofUtf8_utf8]

theorem text_readsSharp
    (sharps : Names declared (Grammar CSharp.Object))
    {l bytes : List UInt8}
    (hl : l.length = 4)
    (hcount : bytes.length = decode l)
    (hlen : decode l < 2 ^ 31) :
    (CSharp.varGrammar runtime sharps .string).reads
      (.text (some (runtime.getString bytes))) (l ++ bytes) := by
  have hnonneg := toInt32_nonneg hlen
  have hnat := toInt32_of_lt hlen
  refine ⟨CSharp.toInt32 (decode l), l, bytes, rfl, ⟨l, rfl, rfl, hl⟩, ?_⟩
  simp only [if_neg hnonneg]
  exact ⟨bytes, rfl, rfl, hcount.trans hnat.symm⟩

theorem cleanWords_text :
    CleanWords (VarType.Clean order runtime clean .string) textGrammar
      (CSharp.varGrammar runtime sharps .string) (VarType.Same order same .string) where
  cpp := by
    rintro i ⟨l, chars, hl, hcount, _, rfl⟩
    exact ⟨decode l, l, Utf16.utf8 chars, rfl, ⟨l, rfl, rfl, hl⟩, Utf16.utf8 chars, rfl,
      rfl, hcount.symm⟩
  sharp := by
    rintro i ⟨l, chars, hl, hcount, hlen, rfl⟩
    have htext := text_readsSharp runtime sharps hl hcount.symm hlen
    rw [getString_utf8] at htext
    exact htext
  same := by
    rintro i ⟨l, chars, _, hcount, hlen, rfl⟩
    exact ⟨by omega, chars, rfl, rfl⟩

/-- Clean words of a type are read by both sides, as the same value. -/
theorem cleanWords_varType
    (htrans : Transitive order)
    (hnames : ∀ name known, CleanWords (clean name known) (grammars name known)
      (sharps name known) (same name known))
    (type : VarType declared) :
    CleanWords (type.Clean order runtime clean) (type.grammar order grammars)
      (CSharp.varGrammar runtime sharps type) (type.Same order same) := by
  induction type with
  | primitive type =>
      constructor
      · rintro i ⟨hlen, _, _, hv⟩
        exact ⟨i.bytes, hv, rfl, hlen⟩
      · rintro i ⟨hlen, hcapacity, ho, _⟩
        cases type with
        | boolean =>
            have hbit : decode i.bytes = if decode i.bytes = 0 then 0 else 1 := by
              have hlt : decode i.bytes < 2 := hcapacity
              split <;> omega
            exact ⟨i.bytes, ho.trans (congrArg CSharp.Object.word hbit), rfl, hlen⟩
        | _ =>
            exact ⟨i.bytes, ho, rfl, hlen⟩
      · rintro i ⟨_, hcapacity, ho, hv⟩
        rw [ho, hv]
        exact ⟨rfl, hcapacity⟩
  | string =>
      exact cleanWords_text order runtime
  | userDefine name known =>
      exact hnames name known
  | list elmtType ih =>
      exact cleanWords_seq ih fun _ _ hlen hall => ⟨hlen, hall⟩
  | array elmtType ih =>
      exact cleanWords_seq ih fun _ _ hlen hall => ⟨hlen, hall⟩
  | map keyType elmtType ihkey ihelmt =>
      exact cleanWords_map (order keyType) (htrans keyType) ihkey ihelmt
        fun _ _ hlen hsorted hall => ⟨hlen, hsorted, hall⟩

theorem cleanWords_fields
    (htrans : Transitive order)
    (hnames : ∀ name known, CleanWords (clean name known) (grammars name known)
      (sharps name known) (same name known))
    {fields : List (FieldType declared)}
    {items : List Item}
    (hitems : CleanFields order runtime clean fields items) :
    (fieldsGrammar order grammars fields).reads (items.map Item.value)
        (items.map Item.bytes).flatten ∧
      (CSharp.fieldsGrammar runtime sharps fields).reads (items.map Item.object)
        (items.map Item.bytes).flatten ∧
      FieldsSame order same fields (items.map Item.object) (items.map Item.value) := by
  induction hitems with
  | nil =>
      exact ⟨⟨rfl, rfl⟩, ⟨rfl, rfl⟩, trivial⟩
  | cons hitem hrest ih =>
      rename_i field item fields items
      rcases ih with ⟨hcpp, hsharp, hsame⟩
      cases field with
      | plain type =>
          have hword := cleanWords_varType order runtime htrans hnames type
          exact ⟨⟨item.value, item.bytes, _, rfl, hword.cpp hitem, _, rfl, hcpp⟩,
            ⟨item.object, item.bytes, _, rfl, hword.sharp hitem, _, rfl, hsharp⟩,
            hword.same hitem, hsame⟩
      | staticArray elmtType elmtCount =>
          exact hitem.elim

theorem cleanWords_decl
    (htrans : Transitive order)
    (hnames : ∀ name known, CleanWords (clean name known) (grammars name known)
      (sharps name known) (same name known))
    (decl : Decl declared) :
    CleanWords (decl.Clean order runtime clean) (decl.grammar order grammars)
      (CSharp.declGrammar runtime sharps decl) (decl.Same order same) := by
  cases decl with
  | enum numbers =>
      constructor
      · rintro i ⟨hsize, hlen, _, hv⟩
        exact ⟨i.bytes, hv, rfl, hlen.trans hsize.symm⟩
      · rintro i ⟨_, hlen, ho, _⟩
        exact ⟨i.bytes, ho, rfl, hlen⟩
      · rintro i ⟨hsize, hlen, ho, hv⟩
        rw [ho, hv]
        exact ⟨rfl, decode_lt_of_length hlen, hsize⟩
  | typedef type =>
      exact cleanWords_varType order runtime htrans hnames type
  | message parent fields =>
      cases parent with
      | none =>
          constructor
          · rintro i ⟨items, hitems, rfl⟩
            exact ⟨_, rfl, (cleanWords_fields order runtime htrans hnames hitems).1⟩
          · rintro i ⟨items, hitems, rfl⟩
            exact ⟨_, rfl, (cleanWords_fields order runtime htrans hnames hitems).2.1⟩
          · rintro i ⟨items, hitems, rfl⟩
            exact (cleanWords_fields order runtime htrans hnames hitems).2.2
      | some base =>
          have hbase := hnames base.1 (mem_declared base)
          constructor
          · rintro i ⟨front, items, hfront, hitems, rfl⟩
            exact ⟨front.value, front.bytes, _, rfl, hbase.cpp hfront, _, rfl,
              (cleanWords_fields order runtime htrans hnames hitems).1⟩
          · rintro i ⟨front, items, hfront, hitems, rfl⟩
            exact ⟨front.object, front.bytes, _, rfl, hbase.sharp hfront, _, rfl,
              (cleanWords_fields order runtime htrans hnames hitems).2.1⟩
          · rintro i ⟨front, items, hfront, hitems, rfl⟩
            exact ⟨hbase.same hfront,
              (cleanWords_fields order runtime htrans hnames hitems).2.2⟩

/-- Clean input of every message is read by both sides. By induction on the file. -/
theorem cleanWords_environment
    (htrans : Transitive order)
    (env : Environment declared)
    (name : String)
    (known : name ∈ declared) :
    CleanWords (env.Clean order runtime name known) (env.grammar order name known)
      (env.sharpGrammar runtime name known) (env.Same order name known) :=
  env.compile_related₄
    (fun (clean : Item → Prop) (g : Grammar Value) (h : Grammar CSharp.Object)
      (same : CSharp.Object → Value → Prop) => CleanWords clean g h same)
    (fun _ _ _ _ hnames decl => cleanWords_decl order runtime htrans hnames decl) name known

end CleanDeclarations

/-- Both decoders return on an input, or neither does, and when they do they
return the same value. -/
def DecodersAgree
    {α β : Type}
    (same : β → α → Prop)
    (load : Load α)
    (loadSharp : Load β)
    (c : Cursor) : Prop :=
  ((∃ v c', load c = .returns v c') ↔ (∃ o c', loadSharp c = .returns o c')) ∧
    ∀ v c₁ o c₂, load c = .returns v c₁ → loadSharp c = .returns o c₂ → same o v

/-- A load that returns has read a word of its grammar. -/
theorem returns_word
    {α : Type}
    {x : Load α}
    {g : Grammar α}
    (hx : Scans x g)
    (hstraight : ∀ left, ¬ g.strays left)
    {memory : Nat → UInt8}
    {nSize : UInt64}
    {a : α}
    {c : Cursor}
    (hload : x (start memory nSize) = .returns a c) :
    ∃ p rest, bytesAt memory 0 nSize.toNat = p ++ rest ∧ g.reads a p := by
  have hsettled := hx.settles (inside_start memory nSize) (hstraight _)
  rw [hload] at hsettled
  rcases hsettled.2 with ⟨p, hp, hreads⟩
  exact ⟨p, unread c, hp, hreads⟩

/-- The words of an input that the C# decoder accepts are clean. -/
def CleanInput
    (order : {declared : List String} → VarType declared → Compare)
    (runtime : CSharp.Runtime)
    {declared : List String}
    (env : Environment declared)
    (name : String)
    (known : name ∈ declared)
    (bytes : List UInt8) : Prop :=
  ∀ o p rest, bytes = p ++ rest → (env.sharpGrammar runtime name known).reads o p →
    ∃ v, env.Clean order runtime name known ⟨o, v, p⟩

/-- A list of numbers. -/
def numbers : IdlFile ["Numbers"] :=
  .declare .empty "Numbers" (.typedef (.list (.primitive .int32)))

theorem numbers_clear :
    numbers.Clear where
  store := ⟨trivial, trivial⟩
  load := ⟨trivial, trivial⟩
  csharp := ⟨trivial, trivial⟩

theorem numbers_plain :
    numbers.layout.Forall Decl.Plain :=
  ⟨trivial, trivial⟩

theorem ofWords_transitive :
    Transitive (fun {_} _ => Compare.ofWords) := by
  intro declared type a b c hab hbc
  cases a <;> cases b <;> cases c <;> simp_all [Compare.ofWords]
  omega

/-- One number behind the length one. -/
def oneNumber : Nat → UInt8
  | 0 => 1
  | _ => 0

theorem numbers_grammar :
    numbers.layout.grammar (fun {_} _ => Compare.ofWords) "Numbers" (by simp) =
      prefixedGrammar .seq (wordGrammar 4) := by
  simp [numbers, IdlFile.layout, NamedDecl.layout, Environment.grammar, Environment.compile,
    Decl.grammar, VarType.grammar, PrimitiveType.size]

theorem numbers_sharpGrammar :
    numbers.layout.sharpGrammar .byReference "Numbers" (by simp) =
      CSharp.prefixedGrammar .seq
        ((Grammar.checked 4).map fun bytes => .word (decode bytes)) := by
  simp [numbers, IdlFile.layout, NamedDecl.layout, Environment.sharpGrammar, Environment.compile,
    CSharp.declGrammar, CSharp.varGrammar, PrimitiveType.size]

theorem oneNumber_clean :
    CleanInput (fun {_} _ => Compare.ofWords) .byReference numbers.layout "Numbers" (by simp)
      (bytesAt oneNumber 0 8) := by
  intro o p rest hbytes hreads
  rw [numbers_sharpGrammar] at hreads
  rcases hreads with ⟨n, _, _, rfl, ⟨l, hn, rfl, hl⟩, objects, rfl, hcount, parts, rfl, hparts⟩
  have hfront : l = [1, 0, 0, 0] := by
    have happ : [1, 0, 0, 0] ++ [0, 0, 0, 0] = l ++ (parts.flatten ++ rest) := by
      rw [← List.append_assoc, ← hbytes]
      rfl
    exact (List.append_inj happ (by simp [hl])).1.symm
  have hone : decode l = 1 := by
    rw [hfront]
    rfl
  rw [hn, toInt32_of_lt (by omega), hone] at hcount
  rcases List.length_eq_one_iff.mp hcount with ⟨a, rfl⟩
  cases hparts with
  | cons hword hnil =>
      cases hnil
      rcases hword with ⟨q, rfl, rfl, hq⟩
      have hitem : CleanSeq (VarType.Clean (fun {_} _ => Compare.ofWords) .byReference
          (Environment.empty.Clean (fun {_} _ => Compare.ofWords) .byReference)
          (.primitive .int32)) ⟨.seq [.word (decode q)], .seq [.word (decode q)],
            l ++ [q].flatten⟩ := by
        refine ⟨l, [⟨.word (decode q), .word (decode q), q⟩], hl, hone, by simp, ?_, rfl⟩
        intro i hi
        rw [List.mem_singleton.mp hi]
        exact ⟨hq, decode_lt_of_length hq, rfl, rfl⟩
      exact ⟨_, hitem⟩

end Idlc
end Gamnet
