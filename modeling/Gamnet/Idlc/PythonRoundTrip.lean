import Gamnet.Idlc.FieldNamesPython

/-!
# Round trips of the generated Python code

Store cannot reach the elements of a static array that is no field, or in one: it looks for
them under self. Load gives no dictionary to a map that is no field, and the temporary
variable is unbound then, or bound to something older that is no dictionary.

A value that avoids both, and whose strings and containers have a length below 2^31, comes
back, and no other value does, in a file in which no name is in the way. The proof runs Load on
what Store wrote, and keeps track of the variable that it is to bind: it holds the value in the
end exactly if the value avoids maps that are no fields.
-/

namespace Gamnet
namespace Idlc
namespace Python

open LittleEndian Lib

/-- The values of a declared type, those that Store can write, and those that Load can give
back. -/
structure Meaning where
  typed : Value → Prop
  storable : Value → Prop
  loadable : Value → Prop
  isClass : Bool

/-- The number of values of a primitive type. -/
def capacity : PrimitiveType → Nat
  | .boolean => 2
  | type => 256 ^ type.size

section Types

variable (equal : Value → Value → Bool)
variable {declared : List String}
variable (means : Known declared Meaning)

/-- The values of a type. The keys of a dictionary are hashable and differ. -/
def VarType.typed : VarType declared → Value → Prop
  | .primitive type, .word n => n < capacity type
  | .string, .text _ => True
  | .userDefine name known, v => (means name known).typed v
  | .list elmtType, .list elmts => ∀ elmt ∈ elmts, elmtType.typed elmt
  | .array elmtType, .list elmts => ∀ elmt ∈ elmts, elmtType.typed elmt
  | .map keyType elmtType, .dict items =>
      items.Pairwise (fun a b => equal a.1 b.1 = false) ∧
        ∀ item ∈ items,
          item.1.hashable = true ∧ keyType.typed item.1 ∧ elmtType.typed item.2
  | .staticArray elmtType elmtCount, .list elmts =>
      elmts.length = elmtCount ∧ ∀ elmt ∈ elmts, elmtType.typed elmt
  | _, _ => False

/-- Lengths are below 2^31, and only a field, or an element of a static array in one, is a
static array with elements. -/
def VarType.storable : VarType declared → Bool → Value → Prop
  | .string, _, .text bytes => bytes.length < 2 ^ 31
  | .userDefine name known, _, v => (means name known).storable v
  | .list elmtType, _, .list elmts =>
      elmts.length < 2 ^ 31 ∧ ∀ elmt ∈ elmts, elmtType.storable false elmt
  | .array elmtType, _, .list elmts =>
      elmts.length < 2 ^ 31 ∧ ∀ elmt ∈ elmts, elmtType.storable false elmt
  | .map keyType elmtType, _, .dict items =>
      items.length < 2 ^ 31 ∧
        ∀ item ∈ items, keyType.storable false item.1 ∧ elmtType.storable false item.2
  | .staticArray elmtType elmtCount, onSelf, .list elmts =>
      (onSelf = true ∨ elmtCount = 0) ∧ ∀ elmt ∈ elmts, elmtType.storable onSelf elmt
  | _, _, _ => True

/-- Only a field is a map. -/
def VarType.loadable : VarType declared → Bool → Value → Prop
  | .userDefine name known, _, v => (means name known).loadable v
  | .list elmtType, _, .list elmts => ∀ elmt ∈ elmts, elmtType.loadable false elmt
  | .array elmtType, _, .list elmts => ∀ elmt ∈ elmts, elmtType.loadable false elmt
  | .map keyType elmtType, onSelf, .dict items =>
      onSelf = true ∧
        ∀ item ∈ items, keyType.loadable false item.1 ∧ elmtType.loadable false item.2
  | .staticArray elmtType _, _, .list elmts => ∀ elmt ∈ elmts, elmtType.loadable false elmt
  | _, _, _ => True

/-- What is said of the parent of a message. -/
def Parent
    (P : Meaning → Value → Prop) :
    Option {name : String // name ∈ declared} → Option Value → Prop
  | none, none => True
  | some base, some v => P (means base.1 (mem_declared base)) v
  | _, _ => False

/-- The values of a declaration. -/
def Decl.meaning : Decl declared → Meaning
  | .enum => {
      typed := fun
        | .word n => n < 2 ^ 32
        | _ => False
      storable := fun _ => True
      loadable := fun _ => True
      isClass := false }
  | .typedef type => {
      typed := type.typed equal means
      storable := type.storable means false
      loadable := type.loadable means false
      isClass := false }
  | .message parent fields => {
      typed := fun
        | .object parentValue values =>
            Parent means (fun base v => base.isClass = true ∧ base.typed v) parent parentValue ∧
              List.Forall₂ (fun type v => type.typed equal means v) fields values
        | _ => False
      storable := fun
        | .object parentValue values =>
            Parent means (fun base v => base.storable v) parent parentValue ∧
              List.Forall₂ (fun type v => type.storable means true v) fields values
        | _ => False
      loadable := fun
        | .object parentValue values =>
            Parent means (fun base v => base.loadable v) parent parentValue ∧
              List.Forall₂ (fun type v => type.loadable means true v) fields values
        | _ => False
      isClass := true }

end Types

/-- The values of the declared types. -/
def Environment.meaning
    (equal : Value → Value → Bool)
    {declared : List String}
    (env : Environment declared) : Known declared Meaning :=
  Declarations.compile (Decl.meaning equal) env

/-- Store writes the value, and Load of a new object gives it back with the bytes behind. -/
def RoundTrips (codec : Codec) (v : Value) : Prop :=
  ∃ bytes, codec.store v = some bytes ∧ ∀ rest, codec.load (bytes ++ rest) = some (v, rest)

/-- A run ends with what it should. It ends without a result only where none is due. -/
def Ends {α : Type} (run : Option α) (due : Prop) (post : α → Prop) : Prop :=
  match run with
  | none => ¬ due
  | some a => post a

section Ends

variable {α β : Type} {due due' : Prop} {post : α → Prop}

theorem Ends.bind
    {run : Option α} {next : α → Option β} {post' : β → Prop}
    (h : Ends run due post)
    (hdue : due' → due)
    (hnext : ∀ a, post a → Ends (next a) due' post') :
    Ends (run.bind next) due' post' := by
  cases run with
  | none => exact fun hdue' => h (hdue hdue')
  | some a => exact hnext a h

/-- A run that must end may be asked to in fewer cases, and for less. -/
theorem Ends.imp
    {run : Option α} {post' : α → Prop}
    (h : Ends run due post)
    (hdue : due' → due)
    (hpost : ∀ a, post a → post' a) :
    Ends run due' post' := by
  cases run with
  | none => exact fun hdue' => h (hdue hdue')
  | some a => exact hpost a h

end Ends

section Buffer

/-- What is packed is unpacked. -/
theorem unpack_encode
    {size n : Nat}
    (hn : n < 256 ^ size)
    (rest : List UInt8) :
    unpack size (encode size n ++ rest) = some (n, rest) := by
  have hlen := encode_length size n
  rw [unpack, if_pos (by simp), List.take_left' hlen, List.drop_left' hlen,
    decode_encode_of_lt hn]

/-- The length that was written is read. -/
theorem unpackInt_of_packLength
    {n : Nat} {bytes : List UInt8}
    (h : packLength n = some bytes)
    (rest : List UInt8) :
    unpackInt (bytes ++ rest) = some ((n : Int), rest) := by
  unfold packLength at h
  split_ifs at h with hn
  cases h
  have hsmall : n < 256 ^ 4 := by omega
  have hbmod : (n : Int).bmod (2 ^ 32) = n := by
    rw [Int.bmod_eq_of_le] <;> omega
  rw [unpackInt, unpack_encode hsmall]
  change some ((n : Int).bmod (2 ^ 32), rest) = _
  rw [hbmod]

end Buffer

section Frame

/-- The indentation that a variable belongs to. -/
def Variable.indent : Variable → Nat
  | .field _ => 0
  | .key indent => indent
  | .val indent => indent
  | .typedef => 0

def Variable.onSelf : Variable → Bool
  | .field _ => true
  | _ => false

/-- No temporary variable is bound to a dictionary. -/
def Frame.NoDict (f : Frame) : Prop :=
  ∀ x, x.onSelf = false → ∀ items, f.vars x ≠ some (.dict items)

variable {f g : Frame} {x y : Variable} {v : Value}

@[simp] theorem Frame.assign_self
    (f : Frame) (x : Variable) (v : Value) :
    (f.assign x v).vars x = some v := by
  simp [Frame.assign]

/-- The other variables keep their values. -/
theorem Frame.assign_of_ne
    (hne : y ≠ x)
    (f : Frame) (v : Value) :
    (f.assign x v).vars y = f.vars y := by
  simp [Frame.assign, hne]

@[simp] theorem Frame.assign_buf
    (f : Frame) (x : Variable) (v : Value) :
    (f.assign x v).buf = f.buf := by
  rfl

/-- Only an attribute of self may hold a dict. -/
theorem Frame.NoDict.assign
    (h : f.NoDict)
    (hv : x.onSelf = false → ∀ items, v ≠ .dict items) :
    (f.assign x v).NoDict := by
  intro y hy items
  by_cases hne : y = x
  · subst hne
    rw [Frame.assign_self]
    exact fun hsome => hv hy items (Option.some.inj hsome)
  · rw [Frame.assign_of_ne hne]
    exact h y hy items

/-- The variables of the statements around, but for the one that is bound. -/
def Frame.Keeps (indent : Nat) (x : Variable) (f g : Frame) : Prop :=
  ∀ y, y.indent < indent → y ≠ x → g.vars y = f.vars y

theorem Frame.Keeps.refl
    (indent : Nat) (x : Variable) (f : Frame) :
    Frame.Keeps indent x f f :=
  fun _ _ _ => rfl

/-- What two parts of the code keep, both together keep. -/
theorem Frame.Keeps.trans
    {indent : Nat} {h : Frame}
    (hfg : Frame.Keeps indent x f g)
    (hgh : Frame.Keeps indent x g h) :
    Frame.Keeps indent x f h :=
  fun y hy hne => (hgh y hy hne).trans (hfg y hy hne)

theorem Frame.Keeps.assign
    {indent : Nat}
    (hfg : Frame.Keeps indent x f g)
    (v : Value) :
    Frame.Keeps indent x f (g.assign x v) :=
  fun y hy hne => (Frame.assign_of_ne hne g v).trans (hfg y hy hne)

/-- What the code inside keeps, the code around keeps. -/
theorem Frame.Keeps.inner
    {indent : Nat}
    (h : Frame.Keeps (indent + 1) y f g)
    (hy : y.indent = indent) :
    Frame.Keeps indent x f g := by
  intro z hz _
  refine h z (by omega) ?_
  rintro rfl
  omega

end Frame

section Items

variable {equal : Value → Value → Bool}

/-- Set items one after the other. -/
def setItems
    (equal : Value → Value → Bool)
    (dict items : List (Value × Value)) : List (Value × Value) :=
  items.foldl (fun dict item => setItem equal item dict) dict

/-- An item with a new key is added at the end. -/
theorem setItem_of_fresh
    {item : Value × Value} {dict : List (Value × Value)}
    (h : ∀ other ∈ dict, equal other.1 item.1 = false) :
    setItem equal item dict = dict ++ [item] := by
  induction dict with
  | nil => rfl
  | cons other dict ih =>
      rw [List.forall_mem_cons] at h
      rw [setItem, h.1, if_neg Bool.false_ne_true, ih h.2]
      rfl

/-- Items with different keys are all kept, in their order. -/
theorem setItems_of_pairwise
    {items dict : List (Value × Value)}
    (h : (dict ++ items).Pairwise (fun a b => equal a.1 b.1 = false)) :
    setItems equal dict items = dict ++ items := by
  induction items generalizing dict with
  | nil => simp [setItems]
  | cons item items ih =>
      have hfresh : ∀ other ∈ dict, equal other.1 item.1 = false :=
        fun other hother => (List.pairwise_append.mp h).2.2 other hother item (by simp)
      have hassoc : dict ++ item :: items = dict ++ [item] ++ items := by simp
      rw [hassoc] at h ⊢
      rw [← ih h]
      change setItems equal (setItem equal item dict) items = _
      rw [setItem_of_fresh hfresh]

theorem setItem_length_le
    (equal : Value → Value → Bool) (item : Value × Value) (dict : List (Value × Value)) :
    (setItem equal item dict).length ≤ dict.length + 1 := by
  induction dict with
  | nil => simp [setItem]
  | cons other dict ih =>
      unfold setItem
      split_ifs
      · simp
      · simp only [List.length_cons]
        omega

theorem setItem_eq_append_of_length
    {item : Value × Value} {dict : List (Value × Value)}
    (h : (setItem equal item dict).length = dict.length + 1) :
    setItem equal item dict = dict ++ [item] := by
  induction dict with
  | nil => rfl
  | cons other dict ih =>
      unfold setItem at h ⊢
      split_ifs at h ⊢
      · simp at h
      · rw [ih (by simpa using h)]
        rfl

theorem setItems_length_le
    (equal : Value → Value → Bool) (items dict : List (Value × Value)) :
    (setItems equal dict items).length ≤ dict.length + items.length := by
  induction items generalizing dict with
  | nil => simp [setItems]
  | cons item items ih =>
      have hstep := setItem_length_le equal item dict
      have hrest := ih (setItem equal item dict)
      change (setItems equal (setItem equal item dict) items).length ≤ _
      rw [List.length_cons]
      omega

/-- No item is replaced if there are as many in the end as were set. -/
theorem setItems_eq_append_of_length
    {items dict : List (Value × Value)}
    (h : (setItems equal dict items).length = dict.length + items.length) :
    setItems equal dict items = dict ++ items := by
  induction items generalizing dict with
  | nil => simp [setItems]
  | cons item items ih =>
      have hstep := setItem_length_le equal item dict
      have hrest := setItems_length_le equal items (setItem equal item dict)
      change (setItems equal (setItem equal item dict) items).length = _ at h
      rw [List.length_cons] at h
      have happend : setItem equal item dict = dict ++ [item] :=
        setItem_eq_append_of_length (by omega)
      change setItems equal (setItem equal item dict) items = _
      rw [ih (by omega), happend]
      simp

/-- A dictionary that is built has the items of another exactly if these were set. -/
theorem setItems_eq_iff
    {items expected : List (Value × Value)}
    (hlen : items.length = expected.length)
    (hpairs : expected.Pairwise fun a b => equal a.1 b.1 = false) :
    setItems equal [] items = expected ↔ items = expected := by
  constructor
  · intro h
    have happend : setItems equal [] items = [] ++ items :=
      setItems_eq_append_of_length (by rw [h, hlen]; simp)
    rw [← h, happend, List.nil_append]
  · rintro rfl
    exact setItems_of_pairwise hpairs

end Items

/-- The functions of a name and its values: when Store writes, and what Load makes of what
Store wrote. -/
structure Follows (codec : Codec) (means : Meaning) : Prop where
  isClass : codec.isClass = means.isClass
  store_iff : ∀ v, means.typed v → ((codec.store v).isSome = true ↔ means.storable v)
  loads : ∀ v bytes rest, means.typed v → codec.store v = some bytes →
    Ends (codec.load (bytes ++ rest)) (means.loadable v) fun loaded =>
      loaded.2 = rest ∧ (∀ items, loaded.1 ≠ .dict items) ∧
        (loaded.1 = v ↔ means.loadable v)

section Load

variable {equal : Value → Value → Bool}
variable {declared : List String}
variable {codec : Known declared Codec}
variable {means : Known declared Meaning}

/-- What the statements of a Load leave behind. -/
structure Loaded
    (type : VarType declared) (means : Known declared Meaning)
    (indent : Nat) (x : Variable) (v : Value) (rest : List UInt8)
    (f g : Frame) : Prop where
  buf : g.buf = rest
  keeps : Frame.Keeps indent x f g
  noDict : g.NoDict
  yields : g.vars x = some v ↔ type.loadable means x.onSelf v

/-- Load of a type on what Store wrote. A field holds the initial value before. -/
def LoadsBack
    (equal : Value → Value → Bool)
    (codec : Known declared Codec) (means : Known declared Meaning)
    (type : VarType declared) : Prop :=
  ∀ (indent : Nat) (x : Variable) (rest : List UInt8)
    {f : Frame} {v : Value} {bytes : List UInt8} {onSelf : Bool},
    type.typed equal means v →
    generateVariableStore codec type onSelf v = some bytes →
    f.buf = bytes ++ rest →
    f.NoDict →
    (x.onSelf = true → f.vars x = some (generateInitCode codec type)) →
    x.indent < indent →
      Ends (generateVariableLoad equal codec type indent x f) (type.loadable means x.onSelf v)
        (Loaded type means indent x v rest f)

theorem storeAll_cons_eq_some_iff
    {α : Type} {store : α → Option (List UInt8)} {a : α} {as : List α} {bytes : List UInt8} :
    storeAll store (a :: as) = some bytes ↔
      ∃ front, store a = some front ∧ ∃ back, storeAll store as = some back ∧
        front ++ back = bytes := by
  simp [storeAll, Option.bind_eq_some_iff]

/-- x.append(y). -/
theorem append_eq
    {f : Frame} {x y : Variable} {elmts : List Value} {v : Value}
    (hx : f.vars x = some (.list elmts))
    (hy : f.vars y = some v) :
    f.append x y = some (f.assign x (.list (elmts ++ [v]))) := by
  rw [Frame.append, hx, hy]

theorem append_eq_none
    {f : Frame} {x y : Variable}
    (hy : f.vars y = none) :
    f.append x y = none := by
  unfold Frame.append
  rw [hy]
  split <;> simp_all

/-- The variable that was loaded is appended. -/
theorem ends_append
    (indent : Nat)
    {x y : Variable} {elmt : Value} {loaded : List Value} {f : Frame} {due : Prop}
    (hlist : f.vars x = some (.list loaded))
    (hnoDict : f.NoDict)
    (hyields : f.vars y = some elmt ↔ due) :
    Ends (f.append x y) due
      fun g => g.buf = f.buf ∧ Frame.Keeps indent x f g ∧ g.NoDict ∧
        ∃ w, g.vars x = some (.list (loaded ++ [w])) ∧ (w = elmt ↔ due) := by
  cases hy : f.vars y with
  | none =>
      rw [append_eq_none hy]
      intro hdue
      rw [hy] at hyields
      cases hyields.mpr hdue
  | some w =>
      rw [hy, Option.some.injEq] at hyields
      rw [append_eq hlist hy]
      exact ⟨rfl, (Frame.Keeps.refl indent x f).assign _, hnoDict.assign (fun _ _ h => by cases h),
        w, Frame.assign_self f x _, hyields⟩

/-- The loop over the elements of a list, behind those that are already there. -/
theorem ends_times_append
    {elmtType : VarType declared}
    (helmt : LoadsBack equal codec means elmtType)
    {indent : Nat} {x : Variable}
    (hx : x.indent < indent)
    {elmts : List Value} {onSelf : Bool} {bytes rest : List UInt8} {f : Frame}
    {loaded : List Value}
    (htyped : ∀ elmt ∈ elmts, elmtType.typed equal means elmt)
    (hstore : storeAll (generateVariableStore codec elmtType onSelf) elmts = some bytes)
    (hbuf : f.buf = bytes ++ rest)
    (hnoDict : f.NoDict)
    (hlist : f.vars x = some (.list loaded)) :
    Ends
      (times (fun f => do
        let f ← generateVariableLoad equal codec elmtType (indent + 1) (.val indent) f
        f.append x (.val indent)) elmts.length f)
      (∀ elmt ∈ elmts, elmtType.loadable means false elmt)
      fun g => g.buf = rest ∧ Frame.Keeps indent x f g ∧ g.NoDict ∧
        ∃ ws, g.vars x = some (.list (loaded ++ ws)) ∧
          (ws = elmts ↔ ∀ elmt ∈ elmts, elmtType.loadable means false elmt) := by
  induction elmts generalizing f bytes loaded with
  | nil =>
      cases hstore
      exact ⟨hbuf, Frame.Keeps.refl _ _ _, hnoDict, [], by simpa using hlist, by simp⟩
  | cons elmt elmts ih =>
      rw [List.forall_mem_cons] at htyped
      obtain ⟨front, hfront, back, hback, rfl⟩ := storeAll_cons_eq_some_iff.mp hstore
      have hload := helmt (indent + 1) (.val indent) (back ++ rest) htyped.1 hfront
        (by rw [hbuf, List.append_assoc]) hnoDict (fun h => by cases h) (Nat.lt_succ_self _)
      have hne : x ≠ .val indent := by
        rintro rfl
        exact Nat.lt_irrefl _ hx
      rw [List.length_cons]
      change Ends (Option.bind (Option.bind _ _) _) _ _
      rw [Option.bind_assoc]
      refine hload.bind (fun h => (List.forall_mem_cons.mp h).1) fun g hg => ?_
      have hxg : g.vars x = some (.list loaded) :=
        (hg.keeps x (by omega) hne).trans hlist
      have hyields : g.vars (.val indent) = some elmt ↔ elmtType.loadable means false elmt :=
        hg.yields
      refine (ends_append indent hxg hg.noDict hyields).bind
        (fun h => (List.forall_mem_cons.mp h).1) ?_
      rintro g₁ ⟨hbuf₁, hkeeps₁, hnoDict₁, w, hw, hwiff⟩
      have hrest := ih htyped.2 hback (hbuf₁.trans hg.buf) hnoDict₁ hw
      refine hrest.imp (fun h => (List.forall_mem_cons.mp h).2) ?_
      rintro g' ⟨hbuf', hkeeps', hnoDict', ws, hws, hiff⟩
      refine ⟨hbuf', ?_, hnoDict', w :: ws, by simpa using hws, ?_⟩
      · exact ((Frame.Keeps.inner hg.keeps rfl).trans hkeeps₁).trans hkeeps'
      · rw [List.cons.injEq, hwiff, hiff, List.forall_mem_cons]

/-- The statements that load a key and its element. -/
theorem ends_loadItem
    {keyType elmtType : VarType declared}
    (hkeyType : LoadsBack equal codec means keyType)
    (helmtType : LoadsBack equal codec means elmtType)
    (indent : Nat) (rest : List UInt8)
    {key elmt : Value} {front back : List UInt8} {f : Frame}
    {keyOnSelf elmtOnSelf : Bool}
    (hkey : keyType.typed equal means key)
    (helmt : elmtType.typed equal means elmt)
    (hfront : generateVariableStore codec keyType keyOnSelf key = some front)
    (hback : generateVariableStore codec elmtType elmtOnSelf elmt = some back)
    (hbuf : f.buf = front ++ (back ++ rest))
    (hnoDict : f.NoDict) :
    Ends
      ((generateVariableLoad equal codec keyType (indent + 1) (.key indent) f).bind
        (generateVariableLoad equal codec elmtType (indent + 1) (.val indent)))
      (keyType.loadable means false key ∧ elmtType.loadable means false elmt)
      fun g => g.buf = rest ∧ (∀ x, Frame.Keeps indent x f g) ∧ g.NoDict ∧
        (g.vars (.key indent) = some key ↔ keyType.loadable means false key) ∧
        (g.vars (.val indent) = some elmt ↔ elmtType.loadable means false elmt) := by
  have hkeyLoad := hkeyType (indent + 1) (.key indent) (back ++ rest) hkey hfront hbuf
    hnoDict (fun h => by cases h) (Nat.lt_succ_self _)
  refine hkeyLoad.bind (fun h => h.1) fun g hg => ?_
  have helmtLoad := helmtType (indent + 1) (.val indent) rest helmt hback hg.buf
    hg.noDict (fun h => by cases h) (Nat.lt_succ_self _)
  refine helmtLoad.imp (fun h => h.2) fun g' hg' => ?_
  have hkeyKept : g'.vars (.key indent) = g.vars (.key indent) :=
    hg'.keeps _ (Nat.lt_succ_self _) (fun h => by cases h)
  refine ⟨hg'.buf, fun x => ?_, hg'.noDict, ?_, hg'.yields⟩
  · exact (Frame.Keeps.inner hg.keeps rfl).trans (Frame.Keeps.inner hg'.keeps rfl)
  · rw [hkeyKept]
    exact hg.yields

/-- A key that is not hashable raises an error. -/
theorem setItem_eq
    {f : Frame} {x k v : Variable} {dict : List (Value × Value)} {key elmt : Value}
    (hx : f.vars x = some (.dict dict))
    (hk : f.vars k = some key)
    (hv : f.vars v = some elmt) :
    f.setItem equal x k v =
      if key.hashable then some (f.assign x (.dict (setItem equal (key, elmt) dict))) else none := by
  rw [Frame.setItem, hx, hk, hv]

theorem setItem_eq_none
    {f : Frame} {x k v : Variable}
    (h : f.vars k = none ∨ f.vars v = none) :
    f.setItem equal x k v = none := by
  unfold Frame.setItem
  rcases h with h | h
  · rw [h]
    split <;> simp_all
  · rw [h]
    split <;> simp_all

/-- Without a dictionary no item is set. -/
theorem setItem_eq_none_of_noDict
    {f : Frame} {x k v : Variable}
    (h : ∀ items, f.vars x ≠ some (.dict items)) :
    f.setItem equal x k v = none := by
  unfold Frame.setItem
  split
  · next items key elmt hx hk hv => exact absurd hx (h items)
  · rfl

/-- An item is set with the key and the element that were loaded. -/
theorem ends_setItem
    (indent : Nat)
    {x k v : Variable} {item : Value × Value} {dict : List (Value × Value)} {f : Frame}
    {keyDue elmtDue : Prop}
    (hself : x.onSelf = true)
    (hdict : f.vars x = some (.dict dict))
    (hnoDict : f.NoDict)
    (hhashable : item.1.hashable = true)
    (hkey : f.vars k = some item.1 ↔ keyDue)
    (helmt : f.vars v = some item.2 ↔ elmtDue) :
    Ends (f.setItem equal x k v) (keyDue ∧ elmtDue)
      fun g => g.buf = f.buf ∧ Frame.Keeps indent x f g ∧ g.NoDict ∧
        ∃ w, g.vars x = some (.dict (setItem equal w dict)) ∧
          (w = item ↔ keyDue ∧ elmtDue) := by
  cases hk : f.vars k with
  | none =>
      rw [setItem_eq_none (Or.inl hk)]
      intro hdue
      have hyields := hkey.mpr hdue.1
      rw [hk] at hyields
      cases hyields
  | some key =>
      cases hv : f.vars v with
      | none =>
          rw [setItem_eq_none (Or.inr hv)]
          intro hdue
          have hyields := helmt.mpr hdue.2
          rw [hv] at hyields
          cases hyields
      | some elmt =>
          rw [hk, Option.some.injEq] at hkey
          rw [hv, Option.some.injEq] at helmt
          rw [setItem_eq hdict hk hv]
          split_ifs with hhash
          · refine ⟨rfl, (Frame.Keeps.refl indent x f).assign _, ?_, (key, elmt),
              Frame.assign_self f x _, by rw [Prod.ext_iff, hkey, helmt]⟩
            exact hnoDict.assign fun h => by rw [hself] at h; cases h
          · intro hdue
            rw [hkey.mpr hdue.1] at hhash
            exact hhash hhashable

/-- The loop over the items of a dictionary that is a field. -/
theorem ends_times_setItem
    {keyType elmtType : VarType declared}
    (hkeyType : LoadsBack equal codec means keyType)
    (helmtType : LoadsBack equal codec means elmtType)
    {indent : Nat} {x : Variable}
    (hx : x.indent < indent)
    (hself : x.onSelf = true)
    {items dict : List (Value × Value)} {bytes rest : List UInt8} {f : Frame}
    (htyped : ∀ item ∈ items, item.1.hashable = true ∧
      keyType.typed equal means item.1 ∧ elmtType.typed equal means item.2)
    (hstore : storeAll (fun item => do
      let key ← generateVariableStore codec keyType false item.1
      let elmt ← generateVariableStore codec elmtType false item.2
      some (key ++ elmt)) items = some bytes)
    (hbuf : f.buf = bytes ++ rest)
    (hnoDict : f.NoDict)
    (hdict : f.vars x = some (.dict dict)) :
    Ends
      (times (fun f => do
        let f ← generateVariableLoad equal codec keyType (indent + 1) (.key indent) f
        let f ← generateVariableLoad equal codec elmtType (indent + 1) (.val indent) f
        f.setItem equal x (.key indent) (.val indent)) items.length f)
      (∀ item ∈ items, keyType.loadable means false item.1 ∧ elmtType.loadable means false item.2)
      fun g => g.buf = rest ∧ Frame.Keeps indent x f g ∧ g.NoDict ∧
        ∃ ws, ws.length = items.length ∧ g.vars x = some (.dict (setItems equal dict ws)) ∧
          (ws = items ↔ ∀ item ∈ items,
            keyType.loadable means false item.1 ∧ elmtType.loadable means false item.2) := by
  induction items generalizing f bytes dict with
  | nil =>
      cases hstore
      exact ⟨hbuf, Frame.Keeps.refl _ _ _, hnoDict, [], rfl,
        by simpa [setItems] using hdict, by simp⟩
  | cons item items ih =>
      rw [List.forall_mem_cons] at htyped
      obtain ⟨front, hfront, back, hback, rfl⟩ := storeAll_cons_eq_some_iff.mp hstore
      simp only [Option.bind_eq_bind, Option.bind_eq_some_iff, Option.some.injEq] at hfront
      obtain ⟨keyBytes, hkeyBytes, elmtBytes, helmtBytes, rfl⟩ := hfront
      obtain ⟨⟨hhashable, hkey, helmt⟩, hitems⟩ := htyped
      have hload := ends_loadItem hkeyType helmtType indent (back ++ rest) hkey
        helmt hkeyBytes helmtBytes (by rw [hbuf]; simp) hnoDict
      rw [List.length_cons]
      change Ends (Option.bind (Option.bind _ fun f => Option.bind _ _) _) _ _
      rw [← Option.bind_assoc, Option.bind_assoc]
      refine hload.bind (fun h => (List.forall_mem_cons.mp h).1) ?_
      rintro g ⟨hgbuf, hgkeeps, hgnoDict, hgkey, hgelmt⟩
      have hne : x ≠ .key indent := by
        rintro rfl
        exact Nat.lt_irrefl _ hx
      have hxg : g.vars x = some (.dict dict) := (hgkeeps _ x hx hne).trans hdict
      refine (ends_setItem indent hself hxg hgnoDict hhashable hgkey hgelmt).bind
        (fun h => (List.forall_mem_cons.mp h).1) ?_
      rintro g₁ ⟨hbuf₁, hkeeps₁, hnoDict₁, w, hw, hwiff⟩
      have hnext := ih hitems hback (hbuf₁.trans hgbuf) hnoDict₁ hw
      refine hnext.imp (fun h => (List.forall_mem_cons.mp h).2) ?_
      rintro g' ⟨hbuf', hkeeps', hnoDict', ws, hlen, hws, hiff⟩
      refine ⟨hbuf', ((hgkeeps x).trans hkeeps₁).trans hkeeps', hnoDict', w :: ws,
        by rw [List.length_cons, hlen], hws, ?_⟩
      rw [List.cons.injEq, hwiff, hiff, List.forall_mem_cons]

/-- A map that is no field: no item is set, and without items the variable is left as it
was. -/
theorem ends_times_setItem_local
    {keyType elmtType : VarType declared}
    (hkeyType : LoadsBack equal codec means keyType)
    (helmtType : LoadsBack equal codec means elmtType)
    {indent : Nat} {x : Variable}
    (hself : x.onSelf = false)
    {items : List (Value × Value)} {bytes rest : List UInt8} {f : Frame}
    (htyped : ∀ item ∈ items, item.1.hashable = true ∧
      keyType.typed equal means item.1 ∧ elmtType.typed equal means item.2)
    (hstore : storeAll (fun item => do
      let key ← generateVariableStore codec keyType false item.1
      let elmt ← generateVariableStore codec elmtType false item.2
      some (key ++ elmt)) items = some bytes)
    (hbuf : f.buf = bytes ++ rest)
    (hnoDict : f.NoDict) :
    Ends
      (times (fun f => do
        let f ← generateVariableLoad equal codec keyType (indent + 1) (.key indent) f
        let f ← generateVariableLoad equal codec elmtType (indent + 1) (.val indent) f
        f.setItem equal x (.key indent) (.val indent)) items.length f)
      False
      fun g => g.buf = rest ∧ Frame.Keeps indent x f g ∧ g.NoDict := by
  cases items with
  | nil =>
      cases hstore
      exact ⟨hbuf, Frame.Keeps.refl _ _ _, hnoDict⟩
  | cons item items =>
      obtain ⟨hhashable, hkey, helmt⟩ := htyped item (List.mem_cons_self ..)
      obtain ⟨front, hfront, back, hback, rfl⟩ := storeAll_cons_eq_some_iff.mp hstore
      simp only [Option.bind_eq_bind, Option.bind_eq_some_iff, Option.some.injEq] at hfront
      obtain ⟨keyBytes, hkeyBytes, elmtBytes, helmtBytes, rfl⟩ := hfront
      have hload := ends_loadItem hkeyType helmtType indent (back ++ rest) hkey
        helmt hkeyBytes helmtBytes (by rw [hbuf]; simp) hnoDict
      rw [List.length_cons]
      change Ends (Option.bind (Option.bind _ fun f => Option.bind _ _) _) _ _
      rw [← Option.bind_assoc, Option.bind_assoc]
      refine hload.bind False.elim ?_
      rintro g ⟨-, -, hgnoDict, -, -⟩
      rw [setItem_eq_none_of_noDict (hgnoDict x hself)]
      exact not_false

/-- A variable that is bound in the end. -/
theorem loaded_assign
    {type : VarType declared} {indent : Nat} {x : Variable} {v w : Value} {rest : List UInt8}
    {f g : Frame}
    (hbuf : g.buf = rest)
    (hkeeps : Frame.Keeps indent x f g)
    (hnoDict : g.NoDict)
    (hw : x.onSelf = false → ∀ items, w ≠ .dict items)
    (hiff : w = v ↔ type.loadable means x.onSelf v) :
    Loaded type means indent x v rest f (g.assign x w) where
  buf := hbuf
  keeps := hkeeps.assign w
  noDict := hnoDict.assign hw
  yields := by rw [Frame.assign_self, Option.some.injEq, hiff]

/-- sVarName = [], whether it binds the variable or a name that nothing reads. -/
theorem clear_spec
    {f : Frame} {x : Variable}
    (indent : Nat)
    (hnoDict : f.NoDict)
    (hinit : x.onSelf = true → f.vars x = some (.list [])) :
    (f.clear x).buf = f.buf ∧ Frame.Keeps indent x f (f.clear x) ∧ (f.clear x).NoDict ∧
      (f.clear x).vars x = some (.list []) := by
  have hassign : (f.assign x (.list [])).buf = f.buf ∧
      Frame.Keeps indent x f (f.assign x (.list [])) ∧ (f.assign x (.list [])).NoDict ∧
      (f.assign x (.list [])).vars x = some (.list []) :=
    ⟨rfl, (Frame.Keeps.refl indent x f).assign _, hnoDict.assign (fun _ _ h => by cases h),
      Frame.assign_self f x _⟩
  cases x with
  | field index => exact ⟨rfl, Frame.Keeps.refl _ _ _, hnoDict, hinit rfl⟩
  | _ => exact hassign

/-- The loop over the elements of a list. By induction on the elements that are left. -/
theorem loadsBack_container
    {elmtType : VarType declared}
    (helmt : LoadsBack equal codec means elmtType)
    {indent : Nat} {x : Variable}
    (hx : x.indent < indent)
    {elmts : List Value} {bytes rest : List UInt8} {f : Frame}
    (htyped : ∀ elmt ∈ elmts, elmtType.typed equal means elmt)
    (hstore : (do
      let length ← packLength elmts.length
      let bytes ← storeAll (generateVariableStore codec elmtType false) elmts
      some (length ++ bytes)) = some bytes)
    (hbuf : f.buf = bytes ++ rest)
    (hnoDict : f.NoDict)
    (hinit : x.onSelf = true → f.vars x = some (.list [])) :
    Ends
      (loadContainer indent x (generateVariableLoad equal codec elmtType (indent + 1) (.val indent)) f)
      (∀ elmt ∈ elmts, elmtType.loadable means false elmt)
      fun g => g.buf = rest ∧ Frame.Keeps indent x f g ∧ g.NoDict ∧
        (g.vars x = some (.list elmts) ↔ ∀ elmt ∈ elmts, elmtType.loadable means false elmt) := by
  simp only [Option.bind_eq_bind, Option.bind_eq_some_iff, Option.some.injEq] at hstore
  obtain ⟨length, hlength, elmtBytes, helmtBytes, rfl⟩ := hstore
  have hunpack := unpackInt_of_packLength hlength (elmtBytes ++ rest)
  rw [← List.append_assoc, ← hbuf] at hunpack
  unfold loadContainer
  rw [hunpack]
  change Ends (times _ (elmts.length : Int).toNat _) _ _
  rw [Int.toNat_natCast]
  have hcleared := clear_spec (f := { f with buf := elmtBytes ++ rest }) indent hnoDict hinit
  obtain ⟨hclearBuf, hclearKeeps, hclearNoDict, hclearList⟩ := hcleared
  have hloop := ends_times_append helmt hx htyped helmtBytes hclearBuf hclearNoDict hclearList
  refine hloop.imp id ?_
  rintro g ⟨hgbuf, hgkeeps, hgnoDict, ws, hws, hiff⟩
  refine ⟨hgbuf, Frame.Keeps.trans hclearKeeps hgkeeps, hgnoDict, ?_⟩
  rw [hws, List.nil_append, Option.some.injEq, Value.list.injEq, hiff]

/-- Store of a static array writes its elements, or there are none. -/
theorem storeAll_of_staticArray
    {elmtType : VarType declared} {onSelf : Bool} {elmts : List Value} {bytes : List UInt8}
    (h : generateVariableStore codec (.staticArray elmtType elmts.length) onSelf (.list elmts) =
      some bytes) :
    ∃ onSelf, storeAll (generateVariableStore codec elmtType onSelf) elmts = some bytes := by
  unfold generateVariableStore at h
  split_ifs at h with hself hcount
  · rw [Nat.sub_self, List.replicate_zero, List.append_nil, List.take_length] at h
    exact ⟨true, h⟩
  · rw [List.length_eq_zero_iff.mp hcount]
    exact ⟨true, h⟩

/-- A value of a primitive type is a word of its size. -/
theorem word_of_typed
    {type : PrimitiveType} {v : Value}
    (h : (VarType.primitive type : VarType declared).typed equal means v) :
    ∃ n, v = .word n ∧ n < 256 ^ type.size := by
  cases v with
  | word n =>
      refine ⟨n, rfl, Nat.lt_of_lt_of_le h ?_⟩
      cases type <;> decide
  | _ => cases h

theorem loadsBack_primitive
    (type : PrimitiveType) :
    LoadsBack equal codec means (.primitive type) := by
  intro indent x rest f v bytes onSelf htyped hstore hbuf hnoDict hinit hx
  obtain ⟨n, rfl, hn⟩ := word_of_typed htyped
  cases hstore
  unfold generateVariableLoad
  rw [hbuf, unpack_encode hn]
  exact loaded_assign rfl (fun _ _ _ => rfl) hnoDict (fun _ _ h => by cases h)
    (by simp [VarType.loadable])

theorem loadsBack_string :
    LoadsBack equal codec means .string := by
  intro indent x rest f v bytes onSelf htyped hstore hbuf hnoDict hinit hx
  cases v with
  | text text =>
      simp only [generateVariableStore, Option.bind_eq_bind, Option.bind_eq_some_iff,
        Option.some.injEq] at hstore
      obtain ⟨length, hlength, rfl⟩ := hstore
      have hslice : sliceIndex (text ++ rest) text.length = text.length := by
        rw [sliceIndex, if_pos (Int.natCast_nonneg _), Int.toNat_natCast]
      unfold generateVariableLoad
      rw [hbuf, List.append_assoc, unpackInt_of_packLength hlength]
      change Ends (some _) _ _
      rw [hslice, List.take_left, List.drop_left]
      exact loaded_assign rfl (fun _ _ _ => rfl) hnoDict (fun _ _ h => by cases h)
        (by simp [VarType.loadable])
  | _ => cases htyped

theorem loadsBack_userDefine
    {name : String} {known : name ∈ declared}
    (hcodec : Follows (codec name known) (means name known)) :
    LoadsBack equal codec means (.userDefine name known) := by
  intro indent x rest f v bytes onSelf htyped hstore hbuf hnoDict hinit hx
  have hload := hcodec.loads v bytes rest htyped hstore
  unfold generateVariableLoad
  rw [hbuf]
  refine hload.bind id ?_
  rintro ⟨w, buf⟩ ⟨rfl, hdict, hiff⟩
  exact loaded_assign rfl (fun _ _ _ => rfl) hnoDict (fun _ => hdict) hiff

theorem loadsBack_list
    {elmtType : VarType declared}
    (helmt : LoadsBack equal codec means elmtType) :
    LoadsBack equal codec means (.list elmtType) := by
  intro indent x rest f v bytes onSelf htyped hstore hbuf hnoDict hinit hx
  cases v with
  | list elmts =>
      refine (loadsBack_container helmt hx htyped hstore hbuf hnoDict hinit).imp id ?_
      rintro g ⟨hgbuf, hgkeeps, hgnoDict, hgiff⟩
      exact ⟨hgbuf, hgkeeps, hgnoDict, hgiff⟩
  | _ => cases htyped

theorem loadsBack_array
    {elmtType : VarType declared}
    (helmt : LoadsBack equal codec means elmtType) :
    LoadsBack equal codec means (.array elmtType) := by
  intro indent x rest f v bytes onSelf htyped hstore hbuf hnoDict hinit hx
  cases v with
  | list elmts =>
      refine (loadsBack_container helmt hx htyped hstore hbuf hnoDict hinit).imp id ?_
      rintro g ⟨hgbuf, hgkeeps, hgnoDict, hgiff⟩
      exact ⟨hgbuf, hgkeeps, hgnoDict, hgiff⟩
  | _ => cases htyped

/-- A map that is a field is given back, and no other map is. -/
theorem loadsBack_map
    {keyType elmtType : VarType declared}
    (hkeyType : LoadsBack equal codec means keyType)
    (helmtType : LoadsBack equal codec means elmtType) :
    LoadsBack equal codec means (.map keyType elmtType) := by
  intro indent x rest f v bytes onSelf htyped hstore hbuf hnoDict hinit hx
  cases v with
  | dict items =>
      obtain ⟨hpairs, hitems⟩ := htyped
      simp only [generateVariableStore, Option.bind_eq_bind, Option.bind_eq_some_iff,
        Option.some.injEq] at hstore
      obtain ⟨length, hlength, itemBytes, hitemBytes, rfl⟩ := hstore
      have hunpack := unpackInt_of_packLength hlength (itemBytes ++ rest)
      rw [← List.append_assoc, ← hbuf] at hunpack
      unfold generateVariableLoad
      rw [hunpack]
      change Ends (times _ (items.length : Int).toNat _) _ _
      rw [Int.toNat_natCast]
      cases hself : x.onSelf with
      | true =>
          refine (ends_times_setItem (f := { f with buf := itemBytes ++ rest }) hkeyType helmtType
            hx hself hitems hitemBytes rfl hnoDict (hinit hself)).imp (fun h => h.2) ?_
          rintro g ⟨hgbuf, hgkeeps, hgnoDict, ws, hlen, hws, hiff⟩
          refine ⟨hgbuf, hgkeeps, hgnoDict, ?_⟩
          rw [hws, Option.some.injEq, Value.dict.injEq, setItems_eq_iff hlen hpairs, hiff, hself]
          simp [VarType.loadable]
      | false =>
          refine (ends_times_setItem_local (f := { f with buf := itemBytes ++ rest }) hkeyType
            helmtType hself hitems hitemBytes rfl hnoDict).imp
            (fun h => Bool.false_ne_true h.1) ?_
          rintro g ⟨hgbuf, hgkeeps, hgnoDict⟩
          refine ⟨hgbuf, hgkeeps, hgnoDict, ?_⟩
          rw [hself]
          exact iff_of_false (hgnoDict x hself items) fun h => Bool.false_ne_true h.1
  | _ => cases htyped

theorem loadsBack_staticArray
    {elmtType : VarType declared}
    (count : Nat)
    (helmt : LoadsBack equal codec means elmtType) :
    LoadsBack equal codec means (.staticArray elmtType count) := by
  intro indent x rest f v bytes onSelf htyped hstore hbuf hnoDict hinit hx
  cases v with
  | list elmts =>
      obtain ⟨rfl, helmts⟩ := htyped
      obtain ⟨onSelf, hstore⟩ := storeAll_of_staticArray hstore
      unfold generateVariableLoad
      refine (ends_times_append (f := f.assign x (.list [])) helmt hx helmts hstore hbuf
        (hnoDict.assign fun _ _ h => by cases h) (Frame.assign_self f x _)).imp id ?_
      rintro g ⟨hgbuf, hgkeeps, hgnoDict, ws, hws, hiff⟩
      refine ⟨hgbuf, ?_, hgnoDict, ?_⟩
      · exact ((Frame.Keeps.refl indent x f).assign _).trans hgkeeps
      · rw [hws, List.nil_append, Option.some.injEq, Value.list.injEq, hiff]
        rfl
  | _ => cases htyped

/-- Load of every type on what Store wrote. -/
theorem loadsBack
    (hcodec : ∀ name known, Follows (codec name known) (means name known))
    (type : VarType declared) :
    LoadsBack equal codec means type := by
  induction type with
  | primitive type => exact loadsBack_primitive type
  | string => exact loadsBack_string
  | userDefine name known => exact loadsBack_userDefine (hcodec name known)
  | list elmtType ih => exact loadsBack_list ih
  | array elmtType ih => exact loadsBack_array ih
  | map keyType elmtType ihkey ihelmt => exact loadsBack_map ihkey ihelmt
  | staticArray elmtType count ih => exact loadsBack_staticArray count ih

theorem isSome_bind_append
    {front back : Option (List UInt8)} :
    (front.bind fun a => back.bind fun b => some (a ++ b)).isSome = true ↔
      front.isSome = true ∧ back.isSome = true := by
  cases front with
  | none => simp
  | some a =>
      cases back with
      | none => simp
      | some b => simp

/-- A list is stored if each of its elements is. -/
theorem isSome_storeAll
    {α : Type} {store : α → Option (List UInt8)} {as : List α} :
    (storeAll store as).isSome = true ↔ ∀ a ∈ as, (store a).isSome = true := by
  induction as with
  | nil => simp [storeAll]
  | cons a as ih =>
      rw [List.forall_mem_cons, ← ih]
      exact isSome_bind_append

/-- The length is packed as a signed int. -/
theorem isSome_packLength
    (n : Nat) :
    (packLength n).isSome = true ↔ n < 2 ^ 31 := by
  unfold packLength
  split_ifs with hn
  · exact iff_of_true rfl hn
  · exact iff_of_false Bool.false_ne_true hn

/-- Store writes the values that it should. -/
theorem isSome_store
    (hcodec : ∀ name known, Follows (codec name known) (means name known))
    {type : VarType declared} {onSelf : Bool} {v : Value}
    (htyped : type.typed equal means v) :
    (generateVariableStore codec type onSelf v).isSome = true ↔
      type.storable means onSelf v := by
  induction type generalizing onSelf v with
  | primitive type =>
      obtain ⟨n, rfl, -⟩ := word_of_typed htyped
      simp [generateVariableStore, VarType.storable]
  | string =>
      cases v with
      | text bytes =>
          refine Iff.trans ?_ (isSome_packLength bytes.length)
          rw [generateVariableStore, Option.bind_eq_bind, Option.isSome_bind]
          simp
      | _ => cases htyped
  | userDefine name known => exact (hcodec name known).store_iff v htyped
  | list elmtType ih =>
      cases v with
      | list elmts =>
          refine isSome_bind_append.trans (and_congr (isSome_packLength _) ?_)
          exact isSome_storeAll.trans (forall₂_congr fun elmt helmt => ih (htyped elmt helmt))
      | _ => cases htyped
  | array elmtType ih =>
      cases v with
      | list elmts =>
          refine isSome_bind_append.trans (and_congr (isSome_packLength _) ?_)
          exact isSome_storeAll.trans (forall₂_congr fun elmt helmt => ih (htyped elmt helmt))
      | _ => cases htyped
  | map keyType elmtType ihkey ihelmt =>
      cases v with
      | dict items =>
          refine isSome_bind_append.trans (and_congr (isSome_packLength _) ?_)
          refine isSome_storeAll.trans (forall₂_congr fun item hitem => ?_)
          obtain ⟨-, hkey, helmt⟩ := htyped.2 item hitem
          exact isSome_bind_append.trans (and_congr (ihkey hkey) (ihelmt helmt))
      | _ => cases htyped
  | staticArray elmtType count ih =>
      cases v with
      | list elmts =>
          obtain ⟨rfl, helmts⟩ := htyped
          rw [VarType.storable, generateVariableStore, Nat.sub_self, List.replicate_zero,
            List.append_nil, List.take_length]
          cases onSelf with
          | true =>
              rw [if_pos rfl, isSome_storeAll, and_iff_right (Or.inl rfl)]
              exact forall₂_congr fun elmt helmt => ih (helmts elmt helmt)
          | false =>
              rw [if_neg Bool.false_ne_true]
              split_ifs with hcount
              · rw [List.length_eq_zero_iff] at hcount
                subst hcount
                simp
              · simp [hcount]
      | _ => cases htyped

section Message

variable {fields : List (VarType declared)} {values : List Value}

/-- The fields are stored if each of them is. -/
theorem isSome_storeFields
    (hcodec : ∀ name known, Follows (codec name known) (means name known))
    (htyped : List.Forall₂ (fun type v => type.typed equal means v) fields values) :
    (storeFields codec fields values).isSome = true ↔
      List.Forall₂ (fun type v => type.storable means true v) fields values := by
  induction htyped with
  | nil => simp [storeFields]
  | cons htype hrest ih =>
      rw [List.forall₂_cons, ← ih, ← isSome_store hcodec htype]
      exact isSome_bind_append

theorem attributes_eq_some_cons_iff
    {f : Frame} {index count : Nat} {v : Value} {values : List Value} :
    f.attributes index (count + 1) = some (v :: values) ↔
      f.vars (.field index) = some v ∧ f.attributes (index + 1) count = some values := by
  simp [Frame.attributes, Option.bind_eq_some_iff]

/-- The fields of self before they are loaded. -/
def Initial
    (codec : Known declared Codec)
    (fields : List (VarType declared)) (index : Nat) (f : Frame) : Prop :=
  ∀ i type, fields[i]? = some type →
    f.vars (.field (index + i)) = some (generateInitCode codec type)

/-- The fields are loaded back one after the other, into the attributes in order. -/
theorem ends_loadFields
    (hcodec : ∀ name known, Follows (codec name known) (means name known))
    {index : Nat} {bytes rest : List UInt8} {f : Frame}
    (htyped : List.Forall₂ (fun type v => type.typed equal means v) fields values)
    (hstore : storeFields codec fields values = some bytes)
    (hbuf : f.buf = bytes ++ rest)
    (hnoDict : f.NoDict)
    (hinitial : Initial codec fields index f) :
    Ends (loadFields equal codec fields index f)
      (List.Forall₂ (fun type v => type.loadable means true v) fields values)
      fun g => g.buf = rest ∧ (∀ i < index, g.vars (.field i) = f.vars (.field i)) ∧
        (g.attributes index fields.length = some values ↔
          List.Forall₂ (fun type v => type.loadable means true v) fields values) := by
  induction htyped generalizing index bytes f with
  | nil =>
      cases hstore
      exact ⟨hbuf, fun _ _ => rfl, by simp [Frame.attributes]⟩
  | @cons type v fields values htype hrest ih =>
      simp only [storeFields, Option.bind_eq_bind, Option.bind_eq_some_iff,
        Option.some.injEq] at hstore
      obtain ⟨front, hfront, back, hback, rfl⟩ := hstore
      have hload := loadsBack hcodec type 2 (.field index) (back ++ rest) htype
        hfront (by rw [hbuf, List.append_assoc]) hnoDict (fun _ => hinitial 0 type rfl)
        (Nat.zero_lt_succ _)
      refine hload.bind (fun h => (List.forall₂_cons.mp h).1) fun g hg => ?_
      have hother : ∀ i, i ≠ index → g.vars (.field i) = f.vars (.field i) := by
        intro i hi
        exact hg.keeps _ (Nat.zero_lt_succ _) fun h => hi (Variable.field.inj h)
      have hnext := @ih (index + 1) back g hback hg.buf hg.noDict (by
        intro i type htype
        rw [hother _ (by omega)]
        have hi := hinitial (i + 1) type htype
        rwa [Nat.add_comm i 1, ← Nat.add_assoc] at hi)
      refine hnext.imp (fun h => (List.forall₂_cons.mp h).2) ?_
      rintro g' ⟨hgbuf, hgothers, hgvalues⟩
      refine ⟨hgbuf, fun i hi => ?_, ?_⟩
      · exact (hgothers i (by omega)).trans (hother i (by omega))
      · have hyields : g'.vars (.field index) = some v ↔ type.loadable means true v := by
          rw [hgothers index (by omega)]
          exact hg.yields
        rw [List.length_cons, attributes_eq_some_cons_iff, hyields, hgvalues, List.forall₂_cons]

/-- Load starts with the attributes that the constructor has set. -/
theorem initial_callingOn
    (fields : List (VarType declared)) (buf : List UInt8) :
    Initial codec fields 0 (callingOn (fields.map (generateInitCode codec)) buf) := by
  intro i type htype
  simp [callingOn, htype]

theorem noDict_calling
    (buf : List UInt8) :
    (calling buf).NoDict := by
  intro x _ items h
  cases h

theorem noDict_callingOn
    (attributes : List Value) (buf : List UInt8) :
    (callingOn attributes buf).NoDict := by
  intro x hx items h
  cases x with
  | field index => cases hx
  | _ => cases h

theorem follows_enum :
    Follows compileEnum (Decl.meaning equal means .enum) where
  isClass := rfl
  store_iff v htyped := by
    cases v with
    | word n => simp [compileEnum, Decl.meaning]
    | _ => cases htyped
  loads v bytes rest htyped hstore := by
    cases v with
    | word n =>
        cases hstore
        have hn : n < 256 ^ 4 := htyped
        have hload : compileEnum.load (encode 4 n ++ rest) = some (.word n, rest) := by
          simp [compileEnum, unpack_encode hn]
        rw [hload]
        exact ⟨rfl, (fun _ h => by cases h), iff_of_true rfl trivial⟩
    | _ => cases htyped

theorem follows_typedef
    (hcodec : ∀ name known, Follows (codec name known) (means name known))
    (type : VarType declared) :
    Follows (compileTypedef equal codec type) (Decl.meaning equal means (.typedef type)) where
  isClass := rfl
  store_iff _ htyped := isSome_store hcodec htyped
  loads v bytes rest htyped hstore := by
    have hload := loadsBack hcodec type 1 .typedef rest (f := calling (bytes ++ rest)) htyped
      hstore rfl (noDict_calling _) (fun h => by cases h)
      (Nat.zero_lt_succ _)
    refine hload.bind id fun g hg => ?_
    cases hval : g.vars .typedef with
    | none =>
        intro hloadable
        have hyields := hg.yields.mpr hloadable
        rw [hval] at hyields
        cases hyields
    | some w =>
        have hiff : some w = some v ↔ type.loadable means false v := hval ▸ hg.yields
        rw [Option.some.injEq] at hiff
        refine ⟨hg.buf, fun items h => hg.noDict .typedef rfl items ?_, hiff⟩
        rw [hval]
        exact congrArg some h

/-- The parent's part of an object. -/
theorem ends_loadParent
    (hcodec : ∀ name known, Follows (codec name known) (means name known))
    (rest : List UInt8)
    {parent : Option {name : String // name ∈ declared}} {parentValue : Option Value}
    {front : List UInt8}
    (htyped : Parent means (fun base v => base.isClass = true ∧ base.typed v) parent parentValue)
    (hstore : storeParent codec parent parentValue = some front) :
    Ends (loadParent codec parent (front ++ rest))
      (Parent means (fun base v => base.loadable v) parent parentValue)
      fun loaded => loaded.2 = rest ∧
        (loaded.1 = parentValue ↔
          Parent means (fun base v => base.loadable v) parent parentValue) := by
  cases parent with
  | none =>
      cases parentValue with
      | none =>
          cases hstore
          exact ⟨rfl, iff_of_true rfl trivial⟩
      | some v => cases htyped
  | some base =>
      cases parentValue with
      | none => cases htyped
      | some v =>
          obtain ⟨hclass, hv⟩ := htyped
          have hbase := hcodec base.1 base.2
          rw [← hbase.isClass] at hclass
          rw [storeParent, if_pos hclass] at hstore
          rw [loadParent, if_pos hclass]
          refine (hbase.loads v front rest hv hstore).bind id ?_
          rintro ⟨w, buf⟩ ⟨hrest, -, hiff⟩
          refine ⟨hrest, ?_⟩
          rw [Option.some.injEq]
          exact hiff

theorem isSome_storeParent
    (hcodec : ∀ name known, Follows (codec name known) (means name known))
    {parent : Option {name : String // name ∈ declared}} {parentValue : Option Value}
    (htyped :
      Parent means (fun base v => base.isClass = true ∧ base.typed v) parent parentValue) :
    (storeParent codec parent parentValue).isSome = true ↔
      Parent means (fun base v => base.storable v) parent parentValue := by
  cases parent with
  | none =>
      cases parentValue with
      | none => exact iff_of_true rfl trivial
      | some v => cases htyped
  | some base =>
      cases parentValue with
      | none => cases htyped
      | some v =>
          obtain ⟨hclass, hv⟩ := htyped
          have hbase := hcodec base.1 base.2
          rw [← hbase.isClass] at hclass
          rw [storeParent, if_pos hclass]
          exact hbase.store_iff v hv

theorem follows_message
    (hcodec : ∀ name known, Follows (codec name known) (means name known))
    (parent : Option {name : String // name ∈ declared})
    (fields : List (VarType declared)) :
    Follows (compileMessage equal codec parent fields)
      (Decl.meaning equal means (.message parent fields)) where
  isClass := rfl
  store_iff v htyped := by
    cases v with
    | object parentValue values =>
        exact isSome_bind_append.trans
          (and_congr (isSome_storeParent hcodec htyped.1) (isSome_storeFields hcodec htyped.2))
    | _ => cases htyped
  loads v bytes rest htyped hstore := by
    cases v with
    | object parentValue values =>
        simp only [compileMessage, Option.bind_eq_bind, Option.bind_eq_some_iff,
          Option.some.injEq] at hstore
        obtain ⟨front, hfront, back, hback, rfl⟩ := hstore
        rw [List.append_assoc]
        refine (ends_loadParent hcodec (back ++ rest) htyped.1 hfront).bind (fun h => h.1) ?_
        rintro ⟨w, buf⟩ ⟨rfl, hparent⟩
        have hfields := ends_loadFields hcodec htyped.2 hback rfl
          (noDict_callingOn (fields.map (generateInitCode codec)) (back ++ rest))
          (initial_callingOn fields (back ++ rest))
        refine hfields.bind (fun h => h.2) ?_
        rintro g ⟨hgbuf, -, hgvalues⟩
        cases hattributes : g.attributes 0 fields.length with
        | none =>
            intro hloadable
            have hyields := hgvalues.mpr hloadable.2
            rw [hattributes] at hyields
            cases hyields
        | some ws =>
            rw [hattributes, Option.some.injEq] at hgvalues
            refine ⟨hgbuf, (fun _ h => by cases h), ?_⟩
            rw [Value.object.injEq]
            exact and_congr hparent hgvalues
    | _ => cases htyped

end Message

end Load

/-- The functions of a file and the values of its types. -/
theorem follows
    (equal : Value → Value → Bool)
    {declared : List String}
    (env : Environment declared)
    (name : String)
    (known : name ∈ declared) :
    Follows (env.codec equal name known) (env.meaning equal name known) := by
  refine Declarations.compile_related Follows (fun codec means hcodec decl => ?_) env name known
  cases decl with
  | enum => exact follows_enum
  | typedef type => exact follows_typedef hcodec type
  | message parent fields => exact follows_message hcodec parent fields

/-- struct Bag { list<int32> values; }; and typedef map<int32, string> map_i32_string_t; -/
def sample : IdlFile ["map_i32_string_t", "Bag"] :=
  .declare (.declare .empty "Bag" (.message none [⟨"values", .list (.primitive .int32)⟩]))
    "map_i32_string_t" (.typedef (.map (.primitive .int32) .string))

theorem sample_clear :
    sample.Clear := by
  refine ⟨⟨trivial, ?_, ?_⟩, trivial, ?_⟩
  · refine ⟨by decide, fun name hname => ?_⟩
    cases List.mem_singleton.mp hname
    exact ⟨by decide, by simp, by simp⟩
  · exact ⟨by simp, by decide, by simp⟩
  · exact ⟨by decide, by decide, by decide⟩

/-- message M : 1 { list<int32> buf; } -/
def hiddenBuf : IdlFile ["M"] :=
  .declare .empty "M" (.message none [⟨"buf", .list (.primitive .int32)⟩])

/-- The list that Load assigns to buf is the buffer that it goes on with. -/
example (bytes : List UInt8) :
    (hiddenBuf.codec (fun _ _ => false) "M" (by simp)).load bytes = none := by
  rfl

end Python
end Idlc
end Gamnet
