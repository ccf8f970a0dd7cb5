import Gamnet.Idlc.GenerateRuleCpp

/-!
# Round trips of the generated serializers

Load gives back what Store wrote, and leaves the bytes behind it alone. The
proof follows the two generators: over the type expressions, over the fields
of a message, and over the declarations of a file.

The one place where the two do not agree is a static array of elements that
are not primitive: its loops count with an int32_t, and the loops over the
containers with an uint32_t.
-/

namespace Gamnet
namespace Idlc

open LittleEndian Reader

/-- The objects of a type, and those of them whose static arrays can be
counted by the generated loops. -/
structure Contents where
  typed : Value → Prop
  fits : Value → Prop

/-- The number of values of a primitive type. -/
def PrimitiveType.capacity : PrimitiveType → Nat
  | .boolean => 2
  | type => 256 ^ type.size

/-- The objects of a scalar type. -/
def Contents.word
    (capacity : Nat) : Contents where
  typed
    | .word n => n < capacity
    | _ => False
  fits _ := True

/-- The objects of std::string. -/
def Contents.text : Contents where
  typed
    | .text bytes => bytes.length < 2 ^ 32
    | _ => False
  fits _ := True

/-- The objects of std::list and std::vector. -/
def Contents.seq
    (elmt : Contents) : Contents where
  typed
    | .seq elmts => elmts.length < 2 ^ 32 ∧ ∀ v ∈ elmts, elmt.typed v
    | _ => False
  fits
    | .seq elmts => ∀ v ∈ elmts, elmt.fits v
    | _ => False

/-- The objects of std::map: the keys are in strictly increasing order. -/
def Contents.map
    (order : Compare)
    (key elmt : Contents) : Contents where
  typed
    | .map entries => entries.length < 2 ^ 32 ∧
        entries.Pairwise (fun a b => order.less a.1 b.1 = true) ∧
          ∀ entry ∈ entries, key.typed entry.1 ∧ elmt.typed entry.2
    | _ => False
  fits
    | .map entries => ∀ entry ∈ entries, key.fits entry.1 ∧ elmt.fits entry.2
    | _ => False

section Types

variable (order : {declared : List String} → VarType declared → Compare)
variable {declared : List String}
variable (objects : Names declared Contents)

/-- The objects of a variable type. -/
def VarType.contents : VarType declared → Contents
  | .primitive type => .word type.capacity
  | .string => .text
  | .userDefine name known => objects name known
  | .list elmtType => .seq elmtType.contents
  | .array elmtType => .seq elmtType.contents
  | .map keyType elmtType =>
      .map (order keyType) keyType.contents elmtType.contents

/-- The objects of a field. The loop over a static array of elements that are
not primitive cannot count to the limit of an int32_t. -/
def FieldType.contents : FieldType declared → Contents
  | .plain type => type.contents order objects
  | .staticArray elmtType elmtCount =>
      { typed := fun
          | .seq elmts => elmts.length = elmtCount ∧ elmtCount < 2 ^ 32 ∧
              ∀ v ∈ elmts, (elmtType.contents order objects).typed v
          | _ => False
        fits := fun
          | .seq elmts => elmtType.primitive? = none →
              elmtCount < counterLimit ∧
                ∀ v ∈ elmts, (elmtType.contents order objects).fits v
          | _ => False }

/-- The objects of a declared type. -/
def Decl.contents : Decl declared → Contents
  | .enum numbers => .word (256 ^ enumSize numbers)
  | .typedef type => type.contents order objects
  | .message parent fields =>
      { typed := fun
          | .record parentValue values =>
              Option.Rel (fun base v => (objects base.1 (mem_declared base)).typed v)
                parent parentValue ∧
              List.Forall₂ (fun field v => (field.contents order objects).typed v)
                fields values
          | _ => False
        fits := fun
          | .record parentValue values =>
              Option.Rel (fun base v => (objects base.1 (mem_declared base)).fits v)
                parent parentValue ∧
              List.Forall₂ (fun field v => (field.contents order objects).fits v)
                fields values
          | _ => False }

end Types

/-- The objects of the names that a file declares. -/
def Environment.contents
    (order : {declared : List String} → VarType declared → Compare)
    {declared : List String}
    (env : Environment declared) : Names declared Contents :=
  env.compile (Decl.contents order)

section Within

variable (limit : Nat → Prop)
variable (order : {declared : List String} → VarType declared → Compare)
variable {declared : List String}
variable (objects : Names declared Contents)

/-- The objects of a field, with another limit for the element count of a static array. -/
def FieldType.contentsWithin : FieldType declared → Contents
  | .plain type => type.contents order objects
  | .staticArray elmtType elmtCount =>
      { typed := fun
          | .seq elmts => elmts.length = elmtCount ∧ limit elmtCount ∧
              ∀ v ∈ elmts, (elmtType.contents order objects).typed v
          | _ => False
        fits := fun
          | .seq elmts => elmtType.primitive? = none →
              elmtCount < counterLimit ∧
                ∀ v ∈ elmts, (elmtType.contents order objects).fits v
          | _ => False }

/-- The objects of a declared type, with another limit for static arrays. -/
def Decl.contentsWithin : Decl declared → Contents
  | .enum numbers => .word (256 ^ enumSize numbers)
  | .typedef type => type.contents order objects
  | .message parent fields =>
      { typed := fun
          | .record parentValue values =>
              Option.Rel (fun base v => (objects base.1 (mem_declared base)).typed v)
                parent parentValue ∧
              List.Forall₂ (fun field v => (field.contentsWithin limit order objects).typed v)
                fields values
          | _ => False
        fits := fun
          | .record parentValue values =>
              Option.Rel (fun base v => (objects base.1 (mem_declared base)).fits v)
                parent parentValue ∧
              List.Forall₂ (fun field v => (field.contentsWithin limit order objects).fits v)
                fields values
          | _ => False }

end Within

/-- The objects of the names that a file declares, with another limit for static arrays. -/
def Environment.contentsWithin
    (limit : Nat → Prop)
    (order : {declared : List String} → VarType declared → Compare)
    {declared : List String}
    (env : Environment declared) : Names declared Contents :=
  env.compile (Decl.contentsWithin limit order)

theorem FieldType.contents_eq_within
    (order : {declared : List String} → VarType declared → Compare)
    {declared : List String}
    (objects : Names declared Contents)
    (field : FieldType declared) :
    field.contents order objects = field.contentsWithin (· < 2 ^ 32) order objects := by
  cases field <;> rfl

theorem Decl.contents_eq_within
    (order : {declared : List String} → VarType declared → Compare)
    {declared : List String}
    (objects : Names declared Contents)
    (decl : Decl declared) :
    decl.contents order objects = decl.contentsWithin (· < 2 ^ 32) order objects := by
  cases decl with
  | message parent fields =>
      simp only [Decl.contents, Decl.contentsWithin, FieldType.contents_eq_within]
  | _ => rfl

/-- The contents of a message are those within no limit. -/
theorem Environment.contents_eq_within
    (order : {declared : List String} → VarType declared → Compare)
    {declared : List String}
    (env : Environment declared) :
    env.contents order = env.contentsWithin (· < 2 ^ 32) order := by
  funext name known
  refine env.compile_related Eq (fun x y hxy decl => ?_) name known
  have heq : x = y := funext fun name => funext fun known => hxy name known
  rw [heq, Decl.contents_eq_within]

/-- Store gives some bytes, and Load into a fresh object, on any buffer that
starts with them, gives the object back, has moved over exactly these bytes and has left the
count of those behind. -/
def RoundTrips
    (serializer : Serializer)
    (v : Value) : Prop :=
  ∃ bytes, serializer.store v = some bytes ∧
    ∀ rest memory (nSize : UInt64),
      bytesAt memory 0 nSize.toNat = bytes ++ rest →
        ∃ c, serializer.load (start memory nSize) = .returns v c ∧
          c.pos = bytes.length ∧ c.size.toNat = rest.length

section Pieces

/-- A value is stored as bytes that are loaded as the value. -/
def Restores
    {α : Type}
    (store : α → Option (List UInt8))
    (load : Load α)
    (a : α) : Prop :=
  ∃ bytes, store a = some bytes ∧ Reads load a bytes

/-- A serializer restores the objects whose static arrays can be counted, and
is undefined on the others. -/
structure Serializes
    (store : Value → Option (List UInt8))
    (load : Load Value)
    (contents : Contents) : Prop where
  restores : ∀ {v}, contents.typed v → contents.fits v → Restores store load v
  undefined : ∀ {v}, contents.typed v → ¬ contents.fits v → store v = none

/-- A count is read back below 2 ^ 32. -/
theorem reads_loadLength
    {n : Nat}
    (hn : n < 2 ^ 32) :
    Reads loadLength n (encode 4 n) := by
  have hword : decode (encode 4 n) = n := decode_encode_of_lt (by simpa using hn)
  have hcopy : Reads (checked 4) (encode 4 n) (encode 4 n) := by
    simpa using Reads.checked (encode 4 n)
  have hread := Reads.map decode hcopy
  rw [hword] at hread
  exact hread

theorem reads_loadWord
    {size n : Nat}
    (hn : n < 256 ^ size) :
    Reads (loadWord size) (.word n) (encode size n) := by
  have hword : decode (encode size n) = n := decode_encode_of_lt hn
  have hcopy : Reads (checked size) (encode size n) (encode size n) := by
    simpa using Reads.checked (encode size n)
  have hread := Reads.map (fun bytes => Value.word (decode bytes)) hcopy
  rw [hword] at hread
  exact hread

theorem PrimitiveType.capacity_le
    (type : PrimitiveType) :
    type.capacity ≤ 256 ^ type.size := by
  cases type <;> simp [capacity, size]

theorem serializes_word
    {size capacity : Nat}
    {store : Value → Option (List UInt8)}
    (hcapacity : capacity ≤ 256 ^ size)
    (hstore : ∀ n, store (.word n) = some (encode size n)) :
    Serializes store (loadWord size) (.word capacity) where
  restores := by
    intro v htyped _
    cases v with
    | word n =>
        exact ⟨encode size n, hstore n, reads_loadWord (lt_of_lt_of_le htyped hcapacity)⟩
    | _ =>
        exact htyped.elim
  undefined := by
    intro v _ hfits
    exact (hfits trivial).elim

/-- Elements that are restored are restored together. By induction on the elements. -/
theorem storeAll_restores
    {α : Type}
    {store : α → Option (List UInt8)}
    {load : Load α}
    {as : List α}
    (has : ∀ a ∈ as, Restores store load a) :
    Restores (storeAll store) (many load as.length) as := by
  induction as with
  | nil =>
      exact ⟨[], rfl, Reads.pure []⟩
  | cons a as ih =>
      rcases has a (by simp) with ⟨front, hfront, hreads⟩
      rcases ih (fun b hb => has b (by simp [hb])) with ⟨back, hback, hmany⟩
      refine ⟨front ++ back, ?_, Reads.many_cons hreads hmany⟩
      simp [storeAll, hfront, hback]

/-- One element that cannot be stored is enough. -/
theorem storeAll_undefined
    {α : Type}
    {store : α → Option (List UInt8)}
    {a : α} {as : List α}
    (hmem : a ∈ as)
    (ha : store a = none) :
    storeAll store as = none := by
  induction as with
  | nil =>
      simp at hmem
  | cons b as ih =>
      rcases List.mem_cons.mp hmem with rfl | hmem
      · simp [storeAll, ha]
      · simp [storeAll, ih hmem]

/-- An entry of a map is its key and its element. -/
theorem restores_entry
    {α β : Type}
    {storeKey : α → Option (List UInt8)} {storeElmt : β → Option (List UInt8)}
    {loadKey : Load α} {loadElmt : Load β}
    {entry : α × β}
    (hkey : Restores storeKey loadKey entry.1)
    (helmt : Restores storeElmt loadElmt entry.2) :
    Restores
      (fun entry : α × β => do
        let key ← storeKey entry.1
        let elmt ← storeElmt entry.2
        some (key ++ elmt))
      (loadKey >>= fun key => loadElmt >>= fun elmt => pure (key, elmt))
      entry := by
  rcases hkey with ⟨front, hfront, hreads⟩
  rcases helmt with ⟨back, hback, hreads'⟩
  refine ⟨front ++ back, ?_, ?_⟩
  · simp [hfront, hback]
  · exact Reads.bind hreads (Reads.map (fun elmt => (entry.1, elmt)) hreads')

/-- A container is its length and its elements. -/
theorem restores_prefixed
    {α : Type}
    {store : α → Option (List UInt8)}
    {load : Load α}
    {as : List α}
    (f : List α → Value)
    (hlen : as.length < 2 ^ 32)
    (has : ∀ a ∈ as, Restores store load a) :
    ∃ bytes, storeAll store as = some bytes ∧
      Reads (loadLength >>= fun n => many load n >>= fun as => pure (f as))
        (f as) (encode 4 as.length ++ bytes) := by
  rcases storeAll_restores has with ⟨bytes, hstore, hmany⟩
  exact ⟨bytes, hstore, Reads.bind (reads_loadLength hlen) (Reads.map f hmany)⟩

/-- A sequence restores its elements, up to the limit of its count. -/
theorem serializes_seq
    {store : Value → Option (List UInt8)}
    {load : Load Value}
    {elmt : Contents}
    {storeSeq : Value → Option (List UInt8)}
    (h : Serializes store load elmt)
    (hstore : ∀ elmts, storeSeq (.seq elmts) =
      (storeAll store elmts).map (encode 4 elmts.length ++ ·)) :
    Serializes storeSeq
      (loadLength >>= fun n => many load n >>= fun elmts => pure (.seq elmts))
      elmt.seq where
  restores := by
    intro v htyped hfits
    cases v with
    | seq elmts =>
        rcases restores_prefixed Value.seq htyped.1
          (fun v hv => h.restores (htyped.2 v hv) (hfits v hv)) with ⟨bytes, hbytes, hreads⟩
        exact ⟨_, by rw [hstore, hbytes]; rfl, hreads⟩
    | _ =>
        exact htyped.elim
  undefined := by
    intro v htyped hfits
    cases v with
    | seq elmts =>
        simp only [Contents.seq, not_forall] at hfits
        rcases hfits with ⟨v, hv, hnot⟩
        rw [hstore, storeAll_undefined hv (h.undefined (htyped.2 v hv) hnot)]
        rfl
    | _ =>
        exact htyped.elim

/-- Entries behind the keys of a map are inserted at its end. -/
theorem insert_of_less
    (order : Compare)
    {map : List (Value × Value)}
    {entry : Value × Value}
    (hless : ∀ other ∈ map, order.less other.1 entry.1 = true) :
    order.insert entry map = map ++ [entry] := by
  induction map with
  | nil =>
      rfl
  | cons other map ih =>
      have hother := hless other (by simp)
      have hentry := order.asymm _ _ hother
      simp [Compare.insert, hother, hentry, ih (fun b hb => hless b (by simp [hb]))]

/-- Entries in ascending order are inserted in their order. -/
theorem insertAll_of_pairwise
    (order : Compare)
    {map entries : List (Value × Value)}
    (hsorted : (map ++ entries).Pairwise (fun a b => order.less a.1 b.1 = true)) :
    order.insertAll map entries = map ++ entries := by
  induction entries generalizing map with
  | nil =>
      simp [Compare.insertAll]
  | cons entry entries ih =>
      have hless : ∀ other ∈ map, order.less other.1 entry.1 = true := by
        intro other hother
        exact (List.pairwise_append.mp hsorted).2.2 other hother entry (by simp)
      have htail : order.insertAll (map ++ [entry]) entries = (map ++ [entry]) ++ entries :=
        ih (by simpa using hsorted)
      simpa [Compare.insertAll, insert_of_less order hless] using htail

theorem serializes_map
    {storeKey storeElmt : Value → Option (List UInt8)}
    {loadKey loadElmt : Load Value}
    {key elmt : Contents}
    {storeMap : Value → Option (List UInt8)}
    (order : Compare)
    (hkey : Serializes storeKey loadKey key)
    (helmt : Serializes storeElmt loadElmt elmt)
    (hstore : ∀ entries, storeMap (.map entries) =
      (storeAll (fun entry => do
        let key ← storeKey entry.1
        let elmt ← storeElmt entry.2
        some (key ++ elmt)) entries).map (encode 4 entries.length ++ ·)) :
    Serializes storeMap
      (loadLength >>= fun n =>
        many (loadKey >>= fun key => loadElmt >>= fun elmt => pure (key, elmt)) n >>=
          fun entries => pure (.map (order.insertAll [] entries)))
      (.map order key elmt) where
  restores := by
    intro v htyped hfits
    cases v with
    | map entries =>
        rcases htyped with ⟨hlen, hsorted, htyped⟩
        have hentries : order.insertAll [] entries = entries :=
          insertAll_of_pairwise order hsorted
        rcases restores_prefixed (fun entries => Value.map (order.insertAll [] entries)) hlen
          (fun entry hentry => restores_entry
            (hkey.restores (htyped entry hentry).1 (hfits entry hentry).1)
            (helmt.restores (htyped entry hentry).2 (hfits entry hentry).2)) with
          ⟨bytes, hbytes, hreads⟩
        rw [hentries] at hreads
        exact ⟨_, by rw [hstore, hbytes]; rfl, hreads⟩
    | _ =>
        exact htyped.elim
  undefined := by
    intro v htyped hfits
    cases v with
    | map entries =>
        simp only [Contents.map, not_forall] at hfits
        rcases hfits with ⟨entry, hentry, hnot⟩
        have hnone : (do
            let key ← storeKey entry.1
            let elmt ← storeElmt entry.2
            some (key ++ elmt)) = none := by
          rcases Classical.not_and_iff_not_or_not.mp hnot with hnot | hnot
          · simp [hkey.undefined (htyped.2.2 entry hentry).1 hnot]
          · simp [helmt.undefined (htyped.2.2 entry hentry).2 hnot]
        rw [hstore, storeAll_undefined hentry hnone]
        rfl
    | _ =>
        exact htyped.elim

/-- A text restores its bytes. -/
theorem serializes_string :
    Serializes
      (fun
        | .text bytes => some (encode 4 bytes.length ++ bytes)
        | _ => none)
      (loadLength >>= fun length => checked length >>= fun bytes => pure (.text bytes))
      .text where
  restores := by
    intro v htyped _
    cases v with
    | text bytes =>
        exact ⟨_, rfl, Reads.bind (reads_loadLength htyped)
          (Reads.map Value.text (Reads.checked bytes))⟩
    | _ =>
        exact htyped.elim
  undefined := by
    intro v _ hfits
    exact (hfits trivial).elim

/-- The bytes of an array of scalars are copied as a whole. -/
theorem storeAll_words
    {size capacity : Nat}
    {store : Value → Option (List UInt8)}
    (hcapacity : capacity ≤ 256 ^ size)
    (hstore : ∀ n, store (.word n) = some (encode size n))
    {elmts : List Value}
    (htyped : ∀ v ∈ elmts, (Contents.word capacity).typed v) :
    ∃ bytes, storeAll store elmts = some bytes ∧
      bytes.length = size * elmts.length ∧
        words size elmts.length bytes = elmts := by
  induction elmts with
  | nil =>
      exact ⟨[], rfl, by simp, rfl⟩
  | cons v elmts ih =>
      rcases ih (fun v hv => htyped v (by simp [hv])) with ⟨back, hback, hlen, hwords⟩
      have hv := htyped v (by simp)
      cases v with
      | word n =>
          have hword : decode (encode size n) = n :=
            decode_encode_of_lt (lt_of_lt_of_le hv hcapacity)
          refine ⟨encode size n ++ back, ?_, ?_, ?_⟩
          · simp [storeAll, hstore, hback]
          · simp [hlen, Nat.mul_add, Nat.add_comm]
          · simp [words, hword, hwords]
      | _ =>
          exact hv.elim

end Pieces

section Declarations

variable (order : {declared : List String} → VarType declared → Compare)
variable {declared : List String}

/-- The serializers of a set of names agree with the objects of the names. -/
def Agree
    (serializer : Names declared Serializer)
    (objects : Names declared Contents) : Prop :=
  ∀ name known,
    Serializes (serializer name known).store (serializer name known).load
      (objects name known)

variable {serializer : Names declared Serializer}
variable {objects : Names declared Contents}

theorem serializes_varType
    (hnames : Agree serializer objects)
    (type : VarType declared) :
    Serializes (generateVariableStore serializer type)
      (generateVariableLoad order serializer type)
      (type.contents order objects) := by
  induction type with
  | primitive type =>
      exact serializes_word type.capacity_le fun _ => rfl
  | string =>
      have hstore : generateVariableStore serializer .string = fun
          | .text bytes => some (encode 4 bytes.length ++ bytes)
          | _ => none := by
        funext v
        cases v <;> rfl
      rw [hstore]
      exact serializes_string
  | userDefine name known =>
      exact hnames name known
  | list elmtType ih =>
      refine serializes_seq ih fun elmts => ?_
      cases h : storeAll (generateVariableStore serializer elmtType) elmts <;>
        simp [generateVariableStore, h]
  | array elmtType ih =>
      refine serializes_seq ih fun elmts => ?_
      cases h : storeAll (generateVariableStore serializer elmtType) elmts <;>
        simp [generateVariableStore, h]
  | map keyType elmtType ihkey ihelmt =>
      refine serializes_map (order keyType) ihkey ihelmt fun entries => ?_
      simp only [generateVariableStore]
      cases storeAll (fun entry : Value × Value => do
        let key ← generateVariableStore serializer keyType entry.1
        let elmt ← generateVariableStore serializer elmtType entry.2
        some (key ++ elmt)) entries <;> rfl

theorem eq_primitive
    {type : VarType declared}
    {p : PrimitiveType}
    (htype : type.primitive? = some p) :
    type = .primitive p := by
  cases type with
  | primitive q =>
      simpa [VarType.primitive?] using htype
  | _ =>
      simp [VarType.primitive?] at htype

variable (limit : Nat → Prop)

/-- A field, static arrays included. -/
theorem serializes_field
    (hnames : Agree serializer objects)
    (field : FieldType declared) :
    Serializes (generateFieldStore serializer field)
      (generateFieldLoad order serializer field)
      (field.contentsWithin limit order objects) := by
  cases field with
  | plain type =>
      exact serializes_varType order hnames type
  | staticArray elmtType elmtCount =>
      have helmt := serializes_varType order hnames elmtType
      constructor
      · intro v htyped hfits
        cases v with
        | seq elmts =>
            rcases htyped with ⟨rfl, hlen, htyped⟩
            cases hprim : elmtType.primitive? with
            | some p =>
                have htype := eq_primitive hprim
                subst htype
                have hstore : ∀ n,
                    generateVariableStore serializer (.primitive p) (.word n) =
                      some (encode p.size n) := fun _ => rfl
                rcases storeAll_words p.capacity_le hstore htyped with
                  ⟨bytes, hbytes, hcount, hwords⟩
                refine ⟨bytes, ?_, ?_⟩
                · simp [generateFieldStore, hprim, hbytes]
                · have hread := Reads.map
                    (fun bytes => Value.seq (words p.size elmts.length bytes))
                    (Reads.copy bytes)
                  rw [hwords, hcount] at hread
                  simpa [generateFieldLoad, hprim] using hread
            | none =>
                rcases hfits hprim with ⟨hlimit, hfits⟩
                rcases storeAll_restores
                  (fun v hv => helmt.restores (htyped v hv) (hfits v hv)) with
                  ⟨bytes, hbytes, hreads⟩
                refine ⟨bytes, ?_, ?_⟩
                · simp [generateFieldStore, hprim, hlimit, hbytes]
                · simpa [generateFieldLoad, hprim, counted, hlimit] using
                    Reads.map Value.seq hreads
        | _ =>
            exact htyped.elim
      · intro v htyped hfits
        cases v with
        | seq elmts =>
            rcases htyped with ⟨rfl, hlen, htyped⟩
            simp only [FieldType.contentsWithin, Classical.not_imp] at hfits
            rcases hfits with ⟨hprim, hfits⟩
            by_cases hlimit : elmts.length < counterLimit
            · simp only [hlimit, true_and, not_forall] at hfits
              rcases hfits with ⟨v, hv, hnot⟩
              have hnone := storeAll_undefined hv (helmt.undefined (htyped v hv) hnot)
              simp [generateFieldStore, hprim, hlimit, hnone]
            · simp [generateFieldStore, hprim, hlimit]
        | _ =>
            exact htyped.elim

/-- The fields of a message are stored and loaded in the same order. -/
theorem fields_restores
    (hnames : Agree serializer objects)
    {fields : List (FieldType declared)}
    {values : List Value}
    (htyped : List.Forall₂ (fun field v => (field.contentsWithin limit order objects).typed v)
      fields values)
    (hfits : List.Forall₂ (fun field v => (field.contentsWithin limit order objects).fits v)
      fields values) :
    ∃ bytes, storeFields serializer fields values = some bytes ∧
      Reads (loadFields order serializer fields) values bytes := by
  induction htyped with
  | nil =>
      exact ⟨[], rfl, Reads.pure []⟩
  | cons hv htail ih =>
      rename_i field v fields values
      cases hfits with
      | cons hfit hfits =>
          rcases (serializes_field order limit hnames field).restores hv hfit with
            ⟨front, hfront, hreads⟩
          rcases ih hfits with ⟨back, hback, hreads'⟩
          refine ⟨front ++ back, ?_, ?_⟩
          · simp [storeFields, hfront, hback]
          · exact Reads.bind hreads (Reads.map (fun values => v :: values) hreads')

/-- One field that cannot be stored is enough. -/
theorem fields_undefined
    (hnames : Agree serializer objects)
    {fields : List (FieldType declared)}
    {values : List Value}
    (htyped : List.Forall₂ (fun field v => (field.contentsWithin limit order objects).typed v)
      fields values)
    (hfits : ¬ List.Forall₂ (fun field v => (field.contentsWithin limit order objects).fits v)
      fields values) :
    storeFields serializer fields values = none := by
  induction htyped with
  | nil =>
      exact (hfits .nil).elim
  | cons hv htail ih =>
      rename_i field v fields values
      by_cases hfit : (field.contentsWithin limit order objects).fits v
      · have hrest := ih fun hrest => hfits (.cons hfit hrest)
        simp [storeFields, hrest]
      · have hnone := (serializes_field order limit hnames field).undefined hv hfit
        simp [storeFields, hnone]

/-- A message restores its fields, behind those of its parent. -/
theorem serializes_message
    (hnames : Agree serializer objects)
    (parent : Option {name : String // name ∈ declared})
    (fields : List (FieldType declared)) :
    Serializes (compileMessage order serializer parent fields).store
      (compileMessage order serializer parent fields).load
      ((Decl.message parent fields).contentsWithin limit order objects) where
  restores := by
    intro v htyped hfits
    cases v with
    | record parentValue values =>
        rcases htyped with ⟨hparent, hvalues⟩
        rcases hfits with ⟨hparentFits, hvaluesFit⟩
        rcases fields_restores order limit hnames hvalues hvaluesFit with ⟨back, hback, hreads⟩
        cases hparent with
        | none =>
            refine ⟨back, by simpa [compileMessage] using hback, ?_⟩
            exact Reads.map (fun values => Value.record none values) hreads
        | some hbase =>
            rename_i base v
            cases hparentFits with
            | some hbaseFits =>
                rcases (hnames base.1 (mem_declared base)).restores hbase hbaseFits with
                  ⟨front, hfront, hreads'⟩
                refine ⟨front ++ back, by simp [compileMessage, hfront, hback], ?_⟩
                exact Reads.bind hreads'
                  (Reads.map (fun values => Value.record (some v) values) hreads)
    | _ =>
        exact htyped.elim
  undefined := by
    intro v htyped hfits
    cases v with
    | record parentValue values =>
        rcases htyped with ⟨hparent, hvalues⟩
        by_cases hvaluesFit : List.Forall₂
          (fun field v => (field.contentsWithin limit order objects).fits v) fields values
        · cases hparent with
          | none =>
              exact (hfits ⟨.none, hvaluesFit⟩).elim
          | some hbase =>
              rename_i base v
              have hnot : ¬ (objects base.1 (mem_declared base)).fits v := fun hfit =>
                hfits ⟨.some hfit, hvaluesFit⟩
              simp [compileMessage, (hnames base.1 (mem_declared base)).undefined hbase hnot]
        · have hnone := fields_undefined order limit hnames hvalues hvaluesFit
          cases hparent <;> simp [compileMessage, hnone]
    | _ =>
        exact htyped.elim

theorem serializes_decl
    (hnames : Agree serializer objects)
    (decl : Decl declared) :
    Serializes (compileDecl order serializer decl).store
      (compileDecl order serializer decl).load
      (decl.contentsWithin limit order objects) := by
  cases decl with
  | enum numbers =>
      exact serializes_word le_rfl fun _ => rfl
  | typedef type =>
      exact serializes_varType order hnames type
  | message parent fields =>
      exact serializes_message order limit hnames parent fields

theorem serializes_within
    (env : Environment declared) :
    Agree (env.serializer order) (env.contentsWithin limit order) := by
  intro name known
  exact env.compile_related
    (fun (serializer : Serializer) contents =>
      Serializes serializer.store serializer.load contents)
    (fun _ _ hnames decl => serializes_decl order limit hnames decl) name known

omit limit in
/-- Every message restores its contents. By induction on the file. -/
theorem serializes_environment
    (env : Environment declared) :
    Agree (env.serializer order) (env.contents order) := by
  rw [env.contents_eq_within order]
  exact serializes_within order (· < 2 ^ 32) env

/-- What Store writes for an object, Load reads as the object. -/
theorem reads_of_store
    {env : Environment declared}
    {name : String}
    {known : name ∈ declared}
    {v : Value}
    {bytes : List UInt8}
    (htyped : (env.contents order name known).typed v)
    (hstore : (env.serializer order name known).store v = some bytes) :
    Reads (env.serializer order name known).load v bytes := by
  have hname := serializes_environment order env name known
  have hfits : (env.contents order name known).fits v := by
    by_contra hfits
    rw [hname.undefined htyped hfits] at hstore
    cases hstore
  rcases hname.restores htyped hfits with ⟨bytes', hstore', hreads⟩
  rw [hstore] at hstore'
  cases hstore'
  exact hreads

end Declarations

/-- What is restored makes the round trip. -/
theorem Restores.roundTrips
    {serializer : Serializer}
    {v : Value}
    (h : Restores serializer.store serializer.load v) :
    RoundTrips serializer v := by
  rcases h with ⟨bytes, hstore, hreads⟩
  refine ⟨bytes, hstore, ?_⟩
  intro rest memory nSize hmemory
  rcases hreads (start memory nSize) rest hmemory with ⟨c, hload, hrest, hpos⟩
  refine ⟨c, hload, ?_, ?_⟩
  · simpa [start] using hpos
  · rw [← unread_length, hrest]

/-- The comparison of unsigned keys. -/
def Compare.ofWords : Compare where
  less
    | .word m, .word n => decide (m < n)
    | _, _ => false
  asymm := by
    intro a b hless
    cases a <;> cases b <;> simp at hless ⊢
    omega

theorem color_declared :
    "Color" ∈ ["Color"] :=
  List.mem_singleton_self "Color"

/-- An enum Color, and a struct Canvas with a map from numbers to colours and
a static array of colours. -/
def canvas
    (count : Nat) : Environment ["Canvas", "Color"] :=
  .declare
    (.declare .empty "Color" (.enum [none, some 7]))
    "Canvas"
    (.message none
      [.plain (.map (.primitive .uint32) (.userDefine "Color" color_declared)),
        .staticArray (.userDefine "Color" color_declared) count])

/-- A canvas with one named colour, all cells of which have the first one. -/
def blank
    (count : Nat) : Value :=
  .record none
    [.map [(.word 5, .word 7)], .seq (List.replicate count (.word 0))]

def canvasSerializer
    (count : Nat) : Serializer :=
  (canvas count).serializer (fun _ => .ofWords) "Canvas" (by simp)

def canvasContents
    (count : Nat) : Contents :=
  (canvas count).contents (fun _ => .ofWords) "Canvas" (by simp)

theorem blank_typed
    {count : Nat}
    (hcount : count < 2 ^ 32) :
    (canvasContents count).typed (blank count) := by
  refine ⟨.none, .cons ?_ (.cons ?_ .nil)⟩
  · refine ⟨by simp, by simp, ?_⟩
    intro entry hentry
    rw [List.mem_singleton.mp hentry]
    refine ⟨?_, ?_⟩
    · simp [VarType.contents, Contents.word, PrimitiveType.capacity, PrimitiveType.size]
    · simp [VarType.contents, Environment.compile, Decl.contents, Contents.word, enumSize,
        enumValues]
  · refine ⟨by simp, hcount, ?_⟩
    intro v hv
    rw [(List.mem_replicate.mp hv).2]
    simp [VarType.contents, Environment.compile, Decl.contents, Contents.word, enumSize,
      enumValues]

end Idlc
end Gamnet
