import Mathlib.Data.List.Perm.Basic
import Gamnet.Idlc.FieldNamesCSharp
import Gamnet.Idlc.Size

/-!
# C++ and C# on the two ends of a connection

An object of a C++ program and an object of a C# program are the same value if
they have the same scalars, the same text and the same elements, and if their
maps have the same entries. What either side stores for a value is loaded as
that value by the other, if the emitted functions hide no field.

The C++ map is in key order and the dictionary in order of insertion; the maps
agree because a sorted map does not depend on the order in which its entries
arrive.
-/

namespace Gamnet
namespace Idlc

open LittleEndian Reader

section Same

variable (order : {declared : List String} → VarType declared → Compare)
variable {declared : List String}
variable (same : Names declared (CSharp.Object → Value → Prop))

/-- The same value of a variable type, with its sizes below 2^31. -/
def VarType.Same : VarType declared → CSharp.Object → Value → Prop
  | .primitive type, .word m, .word n => m = n ∧ n < type.capacity
  | .string, .text (some units), .text bytes =>
      bytes.length < 2 ^ 31 ∧
        ∃ chars, units = Utf16.encode chars ∧ bytes = Utf16.utf8 chars
  | .userDefine name known, o, v => same name known o v
  | .list elmtType, .seq objects, .seq values =>
      values.length < 2 ^ 31 ∧ List.Forall₂ elmtType.Same objects values
  | .array elmtType, .seq objects, .seq values =>
      values.length < 2 ^ 31 ∧ List.Forall₂ elmtType.Same objects values
  | .map keyType elmtType, .map objects, .map values =>
      values.length < 2 ^ 31 ∧
        values.Pairwise (fun a b => (order keyType).less a.1 b.1 = true) ∧
          ∃ sorted, sorted.Perm objects ∧
            List.Forall₂ (fun a b => keyType.Same a.1 b.1 ∧ elmtType.Same a.2 b.2)
              sorted values
  | _, _, _ => False

/-- The same value of a field. Static arrays are left out. -/
def FieldType.Same : FieldType declared → CSharp.Object → Value → Prop
  | .plain type, o, v => type.Same order same o v
  | .staticArray _ _, _, _ => False

/-- The same values of the fields of a message. -/
def FieldsSame :
    List (FieldType declared) → List CSharp.Object → List Value → Prop
  | [], [], [] => True
  | field :: fields, o :: objects, v :: values =>
      field.Same order same o v ∧ FieldsSame fields objects values
  | _, _, _ => False

/-- The same value of a declared type. The values of an enum have four bytes. -/
def Decl.Same : Decl declared → CSharp.Object → Value → Prop
  | .enum numbers, .word m, .word n => m = n ∧ n < 2 ^ 32 ∧ enumSize numbers = 4
  | .typedef type, o, v => type.Same order same o v
  | .message none fields, .record none objects, .record none values =>
      FieldsSame order same fields objects values
  | .message (some parent) fields, .record (some o) objects, .record (some v) values =>
      same parent.1 (mem_declared parent) o v ∧ FieldsSame order same fields objects values
  | _, _, _ => False

end Same

/-- The same value of the names that a file declares. -/
def Environment.Same
    (order : {declared : List String} → VarType declared → Compare)
    {declared : List String}
    (env : Environment declared) : Names declared (CSharp.Object → Value → Prop) :=
  env.compile (Decl.Same order)

section Sorted

/-- In a sorted list an asymmetric relation is transitive. -/
theorem trans_of_pairwise
    {α : Type}
    {R : α → α → Prop}
    (hasymm : ∀ a b, R a b → ¬ R b a)
    {l : List α}
    (hl : l.Pairwise R)
    {a b c : α}
    (ha : a ∈ l) (hb : b ∈ l) (hc : c ∈ l)
    (hab : R a b) (hbc : R b c) :
    R a c := by
  induction hl with
  | nil =>
      simp at ha
  | cons hhead htail ih =>
      rename_i x l
      rcases List.mem_cons.mp hc with rfl | hc'
      · rcases List.mem_cons.mp hb with rfl | hb'
        · exact absurd hbc (hasymm _ _ hbc)
        · exact absurd hbc (hasymm _ _ (hhead _ hb'))
      · rcases List.mem_cons.mp ha with rfl | ha'
        · exact hhead _ hc'
        · rcases List.mem_cons.mp hb with rfl | hb'
          · exact absurd hab (hasymm _ _ (hhead _ ha'))
          · exact ih ha' hb' hc'

/-- In a sorted list any two entries are related in one of the two ways. -/
theorem total_of_pairwise
    {α : Type}
    {R : α → α → Prop}
    {l : List α}
    (hl : l.Pairwise R)
    {a b : α}
    (ha : a ∈ l) (hb : b ∈ l)
    (hab : a ≠ b) :
    R a b ∨ R b a := by
  induction hl with
  | nil =>
      simp at ha
  | cons hhead htail ih =>
      rename_i x l
      rcases List.mem_cons.mp ha with rfl | ha'
      · rcases List.mem_cons.mp hb with rfl | hb'
        · exact absurd rfl hab
        · exact .inl (hhead _ hb')
      · rcases List.mem_cons.mp hb with rfl | hb'
        · exact .inr (hhead _ ha')
        · exact ih ha' hb'

variable (order : Compare)

/-- The order of the entries of a map. -/
def Compare.Before
    (a b : Value × Value) : Prop :=
  order.less a.1 b.1 = true

theorem before_asymm
    (a b : Value × Value)
    (hab : order.Before a b) :
    ¬ order.Before b a := by
  intro hba
  rw [Compare.Before, order.asymm _ _ hab] at hba
  cases hba

/-- An entry whose key is new is added. -/
theorem insert_perm
    {entry : Value × Value}
    {map : List (Value × Value)}
    (htotal : ∀ other ∈ map, order.Before entry other ∨ order.Before other entry) :
    (order.insert entry map).Perm (entry :: map) := by
  induction map with
  | nil =>
      exact List.Perm.refl _
  | cons other map ih =>
      rw [Compare.insert]
      by_cases hless : order.less entry.1 other.1 = true
      · rw [if_pos hless]
      · have hback : order.less other.1 entry.1 = true :=
          (htotal other (by simp)).resolve_left hless
        rw [if_neg hless, if_pos hback]
        have htail := ih fun b hb => htotal b (by simp [hb])
        exact (htail.cons other).trans (List.Perm.swap entry other map)

/-- Inserting an entry that is comparable with all others keeps a map sorted. -/
theorem insert_pairwise
    {map : List (Value × Value)}
    {entry : Value × Value}
    (htrans : ∀ other ∈ map, ∀ b ∈ map, order.Before entry other →
      order.Before other b → order.Before entry b)
    (htotal : ∀ other ∈ map, order.Before entry other ∨ order.Before other entry)
    (hpart : map.Pairwise order.Before) :
    (order.insert entry map).Pairwise order.Before := by
  induction map with
  | nil =>
      simp [Compare.insert]
  | cons other map ih =>
      rcases List.pairwise_cons.mp hpart with ⟨hhead, htail⟩
      rw [Compare.insert]
      by_cases hless : order.less entry.1 other.1 = true
      · rw [if_pos hless]
        refine List.pairwise_cons.mpr ⟨?_, hpart⟩
        intro b hb
        rcases List.mem_cons.mp hb with rfl | hb'
        · exact hless
        · exact htrans other (by simp) b hb hless (hhead b hb')
      · have hback : order.less other.1 entry.1 = true :=
          (htotal other (by simp)).resolve_left hless
        rw [if_neg hless, if_pos hback]
        refine List.pairwise_cons.mpr ⟨?_, ?_⟩
        · intro b hb
          have hperm : (order.insert entry map).Perm (entry :: map) :=
            insert_perm order fun c hc => htotal c (by simp [hc])
          rcases List.mem_cons.mp (hperm.mem_iff.mp hb) with rfl | hb'
          · exact hback
          · exact hhead b hb'
        · exact ih (fun c hc b hb => htrans c (by simp [hc]) b (by simp [hb]))
            (fun b hb => htotal b (by simp [hb])) htail

/-- Entries with different keys all stay, in ascending order. -/
theorem insertAll_perm
    {entries map more : List (Value × Value)}
    (hsorted : entries.Pairwise order.Before)
    (hperm : (map ++ more).Perm entries)
    (hpart : map.Pairwise order.Before) :
    (order.insertAll map more).Perm entries ∧
      (order.insertAll map more).Pairwise order.Before := by
  induction more generalizing map with
  | nil =>
      rw [List.append_nil] at hperm
      exact ⟨hperm, hpart⟩
  | cons entry more ih =>
      have hmem : ∀ other ∈ map ++ entry :: more, other ∈ entries := fun other hother =>
        hperm.mem_iff.mp hother
      have hnodup : (map ++ entry :: more).Nodup := by
        rw [hperm.nodup_iff]
        refine hsorted.imp ?_
        rintro a b hab rfl
        exact before_asymm order a a hab hab
      have hfresh : ∀ other ∈ map, entry ≠ other := by
        rintro other hother rfl
        exact (List.nodup_append.mp hnodup).2.2 entry hother entry (by simp) rfl
      have htotal : ∀ other ∈ map, order.Before entry other ∨ order.Before other entry :=
        fun other hother => total_of_pairwise hsorted (hmem entry (by simp))
          (hmem other (by simp [hother])) (hfresh other hother)
      have hins := insert_perm order htotal
      have hperm' : (order.insert entry map ++ more).Perm entries := by
        refine (hins.append_right more).trans (List.Perm.trans ?_ hperm)
        exact List.perm_middle.symm
      have htrans : ∀ other ∈ map, ∀ b ∈ map, order.Before entry other →
          order.Before other b → order.Before entry b := fun other hother b hb =>
        trans_of_pairwise (before_asymm order) hsorted (hmem entry (by simp))
          (hmem other (by simp [hother])) (hmem b (by simp [hb]))
      have hpart' := insert_pairwise order htrans htotal hpart
      exact ih hperm' hpart'

/-- A map does not depend on the order in which its entries are inserted. -/
theorem insertAll_of_perm
    {entries more : List (Value × Value)}
    (hsorted : entries.Pairwise order.Before)
    (hperm : more.Perm entries) :
    order.insertAll [] more = entries := by
  have hperm' : ([] ++ more).Perm entries := hperm
  rcases insertAll_perm order hsorted hperm' List.Pairwise.nil with ⟨hall, hpart⟩
  exact hall.eq_of_pairwise
    (fun a b _ _ hab hba => absurd hba (before_asymm order a b hab)) hpart hsorted

end Sorted

section Pieces

/-- Two pairs of generated functions interoperate on the values that are the
same. What C++ stores is loaded by C# as the same value, what C# stores is
loaded by C++ as the value, and an object is the same as one value only. -/
structure Interoperates
    {α β : Type}
    (store : β → Option (List UInt8))
    (load : Load β)
    (storeSharp : α → CSharp.Written)
    (loadSharp : Load α)
    (same : α → β → Prop) : Prop where
  toSharp : ∀ {o v}, same o v →
    ∃ bytes o', store v = some bytes ∧ Reads loadSharp o' bytes ∧ same o' v
  toCpp : ∀ {o v}, same o v →
    ∃ bytes, storeSharp o = CSharp.write bytes ∧ Reads load v bytes
  functional : ∀ {o v v'}, same o v → same o v' → v = v'

variable {α β γ δ : Type}

/-- C# reads its count as an int. -/
theorem reads_loadLengthSharp
    {n : Nat}
    (hn : n < 2 ^ 31) :
    Reads CSharp.loadLength (n : Int) (encode 4 n) := by
  have hword : decode (encode 4 n) = n := decode_encode_of_lt (by omega)
  have hcopy : Reads (checked 4) (encode 4 n) (encode 4 n) := by
    simpa using Reads.checked (encode 4 n)
  have hread := Reads.map (fun bytes => CSharp.toInt32 (decode bytes)) hcopy
  rw [hword, CSharp.toInt32, bmod_of_lt hn] at hread
  exact hread

theorem interoperates_entry
    {store₁ : β → Option (List UInt8)} {store₂ : δ → Option (List UInt8)}
    {load₁ : Load β} {load₂ : Load δ}
    {storeSharp₁ : α → CSharp.Written} {storeSharp₂ : γ → CSharp.Written}
    {loadSharp₁ : Load α} {loadSharp₂ : Load γ}
    {same₁ : α → β → Prop} {same₂ : γ → δ → Prop}
    (h₁ : Interoperates store₁ load₁ storeSharp₁ loadSharp₁ same₁)
    (h₂ : Interoperates store₂ load₂ storeSharp₂ loadSharp₂ same₂) :
    Interoperates
      (fun entry : β × δ => do
        let key ← store₁ entry.1
        let elmt ← store₂ entry.2
        some (key ++ elmt))
      (load₁ >>= fun key => load₂ >>= fun elmt => pure (key, elmt))
      (fun entry : α × γ => (storeSharp₁ entry.1).andThen (storeSharp₂ entry.2))
      (loadSharp₁ >>= fun key => loadSharp₂ >>= fun elmt => pure (key, elmt))
      (fun a b => same₁ a.1 b.1 ∧ same₂ a.2 b.2) where
  toSharp := by
    rintro ⟨k, e⟩ ⟨key, elmt⟩ ⟨hk, he⟩
    rcases h₁.toSharp hk with ⟨front, k', hfront, hreads, hk'⟩
    rcases h₂.toSharp he with ⟨back, e', hback, hreads', he'⟩
    refine ⟨front ++ back, (k', e'), by simp [hfront, hback], ?_, hk', he'⟩
    exact Reads.bind hreads (Reads.map (fun elmt => (k', elmt)) hreads')
  toCpp := by
    rintro ⟨k, e⟩ ⟨key, elmt⟩ ⟨hk, he⟩
    rcases h₁.toCpp hk with ⟨front, hfront, hreads⟩
    rcases h₂.toCpp he with ⟨back, hback, hreads'⟩
    refine ⟨front ++ back, by simp [hfront, hback], ?_⟩
    exact Reads.bind hreads (Reads.map (fun elmt => (key, elmt)) hreads')
  functional := by
    rintro ⟨k, e⟩ ⟨key, elmt⟩ ⟨key', elmt'⟩ ⟨hk, he⟩ ⟨hk', he'⟩
    exact Prod.ext (h₁.functional hk hk') (h₂.functional he he')

section All

variable {store : β → Option (List UInt8)} {load : Load β}
variable {storeSharp : α → CSharp.Written} {loadSharp : Load α}
variable {same : α → β → Prop}

/-- Elements that C++ stores are read by C#. -/
theorem Interoperates.toSharp_all
    (h : Interoperates store load storeSharp loadSharp same)
    {objects : List α}
    {values : List β}
    (hsame : List.Forall₂ same objects values) :
    ∃ bytes objects', storeAll store values = some bytes ∧
      Reads (many loadSharp values.length) objects' bytes ∧
        List.Forall₂ same objects' values := by
  induction hsame with
  | nil =>
      exact ⟨[], [], rfl, Reads.pure [], .nil⟩
  | cons ho hrest ih =>
      rcases h.toSharp ho with ⟨front, o', hfront, hreads, ho'⟩
      rcases ih with ⟨back, objects', hback, hmany, hsame'⟩
      refine ⟨front ++ back, o' :: objects', by simp [storeAll, hfront, hback], ?_,
        .cons ho' hsame'⟩
      rw [← hsame'.length_eq] at hmany
      simpa [hsame'.length_eq] using Reads.many_cons hreads hmany

/-- Elements that C# stores are read by C++. -/
theorem Interoperates.toCpp_all
    (h : Interoperates store load storeSharp loadSharp same)
    {objects : List α}
    {values : List β}
    (hsame : List.Forall₂ same objects values) :
    ∃ bytes, CSharp.storeAll storeSharp objects = CSharp.write bytes ∧
      Reads (many load values.length) values bytes := by
  induction hsame with
  | nil =>
      exact ⟨[], rfl, Reads.pure []⟩
  | cons ho hrest ih =>
      rcases h.toCpp ho with ⟨front, hfront, hreads⟩
      rcases ih with ⟨back, hback, hmany⟩
      exact ⟨front ++ back, by simp [CSharp.storeAll, hfront, hback],
        Reads.many_cons hreads hmany⟩

/-- An object of C# is the same as one value only. -/
theorem Interoperates.functional_all
    (h : Interoperates store load storeSharp loadSharp same)
    {objects : List α}
    {values values' : List β}
    (hsame : List.Forall₂ same objects values)
    (hsame' : List.Forall₂ same objects values') :
    values = values' := by
  induction hsame generalizing values' with
  | nil =>
      cases hsame'
      rfl
  | cons ho hrest ih =>
      cases hsame' with
      | cons ho' hrest' =>
          rw [h.functional ho ho', ih hrest']

end All

theorem interoperates_word
    {size capacity : Nat}
    {store : Value → Option (List UInt8)}
    {storeSharp : CSharp.Object → CSharp.Written}
    {loadSharp : Load CSharp.Object}
    {same : CSharp.Object → Value → Prop}
    (hcapacity : capacity ≤ 256 ^ size)
    (hstore : ∀ n, store (.word n) = some (encode size n))
    (hstoreSharp : ∀ n, storeSharp (.word n) = CSharp.write (encode size n))
    (hloadSharp : ∀ n, n < capacity → Reads loadSharp (.word n) (encode size n))
    (hsame : ∀ o v, same o v ↔ ∃ n, n < capacity ∧ o = .word n ∧ v = .word n) :
    Interoperates store (loadWord size) storeSharp loadSharp same where
  toSharp := by
    intro o v h
    rcases (hsame o v).mp h with ⟨n, hn, rfl, rfl⟩
    exact ⟨encode size n, .word n, hstore n, hloadSharp n hn, h⟩
  toCpp := by
    intro o v h
    rcases (hsame o v).mp h with ⟨n, hn, rfl, rfl⟩
    exact ⟨encode size n, hstoreSharp n, reads_loadWord (lt_of_lt_of_le hn hcapacity)⟩
  functional := by
    intro o v v' h h'
    rcases (hsame o v).mp h with ⟨n, _, rfl, rfl⟩
    rcases (hsame _ v').mp h' with ⟨m, _, hm, rfl⟩
    cases hm
    rfl

theorem reads_wordSharp
    {size n : Nat}
    (hn : n < 256 ^ size) :
    Reads (checked size >>= fun bytes => pure (CSharp.Object.word (decode bytes)))
      (.word n) (encode size n) := by
  have hword : decode (encode size n) = n := decode_encode_of_lt hn
  have hcopy : Reads (checked size) (encode size n) (encode size n) := by
    simpa using Reads.checked (encode size n)
  have hread := Reads.map (fun bytes => CSharp.Object.word (decode bytes)) hcopy
  rw [hword] at hread
  exact hread

theorem reads_booleanSharp
    {n : Nat}
    (hn : n < 2) :
    Reads (checked 1 >>= fun bytes =>
        pure (CSharp.Object.word (if decode bytes = 0 then 0 else 1)))
      (.word n) (encode 1 n) := by
  have hword : decode (encode 1 n) = n := decode_encode_of_lt (by omega)
  have hcopy : Reads (checked 1) (encode 1 n) (encode 1 n) := by
    simpa using Reads.checked (encode 1 n)
  have hread := Reads.map
    (fun bytes => CSharp.Object.word (if decode bytes = 0 then 0 else 1)) hcopy
  have hbit : (if n = 0 then 0 else 1) = n := by
    split <;> omega
  rw [hword, hbit] at hread
  exact hread

/-- UTF-16 keeps every character. -/
theorem encode_injective
    {chars chars' : List Char}
    (h : Utf16.encode chars = Utf16.encode chars') :
    chars = chars' := by
  rw [← Utf16.decode_encode chars, h, Utf16.decode_encode]

/-- A text goes to C# as UTF-8, and comes back as UTF-16. -/
theorem reads_textSharp
    (runtime : CSharp.Runtime)
    {chars : List Char}
    (hlen : (Utf16.utf8 chars).length < 2 ^ 31) :
    Reads
      (CSharp.loadLength >>= fun length =>
        if length < 0 then
          fail
        else
          checked length.toNat >>= fun bytes =>
            pure (CSharp.Object.text (some (runtime.getString bytes))))
      (.text (some (Utf16.encode chars)))
      (encode 4 (Utf16.utf8 chars).length ++ Utf16.utf8 chars) := by
  have hstring : runtime.getString (Utf16.utf8 chars) = Utf16.encode chars := by
    simp [CSharp.Runtime.getString, Utf16.ofUtf8_utf8]
  refine Reads.bind (reads_loadLengthSharp hlen) ?_
  have hcopy := Reads.map
    (fun bytes => CSharp.Object.text (some (runtime.getString bytes)))
    (Reads.checked (Utf16.utf8 chars))
  rw [hstring] at hcopy
  have hnonneg : ¬ ((Utf16.utf8 chars).length : Int) < 0 := by
    omega
  rw [if_neg hnonneg]
  exact hcopy

/-- The entries of a dictionary are set one behind the other if no key of them
is found among those before. -/
theorem setItems_of_pairwise
    {equal : CSharp.Object → CSharp.Object → Bool}
    {map entries : List (CSharp.Object × CSharp.Object)}
    (hfresh : (map ++ entries).Pairwise (fun a b => equal a.1 b.1 = false)) :
    CSharp.setItems equal map entries = map ++ entries := by
  induction entries generalizing map with
  | nil =>
      simp [CSharp.setItems]
  | cons entry entries ih =>
      have hset : ∀ map : List (CSharp.Object × CSharp.Object),
          (∀ other ∈ map, equal other.1 entry.1 = false) →
            CSharp.setItem equal entry map = map ++ [entry] := by
        intro map hmap
        induction map with
        | nil =>
            rfl
        | cons other map ihmap =>
            have hother := hmap other (by simp)
            simp [CSharp.setItem, hother, ihmap fun b hb => hmap b (by simp [hb])]
      have hmap : ∀ other ∈ map, equal other.1 entry.1 = false := fun other hother =>
        (List.pairwise_append.mp hfresh).2.2 other hother entry (by simp)
      have htail : CSharp.setItems equal (map ++ [entry]) entries =
          (map ++ [entry]) ++ entries :=
        ih (by simpa using hfresh)
      simpa [CSharp.setItems, hset map hmap] using htail

/-- Keys that are the same as strictly increasing keys are not equal. -/
theorem keys_fresh
    {order : Compare}
    {equal : CSharp.Object → CSharp.Object → Bool}
    {same₁ same₂ : CSharp.Object → Value → Prop}
    (hsound : ∀ a b, equal a b = true → a = b)
    (hfunctional : ∀ o v v', same₁ o v → same₁ o v' → v = v')
    {objects : List (CSharp.Object × CSharp.Object)}
    {values : List (Value × Value)}
    (hsame : List.Forall₂ (fun a b => same₁ a.1 b.1 ∧ same₂ a.2 b.2) objects values)
    (hsorted : values.Pairwise order.Before) :
    objects.Pairwise (fun a b => equal a.1 b.1 = false) := by
  induction hsame with
  | nil =>
      exact List.Pairwise.nil
  | cons hentry hrest ih =>
      rename_i a b objects values
      rcases List.pairwise_cons.mp hsorted with ⟨hhead, htail⟩
      refine List.pairwise_cons.mpr ⟨?_, ih htail⟩
      intro other hother
      rw [Bool.eq_false_iff]
      intro hequal
      rcases List.forall₂_iff_get.mp hrest with ⟨hlen, hget⟩
      rcases List.get_of_mem hother with ⟨i, hi⟩
      have hother' := (hget i.1 i.2 (hlen ▸ i.2)).1
      rw [Fin.eta, hi, ← hsound _ _ hequal] at hother'
      have hkey := hfunctional _ _ _ hentry.1 hother'
      have hless := hhead _ (List.get_mem values ⟨i.1, hlen ▸ i.2⟩)
      rw [Compare.Before, ← hkey] at hless
      have hback := order.asymm _ _ hless
      rw [hless] at hback
      cases hback

theorem interoperates_seq
    {store : Value → Option (List UInt8)} {load : Load Value}
    {storeSharp : CSharp.Object → CSharp.Written} {loadSharp : Load CSharp.Object}
    {same : CSharp.Object → Value → Prop}
    {storeSeq : Value → Option (List UInt8)}
    {storeSeqSharp : CSharp.Object → CSharp.Written}
    {sameSeq : CSharp.Object → Value → Prop}
    (h : Interoperates store load storeSharp loadSharp same)
    (hstore : ∀ elmts, storeSeq (.seq elmts) = (do
      let bytes ← storeAll store elmts
      some (encode 4 elmts.length ++ bytes)))
    (hstoreSharp : ∀ elmts, storeSeqSharp (.seq elmts) =
      (CSharp.write (encode 4 elmts.length)).andThen (CSharp.storeAll storeSharp elmts))
    (hsame : ∀ o v, sameSeq o v ↔ ∃ objects values,
      o = .seq objects ∧ v = .seq values ∧
        values.length < 2 ^ 31 ∧ List.Forall₂ same objects values) :
    Interoperates storeSeq
      (loadLength >>= fun n => many load n >>= fun elmts => pure (.seq elmts))
      storeSeqSharp
      (CSharp.loadLength >>= fun length =>
        many loadSharp length.toNat >>= fun elmts => pure (.seq elmts))
      sameSeq where
  toSharp := by
    intro o v hov
    rcases (hsame o v).mp hov with ⟨objects, values, rfl, rfl, hlen, hall⟩
    rcases h.toSharp_all hall with ⟨bytes, objects', hbytes, hmany, hall'⟩
    refine ⟨encode 4 values.length ++ bytes, .seq objects', by simp [hstore, hbytes], ?_,
      (hsame _ _).mpr ⟨objects', values, rfl, rfl, hlen, hall'⟩⟩
    refine Reads.bind (reads_loadLengthSharp hlen) ?_
    exact Reads.map CSharp.Object.seq (by simpa using hmany)
  toCpp := by
    intro o v hov
    rcases (hsame o v).mp hov with ⟨objects, values, rfl, rfl, hlen, hall⟩
    rcases h.toCpp_all hall with ⟨bytes, hbytes, hmany⟩
    refine ⟨encode 4 objects.length ++ bytes, by simp [hstoreSharp, hbytes], ?_⟩
    rw [hall.length_eq]
    exact Reads.bind (reads_loadLength (by omega)) (Reads.map Value.seq hmany)
  functional := by
    intro o v v' hov hov'
    rcases (hsame o v).mp hov with ⟨objects, values, rfl, rfl, _, hall⟩
    rcases (hsame _ v').mp hov' with ⟨objects', values', ho, rfl, _, hall'⟩
    cases ho
    rw [h.functional_all hall hall']

theorem interoperates_map
    {store : Value × Value → Option (List UInt8)} {load : Load (Value × Value)}
    {storeSharp : CSharp.Object × CSharp.Object → CSharp.Written}
    {loadSharp : Load (CSharp.Object × CSharp.Object)}
    {same₁ same₂ : CSharp.Object → Value → Prop}
    {storeMap : Value → Option (List UInt8)}
    {storeMapSharp : CSharp.Object → CSharp.Written}
    {sameMap : CSharp.Object → Value → Prop}
    (order : Compare)
    {equal : CSharp.Object → CSharp.Object → Bool}
    (hsound : ∀ a b, equal a b = true → a = b)
    (hfunctional : ∀ o v v', same₁ o v → same₁ o v' → v = v')
    (h : Interoperates store load storeSharp loadSharp
      (fun a b => same₁ a.1 b.1 ∧ same₂ a.2 b.2))
    (hstore : ∀ entries, storeMap (.map entries) = (do
      let bytes ← storeAll store entries
      some (encode 4 entries.length ++ bytes)))
    (hstoreSharp : ∀ entries, storeMapSharp (.map entries) =
      (CSharp.write (encode 4 entries.length)).andThen (CSharp.storeAll storeSharp entries))
    (hsame : ∀ o v, sameMap o v ↔ ∃ objects values,
      o = .map objects ∧ v = .map values ∧
        values.length < 2 ^ 31 ∧ values.Pairwise order.Before ∧
          ∃ sorted, sorted.Perm objects ∧
            List.Forall₂ (fun a b => same₁ a.1 b.1 ∧ same₂ a.2 b.2) sorted values) :
    Interoperates storeMap
      (loadLength >>= fun n => many load n >>= fun entries =>
        pure (.map (order.insertAll [] entries)))
      storeMapSharp
      (CSharp.loadLength >>= fun length =>
        many loadSharp length.toNat >>= fun entries =>
          pure (.map (CSharp.setItems equal [] entries)))
      sameMap where
  toSharp := by
    intro o v hov
    rcases (hsame o v).mp hov with ⟨objects, values, rfl, rfl, hlen, hsorted, sorted, _, hall⟩
    rcases h.toSharp_all hall with ⟨bytes, objects', hbytes, hmany, hall'⟩
    have hfresh := keys_fresh hsound hfunctional hall' hsorted
    have hitems : CSharp.setItems equal [] objects' = objects' :=
      setItems_of_pairwise hfresh
    refine ⟨encode 4 values.length ++ bytes, .map objects', by simp [hstore, hbytes], ?_,
      (hsame _ _).mpr ⟨objects', values, rfl, rfl, hlen, hsorted, objects',
        List.Perm.refl _, hall'⟩⟩
    refine Reads.bind (reads_loadLengthSharp hlen) ?_
    have hread := Reads.map
      (fun entries => CSharp.Object.map (CSharp.setItems equal [] entries)) hmany
    rw [hitems] at hread
    simpa using hread
  toCpp := by
    intro o v hov
    rcases (hsame o v).mp hov with
      ⟨objects, values, rfl, rfl, hlen, hsorted, sorted, hperm, hall⟩
    rcases List.perm_comp_forall₂ hperm.symm hall with ⟨values', hall', hperm'⟩
    rcases h.toCpp_all hall' with ⟨bytes, hbytes, hmany⟩
    have hlen' : objects.length = values.length :=
      hall'.length_eq.trans hperm'.length_eq
    have hentries : order.insertAll [] values' = values :=
      insertAll_of_perm order hsorted hperm'
    refine ⟨encode 4 objects.length ++ bytes, by simp [hstoreSharp, hbytes], ?_⟩
    rw [hlen']
    rw [hperm'.length_eq] at hmany
    refine Reads.bind (reads_loadLength (by omega)) ?_
    have hread := Reads.map (fun entries => Value.map (order.insertAll [] entries)) hmany
    rw [hentries] at hread
    exact hread
  functional := by
    intro o v v' hov hov'
    rcases (hsame o v).mp hov with
      ⟨objects, values, rfl, rfl, _, hsorted, sorted, hperm, hall⟩
    rcases (hsame _ v').mp hov' with
      ⟨objects', values', ho, rfl, _, hsorted', sorted', hperm', hall'⟩
    cases ho
    rcases List.perm_comp_forall₂ (hperm.trans hperm'.symm) hall' with
      ⟨values'', hall'', hvalues⟩
    have heq := h.functional_all hall hall''
    subst heq
    have hval : values = values' := hvalues.eq_of_pairwise
      (fun a b _ _ hab hba => absurd hba (before_asymm order a b hab)) hsorted hsorted'
    rw [hval]

end Pieces

section Declarations

variable (order : {declared : List String} → VarType declared → Compare)
variable (runtime : CSharp.Runtime)
variable {declared : List String}
variable {serializer : Names declared Serializer}
variable {sharp : Names declared CSharp.Serializer}
variable {same : Names declared (CSharp.Object → Value → Prop)}

/-- The serializers of the names of a file interoperate. -/
def AllInteroperate
    (serializer : Names declared Serializer)
    (sharp : Names declared CSharp.Serializer)
    (same : Names declared (CSharp.Object → Value → Prop)) : Prop :=
  ∀ name known,
    Interoperates (serializer name known).store (serializer name known).load
      (sharp name known).store (sharp name known).load (same name known)

theorem same_primitive_iff
    (type : PrimitiveType)
    (o : CSharp.Object)
    (v : Value) :
    VarType.Same order same (.primitive type) o v ↔
      ∃ n, n < type.capacity ∧ o = .word n ∧ v = .word n := by
  constructor
  · intro h
    cases o with
    | word m =>
        cases v with
        | word n =>
            rcases h with ⟨rfl, hn⟩
            exact ⟨m, hn, rfl, rfl⟩
        | _ =>
            exact h.elim
    | _ =>
        exact h.elim
  · rintro ⟨n, hn, rfl, rfl⟩
    exact ⟨rfl, hn⟩

theorem interoperates_primitive
    (type : PrimitiveType) :
    Interoperates (generateVariableStore serializer (.primitive type))
      (generateVariableLoad order serializer (.primitive type))
      (CSharp.generateVariableStore sharp (.primitive type))
      (CSharp.generateVariableLoad runtime sharp (.primitive type))
      (VarType.Same order same (.primitive type)) := by
  refine interoperates_word type.capacity_le (fun _ => rfl) (fun _ => rfl) ?_
    (same_primitive_iff order type)
  intro n hn
  cases type with
  | boolean =>
      exact reads_booleanSharp hn
  | _ =>
      exact reads_wordSharp hn

/-- A string that is the same on both sides is one list of characters. -/
theorem chars_of_same_string
    {o : CSharp.Object}
    {v : Value}
    (h : VarType.Same order same .string o v) :
    ∃ chars, o = .text (some (Utf16.encode chars)) ∧ v = .text (Utf16.utf8 chars) ∧
      (Utf16.utf8 chars).length < 2 ^ 31 := by
  cases o with
  | text units =>
      cases units with
      | none =>
          exact h.elim
      | some units =>
          cases v with
          | text bytes =>
              rcases h with ⟨hlen, chars, rfl, rfl⟩
              exact ⟨chars, rfl, rfl, hlen⟩
          | _ =>
              exact h.elim
  | _ =>
      exact h.elim

theorem interoperates_string :
    Interoperates (generateVariableStore serializer .string)
      (generateVariableLoad order serializer .string)
      (CSharp.generateVariableStore sharp .string)
      (CSharp.generateVariableLoad runtime sharp .string)
      (VarType.Same order same .string) where
  toSharp := by
    intro o v h
    rcases chars_of_same_string order h with ⟨chars, rfl, rfl, hlen⟩
    exact ⟨_, _, rfl, reads_textSharp runtime hlen, h⟩
  toCpp := by
    intro o v h
    rcases chars_of_same_string order h with ⟨chars, rfl, rfl, hlen⟩
    have hbytes : CSharp.getBytes (Utf16.encode chars) = Utf16.utf8 chars := by
      rw [CSharp.getBytes, Utf16.decode_encode]
    refine ⟨encode 4 (Utf16.utf8 chars).length ++ Utf16.utf8 chars, ?_, ?_⟩
    · simp only [CSharp.generateVariableStore, hbytes]
    · exact Reads.bind (reads_loadLength (by omega))
        (Reads.map Value.text (Reads.checked _))
  functional := by
    intro o v v' h h'
    rcases chars_of_same_string order h with ⟨chars, rfl, rfl, _⟩
    rcases chars_of_same_string order h' with ⟨chars', ho, rfl, _⟩
    simp only [CSharp.Object.text.injEq, Option.some.injEq] at ho
    rw [encode_injective ho]

theorem interoperates_varType
    (hnames : AllInteroperate serializer sharp same)
    (type : VarType declared) :
    Interoperates (generateVariableStore serializer type)
      (generateVariableLoad order serializer type)
      (CSharp.generateVariableStore sharp type)
      (CSharp.generateVariableLoad runtime sharp type)
      (type.Same order same) := by
  induction type with
  | primitive type =>
      exact interoperates_primitive order runtime type
  | string =>
      exact interoperates_string order runtime
  | userDefine name known =>
      exact hnames name known
  | list elmtType ih =>
      refine interoperates_seq ih (fun _ => rfl) (fun _ => rfl) ?_
      intro o v
      constructor
      · intro h
        cases o <;> cases v <;> first | exact h.elim | exact ⟨_, _, rfl, rfl, h⟩
      · rintro ⟨objects, values, rfl, rfl, h⟩
        exact h
  | array elmtType ih =>
      refine interoperates_seq ih (fun _ => rfl) (fun _ => rfl) ?_
      intro o v
      constructor
      · intro h
        cases o <;> cases v <;> first | exact h.elim | exact ⟨_, _, rfl, rfl, h⟩
      · rintro ⟨objects, values, rfl, rfl, h⟩
        exact h
  | map keyType elmtType ihkey ihelmt =>
      have hfunctional : ∀ o v v', keyType.Same order same o v →
          keyType.Same order same o v' → v = v' := fun _ _ _ => ihkey.functional
      refine interoperates_map (order keyType) (runtime.sound keyType) hfunctional
        (interoperates_entry ihkey ihelmt) (fun _ => rfl) (fun _ => rfl) ?_
      intro o v
      constructor
      · intro h
        cases o <;> cases v <;> first | exact h.elim | exact ⟨_, _, rfl, rfl, h⟩
      · rintro ⟨objects, values, rfl, rfl, h⟩
        exact h

theorem interoperates_fields
    (hnames : AllInteroperate serializer sharp same)
    (fields : List (FieldType declared)) :
    Interoperates (storeFields serializer fields) (loadFields order serializer fields)
      (CSharp.storeFields sharp fields) (CSharp.loadFields runtime sharp fields)
      (FieldsSame order same fields) := by
  induction fields with
  | nil =>
      constructor
      · intro objects values h
        cases objects <;> cases values <;> first
          | exact ⟨[], [], rfl, Reads.pure [], trivial⟩
          | exact h.elim
      · intro objects values h
        cases objects <;> cases values <;> first
          | exact ⟨[], rfl, Reads.pure []⟩
          | exact h.elim
      · intro objects values values' h h'
        cases objects <;> cases values <;> cases values' <;> first
          | rfl
          | exact h.elim
          | exact h'.elim
  | cons field fields ih =>
      cases field with
      | staticArray elmtType elmtCount =>
          have hnone : ∀ objects values,
              ¬ FieldsSame order same (.staticArray elmtType elmtCount :: fields)
                objects values := by
            intro objects values h
            cases objects <;> cases values <;> first | exact h.elim | exact h.1.elim
          exact ⟨fun h => (hnone _ _ h).elim, fun h => (hnone _ _ h).elim,
            fun h => (hnone _ _ h).elim⟩
      | plain type =>
          have htype := interoperates_varType order runtime hnames type
          have hcons : ∀ objects values,
              FieldsSame order same (.plain type :: fields) objects values →
                ∃ o objects' v values', objects = o :: objects' ∧ values = v :: values' ∧
                  type.Same order same o v ∧ FieldsSame order same fields objects' values' := by
            intro objects values h
            cases objects <;> cases values <;> first
              | exact h.elim
              | exact ⟨_, _, _, _, rfl, rfl, h⟩
          constructor
          · intro objects values h
            rcases hcons _ _ h with ⟨o, objects, v, values, rfl, rfl, ho, hrest⟩
            rcases htype.toSharp ho with ⟨front, o', hfront, hreads, ho'⟩
            rcases ih.toSharp hrest with ⟨back, objects', hback, hreads', hrest'⟩
            refine ⟨front ++ back, o' :: objects', ?_, ?_, ho', hrest'⟩
            · simp [storeFields, generateFieldStore, hfront, hback]
            · exact Reads.bind hreads (Reads.map (fun objects => o' :: objects) hreads')
          · intro objects values h
            rcases hcons _ _ h with ⟨o, objects, v, values, rfl, rfl, ho, hrest⟩
            rcases htype.toCpp ho with ⟨front, hfront, hreads⟩
            rcases ih.toCpp hrest with ⟨back, hback, hreads'⟩
            refine ⟨front ++ back, ?_, ?_⟩
            · simp [CSharp.storeFields, CSharp.generateFieldStore, hfront, hback]
            · exact Reads.bind hreads (Reads.map (fun values => v :: values) hreads')
          · intro objects values values' h h'
            rcases hcons _ _ h with ⟨o, objects, v, values, rfl, rfl, ho, hrest⟩
            rcases hcons _ _ h' with ⟨_, _, v', values', hobjects, rfl, ho', hrest'⟩
            cases hobjects
            rw [htype.functional ho ho', ih.functional hrest hrest']

theorem interoperates_enum
    (numbers : List (Option Nat)) :
    Interoperates (compileEnum numbers).store (compileEnum numbers).load
      CSharp.compileEnum.store CSharp.compileEnum.load
      (Decl.Same order same (.enum numbers)) := by
  have hsame : ∀ o v, Decl.Same order same (.enum numbers) o v ↔
      ∃ n, n < 2 ^ 32 ∧ o = .word n ∧ v = .word n ∧ enumSize numbers = 4 := by
    intro o v
    constructor
    · intro h
      cases o <;> cases v <;> first | exact h.elim | skip
      rcases h with ⟨rfl, hn, hsize⟩
      exact ⟨_, hn, rfl, rfl, hsize⟩
    · rintro ⟨n, hn, rfl, rfl, hsize⟩
      exact ⟨rfl, hn, hsize⟩
  by_cases hsize : enumSize numbers = 4
  · have hword : Interoperates (compileEnum numbers).store (loadWord 4)
        CSharp.compileEnum.store CSharp.compileEnum.load
        (Decl.Same order same (.enum numbers)) := by
      have hcapacity : 2 ^ 32 ≤ 256 ^ 4 := by
        norm_num
      refine interoperates_word hcapacity ?_ (fun _ => rfl)
        (fun n hn => reads_wordSharp (lt_of_lt_of_le hn hcapacity)) ?_
      · intro n
        simp only [compileEnum, hsize]
      · intro o v
        rw [hsame]
        constructor
        · rintro ⟨n, hn, ho, hv, _⟩
          exact ⟨n, hn, ho, hv⟩
        · rintro ⟨n, hn, ho, hv⟩
          exact ⟨n, hn, ho, hv, hsize⟩
    have hload : (compileEnum numbers).load = loadWord 4 := by
      simp only [compileEnum, hsize]
    rw [hload]
    exact hword
  · have hnone : ∀ o v, ¬ Decl.Same order same (.enum numbers) o v := by
      intro o v h
      rcases (hsame o v).mp h with ⟨_, _, _, _, hsize'⟩
      exact hsize hsize'
    exact ⟨fun h => (hnone _ _ h).elim, fun h => (hnone _ _ h).elim,
      fun h => (hnone _ _ h).elim⟩

theorem interoperates_message
    (hnames : AllInteroperate serializer sharp same)
    (parent : Option {name : String // name ∈ declared})
    (fields : List (FieldType declared)) :
    Interoperates (compileMessage order serializer parent fields).store
      (compileMessage order serializer parent fields).load
      (CSharp.storeMessage sharp parent fields)
      (CSharp.loadMessage runtime sharp parent fields)
      (Decl.Same order same (.message parent fields)) := by
  have hfields := interoperates_fields order runtime hnames fields
  cases parent with
  | none =>
      have hrecord : ∀ o v, Decl.Same order same (.message none fields) o v →
          ∃ objects values, o = .record none objects ∧ v = .record none values ∧
            FieldsSame order same fields objects values := by
        intro o v h
        rcases o with _ | _ | _ | _ | ⟨_ | _, _⟩ <;>
          rcases v with _ | _ | _ | _ | ⟨_ | _, _⟩ <;> first
            | exact h.elim
            | exact ⟨_, _, rfl, rfl, h⟩
      constructor
      · intro o v h
        rcases hrecord o v h with ⟨objects, values, rfl, rfl, hsame⟩
        rcases hfields.toSharp hsame with ⟨bytes, objects', hbytes, hreads, hsame'⟩
        exact ⟨bytes, .record none objects', hbytes,
          Reads.map (fun objects => CSharp.Object.record none objects) hreads, hsame'⟩
      · intro o v h
        rcases hrecord o v h with ⟨objects, values, rfl, rfl, hsame⟩
        rcases hfields.toCpp hsame with ⟨bytes, hbytes, hreads⟩
        exact ⟨bytes, hbytes, Reads.map (fun values => Value.record none values) hreads⟩
      · intro o v v' h h'
        rcases hrecord o v h with ⟨objects, values, rfl, rfl, hsame⟩
        rcases hrecord _ v' h' with ⟨objects', values', ho, rfl, hsame'⟩
        cases ho
        rw [hfields.functional hsame hsame']
  | some base =>
      have hbase := hnames base.1 (mem_declared base)
      have hrecord : ∀ o v, Decl.Same order same (.message (some base) fields) o v →
          ∃ o' objects v' values, o = .record (some o') objects ∧
            v = .record (some v') values ∧ same base.1 (mem_declared base) o' v' ∧
              FieldsSame order same fields objects values := by
        intro o v h
        rcases o with _ | _ | _ | _ | ⟨_ | _, _⟩ <;>
          rcases v with _ | _ | _ | _ | ⟨_ | _, _⟩ <;> first
            | exact h.elim
            | exact ⟨_, _, _, _, rfl, rfl, h⟩
      constructor
      · intro o v h
        rcases hrecord o v h with ⟨o, objects, v, values, rfl, rfl, ho, hsame⟩
        rcases hbase.toSharp ho with ⟨front, o', hfront, hreads, ho'⟩
        rcases hfields.toSharp hsame with ⟨back, objects', hback, hreads', hsame'⟩
        refine ⟨front ++ back, .record (some o') objects', ?_, ?_, ho', hsame'⟩
        · simp [compileMessage, hfront, hback]
        · exact Reads.bind hreads
            (Reads.map (fun objects => CSharp.Object.record (some o') objects) hreads')
      · intro o v h
        rcases hrecord o v h with ⟨o, objects, v, values, rfl, rfl, ho, hsame⟩
        rcases hbase.toCpp ho with ⟨front, hfront, hreads⟩
        rcases hfields.toCpp hsame with ⟨back, hback, hreads'⟩
        refine ⟨front ++ back, ?_, ?_⟩
        · simp only [CSharp.storeMessage, hfront, hback]
          rfl
        · exact Reads.bind hreads
            (Reads.map (fun values => Value.record (some v) values) hreads')
      · intro o v v' h h'
        rcases hrecord o v h with ⟨o, objects, v, values, rfl, rfl, ho, hsame⟩
        rcases hrecord _ v' h' with ⟨_, _, v', values', hobj, rfl, ho', hsame'⟩
        cases hobj
        rw [hbase.functional ho ho', hfields.functional hsame hsame']

theorem interoperates_decl
    (hnames : AllInteroperate serializer sharp same)
    (decl : Decl declared) :
    Interoperates (compileDecl order serializer decl).store
      (compileDecl order serializer decl).load
      (CSharp.compileDecl runtime sharp decl).store
      (CSharp.compileDecl runtime sharp decl).load
      (decl.Same order same) := by
  cases decl with
  | enum numbers =>
      exact interoperates_enum order numbers
  | typedef type =>
      exact interoperates_varType order runtime hnames type
  | message parent fields =>
      exact interoperates_message order runtime hnames parent fields

end Declarations

/-- Every message interoperates. By induction on the file. -/
theorem interoperates_environment
    (order : {declared : List String} → VarType declared → Compare)
    (runtime : CSharp.Runtime)
    {declared : List String}
    (env : Environment declared) :
    AllInteroperate (env.serializer order) (env.csharp runtime) (env.Same order) := by
  intro name known
  exact env.compile_related₃
    (fun (serializer : Serializer) (sharp : CSharp.Serializer) same =>
      Interoperates serializer.store serializer.load sharp.store sharp.load same)
    (fun _ _ _ hnames decl => interoperates_decl order runtime hnames decl) name known

/-- A load on exactly these bytes returns. -/
def LoadsFrom
    {α : Type}
    (load : Load α)
    (bytes : List UInt8)
    (P : α → Prop) : Prop :=
  ∀ memory (nSize : UInt64), nSize.toNat = bytes.length →
    bytesAt memory 0 nSize.toNat = bytes →
      ∃ a c, load (start memory nSize) = .returns a c ∧ P a

/-- What is read from exactly these bytes is loaded from them. -/
theorem loadsFrom_of_reads
    {α : Type}
    {load : Load α}
    {a : α}
    {bytes : List UInt8}
    {P : α → Prop}
    (hreads : Reads load a bytes)
    (ha : P a) :
    LoadsFrom load bytes P := by
  intro memory nSize _ hbytes
  rcases hreads (start memory nSize) [] (by simpa using hbytes) with ⟨c, hload, _, _⟩
  exact ⟨a, c, hload, ha⟩

/-- A message Palette with a name and a map from numbers to colours. -/
def palette : IdlFile ["Palette", "Color"] :=
  .declare
    (.declare .empty "Color" (.enum [none, some 7]))
    "Palette"
    (.message none
      [⟨"name", .plain .string⟩,
        ⟨"colors", .plain (.map (.primitive .uint32) (.userDefine "Color" color_declared))⟩])

theorem palette_clear :
    palette.Clear where
  store := by
    refine ⟨⟨trivial, trivial⟩, ?_⟩
    simp [NamedDecl.HasFields, StoreClear]
  load := by
    refine ⟨⟨trivial, trivial⟩, ?_⟩
    simp [NamedDecl.HasFields, LoadClear]
  csharp := by
    refine ⟨⟨trivial, trivial⟩, ?_⟩
    simp [NamedDecl.HasFields, CSharp.FieldsClear, CSharp.Named.loadLocals,
      FieldType.isMeasured]

/-- Two entries that C# has inserted in the other order. -/
theorem palette_same :
    palette.layout.Same (fun _ => .ofWords) "Palette" (by simp)
      (.record none
        [.text (some (Utf16.encode ['a', '\u00e9'])),
          .map [(.word 9, .word 0), (.word 2, .word 7)]])
      (.record none
        [.text (Utf16.utf8 ['a', '\u00e9']),
          .map [(.word 2, .word 7), (.word 9, .word 0)]]) := by
  have hcolor : ∀ n, n < 2 ^ 32 →
      palette.layout.Same (fun _ => .ofWords) "Color" (by simp) (.word n) (.word n) :=
    fun n hn => ⟨rfl, hn, by decide⟩
  refine ⟨⟨by decide, ['a', '\u00e9'], rfl, rfl⟩, ⟨by decide, ?_, ?_⟩, trivial⟩
  · simp [Compare.ofWords]
  · refine ⟨[(.word 2, .word 7), (.word 9, .word 0)], List.Perm.swap _ _ _, ?_⟩
    refine .cons ⟨⟨rfl, by decide⟩, hcolor 7 (by omega)⟩ (.cons ⟨⟨rfl, by decide⟩, ?_⟩ .nil)
    exact hcolor 0 (by omega)

/-- A struct S with a string x and a number x_size. -/
def sized : IdlFile ["S"] :=
  .declare .empty "S"
    (.message none [⟨"x", .plain .string⟩, ⟨"x_size", .plain (.primitive .int32)⟩])

end Idlc
end Gamnet
