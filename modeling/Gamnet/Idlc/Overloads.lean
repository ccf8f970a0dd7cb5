import Gamnet.Idlc.Hollow
import Gamnet.Idlc.Size
import Mathlib.Data.List.Perm.Subperm

/-!
# The vector overloads of Store and Load

A message has a Store and a Load on std::vector<char> around those on pointers. Load of
an empty vector returns true at once and leaves the object as it is, which Load from a
pointer does for a type without bytes only. Store resizes the vector by Size, which is
exact as long as no part that a typedef counts takes 2^31 bytes or more, and then writes
without a check.

Both overloads do what is asked of them exactly for a vector that is not empty or a type
without bytes, and for an object that fits its lengths, its loop counters and its sums
(`overloads_agree_iff`), in a file in which Store and Load hide no field.
-/

namespace Gamnet
namespace Idlc

open LittleEndian Reader

/-- The largest size of a std::vector<char> is one less. -/
def vectorLimit : Nat := 2 ^ 63

/-- Load(const char**, size_t&) into an object: what it returns, and the object that it
leaves. The overflow of a loop counter is undefined. -/
def Loader.loadPointer
    (loader : Loader)
    (v : Value)
    (memory : Nat → UInt8)
    (nSize : UInt64) : Option (Bool × Value) :=
  match loader.load (start memory nSize) with
  | .returns _ _ => some (true, loader.left v (start memory nSize))
  | .fails _ => some (false, loader.left v (start memory nSize))
  | .overflows _ => none

/-- Load(const std::vector<char>&) into an object. The memory begins with the bytes of the
vector. -/
def Loader.loadVector
    (loader : Loader)
    (v : Value)
    (memory : Nat → UInt8)
    (nSize : UInt64) : Option (Bool × Value) :=
  if 0 = nSize then some (true, v) else loader.loadPointer v memory nSize

/-- std::vector<char>::resize to a larger size. It throws for more than max_size(). -/
def resizeVector (buf : List UInt8) (nSize : Nat) : Option (List UInt8) :=
  if nSize < vectorLimit then some (buf ++ List.replicate (nSize - buf.length) 0) else none

/-- Store(char**) on the bytes of a vector. Writing behind them is undefined. -/
def Serializer.storePointer
    (serializer : Serializer)
    (v : Value)
    (buf : List UInt8) : Option (List UInt8) := do
  let bytes ← serializer.store v
  if bytes.length ≤ buf.length then some (bytes ++ buf.drop bytes.length) else none

/-- Store(std::vector<char>&): the vector that it leaves. -/
def Serializer.storeVector
    (serializer : Serializer)
    (size : Value → Option Nat)
    (v : Value)
    (buf : List UInt8) : Option (List UInt8) := do
  let nSize ← size v
  if 0 = nSize then some buf
  else
    let buf ← if nSize > buf.length then resizeVector buf nSize else some buf
    serializer.storePointer v buf

/-- Store into any vector and Load from it into a fresh object give the object back. -/
def Loader.StoresAndLoads
    (loader : Loader)
    (size : Value → Option Nat)
    (v : Value) : Prop :=
  ∀ buf, buf.length < vectorLimit → ∃ buf', loader.storeVector size v buf = some buf' ∧
    ∀ memory, bytesAt memory 0 buf'.length = buf' →
      loader.loadVector loader.initial memory (UInt64.ofNat buf'.length) = some (true, v)

/-- Both overloads of Load return the same and leave the same object. -/
def Loader.LoadsAgree
    (loader : Loader)
    (v : Value)
    (buf : List UInt8) : Prop :=
  ∀ memory, bytesAt memory 0 buf.length = buf →
    loader.loadVector v memory (UInt64.ofNat buf.length) =
      loader.loadPointer v memory (UInt64.ofNat buf.length)

/-- An object that its type allows, whose strings and containers have less than 2^32
elements, whose loops can be counted and whose sums are exact, and which fits a vector. -/
structure Storable
    (serializer : Serializer)
    (contents : Contents)
    (small : Value → Prop)
    (v : Value) : Prop where
  typed : contents.typed v
  fits : contents.fits v
  small : small v
  short : ∀ bytes, serializer.store v = some bytes → bytes.length < vectorLimit

section Loaded

/-- A load can come back with a value. -/
def Yields
    {α : Type}
    (x : Load α)
    (a : α) : Prop :=
  ∃ c c', x c = .returns a c'

theorem yields_many
    {α : Type}
    {x : Load α} {n : Nat} {c c' : Cursor} {as : List α}
    (h : many x n c = .returns as c') :
    as.length = n ∧ ∀ a ∈ as, Yields x a := by
  refine ⟨length_of_many h, ?_⟩
  induction n generalizing c c' as with
  | zero =>
      cases h
      simp
  | succ n ih =>
      obtain ⟨a, c₁, hx, hrest⟩ := returns_bind h
      obtain ⟨as', hmany, rfl⟩ := returns_map hrest
      rw [List.forall_mem_cons]
      exact ⟨⟨c, c₁, hx⟩, ih hmany⟩

theorem length_lt
    {c c' : Cursor} {n : Nat}
    (h : loadLength c = .returns n c') :
    n < 2 ^ 32 := by
  obtain ⟨bytes, hchecked, rfl⟩ := returns_map h
  have hlt := decode_lt bytes
  rw [length_of_checked hchecked] at hlt
  exact hlt

/-- A count has four bytes, so that no container has more elements. -/
theorem yields_prefixed
    {α : Type}
    {x : Load α} {f : List α → Value} {v : Value}
    (h : Yields (loadLength >>= fun n => many x n >>= fun as => pure (f as)) v) :
    ∃ as, v = f as ∧ as.length < 2 ^ 32 ∧ ∀ a ∈ as, Yields x a := by
  obtain ⟨c, c', h⟩ := h
  obtain ⟨n, c₁, hlength, hrest⟩ := returns_bind h
  obtain ⟨as, hmany, rfl⟩ := returns_map hrest
  obtain ⟨hlen, has⟩ := yields_many hmany
  refine ⟨as, rfl, ?_, has⟩
  rw [hlen]
  exact length_lt hlength

theorem yields_entry
    {key elmt : Load Value} {entry : Value × Value}
    (h : Yields (key >>= fun k => elmt >>= fun e => pure (k, e)) entry) :
    Yields key entry.1 ∧ Yields elmt entry.2 := by
  obtain ⟨c, c', h⟩ := h
  obtain ⟨k, c₁, hkey, hrest⟩ := returns_bind h
  obtain ⟨e, helmt, rfl⟩ := returns_map hrest
  exact ⟨⟨c, c₁, hkey⟩, c₁, c', helmt⟩

theorem insert_subperm
    (order : Compare)
    (entry : Value × Value)
    (map : List (Value × Value)) :
    (order.insert entry map).Subperm (entry :: map) := by
  induction map with
  | nil => exact .refl _
  | cons other map ih =>
      rw [Compare.insert]
      split_ifs
      · exact .refl _
      · exact ((List.subperm_cons other).mpr ih).trans (List.Perm.swap entry other map).subperm
      · exact (List.sublist_cons_self entry _).subperm

/-- A map has no other entries than those inserted. -/
theorem insertAll_subperm
    (order : Compare)
    (map entries : List (Value × Value)) :
    (order.insertAll map entries).Subperm (map ++ entries) := by
  induction entries generalizing map with
  | nil => rw [List.append_nil]; exact .refl _
  | cons entry entries ih =>
      have hinsert : (order.insert entry map ++ entries).Subperm (entry :: map ++ entries) :=
        (List.subperm_append_right entries).mpr (insert_subperm order entry map)
      exact ((ih _).trans hinsert).trans List.perm_middle.symm.subperm

variable (order : {declared : List String} → VarType declared → Compare)
variable {declared : List String}
variable {serializer : Names declared Serializer}
variable {object : Names declared (Value → Prop)}
variable {contents : Names declared Contents}

/-- What a load yields is short enough for its lengths and its counters. -/
def Fitting
    (load : Load Value)
    (object : Value → Prop)
    (contents : Contents) : Prop :=
  ∀ v, Yields load v → object v → contents.typed v ∧ contents.fits v

/-- What the code for a type yields is an object of it, whose contents fit. -/
theorem fitting_varType
    (hnames : ∀ name known, Fitting (serializer name known).load (object name known)
      (contents name known))
    (type : VarType declared) :
    Fitting (generateVariableLoad order serializer type) (type.isObject order object)
      (type.contents order contents) := by
  induction type with
  | primitive type =>
      intro v _ hv
      cases v with
      | word n => exact ⟨hv, trivial⟩
      | _ => exact hv.elim
  | string =>
      rintro v ⟨c, c', h⟩ hv
      obtain ⟨n, c₁, hlength, hrest⟩ := returns_bind h
      obtain ⟨bytes, hchecked, rfl⟩ := returns_map hrest
      refine ⟨?_, trivial⟩
      change bytes.length < 2 ^ 32
      rw [length_of_checked hchecked]
      exact length_lt hlength
  | userDefine name known => exact hnames name known
  | list elmtType ih =>
      intro v h hv
      obtain ⟨elmts, rfl, hlen, helmts⟩ := yields_prefixed h
      exact ⟨⟨hlen, fun v hmem => (ih v (helmts v hmem) (hv v hmem)).1⟩,
        fun v hmem => (ih v (helmts v hmem) (hv v hmem)).2⟩
  | array elmtType ih =>
      intro v h hv
      obtain ⟨elmts, rfl, hlen, helmts⟩ := yields_prefixed h
      exact ⟨⟨hlen, fun v hmem => (ih v (helmts v hmem) (hv v hmem)).1⟩,
        fun v hmem => (ih v (helmts v hmem) (hv v hmem)).2⟩
  | map keyType elmtType ihkey ihelmt =>
      intro v h hv
      obtain ⟨entries, rfl, hlen, hentries⟩ :=
        yields_prefixed (f := fun entries => .map ((order keyType).insertAll [] entries)) h
      have hsub := insertAll_subperm (order keyType) [] entries
      have hentry : ∀ entry ∈ (order keyType).insertAll [] entries,
          Yields (generateVariableLoad order serializer keyType) entry.1 ∧
            Yields (generateVariableLoad order serializer elmtType) entry.2 := fun entry hmem =>
        yields_entry (hentries entry (hsub.subset hmem))
      refine ⟨⟨lt_of_le_of_lt hsub.length_le hlen, hv.1, fun entry hmem => ?_⟩,
        fun entry hmem => ?_⟩
      · exact ⟨(ihkey _ (hentry entry hmem).1 (hv.2 entry hmem).1).1,
          (ihelmt _ (hentry entry hmem).2 (hv.2 entry hmem).2).1⟩
      · exact ⟨(ihkey _ (hentry entry hmem).1 (hv.2 entry hmem).1).2,
          (ihelmt _ (hentry entry hmem).2 (hv.2 entry hmem).2).2⟩

theorem fitting_field
    (hnames : ∀ name known, Fitting (serializer name known).load (object name known)
      (contents name known))
    (field : FieldType declared) :
    Fitting (generateFieldLoad order serializer field) (field.isObject order object)
      (field.contentsWithin (fun _ => True) order contents) := by
  cases field with
  | plain type => exact fitting_varType order hnames type
  | staticArray elmtType elmtCount =>
      have helmt := fitting_varType order hnames elmtType
      rintro v ⟨c, c', h⟩ hv
      cases v with
      | seq elmts =>
          obtain ⟨hcount, helmts⟩ := hv
          cases hprim : elmtType.primitive? with
          | some type =>
              rw [eq_primitive hprim] at helmts ⊢
              refine ⟨⟨hcount, trivial, fun v hmem => ?_⟩, fun hnone => by cases hnone⟩
              have hv := helmts v hmem
              cases v with
              | word n => exact hv
              | _ => exact hv.elim
          | none =>
              simp only [generateFieldLoad, hprim] at h
              obtain ⟨as, hcounted, heq⟩ := returns_map h
              cases heq
              obtain ⟨hlimit, hmany⟩ := returns_counted hcounted
              have hall := (yields_many hmany).2
              exact ⟨⟨hcount, trivial, fun v hmem => (helmt v (hall v hmem) (helmts v hmem)).1⟩,
                fun _ => ⟨hlimit, fun v hmem => (helmt v (hall v hmem) (helmts v hmem)).2⟩⟩
      | _ => exact hv.elim

theorem fitting_fields
    (hnames : ∀ name known, Fitting (serializer name known).load (object name known)
      (contents name known))
    {fields : List (FieldType declared)} {values : List Value}
    (h : Yields (loadFields order serializer fields) values)
    (hvalues : List.Forall₂ (FieldType.isObject order object) fields values) :
    List.Forall₂ (fun field v =>
        (field.contentsWithin (fun _ => True) order contents).typed v) fields values ∧
      List.Forall₂ (fun field v =>
        (field.contentsWithin (fun _ => True) order contents).fits v) fields values := by
  induction hvalues with
  | nil => exact ⟨.nil, .nil⟩
  | @cons field v fields values hv _ ih =>
      obtain ⟨c, c', h⟩ := h
      obtain ⟨v', c₁, hfield, hrest⟩ := returns_bind h
      obtain ⟨values', hfields, heq⟩ := returns_map hrest
      cases heq
      have hfirst := fitting_field order hnames field v ⟨c, c₁, hfield⟩ hv
      have htail := ih ⟨c₁, c', hfields⟩
      exact ⟨.cons hfirst.1 htail.1, .cons hfirst.2 htail.2⟩

/-- What the Load of a declaration yields is an object of it. -/
theorem fitting_decl
    (hnames : ∀ name known, Fitting (serializer name known).load (object name known)
      (contents name known))
    (decl : Decl declared) :
    Fitting (compileDecl order serializer decl).load (decl.isObject order object)
      (decl.contentsWithin (fun _ => True) order contents) := by
  cases decl with
  | enum numbers =>
      intro v _ hv
      cases v with
      | word n => exact ⟨hv, trivial⟩
      | _ => exact hv.elim
  | typedef type => exact fitting_varType order hnames type
  | message parent fields =>
      rintro v ⟨c, c', h⟩ hv
      cases v with
      | record parentValue values =>
          obtain ⟨hparent, hvalues⟩ := hv
          cases hparent with
          | none =>
              obtain ⟨values', hfields, heq⟩ := returns_map h
              cases heq
              have hall := fitting_fields order hnames ⟨c, c', hfields⟩ hvalues
              exact ⟨⟨.none, hall.1⟩, .none, hall.2⟩
          | @some base v hv =>
              obtain ⟨v', c₁, hbase, hrest⟩ := returns_bind h
              obtain ⟨values', hfields, heq⟩ := returns_map hrest
              cases heq
              have hfirst := hnames base.1 (mem_declared base) v ⟨c, c₁, hbase⟩ hv
              have hall := fitting_fields order hnames ⟨c₁, c', hfields⟩ hvalues
              exact ⟨⟨.some hfirst.1, hall.1⟩, .some hfirst.2, hall.2⟩
      | _ => exact hv.elim

/-- Whatever Load yields for a declared type fits its lengths and its counters. -/
theorem fitting_environment
    (env : Environment declared)
    (name : String)
    (known : name ∈ declared) :
    Fitting (env.serializer order name known).load (env.isObject order name known)
      (env.contentsWithin (fun _ => True) order name known) :=
  env.compile_related₃
    (fun (serializer : Serializer) object contents => Fitting serializer.load object contents)
    (fun _ _ _ hnames decl => fitting_decl order hnames decl) name known

end Loaded

section Overloads

variable (order : {declared : List String} → VarType declared → Compare)
variable {declared : List String}
variable (env : Environment declared)
variable (name : String)
variable (known : name ∈ declared)

/-- The objects of a declared type that a vector can hold. -/
def Environment.Storable : Value → Prop :=
  Idlc.Storable (env.serializer order name known)
    (env.contentsWithin (fun _ => True) order name known) (env.measured order name known).small

theorem ofNat_length
    {buf : List UInt8}
    (hbuf : buf.length < vectorLimit) :
    (UInt64.ofNat buf.length).toNat = buf.length := by
  unfold vectorLimit at hbuf
  rw [UInt64.toNat_ofNat', Nat.mod_eq_of_lt (by omega)]

/-- On an empty vector the overloads agree for a type without bytes only. -/
theorem loadsAgree_nil_iff
    {x : Value}
    (hx : env.isObject order name known x) :
    (env.loader order name known).LoadsAgree x [] ↔ env.leastSize name known = some 0 := by
  have hempty := onEmpty_environment order env name known
  constructor
  · intro h
    by_contra hsize
    have hback : ∀ byte : UInt8, ∃ a c,
        (env.loader order name known).load (start (fun _ => byte) 0) = .returns a c ∧
          (env.loader order name known).left x (start (fun _ => byte) 0) = x := by
      intro byte
      have hagree : some (true, x) = (env.loader order name known).loadPointer x
        (fun _ => byte) 0 := h (fun _ => byte) rfl
      unfold Loader.loadPointer at hagree
      cases hload : (env.loader order name known).load (start (fun _ => byte) 0) with
      | returns a c =>
          rw [hload] at hagree
          exact ⟨a, c, rfl, (Prod.mk.inj (Option.some.inj hagree)).2.symm⟩
      | fails c =>
          rw [hload] at hagree
          exact absurd (Prod.mk.inj (Option.some.inj hagree)).1 (by decide)
      | overflows c =>
          rw [hload] at hagree
          cases hagree
    obtain ⟨a₀, c₀, hload₀, hleft₀⟩ := hback 0
    obtain ⟨a₁, c₁, hload₁, hleft₁⟩ := hback 1
    exact hempty.differs hsize ⟨rfl, rfl⟩ ⟨rfl, rfl⟩ hload₀ hload₁ x hx
      (hleft₀.trans hleft₁.symm)
  · intro hsize memory _
    obtain ⟨c', hload, -⟩ := hempty.idles hsize (start memory 0)
    have hleft := left_initial order env name known _ _ _ hload
    rw [← hempty.unique hsize x hx] at hleft hload
    change some (true, x) = (env.loader order name known).loadPointer x memory 0
    rw [Loader.loadPointer, hload]
    exact congrArg (fun v => some (true, v)) hleft.symm

/-- The two overloads differ on an empty vector only: the one for vectors returns true at once. -/
theorem loadsAgree_iff
    {x : Value} {buf : List UInt8}
    (hx : env.isObject order name known x)
    (hbuf : buf.length < vectorLimit) :
    (env.loader order name known).LoadsAgree x buf ↔
      buf ≠ [] ∨ env.leastSize name known = some 0 := by
  by_cases hnil : buf = []
  · rw [hnil, loadsAgree_nil_iff order env name known hx]
    simp
  · refine ⟨fun _ => .inl hnil, fun _ memory _ => ?_⟩
    have hne : 0 ≠ UInt64.ofNat buf.length := by
      intro hzero
      have hlen := ofNat_length hbuf
      rw [← hzero] at hlen
      exact hnil (List.length_eq_zero_iff.mp hlen.symm)
    rw [Loader.loadVector, if_neg hne]

/-- A memory that begins with the bytes of a vector. -/
theorem bytesAt_getD
    (buf : List UInt8) :
    bytesAt (fun i => buf.getD i 0) 0 buf.length = buf := by
  refine List.ext_getElem (by simp) fun i hi hi' => ?_
  simp [bytesAt, hi']

/-- Load from a vector that begins with the bytes of an object loads the object. -/
theorem loadVector_of_reads
    {v : Value} {bytes buf : List UInt8}
    (hreads : Reads (env.loader order name known).load v bytes)
    (hbuf : (bytes ++ buf).length < vectorLimit)
    (hne : bytes ++ buf ≠ [])
    {memory : Nat → UInt8}
    (hmemory : bytesAt memory 0 (bytes ++ buf).length = bytes ++ buf) :
    (env.loader order name known).loadVector (env.loader order name known).initial memory
      (UInt64.ofNat (bytes ++ buf).length) = some (true, v) := by
  have hlen := ofNat_length hbuf
  have hzero : 0 ≠ UInt64.ofNat (bytes ++ buf).length := by
    intro hzero
    rw [← hzero] at hlen
    exact hne (List.length_eq_zero_iff.mp hlen.symm)
  have hunread : unread (start memory (UInt64.ofNat (bytes ++ buf).length)) = bytes ++ buf := by
    rw [unread_start, hlen, hmemory]
  obtain ⟨c', hload, -⟩ := hreads _ _ hunread
  have hleft := left_initial order env name known _ _ _ hload
  rw [Loader.loadVector, if_neg hzero, Loader.loadPointer, hload]
  exact congrArg (fun v => some (true, v)) hleft

/-- Load from a vector with bytes that gives an object back yields the object. -/
theorem yields_of_loadVector
    {v : Value} {memory : Nat → UInt8} {nSize : UInt64}
    (hne : 0 ≠ nSize)
    (h : (env.loader order name known).loadVector (env.loader order name known).initial memory
      nSize = some (true, v)) :
    ∃ c', (env.loader order name known).load (start memory nSize) = .returns v c' := by
  rw [Loader.loadVector, if_neg hne, Loader.loadPointer] at h
  cases hload : (env.loader order name known).load (start memory nSize) with
  | returns a c' =>
      rw [hload] at h
      have hleft := left_initial order env name known _ _ _ hload
      have hv : (env.loader order name known).left (env.loader order name known).initial
          (start memory nSize) = v := (Prod.mk.inj (Option.some.inj h)).2
      exact ⟨c', by rw [← hv, hleft]⟩
  | fails c' =>
      rw [hload] at h
      exact absurd (Prod.mk.inj (Option.some.inj h)).1 (by decide)
  | overflows c' =>
      rw [hload] at h
      cases h

/-- An object without bytes is the one that the constructor makes. -/
theorem eq_initial_of_reads_nil
    {v : Value}
    (hv : env.isObject order name known v)
    (hreads : Reads (env.loader order name known).load v []) :
    v = (env.loader order name known).initial := by
  have hempty := onEmpty_environment order env name known
  refine hempty.unique ?_ v hv
  by_contra hsize
  obtain ⟨c₀, h₀, -⟩ := hreads (start (fun _ => 0) 0) [] rfl
  obtain ⟨c₁, h₁, -⟩ := hreads (start (fun _ => 1) 0) [] rfl
  exact hempty.tells hsize rfl rfl h₀ h₁ rfl

/-- Size of an object with exact sums is the number of its bytes. -/
theorem size_eq_length
    {v : Value} {bytes : List UInt8}
    (hstore : (env.serializer order name known).store v = some bytes)
    (hsmall : (env.measured order name known).small v)
    (hshort : bytes.length < vectorLimit) :
    env.sizes name known v = some bytes.length := by
  obtain ⟨n, hn, lost, hsum, -, hlost⟩ := counts_environment order env name known v bytes hstore
  have hlt := sizes_lt env name known hn
  unfold vectorLimit at hshort
  rw [hlost.mpr hsmall] at hsum
  rw [hn]
  exact congrArg some (by omega)

/-- What fits into its counts is read back. -/
theorem storesAndLoads_of_storable
    {v : Value}
    (hv : env.isObject order name known v)
    (h : env.Storable order name known v) :
    (env.loader order name known).StoresAndLoads (env.sizes name known) v := by
  obtain ⟨bytes, hstore, hreads⟩ :=
    (serializes_within order (fun _ => True) env name known).restores h.typed h.fits
  have hshort := h.short bytes hstore
  have hsize := size_eq_length order env name known hstore h.small hshort
  rw [← loader_load] at hreads
  have hstore' : (env.loader order name known).store v = some bytes := by
    rw [← hstore, ← loader_toSerializer]
    rfl
  intro buf hbuf
  simp only [Serializer.storeVector, hsize, Option.bind_eq_bind, Option.bind_some]
  by_cases hzero : 0 = bytes.length
  · have hnil : bytes = [] := List.length_eq_zero_iff.mp hzero.symm
    subst hnil
    refine ⟨buf, if_pos hzero, fun memory hmemory => ?_⟩
    by_cases hbufnil : buf = []
    · rw [eq_initial_of_reads_nil order env name known hv hreads, hbufnil]
      exact if_pos rfl
    · exact loadVector_of_reads order env name known hreads hbuf hbufnil hmemory
  · rw [if_neg hzero]
    have hne : bytes ≠ [] := fun hnil => hzero (by rw [hnil]; rfl)
    have hstep : ∀ room : List UInt8, bytes.length ≤ room.length → room.length < vectorLimit →
        ∃ buf', (env.loader order name known).storePointer v room = some buf' ∧
          ∀ memory, bytesAt memory 0 buf'.length = buf' →
            (env.loader order name known).loadVector (env.loader order name known).initial
              memory (UInt64.ofNat buf'.length) = some (true, v) := by
      intro room hroom hlimit
      refine ⟨bytes ++ room.drop bytes.length, ?_, fun memory hmemory => ?_⟩
      · simp only [Serializer.storePointer, hstore', Option.bind_eq_bind, Option.bind_some,
          if_pos hroom]
      · refine loadVector_of_reads order env name known hreads ?_ (by simp [hne]) hmemory
        rw [List.length_append, List.length_drop]
        omega
    by_cases hgrow : bytes.length > buf.length
    · simp only [if_pos hgrow, resizeVector, if_pos hshort, Option.bind_some]
      refine hstep _ ?_ ?_
      · rw [List.length_append, List.length_replicate]
        omega
      · rw [List.length_append, List.length_replicate]
        omega
    · simp only [if_neg hgrow]
      exact hstep buf (Nat.le_of_not_gt hgrow) hbuf

/-- A type with bytes does not come back from a store of none. -/
theorem size_ne_zero
    {v : Value} {bytes : List UInt8}
    (hv : env.isObject order name known v)
    (hstore : (env.serializer order name known).store v = some bytes)
    (h : (env.loader order name known).StoresAndLoads (env.sizes name known) v)
    (hbytes : bytes ≠ []) :
    env.sizes name known v ≠ some 0 := by
  have hempty := onEmpty_environment order env name known
  intro hzero
  have hback : ∀ byte : UInt8, ∃ c',
      (env.loader order name known).load (start (fun _ => byte) 1) = .returns v c' := by
    intro byte
    obtain ⟨buf', hbuf', hload⟩ := h [byte] (by rw [List.length_singleton]; decide)
    simp only [Serializer.storeVector, hzero, Option.bind_eq_bind, Option.bind_some,
      if_true] at hbuf'
    obtain rfl := Option.some.inj hbuf'
    exact yields_of_loadVector order env name known (by decide) (hload (fun _ => byte) rfl)
  obtain ⟨c₀, h₀⟩ := hback 0
  obtain ⟨c₁, h₁⟩ := hback 1
  by_cases hsize : env.leastSize name known = some 0
  · -- Store of a type without bytes writes none
    have hnothing := hempty.stores hsize
    rw [← hempty.unique hsize v hv] at hnothing
    refine hbytes (Option.some.inj (hstore.symm.trans ?_))
    rw [← hnothing, ← loader_toSerializer]
    rfl
  · exact hempty.tells hsize rfl rfl h₀ h₁ rfl

/-- Store either leaves the vector as it is or writes the bytes of the object into it,
with room for as many as Size says. -/
theorem storeVector_eq_some
    {serializer : Serializer} {size : Value → Option Nat} {v : Value}
    {buf buf' : List UInt8} {n : Nat}
    (hn : size v = some n)
    (h : serializer.storeVector size v buf = some buf') :
    (n = 0 ∧ buf' = buf) ∨
      ∃ bytes, serializer.store v = some bytes ∧ bytes.length ≤ max n buf.length ∧
        (n > buf.length → n < vectorLimit) ∧ buf'.length = max n buf.length := by
  simp only [Serializer.storeVector, hn, Option.bind_eq_bind, Option.bind_some] at h
  split_ifs at h with hzero hgrow
  · exact .inl ⟨hzero.symm, (Option.some.inj h).symm⟩
  · have hlimit : n < vectorLimit := by
      by_contra hlimit
      rw [resizeVector, if_neg hlimit] at h
      cases h
    simp only [resizeVector, if_pos hlimit, Serializer.storePointer, Option.bind_eq_bind,
      Option.bind_some, Option.bind_eq_some_iff, List.length_append,
      List.length_replicate] at h
    obtain ⟨bytes, hbytes, hrest⟩ := h
    split_ifs at hrest with hroom
    refine .inr ⟨bytes, hbytes, by omega, fun _ => hlimit, ?_⟩
    rw [← Option.some.inj hrest, List.length_append, List.length_drop, List.length_append,
      List.length_replicate]
    omega
  · simp only [Serializer.storePointer, Option.bind_eq_bind, Option.bind_eq_some_iff] at h
    obtain ⟨bytes, hbytes, hrest⟩ := h
    split_ifs at hrest with hroom
    refine .inr ⟨bytes, hbytes, by omega, fun hlt => absurd hlt hgrow, ?_⟩
    rw [← Option.some.inj hrest, List.length_append, List.length_drop]
    omega

/-- What is read back had fitted. -/
theorem storable_of_storesAndLoads
    {v : Value}
    (hv : env.isObject order name known v)
    (h : (env.loader order name known).StoresAndLoads (env.sizes name known) v) :
    env.Storable order name known v := by
  -- a vector with a byte holds some after Store as well, and Load yields the object from it
  have hyields : Yields (env.serializer order name known).load v := by
    obtain ⟨buf', hbuf', hload⟩ := h [0] (by decide)
    obtain ⟨n, hn, -⟩ := Option.bind_eq_some_iff.mp hbuf'
    have hlen : 0 < buf'.length ∧ buf'.length < vectorLimit := by
      unfold vectorLimit
      rcases storeVector_eq_some hn hbuf' with ⟨-, rfl⟩ | ⟨bytes, -, -, hlimit, hlen⟩
      · exact ⟨by decide, by decide⟩
      · unfold vectorLimit at hlimit
        simp only [List.length_singleton] at hlen hlimit
        omega
    have hne : 0 ≠ UInt64.ofNat buf'.length := by
      intro hzero
      have heq := ofNat_length hlen.2
      rw [← hzero] at heq
      exact hlen.1.ne heq
    have hmemory := bytesAt_getD buf'
    obtain ⟨c', hback⟩ := yields_of_loadVector order env name known hne (hload _ hmemory)
    rw [loader_load] at hback
    exact ⟨_, c', hback⟩
  obtain ⟨htyped, hfits⟩ := fitting_environment order env name known v hyields hv
  obtain ⟨bytes, hstore, -⟩ :=
    (serializes_within order (fun _ => True) env name known).restores htyped hfits
  have hstore' : (env.loader order name known).store v = some bytes := by
    rw [← hstore, ← loader_toSerializer]
    rfl
  obtain ⟨n, hn, lost, hsum, hle, hlost⟩ :=
    counts_environment order env name known v bytes hstore
  -- the empty vector is resized to what Size returns, and takes all bytes
  have hroom : bytes.length ≤ n ∧ n < vectorLimit := by
    by_cases hnil : bytes = []
    · have hlt := sizes_lt env name known hn
      rw [hnil, List.length_nil] at hsum hle ⊢
      unfold vectorLimit
      omega
    · have hzero := size_ne_zero order env name known hv hstore h hnil
      obtain ⟨buf', hbuf', -⟩ := h [] (by decide)
      rcases storeVector_eq_some hn hbuf' with ⟨rfl, -⟩ | ⟨bytes', hbytes', hroom, hlimit, -⟩
      · exact absurd hn hzero
      · rw [hstore'] at hbytes'
        obtain rfl := Option.some.inj hbytes'
        have hpos := List.length_pos_of_ne_nil hnil
        simp only [List.length_nil] at hroom hlimit
        exact ⟨by omega, hlimit (by omega)⟩
  have hshort : bytes.length < vectorLimit := lt_of_le_of_lt hroom.1 hroom.2
  refine ⟨htyped, hfits, hlost.mp ?_, fun bytes' hbytes' => ?_⟩
  · unfold vectorLimit at hroom
    omega
  · rw [hstore] at hbytes'
    rw [← Option.some.inj hbytes']
    exact hshort

end Overloads

section Names

variable (order : {declared : List String} → VarType declared → Compare)
variable {declared : List String} {file : IdlFile declared}

theorem loadsAgree_layout
    (hload : file.Forall (NamedDecl.HasFields LoadClear))
    (name : String) (known : name ∈ declared)
    (v : Value) (buf : List UInt8) :
    (file.loader order name known).LoadsAgree v buf ↔
      (file.layout.loader order name known).LoadsAgree v buf := by
  have hlayout := loader_layout order hload name known
  simp only [Loader.LoadsAgree, Loader.loadVector, Loader.loadPointer, hlayout.load, hlayout.left]

theorem storesAndLoads_layout
    (hstore : file.Forall (NamedDecl.HasFields StoreClear))
    (hload : file.Forall (NamedDecl.HasFields LoadClear))
    (name : String) (known : name ∈ declared)
    (size : Value → Option Nat) (v : Value) :
    (file.loader order name known).StoresAndLoads size v ↔
      (file.layout.loader order name known).StoresAndLoads size v := by
  have hlayout := loader_layout order hload name known
  simp only [Loader.StoresAndLoads, Loader.loadVector, Loader.loadPointer, hlayout.load,
    hlayout.left, hlayout.initial, Serializer.storeVector, Serializer.storePointer,
    loader_store_layout order hstore name known]

end Names

/-- A struct Point with a number. -/
def point : IdlFile ["Point"] :=
  .declare .empty "Point" (.message none [⟨"x", .plain (.primitive .int32)⟩])

theorem point_storeClear :
    point.Forall (NamedDecl.HasFields StoreClear) := by
  refine ⟨trivial, ?_⟩
  simp [NamedDecl.HasFields, StoreClear]

theorem point_loadClear :
    point.Forall (NamedDecl.HasFields LoadClear) := by
  refine ⟨trivial, ?_⟩
  simp [NamedDecl.HasFields, LoadClear]

theorem isObject_point
    {n : Nat}
    (hn : n < 2 ^ 32) :
    point.layout.isObject (fun _ => .ofWords) "Point" (by simp) (.record none [.word n]) :=
  ⟨.none, .cons hn .nil⟩

end Idlc
end Gamnet
