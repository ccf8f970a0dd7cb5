import Gamnet.Idlc.LeastSize

/-!
# Types without bytes

A struct without fields, or with fields of such types only, has no bytes. Load takes
nothing for it, Store writes nothing, and all its objects are the one that the
constructor makes.

Every other type is read from the memory: what Load gives differs between a memory of
zeros and a memory of ones. Into an object of such a type Load does not come back from an
empty buffer, or it copies a static array of scalars from behind the end, and leaves what
it finds there.
-/

namespace Gamnet
namespace Idlc

open LittleEndian Reader

/-- No bytes are left, and the memory repeats one byte. -/
structure Blank
    (byte : UInt8)
    (c : Cursor) : Prop where
  size : c.size = 0
  memory : c.memory = fun _ => byte

/-- Nothing can be read from an empty input. -/
theorem Blank.checked
    {byte : UInt8} {c : Cursor} {n : Nat}
    (hc : Blank byte c)
    (hn : 0 < n) :
    checked n c = .fails c := by
  have hzero : c.size.toNat = 0 := congrArg UInt64.toNat hc.size
  rw [Reader.checked, if_pos (by omega)]

/-- A load that begins with a check does not come back. -/
theorem Blank.checked_bind
    {α : Type}
    {byte : UInt8} {c c' : Cursor} {n : Nat}
    {f : List UInt8 → Load α} {a : α}
    (hc : Blank byte c)
    (hn : 0 < n) :
    (Reader.checked n >>= f) c ≠ .returns a c' := by
  rw [bind_of_fails (hc.checked hn)]
  intro h
  cases h

theorem Blank.loadLength_bind
    {α : Type}
    {byte : UInt8} {c c' : Cursor}
    {f : Nat → Load α} {a : α}
    (hc : Blank byte c) :
    (loadLength >>= f) c ≠ .returns a c' := by
  have hlength : loadLength c = .fails c := bind_of_fails (hc.checked (by decide))
  rw [bind_of_fails hlength]
  intro h
  cases h

/-- A load takes nothing and always comes back with the same value. -/
def Idles
    {α : Type}
    (x : Load α)
    (a : α) : Prop :=
  ∀ c, ∃ c', x c = .returns a c' ∧ c'.memory = c.memory ∧ c'.size = c.size

theorem Idles.pure
    {α : Type}
    (a : α) :
    Idles (pure a) a :=
  fun c => ⟨c, rfl, rfl, rfl⟩

/-- What reads nothing, one behind the other. -/
theorem Idles.bind
    {α β : Type}
    {x : Load α} {f : α → Load β} {a : α} {b : β}
    (hx : Idles x a)
    (hf : Idles (f a) b) :
    Idles (x >>= f) b := by
  intro c
  obtain ⟨c₁, hx, hmemory, hsize⟩ := hx c
  obtain ⟨c₂, hf, hmemory', hsize'⟩ := hf c₁
  refine ⟨c₂, ?_, hmemory'.trans hmemory, hsize'.trans hsize⟩
  rw [bind_of_returns hx, hf]

theorem Idles.map
    {α β : Type}
    {x : Load α} {a : α}
    (hx : Idles x a)
    (f : α → β) :
    Idles (x >>= fun a => Pure.pure (f a)) (f a) :=
  hx.bind (.pure (f a))

theorem Idles.many
    {α : Type}
    {x : Load α} {a : α}
    {n : Nat}
    (hx : n ≠ 0 → Idles x a) :
    Idles (many x n) (List.replicate n a) := by
  induction n with
  | zero => exact .pure []
  | succ n ih =>
      have hx := hx (Nat.succ_ne_zero n)
      exact hx.bind ((ih fun _ => hx).map fun as => a :: as)

/-- Loading does not write to the input. -/
theorem Idles.memory
    {α : Type}
    {x : Load α} {a a' : α} {c c' : Cursor}
    (hx : Idles x a)
    (hload : x c = .returns a' c') :
    c'.memory = c.memory := by
  obtain ⟨c₁, hx, hmemory, -⟩ := hx c
  rw [hx] at hload
  cases hload
  exact hmemory

/-- A blank cursor stays blank behind a load that takes nothing. -/
theorem Idles.blank
    {α : Type}
    {x : Load α} {a a' : α} {byte : UInt8} {c c' : Cursor}
    (hx : Idles x a)
    (hc : Blank byte c)
    (hload : x c = .returns a' c') :
    Blank byte c' := by
  obtain ⟨c₁, hx, hmemory, hsize⟩ := hx c
  rw [hx] at hload
  cases hload
  exact ⟨hsize.trans hc.size, hmemory.trans hc.memory⟩

/-- What a load gives depends on the memory. -/
def Tells
    {α : Type}
    (x : Load α) : Prop :=
  ∀ {c₀ c₁ c₀' c₁' : Cursor} {a₀ a₁ : α},
    c₀.memory = (fun _ => 0) → c₁.memory = (fun _ => 1) →
      x c₀ = .returns a₀ c₀' → x c₁ = .returns a₁ c₁' → a₀ ≠ a₁

/-- Load into objects of a type that has no bytes, and into objects of another type. -/
structure OnEmpty
    (store : Value → Option (List UInt8))
    (load : Load Value)
    (left : Value → Cursor → Value)
    (initial : Value)
    (object : Value → Prop)
    (m : Option Nat) : Prop where
  unique : m = some 0 → ∀ v, object v → v = initial
  stores : m = some 0 → store initial = some []
  idles : m = some 0 → Idles load initial
  tells : m ≠ some 0 → Tells load
  differs : m ≠ some 0 → ∀ {c₀ c₁ c₀' c₁' a₀ a₁}, Blank 0 c₀ → Blank 1 c₁ →
    load c₀ = .returns a₀ c₀' → load c₁ = .returns a₁ c₁' →
      ∀ v, object v → left v c₀ ≠ left v c₁

/-- A type that begins with a check has bytes. -/
theorem onEmpty_of_fails
    {store : Value → Option (List UInt8)}
    {load : Load Value}
    {left : Value → Cursor → Value}
    {initial : Value}
    {object : Value → Prop}
    {m : Option Nat}
    (hm : m ≠ some 0)
    (htells : Tells load)
    (hfails : ∀ c a c', Blank 0 c → load c ≠ .returns a c') :
    OnEmpty store load left initial object m where
  unique := fun hzero => absurd hzero hm
  stores := fun hzero => absurd hzero hm
  idles := fun hzero => absurd hzero hm
  tells := fun _ => htells
  differs := fun _ _ _ _ _ _ _ hc₀ _ hload _ => absurd hload (hfails _ _ _ hc₀)

theorem bytesAt_blank
    {byte : UInt8} {memory : Nat → UInt8}
    (hmemory : memory = fun _ => byte)
    (pos n : Nat) :
    bytesAt memory pos n = List.replicate n byte := by
  rw [hmemory, bytesAt, List.map_const', List.length_range]

theorem checked_blank
    {byte : UInt8} {c c' : Cursor} {n : Nat} {bytes : List UInt8}
    (hmemory : c.memory = fun _ => byte)
    (hchecked : checked n c = .returns bytes c') :
    bytes = List.replicate n byte := by
  unfold checked at hchecked
  split_ifs at hchecked with hshort
  cases hchecked
  exact bytesAt_blank hmemory _ _

/-- Two inputs of one repeated byte each are told apart. -/
theorem decode_replicate_ne
    {size : Nat}
    (hsize : 0 < size) :
    decode (List.replicate size 0) ≠ decode (List.replicate size 1) := by
  obtain ⟨k, rfl⟩ := Nat.exists_eq_succ_of_ne_zero hsize.ne'
  simp only [List.replicate_succ, decode]
  change 0 + 256 * _ ≠ 1 + 256 * _
  omega

/-- A word of one byte or more tells the two inputs apart. -/
theorem tells_loadWord
    {size : Nat}
    (hsize : 0 < size) :
    Tells (loadWord size) := by
  intro c₀ c₁ c₀' c₁' a₀ a₁ hc₀ hc₁ h₀ h₁
  obtain ⟨bytes₀, hchecked₀, rfl⟩ := returns_map h₀
  obtain ⟨bytes₁, hchecked₁, rfl⟩ := returns_map h₁
  rw [checked_blank hc₀ hchecked₀, checked_blank hc₁ hchecked₁]
  intro heq
  injection heq with heq
  exact decode_replicate_ne hsize heq

/-- The length in a memory of zeros is zero. -/
theorem length_of_memory_zeros
    {c c' : Cursor} {n : Nat}
    (hc : c.memory = fun _ => 0)
    (hlength : loadLength c = .returns n c') :
    n = 0 := by
  obtain ⟨bytes, hchecked, rfl⟩ := returns_map hlength
  rw [checked_blank hc hchecked]
  rfl

/-- The length in a memory of ones is not zero. -/
theorem length_of_memory_ones
    {c c' : Cursor} {n : Nat}
    (hc : c.memory = fun _ => 1)
    (hlength : loadLength c = .returns n c') :
    n ≠ 0 := by
  obtain ⟨bytes, hchecked, rfl⟩ := returns_map hlength
  rw [checked_blank hc hchecked]
  exact (decode_replicate_ne (by decide : 0 < 4)).symm

theorem tells_string :
    Tells (loadLength >>= fun n => checked n >>= fun bytes => pure (Value.text bytes)) := by
  intro c₀ c₁ c₀' c₁' a₀ a₁ hc₀ hc₁ h₀ h₁
  obtain ⟨n₀, d₀, hlength₀, hrest₀⟩ := returns_bind h₀
  obtain ⟨n₁, d₁, hlength₁, hrest₁⟩ := returns_bind h₁
  obtain ⟨bytes₀, hchecked₀, rfl⟩ := returns_map hrest₀
  obtain ⟨bytes₁, hchecked₁, rfl⟩ := returns_map hrest₁
  have hzero := length_of_memory_zeros hc₀ hlength₀
  have hones := length_of_memory_ones hc₁ hlength₁
  intro heq
  injection heq with heq
  have hlen := congrArg List.length heq
  rw [length_of_checked hchecked₀, length_of_checked hchecked₁] at hlen
  exact hones (hlen.symm.trans hzero)

/-- A container is empty in a memory of zeros, and not in a memory of ones. -/
theorem tells_prefixed
    {α : Type}
    {x : Load α}
    (f : List α → Value)
    (hf : ∀ as, as ≠ [] → f [] ≠ f as) :
    Tells (loadLength >>= fun n => many x n >>= fun as => pure (f as)) := by
  intro c₀ c₁ c₀' c₁' a₀ a₁ hc₀ hc₁ h₀ h₁
  obtain ⟨n₀, d₀, hlength₀, hrest₀⟩ := returns_bind h₀
  obtain ⟨n₁, d₁, hlength₁, hrest₁⟩ := returns_bind h₁
  obtain ⟨as₀, hmany₀, rfl⟩ := returns_map hrest₀
  obtain ⟨as₁, hmany₁, rfl⟩ := returns_map hrest₁
  have hempty : as₀ = [] := by
    rw [← List.length_eq_zero_iff, length_of_many hmany₀, length_of_memory_zeros hc₀ hlength₀]
  have hne : as₁ ≠ [] := by
    rw [← List.length_pos_iff, length_of_many hmany₁]
    exact Nat.pos_of_ne_zero (length_of_memory_ones hc₁ hlength₁)
  rw [hempty]
  exact hf as₁ hne

theorem insert_ne_nil
    (order : Compare)
    (entry : Value × Value)
    (map : List (Value × Value)) :
    order.insert entry map ≠ [] := by
  cases map with
  | nil => simp [Compare.insert]
  | cons other map =>
      unfold Compare.insert
      split_ifs <;> simp

/-- Entries that are inserted make a map that is not empty. -/
theorem insertAll_ne_nil
    (order : Compare)
    {map entries : List (Value × Value)}
    (hne : map ≠ [] ∨ entries ≠ []) :
    order.insertAll map entries ≠ [] := by
  induction entries generalizing map with
  | nil => exact hne.resolve_right fun h => h rfl
  | cons entry entries ih => exact ih (.inl (insert_ne_nil order entry map))

section Declarations

variable (order : {declared : List String} → VarType declared → Compare)
variable {declared : List String}
variable {loaders : Names declared Loader}
variable {object : Names declared (Value → Prop)}
variable {sizes : Names declared (Option Nat)}

/-- All names of a file behave so on an empty buffer. -/
def AllOnEmpty
    (loaders : Names declared Loader)
    (object : Names declared (Value → Prop))
    (sizes : Names declared (Option Nat)) : Prop :=
  ∀ name known, OnEmpty (loaders name known).store (loaders name known).load
    (loaders name known).left (loaders name known).initial (object name known)
    (sizes name known)

theorem PrimitiveType.size_pos
    (type : PrimitiveType) :
    0 < type.size := by
  cases type <;> decide

/-- What the code for a type does on an empty input, if it is so for the named types. -/
theorem onEmpty_varType
    (hnames : AllOnEmpty loaders object sizes)
    (type : VarType declared) :
    OnEmpty (generateVariableStore (serializers loaders) type)
      (generateVariableLoad order (serializers loaders) type) (type.left order loaders)
      (type.initial loaders) (type.isObject order object) (type.leastSize sizes) := by
  cases type with
  | primitive type =>
      refine onEmpty_of_fails ?_ (tells_loadWord type.size_pos) fun c a c' hc =>
        hc.checked_bind type.size_pos
      exact fun hzero => absurd (Option.some.inj hzero) type.size_pos.ne'
  | userDefine name known => exact hnames name known
  | string =>
      exact onEmpty_of_fails (by simp [VarType.leastSize]) tells_string
        fun c a c' hc => hc.loadLength_bind
  | list elmtType =>
      exact onEmpty_of_fails (by simp [VarType.leastSize])
        (tells_prefixed Value.seq fun as hne heq => hne (Value.seq.inj heq).symm)
        fun c a c' hc => hc.loadLength_bind
  | array elmtType =>
      exact onEmpty_of_fails (by simp [VarType.leastSize])
        (tells_prefixed Value.seq fun as hne heq => hne (Value.seq.inj heq).symm)
        fun c a c' hc => hc.loadLength_bind
  | map keyType elmtType =>
      refine onEmpty_of_fails (by simp [VarType.leastSize])
        (tells_prefixed (fun entries => Value.map ((order keyType).insertAll [] entries))
          fun as hne heq => ?_)
        fun c a c' hc => hc.loadLength_bind
      exact insertAll_ne_nil (order keyType) (.inr hne) (Value.map.inj heq).symm

/-- The first of the scalars that are copied from a memory of one byte. -/
theorem words_blank
    {byte : UInt8} {c : Cursor} {size n : Nat}
    (hc : c.memory = fun _ => byte) :
    words size (n + 1) (bytesAt c.memory c.pos (size * (n + 1))) =
      .word (decode (List.replicate size byte)) ::
        words size n ((bytesAt c.memory c.pos (size * (n + 1))).drop size) := by
  have hbytes := bytesAt_blank hc c.pos (size * (n + 1))
  have htake : min size (size * (n + 1)) = size :=
    Nat.min_eq_left (Nat.le_mul_of_pos_right size (Nat.succ_pos n))
  rw [words, hbytes, List.take_replicate, htake]

/-- An array of one element or more tells the two inputs apart. -/
theorem tells_scalars
    {elmtType : VarType declared} {type : PrimitiveType} {elmtCount : Nat}
    (hprim : elmtType.primitive? = some type)
    (hsize : some (type.size * elmtCount) ≠ some 0) :
    Tells (generateFieldLoad order (serializers loaders) (.staticArray elmtType elmtCount)) := by
  intro c₀ c₁ c₀' c₁' a₀ a₁ hc₀ hc₁ h₀ h₁
  obtain ⟨n, rfl⟩ : ∃ n, elmtCount = n + 1 := by
    refine Nat.exists_eq_succ_of_ne_zero fun hcount => hsize ?_
    rw [hcount, Nat.mul_zero]
  simp only [generateFieldLoad, hprim] at h₀ h₁
  obtain ⟨bytes₀, hcopy₀, rfl⟩ := returns_map h₀
  obtain ⟨bytes₁, hcopy₁, rfl⟩ := returns_map h₁
  cases hcopy₀
  cases hcopy₁
  rw [words_blank hc₀, words_blank hc₁]
  intro heq
  injection heq with heq
  injection heq with heq
  injection heq with heq
  exact decode_replicate_ne type.size_pos heq

theorem onEmpty_scalars
    {elmtType : VarType declared} {type : PrimitiveType} {elmtCount : Nat}
    (hprim : elmtType.primitive? = some type) :
    OnEmpty (generateFieldStore (serializers loaders) (.staticArray elmtType elmtCount))
      (generateFieldLoad order (serializers loaders) (.staticArray elmtType elmtCount))
      (FieldType.left order loaders (.staticArray elmtType elmtCount))
      (FieldType.initial loaders (.staticArray elmtType elmtCount))
      (FieldType.isObject order object (.staticArray elmtType elmtCount))
      (some (type.size * elmtCount)) := by
  have hzero : some (type.size * elmtCount) = some 0 → elmtCount = 0 := fun h =>
    (Nat.mul_eq_zero.mp (Option.some.inj h)).resolve_left type.size_pos.ne'
  constructor
  · intro h v hv
    obtain rfl := hzero h
    cases v with
    | seq elmts => rw [List.length_eq_zero_iff.mp hv.1]; rfl
    | _ => exact hv.elim
  · intro h
    obtain rfl := hzero h
    simp [generateFieldStore, hprim, FieldType.initial, storeAll]
  · intro h c
    obtain rfl := hzero h
    simp only [generateFieldLoad, hprim, FieldType.initial]
    refine ⟨skip (type.size * 0) c, rfl, rfl, ?_⟩
    simp [skip]
  · exact tells_scalars order hprim
  · intro h c₀ c₁ c₀' c₁' a₀ a₁ hc₀ hc₁ h₀ h₁ v _
    simp only [FieldType.left, hprim]
    rw [assigned_of_returns h₀, assigned_of_returns h₁]
    exact tells_scalars order hprim h hc₀.memory hc₁.memory h₀ h₁

/-- The first elements that a loop loads differ. -/
theorem many_ne
    {x : Load Value} {n : Nat} {c₀ c₁ c₀' c₁' : Cursor} {as₀ as₁ : List Value}
    (hx : Tells x)
    (hc₀ : c₀.memory = fun _ => 0)
    (hc₁ : c₁.memory = fun _ => 1)
    (hn : n ≠ 0)
    (h₀ : many x n c₀ = .returns as₀ c₀')
    (h₁ : many x n c₁ = .returns as₁ c₁')
    (rest₀ rest₁ : List Value) :
    as₀ ++ rest₀ ≠ as₁ ++ rest₁ := by
  obtain ⟨n, rfl⟩ := Nat.exists_eq_succ_of_ne_zero hn
  obtain ⟨a₀, _, hfirst₀, hrest₀⟩ := returns_bind h₀
  obtain ⟨a₁, _, hfirst₁, hrest₁⟩ := returns_bind h₁
  obtain ⟨as₀, -, rfl⟩ := returns_map hrest₀
  obtain ⟨as₁, -, rfl⟩ := returns_map hrest₁
  intro heq
  exact hx hc₀ hc₁ hfirst₀ hfirst₁ (List.cons.inj heq).1

/-- Elements without bytes are stored as none. -/
theorem storeAll_nothing
    {store : Value → Option (List UInt8)} {v : Value} {n : Nat}
    (hstore : n ≠ 0 → store v = some []) :
    storeAll store (List.replicate n v) = some [] := by
  induction n with
  | zero => rfl
  | succ n ih =>
      have hstore := hstore (Nat.succ_ne_zero n)
      simp [List.replicate_succ, storeAll, hstore, ih fun _ => hstore]

/-- The elements of a static array without bytes have none. -/
theorem hollow_elmt
    {n : Nat} {m : Option Nat}
    (h : (if n < counterLimit then timesLeast n m else none) = some 0)
    (hn : n ≠ 0) :
    m = some 0 := by
  split_ifs at h with hlimit
  rw [timesLeast, if_neg hn] at h
  obtain ⟨k, rfl, hk⟩ := Option.map_eq_some_iff.mp h
  rw [(Nat.mul_eq_zero.mp hk).resolve_left hn]

theorem counted_of_hollow
    {n : Nat} {m : Option Nat}
    (h : (if n < counterLimit then timesLeast n m else none) = some 0) :
    n < counterLimit := by
  by_contra hlimit
  rw [if_neg hlimit] at h
  cases h

/-- A static array with bytes has elements, and these have bytes. -/
theorem not_hollow_elmt
    {n : Nat} {m : Option Nat}
    (hlimit : n < counterLimit)
    (h : (if n < counterLimit then timesLeast n m else none) ≠ some 0) :
    n ≠ 0 ∧ m ≠ some 0 := by
  rw [if_pos hlimit] at h
  constructor
  · rintro rfl
    exact h rfl
  · rintro rfl
    refine h ?_
    unfold timesLeast
    split_ifs <;> rfl

/-- What the code for a field does on an empty input. -/
theorem onEmpty_field
    (hnames : AllOnEmpty loaders object sizes)
    (field : FieldType declared) :
    OnEmpty (generateFieldStore (serializers loaders) field)
      (generateFieldLoad order (serializers loaders) field) (field.left order loaders)
      (field.initial loaders) (field.isObject order object) (field.leastSize sizes) := by
  cases field with
  | plain type => exact onEmpty_varType order hnames type
  | staticArray elmtType elmtCount =>
      have helmt := onEmpty_varType order hnames elmtType
      cases hprim : elmtType.primitive? with
      | some type =>
          simp only [FieldType.leastSize, hprim]
          exact onEmpty_scalars order hprim
      | none =>
          simp only [FieldType.leastSize, hprim]
          constructor
          · intro h v hv
            cases v with
            | seq elmts =>
                refine congrArg Value.seq (List.eq_replicate_iff.mpr ⟨hv.1, fun v hmem => ?_⟩)
                refine helmt.unique (hollow_elmt h ?_) v (hv.2 v hmem)
                rw [← hv.1]
                exact (List.length_pos_of_mem hmem).ne'
            | _ => exact hv.elim
          · intro h
            simp only [generateFieldStore, FieldType.initial, hprim, List.length_replicate,
              if_true, if_pos (counted_of_hollow h)]
            exact storeAll_nothing fun hcount => helmt.stores (hollow_elmt h hcount)
          · intro h
            have hlimit := counted_of_hollow h
            have hmany : Idles (many (generateVariableLoad order (serializers loaders) elmtType)
                elmtCount) (List.replicate elmtCount (elmtType.initial loaders)) :=
              Idles.many fun hcount => helmt.idles (hollow_elmt h hcount)
            simp only [generateFieldLoad, hprim, counted, if_pos hlimit]
            exact hmany.map Value.seq
          · intro h c₀ c₁ c₀' c₁' a₀ a₁ hc₀ hc₁ h₀ h₁ heq
            simp only [generateFieldLoad, hprim] at h₀ h₁
            obtain ⟨as₀, hcounted₀, rfl⟩ := returns_map h₀
            obtain ⟨as₁, hcounted₁, rfl⟩ := returns_map h₁
            obtain ⟨hlimit, hmany₀⟩ := returns_counted hcounted₀
            obtain ⟨hcount, hsize⟩ := not_hollow_elmt hlimit h
            refine many_ne (helmt.tells hsize) hc₀ hc₁ hcount hmany₀
              (returns_counted hcounted₁).2 [] [] ?_
            rw [Value.seq.inj heq]
          · intro h c₀ c₁ c₀' c₁' a₀ a₁ hc₀ hc₁ h₀ h₁ v _ heq
            simp only [generateFieldLoad, hprim] at h₀ h₁
            obtain ⟨as₀, hcounted₀, rfl⟩ := returns_map h₀
            obtain ⟨as₁, hcounted₁, rfl⟩ := returns_map h₁
            obtain ⟨hlimit, hmany₀⟩ := returns_counted hcounted₀
            obtain ⟨-, hmany₁⟩ := returns_counted hcounted₁
            obtain ⟨hcount, hsize⟩ := not_hollow_elmt hlimit h
            simp only [FieldType.left, hprim, collected_of_returns hmany₀,
              collected_of_returns hmany₁] at heq
            exact many_ne (helmt.tells hsize) hc₀.memory hc₁.memory hcount hmany₀ hmany₁ _ _
              (Value.seq.inj heq)

theorem sumLeast_eq_zero
    {m k : Option Nat} :
    sumLeast m k = some 0 ↔ m = some 0 ∧ k = some 0 := by
  constructor
  · intro h
    obtain ⟨n₁, n₂, rfl, rfl, hsum⟩ := sumLeast_eq_some h
    exact ⟨congrArg some (by omega), congrArg some (by omega)⟩
  · rintro ⟨rfl, rfl⟩
    rfl

theorem fields_unique
    (hnames : AllOnEmpty loaders object sizes)
    {fields : List (FieldType declared)} {values : List Value}
    (hzero : leastFields sizes fields = some 0)
    (hvalues : List.Forall₂ (FieldType.isObject order object) fields values) :
    values = fields.map fun field => field.initial loaders := by
  induction hvalues with
  | nil => rfl
  | cons hv _ ih =>
      obtain ⟨hfirst, hrest⟩ := sumLeast_eq_zero.mp hzero
      rw [List.map_cons, (onEmpty_field order hnames _).unique hfirst _ hv, ← ih hrest]

include order in
theorem fields_nothing
    (hnames : AllOnEmpty loaders object sizes)
    {fields : List (FieldType declared)}
    (hzero : leastFields sizes fields = some 0) :
    storeFields (serializers loaders) fields
      (fields.map fun field => field.initial loaders) = some [] := by
  induction fields with
  | nil => rfl
  | cons field fields ih =>
      obtain ⟨hfirst, hrest⟩ := sumLeast_eq_zero.mp hzero
      simp [storeFields, (onEmpty_field order hnames field).stores hfirst, ih hrest]

theorem fields_idle
    (hnames : AllOnEmpty loaders object sizes)
    {fields : List (FieldType declared)}
    (hzero : leastFields sizes fields = some 0) :
    Idles (loadFields order (serializers loaders) fields)
      (fields.map fun field => field.initial loaders) := by
  induction fields with
  | nil => exact .pure []
  | cons field fields ih =>
      obtain ⟨hfirst, hrest⟩ := sumLeast_eq_zero.mp hzero
      exact ((onEmpty_field order hnames field).idles hfirst).bind
        ((ih hrest).map fun values => field.initial loaders :: values)

/-- The first field that has bytes differs. -/
theorem fields_tell
    (hnames : AllOnEmpty loaders object sizes)
    {fields : List (FieldType declared)}
    (hzero : leastFields sizes fields ≠ some 0) :
    Tells (loadFields order (serializers loaders) fields) := by
  induction fields with
  | nil => exact absurd rfl hzero
  | cons field fields ih =>
      intro c₀ c₁ c₀' c₁' values₀ values₁ hc₀ hc₁ h₀ h₁ heq
      obtain ⟨v₀, d₀, hfield₀, hrest₀⟩ := returns_bind h₀
      obtain ⟨v₁, d₁, hfield₁, hrest₁⟩ := returns_bind h₁
      obtain ⟨tail₀, hfields₀, rfl⟩ := returns_map hrest₀
      obtain ⟨tail₁, hfields₁, rfl⟩ := returns_map hrest₁
      have hempty := onEmpty_field order hnames field
      by_cases hfirst : field.leastSize sizes = some 0
      · have hrest : leastFields sizes fields ≠ some 0 := fun hrest =>
          hzero (sumLeast_eq_zero.mpr ⟨hfirst, hrest⟩)
        have hmemory₀ := (hempty.idles hfirst).memory hfield₀
        have hmemory₁ := (hempty.idles hfirst).memory hfield₁
        exact ih hrest (hmemory₀.trans hc₀) (hmemory₁.trans hc₁) hfields₀ hfields₁
          (List.cons.inj heq).2
      · exact hempty.tells hfirst hc₀ hc₁ hfield₀ hfield₁ (List.cons.inj heq).1

/-- Some field has bytes, so that two inputs leave different objects. -/
theorem fields_differ
    (hnames : AllOnEmpty loaders object sizes)
    {fields : List (FieldType declared)} {values : List Value}
    (hzero : leastFields sizes fields ≠ some 0)
    (hvalues : List.Forall₂ (FieldType.isObject order object) fields values)
    {c₀ c₁ c₀' c₁' : Cursor} {values₀ values₁ : List Value}
    (hc₀ : Blank 0 c₀)
    (hc₁ : Blank 1 c₁)
    (h₀ : loadFields order (serializers loaders) fields c₀ = .returns values₀ c₀')
    (h₁ : loadFields order (serializers loaders) fields c₁ = .returns values₁ c₁') :
    leftFields order loaders fields values c₀ ≠ leftFields order loaders fields values c₁ := by
  induction hvalues generalizing c₀ c₁ c₀' c₁' values₀ values₁ with
  | nil => exact absurd rfl hzero
  | @cons field v fields values hv _ ih =>
      obtain ⟨v₀, d₀, hfield₀, hrest₀⟩ := returns_bind h₀
      obtain ⟨v₁, d₁, hfield₁, hrest₁⟩ := returns_bind h₁
      obtain ⟨tail₀, hfields₀, rfl⟩ := returns_map hrest₀
      obtain ⟨tail₁, hfields₁, rfl⟩ := returns_map hrest₁
      have hempty := onEmpty_field order hnames field
      rw [leftFields, leftFields, reached_of_returns hfield₀, reached_of_returns hfield₁]
      intro heq
      by_cases hfirst : field.leastSize sizes = some 0
      · have hidles := hempty.idles hfirst
        have hrest : leastFields sizes fields ≠ some 0 := fun hrest =>
          hzero (sumLeast_eq_zero.mpr ⟨hfirst, hrest⟩)
        exact ih hrest (hidles.blank hc₀ hfield₀) (hidles.blank hc₁ hfield₁) hfields₀ hfields₁
          (List.cons.inj heq).2
      · exact hempty.differs hfirst hc₀ hc₁ hfield₀ hfield₁ v hv (List.cons.inj heq).1

theorem onEmpty_message_none
    (hnames : AllOnEmpty loaders object sizes)
    (fields : List (FieldType declared)) :
    OnEmpty (compileLoader order loaders (.message none fields)).store
      (compileLoader order loaders (.message none fields)).load
      (Decl.left order loaders (.message none fields))
      (Decl.initial loaders (.message none fields))
      (Decl.isObject order object (.message none fields))
      (Decl.leastSize sizes (.message none fields)) := by
  constructor
  · intro h v hv
    cases v with
    | record parentValue values =>
        obtain ⟨hparent, hvalues⟩ := hv
        cases hparent
        exact congrArg (Value.record none) (fields_unique order hnames h hvalues)
    | _ => exact hv.elim
  · intro h
    exact fields_nothing order hnames h
  · intro h
    exact (fields_idle order hnames h).map (Value.record none)
  · intro h c₀ c₁ c₀' c₁' a₀ a₁ hc₀ hc₁ h₀ h₁ heq
    obtain ⟨values₀, hfields₀, rfl⟩ := returns_map h₀
    obtain ⟨values₁, hfields₁, rfl⟩ := returns_map h₁
    exact fields_tell order hnames h hc₀ hc₁ hfields₀ hfields₁ (Value.record.inj heq).2
  · intro h c₀ c₁ c₀' c₁' a₀ a₁ hc₀ hc₁ h₀ h₁ v hv
    obtain ⟨values₀, hfields₀, rfl⟩ := returns_map h₀
    obtain ⟨values₁, hfields₁, rfl⟩ := returns_map h₁
    cases v with
    | record parentValue values =>
        obtain ⟨hparent, hvalues⟩ := hv
        cases hparent
        exact fun heq => fields_differ order hnames h hvalues hc₀ hc₁ hfields₀ hfields₁
          (Value.record.inj heq).2
    | _ => exact hv.elim

/-- The parent is loaded before the fields, so that a parent that takes no bytes leaves the
question to them. -/
theorem onEmpty_message_some
    (hnames : AllOnEmpty loaders object sizes)
    (base : {name : String // name ∈ declared})
    (fields : List (FieldType declared)) :
    OnEmpty (compileLoader order loaders (.message (some base) fields)).store
      (compileLoader order loaders (.message (some base) fields)).load
      (Decl.left order loaders (.message (some base) fields))
      (Decl.initial loaders (.message (some base) fields))
      (Decl.isObject order object (.message (some base) fields))
      (Decl.leastSize sizes (.message (some base) fields)) := by
  have hbase := hnames base.1 (mem_declared base)
  constructor
  · intro h v hv
    obtain ⟨hfirst, hrest⟩ := sumLeast_eq_zero.mp h
    cases v with
    | record parentValue values =>
        obtain ⟨hparent, hvalues⟩ := hv
        obtain ⟨hparent⟩ := hparent
        rw [hbase.unique hfirst _ hparent, fields_unique order hnames hrest hvalues]
        rfl
    | _ => exact hv.elim
  · intro h
    obtain ⟨hfirst, hrest⟩ := sumLeast_eq_zero.mp h
    have hparent : (serializers loaders base.1 (mem_declared base)).store
        (loaders base.1 (mem_declared base)).initial = some [] := hbase.stores hfirst
    simp [compileLoader, compileDecl, compileMessage, Decl.initial, hparent,
      fields_nothing order hnames hrest]
  · intro h
    obtain ⟨hfirst, hrest⟩ := sumLeast_eq_zero.mp h
    exact (hbase.idles hfirst).bind
      ((fields_idle order hnames hrest).map (Value.record (some _)))
  · intro h c₀ c₁ c₀' c₁' a₀ a₁ hc₀ hc₁ h₀ h₁ heq
    obtain ⟨v₀, d₀, hbase₀, hrest₀⟩ := returns_bind h₀
    obtain ⟨v₁, d₁, hbase₁, hrest₁⟩ := returns_bind h₁
    obtain ⟨values₀, hfields₀, rfl⟩ := returns_map hrest₀
    obtain ⟨values₁, hfields₁, rfl⟩ := returns_map hrest₁
    by_cases hfirst : sizes base.1 (mem_declared base) = some 0
    · have hrest : leastFields sizes fields ≠ some 0 := fun hrest =>
        h (sumLeast_eq_zero.mpr ⟨hfirst, hrest⟩)
      have hmemory₀ := (hbase.idles hfirst).memory hbase₀
      have hmemory₁ := (hbase.idles hfirst).memory hbase₁
      exact fields_tell order hnames hrest (hmemory₀.trans hc₀) (hmemory₁.trans hc₁)
        hfields₀ hfields₁ (Value.record.inj heq).2
    · exact hbase.tells hfirst hc₀ hc₁ hbase₀ hbase₁
        (Option.some.inj (Value.record.inj heq).1)
  · intro h c₀ c₁ c₀' c₁' a₀ a₁ hc₀ hc₁ h₀ h₁ v hv
    obtain ⟨v₀, d₀, hbase₀, hrest₀⟩ := returns_bind h₀
    obtain ⟨v₁, d₁, hbase₁, hrest₁⟩ := returns_bind h₁
    obtain ⟨values₀, hfields₀, rfl⟩ := returns_map hrest₀
    obtain ⟨values₁, hfields₁, rfl⟩ := returns_map hrest₁
    have hload₀ : (loaders base.1 (mem_declared base)).load c₀ = .returns v₀ d₀ := hbase₀
    have hload₁ : (loaders base.1 (mem_declared base)).load c₁ = .returns v₁ d₁ := hbase₁
    cases v with
    | record parentValue values =>
        obtain ⟨hparent, hvalues⟩ := hv
        obtain ⟨hparent⟩ := hparent
        simp only [Decl.left, reached_of_returns hload₀, reached_of_returns hload₁]
        intro heq
        by_cases hfirst : sizes base.1 (mem_declared base) = some 0
        · have hidles := hbase.idles hfirst
          have hrest : leastFields sizes fields ≠ some 0 := fun hrest =>
            h (sumLeast_eq_zero.mpr ⟨hfirst, hrest⟩)
          exact fields_differ order hnames hrest hvalues (hidles.blank hc₀ hload₀)
            (hidles.blank hc₁ hload₁) hfields₀ hfields₁ (Value.record.inj heq).2
        · exact hbase.differs hfirst hc₀ hc₁ hload₀ hload₁ _ hparent
            (Option.some.inj (Value.record.inj heq).1)
    | _ => exact hv.elim

theorem onEmpty_message
    (hnames : AllOnEmpty loaders object sizes)
    (parent : Option {name : String // name ∈ declared})
    (fields : List (FieldType declared)) :
    OnEmpty (compileLoader order loaders (.message parent fields)).store
      (compileLoader order loaders (.message parent fields)).load
      (Decl.left order loaders (.message parent fields))
      (Decl.initial loaders (.message parent fields))
      (Decl.isObject order object (.message parent fields))
      (Decl.leastSize sizes (.message parent fields)) := by
  cases parent with
  | none => exact onEmpty_message_none order hnames fields
  | some base => exact onEmpty_message_some order hnames base fields

theorem onEmpty_decl
    (hnames : AllOnEmpty loaders object sizes)
    (decl : Decl declared) :
    OnEmpty (compileLoader order loaders decl).store (compileLoader order loaders decl).load
      (compileLoader order loaders decl).left (compileLoader order loaders decl).initial
      (decl.isObject order object) (decl.leastSize sizes) := by
  cases decl with
  | enum numbers =>
      have hpos : 0 < enumSize numbers := by
        unfold enumSize
        split_ifs <;> decide
      refine onEmpty_of_fails ?_ (tells_loadWord hpos) fun c a c' hc => hc.checked_bind hpos
      exact fun hzero => absurd (Option.some.inj hzero) hpos.ne'
  | typedef type => exact onEmpty_varType order hnames type
  | message parent fields => exact onEmpty_message order hnames parent fields

/-- Every message on an empty input. By induction on the file. -/
theorem onEmpty_environment
    (env : Environment declared) :
    AllOnEmpty (env.loader order) (env.isObject order) env.leastSize := by
  intro name known
  exact env.compile_related₃
    (fun (loader : Loader) object m =>
      OnEmpty loader.store loader.load loader.left loader.initial object m)
    (fun _ _ _ hnames decl => onEmpty_decl order hnames decl) name known

end Declarations

end Idlc
end Gamnet
