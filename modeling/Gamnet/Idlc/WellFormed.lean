import Gamnet.Idlc.Capture

/-!
# Well-formed output of the generators

The emitted code for a field is well formed if the names that it declares are identifiers,
and if each variable is known where it is used and declared as it is used.

TranslateVariableType of C++ forgets that a variable is a static array, and both generators
splice the text of an element, x[i] or x[x_itr], into names. So no static array may occur
below the type of the field, and the elements of a static array may only be primitive or
user-defined.
-/

namespace Gamnet
namespace Idlc
namespace Emission

open Scope Scope.Code

/-- The variable that an expression begins with. -/
def Operand.root : Operand → Text
  | .field name => name
  | .var name => name
  | .index base _ => base.root

/-- The shape of an expression. Only an array of the right dimension has elements. -/
def resolve (scope : List (Text × Shape)) : Operand → Option Shape
  | .field name => lookup scope name
  | .var name => lookup scope name
  | .index base count =>
      match resolve scope base with
      | some (.fixed elmt dimension) => if dimension = count then some elmt else none
      | _ => none

/-- The variable is declared as it is used. -/
def WellUsed (scope : List (Text × Shape)) (a : Operand × Use) : Prop :=
  ∃ shape, resolve scope a.1 = some shape ∧ shape.use = a.2

/-- The names are identifiers, and the variables are used as they are declared. -/
def WellFormed (scope : List (Text × Shape)) (code : Code) : Prop :=
  code.Meets (fun name _ => isVarName name = true) WellUsed scope

section Resolve

variable {scope : List (Text × Shape)} {operand : Operand} {shape : Shape} {name t : Text}

/-- An operand is resolved by its root. -/
theorem resolve_of_lookup_root
    {inner : List (Text × Shape)}
    (h : lookup inner operand.root = lookup scope operand.root) :
    resolve inner operand = resolve scope operand := by
  induction operand with
  | field name => exact h
  | var name => exact h
  | index base count ih => rw [resolve, resolve, ih h]

theorem resolve_cons_of_ne
    (hne : operand.root ≠ name)
    (kind : Shape) :
    resolve ((name, kind) :: scope) operand = resolve scope operand :=
  resolve_of_lookup_root (lookup_cons_of_ne hne kind scope)

theorem resolve_append_of_notMem
    {inner : List (Text × Shape)}
    (h : operand.root ∉ names inner) :
    resolve (inner ++ scope) operand = resolve scope operand :=
  resolve_of_lookup_root (lookup_append_of_notMem h scope)

@[simp] theorem resolve_var_self
    (name : Text) (kind : Shape) :
    resolve ((name, kind) :: scope) (.var name) = some kind :=
  lookup_cons_self name kind scope

theorem resolve_index
    {elmt : Shape} {count : Text}
    (h : resolve scope operand = some (.fixed elmt count)) :
    resolve scope (.index operand count) = some elmt := by
  simp [resolve, h]

/-- Only an array of the dimension has elements. -/
theorem resolve_of_index
    {count : Text}
    (h : resolve scope (.index operand count) = some shape) :
    resolve scope operand = some (.fixed shape count) := by
  unfold resolve at h
  split at h
  · next elmt dimension hbase =>
      split_ifs at h with hcount
      cases h
      rw [hbase, hcount]
  · cases h

/-- An operand may be used as its shape says. -/
theorem wellUsed_of_resolve
    (h : resolve scope operand = some shape) :
    WellUsed scope (operand, shape.use) :=
  ⟨shape, h, rfl⟩

/-- An operand is used in one way only. -/
theorem use_of_wellUsed
    {use : Use}
    (h : resolve scope operand = some shape)
    (hused : WellUsed scope (operand, use)) :
    shape.use = use := by
  obtain ⟨found, hfound, huse⟩ := hused
  rw [h] at hfound
  cases hfound
  exact huse

@[simp] theorem wellUsed_var_self
    {use : Use}
    (name : Text) (kind : Shape) :
    WellUsed ((name, kind) :: scope) (.var name, use) ↔ kind.use = use := by
  simp [WellUsed]

/-- Another variable does not matter. -/
theorem wellUsed_cons_of_ne
    {use : Use}
    (hne : operand.root ≠ name)
    (kind : Shape) :
    WellUsed ((name, kind) :: scope) (operand, use) ↔ WellUsed scope (operand, use) := by
  simp only [WellUsed, resolve_cons_of_ne hne]

theorem wellUsed_cons_cons_of_ne
    {outer : Text} {use : Use}
    (hne : operand.root ≠ outer)
    (kind outerKind : Shape) :
    WellUsed ((name, kind) :: (outer, outerKind) :: scope) (operand, use) ↔
      WellUsed ((name, kind) :: scope) (operand, use) := by
  have hlookup : lookup ((name, kind) :: (outer, outerKind) :: scope) operand.root =
      lookup ((name, kind) :: scope) operand.root := by
    simp only [lookup, hne, if_false]
  simp only [WellUsed, resolve_of_lookup_root hlookup]

theorem wellUsed_append_of_notMem
    {inner : List (Text × Shape)} {use : Use}
    (h : operand.root ∉ names inner) :
    WellUsed (inner ++ scope) (operand, use) ↔ WellUsed scope (operand, use) := by
  simp only [WellUsed, resolve_append_of_notMem h]

/-- What follows a name may extend it. -/
theorem isVarName_append
    (ht : isVarName t = true)
    (suffix : Suffix) :
    isVarName (t ++ suffix.text) = true := by
  cases t with
  | nil => cases ht
  | cons c cs =>
      simp only [isVarName, Bool.and_eq_true, List.cons_append, List.all_append] at ht ⊢
      exact ⟨ht.1, ht.2, suffix.legal⟩

end Resolve

/-- A static array occurs in the type. -/
def TypeExpr.hasStaticArray : TypeExpr → Bool
  | .list elmtType => elmtType.hasStaticArray
  | .array elmtType => elmtType.hasStaticArray
  | .map keyType elmtType => keyType.hasStaticArray || elmtType.hasStaticArray
  | .staticArray _ _ => true
  | _ => false

/-- No static array occurs in the type, or the type is a static array of primitive or of
user-defined elements. -/
def TypeExpr.isFlat : TypeExpr → Bool
  | .staticArray (.primitive _) _ => true
  | .staticArray (.userDefine _) _ => true
  | type => !type.hasStaticArray

/-- The counter of a static array is a legal name. -/
theorem isVarName_iName : isVarName iName = true := by
  decide

section Necessary

variable {scope : List (Text × Shape)} {v : Variable}

/-- No name with a suffix is the counter of a loop. -/
theorem append_ne_iName
    (t : Text) (suffix : Suffix) :
    t ++ suffix.text ≠ iName := by
  intro h
  have hlong := suffix.long
  have hlen := congrArg List.length h
  rw [List.length_append] at hlen
  change t.length + suffix.text.length = 1 at hlen
  omega

/-- The locals for an element are no names: their text has brackets. -/
theorem not_isVarName_element
    (v : Variable) (loop count : Text) (suffix : Suffix) :
    isVarName ((v.element loop count).text ++ suffix.text) = false := by
  refine Bool.eq_false_iff.mpr fun h => ?_
  exact notMem_of_isVarName (c := '[') ⟨_, h⟩ (by decide) (by simp [Variable.element])

namespace Cpp

theorem wellFormed_storeContainer_iff
    {use : Use} {elmtShape : Shape} {store : Variable → Code}
    (hlen : v.operand.root.length ≤ v.text.length) :
    WellFormed scope (storeContainer use elmtShape v store) ↔
      isVarName (v.text ++ sizeSuffix.text) = true ∧
      isVarName (v.text ++ itrSuffix.text) = true ∧
      isVarName (v.text ++ elmtSuffix.text) = true ∧
      WellUsed scope (v.operand, use) ∧
      WellFormed
        ((v.text ++ elmtSuffix.text, elmtShape) :: (v.text ++ itrSuffix.text, .iterator) ::
          (v.text ++ sizeSuffix.text, .scalar) :: scope)
        (store (.var (v.text ++ elmtSuffix.text))) := by
  have hsize : v.operand.root ≠ v.text ++ sizeSuffix.text := ne_append hlen _
  have hitr : v.operand.root ≠ v.text ++ itrSuffix.text := ne_append hlen _
  have hvar : (Operand.var (v.text ++ itrSuffix.text)).root ≠ v.text ++ elmtSuffix.text := by
    simp [Operand.root, itrSuffix, elmtSuffix]
  simp [WellFormed, storeContainer, wellUsed_cons_of_ne, hsize, hitr, hvar, Shape.use]
  tauto

/-- What Store of a map knows when it comes to a key. -/
def storeMapScope (keyType elmtType : TypeExpr) (t : Text)
    (scope : List (Text × Shape)) : List (Text × Shape) :=
  (t ++ elmtSuffix.text, translateVariableType elmtType) ::
    (t ++ keySuffix.text, translateVariableType keyType) ::
      (t ++ itrSuffix.text, .iterator) :: (t ++ sizeSuffix.text, .scalar) :: scope

theorem resolve_storeMapScope_key
    (keyType elmtType : TypeExpr) (t : Text) :
    resolve (storeMapScope keyType elmtType t scope) (.var (t ++ keySuffix.text)) =
      some (translateVariableType keyType) := by
  have hne : (Operand.var (t ++ keySuffix.text)).root ≠ t ++ elmtSuffix.text := by
    simp [Operand.root, keySuffix, elmtSuffix]
  exact (resolve_cons_of_ne hne _).trans (resolve_var_self _ _)

/-- What Store of a map knows when it comes to an element. -/
theorem resolve_storeMapScope_elmt
    {keyType : TypeExpr} (elmtType : TypeExpr) {t : Text}
    (hkey : isVarName (t ++ keySuffix.text) = true) :
    resolve
        ((generateVariableStore keyType (.var (t ++ keySuffix.text))).declared ++
          storeMapScope keyType elmtType t scope)
        (.var (t ++ elmtSuffix.text)) =
      some (translateVariableType elmtType) := by
  have hspecial : replaceSpecialChar (t ++ keySuffix.text) = t ++ keySuffix.text :=
    replaceSpecialChar_varName ⟨_, hkey⟩
  have hne : elmtSuffix.text ≠ keySuffix.text ++ sizeSuffix.text := by decide
  have hnotMem : t ++ elmtSuffix.text ∉
      names (generateVariableStore keyType (.var (t ++ keySuffix.text))).declared := by
    rw [declared_store]
    cases keyType with
    | string => simp [Variable.var, hspecial, hne]
    | _ => simp [Variable.var, measured, hne]
  exact (resolve_append_of_notMem hnotMem).trans (resolve_var_self _ _)

theorem wellFormed_store_map_iff
    {keyType elmtType : TypeExpr}
    (hlen : v.operand.root.length ≤ v.text.length) :
    WellFormed scope (generateVariableStore (.map keyType elmtType) v) ↔
      isVarName (v.text ++ sizeSuffix.text) = true ∧
      isVarName (v.text ++ itrSuffix.text) = true ∧
      isVarName (v.text ++ keySuffix.text) = true ∧
      isVarName (v.text ++ elmtSuffix.text) = true ∧
      WellUsed scope (v.operand, .map) ∧
      WellFormed (storeMapScope keyType elmtType v.text scope)
        (generateVariableStore keyType (.var (v.text ++ keySuffix.text))) ∧
      WellFormed
        ((generateVariableStore keyType (.var (v.text ++ keySuffix.text))).declared ++
          storeMapScope keyType elmtType v.text scope)
        (generateVariableStore elmtType (.var (v.text ++ elmtSuffix.text))) := by
  have hsize : v.operand.root ≠ v.text ++ sizeSuffix.text := ne_append hlen _
  have hitr : v.operand.root ≠ v.text ++ itrSuffix.text := ne_append hlen _
  have hkey : (Operand.var (v.text ++ itrSuffix.text)).root ≠ v.text ++ keySuffix.text := by
    simp [Operand.root, itrSuffix, keySuffix]
  have helmt : (Operand.var (v.text ++ itrSuffix.text)).root ≠ v.text ++ elmtSuffix.text := by
    simp [Operand.root, itrSuffix, elmtSuffix]
  simp [WellFormed, generateVariableStore, storeMapScope, wellUsed_cons_of_ne, hsize, hitr,
    hkey, helmt, Shape.use]
  tauto

/-- A text needs a name for its length. -/
theorem wellFormed_store_string_iff
    (hlen : v.operand.root.length ≤ v.text.length) :
    WellFormed scope (generateVariableStore .string v) ↔
      isVarName (replaceSpecialChar v.text ++ sizeSuffix.text) = true ∧
      WellUsed scope (v.operand, .string) := by
  have hsize : v.operand.root ≠ replaceSpecialChar v.text ++ sizeSuffix.text :=
    ne_append (by rwa [length_replaceSpecialChar]) _
  simp [WellFormed, generateVariableStore, wellUsed_cons_of_ne, hsize, Shape.use]

theorem wellFormed_store_staticArray
    {elmtType : TypeExpr} {count : Text}
    (hprim : elmtType.isPrimitive = false) :
    WellFormed scope (generateVariableStore (.staticArray elmtType count) v) ↔
      WellFormed ((iName, .scalar) :: scope)
        (generateVariableStore elmtType (v.element iName count)) := by
  simp [WellFormed, generateVariableStore, hprim, isVarName_iName, Shape.use]

/-- TranslateVariableType never yields a static array. -/
theorem translateVariableType_ne_fixed
    (type : TypeExpr) (elmt : Shape) (count : Text) :
    translateVariableType type ≠ .fixed elmt count := by
  induction type with
  | staticArray elmtType n ih => exact ih
  | _ => simp [translateVariableType]

theorem element_root_length
    (hlen : v.operand.root.length ≤ v.text.length)
    (loop count : Text) :
    (v.element loop count).operand.root.length ≤ (v.element loop count).text.length := by
  simp only [Variable.element, Operand.root, List.length_append]
  omega

/-- Store knows the variable that it is given. -/
theorem resolve_of_store
    {type : TypeExpr}
    (hlen : v.operand.root.length ≤ v.text.length)
    (hi : v.operand.root ≠ iName)
    (h : WellFormed scope (generateVariableStore type v)) :
    ∃ shape, resolve scope v.operand = some shape := by
  have hresolve : ∀ {use}, WellUsed scope (v.operand, use) →
      ∃ shape, resolve scope v.operand = some shape :=
    fun hused => hused.imp fun _ h => h.1
  induction type generalizing scope v with
  | primitive type => exact hresolve h
  | userDefine name => exact hresolve h
  | string => exact hresolve ((wellFormed_store_string_iff hlen).mp h).2
  | list elmtType ih => exact hresolve ((wellFormed_storeContainer_iff hlen).mp h).2.2.2.1
  | array elmtType ih => exact hresolve ((wellFormed_storeContainer_iff hlen).mp h).2.2.2.1
  | map keyType elmtType => exact hresolve ((wellFormed_store_map_iff hlen).mp h).2.2.2.2.1
  | staticArray elmtType count ih =>
      cases hprim : elmtType.isPrimitive with
      | true =>
          rw [generateVariableStore, if_pos hprim] at h
          exact hresolve h
      | false =>
          rw [wellFormed_store_staticArray hprim] at h
          obtain ⟨elmt, helmt⟩ := @ih _ (v.element iName count) (element_root_length hlen _ _) hi h
            fun hused => hused.imp fun _ h => h.1
          exact ⟨_, (resolve_cons_of_ne hi _).symm.trans (resolve_of_index helmt)⟩

/-- Store works on a static array only if it knows it as one. -/
theorem fixed_of_store
    {elmtType : TypeExpr} {count : Text}
    (hlen : v.operand.root.length ≤ v.text.length)
    (hi : v.operand.root ≠ iName)
    (h : WellFormed scope (generateVariableStore (.staticArray elmtType count) v)) :
    ∃ elmt, resolve scope v.operand = some (.fixed elmt count) := by
  cases hprim : elmtType.isPrimitive with
  | true =>
      rw [generateVariableStore, if_pos hprim] at h
      obtain ⟨shape, hshape, huse⟩ := h
      cases shape with
      | fixed elmt dimension =>
          cases huse
          exact ⟨elmt, hshape⟩
      | _ => cases huse
  | false =>
      rw [wellFormed_store_staticArray hprim] at h
      obtain ⟨elmt, helmt⟩ :=
        resolve_of_store (v := v.element iName count) (element_root_length hlen _ _) hi h
      exact ⟨elmt, (resolve_cons_of_ne hi _).symm.trans (resolve_of_index helmt)⟩

/-- No static array occurs in the type of a local variable that Store works on. -/
theorem hasStaticArray_of_store
    {type : TypeExpr} {t : Text} {suffix : Suffix}
    (hlookup : resolve scope (.var (t ++ suffix.text)) = some (translateVariableType type))
    (h : WellFormed scope (generateVariableStore type (.var (t ++ suffix.text)))) :
    type.hasStaticArray = false := by
  induction type generalizing scope t suffix with
  | primitive type => rfl
  | userDefine name => rfl
  | string => rfl
  | list elmtType ih =>
      obtain ⟨-, -, -, -, h⟩ := (wellFormed_storeContainer_iff (Nat.le_refl _)).mp h
      exact ih (resolve_var_self _ _) h
  | array elmtType ih =>
      obtain ⟨-, -, -, -, h⟩ := (wellFormed_storeContainer_iff (Nat.le_refl _)).mp h
      exact ih (resolve_var_self _ _) h
  | map keyType elmtType ihkey ihelmt =>
      obtain ⟨-, -, hname, -, -, hkey, helmt⟩ := (wellFormed_store_map_iff (Nat.le_refl _)).mp h
      have hkeyType := ihkey (resolve_storeMapScope_key keyType elmtType _) hkey
      have helmtType := ihelmt (resolve_storeMapScope_elmt elmtType hname) helmt
      rw [TypeExpr.hasStaticArray, hkeyType, helmtType]
      rfl
  | staticArray elmtType count ih =>
      obtain ⟨elmt, helmt⟩ :=
        fixed_of_store (v := .var _) (Nat.le_refl _) (append_ne_iName t suffix) h
      have hfixed := Option.some.inj (hlookup.symm.trans helmt)
      exact absurd hfixed (translateVariableType_ne_fixed elmtType elmt count)

/-- Of the static arrays Store handles those of primitive or user-defined elements, and of
strings. -/
theorem flat_of_store
    {type : TypeExpr} {f : Text}
    (hi : f ≠ iName)
    (hlookup : resolve scope (.field f) = some (fieldShape type))
    (h : WellFormed scope (generateVariableStore type (.field f))) :
    type.isFlat = true ∨ ∃ count, type = .staticArray .string count := by
  cases type with
  | primitive type => exact Or.inl rfl
  | userDefine name => exact Or.inl rfl
  | string => exact Or.inl rfl
  | list elmtType =>
      obtain ⟨-, -, -, -, h⟩ := (wellFormed_storeContainer_iff (Nat.le_refl _)).mp h
      have helmtType := hasStaticArray_of_store (resolve_var_self _ _) h
      simp [TypeExpr.isFlat, TypeExpr.hasStaticArray, helmtType]
  | array elmtType =>
      obtain ⟨-, -, -, -, h⟩ := (wellFormed_storeContainer_iff (Nat.le_refl _)).mp h
      have helmtType := hasStaticArray_of_store (resolve_var_self _ _) h
      simp [TypeExpr.isFlat, TypeExpr.hasStaticArray, helmtType]
  | map keyType elmtType =>
      obtain ⟨-, -, hname, -, -, hkey, helmt⟩ := (wellFormed_store_map_iff (Nat.le_refl _)).mp h
      have hkeyType := hasStaticArray_of_store
        (resolve_storeMapScope_key keyType elmtType _) hkey
      have helmtType := hasStaticArray_of_store
        (resolve_storeMapScope_elmt elmtType hname) helmt
      simp [TypeExpr.isFlat, TypeExpr.hasStaticArray, hkeyType, helmtType]
  | staticArray elmtType count =>
      have hillegal : ∀ {suffix : Suffix},
          isVarName ((Variable.element (.field f) iName count).text ++ suffix.text) ≠ true :=
        fun {suffix : Suffix} => by simp [not_isVarName_element]
      have helmtLen := element_root_length (v := .field f) (Nat.le_refl _) iName count
      cases elmtType with
      | primitive type => exact Or.inl rfl
      | userDefine name => exact Or.inl rfl
      | string => exact Or.inr ⟨count, rfl⟩
      | list elmtType =>
          rw [wellFormed_store_staticArray rfl] at h
          exact absurd ((wellFormed_storeContainer_iff helmtLen).mp h).1 hillegal
      | array elmtType =>
          rw [wellFormed_store_staticArray rfl] at h
          exact absurd ((wellFormed_storeContainer_iff helmtLen).mp h).1 hillegal
      | map keyType elmtType =>
          rw [wellFormed_store_staticArray rfl] at h
          exact absurd ((wellFormed_store_map_iff helmtLen).mp h).1 hillegal
      | staticArray innerType dimension =>
          rw [wellFormed_store_staticArray rfl] at h
          obtain ⟨elmt, helmt⟩ := fixed_of_store helmtLen hi h
          have hfixed := resolve_of_index helmt
          have hroot : (Operand.field f).root ≠ iName := hi
          have hfield : resolve ((iName, .scalar) :: scope) (.field f) =
              some (fieldShape (.staticArray (.staticArray innerType dimension) count)) :=
            (resolve_cons_of_ne hroot .scalar).trans hlookup
          have hshape := Option.some.inj (hfield.symm.trans hfixed)
          injection hshape with hshape
          exact absurd hshape (translateVariableType_ne_fixed innerType elmt dimension)

/-- What Load of a map knows when it comes to a key. -/
def loadMapScope (keyType : TypeExpr) (t : Text)
    (scope : List (Text × Shape)) : List (Text × Shape) :=
  (t ++ keySuffix.text, translateVariableType keyType) :: (iName, .scalar) ::
    (t ++ lengthSuffix.text, .scalar) :: scope

theorem notMem_declared_load_suffix
    (type : TypeExpr) (suffix : Suffix)
    (hlen : v.operand.root.length ≤ v.text.length) :
    v.operand.root ∉ names (generateVariableLoad type (.var (v.text ++ suffix.text))).declared :=
  notMem_declared_load (by
    simp only [Variable.var, List.length_append]
    omega)

theorem wellFormed_loadContainer_iff
    {use : Use} {elmtShape : Shape} {load : Variable → Code}
    (hlen : v.operand.root.length ≤ v.text.length)
    (hload : v.operand.root ∉ names (load (.var (v.text ++ valSuffix.text))).declared) :
    WellFormed scope (loadContainer use elmtShape v load) ↔
      isVarName (v.text ++ lengthSuffix.text) = true ∧
      isVarName (v.text ++ valSuffix.text) = true ∧
      WellUsed ((iName, .scalar) :: scope) (v.operand, use) ∧
      WellFormed
        ((v.text ++ valSuffix.text, elmtShape) :: (iName, .scalar) ::
          (v.text ++ lengthSuffix.text, .scalar) :: scope)
        (load (.var (v.text ++ valSuffix.text))) := by
  have hlength : v.operand.root ≠ v.text ++ lengthSuffix.text := ne_append hlen _
  have hval : v.operand.root ≠ v.text ++ valSuffix.text := ne_append hlen _
  have hvar : (Operand.var (v.text ++ lengthSuffix.text)).root ≠ iName :=
    append_ne_iName v.text _
  simp [WellFormed, loadContainer, wellUsed_append_of_notMem hload, wellUsed_cons_of_ne,
    isVarName_iName, hval, hvar, wellUsed_cons_cons_of_ne hlength, Shape.use]
  tauto

theorem wellFormed_load_map_iff
    {keyType elmtType : TypeExpr}
    (hlen : v.operand.root.length ≤ v.text.length) :
    WellFormed scope (generateVariableLoad (.map keyType elmtType) v) ↔
      isVarName (v.text ++ lengthSuffix.text) = true ∧
      isVarName (v.text ++ keySuffix.text) = true ∧
      isVarName (v.text ++ valSuffix.text) = true ∧
      WellUsed ((iName, .scalar) :: scope) (v.operand, .map) ∧
      WellFormed (loadMapScope keyType v.text scope)
        (generateVariableLoad keyType (.var (v.text ++ keySuffix.text))) ∧
      WellFormed
        ((v.text ++ valSuffix.text, translateVariableType elmtType) ::
          ((generateVariableLoad keyType (.var (v.text ++ keySuffix.text))).declared ++
            loadMapScope keyType v.text scope))
        (generateVariableLoad elmtType (.var (v.text ++ valSuffix.text))) := by
  have hlength : v.operand.root ≠ v.text ++ lengthSuffix.text := ne_append hlen _
  have hkey : v.operand.root ≠ v.text ++ keySuffix.text := ne_append hlen _
  have hval : v.operand.root ≠ v.text ++ valSuffix.text := ne_append hlen _
  have hvar : (Operand.var (v.text ++ lengthSuffix.text)).root ≠ iName :=
    append_ne_iName v.text _
  have hinner := fun type suffix => notMem_declared_load_suffix type suffix hlen
  simp [WellFormed, generateVariableLoad, loadMapScope, wellUsed_append_of_notMem (hinner _ _),
    wellUsed_cons_of_ne, isVarName_iName, hkey, hval, hvar, wellUsed_cons_cons_of_ne hlength,
    Shape.use]
  tauto

theorem wellFormed_load_string_iff
    (hlen : v.operand.root.length ≤ v.text.length) :
    WellFormed scope (generateVariableLoad .string v) ↔
      isVarName (v.text ++ lengthSuffix.text) = true ∧ WellUsed scope (v.operand, .string) := by
  have hlength : v.operand.root ≠ v.text ++ lengthSuffix.text := ne_append hlen _
  simp [WellFormed, generateVariableLoad, wellUsed_cons_of_ne, hlength, Shape.use]

/-- An array of other than primitive elements is loaded element by element. -/
theorem wellFormed_load_staticArray_iff
    {elmtType : TypeExpr} {count : Text}
    (hprim : elmtType.isPrimitive = false)
    (hlen : v.operand.root.length ≤ v.text.length) :
    WellFormed scope (generateVariableLoad (.staticArray elmtType count) v) ↔
      isVarName (v.text ++ valSuffix.text) = true ∧
      WellUsed ((iName, .scalar) :: scope) (v.operand, .fixed count) ∧
      WellFormed
        ((v.text ++ valSuffix.text, translateVariableType elmtType) :: (iName, .scalar) :: scope)
        (generateVariableLoad elmtType (.var (v.text ++ valSuffix.text))) := by
  have hval : v.operand.root ≠ v.text ++ valSuffix.text := ne_append hlen _
  have hivar : (Operand.var iName).root ≠ v.text ++ valSuffix.text :=
    (append_ne_iName v.text _).symm
  have hinner := notMem_declared_load_suffix elmtType valSuffix hlen
  have hiinner : (Operand.var iName).root ∉
      names (generateVariableLoad elmtType (.var (v.text ++ valSuffix.text))).declared := by
    have hne : iName ≠ v.text ++ valSuffix.text ++ lengthSuffix.text :=
      (append_ne_iName (v.text ++ valSuffix.text) _).symm
    rw [declared_load]
    split_ifs
    · exact fun hmem => hne (List.mem_singleton.mp hmem)
    · exact List.not_mem_nil
  simp [WellFormed, generateVariableLoad, hprim, wellUsed_append_of_notMem hinner,
    wellUsed_append_of_notMem hiinner, wellUsed_cons_of_ne, isVarName_iName, hval, hivar, Shape.use]
  tauto

/-- Load uses the field as it is declared. -/
theorem wellUsed_of_load
    {type : TypeExpr} {f : Text}
    (h : WellFormed scope (generateVariableLoad type (.field f))) :
    WellUsed (if loadLoops type then (iName, .scalar) :: scope else scope)
      (.field f, (fieldShape type).use) := by
  have hlen : (Variable.field f).operand.root.length ≤ (Variable.field f).text.length :=
    Nat.le_refl _
  cases type with
  | primitive type => exact h
  | userDefine name => exact h
  | string => exact ((wellFormed_load_string_iff hlen).mp h).2
  | list elmtType =>
      exact ((wellFormed_loadContainer_iff hlen
        (notMem_declared_load_suffix elmtType valSuffix hlen)).mp h).2.2.1
  | array elmtType =>
      exact ((wellFormed_loadContainer_iff hlen
        (notMem_declared_load_suffix elmtType valSuffix hlen)).mp h).2.2.1
  | map keyType elmtType => exact ((wellFormed_load_map_iff hlen).mp h).2.2.2.1
  | staticArray elmtType count =>
      cases hprim : elmtType.isPrimitive with
      | true =>
          rw [generateVariableLoad, if_pos hprim] at h
          rw [loadLoops, hprim]
          exact h
      | false =>
          rw [loadLoops, hprim]
          exact ((wellFormed_load_staticArray_iff hprim hlen).mp h).2.1

theorem use_fieldShape_ne_buffer
    (type : TypeExpr) :
    (fieldShape type).use ≠ .buffer := by
  cases type with
  | _ => simp [fieldShape, translateVariableType, Shape.use]

theorem isPrimitive_of_use_fieldShape
    {type : TypeExpr}
    (h : (fieldShape type).use = .scalar) :
    type.isPrimitive = true := by
  cases type with
  | primitive type => rfl
  | _ => simp [fieldShape, translateVariableType, Shape.use] at h

/-- The names that a parameter or the counter of Load takes from the field. -/
theorem names_of_load
    {type : TypeExpr} {f : Text}
    (h : WellFormed (loadScope ++ [(f, fieldShape type)]) (generateVariableLoad type (.field f))) :
    f ≠ bufName ∧
      (f = nSizeName → type.isPrimitive = true) ∧
      (f = iName → loadLoops type = false) := by
  have hused := wellUsed_of_load h
  refine ⟨?_, ?_, ?_⟩
  · rintro rfl
    have hne : (Operand.field bufName).root ≠ iName := by decide
    have hbuf : WellUsed (loadScope ++ [(bufName, fieldShape type)])
        (.field bufName, (fieldShape type).use) := by
      split_ifs at hused
      · exact (wellUsed_cons_of_ne hne _).mp hused
      · exact hused
    have hresolve : resolve (loadScope ++ [(bufName, fieldShape type)]) (.field bufName) =
        some .buffer := rfl
    exact use_fieldShape_ne_buffer type (use_of_wellUsed hresolve hbuf).symm
  · rintro rfl
    have hne : (Operand.field nSizeName).root ≠ iName := by decide
    have hnSize : WellUsed (loadScope ++ [(nSizeName, fieldShape type)])
        (.field nSizeName, (fieldShape type).use) := by
      split_ifs at hused
      · exact (wellUsed_cons_of_ne hne _).mp hused
      · exact hused
    have hresolve : resolve (loadScope ++ [(nSizeName, fieldShape type)]) (.field nSizeName) =
        some .scalar := rfl
    exact isPrimitive_of_use_fieldShape (use_of_wellUsed hresolve hnSize).symm
  · rintro rfl
    refine Bool.eq_false_iff.mpr fun hloops => ?_
    rw [if_pos hloops] at hused
    have hprim := isPrimitive_of_use_fieldShape
      (use_of_wellUsed (resolve_var_self iName .scalar) hused).symm
    cases type with
    | primitive type => cases hloops
    | _ => cases hprim

end Cpp

namespace CSharp

/-- The length of an element of a static array gets no identifier. -/
theorem not_wellFormed_store_strings
    (count : Text) :
    ¬ WellFormed scope (generateVariableStore (.staticArray .string count) v) := by
  intro h
  have hname := not_isVarName_element v (v.text ++ itrSuffix.text) count lengthSuffix
  simp [WellFormed, generateVariableStore, hname] at h

end CSharp

end Necessary

section Sufficient

/-- A variable with an identifier as its name that is declared in the shape. -/
structure Known (scope : List (Text × Shape)) (v : Variable) (shape : Shape) : Prop where
  legal : isVarName v.text = true
  root : v.operand.root = v.text
  declared : resolve scope v.operand = some shape

variable {scope : List (Text × Shape)} {v : Variable} {shape : Shape}

theorem Known.length
    (h : Known scope v shape) :
    v.operand.root.length ≤ v.text.length := by
  exact Nat.le_of_eq (congrArg List.length h.root)

/-- No operand is rooted in the local that is made of its text. -/
theorem Known.root_ne
    (h : Known scope v shape)
    (suffix : Suffix) :
    v.operand.root ≠ v.text ++ suffix.text :=
  ne_append h.length suffix

/-- A known operand is used as its shape says. -/
theorem Known.used
    (h : Known scope v shape) :
    WellUsed scope (v.operand, shape.use) :=
  wellUsed_of_resolve h.declared

theorem Known.used_under
    (h : Known scope v shape)
    {name : Text} {kind : Shape}
    (hne : v.text ≠ name) :
    WellUsed ((name, kind) :: scope) (v.operand, shape.use) :=
  (wellUsed_cons_of_ne (by rwa [h.root]) kind).mpr h.used

/-- An operand stays known under a local of another name. -/
theorem Known.cons
    (h : Known scope v shape)
    {name : Text}
    (hne : v.text ≠ name)
    (kind : Shape) :
    Known ((name, kind) :: scope) v shape :=
  ⟨h.legal, h.root, (resolve_cons_of_ne (by rwa [h.root]) kind).trans h.declared⟩

theorem Known.append
    (h : Known scope v shape)
    (suffix : Suffix) :
    isVarName (v.text ++ suffix.text) = true :=
  isVarName_append h.legal suffix

/-- A local variable at its declaration. -/
theorem known_var
    {t : Text}
    (ht : isVarName t = true)
    (shape : Shape) :
    Known ((t, shape) :: scope) (.var t) shape :=
  ⟨ht, rfl, resolve_var_self t shape⟩

namespace Cpp

/-- Store of a type without static arrays compiles. By induction on the type. -/
theorem wellFormed_store
    {type : TypeExpr}
    (htype : type.hasStaticArray = false)
    (hv : Known scope v (translateVariableType type)) :
    WellFormed scope (generateVariableStore type v) := by
  induction type generalizing scope v with
  | primitive type => exact hv.used
  | userDefine name => exact hv.used
  | string =>
      have hspecial : replaceSpecialChar v.text = v.text := replaceSpecialChar_varName ⟨_, hv.legal⟩
      rw [wellFormed_store_string_iff hv.length, hspecial]
      exact ⟨hv.append _, hv.used⟩
  | list elmtType ih =>
      have helmt := hv.append elmtSuffix
      exact (wellFormed_storeContainer_iff hv.length).mpr
        ⟨hv.append _, hv.append _, helmt, hv.used,
          ih htype (known_var helmt _)⟩
  | array elmtType ih =>
      have helmt := hv.append elmtSuffix
      exact (wellFormed_storeContainer_iff hv.length).mpr
        ⟨hv.append _, hv.append _, helmt, hv.used,
          ih htype (known_var helmt _)⟩
  | map keyType elmtType ihkey ihelmt =>
      simp only [TypeExpr.hasStaticArray, Bool.or_eq_false_iff] at htype
      have hkey := hv.append keySuffix
      have helmt := hv.append elmtSuffix
      exact (wellFormed_store_map_iff hv.length).mpr
        ⟨hv.append _, hv.append _, hkey, helmt, hv.used,
          ihkey htype.1 ⟨hkey, rfl, resolve_storeMapScope_key keyType elmtType _⟩,
          ihelmt htype.2 ⟨helmt, rfl, resolve_storeMapScope_elmt elmtType hkey⟩⟩
  | staticArray elmtType count => cases htype

/-- Load of a type without static arrays compiles, unless a loop hides the operand. -/
theorem wellFormed_load
    {type : TypeExpr}
    (htype : type.hasStaticArray = false)
    (hloops : loadLoops type = true → v.text ≠ iName)
    (hv : Known scope v (translateVariableType type)) :
    WellFormed scope (generateVariableLoad type v) := by
  have hlonger : ∀ {type : TypeExpr} {t : Text} {suffix : Suffix},
      loadLoops type = true → (Variable.var (t ++ suffix.text)).text ≠ iName :=
    fun _ => append_ne_iName _ _
  induction type generalizing scope v with
  | primitive type => exact hv.used
  | userDefine name => exact hv.used
  | string =>
      exact (wellFormed_load_string_iff hv.length).mpr ⟨hv.append _, hv.used⟩
  | list elmtType ih =>
      have hval := hv.append valSuffix
      exact (wellFormed_loadContainer_iff hv.length
        (notMem_declared_load_suffix elmtType valSuffix hv.length)).mpr
        ⟨hv.append _, hval, hv.used_under (hloops rfl),
          ih htype hlonger (known_var hval _)⟩
  | array elmtType ih =>
      have hval := hv.append valSuffix
      exact (wellFormed_loadContainer_iff hv.length
        (notMem_declared_load_suffix elmtType valSuffix hv.length)).mpr
        ⟨hv.append _, hval, hv.used_under (hloops rfl),
          ih htype hlonger (known_var hval _)⟩
  | map keyType elmtType ihkey ihelmt =>
      simp only [TypeExpr.hasStaticArray, Bool.or_eq_false_iff] at htype
      have hkey := hv.append keySuffix
      have hval := hv.append valSuffix
      exact (wellFormed_load_map_iff hv.length).mpr
        ⟨hv.append _, hkey, hval, hv.used_under (hloops rfl),
          ihkey htype.1 hlonger (known_var hkey _),
          ihelmt htype.2 hlonger (known_var hval _)⟩
  | staticArray elmtType count => cases htype

theorem size_of_isPrimitive
    {type : TypeExpr}
    (h : type.isPrimitive = true)
    (v : Variable) :
    generateVariableSize type v = skip := by
  cases type with
  | primitive type => rfl
  | _ => cases h

theorem wellFormed_sizeContainer
    {elmtType : TypeExpr} {use : Use}
    (hv : Known scope v shape)
    (huse : shape.use = use)
    (hsize :
      ∀ {outer : List (Text × Shape)} {v : Variable},
        Known outer v (translateVariableType elmtType) →
          WellFormed outer (generateVariableSize elmtType v)) :
    WellFormed scope (sizeContainer use elmtType v (generateVariableSize elmtType)) := by
  have hitr := hv.append itrSuffix
  have helmt := hv.append elmtSuffix
  have hused : WellUsed ((v.text ++ itrSuffix.text, .iterator) :: scope) (v.operand, use) :=
    huse ▸ hv.used_under (ne_append (Nat.le_refl _) _)
  have hinner : WellFormed
      ((v.text ++ elmtSuffix.text, translateVariableType elmtType) ::
        (v.text ++ itrSuffix.text, .iterator) :: scope)
      (generateVariableSize elmtType (.var (v.text ++ elmtSuffix.text))) :=
    hsize (known_var helmt _)
  cases elmtType with
  | primitive type => exact ⟨hitr, hused, ⟨_, resolve_var_self _ _, rfl⟩, trivial, trivial, trivial⟩
  | _ =>
      exact ⟨hitr, hused, ⟨_, resolve_var_self _ _, rfl⟩, helmt, hinner, trivial⟩

theorem wellFormed_size_map
    {keyType elmtType : TypeExpr}
    (hv : Known scope v (translateVariableType (.map keyType elmtType)))
    (hkeySize :
      ∀ {outer : List (Text × Shape)} {v : Variable},
        Known outer v (translateVariableType keyType) →
          WellFormed outer (generateVariableSize keyType v))
    (helmtSize :
      ∀ {outer : List (Text × Shape)} {v : Variable},
        Known outer v (translateVariableType elmtType) →
          WellFormed outer (generateVariableSize elmtType v)) :
    WellFormed scope (generateVariableSize (.map keyType elmtType) v) := by
  have hitr := hv.append itrSuffix
  have hkey := hv.append keySuffix
  have helmt := hv.append elmtSuffix
  have hused : WellUsed ((v.text ++ itrSuffix.text, .iterator) :: scope) (v.operand, .map) :=
    hv.used_under (ne_append (Nat.le_refl _) _)
  have hitrKey : (Operand.var (v.text ++ itrSuffix.text)).root ≠ v.text ++ keySuffix.text := by
    simp [Operand.root, itrSuffix, keySuffix]
  have hitrElmt : (Operand.var (v.text ++ itrSuffix.text)).root ≠ v.text ++ elmtSuffix.text := by
    simp [Operand.root, itrSuffix, elmtSuffix]
  have hkeyElmt : (Variable.var (v.text ++ keySuffix.text)).text ≠ v.text ++ elmtSuffix.text := by
    simp [Variable.var, keySuffix, elmtSuffix]
  have hkeyInner : ∀ outer, WellFormed
      ((v.text ++ elmtSuffix.text, translateVariableType elmtType) ::
        (v.text ++ keySuffix.text, translateVariableType keyType) :: outer)
      (generateVariableSize keyType (.var (v.text ++ keySuffix.text))) :=
    fun _ => hkeySize ((known_var hkey _).cons hkeyElmt _)
  have helmtInner : ∀ outer, WellFormed
      ((v.text ++ elmtSuffix.text, translateVariableType elmtType) :: outer)
      (generateVariableSize elmtType (.var (v.text ++ elmtSuffix.text))) :=
    fun _ => helmtSize (known_var helmt _)
  unfold WellFormed at hkeyInner helmtInner
  cases hprim : keyType.isPrimitive with
  | true =>
      simp [WellFormed, generateVariableSize, hprim, size_of_isPrimitive hprim, hitr, helmt, hused,
        wellUsed_cons_of_ne, hitrElmt, Shape.use, helmtInner]
  | false =>
      simp [WellFormed, generateVariableSize, hprim, hitr, hkey, helmt, hused, wellUsed_cons_of_ne,
        hitrElmt, hitrKey, Shape.use, hkeyInner, helmtInner, declared_size]

/-- Size of a type without static arrays compiles. -/
theorem wellFormed_size
    {type : TypeExpr}
    (htype : type.hasStaticArray = false)
    (hv : Known scope v (translateVariableType type)) :
    WellFormed scope (generateVariableSize type v) := by
  induction type generalizing scope v with
  | primitive type => trivial
  | userDefine name => exact hv.used
  | string => exact hv.used
  | list elmtType ih => exact wellFormed_sizeContainer hv rfl (ih htype)
  | array elmtType ih => exact wellFormed_sizeContainer hv rfl (ih htype)
  | map keyType elmtType ihkey ihelmt =>
      simp only [TypeExpr.hasStaticArray, Bool.or_eq_false_iff] at htype
      exact wellFormed_size_map hv (ihkey htype.1) (ihelmt htype.2)
  | staticArray elmtType count => cases htype

end Cpp

namespace CSharp

theorem declared_store
    (type : TypeExpr) (v : Variable) :
    (generateVariableStore type v).declared = [] := by
  cases type with
  | _ => rfl

theorem declared_size
    (type : TypeExpr) (v : Variable) :
    (generateVariableSize type v).declared = [] := by
  cases type with
  | staticArray elmtType count =>
      unfold generateVariableSize
      split_ifs <;> rfl
  | _ => rfl

/-- The names that Load declares for the whole function extend the name of its variable. -/
theorem notMem_declared_load
    {type : TypeExpr} {v : Variable} {name : Text}
    (hlength : name ≠ v.text ++ lengthSuffix.text)
    (hbuf : name ≠ v.text ++ bufSuffix.text) :
    name ∉ names (generateVariableLoad type v).declared := by
  cases type with
  | _ => simp [generateVariableLoad, loadContainer, hlength, hbuf]

theorem notMem_declared_load_suffix
    {v : Variable}
    (type : TypeExpr) (suffix : Suffix)
    (hlen : v.operand.root.length ≤ v.text.length) :
    v.operand.root ∉ names (generateVariableLoad type (.var (v.text ++ suffix.text))).declared := by
  have hlonger : v.operand.root.length ≤ (Variable.var (v.text ++ suffix.text)).text.length := by
    simp only [Variable.var, List.length_append]
    omega
  exact notMem_declared_load (ne_append hlonger _)
    (ne_append hlonger _)

/-- The loop over a list. -/
theorem wellFormed_foreach
    {elmtShape : Shape} {body : Code}
    (hv : Known scope v shape)
    (hbody :
      WellFormed
        ((v.text ++ elmtSuffix.text, elmtShape) :: (v.text ++ itrSuffix.text, .iterator) :: scope)
        body) :
    WellFormed scope (block (all [
      declare (v.text ++ itrSuffix.text) .iterator,
      declare (v.text ++ elmtSuffix.text) elmtShape,
      access (.var (v.text ++ itrSuffix.text), .iterator),
      body])) := by
  have hitr := hv.append itrSuffix
  have helmt := hv.append elmtSuffix
  have hne : (Operand.var (v.text ++ itrSuffix.text)).root ≠ v.text ++ elmtSuffix.text := by
    simp [Operand.root, itrSuffix, elmtSuffix]
  unfold WellFormed at hbody
  simp [WellFormed, hitr, helmt, wellUsed_cons_of_ne, hne, Shape.use, hbody]

/-- The loop over a map. -/
theorem wellFormed_foreach_pair
    {keyShape elmtShape : Shape} {keyBody elmtBody : Code}
    (hv : Known scope v shape)
    (hdeclared : keyBody.declared = [])
    (hkeyBody : ∀ {outer},
      Known outer (.var (v.text ++ keySuffix.text)) keyShape → WellFormed outer keyBody)
    (helmtBody : ∀ {outer},
      Known outer (.var (v.text ++ elmtSuffix.text)) elmtShape → WellFormed outer elmtBody) :
    WellFormed scope (block (all [
      declare (v.text ++ itrSuffix.text) .iterator,
      declare (v.text ++ keySuffix.text) keyShape,
      access (.var (v.text ++ itrSuffix.text), .iterator),
      declare (v.text ++ elmtSuffix.text) elmtShape,
      access (.var (v.text ++ itrSuffix.text), .iterator),
      keyBody,
      elmtBody])) := by
  have hitr := hv.append itrSuffix
  have hkey := hv.append keySuffix
  have helmt := hv.append elmtSuffix
  have hitrKey : (Operand.var (v.text ++ itrSuffix.text)).root ≠ v.text ++ keySuffix.text := by
    simp [Operand.root, itrSuffix, keySuffix]
  have hitrElmt : (Operand.var (v.text ++ itrSuffix.text)).root ≠ v.text ++ elmtSuffix.text := by
    simp [Operand.root, itrSuffix, elmtSuffix]
  have hkeyElmt : (Variable.var (v.text ++ keySuffix.text)).text ≠ v.text ++ elmtSuffix.text := by
    simp [Variable.var, keySuffix, elmtSuffix]
  have hkeyInner : ∀ outer, WellFormed
      ((v.text ++ elmtSuffix.text, elmtShape) :: (v.text ++ keySuffix.text, keyShape) :: outer)
      keyBody :=
    fun _ => hkeyBody ((known_var hkey _).cons hkeyElmt _)
  have helmtInner : ∀ outer,
      WellFormed ((v.text ++ elmtSuffix.text, elmtShape) :: outer) elmtBody :=
    fun _ => helmtBody (known_var helmt _)
  unfold WellFormed at hkeyInner helmtInner
  simp [WellFormed, hitr, hkey, helmt, wellUsed_cons_of_ne, hitrKey, hitrElmt, Shape.use,
    hkeyInner, helmtInner, hdeclared]

theorem wellFormed_store
    {type : TypeExpr}
    (htype : type.hasStaticArray = false)
    (hv : Known scope v (translateVariableType type)) :
    WellFormed scope (generateVariableStore type v) := by
  induction type generalizing scope v with
  | primitive type => exact hv.used
  | userDefine name => exact hv.used
  | string =>
      have hlength := hv.append lengthSuffix
      have hne : v.operand.root ≠ v.text ++ lengthSuffix.text :=
        ne_append hv.length _
      have hused : WellUsed scope (v.operand, .string) := hv.used
      simp [WellFormed, generateVariableStore, hlength, hused, wellUsed_cons_of_ne, hne, Shape.use]
  | list elmtType ih =>
      have helmt := hv.append elmtSuffix
      have hloop := wellFormed_foreach hv (ih htype (known_var helmt _))
      exact ⟨hv.used, hv.used, hloop, trivial⟩
  | array elmtType ih =>
      have helmt := hv.append elmtSuffix
      have hloop := wellFormed_foreach hv (ih htype (known_var helmt _))
      exact ⟨hv.used, hv.used, hloop, trivial⟩
  | map keyType elmtType ihkey ihelmt =>
      simp only [TypeExpr.hasStaticArray, Bool.or_eq_false_iff] at htype
      have hloop := wellFormed_foreach_pair hv (declared_store keyType _) (ihkey htype.1)
        (ihelmt htype.2)
      exact ⟨hv.used, hv.used, hloop, trivial⟩
  | staticArray elmtType count => cases htype

theorem wellFormed_size
    {type : TypeExpr}
    (htype : type.hasStaticArray = false)
    (hv : Known scope v (translateVariableType type)) :
    WellFormed scope (generateVariableSize type v) := by
  induction type generalizing scope v with
  | primitive type => trivial
  | userDefine name => exact hv.used
  | string => exact ⟨hv.used, hv.used, trivial⟩
  | list elmtType ih =>
      have helmt := hv.append elmtSuffix
      have hloop := wellFormed_foreach hv (ih htype (known_var helmt _))
      exact ⟨hv.used, hloop, trivial⟩
  | array elmtType ih =>
      have helmt := hv.append elmtSuffix
      have hloop := wellFormed_foreach hv (ih htype (known_var helmt _))
      exact ⟨hv.used, hloop, trivial⟩
  | map keyType elmtType ihkey ihelmt =>
      simp only [TypeExpr.hasStaticArray, Bool.or_eq_false_iff] at htype
      have hloop := wellFormed_foreach_pair hv (declared_size keyType _) (ihkey htype.1)
        (ihelmt htype.2)
      exact ⟨hv.used, hloop, trivial⟩
  | staticArray elmtType count => cases htype

theorem wellFormed_loadContainer
    {elmtType : TypeExpr}
    (hv : Known scope v (.list (translateVariableType elmtType)))
    (hload : ∀ {outer},
      Known outer (.var (v.text ++ valSuffix.text)) (translateVariableType elmtType) →
        WellFormed outer (generateVariableLoad elmtType (.var (v.text ++ valSuffix.text)))) :
    WellFormed scope
      (loadContainer (translateVariableType elmtType) v (generateVariableLoad elmtType)) := by
  have hlength := hv.append lengthSuffix
  have hitr := hv.append itrSuffix
  have hval := hv.append valSuffix
  have hlengthItr :
      (Operand.var (v.text ++ lengthSuffix.text)).root ≠ v.text ++ itrSuffix.text := by
    simp [Operand.root, lengthSuffix, itrSuffix]
  have hneLength := hv.root_ne lengthSuffix
  have hneItr := hv.root_ne itrSuffix
  have hneVal := hv.root_ne valSuffix
  have hused : WellUsed scope (v.operand, .list) := hv.used
  have hinner : ∀ outer, WellFormed
      ((v.text ++ valSuffix.text, translateVariableType elmtType) :: outer)
      (generateVariableLoad elmtType (.var (v.text ++ valSuffix.text))) :=
    fun _ => hload (known_var hval _)
  unfold WellFormed at hinner
  simp [WellFormed, loadContainer, hlength, hitr, hval, wellUsed_cons_of_ne, hlengthItr, Shape.use,
    hinner, wellUsed_append_of_notMem (notMem_declared_load_suffix elmtType valSuffix hv.length),
    hneLength, hneItr, hneVal, hused]

theorem wellFormed_load_map
    {keyType elmtType : TypeExpr}
    (hv : Known scope v (translateVariableType (.map keyType elmtType)))
    (hkeyLoad : ∀ {outer},
      Known outer (.var (v.text ++ keySuffix.text)) (translateVariableType keyType) →
        WellFormed outer (generateVariableLoad keyType (.var (v.text ++ keySuffix.text))))
    (helmtLoad : ∀ {outer},
      Known outer (.var (v.text ++ elmtSuffix.text)) (translateVariableType elmtType) →
        WellFormed outer (generateVariableLoad elmtType (.var (v.text ++ elmtSuffix.text)))) :
    WellFormed scope (generateVariableLoad (.map keyType elmtType) v) := by
  have hlength := hv.append lengthSuffix
  have hitr := hv.append itrSuffix
  have hkey := hv.append keySuffix
  have helmt := hv.append elmtSuffix
  have hlengthItr :
      (Operand.var (v.text ++ lengthSuffix.text)).root ≠ v.text ++ itrSuffix.text := by
    simp [Operand.root, lengthSuffix, itrSuffix]
  have hkeyElmt : (Variable.var (v.text ++ keySuffix.text)).text ≠ v.text ++ elmtSuffix.text := by
    simp [Variable.var, keySuffix, elmtSuffix]
  have hneLength := hv.root_ne lengthSuffix
  have hneItr := hv.root_ne itrSuffix
  have hneKey := hv.root_ne keySuffix
  have hneElmt := hv.root_ne elmtSuffix
  have hused : WellUsed scope (v.operand, .map) := hv.used
  have hkeyInner : ∀ outer, WellFormed
      ((v.text ++ elmtSuffix.text, translateVariableType elmtType) ::
        (v.text ++ keySuffix.text, translateVariableType keyType) :: outer)
      (generateVariableLoad keyType (.var (v.text ++ keySuffix.text))) :=
    fun _ => hkeyLoad ((known_var hkey _).cons hkeyElmt _)
  have hresolve : ∀ outer, Known
      ((generateVariableLoad keyType (.var (v.text ++ keySuffix.text))).declared ++
        (v.text ++ elmtSuffix.text, translateVariableType elmtType) :: outer)
      (.var (v.text ++ elmtSuffix.text)) (translateVariableType elmtType) := by
    intro outer
    have hneLength : elmtSuffix.text ≠ keySuffix.text ++ lengthSuffix.text := by decide
    have hneBuf : elmtSuffix.text ≠ keySuffix.text ++ bufSuffix.text := by decide
    have hnotMem : v.text ++ elmtSuffix.text ∉
        names (generateVariableLoad keyType (.var (v.text ++ keySuffix.text))).declared :=
      notMem_declared_load (by simpa [Variable.var] using hneLength)
        (by simpa [Variable.var] using hneBuf)
    exact ⟨helmt, rfl, (resolve_append_of_notMem hnotMem).trans (resolve_var_self _ _)⟩
  have helmtInner := fun outer => helmtLoad (hresolve outer)
  unfold WellFormed at hkeyInner helmtInner
  simp [WellFormed, generateVariableLoad, hlength, hitr, hkey, helmt, wellUsed_cons_of_ne,
    hlengthItr, Shape.use, hkeyInner, helmtInner,
    wellUsed_append_of_notMem (notMem_declared_load_suffix _ _ hv.length),
    hneLength, hneItr, hneKey, hneElmt, hused]

theorem wellFormed_load
    {type : TypeExpr}
    (htype : type.hasStaticArray = false)
    (hv : Known scope v (translateVariableType type)) :
    WellFormed scope (generateVariableLoad type v) := by
  induction type generalizing scope v with
  | primitive type => exact hv.used
  | userDefine name => exact hv.used
  | string =>
      have hlength := hv.append lengthSuffix
      have hbuf := hv.append bufSuffix
      have hlengthBuf :
          (Operand.var (v.text ++ lengthSuffix.text)).root ≠ v.text ++ bufSuffix.text := by
        simp [Operand.root, lengthSuffix, bufSuffix]
      have hneLength := hv.root_ne lengthSuffix
      have hneBuf := hv.root_ne bufSuffix
      have hused : WellUsed scope (v.operand, .string) := hv.used
      simp [WellFormed, generateVariableLoad, hlength, hbuf, wellUsed_cons_of_ne, hlengthBuf,
        Shape.use, hneLength, hneBuf, hused]
  | list elmtType ih => exact wellFormed_loadContainer hv (ih htype)
  | array elmtType ih => exact wellFormed_loadContainer hv (ih htype)
  | map keyType elmtType ihkey ihelmt =>
      simp only [TypeExpr.hasStaticArray, Bool.or_eq_false_iff] at htype
      exact wellFormed_load_map hv (ihkey htype.1) (ihelmt htype.2)
  | staticArray elmtType count => cases htype

end CSharp

section Field

variable {type : TypeExpr}

namespace Cpp

theorem wellFormed_store_field
    (hflat : type.isFlat = true)
    (hloops : loadLoops type = true → v.text ≠ iName)
    (hv : Known scope v (fieldShape type)) :
    WellFormed scope (generateVariableStore type v) := by
  cases type with
  | staticArray elmtType count =>
      cases elmtType with
      | primitive type => exact hv.used
      | userDefine name =>
          have hinner := hv.cons (hloops rfl) .scalar
          exact (wellFormed_store_staticArray rfl).mpr
            (wellUsed_of_resolve (resolve_index hinner.declared))
      | _ => cases hflat
  | _ => exact wellFormed_store (Bool.not_eq_true' _ |>.mp hflat) hv

theorem wellFormed_load_field
    (hflat : type.isFlat = true)
    (hloops : loadLoops type = true → v.text ≠ iName)
    (hv : Known scope v (fieldShape type)) :
    WellFormed scope (generateVariableLoad type v) := by
  cases type with
  | staticArray elmtType count =>
      cases elmtType with
      | primitive type => exact hv.used
      | userDefine name =>
          have hval := hv.append valSuffix
          exact (wellFormed_load_staticArray_iff rfl hv.length).mpr
            ⟨hval, hv.used_under (hloops rfl), (known_var hval _).used⟩
      | _ => cases hflat
  | _ => exact wellFormed_load (Bool.not_eq_true' _ |>.mp hflat) hloops hv

theorem wellFormed_size_field
    (hflat : type.isFlat = true)
    (hloops : loadLoops type = true → v.text ≠ iName)
    (hv : Known scope v (fieldShape type)) :
    WellFormed scope (generateVariableSize type v) := by
  cases type with
  | staticArray elmtType count =>
      cases elmtType with
      | primitive type => trivial
      | userDefine name =>
          have hinner := hv.cons (hloops rfl) .scalar
          have hused := wellUsed_of_resolve (resolve_index hinner.declared)
          exact ⟨isVarName_iName, ⟨_, resolve_var_self _ _, rfl⟩, hused, trivial⟩
      | _ => cases hflat
  | _ => exact wellFormed_size (Bool.not_eq_true' _ |>.mp hflat) hv

end Cpp

namespace CSharp

theorem wellFormed_store_field
    (hflat : type.isFlat = true)
    (hv : Known scope v (translateVariableType type)) :
    WellFormed scope (generateVariableStore type v) := by
  cases type with
  | staticArray elmtType count =>
      have hitr := hv.append itrSuffix
      have hinner := hv.cons (fun h => hv.root_ne itrSuffix (hv.root.trans h)) .scalar
      have helmt := wellUsed_of_resolve (resolve_index hinner.declared)
      cases elmtType with
      | primitive type => exact ⟨hitr, ⟨_, resolve_var_self _ _, rfl⟩, helmt, trivial⟩
      | userDefine name => exact ⟨hitr, ⟨_, resolve_var_self _ _, rfl⟩, helmt, trivial⟩
      | _ => cases hflat
  | _ => exact wellFormed_store (Bool.not_eq_true' _ |>.mp hflat) hv

theorem wellFormed_load_field
    (hflat : type.isFlat = true)
    (hv : Known scope v (translateVariableType type)) :
    WellFormed scope (generateVariableLoad type v) := by
  cases type with
  | staticArray elmtType count =>
      have hitr := hv.append itrSuffix
      have hval := hv.append valSuffix
      have hitrVal : (Operand.var (v.text ++ itrSuffix.text)).root ≠ v.text ++ valSuffix.text := by
        simp [Operand.root, itrSuffix, valSuffix]
      have hneItr := hv.root_ne itrSuffix
      have hneVal := hv.root_ne valSuffix
      have hused : WellUsed scope (v.operand, .fixed count) := hv.used
      cases elmtType with
      | primitive type =>
          simp [WellFormed, generateVariableLoad, translateVariableType, Variable.var, hitr, hval,
            wellUsed_cons_of_ne, hitrVal, hneItr, hneVal, hused, Shape.use]
      | userDefine name =>
          simp [WellFormed, generateVariableLoad, translateVariableType, Variable.var, hitr, hval,
            wellUsed_cons_of_ne, hitrVal, hneItr, hneVal, hused, Shape.use]
      | _ => cases hflat
  | _ => exact wellFormed_load (Bool.not_eq_true' _ |>.mp hflat) hv

theorem wellFormed_size_field
    (hflat : type.isFlat = true)
    (hv : Known scope v (translateVariableType type)) :
    WellFormed scope (generateVariableSize type v) := by
  cases type with
  | staticArray elmtType count =>
      have hitr := hv.append itrSuffix
      have hinner := hv.cons (fun h => hv.root_ne itrSuffix (hv.root.trans h)) .scalar
      have helmt := wellUsed_of_resolve (resolve_index hinner.declared)
      cases elmtType with
      | primitive type => trivial
      | userDefine name => exact ⟨hitr, ⟨_, resolve_var_self _ _, rfl⟩, helmt, trivial⟩
      | _ => cases hflat
  | _ => exact wellFormed_size (Bool.not_eq_true' _ |>.mp hflat) hv

end CSharp

end Field

end Sufficient

/-- The functions that GenerateRuleCpp emits for a message with the field. -/
def Cpp.FieldWellFormed (type : TypeExpr) (f : Text) : Prop :=
  WellFormed (storeScope ++ [(f, fieldShape type)]) (generateVariableStore type (.field f)) ∧
  WellFormed (loadScope ++ [(f, fieldShape type)]) (generateVariableLoad type (.field f)) ∧
  WellFormed (sizeScope ++ [(f, fieldShape type)]) (generateVariableSize type (.field f))

/-- The functions that GenerateRuleCSharp emits for a message with the field. -/
def CSharp.FieldWellFormed (type : TypeExpr) (f : Text) : Prop :=
  WellFormed (streamScope ++ [(f, translateVariableType type)])
    (generateVariableStore type (.field f)) ∧
  WellFormed (streamScope ++ [(f, translateVariableType type)])
    (generateVariableLoad type (.field f)) ∧
  WellFormed (sizeScope ++ [(f, translateVariableType type)])
    (generateVariableSize type (.field f))

/-- A field that no parameter hides. -/
theorem known_field
    {scope : List (Text × Shape)} {name : VarName}
    (hscope : name.text ∉ names scope)
    (shape : Shape) :
    Known (scope ++ [(name.text, shape)]) (.field name.text) shape :=
  ⟨name.lexed, rfl,
    (lookup_append_of_notMem hscope _).trans (lookup_cons_self name.text shape [])⟩

theorem Cpp.wellFormed_load_of_isPrimitive
    {scope : List (Text × Shape)} {type : TypeExpr} {f : Text}
    (htype : type.isPrimitive = true)
    (hresolve : resolve scope (.field f) = some .scalar) :
    WellFormed scope (generateVariableLoad type (.field f)) := by
  cases type with
  | primitive type => exact wellUsed_of_resolve hresolve
  | _ => cases htype

theorem CSharp.size_of_isPrimitive
    {type : TypeExpr}
    (h : type.isPrimitive = true)
    (v : Variable) :
    generateVariableSize type v = .skip := by
  cases type with
  | primitive type => rfl
  | _ => cases h

/-- What has no loop is flat. -/
theorem Cpp.isFlat_of_not_loops
    {type : TypeExpr}
    (h : loadLoops type = false) :
    type.isFlat = true := by
  cases type with
  | staticArray elmtType count =>
      cases elmtType with
      | primitive type => rfl
      | _ => cases h
  | primitive type => rfl
  | string => rfl
  | userDefine name => rfl
  | _ => cases h

theorem Cpp.fieldWellFormed
    {type : TypeExpr} {name : VarName}
    (hflat : type.isFlat = true)
    (hbuf : name.text ≠ bufName)
    (hnSize : name.text = nSizeName → type.isPrimitive = true)
    (hloops : loadLoops type = true → name.text ≠ iName) :
    Cpp.FieldWellFormed type name.text := by
  have hnames : name.text ∉ names storeScope := by simpa [storeScope] using hbuf
  have hstore := known_field hnames (fieldShape type)
  refine ⟨wellFormed_store_field hflat hloops hstore, ?_, ?_⟩
  · by_cases hname : name.text = nSizeName
    · rw [hname]
      exact wellFormed_load_of_isPrimitive (hnSize hname) (resolve_var_self nSizeName .scalar)
    · exact wellFormed_load_field hflat hloops
        (known_field (by simpa [loadScope] using ⟨hname, hbuf⟩) _)
  · by_cases hname : name.text = nSizeName
    · rw [size_of_isPrimitive (hnSize hname)]
      trivial
    · exact wellFormed_size_field hflat hloops (known_field (by simpa [sizeScope] using hname) _)

theorem CSharp.fieldWellFormed
    {type : TypeExpr} {name : VarName}
    (hflat : type.isFlat = true)
    (hbuf : name.text ≠ bufName)
    (hnSize : name.text = nSizeName → type.isPrimitive = true) :
    CSharp.FieldWellFormed type name.text := by
  have hnames : name.text ∉ names streamScope := by simpa [streamScope] using hbuf
  have hstream := known_field hnames (translateVariableType type)
  refine ⟨wellFormed_store_field hflat hstream, wellFormed_load_field hflat hstream, ?_⟩
  by_cases hname : name.text = nSizeName
  · rw [size_of_isPrimitive (hnSize hname)]
    trivial
  · exact wellFormed_size_field hflat (known_field (by simpa [sizeScope] using hname) _)

/-- The output for a field is well formed exactly if its type is flat and its name is not
taken: by the buffer, by the size, or by the counter of its own loop. -/
theorem field_wellFormed_iff
    (type : TypeExpr) (name : VarName) :
    Cpp.FieldWellFormed type name.text ∧ CSharp.FieldWellFormed type name.text ↔
      type.isFlat = true ∧
      name.text ≠ bufName ∧
      (name.text = nSizeName → type.isPrimitive = true) ∧
      (name.text = iName → Cpp.loadLoops type = false) := by
  constructor
  · rintro ⟨⟨hstore, hload, -⟩, hstoreCSharp, -, -⟩
    obtain ⟨hbuf, hnSize, hi⟩ := Cpp.names_of_load hload
    refine ⟨?_, hbuf, hnSize, hi⟩
    by_cases hname : name.text = iName
    · exact Cpp.isFlat_of_not_loops (hi hname)
    · have hnames : name.text ∉ names Cpp.storeScope := by simpa [Cpp.storeScope] using hbuf
      have hfield := known_field hnames (Cpp.fieldShape type)
      rcases Cpp.flat_of_store hname hfield.declared hstore with hflat | ⟨count, rfl⟩
      · exact hflat
      · exact absurd hstoreCSharp (CSharp.not_wellFormed_store_strings count)
  · rintro ⟨hflat, hbuf, hnSize, hi⟩
    have hloops : Cpp.loadLoops type = true → name.text ≠ iName := by
      intro hloops hname
      rw [hi hname] at hloops
      cases hloops
    exact ⟨Cpp.fieldWellFormed hflat hbuf hnSize hloops,
      CSharp.fieldWellFormed hflat hbuf hnSize⟩

/-- Store of an array of strings declares the length of an element in C#. -/
theorem not_field_wellFormed :
    ¬ ∀ (type : TypeExpr) (name : VarName),
      Cpp.FieldWellFormed type name.text ∧ CSharp.FieldWellFormed type name.text := by
  intro h
  have hstore := (h (.staticArray .string ['2', '5', '6'])
    ⟨['s', 't', 'a', 't', 'i', 'c', '_', 'a', 'r', 'r', 'a', 'y', '_'], by decide⟩).2.1
  exact CSharp.not_wellFormed_store_strings _ hstore

end Emission
end Idlc
end Gamnet
