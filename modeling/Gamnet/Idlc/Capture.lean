import Gamnet.Idlc.Emission

/-!
# Local variables that capture a field

In the functions that CompileMessage emits, the fields of a message are known under their
names, and so are the parameters and the local variables, which are closer. A local
variable that the code of one field declares for the whole function captures a later field
of its name, and the counter i captures a field i that is accessed in its loop.
-/

namespace Gamnet
namespace Idlc
namespace Emission

open Scope Scope.Code

/-- The field that an expression is meant to denote. -/
def Operand.fieldName? : Operand → Option Text
  | .field name => some name
  | .var _ => none
  | .index base _ => base.fieldName?

/-- The field is not hidden by a local variable. -/
def Uncaptured (scope : List (Text × Shape)) (a : Operand × Use) : Prop :=
  ∀ f, a.1.fieldName? = some f → f ∉ names scope

/-- Every occurrence of a field resolves to the field. -/
def Clean (scope : List (Text × Shape)) (code : Code) : Prop :=
  code.Meets (fun _ _ => True) Uncaptured scope

section Clean

variable {scope : List (Text × Shape)} {v : Variable} {f : Text}

/-- An operand without a field cannot be captured. -/
theorem uncaptured_of_none
    {operand : Operand}
    (h : operand.fieldName? = none)
    (use : Use) :
    Uncaptured scope (operand, use) := by
  intro f hf
  rw [h] at hf
  cases hf

@[simp] theorem uncaptured_var
    (name : Text) (use : Use) :
    Uncaptured scope (.var name, use) :=
  uncaptured_of_none rfl use

/-- A field is captured by a name of the scope, and by nothing else. -/
theorem uncaptured_iff
    {operand : Operand}
    (h : operand.fieldName? = some f)
    (use : Use) :
    Uncaptured scope (operand, use) ↔ f ∉ names scope := by
  constructor
  · exact fun hf => hf f h
  · intro hf g hg
    rw [h] at hg
    cases hg
    exact hf

@[simp] theorem fieldName?_element
    (v : Variable) (loop count : Text) :
    (v.element loop count).operand.fieldName? = v.operand.fieldName? := by
  rfl

@[simp] theorem fieldName?_var
    (name : Text) :
    (Variable.var name).operand.fieldName? = none := by
  rfl

/-- A derived name is longer than the name of the field. -/
theorem ne_append
    {t : Text}
    (hlen : f.length ≤ t.length)
    (suffix : Suffix) :
    f ≠ t ++ suffix.text := by
  rintro rfl
  rw [List.length_append] at hlen
  have hlong := suffix.long
  omega

theorem length_replaceFirst
    (c d : Char) (t : Text) :
    (replaceFirst c d t).length = t.length := by
  induction t with
  | nil => rfl
  | cons x t ih =>
      unfold replaceFirst
      split_ifs
      · rfl
      · exact congrArg Nat.succ ih

/-- Every special character is replaced by one character. -/
theorem length_replaceSpecialChar
    (t : Text) :
    (replaceSpecialChar t).length = t.length := by
  rw [replaceSpecialChar, length_replaceFirst, length_replaceFirst]

theorem notMem_of_isVarName
    (name : VarName)
    {c : Char}
    (hc : isVarNameRest c = false) :
    c ∉ name.text := by
  obtain ⟨text, lexed⟩ := name
  have hrest : ∀ x ∈ text, isVarNameRest x = true := by
    cases text with
    | nil => simp
    | cons x xs =>
        simp only [isVarName, isVarNameStart, Bool.and_eq_true, List.all_eq_true] at lexed
        intro y hy
        rcases List.mem_cons.mp hy with rfl | hy
        · simp only [isVarNameRest, Char.isAlphanum]
          grind
        · exact lexed.2 y hy
  intro hmem
  rw [hrest c hmem] at hc
  cases hc

theorem replaceFirst_of_notMem
    {c d : Char} {t : Text}
    (h : c ∉ t) :
    replaceFirst c d t = t := by
  induction t with
  | nil => rfl
  | cons x t ih =>
      rw [List.mem_cons, not_or] at h
      rw [replaceFirst, if_neg (Ne.symm h.1), ih h.2]

/-- A name of the language has no special characters. -/
theorem replaceSpecialChar_varName
    (name : VarName) :
    replaceSpecialChar name.text = name.text := by
  rw [replaceSpecialChar, replaceFirst_of_notMem (notMem_of_isVarName name (by decide)),
    replaceFirst_of_notMem (notMem_of_isVarName name (by decide))]

namespace Cpp

/-- The code for a local variable accesses no field. -/
theorem clean_store_var
    (type : TypeExpr)
    (hv : v.operand.fieldName? = none) :
    Clean scope (generateVariableStore type v) := by
  unfold Clean
  induction type generalizing scope v with
  | staticArray elmtType count ih =>
      unfold generateVariableStore
      split_ifs
      · exact uncaptured_of_none hv _
      · simp [ih, hv]
  | _ => simp_all [generateVariableStore, storeContainer, uncaptured_of_none]

theorem clean_load_var
    (type : TypeExpr)
    (hv : v.operand.fieldName? = none) :
    Clean scope (generateVariableLoad type v) := by
  unfold Clean
  induction type generalizing scope v with
  | staticArray elmtType count ih =>
      unfold generateVariableLoad
      split_ifs
      · exact uncaptured_of_none hv _
      · simp [ih, uncaptured_of_none hv]
  | _ => simp_all [generateVariableLoad, loadContainer, uncaptured_of_none]

theorem clean_size_var
    (type : TypeExpr)
    (hv : v.operand.fieldName? = none) :
    Clean scope (generateVariableSize type v) := by
  unfold Clean
  induction type generalizing scope v with
  | staticArray elmtType count ih =>
      unfold generateVariableSize
      split_ifs
      · trivial
      · simp [ih, hv]
  | list elmtType ih => 
      unfold generateVariableSize sizeContainer
      split_ifs <;> simp_all [uncaptured_of_none]
  | array elmtType ih => 
      unfold generateVariableSize sizeContainer
      split_ifs <;> simp_all [uncaptured_of_none]
  | map keyType elmtType ihkey ihelmt => 
      unfold generateVariableSize
      split_ifs <;> simp_all [uncaptured_of_none]
  | _ => simp_all [generateVariableSize, uncaptured_of_none]

/-- Store accesses the field in a loop. -/
def storeLoops : TypeExpr → Bool
  | .staticArray elmtType _ => !elmtType.isPrimitive
  | _ => false

/-- Load accesses the field in a loop. -/
def loadLoops : TypeExpr → Bool
  | .list _ => true
  | .array _ => true
  | .map _ _ => true
  | .staticArray elmtType _ => !elmtType.isPrimitive
  | _ => false

/-- Store and Load declare a variable for the whole function. -/
def measured : TypeExpr → Bool
  | .string => true
  | .list _ => true
  | .array _ => true
  | .map _ _ => true
  | _ => false

theorem declared_store
    (type : TypeExpr) (v : Variable) :
    (generateVariableStore type v).declared =
      match type with
      | .string => [(replaceSpecialChar v.text ++ sizeSuffix.text, .scalar)]
      | type => if measured type then [(v.text ++ sizeSuffix.text, .scalar)] else [] := by
  cases type with
  | staticArray elmtType count =>
      change (generateVariableStore (.staticArray elmtType count) v).declared = []
      unfold generateVariableStore
      split_ifs <;> rfl
  | _ => rfl

theorem declared_load
    (type : TypeExpr) (v : Variable) :
    (generateVariableLoad type v).declared =
      if measured type then [(v.text ++ lengthSuffix.text, .scalar)] else [] := by
  cases type with
  | staticArray elmtType count =>
      change (generateVariableLoad (.staticArray elmtType count) v).declared = []
      unfold generateVariableLoad
      split_ifs <;> rfl
  | _ => rfl

/-- The emitted Size declares nothing at the level of the field. -/
theorem declared_size
    (type : TypeExpr) (v : Variable) :
    (generateVariableSize type v).declared = [] := by
  cases type with
  | staticArray elmtType count =>
      unfold generateVariableSize
      split_ifs <;> rfl
  | _ => rfl

/-- The names that Load of a local variable declares are no names of a field that is
shorter. -/
theorem notMem_declared_load
    {type : TypeExpr}
    (hlen : f.length ≤ v.text.length) :
    f ∉ names (generateVariableLoad type v).declared := by
  have hne : f ≠ v.text ++ lengthSuffix.text := ne_append hlen _
  rw [declared_load]
  split_ifs
  · simpa using hne
  · simp

theorem clean_store_iff
    (type : TypeExpr)
    (hv : v.operand.fieldName? = some f)
    (hlen : f.length ≤ v.text.length) :
    Clean scope (generateVariableStore type v) ↔
      f ∉ names scope ∧ (storeLoops type = true → f ≠ iName) := by
  have hvar := fun scope type name => @clean_store_var scope (.var name) type rfl
  unfold Clean at hvar ⊢
  induction type generalizing scope v with
  | staticArray elmtType count ih =>
      unfold generateVariableStore storeLoops
      split_ifs with hprim
      · simp [uncaptured_iff hv, hprim]
      · have helmt : f.length ≤ (v.element iName count).text.length := by
          simp only [Variable.element, List.length_append]
          omega
        simp [ih (v := v.element iName count) hv helmt, hprim]
        tauto
  | primitive type => simp [generateVariableStore, uncaptured_iff hv, storeLoops]
  | userDefine name => simp [generateVariableStore, uncaptured_iff hv, storeLoops]
  | string =>
      have hsize : f ≠ replaceSpecialChar v.text ++ sizeSuffix.text :=
        ne_append (by rwa [length_replaceSpecialChar]) _
      simp [generateVariableStore, uncaptured_iff hv, storeLoops, hsize]
  | list elmtType ih =>
      simp [generateVariableStore, storeContainer, uncaptured_iff hv, storeLoops, hvar,
        ne_append hlen]
  | array elmtType ih =>
      simp [generateVariableStore, storeContainer, uncaptured_iff hv, storeLoops, hvar,
        ne_append hlen]
  | map keyType elmtType =>
      simp [generateVariableStore, uncaptured_iff hv, storeLoops, hvar, ne_append hlen]

theorem clean_load_iff
    (type : TypeExpr)
    (hv : v.operand.fieldName? = some f)
    (hlen : f.length ≤ v.text.length) :
    Clean scope (generateVariableLoad type v) ↔
      f ∉ names scope ∧ (loadLoops type = true → f ≠ iName) := by
  have hvar := fun scope type name => @clean_load_var scope (.var name) type rfl
  have hinner : ∀ type suffix,
      f ∉ names (generateVariableLoad type (.var (v.text ++ suffix))).declared :=
    fun type suffix => notMem_declared_load (by
      simp only [Variable.var, List.length_append]
      omega)
  unfold Clean at hvar ⊢
  cases type with
  | staticArray elmtType count =>
      unfold generateVariableLoad loadLoops
      split_ifs with hprim
      · simp [uncaptured_iff hv, hprim]
      · simp [uncaptured_iff hv, hprim, hvar, hinner, ne_append hlen]
        tauto
  | primitive type => simp [generateVariableLoad, uncaptured_iff hv, loadLoops]
  | userDefine name => simp [generateVariableLoad, uncaptured_iff hv, loadLoops]
  | string =>
      simp [generateVariableLoad, uncaptured_iff hv, loadLoops, ne_append hlen]
  | list elmtType =>
      simp [generateVariableLoad, loadContainer, uncaptured_iff hv, loadLoops, hvar, hinner,
        ne_append hlen]
      tauto
  | array elmtType =>
      simp [generateVariableLoad, loadContainer, uncaptured_iff hv, loadLoops, hvar, hinner,
        ne_append hlen]
      tauto
  | map keyType elmtType =>
      simp [generateVariableLoad, uncaptured_iff hv, loadLoops, hvar, hinner,
        ne_append hlen]
      tauto

/-- Size is clean wherever Store is. -/
theorem clean_size_of_notMem
    (type : TypeExpr)
    (hv : v.operand.fieldName? = some f)
    (hlen : f.length ≤ v.text.length)
    (hscope : f ∉ names scope)
    (hloop : storeLoops type = true → f ≠ iName) :
    Clean scope (generateVariableSize type v) := by
  have hvar := fun scope type name => @clean_size_var scope (.var name) type rfl
  have hitr : ∀ {t : Text}, f.length ≤ t.length → f ≠ t ++ itrSuffix.text :=
    fun ht => ne_append ht _
  unfold Clean at hvar ⊢
  induction type generalizing scope v with
  | primitive type => trivial
  | userDefine name => simpa [generateVariableSize, uncaptured_iff hv] using hscope
  | string => simpa [generateVariableSize, uncaptured_iff hv] using hscope
  | list elmtType ih =>
      simp [generateVariableSize, sizeContainer, uncaptured_iff hv, hvar, hitr hlen, hscope]
      split_ifs <;> trivial
  | array elmtType ih =>
      simp [generateVariableSize, sizeContainer, uncaptured_iff hv, hvar, hitr hlen, hscope]
      split_ifs <;> trivial
  | map keyType elmtType =>
      simp [generateVariableSize, uncaptured_iff hv, hvar, hitr hlen, hscope]
      split_ifs <;> trivial
  | staticArray elmtType count ih =>
      unfold generateVariableSize
      split_ifs with hprim
      · trivial
      · have hne : f ≠ iName := hloop (by simp [storeLoops, hprim])
        have helmt : f.length ≤ (v.element iName count).text.length := by
          simp only [Variable.element, List.length_append]
          omega
        have hinner := @ih ((iName, .scalar) :: scope) (v.element iName count) hv helmt
          (by simpa using ⟨hne, hscope⟩) (fun _ => hne)
        simpa using hinner

theorem clean_size_field
    (type : TypeExpr)
    (hscope : f ∉ names scope)
    (hloop : storeLoops type = true → f ≠ iName) :
    Clean scope (generateVariableSize type (.field f)) :=
  clean_size_of_notMem type rfl (Nat.le_refl _) hscope hloop

theorem storeLoops_imp_loadLoops
    {type : TypeExpr}
    (h : storeLoops type = true) :
    loadLoops type = true := by
  cases type with
  | staticArray elmtType count => exact h
  | _ => cases h

section Fields

variable
  {generate : TypeExpr → Variable → Code}
  {loops : TypeExpr → Bool}
  {suffix : Text}

/-- Field by field: what the scope at its code must not know, and what the code adds to the
scope of the later fields. -/
theorem clean_compileFields_iff
    (hclean :
      ∀ {scope : List (Text × Shape)} (type : TypeExpr) (name : Text),
        Clean scope (generate type (.field name)) ↔
          name ∉ names scope ∧ (loops type = true → name ≠ iName))
    (hdeclared :
      ∀ (type : TypeExpr) (name : VarName),
        names (generate type (.field name.text)).declared =
          if measured type then [name.text ++ suffix] else [])
    (scope : List (Text × Shape)) (fields : List VarDecl) :
    Clean scope (compileFields generate fields) ↔
      (∀ field ∈ fields,
        field.varName.text ∉ names scope ∧
          (loops field.varType = true → field.varName.text ≠ iName)) ∧
      fields.Pairwise fun earlier later =>
        measured earlier.varType = true →
          later.varName.text ≠ earlier.varName.text ++ suffix := by
  induction fields generalizing scope with
  | nil => simp [Clean, compileFields]
  | cons field fields ih =>
      have hfirst := @hclean scope field.varType field.varName.text
      have hrest := ih ((generate field.varType (.field field.varName.text)).declared ++ scope)
      have hnames : ∀ name,
          name ∉ names ((generate field.varType (.field field.varName.text)).declared ++ scope) ↔
            (measured field.varType = true → name ≠ field.varName.text ++ suffix) ∧
              name ∉ names scope := by
        intro name
        rw [names_append, hdeclared]
        split_ifs with hmeasured <;> simp [hmeasured]
      have hcons :
          Clean scope (compileFields generate (field :: fields)) ↔
            Clean scope (generate field.varType (.field field.varName.text)) ∧
              Clean ((generate field.varType (.field field.varName.text)).declared ++ scope)
                (compileFields generate fields) :=
        meets_all_cons
      rw [hcons, hfirst, hrest, List.forall_mem_cons, List.pairwise_cons]
      simp only [hnames]
      constructor
      · rintro ⟨hfield, hfields, hpairs⟩
        exact ⟨⟨hfield, fun later hlater => ⟨(hfields later hlater).1.2, (hfields later hlater).2⟩⟩,
          fun later hlater => (hfields later hlater).1.1, hpairs⟩
      · rintro ⟨⟨hfield, hfields⟩, hlater, hpairs⟩
        exact ⟨hfield,
          fun later hmem => ⟨⟨hlater later hmem, (hfields later hmem).1⟩, (hfields later hmem).2⟩,
          hpairs⟩

theorem clean_store_fields_iff
    (scope : List (Text × Shape)) (fields : List VarDecl) :
    Clean scope (compileFields generateVariableStore fields) ↔
      (∀ field ∈ fields,
        field.varName.text ∉ names scope ∧
          (storeLoops field.varType = true → field.varName.text ≠ iName)) ∧
      fields.Pairwise fun earlier later =>
        measured earlier.varType = true →
          later.varName.text ≠ earlier.varName.text ++ sizeSuffix.text := by
  apply clean_compileFields_iff
  · exact fun type name => clean_store_iff type rfl (Nat.le_refl _)
  · intro type name
    rw [declared_store]
    cases type with
    | string => simp [Variable.field, replaceSpecialChar_varName, measured]
    | _ => simp [Variable.field, measured]

theorem clean_load_fields_iff
    (scope : List (Text × Shape)) (fields : List VarDecl) :
    Clean scope (compileFields generateVariableLoad fields) ↔
      (∀ field ∈ fields,
        field.varName.text ∉ names scope ∧
          (loadLoops field.varType = true → field.varName.text ≠ iName)) ∧
      fields.Pairwise fun earlier later =>
        measured earlier.varType = true →
          later.varName.text ≠ earlier.varName.text ++ lengthSuffix.text := by
  apply clean_compileFields_iff
  · exact fun type name => clean_load_iff type rfl (Nat.le_refl _)
  · intro type name
    rw [declared_load]
    split_ifs <;> rfl

theorem clean_size_fields
    {scope : List (Text × Shape)} {fields : List VarDecl}
    (h : ∀ field ∈ fields,
      field.varName.text ∉ names scope ∧
        (storeLoops field.varType = true → field.varName.text ≠ iName)) :
    Clean scope (compileFields generateVariableSize fields) := by
  induction fields with
  | nil => trivial
  | cons field fields ih =>
      rw [List.forall_mem_cons] at h
      have hfirst := clean_size_field field.varType h.1.1 h.1.2
      refine meets_all_cons.mpr ⟨hfirst, ?_⟩
      rw [declared_size]
      exact ih h.2

/-- No parameter or local variable captures a field if and only if the names of the fields
avoid the parameters, the loop counter where it is used, and what the earlier fields
declare. -/
theorem fields_uncaptured_iff
    (fields : List VarDecl) :
    (Clean storeScope (compileFields generateVariableStore fields) ∧
      Clean loadScope (compileFields generateVariableLoad fields) ∧
      Clean sizeScope (compileFields generateVariableSize fields)) ↔
    (∀ field ∈ fields,
      field.varName.text ≠ bufName ∧
      field.varName.text ≠ nSizeName ∧
      (loadLoops field.varType = true → field.varName.text ≠ iName)) ∧
    fields.Pairwise fun earlier later =>
      measured earlier.varType = true →
        later.varName.text ≠ earlier.varName.text ++ sizeSuffix.text ∧
        later.varName.text ≠ earlier.varName.text ++ lengthSuffix.text := by
  rw [clean_store_fields_iff, clean_load_fields_iff]
  constructor
  · rintro ⟨⟨-, hsizes⟩, ⟨hload, hlengths⟩, -⟩
    constructor
    · intro field hfield
      have h := hload field hfield
      simp only [loadScope, names_cons, names_nil, List.mem_cons, List.not_mem_nil,
        or_false, not_or] at h
      exact ⟨h.1.2, h.1.1, h.2⟩
    · exact (hsizes.and hlengths).imp fun ⟨h, h'⟩ hmeasured => ⟨h hmeasured, h' hmeasured⟩
  · rintro ⟨hnames, hpairs⟩
    refine ⟨⟨?_, hpairs.imp fun h hmeasured => (h hmeasured).1⟩,
      ⟨?_, hpairs.imp fun h hmeasured => (h hmeasured).2⟩, ?_⟩
    · intro field hfield
      obtain ⟨hbuf, -, hi⟩ := hnames field hfield
      exact ⟨by simpa [storeScope] using hbuf, fun h => hi (storeLoops_imp_loadLoops h)⟩
    · intro field hfield
      obtain ⟨hbuf, hsize, hi⟩ := hnames field hfield
      exact ⟨by simpa [loadScope] using ⟨hsize, hbuf⟩, hi⟩
    · refine clean_size_fields fun field hfield => ?_
      obtain ⟨-, hsize, hi⟩ := hnames field hfield
      exact ⟨by simpa [sizeScope] using hsize, fun h => hi (storeLoops_imp_loadLoops h)⟩

/-- Store writes the length of the string x in the place of the field x_size. -/
theorem fields_not_uncaptured :
    ¬ ∀ fields : List VarDecl, (fields.map fun field => field.varName.text).Nodup →
      Clean storeScope (compileFields generateVariableStore fields) ∧
      Clean loadScope (compileFields generateVariableLoad fields) ∧
      Clean sizeScope (compileFields generateVariableSize fields) := by
  intro hclean
  have hstore := (hclean
    [⟨.string, ⟨['x'], by decide⟩⟩,
      ⟨.primitive .int32, ⟨['x', '_', 's', 'i', 'z', 'e'], by decide⟩⟩]
    (by simp)).1
  have hpairs := ((clean_store_fields_iff _ _).mp hstore).2
  exact (List.pairwise_cons.mp hpairs).1 _ (List.mem_singleton.mpr rfl) rfl rfl

end Fields

end Cpp

end Clean

end Emission
end Idlc
end Gamnet
