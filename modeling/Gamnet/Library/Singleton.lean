import Gamnet.Lib.DepthFirst
import Mathlib.Data.String.Basic

/-!
# Initialisers

SingletonInitHelper calls the init function of every class, in the order of their names. An
init function may call those of other classes before it does its own work, and the helper
remembers which ones it has called.

Init calls every init function once, whatever they call, and it returns. Without a cycle the
own work of a function is done behind that of every function that it calls
(`init_dependencies_first`).
-/

namespace Gamnet

open DepthFirst

/-- A registered init function: its name, and the names that it passes to CallInitFunc before
its own work. -/
structure InitFuncInfo where
  name : String
  func : List String

/-- The insertion into a map with its keys in order. A key that is there already is refused. -/
def insertInfo (info : InitFuncInfo) : List InitFuncInfo → Option (List InitFuncInfo)
  | [] => some [info]
  | other :: infos =>
      if info.name < other.name then some (info :: other :: infos)
      else if other.name < info.name then (insertInfo info infos).map (other :: ·)
      else none

theorem perm_of_insertInfo
    {info : InitFuncInfo} {infos infos' : List InitFuncInfo}
    (h : insertInfo info infos = some infos') :
    infos'.Perm (info :: infos) := by
  induction infos generalizing infos' with
  | nil =>
      cases h
      exact List.Perm.refl _
  | cons first infos ih =>
      unfold insertInfo at h
      split_ifs at h with hlt hgt
      · cases h
        exact List.Perm.refl _
      · obtain ⟨infos₁, hrest, rfl⟩ := Option.map_eq_some_iff.mp h
        exact ((ih hrest).cons first).trans (List.Perm.swap info first infos)

/-- Only a key that is there already is refused. -/
theorem exists_insertInfo
    {info : InitFuncInfo} {infos : List InitFuncInfo}
    (hnew : info.name ∉ infos.map InitFuncInfo.name) :
    ∃ infos', insertInfo info infos = some infos' := by
  induction infos with
  | nil =>
      exact ⟨[info], rfl⟩
  | cons first infos ih =>
      rw [List.map_cons, List.mem_cons, not_or] at hnew
      obtain ⟨infos₁, hrest⟩ := ih hnew.2
      unfold insertInfo
      split_ifs with hlt hgt
      · exact ⟨_, rfl⟩
      · exact ⟨first :: infos₁, by rw [hrest, Option.map_some]⟩
      · exact absurd (le_antisymm (le_of_not_gt hgt) (le_of_not_gt hlt)) hnew.1

theorem insertInfo_pairwise
    {info : InitFuncInfo} {infos infos' : List InitFuncInfo}
    (hinfos : infos.Pairwise fun a b => a.name < b.name)
    (h : insertInfo info infos = some infos') :
    infos'.Pairwise fun a b => a.name < b.name := by
  induction infos generalizing infos' with
  | nil =>
      cases h
      exact List.pairwise_singleton _ _
  | cons first infos ih =>
      obtain ⟨hfirst, hrest⟩ := List.pairwise_cons.mp hinfos
      unfold insertInfo at h
      split_ifs at h with hlt hgt
      · cases h
        refine List.pairwise_cons.mpr ⟨?_, hinfos⟩
        intro other hother
        rcases List.mem_cons.mp hother with rfl | hother
        · exact hlt
        · exact lt_trans hlt (hfirst other hother)
      · obtain ⟨infos₁, hinsert, rfl⟩ := Option.map_eq_some_iff.mp h
        refine List.pairwise_cons.mpr ⟨?_, ih hrest hinsert⟩
        intro other hother
        rcases List.mem_cons.mp ((perm_of_insertInfo hinsert).mem_iff.mp hother) with
          rfl | hother
        · exact hgt
        · exact hfirst other hother

/-- The init functions that are registered, in the order of their names. -/
structure SingletonInitHelper where
  mapInitFuncInfos : List InitFuncInfo
  ascending : mapInitFuncInfos.Pairwise fun a b => a.name < b.name

namespace SingletonInitHelper

/-- RegisterInitFunction. -/
def registerInitFunction (helper : SingletonInitHelper) (info : InitFuncInfo) :
    Except String SingletonInitHelper :=
  match hinsert : insertInfo info helper.mapInitFuncInfos with
  | none => .error ("duplicated init function registration(name:" ++ info.name ++ ")")
  | some infos => .ok ⟨infos, insertInfo_pairwise helper.ascending hinsert⟩

/-- The registrations of the static objects, one after the other. -/
def registerInitFunctions (infos : List InitFuncInfo) : Except String SingletonInitHelper :=
  infos.foldlM registerInitFunction ⟨[], List.Pairwise.nil⟩

/-- Call some init functions one after the other, until one throws. -/
def callEach (call : String → Tour String → Option (Except String (Tour String))) :
    List String → Tour String → Option (Except String (Tour String))
  | [], t => some (.ok t)
  | name :: names, t =>
      match call name t with
      | some (.ok t) => callEach call names t
      | other => other

variable (helper : SingletonInitHelper)

/-- The names of the init functions. -/
def names : List String :=
  helper.mapInitFuncInfos.map InitFuncInfo.name

theorem names_nodup
    (helper : SingletonInitHelper) :
    helper.names.Nodup := by
  refine List.pairwise_map.mpr (helper.ascending.imp ?_)
  intro a b hlt
  exact ne_of_lt hlt

theorem perm_of_register
    {helper helper' : SingletonInitHelper} {info : InitFuncInfo}
    (h : helper.registerInitFunction info = .ok helper') :
    helper'.mapInitFuncInfos.Perm (info :: helper.mapInitFuncInfos) := by
  unfold registerInitFunction at h
  split at h
  · cases h
  · rename_i infos hinsert
    cases h
    exact perm_of_insertInfo hinsert

/-- A new name is registered. -/
theorem exists_register
    (helper : SingletonInitHelper)
    {info : InitFuncInfo}
    (hnew : info.name ∉ helper.names) :
    ∃ helper', helper.registerInitFunction info = .ok helper' := by
  obtain ⟨infos, hinsert⟩ := exists_insertInfo hnew
  unfold registerInitFunction
  split
  · rename_i hnone
    rw [hinsert] at hnone
    cases hnone
  · exact ⟨_, rfl⟩

theorem perm_of_registers
    {infos : List InitFuncInfo} {helper helper' : SingletonInitHelper}
    (h : infos.foldlM registerInitFunction helper = .ok helper') :
    helper'.mapInitFuncInfos.Perm (infos ++ helper.mapInitFuncInfos) := by
  induction infos generalizing helper with
  | nil =>
      cases h
      exact List.Perm.refl _
  | cons info infos ih =>
      rw [List.foldlM_cons] at h
      cases hregister : helper.registerInitFunction info with
      | error what =>
          rw [hregister] at h
          cases h
      | ok helper₁ =>
          rw [hregister] at h
          exact ((ih h).trans ((perm_of_register hregister).append_left infos)).trans
            List.perm_middle

/-- In whatever order functions are registered, all of them are, if and only if no two have
the same name. -/
theorem registerInitFunctions_ok_iff
    (infos : List InitFuncInfo) :
    (∃ helper, registerInitFunctions infos = .ok helper ∧
        helper.mapInitFuncInfos.Perm infos) ↔
      (infos.map InitFuncInfo.name).Nodup := by
  constructor
  · rintro ⟨helper, -, hperm⟩
    exact (hperm.map InitFuncInfo.name).nodup_iff.mp helper.names_nodup
  · intro hnodup
    have hregister : ∀ helper : SingletonInitHelper,
        (∀ info ∈ infos, info.name ∉ helper.names) →
          ∃ helper', infos.foldlM registerInitFunction helper = .ok helper' := by
      induction infos with
      | nil =>
          exact fun helper _ => ⟨helper, rfl⟩
      | cons info infos ih =>
          intro helper hnew
          obtain ⟨hfirst, hrest⟩ := List.nodup_cons.mp hnodup
          obtain ⟨helper₁, hregister⟩ := helper.exists_register (hnew info List.mem_cons_self)
          obtain ⟨helper', hothers⟩ := ih hrest helper₁ (by
            intro other hother hmem
            have hnames := ((perm_of_register hregister).map InitFuncInfo.name).mem_iff.mp hmem
            rw [List.map_cons, List.mem_cons] at hnames
            rcases hnames with heq | hold
            · exact hfirst (heq ▸ List.mem_map_of_mem hother)
            · exact hnew other (List.mem_cons_of_mem _ hother) hold)
          refine ⟨helper', ?_⟩
          rw [List.foldlM_cons, hregister]
          exact hothers
    obtain ⟨helper, hall⟩ := hregister ⟨[], List.Pairwise.nil⟩ (fun _ _ => List.not_mem_nil)
    refine ⟨helper, hall, ?_⟩
    have hperm := perm_of_registers hall
    rwa [List.append_nil] at hperm

/-- mapInitFuncInfos.find. -/
def find (name : String) : Option InitFuncInfo :=
  helper.mapInitFuncInfos.find? fun info => info.name = name

/-- CallInitFunc, with a bound on the depth of its calls. The started names of the tour are
setInitCompleted, and the finished ones have done their own work. -/
def callInitFunc : Nat → String → Tour String → Option (Except String (Tour String))
  | 0, _, _ => none
  | n + 1, name, t =>
      match helper.find name with
      | none => some (.error ("undefined init function(name:" ++ name ++ ")"))
      | some info =>
          if info.name ∈ t.started then some (.ok t)
          else
            match callEach (callInitFunc n) info.func (t.start info.name) with
            | some (.ok t) => some (.ok (t.finish info.name))
            | other => other

/-- Init. -/
def init (n : Nat) (t : Tour String) : Option (Except String (Tour String)) :=
  callEach (helper.callInitFunc n) helper.names t

/-- The init functions that an init function calls. -/
def calls (name : String) : List String :=
  match helper.find name with
  | none => []
  | some info => info.func

/-- Init functions only call registered ones. -/
def Closed : Prop :=
  ∀ info ∈ helper.mapInitFuncInfos, ∀ name ∈ info.func, name ∈ helper.names

section Calls

variable {helper} {name : String} {t : Tour String}

theorem find_of_mem
    (hname : name ∈ helper.names) :
    ∃ info ∈ helper.mapInitFuncInfos, helper.find name = some info ∧ info.name = name := by
  obtain ⟨info, hinfo, rfl⟩ := List.mem_map.mp hname
  cases hfind : helper.find info.name with
  | none =>
      have hnone := List.find?_eq_none.mp hfind info hinfo
      simp at hnone
  | some found =>
      exact ⟨found, List.mem_of_find?_eq_some hfind, rfl, by simpa using List.find?_some hfind⟩

theorem mem_of_mem_calls
    (h : helper.Closed)
    (hname : name ∈ helper.names)
    {other : String}
    (hother : other ∈ helper.calls name) :
    other ∈ helper.names := by
  obtain ⟨info, hinfo, hfind, -⟩ := find_of_mem hname
  rw [calls, hfind] at hother
  exact h info hinfo other hother

theorem callEach_eq
    {call : String → Tour String → Option (Except String (Tour String))}
    {visit : String → Tour String → Option (Tour String)}
    {names : List String}
    (hcall : ∀ name ∈ names, ∀ t, call name t = (visit name t).map .ok) :
    callEach call names t = (visitAll visit names t).map .ok := by
  induction names generalizing t with
  | nil =>
      rfl
  | cons name names ih =>
      rw [callEach, visitAll, hcall name List.mem_cons_self]
      cases visit name t with
      | none =>
          rfl
      | some t =>
          exact ih fun other hother => hcall other (List.mem_cons_of_mem name hother)

/-- Among registered names CallInitFunc is a depth-first visit. -/
theorem callInitFunc_eq
    (h : helper.Closed)
    (n : Nat)
    (hname : name ∈ helper.names) :
    helper.callInitFunc n name t = (visit helper.calls n name t).map .ok := by
  induction n generalizing name t with
  | zero =>
      rfl
  | succ n ih =>
      obtain ⟨info, hinfo, hfind, rfl⟩ := find_of_mem hname
      have hcalls : helper.calls info.name = info.func := by
        rw [calls, hfind]
      rw [callInitFunc, visit, hfind, hcalls]
      dsimp only
      split_ifs
      · rfl
      · rw [callEach_eq fun other hother _ => ih (h info hinfo other hother)]
        cases visitAll (visit helper.calls n) info.func (t.start info.name) with
        | none =>
            rfl
        | some t =>
            rfl

end Calls

/-- The bound that is enough for Init, and what the calls add. -/
theorem exists_visitAll_names
    (hclosed : helper.Closed) :
    ∃ t, (∀ n, helper.names.length < n →
        visitAll (visit helper.calls n) helper.names .empty = some t) ∧
      ∃ started finished, Adds helper.calls helper.names .empty t started finished ∧
        (Acyclic helper.calls → Ordered helper.calls .empty finished) := by
  have hbound : remaining helper.names.toFinset .empty < helper.names.length + 1 := by
    have hfilter := Finset.card_filter_le helper.names.toFinset
      fun name => name ∉ (Tour.empty : Tour String).started
    have hcard := List.toFinset_card_le helper.names
    exact Nat.lt_succ_of_le (le_trans hfilter hcard)
  have hinside : ∀ a ∈ helper.names.toFinset, ∀ b ∈ helper.calls a, b ∈ helper.names.toFinset := by
    intro a ha b hb
    exact List.mem_toFinset.mpr (mem_of_mem_calls hclosed (List.mem_toFinset.mp ha) hb)
  obtain ⟨t, hvisits⟩ : ∃ t,
      visitAll (visit helper.calls (helper.names.length + 1)) helper.names .empty = some t :=
    exists_visitAll (fun name hname t ht => exists_visit hinside hname ht)
      (fun name hname => List.mem_toFinset.mpr hname) hbound
  refine ⟨t, ?_, adds_of_visitAll (fun _ _ _ hvisit => adds_of_visit hvisit) hvisits⟩
  intro n hn
  exact visitAll_mono (fun _ _ _ hvisit => visit_mono hn hvisit) hvisits

/-- What the calls start is registered. -/
theorem mem_names_of_reaches
    (hclosed : helper.Closed)
    {root name : String}
    (hroot : root ∈ helper.names)
    (h : Reaches helper.calls root name) :
    name ∈ helper.names := by
  induction h with
  | refl =>
      exact hroot
  | tail _ hcall ih =>
      exact mem_of_mem_calls hclosed ih hcall

/-- Init returns, and it starts every registered function once and does its own work once.
If no function calls itself, directly or through others, its own work is done behind that of
all functions that it calls. -/
theorem init_dependencies_first
    (hclosed : helper.Closed) :
    ∃ t, (∀ n, helper.names.length < n → helper.init n .empty = some (.ok t)) ∧
      (∀ name, t.started.count name = if name ∈ helper.names then 1 else 0) ∧
      (∀ name, t.finished.count name = if name ∈ helper.names then 1 else 0) ∧
      (Acyclic helper.calls → ∀ before f later, t.finished = before ++ f :: later →
        ∀ g ∈ helper.calls f, g ∈ before) := by
  obtain ⟨t, hvisits, started, finished, hadds, hordered⟩ := exists_visitAll_names helper hclosed
  have hstarted : t.started = started := hadds.started_eq
  have hfinished : t.finished = finished := hadds.finished_eq
  have hmem : ∀ name, name ∈ started ↔ name ∈ helper.names := by
    intro name
    constructor
    · intro hname
      obtain ⟨root, hroot, hreaches⟩ := hadds.reached name hname
      exact mem_names_of_reaches helper hclosed hroot hreaches
    · intro hname
      rw [← hstarted]
      exact hadds.covers name hname
  have hcount : ∀ name, started.count name = if name ∈ helper.names then 1 else 0 := by
    intro name
    simp only [hadds.nodup.count, hmem]
  refine ⟨t, ?_, ?_, ?_, ?_⟩
  · intro n hn
    rw [init, callEach_eq fun name hname _ => callInitFunc_eq hclosed n hname, hvisits n hn]
    rfl
  · rw [hstarted]
    exact hcount
  · intro name
    rw [hfinished, hadds.perm.count_eq, hcount]
  · intro hacyclic before f later heq g hg
    rw [hfinished] at heq
    rcases hordered hacyclic before f later heq g hg with hbefore | hopened
    · exact hbefore
    · exact absurd hopened.1 List.not_mem_nil

/-- Two functions, the second of which calls the first. -/
def pair : List InitFuncInfo :=
  [⟨"Network", []⟩, ⟨"Log", ["Network"]⟩]

/-- Init behind the registration of the two functions. -/
theorem init_dependencies_first_pair :
    ∃ helper, registerInitFunctions pair = .ok helper ∧
      ∃ t, (∀ n, helper.names.length < n → helper.init n .empty = some (.ok t)) ∧
        (∀ name, t.started.count name = if name ∈ helper.names then 1 else 0) ∧
        (∀ name, t.finished.count name = if name ∈ helper.names then 1 else 0) ∧
        (Acyclic helper.calls → ∀ before f later, t.finished = before ++ f :: later →
          ∀ g ∈ helper.calls f, g ∈ before) := by
  obtain ⟨helper, hregistered, hperm⟩ := (registerInitFunctions_ok_iff pair).mpr (by decide)
  refine ⟨helper, hregistered, init_dependencies_first helper ?_⟩
  intro info hinfo name hname
  rw [names, (hperm.map InitFuncInfo.name).mem_iff]
  have hcalls : ∀ info ∈ pair, ∀ name ∈ info.func, name ∈ pair.map InitFuncInfo.name := by
    decide
  exact hcalls info (hperm.mem_iff.mp hinfo) name hname

end SingletonInitHelper
end Gamnet
