import Gamnet.Router.RouterHandler
import Gamnet.Tcp.LinkManager

/-!
# Closing a router session

When a router session closes, the route tables should lose exactly the entries
that refer to it (`Tables.purge`). Unregistering goes by the current address of
the session instead: it erases the uni-cast entry of that address, whoever it
refers to, and one element of each list of the service name.

`Routed` says when this is the same: no table refers to the session and nothing
is found under its address, or it is routed under its current address and
nowhere else, and the sessions that share its id come last in the two lists.
-/

namespace Gamnet
namespace Router

section Purging

/-- A list without the pointers to session s. -/
def purgeList (s : SessionId) (lst : List Pointer) : List Pointer :=
  lst.filter (fun x => decide (x ≠ some s))

/-- The tables without the entries that refer to session s. -/
def Tables.purge (t : Tables) (s : SessionId) : Tables where
  uni := fun k => if t.uni k = some s then none else t.uni k
  multi := fun name => (t.multi name).map (purgeList s)
  any := fun name => (t.any name).map fun entry =>
    (entry.1, purgeList s entry.2)

/-- No uni-cast route leads to session s. -/
def Tables.FreeUni (t : Tables) (s : SessionId) : Prop :=
  ∀ k, t.uni k ≠ some s

/-- Session s is in no multi-cast list. -/
def Tables.FreeMulti (t : Tables) (s : SessionId) : Prop :=
  ∀ name lst, t.multi name = some lst → some s ∉ lst

/-- Session s is in no any-cast list. -/
def Tables.FreeAny (t : Tables) (s : SessionId) : Prop :=
  ∀ name first lst, t.any name = some (first, lst) → some s ∉ lst

/-- No table refers to session s. -/
structure Tables.Free (t : Tables) (s : SessionId) : Prop where
  uni : t.FreeUni s
  multi : t.FreeMulti s
  any : t.FreeAny s

theorem purgeList_eq_self_iff
    (s : SessionId) (lst : List Pointer) :
    purgeList s lst = lst ↔ some s ∉ lst := by
  simp only [purgeList, List.filter_eq_self, decide_eq_true_eq]
  constructor
  · intro h hs
    exact h (some s) hs rfl
  · rintro h x hx rfl
    exact h hx

variable {t : Tables} {s : SessionId}

theorem purge_uni_eq_iff :
    (t.purge s).uni = t.uni ↔ t.FreeUni s := by
  constructor
  · intro h k hk
    have hk' := congrFun h k
    simp only [Tables.purge, hk, if_true] at hk'
    cases hk'
  · intro h
    funext k
    simp only [Tables.purge]
    rw [if_neg (h k)]

theorem purge_multi_eq_iff :
    (t.purge s).multi = t.multi ↔ t.FreeMulti s := by
  constructor
  · intro h name lst hlst
    have hname := congrFun h name
    simp only [Tables.purge, hlst, Option.map_some, Option.some.injEq] at hname
    exact (purgeList_eq_self_iff s lst).mp hname
  · intro h
    funext name
    simp only [Tables.purge]
    cases hlst : t.multi name with
    | none =>
        rfl
    | some lst =>
        rw [Option.map_some, (purgeList_eq_self_iff s lst).mpr (h name lst hlst)]

theorem purge_any_eq_iff :
    (t.purge s).any = t.any ↔ t.FreeAny s := by
  constructor
  · intro h name first lst hlst
    have hname := congrFun h name
    simp only [Tables.purge, hlst, Option.map_some, Option.some.injEq,
      Prod.mk.injEq, true_and] at hname
    exact (purgeList_eq_self_iff s lst).mp hname
  · intro h
    funext name
    simp only [Tables.purge]
    cases hlst : t.any name with
    | none =>
        rfl
    | some entry =>
        obtain ⟨first, lst⟩ := entry
        rw [Option.map_some,
          (purgeList_eq_self_iff s lst).mpr (h name first lst hlst)]

/-- Tables are equal when the tables of each caster are. -/
theorem Tables.eq_iff
    {t t' : Tables} :
    t = t' ↔ t.uni = t'.uni ∧ t.multi = t'.multi ∧ t.any = t'.any := by
  constructor
  · rintro rfl
    exact ⟨rfl, rfl, rfl⟩
  · rintro ⟨huni, hmulti, hany⟩
    cases t
    cases t'
    simp only [Tables.mk.injEq]
    exact ⟨huni, hmulti, hany⟩

theorem eq_purge_iff_free :
    t = t.purge s ↔ t.Free s := by
  rw [Tables.eq_iff]
  constructor
  · rintro ⟨huni, hmulti, hany⟩
    exact ⟨purge_uni_eq_iff.mp huni.symm, purge_multi_eq_iff.mp hmulti.symm,
      purge_any_eq_iff.mp hany.symm⟩
  · rintro ⟨huni, hmulti, hany⟩
    exact ⟨(purge_uni_eq_iff.mpr huni).symm, (purge_multi_eq_iff.mpr hmulti).symm,
      (purge_any_eq_iff.mpr hany).symm⟩

end Purging

section Routing

variable (sessions : SessionId → Session)

/-- Session s is the uni-cast route of its address, and of no other. -/
structure RoutedUni (t : Tables) (s : SessionId) (addr : Address) : Prop where
  route : t.uni addr.key = some s
  only : ∀ k, k ≠ addr.key → t.uni k ≠ some s

/-- A list of session pointers from which the erase call takes session s alone:
there is no null pointer, session s occurs once, and behind it the sessions with
the same id come last. -/
structure RoutedIn (s : SessionId) (id : Nat) (lst : List Pointer) :
    Prop where
  noNull : none ∉ lst
  removable : RemoveIf.Removable (hasId sessions id) (some s) lst

/-- Session s is in the multi-cast list of its service name, and in no other. -/
structure RoutedMulti (t : Tables) (s : SessionId) (addr : Address) :
    Prop where
  route : ∃ lst, t.multi addr.serviceName = some lst ∧
    RoutedIn sessions s addr.id lst
  only : ∀ name lst, name ≠ addr.serviceName → t.multi name = some lst →
    some s ∉ lst

/-- Session s is in the any-cast list of its service name, and in no other. -/
structure RoutedAny (t : Tables) (s : SessionId) (addr : Address) : Prop where
  route : ∃ first lst, t.any addr.serviceName = some (first, lst) ∧
    RoutedIn sessions s addr.id lst
  only : ∀ name first lst, name ≠ addr.serviceName →
    t.any name = some (first, lst) → some s ∉ lst

/-- The routes of a session are in order when it has none and its address leads
nowhere, or when its current address is the one under which it is routed. -/
def Routed (w : World) (s : SessionId) : Prop :=
  let addr := (w.sessions s).address
  (w.tables.Free s ∧
      (addr.serviceName = [] ∨ w.tables.uni addr.key = none)) ∨
    (addr.serviceName ≠ [] ∧
      RoutedUni w.tables s addr ∧
      RoutedMulti w.sessions w.tables s addr ∧
      RoutedAny w.sessions w.tables s addr)

/-- A service name with a uni-cast route has a multi-cast list, and one with a
multi-cast member has an any-cast list. -/
structure Tables.Linked (t : Tables) : Prop where
  multi : ∀ k, t.uni k ≠ none → t.multi k.serviceName ≠ none
  any : ∀ name lst, t.multi name = some lst → lst ≠ [] → t.any name ≠ none

end Routing

section Closing

variable {sessions : SessionId → Session} {t : Tables} {s : SessionId}
variable {addr : Address}

/-- Session s carries the id that is erased. -/
theorem hasId_self
    (haddr : (sessions s).address = addr) :
    hasId sessions addr.id (some s) = true := by
  simp only [hasId, haddr, decide_true]

/-- The erase call takes session s alone from exactly the lists in which it is
routed. -/
theorem eraseSessions_eq_purgeList_iff
    (haddr : (sessions s).address = addr)
    (lst : List Pointer) :
    eraseSessions sessions addr.id lst = .ok (purgeList s lst) ↔
      RoutedIn sessions s addr.id lst := by
  have herase : RemoveIf.eraseAt
      (RemoveIf.removeIf (hasId sessions addr.id) none lst) =
        some (purgeList s lst) ↔ _ :=
    RemoveIf.erase_removeIf_eq_iff (hasId_self haddr)
  simp only [eraseSessions]
  constructor
  · intro h
    split at h
    · cases h
    · rename_i hnull
      refine ⟨hnull, herase.mp ?_⟩
      split at h
      · cases h
      · rename_i lst' hlst'
        rw [hlst']
        cases h
        rfl
  · rintro ⟨hnull, hremovable⟩
    rw [if_neg hnull, herase.mpr hremovable]

/-- A table of lists in which one list is replaced and every list should be
purged. -/
theorem update_eq_map_iff
    {β : Type} {f : List UInt8 → Option β} {g : β → β}
    {name : List UInt8} {b b' : β}
    (hb : f name = some b) :
    Function.update f name (some b') = (fun n => (f n).map g) ↔
      b' = g b ∧ ∀ n c, n ≠ name → f n = some c → g c = c := by
  constructor
  · intro h
    refine ⟨?_, ?_⟩
    · have hname := congrFun h name
      rw [Function.update_self, hb, Option.map_some, Option.some.injEq] at hname
      exact hname
    · intro n c hn hc
      have hother := congrFun h n
      rw [Function.update_of_ne hn, hc, Option.map_some,
        Option.some.injEq] at hother
      exact hother.symm
  · rintro ⟨rfl, hothers⟩
    funext n
    by_cases hn : n = name
    · subst hn
      rw [Function.update_self, hb, Option.map_some]
    · rw [Function.update_of_ne hn]
      cases hc : f n with
      | none =>
          rfl
      | some c =>
          rw [Option.map_some, hothers n c hn hc]

theorem update_uni_eq_purge_iff
    (hroute : t.uni addr.key ≠ none) :
    Function.update t.uni addr.key none = (t.purge s).uni ↔
      RoutedUni t s addr := by
  constructor
  · intro h
    refine ⟨?_, ?_⟩
    · have hkey := congrFun h addr.key
      simp only [Tables.purge, Function.update_self] at hkey
      by_contra hne
      rw [if_neg hne] at hkey
      exact hroute hkey.symm
    · intro k hk hs
      have hother := congrFun h k
      simp only [Tables.purge, Function.update_of_ne hk, hs, if_true] at hother
      cases hother
  · rintro ⟨hself, hothers⟩
    funext k
    simp only [Tables.purge]
    by_cases hk : k = addr.key
    · subst hk
      rw [Function.update_self, if_pos hself]
    · rw [Function.update_of_ne hk, if_neg (hothers k hk)]

theorem update_multi_eq_purge_iff
    (haddr : (sessions s).address = addr)
    {lst lst' : List Pointer}
    (hlst : t.multi addr.serviceName = some lst)
    (herase : eraseSessions sessions addr.id lst = .ok lst') :
    Function.update t.multi addr.serviceName (some lst') = (t.purge s).multi ↔
      RoutedMulti sessions t s addr := by
  have hiff := eraseSessions_eq_purgeList_iff haddr lst
  rw [herase, Except.ok.injEq] at hiff
  simp only [Tables.purge]
  rw [update_eq_map_iff hlst, hiff]
  constructor
  · rintro ⟨hrouted, hothers⟩
    refine ⟨⟨lst, hlst, hrouted⟩, ?_⟩
    intro name other hname hother
    exact (purgeList_eq_self_iff s other).mp (hothers name other hname hother)
  · rintro ⟨⟨lst₁, hlst₁, hrouted⟩, hothers⟩
    rw [hlst, Option.some.injEq] at hlst₁
    subst hlst₁
    refine ⟨hrouted, ?_⟩
    intro name other hname hother
    exact (purgeList_eq_self_iff s other).mpr (hothers name other hname hother)

theorem update_any_eq_purge_iff
    (haddr : (sessions s).address = addr)
    {first : Nat} {lst lst' : List Pointer}
    (hlst : t.any addr.serviceName = some (first, lst))
    (herase : eraseSessions sessions addr.id lst = .ok lst') :
    Function.update t.any addr.serviceName (some (first, lst')) =
        (t.purge s).any ↔
      RoutedAny sessions t s addr := by
  have hiff := eraseSessions_eq_purgeList_iff haddr lst
  rw [herase, Except.ok.injEq] at hiff
  simp only [Tables.purge]
  rw [update_eq_map_iff hlst, Prod.mk.injEq, hiff]
  constructor
  · rintro ⟨⟨_, hrouted⟩, hothers⟩
    refine ⟨⟨first, lst, hlst, hrouted⟩, ?_⟩
    intro name first' other hname hother
    have hpurged := hothers name (first', other) hname hother
    rw [Prod.mk.injEq] at hpurged
    exact (purgeList_eq_self_iff s other).mp hpurged.2
  · rintro ⟨⟨first₁, lst₁, hlst₁, hrouted⟩, hothers⟩
    rw [hlst, Option.some.injEq, Prod.mk.injEq] at hlst₁
    obtain ⟨rfl, rfl⟩ := hlst₁
    refine ⟨⟨rfl, hrouted⟩, ?_⟩
    rintro name ⟨first', other⟩ hname hother
    rw [(purgeList_eq_self_iff s other).mpr
      (hothers name first' other hname hother)]

/-- A routed list has a member. -/
theorem RoutedIn.ne_nil
    {id : Nat} {lst : List Pointer}
    (h : RoutedIn sessions s id lst) :
    lst ≠ [] := by
  obtain ⟨u, v, w, rfl, _⟩ := h.removable
  simp

/-- Unregistering the current address of a session that has a uni-cast route
purges the tables exactly when the session is routed under it. -/
theorem unregisterAddress_purges_iff
    (hlinked : t.Linked)
    (haddr : (sessions s).address = addr)
    (hroute : t.uni addr.key ≠ none) :
    (∃ b, unregisterAddress sessions t addr = .ok (b, t.purge s)) ↔
      RoutedUni t s addr ∧ RoutedMulti sessions t s addr ∧
        RoutedAny sessions t s addr := by
  obtain ⟨r, hr⟩ := Option.ne_none_iff_exists'.mp hroute
  obtain ⟨lst, hlst⟩ :=
    Option.ne_none_iff_exists'.mp (hlinked.multi addr.key hroute)
  have hlst' : t.multi addr.serviceName = some lst := hlst
  have hmultiIff := eraseSessions_eq_purgeList_iff haddr lst
  simp only [unregisterAddress, unregisterUni, hr, unregisterMulti, hlst',
    unregisterAny]
  cases herase : eraseSessions sessions addr.id lst with
  | error e =>
      constructor
      · rintro ⟨b, h⟩
        cases h
      · rintro ⟨_, ⟨⟨lst₁, hlst₁, hrouted⟩, _⟩, _⟩
        rw [hlst', Option.some.injEq] at hlst₁
        subst hlst₁
        rw [hmultiIff.mpr hrouted] at herase
        cases herase
  | ok erased =>
      have hmulti := update_multi_eq_purge_iff haddr hlst' herase
      cases hany : t.any addr.serviceName with
      | none =>
          constructor
          · rintro ⟨b, h⟩
            simp only [hany, Except.ok.injEq, Prod.mk.injEq] at h
            have hrouted := hmulti.mp (congrArg Tables.multi h.2)
            obtain ⟨lst₁, hlst₁, hrouted⟩ := hrouted.route
            exact absurd hany
              (hlinked.any addr.serviceName lst₁ hlst₁ hrouted.ne_nil)
          · rintro ⟨_, _, ⟨⟨first, lst₁, hlst₁, _⟩, _⟩⟩
            rw [hany] at hlst₁
            cases hlst₁
      | some entry =>
          obtain ⟨first, lst₂⟩ := entry
          have hanyIff := eraseSessions_eq_purgeList_iff haddr lst₂
          simp only [hany]
          cases herase₂ : eraseSessions sessions addr.id lst₂ with
          | error e =>
              constructor
              · rintro ⟨b, h⟩
                cases h
              · rintro ⟨_, _, ⟨⟨first₁, lst₁, hlst₁, hrouted⟩, _⟩⟩
                rw [hany, Option.some.injEq, Prod.mk.injEq] at hlst₁
                obtain ⟨_, rfl⟩ := hlst₁
                rw [hanyIff.mpr hrouted] at herase₂
                cases herase₂
          | ok erased₂ =>
              have hlast := update_any_eq_purge_iff haddr hany herase₂
              rw [← update_uni_eq_purge_iff hroute, ← hmulti, ← hlast]
              simp only [Except.ok.injEq, Prod.mk.injEq, exists_and_right,
                exists_eq', true_and]
              exact Tables.eq_iff

end Closing

section Runs

/-- What closing a session should do to the tables. -/
def Purges (w : World) (s : SessionId) (r : Except Crash World) : Prop :=
  ∃ w', r = .ok w' ∧ w'.tables = w.tables.purge s

/-- A session that closes leaves the purged tables behind exactly when its
routes are in order. -/
theorem onClose_purges_iff
    {w : World} (hlinked : w.tables.Linked) (s : SessionId) :
    Purges w s (onClose w s) ↔ Routed w s := by
  simp only [Purges, onClose, Routed]
  by_cases hname : (w.sessions s).address.serviceName = []
  · simp only [hname, ne_eq, not_true_eq_false, if_false, Except.ok.injEq,
      exists_eq_left', World.setSession_tables, true_or, and_true, false_and,
      or_false]
    exact eq_purge_iff_free
  · simp only [hname, ne_eq, not_false_eq_true, if_true, false_or, true_and]
    by_cases hroute : w.tables.uni (w.sessions s).address.key = none
    · have hunregister : unregisterAddress w.sessions w.tables
          (w.sessions s).address = .ok (false, w.tables) := by
        simp only [unregisterAddress, unregisterUni, hroute]
      have hnot : ¬ RoutedUni w.tables s (w.sessions s).address := by
        intro h
        have hself := h.route
        rw [hroute] at hself
        cases hself
      simp only [hunregister, Except.ok.injEq, exists_eq_left',
        World.setSession_tables, hroute, and_true, hnot, false_and, or_false]
      exact eq_purge_iff_free
    · have hself : (w.sessions s).address = (w.sessions s).address := rfl
      have hiff := unregisterAddress_purges_iff hlinked hself hroute
      simp only [hroute, and_false, false_or]
      rw [← hiff]
      cases unregisterAddress w.sessions w.tables (w.sessions s).address with
      | error e =>
          simp
      | ok r =>
          obtain ⟨b, t⟩ := r
          simp

/-- The session that a step closes, if any. -/
def Step.closes (w : World) : Step → Option SessionId
  | .close s => if (w.sessions s).attached then some s else none
  | .setAddressAns s (some (errorCode, _)) =>
      if errorCode ≠ ErrorCode.success.value ∧ (w.sessions s).attached then
        some s
      else none
  | _ => none

variable (env : Env)

theorem step_of_closes
    {w : World} {a : Step} {s : SessionId}
    (h : a.closes w = some s) :
    step env w a = onClose w s := by
  cases a with
  | close t =>
      simp only [Step.closes] at h
      split at h
      · rename_i hattached
        cases h
        simp only [step, hattached, if_true]
      · cases h
  | setAddressAns t ans =>
      cases ans with
      | none =>
          cases h
      | some ans =>
          obtain ⟨errorCode, remoteAddress⟩ := ans
          simp only [Step.closes] at h
          split at h
          · rename_i hcloses
            cases h
            simp only [step, recvSetAddressAns]
            rw [if_pos hcloses.1, if_pos hcloses.2]
          · cases h
  | _ =>
      cases h

/-- A property of every step of a run that closes a session. -/
def EveryClose (P : World → SessionId → Except Crash World → Prop) :
    World → List Step → Prop
  | _, [] => True
  | w, a :: steps =>
      (∀ s, a.closes w = some s → P w s (step env w a)) ∧
        ∀ w', step env w a = .ok w' → EveryClose P w' steps

end Runs

section LinkedTables

theorem linked_initial
    (localAddress : Address) :
    (World.initial localAddress).tables.Linked := by
  refine ⟨?_, ?_⟩
  · intro k hk
    exact absurd rfl hk
  · intro name lst hlst
    cases hlst

/-- A new route is in a list when the list of its service is made. -/
theorem Tables.Linked.multi_update
    {t : Tables}
    (h : t.Linked)
    (addr : Address) (s : SessionId) (lst : List (Option SessionId)) :
    ∀ k, Function.update t.uni addr.key (some s) k ≠ none →
      Function.update t.multi addr.serviceName (some lst)
        k.serviceName ≠ none := by
  intro k hk
  by_cases hname : k.serviceName = addr.serviceName
  · rw [hname, Function.update_self]
    exact Option.some_ne_none lst
  · have hkey : k ≠ addr.key := by
      rintro rfl
      exact hname rfl
    rw [Function.update_of_ne hkey] at hk
    rw [Function.update_of_ne hname]
    exact h.multi k hk

/-- A list that is not empty has an entry of the cursors when one is made for its
service. -/
theorem Tables.Linked.any_update
    {t : Tables}
    (h : t.Linked)
    (name : List UInt8) (more : List (Option SessionId))
    (entry : Nat × List (Option SessionId)) :
    ∀ name' lst, Function.update t.multi name (some more) name' = some lst →
      lst ≠ [] →
      Function.update t.any name (some entry) name' ≠ none := by
  intro name' lst hlst hne
  by_cases hname : name' = name
  · rw [hname, Function.update_self]
    exact Option.some_ne_none entry
  · rw [Function.update_of_ne hname] at hlst ⊢
    exact h.any name' lst hlst hne

/-- Registering first creates the uni-cast route and then the lists. -/
theorem linked_registerAddress
    {w w' : World} {addr : Address} {s : SessionId} {b : Bool}
    (h : w.tables.Linked)
    (hregister : registerAddress w addr s = .ok (b, w')) :
    w'.tables.Linked := by
  simp only [registerAddress, registerUni] at hregister
  cases hroute : w.tables.uni addr.key with
  | some r =>
      simp only [hroute] at hregister
      cases hregister
      exact h
  | none =>
      simp only [hroute, registerMulti] at hregister
      split at hregister
      · cases hregister
      · rename_i hfound
        cases hregister
        split at hfound
        · cases hfound
        · cases hfound
          refine ⟨h.multi_update addr s _, ?_⟩
          intro name lst hlst hne
          by_cases hname : name = addr.serviceName
          · subst hname
            simp only [Function.update_self, Option.some.injEq] at hlst
            cases hold : w.tables.multi addr.serviceName with
            | none =>
                rw [hold] at hlst
                exact absurd hlst.symm hne
            | some old =>
                rw [hold] at hlst
                have hold' : old ≠ [] := by
                  rw [show old = lst from hlst]
                  exact hne
                exact h.any _ old hold hold'
          · simp only [Function.update_of_ne hname] at hlst
            exact h.any name lst hlst hne
        · cases hfound
      · rename_i hfound
        split at hfound
        · cases hfound
        · cases hfound
        · cases hfound
          simp only [registerAny] at hregister
          split at hregister
          · cases hregister
          · rename_i hlast
            cases hregister
            split at hlast
            · cases hlast
            · cases hlast
              exact ⟨h.multi_update addr s _, h.any_update _ _ _⟩
            · cases hlast
          · rename_i hlast
            cases hregister
            split at hlast
            · cases hlast
            · cases hlast
            · cases hlast
              exact ⟨h.multi_update addr s _, h.any_update _ _ _⟩

/-- A list from which an element is erased has one. -/
theorem ne_nil_of_eraseSessions
    {sessions : SessionId → Session} {id : Nat} {lst lst' : List Pointer}
    (h : eraseSessions sessions id lst = .ok lst') :
    lst ≠ [] := by
  rintro rfl
  cases h

theorem linked_unregisterUni
    {t : Tables}
    (h : t.Linked)
    (addr : Address) :
    (unregisterUni t addr).2.Linked := by
  unfold unregisterUni
  split
  · exact h
  · refine ⟨fun k hk => ?_, h.any⟩
    by_cases hkey : k = addr.key
    · subst hkey
      exact absurd (Function.update_self _ _ _) hk
    · simp only [Function.update_of_ne hkey] at hk
      exact h.multi k hk

theorem linked_unregisterMulti
    {sessions : SessionId → Session} {t t' : Tables} {addr : Address} {b : Bool}
    (h : t.Linked)
    (hunregister : unregisterMulti sessions t addr = .ok (b, t')) :
    t'.Linked := by
  unfold unregisterMulti at hunregister
  split at hunregister
  · cases hunregister
    exact h
  rename_i lst hlst
  split at hunregister
  · cases hunregister
  rename_i erased herase
  cases hunregister
  constructor
  · intro k hk
    by_cases hname : k.serviceName = addr.serviceName
    · simp only [hname, Function.update_self]
      exact Option.some_ne_none erased
    · simp only [Function.update_of_ne hname]
      exact h.multi k hk
  · intro name other hother hne
    by_cases hname : name = addr.serviceName
    · rw [hname]
      exact h.any _ lst hlst (ne_nil_of_eraseSessions herase)
    · simp only [Function.update_of_ne hname] at hother
      exact h.any name other hother hne

theorem linked_unregisterAny
    {sessions : SessionId → Session} {t t' : Tables} {addr : Address} {b : Bool}
    (h : t.Linked)
    (hunregister : unregisterAny sessions t addr = .ok (b, t')) :
    t'.Linked := by
  unfold unregisterAny at hunregister
  split at hunregister
  · cases hunregister
    exact h
  split at hunregister
  · cases hunregister
  cases hunregister
  refine ⟨h.multi, ?_⟩
  intro name other hother hne
  by_cases hname : name = addr.serviceName
  · simp only [hname, Function.update_self]
    exact Option.some_ne_none _
  · simp only [Function.update_of_ne hname]
    exact h.any name other hother hne

/-- Unregistering removes a uni-cast route first and empties lists only. -/
theorem linked_unregisterAddress
    {sessions : SessionId → Session} {t t' : Tables} {addr : Address} {b : Bool}
    (h : t.Linked)
    (hunregister : unregisterAddress sessions t addr = .ok (b, t')) :
    t'.Linked :=
  unregisterAddress_rule sessions (linked_unregisterUni h addr)
    (fun _ _ _ h => linked_unregisterMulti h) (fun _ _ _ h => linked_unregisterAny h)
    hunregister

theorem linked_onClose
    {w w' : World} {s : SessionId}
    (h : w.tables.Linked)
    (hclose : onClose w s = .ok w') :
    w'.tables.Linked := by
  simp only [onClose] at hclose
  split at hclose
  · split at hclose
    · cases hclose
    · rename_i hunregister
      cases hclose
      exact linked_unregisterAddress h hunregister
  · cases hclose
    exact h

variable (env : Env)

theorem sendTo_tables
    (w : World) (s : SessionId) (m : Message) :
    (sendTo w s m).tables = w.tables := by
  simp only [sendTo]
  split
  · rfl
  · rfl

theorem sendMsg_tables
    (w : World) (s : SessionId) (m : Message) :
    (sendMsg env w s m).tables = w.tables := by
  rcases sendMsg_cases env w s m with h | h
  · rw [h]
  · rw [h, sendTo_tables]

theorem recvSetAddressReq_tables
    (w : World) (s : SessionId) (req : Option Address) :
    (recvSetAddressReq env w s req).tables = w.tables := by
  simp only [recvSetAddressReq]
  split
  · exact sendMsg_tables env _ s _
  · split
    · exact sendMsg_tables env _ s _
    · rw [sendMsg_tables]
      rfl

theorem castTo_tables
    (w : World) (p : Pending) (r : SessionId) :
    (castTo w p r).tables = w.tables := by
  simp only [castTo, sendTo_tables]
  split
  · rfl
  · simp only [addSession, World.log]
    split
    · rfl
    · rfl

theorem linked_cast
    {w w' : World} {p : Pending}
    (h : w.tables.Linked)
    (hcast : cast w p = .ok w') :
    w'.tables.Linked := by
  refine @cast_rule w w' p (fun w => w.tables.Linked) ?_ ?_ h hcast
  · intro w lst h
    exact h
  · intro w entry h
    refine ⟨h.multi, ?_⟩
    intro name lst hlst hne
    by_cases hname : name = p.addr.serviceName
    · rw [hname]
      simp only [Function.update_self]
      exact Option.some_ne_none _
    · simp only [Function.update_of_ne hname]
      exact h.any name lst hlst hne

theorem castNext_tables
    {w w' : World}
    (hnext : castNext w = .ok w') :
    w'.tables = w.tables := by
  rcases castNext_cases hnext with rfl | ⟨p, r, rest, _, rfl⟩
  · rfl
  · exact castTo_tables { w with casting := rest } p r

theorem recvSendMsgNtf_tables
    {w w' : World} {s : SessionId} {ntf : Option (Nat × List UInt8)}
    (hrecv : recvSendMsgNtf env w s ntf = .ok w') :
    w'.tables = w.tables := by
  obtain ⟨_, _, rfl⟩ := recvSendMsgNtf_eq env hrecv
  rfl

theorem findSession_tables
    (w : World) (r : SessionId) (msgSeq : Nat) :
    (findSession w r msgSeq).tables = w.tables := by
  simp only [findSession]
  split
  · rfl
  · rfl

theorem linked_recvSetAddressAns
    {w w' : World} {s : SessionId} {ans : Option (Int × Address)}
    (h : w.tables.Linked)
    (hrecv : recvSetAddressAns env w s ans = .ok w') :
    w'.tables.Linked := by
  cases ans with
  | none =>
      cases hrecv
      exact h
  | some ans =>
      simp only [recvSetAddressAns] at hrecv
      split at hrecv
      · split at hrecv
        · exact linked_onClose h hrecv
        · cases hrecv
      · split at hrecv
        · cases hrecv
        · rename_i w₁ hregister
          have hw₁ := linked_registerAddress h hregister
          split at hrecv
          · cases hrecv
            exact hw₁
          · cases hrecv
            rw [sendMsg_tables]
            exact hw₁

theorem linked_finishSendMsg
    {w w' : World} {p : Pending}
    (h : w.tables.Linked)
    (hfinish : finishSendMsg env w p = .ok w') :
    w'.tables.Linked := by
  have hcreated : ({ w with created := w.created + 1 } : World).tables.Linked := h
  rcases finishSendMsg_cases env hfinish with rfl | hcast
  · exact hcreated
  · exact linked_cast hcreated hcast

/-- Every step keeps the tables linked. -/
theorem linked_step
    {w w' : World} {a : Step}
    (h : w.tables.Linked)
    (hstep : step env w a = .ok w') :
    w'.tables.Linked := by
  cases a with
  | accept s =>
      cases hstep
      exact h
  | connect s =>
      cases hstep
      simp only [onConnect, sendMsg_tables]
      exact h
  | setAddressReq s req =>
      cases hstep
      rw [recvSetAddressReq_tables]
      exact h
  | setAddressAns s ans => exact linked_recvSetAddressAns env h hstep
  | setAddressNtf s =>
      simp only [step, recvSetAddressNtf] at hstep
      split at hstep
      · cases hstep
      · rename_i w₁ hregister
        cases hstep
        exact linked_registerAddress h hregister
  | sendMsgNtf s ntf =>
      rw [recvSendMsgNtf_tables env hstep]
      exact h
  | findSession k =>
      simp only [step] at hstep
      split at hstep
      · cases hstep
        exact h
      · cases hstep
        rw [findSession_tables]
        exact h
  | close s =>
      simp only [step] at hstep
      split at hstep
      · exact linked_onClose h hstep
      · cases hstep
        exact h
  | startSendMsg client addr buf =>
      cases hstep
      cases client with
      | none =>
          exact h
      | some c =>
          exact h
  | finishSendMsg k =>
      simp only [step] at hstep
      split at hstep
      · cases hstep
        exact h
      · rename_i p _
        have hpending : { w with pending := w.pending.eraseIdx k }.tables.Linked := h
        exact linked_finishSendMsg env hpending hstep
  | castNext =>
      rw [castNext_tables hstep]
      exact h
  | sweep r =>
      cases hstep
      exact h
  | clear r =>
      cases hstep
      exact h
  | tick now =>
      cases hstep
      exact h

end LinkedTables

section EveryRun

variable (env : Env)

theorem everyClose_purges_iff
    {w : World} {steps : List Step}
    (h : w.tables.Linked) :
    EveryClose env Purges w steps ↔
      EveryClose env (fun w s _ => Routed w s) w steps := by
  induction steps generalizing w with
  | nil =>
      rfl
  | cons a steps ih =>
      simp only [EveryClose]
      refine and_congr ?_ ?_
      · refine forall_congr' fun s => forall_congr' fun hcloses => ?_
        rw [step_of_closes env hcloses]
        exact onClose_purges_iff h s
      · refine forall_congr' fun w' => forall_congr' fun hstep => ?_
        exact ih (linked_step env h hstep)

/-- Closing router sessions: in every run of a router, whatever the messages and
their order, each session that closes takes exactly its own entries out of the
tables if and only if the routes of each session that closes are in order. -/
theorem closes_purge_iff
    (localAddress : Address) (steps : List Step) :
    EveryClose env Purges (World.initial localAddress) steps ↔
      EveryClose env (fun w s _ => Routed w s) (World.initial localAddress)
        steps :=
  everyClose_purges_iff env (linked_initial localAddress)

/-- The address of another server. -/
def gameServer : Address :=
  { serviceName := [103], castType := Address.uniCast, id := 1, msgSeq := 0 }

/-- Two connections from one server. -/
def twoConnections : List Step :=
  [.accept 0, .setAddressReq 0 (some gameServer), .setAddressNtf 0,
    .accept 1, .setAddressReq 1 (some gameServer), .setAddressNtf 1,
    .close 1]

/-- A router whose packet pool is not exhausted. -/
def Env.fresh : Env where
  pool := fun _ => some Tcp.freshStorage
  factory := fun _ => none

/-- The route of the first connection goes with the second one. -/
theorem twoConnections_not_purged :
    ¬ EveryClose Env.fresh Purges (World.initial Address.default)
      twoConnections := by
  intro h
  have h₁ := h.2 _ rfl
  have h₂ := h₁.2 _ rfl
  have h₃ := h₂.2 _ rfl
  have h₄ := h₃.2 _ rfl
  have h₅ := h₄.2 _ rfl
  have h₆ := h₅.2 _ rfl
  obtain ⟨w', hclose, htables⟩ := h₆.1 1 rfl
  cases hclose
  have hroute := congrFun (congrArg Tables.uni htables) gameServer.key
  exact absurd hroute (by decide)

end EveryRun

end Router
end Gamnet
