import Gamnet.Lib.Transition
import Gamnet.Router.Routes
import Mathlib.Data.List.Nodup

/-!
# The three tables of RouterCaster

RegisterAddress and UnregisterAddress go through the uni-cast, the multi-cast and the
any-cast table. The tables agree when a uni-cast route to a session is the same as one
entry for it in each of the two lists of its service name, under its own address.

Registering keeps this. Unregistering looks in the lists for the id alone and erases one
element at the iterator that remove_if returns. It keeps the agreement exactly if the
session that is removed is the first of the list with this id, and those that share the id
with it are the last of the list (`routes_agree_iff`).
-/

namespace Gamnet
namespace Router

/-- A call of RouterCaster. -/
inductive TableCall
  | register (addr : Address) (s : SessionId)
  | unregister (addr : Address)

namespace TableCall

/-- What the call returns, and the state behind it. -/
def run (w : World) : TableCall → Except Crash (Bool × World)
  | .register addr s => registerAddress w addr s
  | .unregister addr =>
      match unregisterAddress w.sessions w.tables addr with
      | .error e => .error e
      | .ok (b, t) => .ok (b, { w with tables := t })

/-- The sessions that are registered behind a call that returns true. -/
def record (registered : Address.Key → Option SessionId) :
    TableCall → Address.Key → Option SessionId
  | .register addr s => Function.update registered addr.key (some s)
  | .unregister addr => Function.update registered addr.key none

end TableCall

/-- The state of the casters, with the session that each address was registered for by the
calls so far. -/
structure Caster where
  world : World
  registered : Address.Key → Option SessionId

namespace Caster

def step (c : Caster) (x : TableCall) : Option Caster :=
  match x.run c.world with
  | .error _ => none
  | .ok (b, w) =>
      some { world := w, registered := if b then x.record c.registered else c.registered }

/-- The casters of a router that has no sessions yet. -/
def initial (localAddress : Address) : Caster where
  world := World.initial localAddress
  registered := fun _ => none

/-- Each session is registered under at most one address. -/
def Once (registered : Address.Key → Option SessionId) : Prop :=
  ∀ k k' s, registered k = some s → registered k' = some s → k = k'

/-- The call leaves each session under at most one address. -/
def Single (c : Caster) (x : TableCall) : Prop :=
  ∀ c', c.step x = some c' → Once c'.registered

end Caster

section Tables

/-- The multi-cast list of a service name. -/
def Tables.multiList (t : Tables) (name : List UInt8) : List Pointer :=
  (t.multi name).getD []

/-- The any-cast array of a service name. -/
def Tables.anyList (t : Tables) (name : List UInt8) : List Pointer :=
  ((t.any name).map Prod.snd).getD []

/-- The uni-cast table leads from an address to a session if and only if the session has
this address and occurs once in each of the two lists. -/
def RoutesAgree (w : World) : Prop :=
  ∀ (addr : Address) (s : SessionId), w.tables.uni addr.key = some s ↔
    (w.tables.multiList addr.serviceName).count (some s) = 1 ∧
      (w.tables.anyList addr.serviceName).count (some s) = 1 ∧
        addr.same (w.sessions s).address = true

/-- The tables agree behind a call, and a call that returns false has not changed them. -/
def Caster.Keeps (c : Caster) (x : TableCall) : Prop :=
  ∃ b w, x.run c.world = .ok (b, w) ∧ RoutesAgree w ∧
    (b = false → w.tables = c.world.tables)

/-- A session that is unregistered is the first with its id in the two lists, and the
others with this id are the last of the lists. -/
def Caster.InOrder (c : Caster) : TableCall → Prop
  | .register _ _ => True
  | .unregister addr => ∀ s, c.world.tables.uni addr.key = some s →
      RemoveIf.Removable (hasId c.world.sessions addr.id) (some s)
          (c.world.tables.multiList addr.serviceName) ∧
        RemoveIf.Removable (hasId c.world.sessions addr.id) (some s)
          (c.world.tables.anyList addr.serviceName)

end Tables

/-- What the calls keep while the tables agree. -/
structure Caster.Matched (c : Caster) : Prop where
  registered : c.world.tables.uni = c.registered
  lists : ∀ name, c.world.tables.anyList name = c.world.tables.multiList name
  noNull : ∀ name, none ∉ c.world.tables.multiList name
  nodup : ∀ name, (c.world.tables.multiList name).Nodup
  listed : ∀ name s, some s ∈ c.world.tables.multiList name →
    (c.world.sessions s).address.serviceName = name ∧
      c.world.tables.uni (c.world.sessions s).address.key = some s
  routed : ∀ k s, c.world.tables.uni k = some s →
    (c.world.sessions s).address.key = k ∧
      some s ∈ c.world.tables.multiList k.serviceName

namespace Caster.Matched

theorem initial
    (localAddress : Address) :
    (Caster.initial localAddress).Matched where
  registered := rfl
  lists := fun _ => rfl
  noNull := fun _ h => (by cases h)
  nodup := fun _ => List.nodup_nil
  listed := fun _ _ h => (by cases h)
  routed := fun _ _ h => (by cases h)

variable {c : Caster}

/-- Matched tables agree. -/
theorem agree
    (h : c.Matched) :
    RoutesAgree c.world := by
  intro addr s
  rw [h.lists, Address.same_iff]
  constructor
  · intro hroute
    obtain ⟨hkey, hmem⟩ := h.routed _ s hroute
    have hcount := List.count_eq_one_of_mem (h.nodup addr.serviceName) hmem
    exact ⟨hcount, hcount, hkey.symm⟩
  · rintro ⟨hcount, -, hkey⟩
    have hmem : some s ∈ c.world.tables.multiList addr.serviceName := by
      rw [← List.count_pos_iff, hcount]
      exact Nat.one_pos
    rw [hkey]
    exact (h.listed _ s hmem).2

end Caster.Matched

section Registering

variable {sessions : SessionId → Session} {t : Tables} {addr : Address} {s : SessionId}

/-- A list without null pointers in which no session has the address. -/
theorem hasAddress_of_none
    {lst : List Pointer}
    (hnull : none ∉ lst)
    (hnone : ∀ x, some x ∈ lst → addr.key ≠ (sessions x).address.key) :
    hasAddress sessions addr lst = .ok false := by
  induction lst with
  | nil =>
      rfl
  | cons x lst ih =>
      rw [List.mem_cons, not_or] at hnull
      cases x with
      | none =>
          exact absurd rfl hnull.1
      | some x =>
          have hx := hnone x List.mem_cons_self
          rw [Ne, ← Address.same_iff, Bool.not_eq_true] at hx
          rw [hasAddress, hx, if_neg Bool.false_ne_true]
          exact ih hnull.2 fun y hy => hnone y (List.mem_cons_of_mem _ hy)

/-- The tables behind a call of RegisterAddress that returns true. -/
def Tables.add (t : Tables) (addr : Address) (s : SessionId) : Tables where
  uni := Function.update t.uni addr.key (some s)
  multi := Function.update t.multi addr.serviceName
    (some (t.multiList addr.serviceName ++ [some s]))
  any := Function.update t.any addr.serviceName
    (some ((t.anyList addr.serviceName).length % 2 ^ 32,
      t.anyList addr.serviceName ++ [some s]))

theorem multiList_add
    (t : Tables) (addr : Address) (s : SessionId) (name : List UInt8) :
    (t.add addr s).multiList name =
      if name = addr.serviceName then t.multiList name ++ [some s] else t.multiList name := by
  split_ifs with hname
  · rw [hname]
    simp [Tables.multiList, Tables.add]
  · simp [Tables.multiList, Tables.add, hname]

theorem anyList_add
    (t : Tables) (addr : Address) (s : SessionId) (name : List UInt8) :
    (t.add addr s).anyList name =
      if name = addr.serviceName then t.anyList name ++ [some s] else t.anyList name := by
  split_ifs with hname
  · rw [hname]
    simp [Tables.anyList, Tables.add]
  · simp [Tables.anyList, Tables.add, hname]

theorem getD_any
    (t : Tables) (name : List UInt8) :
    ((t.any name).getD (0, [])).2 = t.anyList name := by
  unfold Tables.anyList
  cases t.any name <;> rfl

/-- RegisterAddress for an address that no table has. -/
theorem registerAddress_add
    {w : World}
    (hroute : w.tables.uni addr.key = none)
    (hmulti : hasAddress w.sessions addr (w.tables.multiList addr.serviceName) = .ok false)
    (hany : hasAddress w.sessions addr (w.tables.anyList addr.serviceName) = .ok false) :
    registerAddress w addr s =
      .ok (true, { w with tables := w.tables.add addr s }.setSession s
        { w.sessions s with address := addr }) := by
  unfold Tables.multiList at hmulti
  simp only [registerAddress, registerUni, hroute, registerMulti, hmulti, registerAny, getD_any,
    hany, Tables.add, Tables.multiList]

theorem Caster.Matched.hasAddress
    {c : Caster}
    (h : c.Matched)
    (hroute : c.world.tables.uni addr.key = none) :
    Router.hasAddress c.world.sessions addr (c.world.tables.multiList addr.serviceName) =
      .ok false := by
  refine hasAddress_of_none (h.noNull _) fun x hx hkey => ?_
  rw [hkey, (h.listed _ x hx).2] at hroute
  cases hroute

/-- RegisterAddress returns false and leaves everything as it is, or adds the session to
all three tables. -/
theorem Caster.Matched.register_cases
    {c : Caster}
    (h : c.Matched)
    (addr : Address) (s : SessionId) :
    registerAddress c.world addr s = .ok (false, c.world) ∨
      (c.world.tables.uni addr.key = none ∧
        registerAddress c.world addr s =
          .ok (true, { c.world with tables := c.world.tables.add addr s }.setSession s
            { c.world.sessions s with address := addr })) := by
  cases hroute : c.world.tables.uni addr.key with
  | some r =>
      refine .inl ?_
      simp only [registerAddress, registerUni, hroute]
  | none =>
      have hmulti := h.hasAddress hroute
      exact .inr ⟨rfl, registerAddress_add hroute hmulti (by rw [h.lists, hmulti])⟩

/-- A session that is registered under no address is added. -/
theorem Caster.Matched.add
    {c : Caster}
    (h : c.Matched)
    (hroute : c.world.tables.uni addr.key = none)
    (hfree : ∀ k, k ≠ addr.key → c.world.tables.uni k ≠ some s) :
    Caster.Matched
      { world := { c.world with tables := c.world.tables.add addr s }.setSession s
          { c.world.sessions s with address := addr }
        registered := Function.update c.registered addr.key (some s) } := by
  have hunlisted : ∀ name, some s ∉ c.world.tables.multiList name := by
    intro name hs
    have hself := (h.listed name s hs).2
    by_cases hkey : (c.world.sessions s).address.key = addr.key
    · rw [hkey, hroute] at hself
      cases hself
    · exact hfree _ hkey hself
  have hother : ∀ x, x ≠ s →
      Function.update c.world.sessions s { c.world.sessions s with address := addr } x =
        c.world.sessions x :=
    fun x hx => Function.update_of_ne hx _ _
  constructor
  · exact congrArg (Function.update · addr.key (some s)) h.registered
  · intro name
    simp only [World.setSession_tables]
    rw [multiList_add, anyList_add, h.lists]
  · intro name
    simp only [World.setSession_tables]
    rw [multiList_add]
    split_ifs
    · simpa using h.noNull name
    · exact h.noNull name
  · intro name
    simp only [World.setSession_tables]
    rw [multiList_add]
    split_ifs
    · exact (h.nodup name).append (List.nodup_singleton _) (by simpa using hunlisted name)
    · exact h.nodup name
  · intro name x hx
    simp only [World.setSession_tables, World.setSession_sessions] at hx ⊢
    rw [multiList_add] at hx
    by_cases hxs : x = s
    · subst hxs
      rw [Function.update_self]
      split_ifs at hx with hname
      · exact ⟨hname.symm, Function.update_self ..⟩
      · exact absurd hx (hunlisted name)
    · rw [hother x hxs]
      have hold : some x ∈ c.world.tables.multiList name := by
        split_ifs at hx
        · simpa [hxs] using hx
        · exact hx
      obtain ⟨hname, hself⟩ := h.listed name x hold
      refine ⟨hname, ?_⟩
      have hkey : (c.world.sessions x).address.key ≠ addr.key := by
        intro hkey
        rw [hkey, hroute] at hself
        cases hself
      exact (Function.update_of_ne hkey ..).trans hself
  · intro k x hx
    simp only [World.setSession_tables, World.setSession_sessions] at hx ⊢
    rw [multiList_add]
    by_cases hk : k = addr.key
    · subst hk
      obtain rfl : s = x := by simpa [Tables.add] using hx
      rw [Function.update_self,
        if_pos (show addr.key.serviceName = addr.serviceName from rfl)]
      exact ⟨rfl, by simp⟩
    · have hold : c.world.tables.uni k = some x := by
        simpa [Tables.add, hk] using hx
      have hxs : x ≠ s := fun hxs => hfree k hk (hxs ▸ hold)
      obtain ⟨hkey, hmem⟩ := h.routed k x hold
      rw [hother x hxs]
      refine ⟨hkey, ?_⟩
      split_ifs
      · exact List.mem_append_left _ hmem
      · exact hmem

end Registering

section Unregistering

variable {sessions : SessionId → Session} {t t' : Tables} {addr : Address} {s : SessionId}

/-- Unregistering does not look at the sequence number. -/
theorem unregisterAddress_congr
    {addr' : Address}
    (hkey : addr.key = addr'.key) :
    unregisterAddress sessions t addr = unregisterAddress sessions t addr' := by
  have hname : addr.serviceName = addr'.serviceName := congrArg Address.Key.serviceName hkey
  have hid : addr.id = addr'.id := congrArg Address.Key.id hkey
  simp only [unregisterAddress, unregisterUni, unregisterMulti, unregisterAny, hkey, hname, hid]

/-- What UnregisterAddress does to an address that is in the tables. -/
theorem unregisterAddress_ok
    {b : Bool} {first : Nat} {lst lst' : List Pointer}
    (huni : t.uni addr.key = some s)
    (hmulti : t.multi addr.serviceName = some lst)
    (hany : t.any addr.serviceName = some (first, lst'))
    (h : unregisterAddress sessions t addr = .ok (b, t')) :
    b = true ∧ ∃ erased erased',
      eraseSessions sessions addr.id lst = .ok erased ∧
        eraseSessions sessions addr.id lst' = .ok erased' ∧
          t' =
            { uni := Function.update t.uni addr.key none
              multi := Function.update t.multi addr.serviceName (some erased)
              any := Function.update t.any addr.serviceName (some (first, erased')) } := by
  simp only [unregisterAddress, unregisterUni, huni, unregisterMulti, hmulti] at h
  cases herase : eraseSessions sessions addr.id lst with
  | error e =>
      simp only [herase] at h
      cases h
  | ok erased =>
      simp only [herase, unregisterAny, hany] at h
      cases herase' : eraseSessions sessions addr.id lst' with
      | error e =>
          simp only [herase'] at h
          cases h
      | ok erased' =>
          simp only [herase'] at h
          cases h
          exact ⟨rfl, erased, erased', rfl, rfl, rfl⟩

theorem eraseAt_of_eraseSessions
    {id : Nat} {lst erased : List Pointer}
    (h : eraseSessions sessions id lst = .ok erased) :
    RemoveIf.eraseAt (RemoveIf.removeIf (hasId sessions id) none lst) = some erased := by
  unfold eraseSessions at h
  split at h
  · cases h
  · split at h
    · cases h
    · rename_i lst' hlst'
      cases h
      exact hlst'

theorem multiList_purge
    (t : Tables) (s : SessionId) (name : List UInt8) :
    (t.purge s).multiList name = purgeList s (t.multiList name) := by
  simp only [Tables.multiList, Tables.purge]
  cases t.multi name <;> rfl

theorem anyList_purge
    (t : Tables) (s : SessionId) (name : List UInt8) :
    (t.purge s).anyList name = purgeList s (t.anyList name) := by
  simp only [Tables.anyList, Tables.purge]
  cases t.any name <;> rfl

theorem mem_purgeList
    {x : Pointer} {lst : List Pointer} :
    x ∈ purgeList s lst ↔ x ∈ lst ∧ x ≠ some s := by
  simp [purgeList]

theorem multi_of_mem
    {name : List UInt8} {x : Pointer}
    (hx : x ∈ t.multiList name) :
    t.multi name = some (t.multiList name) := by
  unfold Tables.multiList at hx ⊢
  cases hmulti : t.multi name with
  | none =>
      rw [hmulti] at hx
      cases hx
  | some lst => rfl

theorem any_of_mem
    {name : List UInt8} {x : Pointer}
    (hx : x ∈ t.anyList name) :
    ∃ first, t.any name = some (first, t.anyList name) := by
  unfold Tables.anyList at hx ⊢
  cases hany : t.any name with
  | none =>
      rw [hany] at hx
      cases hx
  | some entry => exact ⟨entry.1, rfl⟩

end Unregistering

namespace Caster

variable {c : Caster} {addr : Address}

/-- An address that is in no table is not unregistered. -/
theorem run_unregister_of_none
    (hroute : c.world.tables.uni addr.key = none) :
    (TableCall.unregister addr).run c.world = .ok (false, c.world) := by
  simp only [TableCall.run, unregisterAddress, unregisterUni, hroute]

theorem step_eq
    {x : TableCall} {b : Bool} {w : World}
    (hrun : x.run c.world = .ok (b, w)) :
    c.step x =
      some { world := w, registered := if b then x.record c.registered else c.registered } := by
  simp only [Caster.step, hrun]

end Caster

namespace Caster.Matched

variable {c : Caster} {addr : Address} {s : SessionId}

theorem linked
    (h : c.Matched) :
    c.world.tables.Linked where
  multi := by
    intro k hk
    obtain ⟨s, hs⟩ := Option.ne_none_iff_exists'.mp hk
    rw [multi_of_mem (h.routed k s hs).2]
    exact Option.some_ne_none _
  any := by
    intro name lst hlst hne
    obtain ⟨x, hx⟩ := List.exists_mem_of_ne_nil lst hne
    have hmem : x ∈ c.world.tables.anyList name := by
      rw [h.lists, Tables.multiList, hlst]
      exact hx
    obtain ⟨first, hany⟩ := any_of_mem hmem
    rw [hany]
    exact Option.some_ne_none _

/-- A session with a route is under its own address in all three tables, and in order in
its lists if the others with its id come last. -/
theorem routes
    (h : c.Matched)
    (hroute : c.world.tables.uni (c.world.sessions s).address.key = some s)
    (hremovable : RemoveIf.Removable (hasId c.world.sessions (c.world.sessions s).address.id)
      (some s) (c.world.tables.multiList (c.world.sessions s).address.serviceName)) :
    RoutedUni c.world.tables s (c.world.sessions s).address ∧
      RoutedMulti c.world.sessions c.world.tables s (c.world.sessions s).address ∧
        RoutedAny c.world.sessions c.world.tables s (c.world.sessions s).address := by
  have hmem := (h.routed _ s hroute).2
  refine ⟨⟨hroute, ?_⟩, ⟨⟨_, multi_of_mem hmem, h.noNull _, hremovable⟩, ?_⟩, ?_⟩
  · intro k hk hs
    exact hk (h.routed k s hs).1.symm
  · intro name lst hname hlst hs
    have hs' : some s ∈ c.world.tables.multiList name := by
      rw [Tables.multiList, hlst]
      exact hs
    exact hname (h.listed name s hs').1.symm
  · rw [← h.lists] at hmem hremovable
    obtain ⟨first, hany⟩ := any_of_mem hmem
    refine ⟨⟨first, _, hany, ?_, hremovable⟩, ?_⟩
    · rw [h.lists]
      exact h.noNull _
    · intro name first' lst hname hlst hs
      have hs' : some s ∈ c.world.tables.anyList name := by
        rw [Tables.anyList, hlst]
        exact hs
      rw [h.lists] at hs'
      exact hname (h.listed name s hs').1.symm

/-- Unregistering in order takes the entries of the session out of the tables. -/
theorem unregister
    (h : c.Matched)
    (hroute : c.world.tables.uni addr.key = some s)
    (horder : c.InOrder (.unregister addr)) :
    unregisterAddress c.world.sessions c.world.tables addr =
      .ok (true, c.world.tables.purge s) := by
  obtain ⟨hkey, hmem⟩ := h.routed _ s hroute
  have hname : (c.world.sessions s).address.serviceName = addr.serviceName :=
    congrArg Address.Key.serviceName hkey
  have hid : (c.world.sessions s).address.id = addr.id := congrArg Address.Key.id hkey
  have hremovable := (horder s hroute).1
  rw [← hname, ← hid] at hremovable
  rw [← hkey] at hroute
  obtain ⟨b, hb⟩ := (unregisterAddress_purges_iff h.linked rfl
    (hroute ▸ Option.some_ne_none s)).mpr (h.routes hroute hremovable)
  have hmem' : some s ∈ c.world.tables.anyList addr.serviceName := by
    rw [h.lists]
    exact hmem
  obtain ⟨first, hany⟩ := any_of_mem hmem'
  rw [unregisterAddress_congr hkey] at hb
  rw [hkey] at hroute
  obtain ⟨rfl, -⟩ := unregisterAddress_ok hroute (multi_of_mem hmem) hany hb
  exact hb

/-- Without the entries of one session the tables are matched. -/
theorem purge
    (h : c.Matched)
    (hroute : c.world.tables.uni addr.key = some s) :
    Caster.Matched
      { world := { c.world with tables := c.world.tables.purge s }
        registered := Function.update c.registered addr.key none } := by
  have hkey := (h.routed _ s hroute).1
  have honly : ∀ k, c.world.tables.uni k = some s → k = addr.key := fun k hk =>
    (h.routed k s hk).1.symm.trans hkey
  constructor
  · funext k
    simp only [Tables.purge]
    rw [← h.registered]
    by_cases hk : k = addr.key
    · rw [hk, Function.update_self, if_pos hroute]
    · rw [Function.update_of_ne hk, if_neg fun hs => hk (honly k hs)]
  · intro name
    simp only [multiList_purge, anyList_purge, h.lists]
  · intro name hnone
    rw [multiList_purge, mem_purgeList] at hnone
    exact h.noNull name hnone.1
  · intro name
    rw [multiList_purge]
    exact (h.nodup name).filter _
  · intro name x hx
    rw [multiList_purge, mem_purgeList] at hx
    obtain ⟨hname, hself⟩ := h.listed name x hx.1
    refine ⟨hname, ?_⟩
    simp only [Tables.purge]
    rw [if_neg fun hs => hx.2 (hself.symm.trans hs)]
    exact hself
  · intro k x hx
    simp only [Tables.purge] at hx
    split_ifs at hx with hs
    obtain ⟨hkey, hmem⟩ := h.routed k x hx
    refine ⟨hkey, ?_⟩
    rw [multiList_purge, mem_purgeList]
    exact ⟨hmem, fun hxs => hs (hx.trans hxs)⟩

theorem run_unregister
    (h : c.Matched)
    (hroute : c.world.tables.uni addr.key = some s)
    (horder : c.InOrder (.unregister addr)) :
    (TableCall.unregister addr).run c.world =
      .ok (true, { c.world with tables := c.world.tables.purge s }) := by
  simp only [TableCall.run, h.unregister hroute horder]

/-- A call in order keeps the tables matched, and changes nothing if it returns false. -/
theorem call
    (h : c.Matched)
    {x : TableCall}
    (hsingle : c.Single x)
    (horder : c.InOrder x) :
    ∃ b w, x.run c.world = .ok (b, w) ∧
      Caster.Matched
        { world := w, registered := if b then x.record c.registered else c.registered } ∧
      (b = false → w.tables = c.world.tables) := by
  cases x with
  | register addr s =>
      obtain hrun | ⟨hroute, hrun⟩ := h.register_cases addr s
      · exact ⟨false, c.world, hrun, h, fun _ => rfl⟩
      · refine ⟨true, _, hrun, h.add hroute ?_, fun hb => by cases hb⟩
        intro k hk hs
        rw [h.registered] at hs
        refine hk (hsingle _ (step_eq hrun) k addr.key s ?_ ?_)
        · exact (Function.update_of_ne hk ..).trans hs
        · exact Function.update_self ..
  | unregister addr =>
      cases hroute : c.world.tables.uni addr.key with
      | none => exact ⟨false, c.world, run_unregister_of_none hroute, h, fun _ => rfl⟩
      | some s =>
          exact ⟨true, _, h.run_unregister hroute horder, h.purge hroute,
            fun hb => by cases hb⟩

theorem keeps
    (h : c.Matched)
    {x : TableCall}
    (hsingle : c.Single x)
    (horder : c.InOrder x) :
    c.Keeps x := by
  obtain ⟨b, w, hrun, hmatched, hsame⟩ := h.call hsingle horder
  exact ⟨b, w, hrun, hmatched.agree, hsame⟩

theorem step
    (h : c.Matched)
    {x : TableCall} {c' : Caster}
    (hsingle : c.Single x)
    (horder : c.InOrder x)
    (hstep : c.step x = some c') :
    c'.Matched := by
  obtain ⟨b, w, hrun, hmatched, -⟩ := h.call hsingle horder
  rw [step_eq hrun] at hstep
  cases hstep
  exact hmatched

/-- If the tables still agree when a session has been unregistered, it was in order. -/
theorem inOrder
    (h : c.Matched)
    {x : TableCall}
    (hkeeps : c.Keeps x) :
    c.InOrder x := by
  cases x with
  | register addr s => trivial
  | unregister addr =>
      intro s hroute
      obtain ⟨hkey, hmem⟩ := h.routed _ s hroute
      have hmem' : some s ∈ c.world.tables.anyList addr.serviceName := by
        rw [h.lists]
        exact hmem
      obtain ⟨first, hany⟩ := any_of_mem hmem'
      obtain ⟨b, w, hrun, hagree, -⟩ := hkeeps
      simp only [TableCall.run] at hrun
      split at hrun
      · cases hrun
      · rename_i b' t hunregister
        cases hrun
        obtain ⟨-, erased, erased', herase, herase', rfl⟩ :=
          unregisterAddress_ok hroute (multi_of_mem hmem) hany hunregister
        -- every other session of the service still has its route, and so its entries
        have hothers : ∀ p ∈ c.world.tables.multiList addr.serviceName, p ≠ some s →
            p ∈ erased ∧ p ∈ erased' := by
          intro p hp hne
          cases p with
          | none => exact absurd hp (h.noNull _)
          | some x =>
              obtain ⟨hname, hself⟩ := h.listed _ x hp
              have hdiffers : (c.world.sessions x).address.key ≠ addr.key := by
                intro hx
                rw [hx] at hself
                exact hne (hself.symm.trans hroute)
              have hcounts := (hagree (c.world.sessions x).address x).mp
                ((Function.update_of_ne hdiffers ..).trans hself)
              simp only [Tables.multiList, Tables.anyList, hname, Function.update_self,
                Option.getD_some, Option.map_some] at hcounts
              constructor
              · rw [← List.count_pos_iff, hcounts.1]
                exact Nat.one_pos
              · rw [← List.count_pos_iff, hcounts.2.1]
                exact Nat.one_pos
        refine ⟨?_, ?_⟩
        · exact RemoveIf.removable_of_subset (h.noNull _) (h.nodup _)
            (eraseAt_of_eraseSessions herase) fun p hp hne => (hothers p hp hne).1
        · rw [h.lists] at herase' ⊢
          exact RemoveIf.removable_of_subset (h.noNull _) (h.nodup _)
            (eraseAt_of_eraseSessions herase') fun p hp hne => (hothers p hp hne).2

end Caster.Matched

/-- In every sequence of calls in which no session is registered under two addresses, the
three tables agree after each call, and each call that returns false changes none of them,
if and only if each session that is unregistered is in order in its lists. -/
theorem routes_agree_iff
    (localAddress : Address)
    (calls : List TableCall)
    (hsingle : Transition.Along Caster.step Caster.Single (Caster.initial localAddress) calls) :
    Transition.Along Caster.step Caster.Keeps (Caster.initial localAddress) calls ↔
      Transition.Along Caster.step Caster.InOrder (Caster.initial localAddress) calls :=
  Transition.along_iff Caster.Matched
    (fun _ _ h hx => ⟨h.inOrder, h.keeps hx⟩)
    (fun _ _ _ h hx horder hstep => h.step hx horder hstep)
    (Caster.Matched.initial localAddress) hsingle

/-- Another server of the same service. -/
def secondServer : Address :=
  { gameServer with id := 2 }

/-- The same server under another cast type. -/
def gameServers : Address :=
  { gameServer with castType := Address.multiCast }

namespace Caster

variable {c : Caster}

theorem single_register
    {s : SessionId}
    (honce : Once c.registered)
    (hfree : ∀ k, c.registered k ≠ some s)
    (addr : Address) :
    c.Single (.register addr s) := by
  intro c' hstep k k' x hk hk'
  unfold step at hstep
  split at hstep
  · cases hstep
  · rename_i b w _
    cases hstep
    cases b with
    | false => exact honce k k' x hk hk'
    | true =>
        have hold : ∀ l, Function.update c.registered addr.key (some s) l = some x →
            (l = addr.key ∧ x = s) ∨ (x ≠ s ∧ c.registered l = some x) := by
          intro l hl
          by_cases heq : l = addr.key
          · rw [heq, Function.update_self] at hl
            exact .inl ⟨heq, (Option.some.inj hl).symm⟩
          · rw [Function.update_of_ne heq] at hl
            exact .inr ⟨fun hxs => hfree l (hxs ▸ hl), hl⟩
        obtain ⟨hl, hxs⟩ | ⟨hne, hl⟩ := hold k hk
        · obtain ⟨hl', -⟩ | ⟨hne, -⟩ := hold k' hk'
          · exact hl.trans hl'.symm
          · exact absurd hxs hne
        · obtain ⟨-, hxs⟩ | ⟨-, hl'⟩ := hold k' hk'
          · exact absurd hxs hne
          · exact honce k k' x hl hl'

theorem single_unregister
    (honce : Once c.registered)
    (addr : Address) :
    c.Single (.unregister addr) := by
  intro c' hstep k k' x hk hk'
  unfold step at hstep
  split at hstep
  · cases hstep
  · rename_i b w _
    cases hstep
    cases b with
    | false => exact honce k k' x hk hk'
    | true =>
        have hold : ∀ l, Function.update c.registered addr.key none l = some x →
            c.registered l = some x := by
          intro l hl
          by_cases heq : l = addr.key
          · rw [heq, Function.update_self] at hl
            cases hl
          · rwa [Function.update_of_ne heq] at hl
        exact honce k k' x (hold k hk) (hold k' hk')

end Caster

/-- Session 1 is not registered behind the registration of session 0. -/
theorem second_free
    (k : Address.Key) :
    Function.update (Caster.initial Address.default).registered gameServer.key (some 0) k ≠
      some 1 := by
  by_cases hk : k = gameServer.key
  · rw [hk, Function.update_self]
    decide
  · rw [Function.update_of_ne hk]
    exact (Option.some_ne_none 1).symm

/-- Two sessions of one service are registered and unregistered. -/
theorem routes_agree_iff_two :
    Transition.Along Caster.step Caster.Keeps (Caster.initial Address.default)
        [.register gameServer 0, .register secondServer 1, .unregister gameServer,
          .unregister secondServer] ↔
      Transition.Along Caster.step Caster.InOrder (Caster.initial Address.default)
        [.register gameServer 0, .register secondServer 1, .unregister gameServer,
          .unregister secondServer] := by
  have honce : Caster.Once (Caster.initial Address.default).registered := by
    intro k k' x hk
    cases hk
  have hfirst : (Caster.initial Address.default).Single (.register gameServer 0) :=
    Caster.single_register honce (fun k hk => by cases hk) gameServer
  have hsecond := Caster.single_register (hfirst _ rfl) second_free secondServer
  have hthird := Caster.single_unregister (hsecond _ rfl) gameServer
  exact routes_agree_iff Address.default _
    (.cons hfirst rfl (.cons hsecond rfl (.cons hthird rfl
      ⟨Caster.single_unregister (hthird _ rfl) secondServer, fun _ _ => trivial⟩)))

/-- Two addresses differ in their cast type alone. When the second one is unregistered, the
lists lose the session of the first. -/
theorem routes_not_agree :
    ¬ ∀ calls, Transition.Along Caster.step Caster.Single (Caster.initial Address.default) calls →
      Transition.Along Caster.step Caster.Keeps (Caster.initial Address.default) calls := by
  intro hagree
  have honce : Caster.Once (Caster.initial Address.default).registered := by
    intro k k' x hk
    cases hk
  have hfirst : (Caster.initial Address.default).Single (.register gameServer 0) :=
    Caster.single_register honce (fun k hk => by cases hk) gameServer
  have hsecond := Caster.single_register (hfirst _ rfl) second_free gameServers
  have hkeeps := hagree
    [.register gameServer 0, .register gameServers 1, .unregister gameServers]
    (.cons hfirst rfl (.cons hsecond rfl ⟨Caster.single_unregister (hsecond _ rfl) gameServers,
      fun _ _ => trivial⟩))
  obtain ⟨b, w, hrun, hroutes, -⟩ := ((hkeeps.2 _ rfl).2 _ rfl).1
  cases hrun
  have hroute := (hroutes gameServer 0).mp rfl
  exact absurd hroute.1 (by decide)

end Router
end Gamnet
